import LoxInterpreter.Table
import LoxInterpreter.Text.Quoted

/-!
Contract: variables in frames, and environments as chains of frames.

A frame is a table of variables. An environment is the chain of the frames that are in reach, the
innermost first; it names frames of a store, so that two environments with a frame in common see each
other's changes to it. A frame, once made, stays.

Owns: `Store`, `Environment`, and access to variables by name and by distance.
Does not own: what variables contain; the store is generic in it.
-/

namespace LoxInterpreter

abbrev FrameId := Nat

/-- The frames in reach, the innermost first. -/
abbrev Environment := List FrameId

/-- All frames that were ever made. -/
structure Store (Content : Type) where
  frames : Array (Table Content)

inductive AccessFailure where
  | noSuchFrame
  | noSuchName
deriving DecidableEq, Repr

namespace Store

variable {Content : Type}

def empty : Store Content := ⟨#[]⟩

def frame (store : Store Content) (id : FrameId) : Table Content :=
  (store.frames[id]?).getD Table.empty

/-- A new frame, without variables, in front of an environment. -/
def extend (store : Store Content) (environment : Environment) : Environment × Store Content :=
  (store.frames.size :: environment, ⟨store.frames.push Table.empty⟩)

def write (store : Store Content) (id : FrameId) (name : String) (content : Content) :
    Store Content :=
  ⟨store.frames.modify id (·.set name content)⟩

/-- The store with a variable defined in the innermost frame, whether or not it is there already. -/
def define (store : Store Content) (environment : Environment) (name : String)
    (content : Content) : Store Content :=
  match environment with
  | [] => store
  | innermost :: _ => store.write innermost name content

def holder? (store : Store Content) (environment : Environment) (name : String) :
    Option FrameId :=
  environment.find? fun id => (store.frame id).contains name

/-- The content of a name in the nearest frame that has it. -/
def lookup? (store : Store Content) (environment : Environment) (name : String) :
    Option Content := do
  let id ← store.holder? environment name
  (store.frame id).get? name

/-- The store with a name changed in the nearest frame that has it. -/
def assign? (store : Store Content) (environment : Environment) (name : String)
    (content : Content) : Option (Store Content) := do
  let id ← store.holder? environment name
  return store.write id name content

def readAt (store : Store Content) (environment : Environment) (distance : Nat) (name : String) :
    Except AccessFailure Content :=
  match environment[distance]? with
  | none => .error .noSuchFrame
  | some id =>
      match (store.frame id).get? name with
      | none => .error .noSuchName
      | some content => .ok content

/-- The store with a name written in the frame at a distance, whether or not it is there already. -/
def writeAt (store : Store Content) (environment : Environment) (distance : Nat) (name : String)
    (content : Content) : Except AccessFailure (Store Content) :=
  match environment[distance]? with
  | none => .error .noSuchFrame
  | some id => .ok (store.write id name content)

/-- An environment in words: how many frames enclose its innermost one, and the names of that frame
in the order of their characters. -/
def describe (store : Store Content) (environment : Environment) : String :=
  let names := (environment.head?.map fun id => (store.frame id).names).getD []
  let sorted := names.mergeSort fun first second => !decide (second < first)
  s!"<Environment depth={environment.length - 1} names=[" ++
    String.intercalate ", " (sorted.map Text.quoted) ++ "]>"

end Store

/-- The environment a number of frames further out; a number below zero stays. -/
def Environment.ancestor (environment : Environment) (distance : Int) : Environment :=
  environment.drop distance.toNat

end LoxInterpreter
