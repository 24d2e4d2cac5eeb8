import LoxInterpreter.Table

/-!
Contract: paths, and a working directory as data.

A path is shown without empty parts and without parts that stay where they are. It is followed part
by part; no part may have more than 255 bytes, nor the path more than 4095. Around the working
directory stand other directories, without end, in which no name leads anywhere.

Owns: the normal form of paths, `Directory`, and the ways in which a file cannot be read.
-/

namespace LoxInterpreter.CommandLine

inductive ReadFailure where
  | notFound
  | isDirectory
  | notDirectory
  | nameTooLong
  | other (details : String)
deriving DecidableEq, Repr

def ReadFailure.words : ReadFailure → String
  | notFound => "No such file or directory"
  | isDirectory => "Is a directory"
  | notDirectory => "Not a directory"
  | nameTooLong => "File name too long"
  | other details => details

namespace Path

def parts (path : String) : List String :=
  (split [] path.toList).filter fun part => part ≠ "" && part ≠ "."
where
  /-- The texts between slashes, given the characters since the last one in reverse. -/
  split (part : List Char) : List Char → List String
    | [] => [String.ofList part.reverse]
    | '/' :: rest => String.ofList part.reverse :: split [] rest
    | first :: rest => split (first :: part) rest

/-- The slashes with which a path begins; two keep a meaning of their own, more do not. -/
def root (path : String) : String :=
  match (path.toList.takeWhile (· = '/')).length with
  | 0 => ""
  | 2 => "//"
  | _ => "/"

def normalize (path : String) : String :=
  let text := root path ++ String.intercalate "/" (parts path)
  if text.isEmpty then "." else text

/-- Whether a path has more bytes than can be followed. -/
def isTooLong (path : String) : Bool := 4095 < (normalize path).utf8ByteSize

def isPartTooLong (part : String) : Bool := 255 < part.utf8ByteSize

end Path

inductive Entry where
  | file (content : ByteArray)
  | folder

inductive Place where
  /-- Into the working directory, by these parts, the last of them first. -/
  | inside (reversed : List String)
  /-- To one of the directories around it. -/
  | outside
deriving DecidableEq, Repr

structure Directory where
  entries : Table Entry

namespace Directory

/-- The key of the parts of a path, which are given from the last to the first. -/
def key (reversed : List String) : String := String.intercalate "/" reversed.reverse

/-- What stands at a place. What leads to an entry is a folder. -/
def entryAt (directory : Directory) : Place → Option Entry
  | .outside | .inside [] => some .folder
  | .inside reversed =>
      let name := key reversed
      match directory.entries.get? name with
      | some entry => some entry
      | none =>
          let leads (other : String) : Bool := (name ++ "/").toList.isPrefixOf other.toList
          if directory.entries.names.any leads then some .folder else none

/-- Follows one part of a path, which must start from a folder. -/
def step (directory : Directory) (place : Place) (part : String) : Except ReadFailure Place :=
  match directory.entryAt place with
  | none => .error .notFound
  | some (.file _) => .error .notDirectory
  | some .folder =>
      if part = ".." then
        match place with
        | .outside | .inside [] => .ok .outside
        | .inside (_ :: outer) => .ok (.inside outer)
      else if Path.isPartTooLong part then .error .nameTooLong
      else
        match place with
        | .outside => .error .notFound
        | .inside reversed => .ok (.inside (part :: reversed))

/-- The place to which a path leads. Nothing need stand there yet. -/
def locate (directory : Directory) (path : String) : Except ReadFailure Place :=
  if Path.isTooLong path then .error .nameTooLong
  else
    let start := if Path.root path = "" then .inside [] else .outside
    (Path.parts path).foldlM directory.step start

def read (directory : Directory) (path : String) : Except ReadFailure ByteArray := do
  let place ← directory.locate path
  match directory.entryAt place with
  | some (.file content) => return content
  | some .folder => throw .isDirectory
  | none => throw .notFound

/-- The directory with a file written, unless the path leads to no file. -/
def write (directory : Directory) (path : String) (content : ByteArray) : Directory :=
  match directory.locate path with
  | .ok (.inside reversed) =>
      match directory.entryAt (.inside reversed) with
      | some .folder => directory
      | _ => ⟨directory.entries.set (key reversed) (.file content)⟩
  | _ => directory

/-- The directory with text at the end of a file, which is made if it is missing. -/
def append (directory : Directory) (path text : String) : Directory :=
  if text.isEmpty then directory
  else
    match directory.read path with
    | .ok content => directory.write path (content ++ text.toUTF8)
    | .error _ => directory.write path text.toUTF8

/-- The files, other than those in folders, that are new or have another content than before, with
their texts. -/
def changesSince (directory before : Directory) : List (String × String) :=
  directory.entries.entries.filterMap fun (name, entry) =>
    match entry with
    | .folder => none
    | .file content =>
        let same : Bool :=
          match before.entries.get? name with
          | some (.file old) => content == old
          | _ => false
        if name.contains '/' || same then none
        else some (name, (String.fromUTF8? content).getD "")

end Directory

end LoxInterpreter.CommandLine
