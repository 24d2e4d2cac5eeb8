import LoxInterpreter.Proofs.Execution.Frames

/-!
Contract: what is read through environments after a write through one of them.

A program makes environments one after another, each with a frame of its own in front of an environment
that it has already, or of none. So they form a forest: an environment is told by its own frame, and those
that enclose it are in the forest as well. A write by name changes one variable, which is seen through the
environments from which the changed one is the nearest that has the name, and through no others.

Owns: `Forest` and the steps that build one, `Forest.WellFormed`, `Store.IsHolder`, and
`Forest.reads_agree_with_writes`.
Does not own: what changes to a store leave alone (`Proofs.Execution.Frames`).
-/

namespace LoxInterpreter

variable {Content : Type}

/-! ## The nearest environment that has a name -/

namespace Store

/-- What an environment has itself for a name, in its own frame. -/
def own? (store : Store Content) (environment : Environment) (name : String) : Option Content :=
  environment.head?.bind fun id => (store.frame id).get? name

/-- Whether the environment at a distance has a name itself, and none nearer has. -/
structure HeldAt (store : Store Content) (environment : Environment) (name : String) (distance : Nat) : Prop where
  held : ∃ content, store.own? (environment.ancestor distance) name = some content
  nearest : ∀ nearer < distance, store.own? (environment.ancestor nearer) name = none

/-- Whether an environment is the nearest that has a name, from another one outwards. -/
def IsHolder (store : Store Content) (environment : Environment) (name : String) (holder : Environment) : Prop :=
  ∃ distance : Nat, holder = environment.ancestor distance ∧ store.HeldAt environment name distance

variable {store : Store Content} {environment : Environment} {name : String}

theorem head?_ancestor (environment : Environment) (distance : Nat) :
    (environment.ancestor distance).head? = environment[distance]? := by
  simp [Environment.ancestor]

theorem own?_ancestor (store : Store Content) (environment : Environment) (distance : Nat) (name : String) :
    store.own? (environment.ancestor distance) name =
      environment[distance]?.bind fun id => (store.frame id).get? name := by
  rw [own?, head?_ancestor]

/-- Looking for a name finds the frame of the nearest environment that has it. -/
theorem holder?_eq_some_iff {id : FrameId} :
    store.holder? environment name = some id ↔
      ∃ distance, environment[distance]? = some id ∧ store.HeldAt environment name distance := by
  unfold holder?
  rw [List.find?_eq_some_iff_getElem]
  constructor
  · rintro ⟨contained, distance, inside, rfl, others⟩
    refine ⟨distance, List.getElem?_eq_getElem inside, ?_, fun nearer less => ?_⟩
    · rw [own?_ancestor, List.getElem?_eq_getElem inside]
      exact Table.contains_iff.mp contained
    · have absent := others nearer less
      rw [own?_ancestor, List.getElem?_eq_getElem (Nat.lt_trans less inside)]
      simpa [Table.contains] using absent
  · rintro ⟨distance, isFrame, held, nearest⟩
    obtain ⟨inside, rfl⟩ := List.getElem?_eq_some_iff.mp isFrame
    rw [own?_ancestor, isFrame] at held
    refine ⟨Table.contains_iff.mpr held, distance, inside, rfl, fun nearer less => ?_⟩
    have absent := nearest nearer less
    rw [own?_ancestor, List.getElem?_eq_getElem (Nat.lt_trans less inside)] at absent
    simpa [Table.contains] using absent

/-- The frame that is found for a name has it. -/
theorem contains_of_holder? {id : FrameId} (found : store.holder? environment name = some id) :
    (store.frame id).contains name = true := by
  unfold holder? at found
  exact @List.find?_some _ (fun id => (store.frame id).contains name) _ _ found

theorem lookup?_of_holder? {id : FrameId} (found : store.holder? environment name = some id) :
    store.lookup? environment name = (store.frame id).get? name := by
  rw [lookup?, found]
  rfl

theorem lookup?_eq_none_iff : store.lookup? environment name = none ↔ store.holder? environment name = none := by
  cases found : store.holder? environment name with
  | none =>
      rw [lookup?, found]
      exact ⟨fun _ => rfl, fun _ => rfl⟩
  | some id =>
      obtain ⟨content, isContent⟩ := Table.contains_iff.mp (contains_of_holder? found)
      rw [lookup?_of_holder? found, isContent]
      simp

theorem assign?_eq (store : Store Content) (environment : Environment) (name : String) (content : Content) :
    store.assign? environment name content =
      (store.holder? environment name).map fun id => store.write id name content := by
  unfold assign?
  cases store.holder? environment name <;> rfl

/-- A name is read by the distance of the nearest environment that has it as it is read by itself. -/
theorem HeldAt.readAt {distance : Nat} (heldAt : store.HeldAt environment name distance) :
    ∃ content, store.readAt environment distance name = .ok content ∧
      store.lookup? environment name = some content := by
  obtain ⟨content, isOwn⟩ := heldAt.held
  rw [own?_ancestor] at isOwn
  obtain ⟨id, isFrame, isContent⟩ := Option.bind_eq_some_iff.mp isOwn
  refine ⟨content, ?_, ?_⟩
  · unfold Store.readAt
    rw [isFrame]
    dsimp only
    rw [isContent]
  · rw [lookup?_of_holder? (holder?_eq_some_iff.mpr ⟨distance, isFrame, heldAt⟩), isContent]

/-! ## Writing a variable that is there -/

section Write

variable {id : FrameId} (present : (store.frame id).contains name = true) (content : Content)

/-- A frame that has a name was made. -/
theorem lt_size_of_contains (present : (store.frame id).contains name = true) : id < store.frames.size := by
  refine Nat.lt_of_not_le fun notMade => ?_
  rw [frame, Array.getElem?_eq_none notMade] at present
  cases present

include present

theorem get?_frame_write (other : FrameId) (otherName : String) :
    ((store.write id name content).frame other).get? otherName =
      if other = id ∧ otherName = name then some content else (store.frame other).get? otherName := by
  by_cases same : other = id
  · subst same
    rw [frame_write_self (lt_size_of_contains present), Table.get?_set]
    simp
  · rw [frame_write_of_ne same, if_neg fun both => same both.1]

/-- Frames have the same names as before. -/
theorem contains_frame_write (other : FrameId) (otherName : String) :
    ((store.write id name content).frame other).contains otherName =
      (store.frame other).contains otherName := by
  unfold Table.contains
  rw [get?_frame_write present]
  split
  · rename_i both
    rw [both.1, both.2]
    exact present.symm
  · rfl

theorem holder?_write (environment : Environment) (otherName : String) :
    (store.write id name content).holder? environment otherName = store.holder? environment otherName := by
  unfold holder?
  simp only [contains_frame_write present]

/-- What is read after a write: what was written, where it is that variable that is found, and otherwise
what was read before. -/
theorem lookup?_write (environment : Environment) (otherName : String) :
    (store.write id name content).lookup? environment otherName =
      if otherName = name ∧ store.holder? environment name = some id then some content
      else store.lookup? environment otherName := by
  cases found : store.holder? environment otherName with
  | none =>
      have isNone := lookup?_eq_none_iff.mpr found
      have isNone' : (store.write id name content).lookup? environment otherName = none := by
        rw [lookup?_eq_none_iff, holder?_write present, found]
      rw [isNone, isNone', if_neg]
      rintro ⟨rfl, isFound⟩
      rw [found] at isFound
      cases isFound
  | some other =>
      rw [lookup?_of_holder? (by rwa [holder?_write present]), lookup?_of_holder? found,
        get?_frame_write present]
      have same : (other = id ∧ otherName = name) ↔
          (otherName = name ∧ store.holder? environment name = some id) := by
        constructor
        · rintro ⟨rfl, rfl⟩
          exact ⟨rfl, found⟩
        · rintro ⟨rfl, isFound⟩
          rw [found] at isFound
          exact ⟨Option.some.inj isFound, rfl⟩
      simp only [same]

end Write

end Store

/-! ## Forests -/

/-- The environments that a program has, and the store of their frames. -/
structure Forest (Content : Type) where
  store : Store Content
  /-- The environments in the order in which they were made. -/
  environments : List Environment

namespace Forest

/-- What a program can do with environments, as long as it has them. -/
inductive Step (Content : Type) where
  | root
  | child (parent : Environment)
  | define (environment : Environment) (name : String) (content : Content)
  | assign (environment : Environment) (name : String) (content : Content)
  | assignAt (environment : Environment) (distance : Nat) (name : String) (content : Content)

/-- A forest with a new environment in front of another one. -/
def create (forest : Forest Content) (enclosing : Environment) : Forest Content :=
  let (environment, store) := forest.store.extend enclosing
  ⟨store, forest.environments ++ [environment]⟩

/-- A forest with a change made through one of its environments, or none if that fails. -/
def change (forest : Forest Content) (environment : Environment) (changed : Option (Store Content)) :
    Forest Content :=
  if environment ∈ forest.environments then { forest with store := changed.getD forest.store } else forest

/-- A forest after a step. -/
def perform (forest : Forest Content) : Step Content → Forest Content
  | .root => forest.create []
  | .child parent => if parent ∈ forest.environments then forest.create parent else forest
  | .define environment name content =>
      forest.change environment (some (forest.store.define environment name content))
  | .assign environment name content =>
      forest.change environment (forest.store.assign? environment name content)
  | .assignAt environment distance name content =>
      forest.change environment (forest.store.writeAt environment distance name content).toOption

/-- The forest without environments. -/
def empty : Forest Content := ⟨Store.empty, []⟩

/-- The forest that steps build, one after another. -/
def build (steps : List (Step Content)) : Forest Content := steps.foldl perform empty

/-- Whether each environment consists of its own frame, which has the number of the environment, and of an
environment that was made earlier, or of none. -/
structure WellFormed (forest : Forest Content) : Prop where
  size_eq : forest.store.frames.size = forest.environments.length
  enclosed : ∀ (id : FrameId) (environment : Environment), forest.environments[id]? = some environment →
    ∃ enclosing, environment = id :: enclosing ∧
      (enclosing = [] ∨ ∃ parent < id, forest.environments[parent]? = some enclosing)

variable {forest : Forest Content}

theorem wellFormed_empty : (empty : Forest Content).WellFormed := ⟨rfl, fun _ _ member => by cases member⟩

theorem WellFormed.create (wellFormed : forest.WellFormed) {enclosing : Environment}
    (isMade : enclosing = [] ∨ enclosing ∈ forest.environments) : (forest.create enclosing).WellFormed := by
  constructor
  · simp [Forest.create, wellFormed.size_eq]
  · intro id environment isEnvironment
    simp only [Forest.create] at isEnvironment ⊢
    rcases Nat.lt_trichotomy id forest.environments.length with earlier | isNew | later
    · rw [List.getElem?_append_left earlier] at isEnvironment
      obtain ⟨outer, rfl, isEnclosing⟩ := wellFormed.enclosed id environment isEnvironment
      refine ⟨outer, rfl, isEnclosing.imp_right ?_⟩
      rintro ⟨parent, less, isParent⟩
      exact ⟨parent, less, by rwa [List.getElem?_append_left (Nat.lt_trans less earlier)]⟩
    · subst isNew
      rw [List.getElem?_concat_length, Store.extend, wellFormed.size_eq] at isEnvironment
      cases isEnvironment
      refine ⟨enclosing, rfl, isMade.imp_right fun member => ?_⟩
      obtain ⟨parent, inside, isParent⟩ := List.mem_iff_getElem.mp member
      refine ⟨parent, inside, ?_⟩
      rw [List.getElem?_append_left inside, List.getElem?_eq_getElem inside, isParent]
    · rw [List.getElem?_eq_none (by simp; omega)] at isEnvironment
      cases isEnvironment

/-- A change that makes no frame leaves the forest well-formed. -/
theorem WellFormed.change (wellFormed : forest.WellFormed) (environment : Environment)
    {changed : Option (Store Content)}
    (sameSize : ∀ store, changed = some store → store.frames.size = forest.store.frames.size) :
    (forest.change environment changed).WellFormed := by
  unfold Forest.change
  split
  · refine ⟨?_, wellFormed.enclosed⟩
    cases changed with
    | none => exact wellFormed.size_eq
    | some store => exact (sameSize store rfl).trans wellFormed.size_eq
  · exact wellFormed

/-- What a step preserves. -/
theorem WellFormed.perform (wellFormed : forest.WellFormed) (step : Step Content) :
    (forest.perform step).WellFormed := by
  cases step with
  | root => exact wellFormed.create (.inl rfl)
  | child parent =>
      simp only [Forest.perform]
      split
      · exact wellFormed.create (.inr ‹_›)
      · exact wellFormed
  | define environment name content =>
      refine wellFormed.change environment fun store isChanged => ?_
      cases isChanged
      cases environment with
      | nil => rfl
      | cons innermost enclosing => exact Store.size_write innermost name content
  | assign environment name content =>
      refine wellFormed.change environment fun store isChanged => ?_
      rw [Store.assign?_eq] at isChanged
      obtain ⟨id, _, rfl⟩ := Option.map_eq_some_iff.mp isChanged
      exact Store.size_write id name content
  | assignAt environment distance name content =>
      refine wellFormed.change environment fun store isChanged => ?_
      unfold Store.writeAt at isChanged
      split at isChanged
      · cases isChanged
      · cases isChanged
        exact Store.size_write _ name content

/-- What steps preserve. -/
theorem wellFormed_build (steps : List (Step Content)) : (build steps).WellFormed := by
  have preserved (forest : Forest Content) (wellFormed : forest.WellFormed) :
      (steps.foldl Forest.perform forest).WellFormed := by
    induction steps generalizing forest with
    | nil => exact wellFormed
    | cons step later inductionHypothesis =>
        exact inductionHypothesis (forest.perform step) (wellFormed.perform step)
  exact preserved empty wellFormed_empty

/-- An environment is told by its own frame. -/
theorem WellFormed.eq_of_head? (wellFormed : forest.WellFormed) {first second : Environment} {id : FrameId}
    (member : first ∈ forest.environments) (member' : second ∈ forest.environments)
    (isFirst : first.head? = some id) (isSecond : second.head? = some id) : first = second := by
  have found {environment : Environment} (member : environment ∈ forest.environments)
      (isOwn : environment.head? = some id) : forest.environments[id]? = some environment := by
    obtain ⟨place, isPlace⟩ := List.mem_iff_getElem?.mp member
    obtain ⟨enclosing, rfl, _⟩ := wellFormed.enclosed place environment isPlace
    cases isOwn
    exact isPlace
  have same := (found member isFirst).symm.trans (found member' isSecond)
  exact Option.some.inj same

/-- The environments that enclose those of a forest are in it. The induction goes outwards along the
chain, on the number of the environment: what encloses it was made earlier. -/
theorem WellFormed.ancestor_mem (wellFormed : forest.WellFormed) {environment : Environment}
    (member : environment ∈ forest.environments) {distance : Nat} (inside : distance < environment.length) :
    environment.ancestor distance ∈ forest.environments := by
  obtain ⟨id, isEnvironment⟩ := List.mem_iff_getElem?.mp member
  clear member
  induction id using Nat.strongRecOn generalizing environment distance with
  | ind id inductionHypothesis =>
      cases distance with
      | zero => exact List.mem_of_getElem? isEnvironment
      | succ distance =>
          obtain ⟨enclosing, rfl, isEnclosing⟩ := wellFormed.enclosed id environment isEnvironment
          rw [List.length_cons, Nat.succ_lt_succ_iff] at inside
          rcases isEnclosing with rfl | ⟨parent, less, isParent⟩
          · cases inside
          · show Environment.ancestor enclosing distance ∈ forest.environments
            exact inductionHypothesis parent less inside isParent

/-- The nearest environment that has a name is in the forest, and is the one whose frame is found. -/
theorem WellFormed.isHolder_iff (wellFormed : forest.WellFormed) {environment holder : Environment}
    (member : environment ∈ forest.environments) (member' : holder ∈ forest.environments) {id : FrameId}
    (isOwn : holder.head? = some id) (name : String) :
    forest.store.IsHolder environment name holder ↔ forest.store.holder? environment name = some id := by
  rw [Store.holder?_eq_some_iff]
  constructor
  · rintro ⟨distance, rfl, heldAt⟩
    rw [Store.head?_ancestor] at isOwn
    exact ⟨distance, isOwn, heldAt⟩
  · rintro ⟨distance, isFrame, heldAt⟩
    have inside := (List.getElem?_eq_some_iff.mp isFrame).1
    rw [← Store.head?_ancestor] at isFrame
    exact ⟨distance, wellFormed.eq_of_head? member' (wellFormed.ancestor_mem member inside) isOwn isFrame,
      heldAt⟩

/-! ## Reading behind a write -/

/-- A write to the frame of an environment changes one name of that environment, and no name of another. -/
theorem WellFormed.own?_write (wellFormed : forest.WellFormed) {environment other : Environment}
    (member : environment ∈ forest.environments) (member' : other ∈ forest.environments) {id : FrameId}
    (isOwn : environment.head? = some id) {name : String} (present : (forest.store.frame id).contains name = true)
    (content : Content) (otherName : String) :
    (forest.store.write id name content).own? other otherName =
      if other = environment ∧ otherName = name then some content else forest.store.own? other otherName := by
  have isSame : other = environment ↔ other.head? = some id :=
    ⟨fun same => same ▸ isOwn, fun isOther => wellFormed.eq_of_head? member' member isOther isOwn⟩
  unfold Store.own?
  simp only [isSame]
  cases other.head? with
  | none => simp
  | some own => simp [Store.get?_frame_write present]

/-- Reads agree with writes. In every forest that steps build, through every environment: a write by name
fails just if a read does, and then changes nothing. Otherwise it changes the variable of the nearest
environment that has the name, and no other variable of any environment; and through any environment a name
reads as what was written just if it is that name and its nearest holder from there is the changed one, and
as before if not. A read by the distance of the nearest holder gives what a read by name gives. -/
theorem reads_agree_with_writes (steps : List (Step Content)) (environment : Environment)
    (member : environment ∈ (build steps).environments) (name : String) (content : Content) :
    let before := build steps
    let after := before.perform (.assign environment name content)
    (before.store.assign? environment name content = none ↔ before.store.lookup? environment name = none) ∧
    (before.store.lookup? environment name = none → after = before) ∧
    (before.store.lookup? environment name ≠ none →
      before.store.assign? environment name content = some after.store ∧
      after.environments = before.environments ∧
      ∃ holder ∈ before.environments, before.store.IsHolder environment name holder ∧
        ∀ other ∈ before.environments, ∀ otherName,
          after.store.own? other otherName =
            (if other = holder ∧ otherName = name then some content else before.store.own? other otherName) ∧
          (otherName = name ∧ before.store.IsHolder other name holder →
            after.store.lookup? other otherName = some content) ∧
          (¬ (otherName = name ∧ before.store.IsHolder other name holder) →
            after.store.lookup? other otherName = before.store.lookup? other otherName)) ∧
    ∀ distance, before.store.HeldAt environment name distance →
      ∃ found, before.store.readAt environment distance name = .ok found ∧
        before.store.lookup? environment name = some found := by
  have wellFormed := wellFormed_build steps
  intro before after
  have performed : after = { before with
      store := (before.store.assign? environment name content).getD before.store } := if_pos member
  refine ⟨?fails, ?unchanged, ?changed, ?atDistance⟩
  case fails =>
    rw [Store.assign?_eq, Option.map_eq_none_iff, Store.lookup?_eq_none_iff]
  case unchanged =>
    intro isNone
    rw [Store.lookup?_eq_none_iff] at isNone
    rw [performed, Store.assign?_eq, isNone]
    rfl
  case changed =>
    intro isSome
    rw [Ne, Store.lookup?_eq_none_iff] at isSome
    obtain ⟨id, found⟩ := Option.ne_none_iff_exists'.mp isSome
    have present := Store.contains_of_holder? found
    have assigned : before.store.assign? environment name content = some (before.store.write id name content) := by
      rw [Store.assign?_eq, found]
      rfl
    have isAfter : after = { before with store := before.store.write id name content } := by
      rw [performed, assigned]
      rfl
    obtain ⟨distance, isFrame, heldAt⟩ := Store.holder?_eq_some_iff.mp found
    have isHolderMember := wellFormed.ancestor_mem member (List.getElem?_eq_some_iff.mp isFrame).1
    rw [← Store.head?_ancestor] at isFrame
    rw [isAfter]
    refine ⟨assigned, rfl, environment.ancestor distance, isHolderMember, ⟨distance, rfl, heldAt⟩, ?_⟩
    intro other otherMember otherName
    rw [wellFormed.isHolder_iff otherMember isHolderMember isFrame, Store.lookup?_write present]
    exact ⟨wellFormed.own?_write isHolderMember otherMember isFrame present content otherName,
      fun isWritten => if_pos isWritten, fun notWritten => if_neg notWritten⟩
  case atDistance =>
    intro distance heldAt
    exact heldAt.readAt

/-- Two environments enclosed by the same one, of which the second has the name itself. -/
def siblings : List (Step Nat) :=
  [.root, .define [0] "a" 1, .child [0], .child [0], .define [2, 0] "a" 2]

/-- A write through an environment is seen through the one that encloses it, and not through a sibling that
has the name itself. -/
theorem reads_agree_with_writes_shadowed :
    [1, 0] ∈ (build siblings).environments ∧
    (build siblings).store.lookup? [1, 0] "a" ≠ none ∧
    ((build siblings).perform (.assign [1, 0] "a" 3)).store.lookup? [0] "a" = some 3 ∧
    ((build siblings).perform (.assign [1, 0] "a" 3)).store.lookup? [2, 0] "a" = some 2 := by
  have outer : [0] ∈ (build siblings).environments := by decide
  have first : [1, 0] ∈ (build siblings).environments := by decide
  have second : [2, 0] ∈ (build siblings).environments := by decide
  have isRead : (build siblings).store.lookup? [1, 0] "a" ≠ none := by decide
  obtain ⟨_, _, changed, _⟩ := reads_agree_with_writes siblings [1, 0] first "a" 3
  obtain ⟨_, _, holder, member, isHolder, seen⟩ := changed isRead
  have wellFormed := wellFormed_build siblings
  have isOuter : holder = [0] := by
    have environments : (build siblings).environments = [[0], [1, 0], [2, 0]] := rfl
    rw [environments] at member
    simp only [List.mem_cons, List.not_mem_nil, or_false] at member
    rcases member with rfl | rfl | rfl
    · rfl
    · exact absurd ((wellFormed.isHolder_iff first first rfl "a").mp isHolder) (by decide)
    · exact absurd ((wellFormed.isHolder_iff first second rfl "a").mp isHolder) (by decide)
  subst isOuter
  refine ⟨first, isRead, ?_, ?_⟩
  · have isSeen := (wellFormed.isHolder_iff outer outer rfl "a").mpr (by decide)
    exact (seen [0] outer "a").2.1 ⟨rfl, isSeen⟩
  · rw [(seen [2, 0] second "a").2.2]
    · decide
    · rintro ⟨_, isSeen⟩
      exact absurd ((wellFormed.isHolder_iff second outer rfl "a").mp isSeen) (by decide)

end Forest

end LoxInterpreter
