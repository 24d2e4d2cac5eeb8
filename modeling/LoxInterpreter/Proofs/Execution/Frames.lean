import LoxInterpreter.Execution.Machine

/-!
Contract: what changes to a store leave alone.

A frame that was never made has no variables, so making one changes the variables of no frame, and
writing changes one variable of one frame.

Owns: the frames of changed stores, and `Store.Extends`: no frame and no name is ever lost.
-/

namespace LoxInterpreter

namespace Table

variable {Content : Type}

theorem contains_iff {table : Table Content} {name : String} :
    table.contains name = true ↔ ∃ content, table.get? name = some content := by
  unfold contains
  rw [Option.isSome_iff_exists]

theorem contains_set_self (table : Table Content) (name : String) (content : Content) :
    (table.set name content).contains name = true := by
  rw [contains_iff]
  exact ⟨content, get?_set_self table name content⟩

/-- Writing to a table loses no name. -/
theorem contains_set {table : Table Content} {other : String} (present : table.contains other = true)
    (name : String) (content : Content) : (table.set name content).contains other = true := by
  by_cases same : other = name
  · rw [same]
    exact contains_set_self table name content
  · unfold contains
    rwa [get?_set_of_ne table same]

end Table

namespace Store

variable {Content : Type} {store : Store Content}

@[simp] theorem size_write (id : FrameId) (name : String) (content : Content) :
    (store.write id name content).frames.size = store.frames.size := by
  simp [write]

@[simp] theorem size_extend (environment : Environment) :
    (store.extend environment).2.frames.size = store.frames.size + 1 := by
  simp [extend]

/-- Making a frame changes the variables of none. -/
@[simp] theorem frame_extend (environment : Environment) (id : FrameId) :
    (store.extend environment).2.frame id = store.frame id := by
  unfold frame extend
  rw [Array.getElem?_push]
  by_cases isNew : id = store.frames.size
  · rw [if_pos isNew, isNew, Array.getElem?_eq_none (Nat.le_refl _)]
    rfl
  · rw [if_neg isNew]

theorem frame_write_self {id : FrameId} (made : id < store.frames.size) (name : String)
    (content : Content) :
    (store.write id name content).frame id = (store.frame id).set name content := by
  unfold frame write
  simp [Array.getElem?_modify, Array.getElem?_eq_getElem made]

theorem frame_write_of_ne {id other : FrameId} (different : other ≠ id) (name : String)
    (content : Content) : (store.write id name content).frame other = store.frame other := by
  unfold frame write
  simp [Array.getElem?_modify, Ne.symm different]

/-- A write to a frame that was not made changes nothing. -/
theorem frame_write_of_le {id : FrameId} (notMade : store.frames.size ≤ id) (other : FrameId)
    (name : String) (content : Content) :
    (store.write id name content).frame other = store.frame other := by
  by_cases same : other = id
  · unfold frame write
    rw [same, Array.getElem?_eq_none notMade, Array.getElem?_eq_none (by simpa using notMade)]
  · exact frame_write_of_ne same name content

/-- What a variable contains after a write: what was written, or what it contained before. -/
theorem get?_write {id other : FrameId} {name otherName : String} {content found : Content}
    (reads : ((store.write id name content).frame other).get? otherName = some found) :
    found = content ∨ (store.frame other).get? otherName = some found := by
  by_cases same : other = id
  · subst same
    by_cases made : other < store.frames.size
    · rw [frame_write_self made] at reads
      by_cases sameName : otherName = name
      · subst sameName
        rw [Table.get?_set_self] at reads
        exact .inl (Option.some.inj reads).symm
      · rw [Table.get?_set_of_ne _ sameName] at reads
        exact .inr reads
    · rw [frame_write_of_le (Nat.not_lt.mp made)] at reads
      exact .inr reads
  · rw [frame_write_of_ne same] at reads
    exact .inr reads

/-- Whether a store has all frames of another, and each of them has all its names. -/
structure Extends (after before : Store Content) : Prop where
  size_le : before.frames.size ≤ after.frames.size
  contains : ∀ id name, (before.frame id).contains name = true →
    (after.frame id).contains name = true

theorem Extends.refl (store : Store Content) : store.Extends store :=
  ⟨Nat.le_refl _, fun _ _ present => present⟩

theorem Extends.trans {first second third : Store Content} (later : third.Extends second)
    (earlier : second.Extends first) : third.Extends first := by
  constructor
  · exact Nat.le_trans earlier.size_le later.size_le
  · intro id name present
    exact later.contains id name (earlier.contains id name present)

theorem extends_extend (environment : Environment) : (store.extend environment).2.Extends store := by
  constructor
  · rw [size_extend]
    exact Nat.le_succ _
  · intro id name present
    rwa [frame_extend]

theorem extends_write (id : FrameId) (name : String) (content : Content) :
    (store.write id name content).Extends store := by
  constructor
  · exact Nat.le_of_eq (size_write id name content).symm
  · intro other otherName present
    by_cases same : other = id
    · subst same
      by_cases made : other < store.frames.size
      · rw [frame_write_self made]
        exact Table.contains_set present name content
      · rwa [frame_write_of_le (Nat.not_lt.mp made)]
    · rwa [frame_write_of_ne same]

theorem extends_define (environment : Environment) (name : String) (content : Content) :
    (store.define environment name content).Extends store := by
  cases environment with
  | nil => exact Extends.refl store
  | cons innermost outer => exact extends_write innermost name content

end Store

/-! ## Events -/

namespace Machine

theorem store_tell (machine : Machine) (event : TraceEvent) :
    (machine.tell event).store = machine.store := by
  unfold tell
  split <;> rfl

theorem globals_tell (machine : Machine) (event : TraceEvent) :
    (machine.tell event).globals = machine.globals := by
  unfold globals
  rw [store_tell]

theorem environment_tell (machine : Machine) (event : TraceEvent) :
    (machine.tell event).environment = machine.environment := by
  unfold tell
  split <;> rfl

end Machine

end LoxInterpreter
