import Mathlib.Data.List.Forall2
import Mathlib.Data.Option.Basic
import LoxInterpreter.Document

/-!
Contract: documents as values.

As a value, an object is what it holds under each name: its fields have no order. Numbers are equal as
numbers, so that the two zeros are, and NaN equals nothing.

Owns: `Document.field?`, `Document.reals`, `Document.Same`, `Document.withoutLines`, which leaves out every
field that is called a line, and `Document.Alike`.
Does not own: the documents of trees (`Proofs.Lines.Documents`).
-/

namespace LoxInterpreter.Document

/-- What an object holds under a name. -/
def field? (name : String) : Document → Option Document
  | .object fields => fields.lookup name
  | _ => none

/-! ## Numbers -/

mutual

/-- The reals in a document, in written order. -/
def reals : Document → List Float
  | .real value => [value]
  | .array items => listReals items
  | .object fields => fieldReals fields
  | .null | .boolean _ | .whole _ | .string _ => []

/-- The reals in several documents. -/
def listReals : List Document → List Float
  | [] => []
  | first :: rest => first.reals ++ listReals rest

/-- The reals in the fields of an object. -/
def fieldReals : List (String × Document) → List Float
  | [] => []
  | (_, value) :: rest => value.reals ++ fieldReals rest

end

@[simp] theorem reals_null : reals .null = [] := rfl

@[simp] theorem reals_string (value : String) : reals (.string value) = [] := rfl

@[simp] theorem reals_whole (value : Nat) : reals (.whole value) = [] := rfl

@[simp] theorem reals_array (items : List Document) : reals (.array items) = listReals items := rfl

@[simp] theorem listReals_nil : listReals [] = [] := rfl

@[simp] theorem listReals_cons (first : Document) (rest : List Document) :
    listReals (first :: rest) = first.reals ++ listReals rest := rfl

@[simp] theorem reals_object (fields : List (String × Document)) : reals (.object fields) = fieldReals fields := rfl

@[simp] theorem fieldReals_nil : fieldReals [] = [] := rfl

@[simp] theorem fieldReals_cons (name : String) (value : Document) (rest : List (String × Document)) :
    fieldReals ((name, value) :: rest) = value.reals ++ fieldReals rest := rfl

/-! ## Equality -/

/-- Whether two documents are equal as values. -/
inductive Same : Document → Document → Prop
  | null : Same .null .null
  | boolean (value : Bool) : Same (.boolean value) (.boolean value)
  | whole (value : Nat) : Same (.whole value) (.whole value)
  | real {first second : Float} (equal : (first == second) = true) : Same (.real first) (.real second)
  | string (value : String) : Same (.string value) (.string value)
  | array {first second : List Document} (items : List.Forall₂ Same first second) :
      Same (.array first) (.array second)
  | object {first second : List (String × Document)}
      (fields : ∀ name, Option.Rel Same (first.lookup name) (second.lookup name)) :
      Same (.object first) (.object second)

namespace Same

variable {first second : Document}

theorem string_eq {value value' : String} (same : Same (.string value) (.string value')) : value = value' := by
  cases same
  rfl

theorem real_beq {value value' : Float} (same : Same (.real value) (.real value')) :
    (value == value') = true := by
  cases same with
  | real equal => exact equal

theorem items {items items' : List Document} (same : Same (.array items) (.array items')) :
    List.Forall₂ Same items items' := by
  cases same with
  | array items => exact items

/-- Equal documents hold equal documents under each name. -/
theorem field (same : Same first second) (name : String) {value value' : Document}
    (holds : first.field? name = some value) (holds' : second.field? name = some value') :
    Same value value' := by
  cases same with
  | @object fields fields' related =>
      have relatedHere := related name
      rw [show fields.lookup name = some value from holds,
        show fields'.lookup name = some value' from holds'] at relatedHere
      cases relatedHere with
      | some same => exact same
  | _ => exact absurd holds (by simp [field?])

mutual

/-- A document without NaN is equal to itself. -/
theorem refl : (document : Document) → (∀ value ∈ document.reals, (value == value) = true) →
    Same document document
  | .null, _ => .null
  | .boolean value, _ => .boolean value
  | .whole value, _ => .whole value
  | .real value, equal => .real (equal value List.mem_cons_self)
  | .string value, _ => .string value
  | .array items, equal => .array (list_refl items equal)
  | .object fields, equal => .object (fields_refl fields equal)

theorem list_refl : (items : List Document) → (∀ value ∈ listReals items, (value == value) = true) →
    List.Forall₂ Same items items
  | [], _ => .nil
  | first :: rest, equal =>
      have ⟨equalFirst, equalRest⟩ := List.forall_mem_append.mp equal
      .cons (refl first equalFirst) (list_refl rest equalRest)

theorem fields_refl : (fields : List (String × Document)) →
    (∀ value ∈ fieldReals fields, (value == value) = true) →
    ∀ name, Option.Rel Same (fields.lookup name) (fields.lookup name)
  | [], _, _ => .none
  | (name', value) :: rest, equal, name => by
      have ⟨equalFirst, equalRest⟩ := List.forall_mem_append.mp equal
      rw [List.lookup_cons]
      cases name == name' with
      | true => exact .some (refl value equalFirst)
      | false => exact fields_refl rest equalRest name

end

end Same

/-! ## Without lines -/

mutual

/-- A document without the fields that are called a line. -/
def withoutLines : Document → Document
  | .array items => .array (listWithoutLines items)
  | .object fields => .object (fieldsWithoutLines fields)
  | .null => .null
  | .boolean value => .boolean value
  | .whole value => .whole value
  | .real value => .real value
  | .string value => .string value

/-- Documents without the fields that are called a line. -/
def listWithoutLines : List Document → List Document
  | [] => []
  | first :: rest => first.withoutLines :: listWithoutLines rest

/-- Fields without those that are called a line, neither here nor further inside. -/
def fieldsWithoutLines : List (String × Document) → List (String × Document)
  | [] => []
  | (name, value) :: rest =>
      if name = "line" then fieldsWithoutLines rest
      else (name, value.withoutLines) :: fieldsWithoutLines rest

end

theorem listWithoutLines_eq_map (items : List Document) : listWithoutLines items = items.map withoutLines := by
  induction items with
  | nil => rfl
  | cons first rest inductionHypothesis => rw [listWithoutLines, inductionHypothesis, List.map_cons]

/-- Under every other name there is what there was, without its lines. -/
theorem field?_withoutLines {name : String} (notLine : name ≠ "line") (document : Document) :
    document.withoutLines.field? name = (document.field? name).map withoutLines := by
  cases document with
  | object fields =>
      change (fieldsWithoutLines fields).lookup name = (fields.lookup name).map withoutLines
      induction fields with
      | nil => rfl
      | cons field rest inductionHypothesis =>
          obtain ⟨other, value⟩ := field
          rw [fieldsWithoutLines, List.lookup_cons]
          by_cases isLine : other = "line"
          · have differs : (name == other) = false := by simpa [isLine] using notLine
            rw [if_pos isLine, differs, inductionHypothesis]
          · rw [if_neg isLine, List.lookup_cons]
            cases name == other with
            | true => rfl
            | false => exact inductionHypothesis
  | _ => rfl

/-- Whether two documents are equal as values without their lines. -/
def Alike (first second : Document) : Prop := first.withoutLines.Same second.withoutLines

namespace Alike

variable {first second : Document}

/-- Documents that are alike hold alike documents under each name that is none of a line. -/
theorem field (alike : first.Alike second) (name : String) (notLine : name ≠ "line") {value value' : Document}
    (holds : first.field? name = some value) (holds' : second.field? name = some value') : value.Alike value' :=
  Same.field alike name (by rw [field?_withoutLines notLine, holds, Option.map_some])
    (by rw [field?_withoutLines notLine, holds', Option.map_some])

/-- What is alike to null holds nothing. -/
theorem field?_of_null (name : String) {document : Document} (alike : Alike .null document) :
    document.field? name = none := by
  cases document with
  | object => cases alike
  | _ => rfl

theorem field?_of_to_null (name : String) {document : Document} (alike : Alike document .null) :
    document.field? name = none := by
  cases document with
  | object => cases alike
  | _ => rfl

theorem items {items items' : List Document} (alike : Alike (.array items) (.array items')) :
    List.Forall₂ Alike items items' := by
  have same := Same.items alike
  rwa [listWithoutLines_eq_map, listWithoutLines_eq_map, List.forall₂_map_left_iff, List.forall₂_map_right_iff]
    at same

end Alike

end LoxInterpreter.Document
