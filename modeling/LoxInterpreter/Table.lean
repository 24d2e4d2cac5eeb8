/-!
Contract: tables from names to contents, in the order in which the names first arrived.

Writing to a name that is present changes its content and moves nothing; a new name goes to the end.
The view of a table is `get?`, and every operation is described by what it does to that view.

Owns: `Table`, its operations, and their lemmas.
-/

namespace LoxInterpreter

structure Table (Content : Type) where
  entries : List (String × Content)
  /-- Each name stands once. -/
  nodup_names : (entries.map Prod.fst).Nodup
deriving Repr

namespace Table

variable {Content : Type}

def empty : Table Content := ⟨[], .nil⟩

instance : Inhabited (Table Content) := ⟨empty⟩

def find? (name : String) : List (String × Content) → Option Content
  | [] => none
  | (key, content) :: rest => if key = name then some content else find? name rest

def get? (table : Table Content) (name : String) : Option Content := find? name table.entries

def contains (table : Table Content) (name : String) : Bool := (table.get? name).isSome

/-- Writes an entry over the one of the same name, or behind all others. -/
def put (name : String) (content : Content) : List (String × Content) → List (String × Content)
  | [] => [(name, content)]
  | (key, old) :: rest =>
      if key = name then (key, content) :: rest else (key, old) :: put name content rest

private theorem mem_names_put {name other : String} {content : Content}
    {entries : List (String × Content)}
    (member : other ∈ (put name content entries).map Prod.fst) :
    other = name ∨ other ∈ entries.map Prod.fst := by
  induction entries with
  | nil => simpa [put] using member
  | cons entry rest inductionHypothesis =>
      obtain ⟨key, old⟩ := entry
      by_cases same : key = name
      · simp only [put, same, if_true, List.map_cons, List.mem_cons] at member ⊢
        exact member.elim .inl fun behind => .inr (.inr behind)
      · simp only [put, same, if_false, List.map_cons, List.mem_cons] at member ⊢
        rcases member with rfl | behind
        · exact .inr (.inl rfl)
        · exact (inductionHypothesis behind).imp_right .inr

private theorem nodup_names_put (name : String) (content : Content)
    {entries : List (String × Content)} (nodup : (entries.map Prod.fst).Nodup) :
    ((put name content entries).map Prod.fst).Nodup := by
  induction entries with
  | nil => simp [put]
  | cons entry rest inductionHypothesis =>
      obtain ⟨key, old⟩ := entry
      obtain ⟨absent, nodupRest⟩ := List.nodup_cons.mp nodup
      by_cases same : key = name
      · simpa [put, same] using nodup
      · simp only [put, same, if_false, List.map_cons]
        refine List.nodup_cons.mpr ⟨fun member => ?_, inductionHypothesis nodupRest⟩
        exact (mem_names_put member).elim same absent

def set (table : Table Content) (name : String) (content : Content) : Table Content :=
  ⟨put name content table.entries, nodup_names_put name content table.nodup_names⟩

/-- The names in the order of their arrival. -/
def names (table : Table Content) : List String := table.entries.map Prod.fst

def ofList (entries : List (String × Content)) : Table Content :=
  entries.foldl (fun table entry => table.set entry.1 entry.2) empty

/-- A table in which each of the names has the same content. -/
def ofNames (content : Content) (names : List String) : Table Content :=
  ofList (names.map fun name => (name, content))

def filter (table : Table Content) (keep : Content → Bool) : Table Content :=
  ⟨table.entries.filter fun entry => keep entry.2,
    table.nodup_names.sublist ((List.filter_sublist).map Prod.fst)⟩

@[simp] theorem get?_empty (name : String) : (empty : Table Content).get? name = none := rfl

private theorem find?_put_self (name : String) (content : Content)
    (entries : List (String × Content)) :
    find? name (put name content entries) = some content := by
  induction entries with
  | nil => simp [put, find?]
  | cons entry rest inductionHypothesis =>
      by_cases same : entry.1 = name <;> simp [put, find?, same, inductionHypothesis]

private theorem find?_put_of_ne {name other : String} (different : other ≠ name)
    (content : Content) (entries : List (String × Content)) :
    find? other (put name content entries) = find? other entries := by
  induction entries with
  | nil => simp [put, find?, different.symm]
  | cons entry rest inductionHypothesis =>
      by_cases same : entry.1 = name
      · subst same
        simp [put, find?, different.symm]
      · simp [put, find?, same, inductionHypothesis]

@[simp] theorem get?_set_self (table : Table Content) (name : String) (content : Content) :
    (table.set name content).get? name = some content :=
  find?_put_self name content table.entries

theorem get?_set_of_ne (table : Table Content) {name other : String} (different : other ≠ name)
    (content : Content) : (table.set name content).get? other = table.get? other :=
  find?_put_of_ne different content table.entries

/-- The content of a name behind a write. -/
theorem get?_set (table : Table Content) (name other : String) (content : Content) :
    (table.set name content).get? other =
      if other = name then some content else table.get? other := by
  by_cases same : other = name
  · rw [if_pos same, same, get?_set_self]
  · rw [if_neg same, table.get?_set_of_ne same]

private theorem find?_eq_none_iff {name : String} {entries : List (String × Content)} :
    find? name entries = none ↔ name ∉ entries.map Prod.fst := by
  induction entries with
  | nil => simp [find?]
  | cons entry rest inductionHypothesis =>
      obtain ⟨key, content⟩ := entry
      by_cases same : key = name
      · simp [find?, same]
      · simp [find?, same, inductionHypothesis, Ne.symm same]

private theorem find?_filter (keep : Content → Bool) (name : String)
    {entries : List (String × Content)} (nodup : (entries.map Prod.fst).Nodup) :
    find? name (entries.filter fun entry => keep entry.2) = (find? name entries).filter keep := by
  induction entries with
  | nil => rfl
  | cons entry rest inductionHypothesis =>
      obtain ⟨key, content⟩ := entry
      obtain ⟨absent, nodupRest⟩ := List.nodup_cons.mp nodup
      have behind := inductionHypothesis nodupRest
      by_cases same : key = name
      · subst same
        have missing : find? key rest = none := find?_eq_none_iff.mpr absent
        rw [missing] at behind
        cases kept : keep content <;> simp [find?, kept, behind, Option.filter]
      · cases kept : keep content <;> simp [find?, kept, behind, same]

/-- Keeping some entries keeps the contents that pass, and forgets all others. -/
theorem get?_filter (table : Table Content) (keep : Content → Bool) (name : String) :
    (table.filter keep).get? name = (table.get? name).filter keep :=
  find?_filter keep name table.nodup_names

private theorem get?_foldl_set (content : Content) (names : List String) (table : Table Content)
    (name : String) :
    ((names.map fun name => (name, content)).foldl (fun table entry => table.set entry.1 entry.2)
        table).get? name = if name ∈ names then some content else table.get? name := by
  induction names generalizing table with
  | nil => simp
  | cons first rest inductionHypothesis =>
      rw [List.map_cons, List.foldl_cons, inductionHypothesis]
      by_cases same : name = first
      · simp [same]
      · simp [same, table.get?_set_of_ne same]

/-- A table in which names have the same content has no other names. -/
theorem get?_ofNames (content : Content) (names : List String) (name : String) :
    (ofNames content names).get? name = if name ∈ names then some content else none :=
  get?_foldl_set content names empty name

/-- The names of a table are those that have a content. -/
theorem get?_eq_none_iff {table : Table Content} {name : String} :
    table.get? name = none ↔ name ∉ table.names :=
  find?_eq_none_iff

theorem mem_names_iff {table : Table Content} {name : String} :
    name ∈ table.names ↔ table.contains name = true := by
  have absent : table.get? name = none ↔ name ∉ table.names := get?_eq_none_iff
  unfold contains
  rw [← Option.ne_none_iff_isSome, ne_eq, absent, Classical.not_not]

end Table

end LoxInterpreter
