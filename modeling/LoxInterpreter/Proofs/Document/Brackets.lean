import LoxInterpreter.Proofs.Document.Numerals

/-!
Contract: what is written between brackets is read part by part.

Blanks end where something else begins, so what stands between blanks is read in one way if it is by itself.
A part ends in front of a comma or a closing bracket, and begins with neither; so the lines between two brackets
are the items that they were written for, and no others.

Owns: `Placed`, `listed_iff`, and `bracketed_iff`.
Does not own: what items are (`Proofs.Document.Written`).
-/

namespace LoxInterpreter.Json

/-! ## Blanks -/

/-- Whether characters are nothing but blanks. -/
def AreBlanks (gap : List Char) : Prop := ∀ character ∈ gap, character ∈ blanks

/-- Whether a text does not begin with a blank. -/
def NotBlank (text : List Char) : Prop := Stops (fun character => decide (character ∈ blanks)) text

section Blanks

variable {gap gap' rest rest' : List Char}

theorem areBlanks_nil : AreBlanks [] := List.forall_mem_nil _

/-- Blanks end in one place. -/
theorem AreBlanks.unique (areBlanks : AreBlanks gap) (areBlanks' : AreBlanks gap') (ends : NotBlank rest)
    (ends' : NotBlank rest') (same : gap ++ rest = gap' ++ rest') : rest = rest' :=
  (run_append_inj (fun character member => decide_eq_true (areBlanks character member))
    (fun character member => decide_eq_true (areBlanks' character member)) ends ends' same).2

theorem notBlank_cons {first : Char} (notBlank : first ∉ blanks) (more : List Char) :
    NotBlank (first :: more) := by
  intro character isHead
  obtain rfl := Option.some.inj isHead
  exact decide_eq_false notBlank

theorem blanks_iff (ends : NotBlank rest) (ends' : NotBlank rest') : Blanks rest rest' ↔ rest' = rest := by
  constructor
  · rintro ⟨gap, areBlanks, same⟩
    exact (areBlanks_nil.unique areBlanks ends ends' same).symm
  · rintro rfl
    exact ⟨[], areBlanks_nil, rfl⟩

theorem Delimited.blanks_append (areBlanks : AreBlanks gap) (delimited : Delimited rest) :
    Delimited (gap ++ rest) := by
  cases gap with
  | nil => exact delimited
  | cons first others =>
      intro character isHead
      obtain rfl := Option.some.inj isHead
      exact List.mem_append_right _ (areBlanks first List.mem_cons_self)

/-- Where something is read in one way by itself, so it is between blanks. -/
theorem padded_iff {reads : List Char → List Char → Prop} {holds : Prop} {text : List Char}
    (starts : ∀ {start stop}, reads start stop → NotBlank start)
    (exact : ∀ stop, Blanks stop rest' → (reads (text ++ (gap' ++ rest)) stop ↔ holds ∧ stop = gap' ++ rest))
    (areBlanks : AreBlanks gap) (areBlanks' : AreBlanks gap') (begins : NotBlank (text ++ (gap' ++ rest)))
    (ends : NotBlank rest) (ends' : NotBlank rest') :
    Padded reads (gap ++ (text ++ (gap' ++ rest))) rest' ↔ holds ∧ rest' = rest := by
  constructor
  · rintro ⟨start, stop, ⟨before, areBefore, isStart⟩, isRead, isStop⟩
    obtain rfl := areBlanks.unique areBefore begins (starts isRead) isStart
    have ⟨isHeld, sameStop⟩ := (exact stop isStop).mp isRead
    obtain ⟨behind, areBehind, isRest⟩ := isStop
    exact ⟨isHeld, AreBlanks.unique areBehind areBlanks' ends' ends (isRest.symm.trans sameStop)⟩
  · rintro ⟨isHeld, rfl⟩
    have isStop : Blanks (gap' ++ rest') rest' := ⟨gap', areBlanks', rfl⟩
    exact ⟨_, _, ⟨gap, areBlanks, rfl⟩, (exact _ isStop).mpr ⟨isHeld, rfl⟩, isStop⟩

end Blanks

/-! ## Where parts begin and end -/

/-- Whether a text begins with a character that cannot stand behind a value. -/
def Begun (text : List Char) : Prop := ∃ first more, text = first :: more ∧ first ∉ delimiters

theorem Begun.notBlank {text : List Char} (begun : Begun text) (behind : List Char) : NotBlank (text ++ behind) := by
  obtain ⟨first, more, rfl, notDelimiter⟩ := begun
  exact notBlank_cons (fun isBlank => notDelimiter (List.mem_append_right _ isBlank)) (more ++ behind)

/-- What stands behind a part: a comma, or a closing bracket. -/
def enders : List Char := [',', ']', '\x7d']

section Enders

variable {ender : Char}

theorem notBlank_ender (isEnder : ender ∈ enders) (more : List Char) : NotBlank (ender :: more) := by
  refine notBlank_cons (fun isBlank => ?_) more
  simp only [enders, List.mem_cons, List.not_mem_nil, or_false] at isEnder
  rcases isEnder with rfl | rfl | rfl <;> revert isBlank <;> decide

theorem delimited_ender (isEnder : ender ∈ enders) (more : List Char) : Delimited (ender :: more) := by
  intro character isHead
  obtain rfl := Option.some.inj isHead
  exact List.mem_append_left _ isEnder

/-- A part does not begin where one ends. -/
theorem Begun.ne_ender {gap text behind more : List Char} (begun : Begun text) (isEnder : ender ∈ enders)
    (areBlanks : AreBlanks gap) : gap ++ (text ++ behind) ≠ ender :: more := by
  intro same
  have sameStart := areBlanks.unique areBlanks_nil (begun.notBlank behind) (notBlank_ender isEnder more) same
  obtain ⟨first, others, rfl, notDelimiter⟩ := begun
  exact notDelimiter ((List.cons.inj sameStart).1 ▸ List.mem_append_left _ isEnder)

end Enders

/-! ## Lists of parts -/

section Lists

variable {Item : Type} {reads : Item → List Char → List Char → Prop} {holds : Item → Prop}

/-- Items with commas between them, whatever an item is. -/
def Listed (reads : Item → List Char → List Char → Prop) : List Item → List Char → List Char → Prop
  | [], text, rest => Blanks text rest
  | [only], text, rest => reads only text rest
  | first :: second :: others, text, rest => ∃ between,
      reads first text (',' :: between) ∧ Listed reads (second :: others) between rest

/-- Whether every item begins, behind blanks, with what cannot stand behind one. -/
def Opened (reads : Item → List Char → List Char → Prop) : Prop :=
  ∀ item text rest, reads item text rest → ∃ gap start, text = gap ++ start ∧ AreBlanks gap ∧ Begun start

/-- Whether characters, between blanks and in front of what can stand behind a part, are read as one item if a
condition holds, and as nothing if not. -/
structure Placed (reads : Item → List Char → List Char → Prop) (holds : Item → Prop) (part : List Char)
    (item : Item) : Prop where
  begun : Begun part
  exact : ∀ {item' gap gap' ender ender' rest rest'}, AreBlanks gap → AreBlanks gap' →
    ender ∈ enders → ender' ∈ enders →
    (reads item' (gap ++ (part ++ (gap' ++ ender :: rest))) (ender' :: rest') ↔
      holds item ∧ item' = item ∧ ender' = ender ∧ rest' = rest)

variable {part : List Char} {item : Item} {items : List Item} {gap gap' rest rest' : List Char} {closing : Char}

theorem closing_mem (isClosing : closing ∈ [']', '\x7d']) : closing ∈ enders := List.mem_cons_of_mem _ isClosing

theorem closing_ne (isClosing : closing ∈ [']', '\x7d']) : closing ≠ ',' := by
  rintro rfl
  revert isClosing
  decide

theorem Placed.not_blanks {behind : List Char} (placed : Placed reads holds part item) (areBlanks : AreBlanks gap)
    (isClosing : closing ∈ [']', '\x7d']) : ¬ Blanks (gap ++ (part ++ behind)) (closing :: rest') := by
  rintro ⟨gap', areBlanks', same⟩
  have isEnder := closing_mem isClosing
  have sameStart := areBlanks.unique areBlanks' (placed.begun.notBlank behind) (notBlank_ender isEnder rest') same
  exact placed.begun.ne_ender isEnder areBlanks_nil sameStart

/-- In front of a closing bracket there is one more item. -/
theorem Placed.listed_last (placed : Placed reads holds part item) (areBlanks : AreBlanks gap)
    (areBlanks' : AreBlanks gap') (isClosing : closing ∈ [']', '\x7d']) :
    Listed reads items (gap ++ (part ++ (gap' ++ closing :: rest))) (closing :: rest') ↔
      holds item ∧ items = [item] ∧ rest' = rest := by
  have isEnder := closing_mem isClosing
  match items with
  | [] => exact iff_of_false (placed.not_blanks areBlanks isClosing) (by simp)
  | [only] =>
      change reads only _ _ ↔ _
      rw [placed.exact areBlanks areBlanks' isEnder isEnder]
      simp
  | first :: second :: others =>
      refine iff_of_false ?_ (by simp)
      rintro ⟨between, isRead, _⟩
      have ends := (placed.exact areBlanks areBlanks' isEnder List.mem_cons_self).mp isRead
      exact closing_ne isClosing ends.2.2.1.symm

/-- In front of a comma there is an item, and behind it there are more. -/
theorem Placed.listed_cons {behind : List Char} (placed : Placed reads holds part item)
    (areBlanks : AreBlanks gap) (isClosing : closing ∈ [']', '\x7d']) :
    Listed reads items (gap ++ (part ++ ',' :: behind)) (closing :: rest') ↔
      holds item ∧ ∃ second others, items = item :: second :: others ∧
        Listed reads (second :: others) behind (closing :: rest') := by
  have comma : ',' ∈ enders := List.mem_cons_self
  match items with
  | [] => exact iff_of_false (placed.not_blanks areBlanks isClosing) (by simp)
  | [only] =>
      refine iff_of_false (fun isRead => ?_) (by simp)
      have ends := (placed.exact areBlanks areBlanks_nil comma (closing_mem isClosing)).mp isRead
      exact closing_ne isClosing ends.2.2.1
  | first :: second :: others =>
      constructor
      · rintro ⟨between, isRead, isListed⟩
        obtain ⟨isHeld, rfl, _, rfl⟩ := (placed.exact areBlanks areBlanks_nil comma comma).mp isRead
        exact ⟨isHeld, second, others, rfl, isListed⟩
      · rintro ⟨isHeld, second', others', same, isListed⟩
        obtain ⟨sameFirst, sameOthers⟩ := List.cons.inj same
        rw [← sameOthers] at isListed
        exact ⟨behind, (placed.exact areBlanks areBlanks_nil comma comma).mpr ⟨isHeld, sameFirst, rfl, rfl⟩,
          isListed⟩

/-- What is written with commas between the parts is read item by item. -/
theorem listed_iff {parts : List (List Char)} {items items' : List Item}
    (placed : List.Forall₂ (Placed reads holds) parts items) (notEmpty : parts ≠ []) (areBlanks : AreBlanks gap)
    (areBlanks' : AreBlanks gap') (isClosing : closing ∈ [']', '\x7d']) :
    Listed reads items' (gap ++ (List.intercalate (',' :: gap) parts ++ (gap' ++ closing :: rest)))
        (closing :: rest') ↔
      (∀ item ∈ items, holds item) ∧ items' = items ∧ rest' = rest := by
  induction placed generalizing items' with
  | nil => exact absurd rfl notEmpty
  | @cons part item parts items here others inductionHypothesis =>
      -- The last part stands in front of the closing bracket, and every other one in front of a comma.
      cases others with
      | nil =>
          rw [List.intercalate_singleton, here.listed_last areBlanks areBlanks' isClosing,
            List.forall_mem_singleton]
      | @cons second next parts items isNext others =>
          have isText : gap ++ (List.intercalate (',' :: gap) (part :: second :: parts) ++
              (gap' ++ closing :: rest)) =
                gap ++ (part ++ ',' :: (gap ++ (List.intercalate (',' :: gap) (second :: parts) ++
                  (gap' ++ closing :: rest)))) := by
            simp [List.intercalate_cons_cons]
          rw [isText, here.listed_cons areBlanks isClosing, List.forall_mem_cons]
          have isRest {items' : List Item} := @inductionHypothesis items' (List.cons_ne_nil _ _)
          constructor
          · rintro ⟨isHeld, _, _, rfl, isListed⟩
            have ⟨areHeld, same, sameRest⟩ := isRest.mp isListed
            exact ⟨⟨isHeld, areHeld⟩, congrArg _ same, sameRest⟩
          · rintro ⟨⟨isHeld, areHeld⟩, rfl, sameRest⟩
            exact ⟨isHeld, next, items, rfl, isRest.mpr ⟨areHeld, rfl, sameRest⟩⟩

/-- Between brackets that touch there is no item. -/
theorem listed_empty (opened : Opened reads) (isClosing : closing ∈ [']', '\x7d']) :
    Listed reads items (closing :: rest) (closing :: rest') ↔ items = [] ∧ rest' = rest := by
  have isEnder := closing_mem isClosing
  have notRead {item : Item} {behind : List Char} : ¬ reads item (closing :: rest) behind := by
    intro isRead
    obtain ⟨gap, start, same, areBlanks, begun⟩ := opened item _ behind isRead
    exact begun.ne_ender isEnder areBlanks ((congrArg (gap ++ ·) (List.append_nil start)).trans same.symm)
  match items with
  | [] =>
      change Blanks _ _ ↔ _
      rw [blanks_iff (notBlank_ender isEnder rest) (notBlank_ender isEnder rest')]
      simp
  | [only] => exact iff_of_false notRead (by simp)
  | first :: second :: more => exact iff_of_false (fun ⟨_, isRead, _⟩ => notRead isRead) (by simp)

theorem lineStart_blanks (depth : Nat) : AreBlanks (Document.lineStart depth) := by
  refine List.forall_mem_cons.mpr ⟨by decide, fun character isBlank => ?_⟩
  rw [List.eq_of_mem_replicate isBlank]
  decide

/-- What is written between brackets, line by line or with nothing between them, is read as its items. -/
theorem bracketed_iff {parts : List (List Char)} {items items' : List Item}
    (placed : List.Forall₂ (Placed reads holds) parts items) (opened : Opened reads)
    (isClosing : closing ∈ [']', '\x7d']) (opening : Char) (depth : Nat) :
    (∃ inside, Document.bracketed opening closing depth parts ++ rest = opening :: inside ∧
      Listed reads items' inside (closing :: rest')) ↔
      (∀ item ∈ items, holds item) ∧ items' = items ∧ rest' = rest := by
  have isInside {inside : List Char} (isText : Document.bracketed opening closing depth parts ++ rest =
      opening :: inside) : (∃ inside, Document.bracketed opening closing depth parts ++ rest = opening :: inside ∧
        Listed reads items' inside (closing :: rest')) ↔ Listed reads items' inside (closing :: rest') := by
    constructor
    · rintro ⟨inside', same, isListed⟩
      obtain rfl := (List.cons.inj (isText.symm.trans same)).2
      exact isListed
    · exact fun isListed => ⟨inside, isText, isListed⟩
  cases placed with
  | nil =>
      have isText : Document.bracketed opening closing depth [] ++ rest = opening :: closing :: rest := rfl
      rw [isInside isText, listed_empty opened isClosing]
      simp
  | @cons part item parts items here others =>
      have isText : Document.bracketed opening closing depth (part :: parts) ++ rest =
          opening :: (Document.lineStart (depth + 1) ++ (List.intercalate (',' :: Document.lineStart (depth + 1))
            (part :: parts) ++ (Document.lineStart depth ++ closing :: rest))) := by
        simp [Document.bracketed]
      rw [isInside isText, listed_iff (.cons here others) (List.cons_ne_nil _ _) (lineStart_blanks (depth + 1))
        (lineStart_blanks depth) isClosing]

end Lists

end LoxInterpreter.Json
