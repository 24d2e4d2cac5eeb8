import LoxInterpreter.Grammar.Statement

/-!
Contract: reading without a mistake, as a relation.

A parser reads a value from the front of a token list when it replies with that value, notes no
mistake and leaves the tokens behind. Reading composes: a sequence reads what its two halves read one
after the other, so every rule of the grammar opens into the readings of its parts.

Owns: `Parser.Reads` and its laws for the primitives and for repetition.
Does not own: the rules of the grammar (`Proofs.Grammar.Rules`).
-/

namespace LoxInterpreter.Grammar

/-- The kind of the token at the front. -/
def front (tokens : List Token) : Token.Kind := (Parser.currentToken tokens).kind

@[simp] theorem front_nil : front [] = .endOfInput := rfl

@[simp] theorem front_cons (token : Token) (rest : List Token) :
    front (token :: rest) = token.kind := rfl

/-- Only a list that is not empty has a front other than the end of input. -/
theorem exists_cons_of_front_ne {tokens : List Token} (notEnd : front tokens ≠ .endOfInput) :
    ∃ token rest, tokens = token :: rest := by
  cases tokens with
  | nil => exact absurd rfl notEnd
  | cons token rest => exact ⟨token, rest, rfl⟩

/-- Whether some tokens begin with one of the given kind, and which are behind it. -/
def Takes (kind : Token.Kind) (tokens rest : List Token) : Prop :=
  ∃ token, tokens = token :: rest ∧ token.kind = kind

theorem Takes.front_eq {kind : Token.Kind} {tokens rest : List Token}
    (takes : Takes kind tokens rest) : front tokens = kind := by
  obtain ⟨token, rfl, same⟩ := takes
  exact same

theorem Takes.length_eq {kind : Token.Kind} {tokens rest : List Token}
    (takes : Takes kind tokens rest) : tokens.length = rest.length + 1 := by
  obtain ⟨token, rfl, _⟩ := takes
  rfl

/-- The reply to what stands behind some items, with these items in front. -/
def Reply.behind {α : Type} (reply : Reply (List α)) (earlier : List α) : Reply (List α) :=
  { reply with value := reply.value.map (earlier ++ ·) }

theorem Reply.behind_nil {α : Type} (reply : Reply (List α)) : reply.behind [] = reply := by
  simp [Reply.behind]

theorem Reply.behind_behind {α : Type} (reply : Reply (List α)) (earlier first : List α) :
    (reply.behind earlier).behind first = reply.behind (first ++ earlier) := by
  simp [Reply.behind, Function.comp_def]

namespace Parser

variable {α β : Type}

/-- Whether a parser reads a value from some tokens without a mistake, and leaves the others. -/
def Reads (parser : Parser α) (tokens : List Token) (value : α) (rest : List Token) : Prop :=
  parser tokens = ⟨some value, [], rest⟩

@[simp] theorem reads_pure_iff {value result : α} {tokens rest : List Token} :
    (pure value : Parser α).Reads tokens result rest ↔ result = value ∧ rest = tokens := by
  change (⟨some value, [], tokens⟩ : Reply α) = _ ↔ _
  simp [eq_comm]

/-- A sequence reads what its two halves read one after the other. -/
theorem reads_bind_iff {first : Parser α} {next : α → Parser β} {tokens rest : List Token}
    {result : β} :
    (first >>= next).Reads tokens result rest ↔
      ∃ value between, first.Reads tokens value between ∧ (next value).Reads between result rest := by
  change Parser.bind first next tokens = _ ↔ _
  unfold Reads Parser.bind
  cases reply : first tokens with
  | mk value errors between =>
      cases value with
      | none => simp
      | some value =>
          constructor
          · intro whole
            simp only [Reply.mk.injEq, List.append_eq_nil_iff] at whole
            obtain ⟨later, ⟨rfl, laterErrors⟩, laterRest⟩ := whole
            exact ⟨value, between, rfl, by rw [← later, ← laterErrors, ← laterRest]⟩
          · rintro ⟨value, between, first, second⟩
            cases first
            simp [second]

/-- Behind a first half that reads, a sequence does what its second half does, with mistakes or without. -/
theorem Reads.bind_eq {parser : Parser α} {value : α} {tokens rest : List Token}
    (reads : parser.Reads tokens value rest) (next : α → Parser β) :
    (parser >>= next) tokens = next value rest := by
  change Parser.bind parser next tokens = _
  unfold Parser.bind
  rw [show parser tokens = _ from reads]
  rfl

@[simp] theorem reads_nextIs_iff {kind : Token.Kind} {tokens rest : List Token} {answer : Bool} :
    (nextIs kind).Reads tokens answer rest ↔ answer = (front tokens == kind) ∧ rest = tokens := by
  change (⟨some (front tokens == kind), [], tokens⟩ : Reply Bool) = _ ↔ _
  simp [eq_comm]

@[simp] theorem not_reads_fail {cause : SyntaxError.Cause} {tokens rest : List Token} {value : α} :
    ¬ (fail cause).Reads tokens value rest := by
  simp [Reads, fail]

@[simp] theorem not_reads_report {cause : SyntaxError.Cause} {token : Token}
    {tokens rest : List Token} {value : Unit} : ¬ (report cause token).Reads tokens value rest := by
  simp [Reads, report]

@[simp] theorem not_reads_reportHere {cause : SyntaxError.Cause} {tokens rest : List Token}
    {value : Unit} : ¬ (reportHere cause).Reads tokens value rest := by
  simp [Reads, reportHere]

/-- A choice takes the token at the front, which is not the closing one. -/
theorem reads_take?_some_iff {choose : Token → Option α} {tokens rest : List Token} {value : α} :
    (take? choose).Reads tokens (some value) rest ↔
      ∃ token, tokens = token :: rest ∧ token.kind ≠ .endOfInput ∧ choose token = some value := by
  cases tokens with
  | nil => simp [Reads, take?]
  | cons token others =>
      by_cases closing : token.kind = .endOfInput
      · simp [Reads, take?, closing, and_assoc]
      · cases chosen : choose token with
        | none =>
            simp only [Reads, take?, beq_iff_eq, closing, if_false, chosen, Reply.mk.injEq,
              Option.some.injEq, reduceCtorEq, false_and, List.cons.injEq, false_iff]
            rintro ⟨taken, ⟨rfl, rfl⟩, _, some⟩
            simp [chosen] at some
        | some value' =>
            simp only [Reads, take?, beq_iff_eq, closing, if_false, chosen, Reply.mk.injEq,
              Option.some.injEq, true_and, List.cons.injEq]
            constructor
            · rintro ⟨rfl, rfl⟩
              exact ⟨token, ⟨rfl, rfl⟩, closing, chosen⟩
            · rintro ⟨taken, ⟨rfl, rfl⟩, _, some⟩
              exact ⟨Option.some.inj (chosen.symm.trans some), rfl⟩

/-- A choice that takes nothing leaves the tokens as they are. -/
theorem reads_take?_none_iff {choose : Token → Option α} {tokens rest : List Token} :
    (take? choose).Reads tokens none rest ↔
      rest = tokens ∧ ∀ token others, tokens = token :: others → token.kind ≠ .endOfInput →
        choose token = none := by
  cases tokens with
  | nil => simp [Reads, take?, eq_comm]
  | cons token others =>
      by_cases closing : token.kind = .endOfInput
      · simp only [Reads, take?, closing, beq_self_eq_true, if_true, Reply.mk.injEq, true_and]
        refine ⟨fun same => ⟨same.symm, ?_⟩, fun both => both.1.symm⟩
        rintro token' others' ⟨rfl, rfl⟩ notClosing
        exact absurd closing notClosing
      · cases chosen : choose token with
        | none =>
            simp only [Reads, take?, beq_iff_eq, closing, if_false, chosen, Reply.mk.injEq, true_and]
            refine ⟨fun same => ⟨same.symm, ?_⟩, fun both => both.1.symm⟩
            rintro token' others' ⟨rfl, rfl⟩ _
            exact chosen
        | some value =>
            simp only [Reads, take?, beq_iff_eq, closing, if_false, chosen, Reply.mk.injEq,
              Option.some.injEq, reduceCtorEq, false_and, false_iff, not_and]
            intro _ declined
            simpa [chosen] using declined token others rfl closing

theorem reads_accept?_some_iff {kind : Token.Kind} (notEnd : kind ≠ .endOfInput)
    {tokens rest : List Token} {token : Token} :
    (accept? kind).Reads tokens (some token) rest ↔ tokens = token :: rest ∧ token.kind = kind := by
  unfold accept?
  rw [reads_take?_some_iff]
  constructor
  · rintro ⟨taken, rfl, _, chosen⟩
    simp only [beq_iff_eq, Option.ite_none_right_eq_some, Option.some.injEq] at chosen
    obtain ⟨same, rfl⟩ := chosen
    exact ⟨rfl, same⟩
  · rintro ⟨rfl, same⟩
    exact ⟨token, rfl, by rw [same]; exact notEnd, by simp [same]⟩

theorem reads_accept?_none_iff {kind : Token.Kind} (notEnd : kind ≠ .endOfInput)
    {tokens rest : List Token} :
    (accept? kind).Reads tokens none rest ↔ rest = tokens ∧ front tokens ≠ kind := by
  unfold accept?
  rw [reads_take?_none_iff]
  cases tokens with
  | nil => simp [Ne.symm notEnd]
  | cons token others =>
      simp only [List.cons.injEq, beq_iff_eq, front_cons, and_congr_right_iff]
      rintro rfl
      constructor
      · intro declined same
        simpa [same] using declined token others ⟨rfl, rfl⟩ (by rw [same]; exact notEnd)
      · rintro different taken _ ⟨rfl, rfl⟩ _
        simp [different]

theorem reads_accept_true_iff {kind : Token.Kind} (notEnd : kind ≠ .endOfInput)
    {tokens rest : List Token} :
    (accept kind).Reads tokens true rest ↔ Takes kind tokens rest := by
  unfold accept Takes
  simp only [reads_bind_iff, reads_pure_iff]
  constructor
  · rintro ⟨token?, between, taken, some, rfl⟩
    obtain ⟨token, rfl⟩ := Option.isSome_iff_exists.mp some.symm
    exact ⟨token, (reads_accept?_some_iff notEnd).mp taken⟩
  · rintro ⟨token, rfl, same⟩
    exact ⟨some token, rest, (reads_accept?_some_iff notEnd).mpr ⟨rfl, same⟩, rfl, rfl⟩

theorem reads_accept_false_iff {kind : Token.Kind} (notEnd : kind ≠ .endOfInput)
    {tokens rest : List Token} :
    (accept kind).Reads tokens false rest ↔ rest = tokens ∧ front tokens ≠ kind := by
  unfold accept
  simp only [reads_bind_iff, reads_pure_iff]
  constructor
  · rintro ⟨token?, between, taken, none, rfl⟩
    obtain rfl : token? = Option.none := by simpa using none.symm
    exact (reads_accept?_none_iff notEnd).mp taken
  · rintro ⟨rfl, different⟩
    exact ⟨none, rest, (reads_accept?_none_iff notEnd).mpr ⟨rfl, different⟩, rfl, rfl⟩

theorem reads_expect_iff {kind : Token.Kind} (notEnd : kind ≠ .endOfInput)
    {cause : SyntaxError.Cause} {tokens rest : List Token} {token : Token} :
    (expect kind cause).Reads tokens token rest ↔ tokens = token :: rest ∧ token.kind = kind := by
  unfold expect
  rw [reads_bind_iff]
  constructor
  · rintro ⟨taken?, between, taken, result⟩
    cases taken? with
    | none => exact absurd result not_reads_fail
    | some taken' =>
        obtain ⟨rfl, rfl⟩ := reads_pure_iff.mp result
        exact (reads_accept?_some_iff notEnd).mp taken
  · intro taken
    exact ⟨some token, rest, (reads_accept?_some_iff notEnd).mpr taken, reads_pure_iff.mpr ⟨rfl, rfl⟩⟩

/-- A mark that is expected, and of which only the kind matters, is taken. -/
theorem reads_expectMark_bind_iff {kind : Token.Kind} (notEnd : kind ≠ .endOfInput) {site : Site}
    {next : Parser β} {tokens rest : List Token} {result : β} :
    (do let _ ← expectMark kind site; next).Reads tokens result rest ↔
      ∃ behind, Takes kind tokens behind ∧ next.Reads behind result rest := by
  rw [reads_bind_iff]
  constructor
  · rintro ⟨token, behind, taken, following⟩
    exact ⟨behind, ⟨token, (reads_expect_iff notEnd).mp taken⟩, following⟩
  · rintro ⟨behind, ⟨token, taken⟩, following⟩
    exact ⟨token, behind, (reads_expect_iff notEnd).mpr taken, following⟩

/-- A question for a kind of token takes one path where such a token is at the front, and the other
where it is not. -/
theorem reads_accept_bind_iff {kind : Token.Kind} (notEnd : kind ≠ .endOfInput)
    {next other : Parser β} {tokens rest : List Token} {result : β} :
    (do if ← accept kind then next else other).Reads tokens result rest ↔
      (∃ behind, Takes kind tokens behind ∧ next.Reads behind result rest) ∨
        (front tokens ≠ kind ∧ other.Reads tokens result rest) := by
  rw [reads_bind_iff]
  constructor
  · rintro ⟨answer, behind, asked, following⟩
    cases answer with
    | true => exact .inl ⟨behind, (reads_accept_true_iff notEnd).mp asked, following⟩
    | false =>
        obtain ⟨rfl, different⟩ := (reads_accept_false_iff notEnd).mp asked
        exact .inr ⟨different, following⟩
  · rintro (⟨behind, taken, following⟩ | ⟨different, following⟩)
    · exact ⟨true, behind, (reads_accept_true_iff notEnd).mpr taken, following⟩
    · exact ⟨false, tokens, (reads_accept_false_iff notEnd).mpr ⟨rfl, different⟩, following⟩

/-- A comma list reads an item, and behind a comma the items that follow; it stays within the
limit. -/
theorem reads_commaSeparated_iff {item : Parser α} {excess : SyntaxError.Cause} {bound count : Nat}
    {tokens rest : List Token} {items : List α} :
    (commaSeparated item excess (bound + 1) count).Reads tokens items rest ↔
      count < itemLimit ∧ ∃ first between, item.Reads tokens first between ∧
        ((front between ≠ .comma ∧ items = [first] ∧ rest = between) ∨
          ∃ others later, Takes .comma between others ∧
            (commaSeparated item excess bound (count + 1)).Reads others later rest ∧
            items = first :: later) := by
  rw [commaSeparated]
  by_cases full : itemLimit ≤ count
  · simp [full, reads_bind_iff, Nat.not_lt.mpr full]
  · simp (disch := decide) only [full, if_false, Nat.not_le.mp full, true_and,
      @reads_bind_iff _ _ item, reads_accept_bind_iff, reads_pure_iff]
    constructor
    · rintro ⟨first, between, one, more | last⟩
      · obtain ⟨others, comma, more⟩ := more
        obtain ⟨later, _, following, done⟩ := reads_bind_iff.mp more
        obtain ⟨rfl, rfl⟩ := reads_pure_iff.mp done
        exact ⟨first, _, one, .inr ⟨others, later, comma, following, rfl⟩⟩
      · exact ⟨first, _, one, .inl last⟩
    · rintro ⟨first, between, one, last | more⟩
      · exact ⟨first, _, one, .inr last⟩
      · obtain ⟨others, later, comma, following, rfl⟩ := more
        exact ⟨first, _, one, .inl ⟨others, comma,
          reads_bind_iff.mpr ⟨later, rest, following, reads_pure_iff.mpr ⟨rfl, rfl⟩⟩⟩⟩

/-- A list in parentheses is empty in front of the closing one, and otherwise has items. -/
theorem reads_list_iff {item : Parser α} {excess : SyntaxError.Cause} {bound : Nat}
    {tokens rest : List Token} {items : List α} :
    (list item excess bound).Reads tokens items rest ↔
      (front tokens = .rightParen ∧ items = [] ∧ rest = tokens) ∨
        (front tokens ≠ .rightParen ∧
          (commaSeparated item excess bound 0).Reads tokens items rest) := by
  unfold list
  rw [reads_bind_iff]
  by_cases closes : front tokens = .rightParen <;> simp [closes]

/-- Growing goes on as long as a step adds something. -/
theorem reads_grow_iff {step : α → Parser (Option α)} {bound : Nat} {value result : α}
    {tokens rest : List Token} :
    (grow step (bound + 1) value).Reads tokens result rest ↔
      ((step value).Reads tokens none rest ∧ result = value) ∨
        ∃ grown between, (step value).Reads tokens (some grown) between ∧
          (grow step bound grown).Reads between result rest := by
  rw [grow, reads_bind_iff]
  constructor
  · rintro ⟨grown?, between, one, following⟩
    cases grown? with
    | none =>
        obtain ⟨rfl, rfl⟩ := reads_pure_iff.mp following
        exact .inl ⟨one, rfl⟩
    | some grown => exact .inr ⟨grown, between, one, following⟩
  · rintro (⟨one, rfl⟩ | ⟨grown, between, one, following⟩)
    · exact ⟨none, rest, one, reads_pure_iff.mpr ⟨rfl, rfl⟩⟩
    · exact ⟨some grown, between, one, following⟩

/-- Repetition reads items until the tokens say stop. -/
theorem reads_many_iff {item : Parser (Option α)} {stop : List Token → Bool} {bound : Nat}
    {tokens rest : List Token} {items : List α} :
    (many item stop (bound + 1)).Reads tokens items rest ↔
      (stop tokens = true ∧ items = [] ∧ rest = tokens) ∨
        (stop tokens = false ∧ ∃ first between later, item.Reads tokens first between ∧
          (many item stop bound).Reads between later rest ∧ items = first.toList ++ later) := by
  rw [many]
  by_cases stops : stop tokens = true
  · simp only [Reads, stops, if_true, Reply.mk.injEq, Option.some.injEq, true_and, reduceCtorEq,
      false_and, or_false]
    exact ⟨fun both => ⟨both.1.symm, both.2.symm⟩, fun both => ⟨both.1.symm, both.2.symm⟩⟩
  · have goesOn : stop tokens = false := by simpa using stops
    have opened : Reads (fun tokens => if stop tokens then ⟨some [], [], tokens⟩ else
          (do let first ← item; return first.toList ++ (← many item stop bound) : Parser (List α))
            tokens) tokens items rest ↔
        (do let first ← item; return first.toList ++ (← many item stop bound) :
          Parser (List α)).Reads tokens items rest := by
      simp [Reads, goesOn]
    rw [opened]
    simp only [goesOn, Bool.false_eq_true, false_and, false_or, true_and, reads_bind_iff,
      reads_pure_iff]
    constructor
    · rintro ⟨first, between, one, later, _, following, rfl, rfl⟩
      exact ⟨first, between, later, one, following, rfl⟩
    · rintro ⟨first, between, later, one, following, rfl⟩
      exact ⟨first, between, one, later, rest, following, rfl, rfl⟩

/-- An item that reads stands in front of the others, which may have mistakes. -/
theorem many_of_reads {item : Parser (Option α)} {stop : List Token → Bool} {bound : Nat}
    {tokens between : List Token} {first : Option α} (goesOn : stop tokens = false)
    (one : item.Reads tokens first between) :
    many item stop (bound + 1) tokens = (many item stop bound between).behind first.toList := by
  have opened : many item stop (bound + 1) tokens =
      (do let first ← item; return first.toList ++ (← many item stop bound) : Parser (List α)) tokens := by
    simp [many, goesOn]
  rw [opened, one.bind_eq]
  change Parser.bind (many item stop bound) _ between = _
  unfold Parser.bind Reply.behind
  cases many item stop bound between with
  | mk value errors rest =>
      cases value with
      | none => rfl
      | some later => simp [pure, Parser.pure]

end Parser

end LoxInterpreter.Grammar
