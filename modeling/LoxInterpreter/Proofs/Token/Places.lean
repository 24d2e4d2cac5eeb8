import LoxInterpreter.Proofs.Token.LongestMatch

/-!
Contract: the line of a token is that of its end.

The scanner counts lines as it goes. What it counts is said here without counting along: where in its text
each token stands, and how many line feeds there are up to a place of the text.

Owns: `lineAt`, `Stretch`, `Layout`, `layoutFrom`, and `scan_lines`.
Does not own: which pieces are cut off (`Proofs.Token.LongestMatch`).
-/

namespace LoxInterpreter.Token

/-- The line of a place in a text, which has so many characters of the text in front of it. -/
def lineAt (text : List Char) (place : Nat) : Nat := 1 + (text.take place).count '\n'

/-- A piece of a text that is a token of some kind: from one place in the text to another. -/
structure Stretch where
  kind : Kind
  start : Nat
  stop : Nat
deriving Repr

/-- The token that a stretch of a text is. Its line is that of its end. -/
def Stretch.token (text : List Char) (stretch : Stretch) : Token :=
  ⟨stretch.kind, String.ofList (text.extract stretch.start stretch.stop), lineAt text stretch.stop⟩

/-- Where in a text its tokens stand. Where no piece fits, it is said why, and up to where the text was
looked at. -/
structure Layout where
  stretches : List Stretch
  stuck : Option (LexicalError.Cause × Nat)
deriving Repr

namespace Layout

/-- A layout with one more token in front. -/
def prepend (stretch : Stretch) (layout : Layout) : Layout := ⟨stretch :: layout.stretches, layout.stuck⟩

/-- The tokens of a text that is laid out so. -/
def tokens (layout : Layout) (text : List Char) : List Token :=
  layout.stretches.map (·.token text) ++
    if layout.stuck = none then [closing (lineAt text text.length)] else []

/-- The mistake in a text that is laid out so. -/
def error (layout : Layout) (text : List Char) : Option LexicalError :=
  layout.stuck.map fun (cause, place) => ⟨cause, lineAt text place⟩

end Layout

/-- Lays out what stands in a text from a place on. Lines play no part in this. -/
def layoutFrom (start : Nat) : List Char → Layout
  | [] => ⟨[], none⟩
  | first :: rest =>
      match _found : Front.of first rest with
      | .gap taken after => layoutFrom (start + taken.length) after
      | .token kind taken after =>
          (layoutFrom (start + taken.length) after).prepend ⟨kind, start, start + taken.length⟩
      | .failure cause taken => ⟨[], some (cause, start + taken.length)⟩
termination_by characters => characters.length
decreasing_by
  all_goals
    have shorter := Front.rest_length_le first rest
    rw [_found] at shorter
    exact Nat.lt_succ_of_le shorter

/-! ## Lines of places -/

theorem lineAt_length_append (passed ahead : List Char) :
    lineAt (passed ++ ahead) passed.length = lineAfter 1 passed := by
  rw [lineAt, List.take_left, lineAfter]

theorem lineAt_length (text : List Char) : lineAt text text.length = 1 + text.count '\n' := by
  rw [lineAt, List.take_length]

/-- Places further on are on no earlier line. -/
theorem lineAt_mono (text : List Char) {place later : Nat} (le : place ≤ later) :
    lineAt text place ≤ lineAt text later := by
  have sublist := (List.take_prefix_take_left le (l := text)).sublist
  exact Nat.add_le_add_left (sublist.count_le '\n') 1

theorem lineAt_le_length (text : List Char) (place : Nat) : lineAt text place ≤ lineAt text text.length := by
  rw [lineAt_length]
  exact Nat.add_le_add_left ((List.take_sublist place text).count_le '\n') 1

/-- Behind a piece the scanner counts on from the line in front of it. -/
theorem lineAt_taken (passed taken after : List Char) :
    lineAt (passed ++ (taken ++ after)) (passed.length + taken.length) =
      lineAfter (lineAfter 1 passed) taken := by
  rw [← List.append_assoc, ← List.length_append, lineAt_length_append, lineAfter_append]

/-- What was taken behind some characters is the stretch from their end to its own. -/
theorem extract_taken (passed taken after : List Char) :
    (passed ++ (taken ++ after)).extract passed.length (passed.length + taken.length) = taken := by
  rw [List.extract_eq_take_drop, List.drop_left, Nat.add_sub_cancel_left, List.take_left]

/-! ## Pieces -/

section Pieces

variable {first : Char} {rest taken after : List Char}

theorem layoutFrom_gap (found : Front.of first rest = .gap taken after) (start : Nat) :
    layoutFrom start (first :: rest) = layoutFrom (start + taken.length) after := by
  rw [layoutFrom]
  split
  · rename_i same
    rw [found] at same
    cases same
    rfl
  · rename_i other
    rw [found] at other
    cases other
  · rename_i other
    rw [found] at other
    cases other

theorem layoutFrom_token {kind : Kind} (found : Front.of first rest = .token kind taken after)
    (start : Nat) :
    layoutFrom start (first :: rest) =
      (layoutFrom (start + taken.length) after).prepend ⟨kind, start, start + taken.length⟩ := by
  rw [layoutFrom]
  split
  · rename_i other
    rw [found] at other
    cases other
  · rename_i same
    rw [found] at same
    cases same
    rfl
  · rename_i other
    rw [found] at other
    cases other

theorem layoutFrom_failure {cause : LexicalError.Cause} (found : Front.of first rest = .failure cause taken)
    (start : Nat) : layoutFrom start (first :: rest) = ⟨[], some (cause, start + taken.length)⟩ := by
  rw [layoutFrom]
  split
  · rename_i other
    rw [found] at other
    cases other
  · rename_i other
    rw [found] at other
    cases other
  · rename_i same
    rw [found] at same
    cases same
    rfl

/-- What does not fit is looked at from the front on. -/
theorem exists_append_of_failure {cause : LexicalError.Cause}
    (found : Front.of first rest = .failure cause taken) : ∃ after, first :: rest = taken ++ after := by
  rcases failure_cases found with ⟨_, _, whole⟩ | ⟨_, _, nothing⟩
  · exact ⟨[], by rw [whole, List.append_nil]⟩
  · exact ⟨first :: rest, by rw [nothing, List.nil_append]⟩

end Pieces

/-! ## The scan and its layout -/

theorem Layout.tokens_prepend (stretch : Stretch) (layout : Layout) (text : List Char) :
    (layout.prepend stretch).tokens text = stretch.token text :: layout.tokens text := rfl

/-- A token that was just taken is the stretch from the place in front of it to the place behind it. -/
theorem token_taken (kind : Kind) (passed taken after : List Char) :
    Stretch.token (passed ++ (taken ++ after)) ⟨kind, passed.length, passed.length + taken.length⟩ =
      ⟨kind, String.ofList taken, lineAfter (lineAfter 1 passed) taken⟩ := by
  rw [Stretch.token, extract_taken, lineAt_taken]

/-- Behind some characters of a text, the scanner goes on with the line of their end, and gives the rest of the
layout. -/
theorem scanFrom_eq_layout (start : Nat) (ahead passed : List Char) (begins : start = passed.length) :
    scanFrom (lineAfter 1 passed) ahead =
      ⟨(layoutFrom start ahead).tokens (passed ++ ahead), (layoutFrom start ahead).error (passed ++ ahead)⟩ := by
  induction start, ahead using layoutFrom.induct generalizing passed with
  | case1 start =>
      have whole := lineAt_length_append passed []
      rw [List.append_nil] at whole ⊢
      rw [scanFrom, layoutFrom, ← whole]
      rfl
  | case2 start first rest taken after found inductionHypothesis =>
      have cut := (isGap_of_gap found).1
      rw [scanFrom_gap found, layoutFrom_gap found, cut, ← lineAfter_append, ← List.append_assoc]
      exact inductionHypothesis (passed ++ taken) (by rw [begins, List.length_append])
  | case3 start first rest kind taken after found inductionHypothesis =>
      have cut := (form_of_token found).1
      have behind := inductionHypothesis (passed ++ taken) (by rw [begins, List.length_append])
      rw [lineAfter_append, List.append_assoc] at behind
      rw [scanFrom_token found, layoutFrom_token found, cut, behind, begins, Layout.tokens_prepend,
        token_taken]
      rfl
  | case4 start first rest cause taken found =>
      obtain ⟨after, cut⟩ := exists_append_of_failure found
      rw [scanFrom_failure found, layoutFrom_failure found, cut, begins, ← lineAt_taken passed taken after]
      rfl

/-! ## What a layout is like -/

/-- Tokens stand one behind the other, and none is empty. -/
theorem layoutFrom_ordered (start : Nat) (ahead : List Char) :
    (∀ stretch ∈ (layoutFrom start ahead).stretches, start ≤ stretch.start ∧
      stretch.start < stretch.stop ∧ stretch.stop ≤ start + ahead.length) ∧
    (layoutFrom start ahead).stretches.Pairwise fun first second => first.stop ≤ second.start := by
  induction start, ahead using layoutFrom.induct with
  | case1 start =>
      rw [layoutFrom]
      exact ⟨fun _ member => absurd member List.not_mem_nil, .nil⟩
  | case2 start first rest taken after found inductionHypothesis =>
      have cut := congrArg List.length (isGap_of_gap found).1
      rw [List.length_append] at cut
      rw [layoutFrom_gap found]
      refine ⟨fun stretch member => ?_, inductionHypothesis.2⟩
      have ⟨behind, inside, ends⟩ := inductionHypothesis.1 stretch member
      omega
  | case3 start first rest kind taken after found inductionHypothesis =>
      have ⟨split, form⟩ := form_of_token found
      have cut := congrArg List.length split
      have isLong := List.length_pos_iff.mpr (form 0).ne_nil
      rw [List.length_append] at cut
      rw [layoutFrom_token found, Layout.prepend]
      constructor
      · intro stretch member
        rcases List.mem_cons.mp member with rfl | member
        · have ends : start + taken.length ≤ start + (first :: rest).length := by omega
          exact ⟨Nat.le_refl _, Nat.lt_add_of_pos_right isLong, ends⟩
        · have ⟨behind, inside, ends⟩ := inductionHypothesis.1 stretch member
          omega
      · refine .cons (fun stretch member => ?_) inductionHypothesis.2
        exact (inductionHypothesis.1 stretch member).1
  | case4 start first rest cause taken found =>
      rw [layoutFrom_failure found]
      exact ⟨fun _ member => absurd member List.not_mem_nil, .nil⟩

/-- The two ways in which nothing fits: behind some characters, at one that begins no piece, or in a string that
goes on to the end. -/
inductive Layout.Stuck (ahead : List Char) : LexicalError.Cause → Nat → Prop
  | character {before after : List Char} {offending : Char} (split : ahead = before ++ offending :: after)
      (fails : Front.of offending after = .failure .unexpectedCharacter []) :
      Stuck ahead .unexpectedCharacter before.length
  | string : Stuck ahead .unterminatedString ahead.length

theorem Layout.Stuck.behind {ahead : List Char} {cause : LexicalError.Cause} {place : Nat}
    (stuck : Stuck ahead cause place) (taken : List Char) :
    Stuck (taken ++ ahead) cause (taken.length + place) := by
  cases stuck with
  | @character before after offending split fails =>
      rw [← List.length_append]
      exact .character (by rw [split, List.append_assoc]) fails
  | string =>
      rw [← List.length_append]
      exact .string

theorem stuck_of_layoutFrom {start : Nat} {ahead : List Char} {cause : LexicalError.Cause} {place : Nat}
    (stuck : (layoutFrom start ahead).stuck = some (cause, place)) :
    ∃ further, place = start + further ∧ Layout.Stuck ahead cause further := by
  induction start, ahead using layoutFrom.induct with
  | case1 start =>
      rw [layoutFrom] at stuck
      cases stuck
  | case2 start first rest taken after found inductionHypothesis =>
      rw [layoutFrom_gap found] at stuck
      obtain ⟨further, rfl, isStuck⟩ := inductionHypothesis stuck
      rw [(isGap_of_gap found).1]
      exact ⟨taken.length + further, Nat.add_assoc .., isStuck.behind taken⟩
  | case3 start first rest kind taken after found inductionHypothesis =>
      rw [layoutFrom_token found] at stuck
      obtain ⟨further, rfl, isStuck⟩ := inductionHypothesis stuck
      rw [(form_of_token found).1]
      exact ⟨taken.length + further, Nat.add_assoc .., isStuck.behind taken⟩
  | case4 start first rest cause taken found =>
      rw [layoutFrom_failure found] at stuck
      cases stuck
      refine ⟨taken.length, rfl, ?_⟩
      rcases failure_cases found with ⟨_, rfl, rfl⟩ | ⟨_, rfl, rfl⟩
      · exact .string
      · exact .character (List.nil_append _).symm found

/-! ## Lines of tokens -/

/-- The lines of the tokens of a layout do not decrease. -/
theorem Layout.lines_ordered (layout : Layout) (text : List Char)
    (ordered : layout.stretches.Pairwise fun first second => first.stop ≤ second.stop) :
    (layout.tokens text).Pairwise fun first second => first.line ≤ second.line := by
  have lines : (layout.stretches.map (·.token text)).Pairwise fun first second => first.line ≤ second.line :=
    List.pairwise_map.mpr (ordered.imp fun le => lineAt_mono text le)
  refine List.pairwise_append.mpr ⟨lines, ?_, ?_⟩
  · split
    · exact List.pairwise_singleton _ _
    · exact .nil
  · intro token member last isLast
    obtain ⟨stretch, _, rfl⟩ := List.mem_map.mp member
    split at isLast
    · rw [List.mem_singleton.mp isLast]
      exact lineAt_le_length text stretch.stop
    · cases isLast

/-- A mistake is on the line of the character that begins no piece, or on the last line of the text. -/
theorem Layout.error_cases (characters : List Char) :
    let layout := layoutFrom 0 characters
    layout.stuck = none ∨
      (∃ before offending after, characters = before ++ offending :: after ∧
        Front.of offending after = .failure .unexpectedCharacter [] ∧
        layout.stuck = some (.unexpectedCharacter, before.length) ∧
        layout.error characters = some ⟨.unexpectedCharacter, 1 + before.count '\n'⟩) ∨
      (layout.stuck = some (.unterminatedString, characters.length) ∧
        layout.error characters = some ⟨.unterminatedString, 1 + characters.count '\n'⟩) := by
  intro layout
  cases isStuck : layout.stuck with
  | none => exact .inl rfl
  | some reason =>
      obtain ⟨cause, place⟩ := reason
      obtain ⟨further, rfl, stuck⟩ := stuck_of_layoutFrom isStuck
      rw [Nat.zero_add] at isStuck ⊢
      have error : layout.error characters = some ⟨cause, lineAt characters further⟩ := by
        rw [Layout.error, isStuck]
        rfl
      cases stuck with
      | @character before after offending split fails =>
          have line : lineAt characters before.length = 1 + before.count '\n' := by
            rw [split]
            exact lineAt_length_append before (offending :: after)
          rw [line] at error
          exact .inr (.inl ⟨before, offending, after, split, fails, rfl, error⟩)
      | string =>
          rw [lineAt_length] at error
          exact .inr (.inr ⟨rfl, error⟩)

/-- The line of a token is one more than the line feeds up to its end, whatever comes of the scan behind it, and
that of the closing token one more than all line feeds. A character that begins no piece is reported on its own
line, and a string that does not end on the last line of the text. So the lines of tokens do not decrease. -/
theorem scan_lines (text : String) :
    let characters := text.toList
    let layout := layoutFrom 0 characters
    let scan := (Source.text text).scan
    scan.tokens = layout.stretches.map (fun stretch =>
        ⟨stretch.kind, String.ofList (characters.extract stretch.start stretch.stop),
          1 + (characters.take stretch.stop).count '\n'⟩) ++
      (if scan.error = none then [⟨.endOfInput, "", 1 + characters.count '\n'⟩] else []) ∧
    (∀ stretch ∈ layout.stretches, stretch.start < stretch.stop ∧ stretch.stop ≤ characters.length) ∧
    (layout.stretches.Pairwise fun first second => first.stop ≤ second.start) ∧
    (scan.error = none ∧ layout.stuck = none ∨
      (∃ before offending after, characters = before ++ offending :: after ∧
        Front.of offending after = .failure .unexpectedCharacter [] ∧
        layout.stuck = some (.unexpectedCharacter, before.length) ∧
        scan.error = some ⟨.unexpectedCharacter, 1 + before.count '\n'⟩) ∨
      (layout.stuck = some (.unterminatedString, characters.length) ∧
        scan.error = some ⟨.unterminatedString, 1 + characters.count '\n'⟩)) ∧
    scan.tokens.Pairwise fun first second => first.line ≤ second.line := by
  intro characters layout scan
  have whole : scan = ⟨layout.tokens characters, layout.error characters⟩ :=
    scanFrom_eq_layout 0 characters [] rfl
  have ⟨inside, ordered⟩ := layoutFrom_ordered 0 characters
  rw [Nat.zero_add] at inside
  have complete : scan.error = none ↔ layout.stuck = none := by
    rw [whole]
    exact Option.map_eq_none_iff
  refine ⟨?_, fun stretch member => (inside stretch member).2, ordered, ?_, ?_⟩
  · have tokens : scan.tokens = layout.tokens characters := by rw [whole]
    rw [tokens, Layout.tokens, lineAt_length]
    simp only [complete]
    rfl
  · have error : scan.error = layout.error characters := by rw [whole]
    rw [error] at complete ⊢
    exact (Layout.error_cases characters).imp_left fun notStuck => ⟨complete.mpr notStuck, notStuck⟩
  · rw [whole]
    apply layout.lines_ordered characters
    apply ordered.imp_of_mem
    intro first second _ member le
    exact Nat.le_trans le (Nat.le_of_lt (inside second member).2.1)

/-- The line feed in a string counts for the string, and one in front of a comment for what stands behind it. -/
example : (Source.text "\"a\nb\" // c\nd").scan.tokens.map Token.line = [2, 3, 3] := by decide +kernel

end LoxInterpreter.Token
