import Mathlib.Data.List.TakeWhile
import LoxInterpreter.Token.Scan

/-!
Contract: the scanner counts every line feed.

The line advances at a line feed between tokens and at those in strings. No comment, mark, number or word
holds one, so behind every piece the line has advanced by the line feeds of the piece, whatever it is. What
is known of scanning is said with this count, and not with the places at which the scanner makes it.

Owns: `lineAfter`, `Front.lineBehind_eq`, `scanFrom` for each kind of piece, and `scanFrom_induction`.
-/

namespace LoxInterpreter.Token

/-- The line after some characters, given the line before them. -/
def lineAfter (line : Nat) (characters : List Char) : Nat := line + characters.count '\n'

theorem lineAfter_of_not_mem {characters : List Char} (none : '\n' ∉ characters) (line : Nat) :
    lineAfter line characters = line := by
  rw [lineAfter, List.count_eq_zero.mpr none, Nat.add_zero]

namespace Front

def taken : Front → List Char
  | gap taken _ | token _ taken _ | failure _ taken => taken

/-- Whether a piece leads to the line behind the line feeds in it. -/
def CountsLines (front : Front) : Prop := ∀ line, front.lineBehind line = lineAfter line front.taken

variable {first : Char} {rest after : List Char}

/-! ## Pieces without line feeds -/

theorem countsLines_of_not_mem {kind : Kind} (notString : ∀ content, kind ≠ .string content)
    {characters : List Char} (none : '\n' ∉ characters) : (token kind characters after).CountsLines := by
  intro line
  have stays : (token kind characters after).lineBehind line = line := by
    cases kind with
    | string content => exact absurd rfl (notString content)
    | _ => rfl
  rw [stays]
  exact (lineAfter_of_not_mem none line).symm

theorem not_mem_takeWhile {keep : Char → Bool} (stops : keep '\n' = false) (text : List Char) :
    '\n' ∉ text.takeWhile keep := by
  intro member
  have kept := List.mem_takeWhile_imp member
  rw [stops] at kept
  cases kept

theorem singleMark_countsLines {kind : Kind} (mark : singleMark? first = some kind) (rest : List Char) :
    (token kind [first] rest).CountsLines := by
  unfold singleMark? at mark
  split at mark <;> cases mark <;> exact countsLines_of_not_mem (by simp) (by decide)

theorem extensible_countsLines {withEqual alone : Kind}
    (mark : extensibleMark? first = some (withEqual, alone)) (rest : List Char) :
    (extensible withEqual alone first rest).CountsLines := by
  unfold extensibleMark? at mark
  unfold extensible
  split at mark <;> cases mark <;> split <;> exact countsLines_of_not_mem (by simp) (by decide)

theorem slash_countsLines (rest : List Char) : (slash rest).CountsLines := by
  unfold slash
  split
  · rename_i comment
    intro line
    have none := @not_mem_takeWhile (fun character => decide (character ≠ '\n')) rfl comment
    exact (lineAfter_of_not_mem (by simpa [Front.taken] using none) line).symm
  · exact countsLines_of_not_mem (by simp) (by decide)

theorem number_countsLines (text : List Char) : (number text).CountsLines := by
  have noFeed := not_mem_takeWhile (show Char.isDigit '\n' = false by decide)
  unfold number numberKind
  split
  · rename_i digit others remaining
    split
    · refine countsLines_of_not_mem (by simp) ?_
      simpa using ⟨noFeed text, noFeed (digit :: others)⟩
    · exact countsLines_of_not_mem (by simp) (noFeed text)
  · exact countsLines_of_not_mem (by simp) (noFeed text)

theorem word_countsLines (text : List Char) : (word text).CountsLines := by
  have noFeed := not_mem_takeWhile (show isWordPart '\n' = false by decide) text
  refine countsLines_of_not_mem ?_ noFeed
  intro content
  unfold wordKind
  split <;> simp

/-! ## Pieces with line feeds -/

theorem blank_countsLines (blank : isBlank first = true) (rest : List Char) :
    (gap [first] rest).CountsLines := by
  intro line
  have cases : ((first = ' ' ∨ first = '\r') ∨ first = '\t') ∨ first = '\n' := by
    simpa [isBlank] using blank
  rcases cases with ((rfl | rfl) | rfl) | rfl <;> rfl

/-- Neither of its quotes is a line feed. -/
theorem string_countsLines (rest : List Char) : (string rest).CountsLines := by
  intro line
  unfold string
  dsimp only
  split
  · rfl
  · rename_i quote after dropped
    have isQuote : quote = '"' := by
      have stops := List.head?_dropWhile_not (fun character => decide (character ≠ '"')) rest
      rw [dropped] at stops
      simpa using stops
    subst isQuote
    simp [lineBehind, lineAfter, taken]

theorem of_countsLines (first : Char) (rest : List Char) : (Front.of first rest).CountsLines := by
  unfold Front.of
  split
  · exact singleMark_countsLines ‹_› rest
  split
  · exact extensible_countsLines ‹_› rest
  split
  · exact slash_countsLines rest
  split
  · exact blank_countsLines ‹_› rest
  split
  · exact string_countsLines rest
  split
  · exact number_countsLines (first :: rest)
  split
  · exact word_countsLines (first :: rest)
  · intro line
    rfl

/-- Where the scanner stands behind a piece. -/
theorem lineBehind_eq {front : Front} (found : Front.of first rest = front) (line : Nat) :
    (Front.of first rest).lineBehind line = lineAfter line front.taken :=
  found ▸ of_countsLines first rest line

end Front

/-! ## Scanning -/

section Scanning

variable {first : Char} {rest taken after : List Char}

theorem scanFrom_cons (line : Nat) (first : Char) (rest : List Char) :
    scanFrom line (first :: rest) =
      match Front.of first rest with
      | .gap taken after => scanFrom (lineAfter line taken) after
      | .token kind taken after =>
          (scanFrom (lineAfter line taken) after).prepend ⟨kind, String.ofList taken, lineAfter line taken⟩
      | .failure cause taken => ⟨[], some ⟨cause, lineAfter line taken⟩⟩ := by
  rw [scanFrom]
  split
  all_goals
    rename_i found
    rw [Front.lineBehind_eq found, found]
    rfl

theorem scanFrom_gap (found : Front.of first rest = .gap taken after) (line : Nat) :
    scanFrom line (first :: rest) = scanFrom (lineAfter line taken) after := by
  rw [scanFrom_cons, found]

theorem scanFrom_token {kind : Kind} (found : Front.of first rest = .token kind taken after) (line : Nat) :
    scanFrom line (first :: rest) =
      (scanFrom (lineAfter line taken) after).prepend ⟨kind, String.ofList taken, lineAfter line taken⟩ := by
  rw [scanFrom_cons, found]

theorem scanFrom_failure {cause : LexicalError.Cause} (found : Front.of first rest = .failure cause taken)
    (line : Nat) : scanFrom line (first :: rest) = ⟨[], some ⟨cause, lineAfter line taken⟩⟩ := by
  rw [scanFrom_cons, found]

/-- Induction along a scan: on what is behind the piece at the front, and on the line there. -/
theorem scanFrom_induction {motive : Nat → List Char → Prop}
    (stop : ∀ line, motive line [])
    (gap : ∀ line first rest taken after, Front.of first rest = .gap taken after →
      motive (lineAfter line taken) after → motive line (first :: rest))
    (token : ∀ line first rest kind taken after, Front.of first rest = .token kind taken after →
      motive (lineAfter line taken) after → motive line (first :: rest))
    (failure : ∀ line first rest cause taken, Front.of first rest = .failure cause taken →
      motive line (first :: rest))
    (line : Nat) (characters : List Char) : motive line characters := by
  induction line, characters using scanFrom.induct with
  | case1 line => exact stop line
  | case2 line first rest front behind taken after found inductionHypothesis =>
      have sameLine : behind = lineAfter line taken := Front.lineBehind_eq found line
      exact gap line first rest taken after found (sameLine ▸ inductionHypothesis)
  | case3 line first rest front behind kind taken after found inductionHypothesis =>
      have sameLine : behind = lineAfter line taken := Front.lineBehind_eq found line
      exact token line first rest kind taken after found (sameLine ▸ inductionHypothesis)
  | case4 line first rest front cause taken found =>
      exact failure line first rest cause taken found

end Scanning

end LoxInterpreter.Token
