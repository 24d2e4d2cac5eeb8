import LoxInterpreter.Token

/-!
Contract: mistakes that are noticed at a token.

Owns: `Mistake`, a cause with the token at which it was noticed, and its one-line form.
Does not own: the causes, which belong to the stage that notices them, nor the forms in which a
session reports them (`Failure`).
-/

namespace LoxInterpreter

/-- Causes that can be explained in a sentence. -/
class Explained (Cause : Type) where
  message : Cause → String

/-- A cause, and the token at which it was noticed. -/
structure Mistake (Cause : Type) where
  cause : Cause
  token : Token
deriving DecidableEq, Repr

namespace Mistake

variable {Cause : Type} [Explained Cause]

def message (mistake : Mistake Cause) : String := Explained.message mistake.cause

def line (mistake : Mistake Cause) : Nat := mistake.token.line

/-- The mistake on one line, naming the lexeme of its token. -/
def summary (mistake : Mistake Cause) : String :=
  s!"[line {mistake.token.line}] Error at '" ++ mistake.token.lexeme ++ "': " ++ mistake.message

end Mistake

end LoxInterpreter
