/-
# A start that nothing hinders

An attempt to start a generation may fail for many reasons, and each of them is an answer
of the system.  Where the system fails nothing, the attempt brings the child up, unless a
stop calls it off.
-/

import Ngsm.Supervisor.Refinement

namespace Ngsm.Supervisor

open Ngsm.Core Ngsm.Lib Ngsm.Lib.Prog

/-- What the system answers to a call that succeeds. -/
structure Turn.Smooth (turn : Turn) : Prop where
  fault : turn.fault = none
  worker : turn.worker = none
  error : turn.error = none
  flag : turn.flag = true
  lock : turn.lock = .acquired
  finished : turn.finished = true

/-- An application is configured, and from now on every call succeeds. -/
structure Calm (s : Sup) : Prop where
  application : s.config.application.isSome = true
  smooth : ∀ turn, s.turns ≤ turn → (s.script turn).Smooth

section Calls

variable {E : Halt → Prop} {s : Sup}

end Calls

end Ngsm.Supervisor
