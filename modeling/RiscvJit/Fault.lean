import RiscvJit.Text.Integer

/-
  RiscvJit.Fault — how work ends without a result.

  A `Fault` stops the work at once: the caller broke a precondition, the generator caught an
  inconsistency of its own, or an access went past the end of a table or through an absent
  value. A `Failure` is an ordinary negative answer: the unit does not fit its buffer, the
  code cache is full, an input is refused. A caller may turn a broken precondition into a
  failure; the other faults always reach the outside.
-/

namespace RiscvJit

/-- What stops the work in progress. -/
inductive Fault where
  /-- The input breaks a rule that callers have to keep. -/
  | precondition (what : String)
  /-- An inconsistency inside the generator, or a value built against its own rules. -/
  | defect (what : String)
  /-- An access outside a table or through an absent value. -/
  | trap
  deriving DecidableEq, Repr

/-- The wording of a fault; a trap has none of its own. -/
def Fault.message : Fault → String
  | .precondition what => "precondition violated: " ++ what
  | .defect what => if what.isEmpty then "BUG" else "BUG: " ++ what
  | .trap => ""

/-- An ordinary negative answer. -/
inductive Failure where
  /-- The generation of `unit` was abandoned; the method stays interpreted. -/
  | bailout (unit reason : String)
  /-- A broken precondition that a caller took as an answer. -/
  | precondition (what : String)
  | cacheFull
  | refused (text : String)
  | within (context : String) (cause : Failure)
  deriving DecidableEq, Repr

/-- The wording of a failure, outermost context first. -/
def Failure.message : Failure → String
  | .bailout unit reason =>
    if unit.isEmpty then "bailout: " ++ reason else "bailout in " ++ unit ++ ": " ++ reason
  | .precondition what => (Fault.precondition what).message
  | .cacheFull => "code cache is full"
  | .refused text => text
  | .within context cause => context ++ ": " ++ cause.message

/-- The failure itself, without the contexts it was met in. -/
def Failure.root : Failure → Failure
  | .within _ cause => cause.root
  | f => f

/-- Either way of ending without a result. -/
inductive Stop where
  | fault (f : Fault)
  | failure (f : Failure)
  deriving DecidableEq, Repr

/-- The rules callers have to keep are checked where they matter. -/
@[inline] def check (holds : Bool) (what : Unit → String) : Except Fault Unit :=
  if holds then .ok () else .error (.precondition (what ()))

def Stop.ofFault {α : Type} : Except Fault α → Except Stop α
  | .ok a => .ok a
  | .error f => .error (.fault f)

def Stop.ofFailure {α : Type} : Except Failure α → Except Stop α
  | .ok a => .ok a
  | .error f => .error (.failure f)

def Stop.answerPreconditions {α : Type} : Except Stop α → Except Stop α
  | .error (.fault (.precondition what)) => .error (.failure (.precondition what))
  | r => r

end RiscvJit
