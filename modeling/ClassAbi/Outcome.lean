/-!
# Outcomes

An operation either finishes, reports an error of its own type, or stops at an access outside its data: an index past
the end of a list, or a reference that is absent. The last case carries no message, and is kept apart from the errors so
that its absence can be stated.
-/

namespace ClassAbi

inductive Failure (ε : Type) where
  | fault
  | error (cause : ε)
  deriving Repr, DecidableEq, BEq, Inhabited

abbrev Outcome (ε α : Type) := Except (Failure ε) α

namespace Outcome

variable {ε ε' α : Type}

def fail (cause : ε) : Outcome ε α := .error (.error cause)

/-- The outcome of an operation that stops at an access outside its data. -/
def fault : Outcome ε α := .error .fault

def mapError (f : ε → ε') : Outcome ε α → Outcome ε' α
  | .ok a => .ok a
  | .error .fault => .error .fault
  | .error (.error e) => .error (.error (f e))

end Outcome

end ClassAbi
