import ClassAbi.Text.Quoted
import ClassAbi.Text.Space

/-!
# Trace levels and scopes

A level says which scopes of events are recorded: the coarse ones, those of classes too, or all.
-/

namespace ClassAbi.Trace

inductive Level where
  | off
  /-- Recorded to be shown after a failure. -/
  | error
  | phase
  | detail
  | debug
  /-- A level without a meaning, at which nothing is recorded. -/
  | other (code : Nat)
  deriving Repr, DecidableEq, BEq, Inhabited

/-- The granularity of an event, coarse ones first. -/
inductive Scope where
  | driver
  | pass
  | cls
  | node
  | other (rank : Nat)
  deriving Repr, DecidableEq, BEq, Inhabited

namespace Scope

def ofCode : Nat → Scope
  | 1 => driver
  | 2 => pass
  | 3 => cls
  | 4 => node
  | n => other n

def rank : Scope → Nat
  | driver => 1
  | pass => 2
  | cls => 3
  | node => 4
  | other rank => rank

def name : Scope → Text
  | driver => "driver"
  | pass => "pass"
  | cls => "class"
  | node => "node"
  | other _ => "unknown"

end Scope

namespace Level

def ofCode : Nat → Level
  | 0 => off
  | 1 => error
  | 2 => phase
  | 3 => detail
  | 4 => debug
  | n => other n

def code : Level → Nat
  | off => 0
  | error => 1
  | phase => 2
  | detail => 3
  | debug => 4
  | other n => n

def name : Level → Text
  | off => "off"
  | error => "error"
  | phase => "phase"
  | detail => "detail"
  | debug => "debug"
  | other _ => "unknown"

def isOn (l : Level) : Bool := l != off

def admits (l : Level) (s : Scope) : Bool :=
  match l with
  | error | phase => s.rank ≤ Scope.pass.rank
  | detail => s.rank ≤ Scope.cls.rank
  | debug => true
  | off | other _ => false

end Level

inductive WordError where
  | level (word : Text)
  | format (word : Text)
  deriving Repr, DecidableEq, BEq

def WordError.message : WordError → Text
  | level word => "invalid trace level: " ++ word.quote ++ " (expected: off|error|phase|detail|debug)"
  | format word => "invalid trace format: " ++ word.quote ++ " (expected: auto|text|ndjson)"

def Level.ofWord (word : Text) : Except WordError Level :=
  match [Level.off, .error, .phase, .detail, .debug].find? (·.name == word.lower) with
  | some level => .ok level
  | none => .error (.level word)

end ClassAbi.Trace
