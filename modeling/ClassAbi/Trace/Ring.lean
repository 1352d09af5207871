import ClassAbi.Trace.Event

/-!
# The last events of a trace

A ring has a fixed number of slots. Once all are taken, a new event takes the slot of the oldest one.
-/

namespace ClassAbi.Trace

/-- The last events of the scopes that a level admits. -/
structure Ring where
  level : Level
  capacity : Nat
  slots : Array Event := #[]
  /-- The slot of the oldest event, once all slots are taken. -/
  oldest : Nat := 0
  deriving Repr, Inhabited

namespace Ring

def defaultCapacity : Nat := 1024

def maxCapacity : Nat := (1 <<< 48) / 96

def ofSize (level : Level) (size : Int) : Ring where
  level
  capacity := if size ≤ 0 then defaultCapacity else size.toNat

def store (r : Ring) (e : Event) : Ring :=
  if r.slots.size < r.capacity then { r with slots := r.slots.push e }
  else { r with slots := r.slots.setIfInBounds r.oldest e, oldest := (r.oldest + 1) % r.capacity }

def push (r : Ring) (e : Event) : StateM Nat Ring := e.addTo r.level r r.store

def toList (r : Ring) : List Event := r.slots.toList.drop r.oldest ++ r.slots.toList.take r.oldest

end Ring

end ClassAbi.Trace
