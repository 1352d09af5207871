import ClassAbi.Trace.Format
import ClassAbi.Trace.Ring

/-!
# Tracers

A tracer writes events to a stream as they come, keeps the last ones in a ring for the report of a failure, or both.
-/

namespace ClassAbi.Trace

/-- Events that are written as they come. -/
structure Stream where
  level : Level
  format : Format
  /-- The events written so far, the last one first. -/
  events : List Event := []
  deriving Repr, Inhabited

namespace Stream

def write (s : Stream) (e : Event) : Stream := { s with events := e :: s.events }

def push (s : Stream) (e : Event) : StateM Nat Stream := e.addTo s.level s s.write

def toList (s : Stream) : List Event := s.events.reverse

def text (s : Stream) : Text := s.toList.flatMap (·.written s.format)

end Stream

structure Settings where
  level : Level
  format : Format := .auto
  path : Text := []
  ringSize : Int := 0
  deriving Repr, Inhabited

/-- Whether the settings ask for a ring. At the level of errors there is always one. -/
def Settings.hasRing (s : Settings) : Bool := s.level.isOn && (s.level == .error || 0 < s.ringSize)

def Settings.isFeasible (s : Settings) : Bool := !s.hasRing || s.ringSize ≤ Ring.maxCapacity

structure Tracer where
  level : Level := .off
  stream : Option Stream := none
  ring : Option Ring := none
  /-- The last number that was given to an event without one. -/
  last : Nat := 0
  deriving Repr, Inhabited

namespace Tracer

/-- The tracer for the settings. At the level of errors nothing is written, but there is always a ring. -/
def ofSettings (s : Settings) : Tracer :=
  match s.level with
  | .off => {}
  | .error => { level := .error, ring := some (Ring.ofSize .error s.ringSize) }
  | level =>
    { level
      stream := some { level, format := s.format.forPath s.path }
      ring := if 0 < s.ringSize then some (Ring.ofSize level s.ringSize) else none }

/-- Hands an event to the stream and to the ring, each of which numbers its own copy. -/
def emit (t : Tracer) (e : Event) : Tracer :=
  let (stream, last) := t.stream.mapM (·.push e) t.last
  let (ring, last) := t.ring.mapM (·.push e) last
  { t with stream, ring, last }

def emitAll (t : Tracer) (es : List Event) : Tracer := es.foldl emit t

def ringText (t : Tracer) : Option Text := t.ring.map fun r => r.toList.flatMap (·.written .text)

def streamText (t : Tracer) : Text := (t.stream.map Stream.text).getD []

end Tracer

end ClassAbi.Trace
