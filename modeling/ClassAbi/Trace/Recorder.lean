import ClassAbi.Trace.Event

/-!
# Recording a trace

A recorder keeps the events of the scopes that its level admits. Only what is recorded takes a number, so events and spans
are numbered from 1 without gaps.
-/

namespace ClassAbi.Trace

structure Recorder where
  level : Level := .off
  /-- The events, the last one first. -/
  events : List Event := []
  spans : Nat := 0
  count : Nat := 0
  /-- The time that new events get. -/
  now : Stamp := {}
  deriving Repr, DecidableEq, BEq, Inhabited

/-- A span that has been begun, or would have been if its scope were recorded. -/
structure Span where
  /-- The number of the span, 0 if it is not recorded. -/
  id : Nat := 0
  parent : Nat := 0
  scope : Scope := .driver
  name : Text := []
  extra : List (Text × Text) := []
  deriving Repr, DecidableEq, BEq, Inhabited

def Span.withExtra (s : Span) (key value : Text) : Span :=
  if s.id = 0 then s else { s with extra := annotate s.extra key value }

namespace Recorder

def records (r : Recorder) (scope : Scope) : Bool := r.level.isOn && r.level.admits scope

def record (r : Recorder) (e : Event) : Recorder :=
  { r with events := { e with seq := r.count + 1, time := r.now } :: r.events, count := r.count + 1 }

def begin (r : Recorder) (scope : Scope) (name : Text) (parent : Nat) : Span × Recorder :=
  if r.records scope then
    let id := r.spans + 1
    ({ id, parent, scope, name },
      { r with spans := id }.record { seq := 0, kind := .begin, scope, span := id, parent, name })
  else ({}, r)

def finish (r : Recorder) (s : Span) (detail : Text) : Recorder :=
  if s.id = 0 then r
  else r.record
    { seq := 0, kind := .finish, scope := s.scope, span := s.id, parent := s.parent, name := s.name, detail, extra := s.extra }

/-- Annotates a span, if it is recorded. An end that was recorded with annotations gets this one too. -/
def annotate (r : Recorder) (s : Span) (key value : Text) : Span × Recorder :=
  let amended (e : Event) : Event :=
    if e.kind = .finish ∧ e.span = s.id ∧ !e.extra.isEmpty then { e with extra := Trace.annotate e.extra key value }
    else e
  if s.id = 0 then (s, r) else (s.withExtra key value, { r with events := r.events.map amended })

def point (r : Recorder) (scope : Scope) (name detail : Text) (parent : Nat) : Recorder :=
  if r.records scope then r.record { seq := 0, kind := .point, scope, span := 0, parent, name, detail } else r

def toList (r : Recorder) : List Event := r.events.reverse

end Recorder

end ClassAbi.Trace
