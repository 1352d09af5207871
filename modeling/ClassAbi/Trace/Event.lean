import ClassAbi.Trace.Level
import ClassAbi.Trace.Stamp

/-!
# Trace events

An event is the beginning or the end of a span, or a point. Spans and their parents are known by numbers, and 0 stands for
none.
-/

namespace ClassAbi.Trace

inductive Kind where
  | begin
  | finish
  | point
  | other (code : Nat)
  deriving Repr, DecidableEq, BEq, Inhabited

namespace Kind

def ofCode : Nat → Kind
  | 1 => begin
  | 2 => finish
  | 3 => point
  | n => other n

def name : Kind → Text
  | begin => "begin"
  | finish => "end"
  | point => "point"
  | other _ => "unknown"

def sign : Kind → Text
  | begin => "-> "
  | finish => "<- "
  | point => "*  "
  | other _ => []

end Kind

structure Event where
  seq : Nat
  kind : Kind
  scope : Scope
  span : Nat
  parent : Nat
  name : Text
  detail : Text := []
  /-- Annotations, one value for each key. -/
  extra : List (Text × Text) := []
  time : Stamp := {}
  deriving Repr, DecidableEq, BEq, Inhabited

/-- The event with a number. One that has none takes the number after the last one that was given. -/
def Event.numbered (e : Event) : StateM Nat Event := fun last =>
  if e.seq = 0 then ({ e with seq := last + 1 }, last + 1) else (e, last)

/-- Adds an event with a number to what is kept of the events of a level. -/
def Event.addTo {α : Type} (e : Event) (level : Level) (kept : α) (add : Event → α) : StateM Nat α :=
  if level.admits e.scope then add <$> e.numbered else pure kept

def sorted (extra : List (Text × Text)) : List (Text × Text) := extra.mergeSort fun a b => Text.le a.1 b.1

/-- Annotations with one more. A key that is there gets the new value. -/
def annotate (extra : List (Text × Text)) (key value : Text) : List (Text × Text) :=
  extra.filter (·.1 != key) ++ [(key, value)]

/-- The line of an event: its number, scope, sign and name, and then the detail and the annotations if there are any. -/
def Event.line (e : Event) : Text :=
  "#" ++ Text.padRight 5 (Text.ofNat e.seq) ++ " [" ++ e.scope.name ++ "] " ++ Text.onlyIf (0 < e.parent) "  " ++
    e.kind.sign ++ e.name ++ Text.onlyIf (!e.detail.isEmpty) (" (" ++ e.detail ++ ")") ++
    Text.onlyIf (!e.extra.isEmpty)
      (" \x7b" ++ Text.join ", " ((sorted e.extra).map fun (key, value) => key ++ "=" ++ value) ++ "\x7d")

end ClassAbi.Trace
