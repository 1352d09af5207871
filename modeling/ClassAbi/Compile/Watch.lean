import ClassAbi.Compile.Run

/-!
# Watched compilations

Surroundings in which manifests are looked up, the clock stands still, reports and trace events are collected, and the
compilation is cancelled at a chosen moment.
-/

namespace ClassAbi

inductive Cancellation where
  | never
  | beforehand
  | during (stage : Stage) (status : Status)
  deriving Repr, DecidableEq, BEq, Inhabited

/-- The moment that a text names: `start`, or the words for a report. Any other text names none. -/
def Cancellation.ofText (t : Text) : Cancellation :=
  let reports := Stage.all.flatMap fun stage => Status.all.map fun status => ({ stage, status } : Progress)
  if t = Text.ofString "start" then beforehand
  else match reports.find? (·.label == t) with
    | some p => during p.stage p.status
    | none => never

structure Watch where
  cancelled : Bool := false
  /-- The reports, the last one first. -/
  reports : List Progress := []
  /-- The trace events, in the order in which they came. -/
  events : List Trace.Event := []
  deriving Repr, Inhabited

/-- Surroundings with a watcher. If there is no `receiver`, no report is received. -/
def Surroundings.watched (load : Text → Except ManifestError Manifest) (receiver : Bool) (cancel : Cancellation) :
    Surroundings (StateM Watch) where
  load path := pure (load path)
  now := pure 0
  notify p := do
    if receiver then
      modify fun w =>
        { w with cancelled := w.cancelled || cancel == .during p.stage p.status, reports := p :: w.reports }
  trace events := modify fun w => { w with events := w.events ++ events }
  cancelled := do return (← get).cancelled

def Compile.observe (load : Text → Except ManifestError Manifest) (receiver : Bool) (cancel : Cancellation)
    (req : Option Request) : (Outcome Error Unit × Compilation) × Watch :=
  (Compile.run (Surroundings.watched load receiver cancel) req).run { cancelled := cancel == .beforehand }

/-- Runs a compilation under a watcher, and gives the reports too, in the order in which they came. -/
def Compile.watch (load : Text → Except ManifestError Manifest) (receiver : Bool) (cancel : Cancellation)
    (req : Option Request) : Outcome Error Unit × Compilation × List Progress :=
  let ((result, compilation), watch) := Compile.observe load receiver cancel req
  (result, compilation, watch.reports.reverse)

end ClassAbi
