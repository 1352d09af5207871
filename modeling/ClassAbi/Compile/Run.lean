import ClassAbi.Abi.Descriptor
import ClassAbi.Class.Members
import ClassAbi.Class.Slots
import ClassAbi.Compile.Basic
import ClassAbi.Lowering.Body
import ClassAbi.Manifest.Populate
import ClassAbi.Module.Emit

/-!
# Running a compilation

A stage that fails ends the compilation, and so does the start of a stage after the compilation has been cancelled. Reading
manifests and building bodies notice that too. What a compilation had made stays in place.
-/

namespace ClassAbi.Compile

variable {m : Type → Type} [Monad m] {α : Type}

def act (action : Action α) : Compile m α := fun c =>
  let w := c.workspace
  let c := { c with workspace := { target := w.target } }
  let (result, workspace) := action w
  pure (result, { c with workspace })

def onTrace (f : Trace.Recorder → α × Trace.Recorder) : Compile m α := act (Action.onTrace f)

def attempt (step : Compile m α) : Compile m (Outcome Error α) := fun c => do
  let (result, c) ← step c
  pure (.ok result, c)

def readClock (s : Surroundings m) : Compile m Int := do
  let now ← s.now
  onTrace fun t => ((), { t with now := { t.now with micros := now / 1000 } })
  return now

def handOn (s : Surroundings m) : Compile m Unit := do
  let c ← get
  s.trace (c.workspace.trace.toList.drop c.traced)
  modify fun c => { c with traced := c.workspace.trace.count }

/-- The result of a stage: a note, and a failure if there was one. -/
structure Report where
  note : Text := []
  failure : Option (Failure Error) := none

def reported (step : Compile m Text) : Compile m Report := do
  match ← attempt step with
  | .ok note => return { note }
  | .error failure => return { failure := some failure }

/-- Runs a stage inside the span `parent`. The work is given the span of the stage. -/
def stage (s : Surroundings m) (parent : Nat) (stage : Stage) (work : Nat → Compile m Report) : Compile m Unit := do
  if ← s.cancelled then throw (.error .cancelled)
  let start ← readClock s
  let span ← onTrace (·.begin .pass stage.name parent)
  s.notify { stage, status := .working }
  let report ← work span.id
  let elapsed := (← readClock s) - start
  modify fun c =>
    { c with phases := c.phases ++ [⟨stage, elapsed, report.note⟩], timings := c.timings.set stage.name elapsed }
  match report.failure with
  | none =>
    onTrace fun t => ((), t.finish span report.note)
    s.notify { stage, status := .done, elapsed }
  | some .fault => throw .fault
  | some (.error e) =>
    onTrace fun t => ((), t.finish span e.message)
    s.notify { stage, status := .failed, elapsed }
    throw (.error (.within (.stage stage.name) e))

/-! ### The work of the stages -/

def readAll (s : Surroundings m) : List Text → Compile m (List Manifest)
  | [] => return []
  | path :: paths => do
    match ← s.load path with
    | .error e => throw (.error (.manifest e))
    | .ok manifest => return manifest :: (← readAll s paths)

/-- Reads the manifests, settles the target and registers the classes. Events are handed on before, as a manifest may be
the very file that they are written to. -/
def load (s : Surroundings m) (req : Request) : Compile m Text := do
  if ← s.cancelled then throw (.error .cancelled)
  handOn s
  let manifests ← readAll s req.manifests
  let build ← act (Action.ofExcept .manifest (Manifest.mergeBuild manifests))
  let build :=
    { build with
      target := if req.target.isEmpty then build.target else req.target
      registers := build.registers || req.registers }
  modify fun c => { c with build }
  let target ← act (Action.ofExcept .target (Target.ofTriple build.target))
  modify fun c => { c with target := some target, workspace := { c.workspace with target } }
  act (Manifest.populate (Manifest.withRuntime manifests))
  return Text.ofNat (← get).workspace.registry.classes.size ++ " classes"

def layOut : Compile m Report := do
  let result ← attempt (act Class.layOutAll)
  return { note := (← get).triple, failure := match result with
    | .ok _ => none
    | .error failure => some failure }

def dispatch : Compile m Text := act do
  Class.assignAllSlots
  Class.createAllMembers
  return []

def describeAll : (count : Nat) → List ClassId → Action Nat
  | count, [] => return count
  | count, c :: rest => do
    let cls ← Action.class' c
    if cls.external then describeAll count rest
    else
      if cls.needsVtable then discard (Abi.buildVtable c)
      discard (Abi.buildDescriptor c)
      describeAll (count + 1) rest

def describe : Compile m Text := act do
  let count ← describeAll 0 (List.range (← Action.registry).classes.size)
  return Text.ofNat count ++ " descriptors"

/-- Builds the bodies. Those that were built before a failure are counted. -/
def lower (s : Surroundings m) (span : Nat) : Compile m Report := do
  let (count, failure) ← act (Lowering.lowerProgram (← s.cancelled) (some span))
  modify fun c => { c with lowered := count }
  return { note := Text.ofNat count ++ " methods", failure }

def reach : Compile m Text := do
  let decoration := (← get).workspace.target.decoration
  let index ← act (Reach.build decoration)
  let helper ← act (Abi.helper .initClass)
  let calls := index.callsInProgram (← get).workspace.program helper.entity
  modify fun c => { c with index := some index, calls }
  return Text.ofNat calls.length ++ " init calls"

def emitModule : Action Text := fun w =>
  let (result, layouts) := w.program.emit w.target w.layouts
  (Outcome.mapError Error.emit result, { w with layouts })

def emit : Compile m Report := do
  match ← attempt (act emitModule) with
  | .ok module =>
    modify fun c => { c with module }
    return { note := Text.ofNat module.length ++ " bytes" }
  | .error failure => return { note := "0 bytes", failure := some failure }

def stages (s : Surroundings m) (req : Request) (parent : Nat) : Compile m Unit := do
  stage s parent .load fun _ => reported (load s req)
  modify fun c => { c with loaded := true }
  stage s parent .layout fun _ => layOut
  stage s parent .dispatch fun _ => reported dispatch
  act (Abi.start (← get).build.registers)
  stage s parent .describe fun _ => reported describe
  stage s parent .lower (lower s)
  stage s parent .reach fun _ => reported reach
  stage s parent .emit fun _ => emit

def steps (s : Surroundings m) : Option Request → Compile m Unit
  | none => throw (.error .noRequest)
  | some req => do
    if req.manifests.isEmpty then throw (.error .noManifests)
    onTrace fun t => ((), { t with level := req.trace })
    discard (readClock s)
    let root ← onTrace (·.begin .driver "compile" 0)
    let result ← attempt (stages s req root.id)
    onTrace fun t => ((), t.finish root [])
    handOn s
    ExceptT.mk (pure result)

def run (s : Surroundings m) (req : Option Request) : m (Outcome Error Unit × Compilation) := steps s req {}

end ClassAbi.Compile
