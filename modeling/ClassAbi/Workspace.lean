import ClassAbi.Abi.Session
import ClassAbi.Class.Basic
import ClassAbi.Error
import ClassAbi.Layout.Engine
import ClassAbi.Trace.Recorder

/-!
# Workspaces

The state of a compilation: the program under construction, the classes, the known layouts, the session with the runtime
once there is one, and the trace. An action that fails keeps what it had changed before.
-/

namespace ClassAbi

structure Workspace where
  target : Target
  program : Program := {}
  registry : Registry := {}
  layouts : Layouts := ∅
  session : Option Session := none
  trace : Trace.Recorder := {}

abbrev Action := ExceptT (Failure Error) (StateM Workspace)

namespace Action

variable {α ε : Type}

def fail (e : Error) : Action α := throw (.error e)

/-- Reports an error of the interface to the runtime, about a class if its name is not empty. -/
def refuse (cls : Text) (cause : AbiCause) : Action α := fail (.abi ⟨cls, cause⟩)

def fault : Action α := throw .fault

def need : Option α → Action α
  | some a => pure a
  | none => fault

def ofExcept (f : ε → Error) : Except ε α → Action α
  | .ok a => pure a
  | .error e => fail (f e)

def within (step : Step) (action : Action α) : Action α := fun w =>
  let (result, w) := action w
  (Outcome.mapError (Error.within step) result, w)

def onProgram (f : Program → α × Program) : Action α := modifyGet fun w =>
  let (a, program) := f w.program
  (a, { w with program })

def onRegistry (f : Registry → Registry) : Action Unit := modify fun w => { w with registry := f w.registry }

def onTrace (f : Trace.Recorder → α × Trace.Recorder) : Action α := modifyGet fun w =>
  let (a, trace) := f w.trace
  (a, { w with trace })

def registry : Action Registry := do return (← get).registry

def class' (c : ClassId) : Action Class := do need ((← get).registry.class? c)

def newType (shape : Shape) : Action TypeId := onProgram (·.addType shape)

def newEntity (name ld : Text) (type : Option TypeId) : Action EntityId := do
  ofExcept .duplicateName (← onProgram (·.addEntity name ld type))

def modifyEntity (e : EntityId) (f : Entity → Entity) : Action Unit := onProgram fun p => ((), p.modifyEntity e f)

def layoutOf (t : Option TypeId) : Action TypeLayout := do
  let t ← need t
  fun w =>
    let (result, layouts) := Layout.layoutOf w.program.types w.target t w.layouts
    (Outcome.mapError Error.layout result, { w with layouts })

def onGraph (g : GraphId) (step : Graph.Builder α) : Action α := onProgram (·.build g step)

end Action

end ClassAbi
