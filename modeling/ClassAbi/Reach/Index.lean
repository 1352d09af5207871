import ClassAbi.Class.Hierarchy
import ClassAbi.LinkerName.Decode
import ClassAbi.Workspace

/-!
# The reachability index

Which class a descriptor describes, which static initializer a class has, and which initializers the calls of the
init-class helper can run.
-/

namespace ClassAbi.Reach

open ClassAbi.Action

/-- The classes with their descriptors and static initializers. -/
structure Index where
  /-- The classes in the order of the hierarchy, supertypes first. -/
  classes : List ClassId
  byDescriptor : Std.HashMap EntityId ClassId
  initializers : Std.HashMap ClassId EntityId

structure InitCall where
  caller : Option EntityId
  call : NodeId
  cls : Option ClassId
  /-- The initializer that the call can run. -/
  init : Option EntityId
  deriving Repr, DecidableEq, BEq, Inhabited

def addInitializer (r : Registry) (decoration : Text) (found : Std.HashMap ClassId EntityId) (id : EntityId) (e : Entity) :
    Action (Std.HashMap ClassId EntityId) :=
  if e.visibility = .external || !LinkerName.isInitializer e.ld then return found
  else do
    let name ← match LinkerName.initializerClass e.ld decoration with
      | .ok name => pure name
      | .error .fault => fault
      | .error (.error cause) => fail (.within .reachability (.decode cause))
    match r.find? name with
    | none => fail (.within .reachability (.strayInitializer e.ld name))
    | some c => return found.insert c id

/-- Builds the index of a program whose linker names have the given decoration. -/
def build (decoration : Text) : Action Index := do
  let r ← registry
  let classes ← ofExcept .cls r.superToSub
  let byDescriptor ← classes.foldlM (fun (found : Std.HashMap EntityId ClassId) c => do
    let cls ← class' c
    match cls.descriptor with
    | none => fail (.within .reachability (.noDescriptor cls.name))
    | some e => return found.insert e c) ∅
  let initializers ← (← get).program.routines.foldlM
    (fun found (id, e) => addInitializer r decoration found id e) ∅
  return { classes, byDescriptor, initializers }

namespace Index

def classOfCall (x : Index) (g : Graph) (call : Node) : Option ClassId := do
  let arg ← g.node? (← (Graph.callArgs call).head?)
  guard (arg.op = .address)
  x.byDescriptor[← arg.entity]?

def initializerOfCall (x : Index) (g : Graph) (call : Node) : Option EntityId := do
  x.initializers[← x.classOfCall g call]?

def callsIn (x : Index) (g : Graph) (helper : EntityId) : List InitCall :=
  (g.calls.filter fun call => g.callee? call == some helper).map fun call =>
    ⟨g.entity, call.id, x.classOfCall g call, x.initializerOfCall g call⟩

/-- The calls of the init-class helper in a program, in the byte order of the linker names of the callers. -/
def callsInProgram (x : Index) (p : Program) (helper : EntityId) : List InitCall :=
  let routines := p.routines.mergeSort fun a b => Text.le a.2.ld b.2.ld
  routines.flatMap fun (_, e) =>
    match e.body.bind (p.graphs[·]?) with
    | none => []
    | some g => x.callsIn g helper

end Index

end ClassAbi.Reach
