import ClassAbi.Class.Descriptor
import ClassAbi.Workspace

/-!
# Declaring classes and members
-/

namespace ClassAbi

namespace Registry

def declare (r : Registry) (name : Text) (access : Access) (external : Bool) :
    Except ClassError (ClassId × Registry) :=
  if name.isEmpty then .error .emptyName
  else if name.contains 0x2E then .error (.dottedName name)
  else if r.byName.contains name then .error (.declaredTwice name)
  else
    let id := r.classes.size
    .ok (id, { classes := r.classes.push { name, access, external }, byName := r.byName.insert name id })

/-- A method of a class with the given flags. Static, private and final methods and constructors are not called through
the vtable. -/
def methodOf (r : Registry) (cls : Access) (name descriptor : Text) (access : Access) : Except ClassError Method := do
  let (params, result) ← r.typesOfDescriptor descriptor
  let inVtable := !(access.isStatic || access.isPrivate || access.isFinal || name == Text.ofString "<init>")
  let binding : Binding :=
    if !inVtable || cls.isFinal then .static else if cls.isInterface then .interface else .dynamic
  return { name, descriptor, access, params, result, inVtable, binding }

def fieldOf (r : Registry) (name descriptor : Text) (access : Access) : Except ClassError Field := do
  return { name, descriptor, access, type := ← r.typeOfDescriptor descriptor }

end Registry

namespace Class

def declare (name : Text) (access : Access) (external : Bool) : Action ClassId := do
  let (c, registry) ← Action.ofExcept .cls ((← Action.registry).declare name access external)
  modify fun w => { w with registry }
  return c

def addMethod (c : ClassId) (name descriptor : Text) (access : Access) (ops : List Text) : Action Unit := do
  let cls := (← Action.class' c).access
  let m ← Action.ofExcept .cls ((← Action.registry).methodOf cls name descriptor access)
  Action.onRegistry fun r => r.modifyClass c fun cls => { cls with methods := cls.methods.push { m with ops } }

def addField (c : ClassId) (name descriptor : Text) (access : Access) : Action Unit := do
  let f ← Action.ofExcept .cls ((← Action.registry).fieldOf name descriptor access)
  Action.onRegistry fun r => r.modifyClass c fun cls => { cls with fields := cls.fields.push f }

end Class

end ClassAbi
