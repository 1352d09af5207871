import ClassAbi.Class.Hierarchy
import ClassAbi.Workspace

/-!
# Layout of objects

An object begins with the part of its superclass, or with a reference to its vtable if there is none, and its own fields
follow. So every field stays at its offset in all subclasses.
-/

namespace ClassAbi

def vptrMember : Text := "vptr"

def baseMember : Text := "@base"

namespace Registry

/-- The type of the storage for values of a type. Classes are stored as objects once these have a layout. -/
def storageType (r : Registry) : JavaType → TypeId
  | .primitive p => p.mode.typeId
  | .cls c => ((r.class? c).bind Class.instance).getD Mode.pointer.typeId
  | .void | .pointer _ => Mode.pointer.typeId

end Registry

namespace Class

/-- Fields with the offsets of the places, which are those of the instance fields in their order. -/
def withOffsets : List Field → List Place → List Field
  | [], _ => []
  | f :: fields, places =>
    if f.access.isStatic then f :: withOffsets fields places
    else match places with
      | [] => f :: fields
      | place :: places => { f with offset := place.offset } :: withOffsets fields places

/-- The member with which objects of a class begin: the part of the superclass, which must be laid out, or the reference
to the vtable. -/
def firstMember (cls : Class) : Action Member :=
  match cls.super with
  | none => return ⟨vptrMember, some Mode.pointer.typeId⟩
  | some s => do
    let super ← Action.class' s
    if super.layoutFinal then return ⟨baseMember, super.instance⟩
    else Action.fail (.cls (.superNotLaidOut super.name))

def ownMembers (r : Registry) (cls : Class) : List Member :=
  (cls.fields.toList.filter fun f => !f.access.isStatic).map fun f => ⟨f.name, some (r.storageType f.type)⟩

def withLayout (cls : Class) (t : TypeId) (l : TypeLayout) : Class :=
  { cls with
    fields := (withOffsets cls.fields.toList (l.places.getD []).tail).toArray
    «instance» := some t
    size := l.size
    align := l.align
    layoutFinal := true }

def layOut (c : ClassId) : Action Unit := do
  let cls ← Action.class' c
  let first ← firstMember cls
  let t ← Action.newType (.struct cls.name (first :: ownMembers (← Action.registry) cls))
  let l ← Action.layoutOf t
  Action.onRegistry fun r => r.modifyClass c fun cls => cls.withLayout t l

def layOutAll : Action Unit := do
  let order ← Action.ofExcept .cls (← Action.registry).superToSub
  order.forM fun c => do
    let name := (← Action.class' c).name
    Action.within (.layoutOf name) (layOut c)

end Class

end ClassAbi
