import ClassAbi.Abi.Record
import ClassAbi.Class.Slots

/-!
# Vtables

A vtable has a header of four slots, the third of which refers to the class descriptor and is where objects point. A class
with a dollar sign in its name has no such reference.
-/

namespace ClassAbi.Abi

open ClassAbi.Action

def vptrSlot : Nat := 2

def pointerSize : Action Int := do
  let size := (← get).target.pointerSize
  return if 0 < size then size else 8

def offsetMode : Action Mode := do return if (← pointerSize) = 4 then .int32 else .int64

def vptrOffset : Action Int := do return wrap (vptrSlot * (← pointerSize))

def vptrValue (cls : Class) : Action (Option Code) := do
  match cls.vtableEntity with
  | none => return none
  | some vt => return some (.add (.address vt) (.const (← offsetMode) (← vptrOffset)))

/-- The slots of a vtable of the given size, which must have room for the header and the methods. -/
def vtableSlots (cls : Class) (descriptor : Init) : Action (List Init) := do
  let r ← registry
  let codes ← cls.vtable.toList.mapM fun m => do return Init.ofEntity (← codeOf (← need (r.method? m)))
  if cls.vtableSize < headerSlots + codes.length then fault
  let rest := cls.vtableSize.toNat - (headerSlots + codes.length)
  return [.null, .null, descriptor, .null] ++ codes ++ List.replicate rest .null

/-- Fills the vtable of a class. Those of classes that the runtime provides stay declarations. -/
def buildVtable (c : ClassId) : Action EntityId := do
  let cls ← class' c
  checkOpen cls.name
  if !cls.needsVtable then refuse cls.name .interfaceVtable
  if !cls.dispatchFinal then refuse cls.name .slotsNotAssigned
  if cls.vtableSize < headerSlots then refuse cls.name (.tooFewSlots cls.vtableSize)
  match cls.vtableEntity with
  | none => refuse cls.name .vtableNotDeclared
  | some vt =>
    let type ← newType (.array (some Mode.pointer.typeId) cls.vtableSize)
    let alignment ← pointerSize
    modifyEntity vt fun e => { e with type, alignment }
    if cls.external || (← session).vtables.contains c then return vt
    if cls.descriptor.isNone then refuse cls.name .descriptorNotDeclared
    if Init.maxValues < cls.vtableSize then fault
    let descriptor ←
      if cls.name.contains 0x24 then do
        onTrace fun t =>
          ((), t.point .cls ("vtable:" ++ cls.name) "class descriptor slot left null for '$' name" 0)
        pure Init.null
      else pure (.ofEntity cls.descriptor)
    let slots ← vtableSlots cls descriptor
    modifyEntity vt fun e => { e with init := some (.compound slots) }
    modifySession fun s => { s with vtables := s.vtables.insert c }
    return vt

end ClassAbi.Abi
