import ClassAbi.Abi.Start
import ClassAbi.Class.Descriptor

/-!
# Records of members

The records by which the runtime knows the methods and fields of a class, and the tables of them.
-/

namespace ClassAbi.Abi

open ClassAbi.Action

def compiledFlag : UInt16 := 0x4000

def noSlot : Int := 0xFFFF

def helper (h : Helper) : Action DeclaredHelper := do need ((← session).helper? h)

/-- The routine that a slot or a record of a method refers to; an abstract method has a trap instead of code. -/
def codeOf (m : Method) : Action (Option EntityId) := do
  if m.access.isAbstract then return some (← helper .abstractTrap).entity else return m.entity

/-- The descriptor that is known for a type: that of a class or of a primitive type, and none for arrays. -/
def descriptorOf (t : JavaType) : Action (Option EntityId) :=
  match t with
  | .cls c | .pointer (.cls c) => do return ((← registry).class? c).bind Class.descriptor
  | .primitive p => do return (← session).primitives.lookup p
  | _ => return none

def typeSignature (t : JavaType) : Action PoolConstant := do
  match (← registry).signature? t with
  | some text => intern text
  | none => refuse [] (.noSignature ((← registry).typeMention t))

def methodRecord (cls : Text) (m : Method) : Action Init := do
  let name ← internDotted m.name
  let sig ← internDotted m.descriptor
  if 0xFFFF < m.slot then refuse cls (.slotOverflow m.slot m.name)
  let slot := if m.slot < 0 then noSlot else m.slot
  let code ← codeOf m
  return .compound [.ofEntity name.entity, .ofEntity sig.entity,
    .word .uint16 (m.access.bits ||| compiledFlag).toNat, .word .uint16 slot, .ofEntity code, .null]

/-- Where the value of a field is: the storage of a static field, or the offset in the object. -/
def fieldPlace (cls : Text) (f : Field) : Action Init :=
  if f.access.isStatic then
    match f.entity with
    | none => refuse cls (.noStorage f.name)
    | some e => return .compound [.null, .ofEntity e]
  else if f.offset < 0 then refuse cls (.noOffset f.name)
  else return .compound [.word .int32 f.offset, .null]

def fieldRecord (cls : Text) (f : Field) : Action Init := do
  let name ← internDotted f.name
  let type ← match ← descriptorOf f.type with
    | some e => pure e
    | none => do pure (← typeSignature f.type).entity
  let size := (← layoutOf ((← registry).storageType f.type)).size
  if size < 0 || 0xFFFF < size then refuse cls (.fieldSizeOverflow size f.name)
  let place ← fieldPlace cls f
  return .compound [.ofEntity name.entity, .ofEntity type, .word .uint16 f.access.bits.toNat, .word .uint16 size, place]

def newTable (tag : Text) (elem : TypeId) (length : Nat) (values : List Init) : Action EntityId := do
  let type ← newType (.array elem length)
  let id ← onProgram (·.uniqueName tag)
  let e ← newEntity id id type
  modifyEntity e fun ent => { ent with init := some (.compound values), visibility := .hidden }
  return e

def methodTable (cls : Class) : Action EntityId := do
  let records ← cls.methods.toList.mapM (methodRecord cls.name)
  newTable "_MT" (← session).types.method cls.methods.size records

def fieldTable (cls : Class) : Action (Option EntityId) := do
  if cls.fields.isEmpty then return none
  let records ← cls.fields.toList.mapM (fieldRecord cls.name)
  return some (← newTable "_FT" (← session).types.field cls.fields.size records)

def interfaceTable (cls : Class) : Action (Option EntityId) := do
  if cls.interfaces.isEmpty then return none
  let values ← cls.interfaces.mapM fun i => do
    let iface ← class' i
    match iface.descriptor with
    | none => refuse cls.name (.interfaceWithoutDescriptor iface.name)
    | some e => return Init.ofEntity e
  return some (← newTable "_IF" Mode.pointer.typeId cls.interfaces.length values)

end ClassAbi.Abi
