import ClassAbi.Abi.ClassRecord
import ClassAbi.Abi.Pool
import ClassAbi.Class.Instance
import ClassAbi.LinkerName.Encode

/-!
# Starting a session

A session needs the layout of the root class, whose objects' header is part of every array and of every class descriptor.
It declares the helpers of the runtime, and the descriptor and the vtable of every class.
-/

namespace ClassAbi.Abi

open ClassAbi.Action

def rootClass : Text := "java/lang/Object"

def classClass : Text := "java/lang/Class"

/-- The types of the runtime's records, where objects begin with the header of type `header`. -/
def recordTypes (header : Option TypeId) : Action RecordTypes := do
  let p := some Mode.pointer.typeId
  let u16 := some Mode.uint16.typeId
  let data ← newType (.array (some Mode.uint8.typeId) (-1))
  let utf8 ← newType (.struct "utf8_const" [⟨"hash", u16⟩, ⟨"len", u16⟩, ⟨"data", data⟩])
  let method ← newType (.struct "method_desc"
    [⟨"name", p⟩, ⟨"sig", p⟩, ⟨"accflags", u16⟩, ⟨"index", u16⟩, ⟨"ncode", p⟩, ⟨"throws", p⟩])
  let place ← newType (.union "offset/address" [⟨"boffset", some Mode.int32.typeId⟩, ⟨"addr", p⟩])
  let field ← newType (.struct "field_desc"
    [⟨"name", p⟩, ⟨"type", p⟩, ⟨"accflags", u16⟩, ⟨"bsize", u16⟩, ⟨"boffset/address", place⟩])
  let cls ← newType (.struct classClass (ClassMember.all.map fun m =>
    ⟨m.label, if m = .base then header else some m.mode.typeId⟩))
  return { utf8, method, field, cls }

def arrayName : Text := "array"

def arrayModel (header : Option TypeId) : Action ArrayModel := do
  let t ← newType (.struct arrayName [⟨baseMember, header⟩, ⟨"length", some Mode.int32.typeId⟩])
  let l ← layoutOf t
  match l.places with
  | some [_, length] => return ⟨l.size, length.align, length.offset⟩
  | _ => fault

def declareExternal (ld : Text) (type : TypeId) : Action EntityId := do
  let target := (← get).target
  let e ← newEntity ld (target.decorate ld) type
  modifyEntity e fun ent => { ent with visibility := .external }
  return e

def declareHelper (h : Helper) : Action (Helper × DeclaredHelper) := do
  let type ← newType (.routine h.signature)
  return (h, ⟨← declareExternal h.ld type, type⟩)

def primitiveClass (p : Primitive) : Text := "_Jv_" ++ p.name ++ "Class"

def declarePrimitive (p : Primitive) : Action (Primitive × EntityId) := do
  return (p, ← declareExternal (primitiveClass p) Mode.pointer.typeId)

def declareClass (c : ClassId) : Action Unit := do
  let cls ← class' c
  let target := (← get).target
  let visibility : Visibility := if cls.external then .external else .exported
  let ld ← ofExcept .encode (LinkerName.ofDescriptor cls.name)
  let descriptor ← newEntity (cls.name ++ ".class$") (target.decorate ld) none
  modifyEntity descriptor fun e => { e with visibility }
  onRegistry fun r => r.modifyClass c fun cls => { cls with descriptor := some descriptor }
  if cls.needsVtable then
    let ld ← ofExcept .encode (LinkerName.ofVtable cls.name)
    let vtable ← newEntity (cls.name ++ ".vtable") (target.decorate ld) none
    modifyEntity vtable fun e => { e with visibility }
    onRegistry fun r => r.modifyClass c fun cls => { cls with vtableEntity := some vtable }

/-- Starts a session. With `registers`, every class that is built is entered in the list of the classes to register. -/
def start (registers : Bool) : Action Unit := do
  match (← registry).find? rootClass with
  | none => refuse rootClass .rootNotRegistered
  | some root =>
    let object ← class' root
    if !object.layoutFinal then refuse rootClass .instanceNotLaidOut
    let types ← recordTypes object.instance
    let array ← Action.within .arrayHeader (arrayModel object.instance)
    let helpers ← Helper.all.mapM declareHelper
    let primitives ← Primitive.all.mapM declarePrimitive
    (List.range (← registry).classes.size).forM declareClass
    modify fun w => { w with session := some { registers, root, types, array, helpers, primitives } }

end ClassAbi.Abi
