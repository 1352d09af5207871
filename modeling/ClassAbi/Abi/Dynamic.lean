import ClassAbi.Abi.Vtable

/-!
# Operations of the runtime

The code that compiled methods use to create objects and arrays, to test types, to call methods of interfaces, and to run
static initializers.
-/

namespace ClassAbi.Abi

open ClassAbi.Action

def callHelper (g : GraphId) (h : Helper) (args : List Node) : Action Node := do
  let declared ← helper h
  onGraph g do
    let callee ← Graph.address declared.entity
    Graph.call callee declared.type h.result args

def arrayClass (g : GraphId) : (levels : Nat) → Node → Action Node
  | 0, cls => return cls
  | levels + 1, cls => do
    let loader ← onGraph g Graph.null
    arrayClass g levels (← callHelper g .getArrayClass [cls, loader])

/-- The class object of a type. Classes and primitive types have descriptors, and the classes of arrays come from the
runtime. -/
def classObject (g : GraphId) (t : JavaType) : Action Node := do
  match ← descriptorOf t with
  | some e => onGraph g (Graph.address e)
  | none =>
    if t.levels = 0 then refuse [] (.typeWithoutDescriptor ((← registry).typeMention t))
    match ← descriptorOf t.leaf with
    | none => refuse [] (.elementWithoutDescriptor ((← registry).typeMention t.leaf))
    | some e => arrayClass g t.dimensions (← onGraph g (Graph.address e))

def vptrNode (g : GraphId) (cls : Class) : Action (Option Node) := do
  match cls.vtableEntity with
  | none => return none
  | some vt =>
    let mode ← offsetMode
    let offset ← vptrOffset
    onGraph g do
      let table ← Graph.address vt
      let offset ← Graph.const mode offset
      return some (← Graph.sum table offset)

def allocateObject (g : GraphId) (c : ClassId) : Action Node := do
  let cls ← class' c
  if !cls.needsVtable || cls.access.isAbstract then refuse cls.name .notInstantiable
  let jclass ← classObject g (.cls c)
  let object ← callHelper g .allocObject [jclass]
  let vptr ← vptrNode g cls
  onGraph g (Graph.vptrIsSet object cls.name vptr)

def allocateArray (g : GraphId) (elem : JavaType) (count : Node) : Action Node := do
  let jclass ← classObject g elem
  let count ← onGraph g (Graph.conv count .uint32)
  let array ←
    if elem.isPrimitive then callHelper g .newPrimArray [jclass, count]
    else do
      let null ← onGraph g Graph.null
      callHelper g .newObjectArray [count, jclass, null]
  onGraph g (Graph.vptrIsSet array arrayName none)

def storeSizes (g : GraphId) (buffer : Node) : (i : Nat) → List Node → Action Unit
  | _, [] => return
  | i, size :: sizes => do
    onGraph g do
      let index ← Graph.const .int32 i
      let place ← Graph.sel buffer index (some Mode.uint16.typeId)
      let size ← Graph.conv size .uint16
      discard (Graph.store place size)
    storeSizes g buffer (i + 1) sizes

/-- Creates an array of arrays with the given sizes, which are passed in a buffer of 16-bit numbers. -/
def newMultiArray (g : GraphId) (t : JavaType) (sizes : List Node) : Action Node := do
  if sizes.isEmpty then refuse [] .noDimensions
  let jclass ← classObject g t
  let type ← newType (.array (some Mode.uint16.typeId) sizes.length)
  let buffer ← onGraph g (Graph.alloc type sizes.length)
  storeSizes g buffer 0 sizes
  let count ← onGraph g (Graph.const .int32 sizes.length)
  callHelper g .newMultiArray [jclass, count, buffer]

def instanceOf (g : GraphId) (object : Node) (t : JavaType) : Action Node := do
  let jclass ← classObject g t
  let result ← callHelper g .isInstanceOf [object, jclass]
  onGraph g do
    let zero ← Graph.const .int32 0
    Graph.cmp result zero .unequal

def checkCast (g : GraphId) (t : JavaType) (object : Node) : Action Unit := do
  let jclass ← classObject g t
  discard (callHelper g .checkCast [jclass, object])

def vptrPlace : Action Int := do
  let object ← class' (← session).root
  let index : Option Nat := match (← get).program.types.shape? (← need object.instance) with
    | some (.struct _ members) => members.findIdx? fun (m : Member) => m.name == vptrMember
    | _ => none
  let l ← layoutOf object.instance
  return l.offsetAt ((index.map Int.ofNat).getD (-1))

/-- The code of a method of an interface for an object. The class descriptor of the object is found through its reference
to the vtable. -/
def lookupInterface (g : GraphId) (object : Node) (iface : Class) (m : Method) : Action Node := do
  if !iface.isInterface then refuse iface.name .notInterface
  let offset ← vptrPlace
  let descriptor ← onGraph g do
    let place ← Graph.member object vptrMember offset
    let vptr ← Graph.load place .pointer
    Graph.load vptr .pointer
  let name ← internDotted m.name
  let sig ← internDotted m.descriptor
  let (name, sig) ← onGraph g do
    let name ← Graph.address name.entity
    let sig ← Graph.address sig.entity
    return (name, sig)
  callHelper g .lookupInterface [descriptor, name, sig]

def initClass (g : GraphId) (c : ClassId) : Action Unit := do
  let jclass ← classObject g (.cls c)
  discard (callHelper g .initClass [jclass])

def newString (g : GraphId) (text : Text) : Action Node := do
  let c ← intern text
  let literal ← onGraph g (Graph.address c.entity)
  callHelper g .newString [literal]

def arrayLength (g : GraphId) (array : Node) : Action Node := do
  let offset := (← session).array.lengthOffset
  onGraph g do
    let place ← Graph.member array "length" offset
    Graph.load place .int32

def arrayData (g : GraphId) (array : Node) : Action Node := do
  let mode ← offsetMode
  let size := (← session).array.headerSize
  onGraph g do
    let offset ← Graph.const mode size
    Graph.sum array offset

end ClassAbi.Abi
