import Std.Data.HashMap
import Std.Data.HashSet
import ClassAbi.Class.Type
import ClassAbi.Program.Constant

/-!
# Sessions

A session keeps what has been built for the runtime during one compilation: the pool of name constants, the types of the
runtime's records, the declared helpers, and which classes have been described.
-/

namespace ClassAbi

/-- The types of the records that the runtime reads. -/
structure RecordTypes where
  utf8 : TypeId
  method : TypeId
  field : TypeId
  cls : TypeId
  deriving Repr, DecidableEq, BEq, Inhabited

/-- The layout that all arrays share: an object header, the length, and then the elements. -/
structure ArrayModel where
  /-- The offset of the first element. -/
  headerSize : Int
  lengthAlign : Int
  lengthOffset : Int
  deriving Repr, DecidableEq, BEq, Inhabited

/-- A routine of the runtime that compiled code calls. -/
inductive Helper where
  | allocObject
  | initClass
  | newString
  | newPrimArray
  | newObjectArray
  | abstractTrap
  | lookupInterface
  | isInstanceOf
  | checkCast
  | getArrayClass
  | newMultiArray
  deriving Repr, DecidableEq, BEq, Inhabited

namespace Helper

def all : List Helper :=
  [allocObject, initClass, newString, newPrimArray, newObjectArray, abstractTrap, lookupInterface, isInstanceOf,
    checkCast, getArrayClass, newMultiArray]

def ld : Helper → Text
  | allocObject => "_Jv_AllocObjectNoFinalizer"
  | initClass => "_Jv_InitClass"
  | newString => "_Z22_Jv_NewStringUtf8ConstP13_Jv_Utf8Const"
  | newPrimArray => "_Jv_NewPrimArray"
  | newObjectArray => "_Jv_NewObjectArray"
  | abstractTrap => "_Jv_ThrowAbstractMethodError"
  | lookupInterface => "_Jv_LookupInterfaceMethod"
  | isInstanceOf => "_Jv_IsInstanceOf"
  | checkCast => "_Jv_CheckCast"
  | getArrayClass => "_Z17_Jv_GetArrayClassPN4java4lang5ClassEPNS0_11ClassLoaderE"
  | newMultiArray => "_Z17_Jv_NewMultiArrayPN4java4lang5ClassEiPi"

def params : Helper → List Mode
  | allocObject | initClass | newString => [.pointer]
  | newPrimArray => [.pointer, .uint32]
  | newObjectArray => [.uint32, .pointer, .pointer]
  | abstractTrap => []
  | lookupInterface => [.pointer, .pointer, .pointer]
  | isInstanceOf | checkCast | getArrayClass => [.pointer, .pointer]
  | newMultiArray => [.pointer, .int32, .pointer]

def result : Helper → Mode
  | initClass | abstractTrap | checkCast => .void
  | isInstanceOf => .int32
  | allocObject | newString | newPrimArray | newObjectArray | lookupInterface | getArrayClass | newMultiArray => .pointer

def noReturn : Helper → Bool
  | abstractTrap => true
  | _ => false

def signature (h : Helper) : Signature :=
  ⟨h.params.map fun mode => some mode.typeId, if h.result = .void then [] else [some h.result.typeId], h.noReturn⟩

end Helper

structure DeclaredHelper where
  entity : EntityId
  type : TypeId
  deriving Repr, DecidableEq, BEq, Inhabited

structure PoolConstant where
  text : Text
  hash : UInt16
  entity : EntityId
  deriving Repr, DecidableEq, BEq, Inhabited

/-- A class descriptor that has been built, and the tables it refers to. -/
structure BuiltClass where
  entity : EntityId
  members : List Init
  methodTable : EntityId
  fieldTable : Option EntityId
  interfaceTable : Option EntityId
  registration : Option EntityId
  deriving Repr, BEq, Inhabited

/-- What has been built for the runtime. -/
structure Session where
  /-- Whether every built class is entered in the list of the classes to register. -/
  registers : Bool
  root : ClassId
  types : RecordTypes
  array : ArrayModel
  helpers : List (Helper × DeclaredHelper)
  primitives : List (Primitive × EntityId)
  pool : Std.HashMap Text PoolConstant := ∅
  /-- The constants in the order in which they were made. -/
  constants : Array PoolConstant := #[]
  built : Std.HashMap ClassId BuiltClass := ∅
  /-- The classes whose vtables are filled. -/
  vtables : Std.HashSet ClassId := ∅
  closed : Bool := false

namespace Session

def helper? (s : Session) (h : Helper) : Option DeclaredHelper := s.helpers.lookup h

/-- The session after its end: nothing that was built is remembered. -/
def close (s : Session) : Session :=
  { s with pool := ∅, constants := #[], built := ∅, vtables := ∅, closed := true }

end Session

end ClassAbi
