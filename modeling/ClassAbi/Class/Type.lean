import ClassAbi.Type.Basic

/-!
# Java types

The types of fields, parameters and results. A reference to a class is a pointer to the class, and an array is a pointer
to its element type, so that an array of references has two levels of pointers.
-/

namespace ClassAbi

abbrev ClassId := Nat

inductive Primitive where
  | boolean
  | byte
  | char
  | short
  | int
  | long
  | float
  | double
  deriving Repr, DecidableEq, BEq, Inhabited

namespace Primitive

/-- The primitive types, in the order in which the runtime's classes for them are declared. -/
def all : List Primitive := [boolean, byte, char, short, int, long, float, double]

def name : Primitive → Text
  | boolean => "boolean"
  | byte => "byte"
  | char => "char"
  | short => "short"
  | int => "int"
  | long => "long"
  | float => "float"
  | double => "double"

def letter : Primitive → UInt8
  | boolean => 0x5A
  | byte => 0x42
  | char => 0x43
  | short => 0x53
  | int => 0x49
  | long => 0x4A
  | float => 0x46
  | double => 0x44

def mode : Primitive → Mode
  | boolean => .uint8
  | byte => .int8
  | char => .uint16
  | short => .int16
  | int => .int32
  | long => .int64
  | float => .float32
  | double => .float64

def ofLetter? (c : UInt8) : Option Primitive := all.find? (·.letter == c)

end Primitive

inductive JavaType where
  /-- No type: the result of a routine that gives none. -/
  | void
  | primitive (p : Primitive)
  | cls (c : ClassId)
  | pointer (elem : JavaType)
  deriving Repr, DecidableEq, BEq, Inhabited

namespace JavaType

def reference (c : ClassId) : JavaType := pointer (cls c)

def array : JavaType → JavaType
  | cls c => pointer (reference c)
  | elem => pointer elem

def leaf : JavaType → JavaType
  | pointer elem => elem.leaf
  | t => t

def levels : JavaType → Nat
  | pointer elem => elem.levels + 1
  | _ => 0

def isPrimitive : JavaType → Bool
  | primitive _ => true
  | _ => false

/-- The number of dimensions of an array; above a class, the innermost pointer is the reference. -/
def dimensions (t : JavaType) : Nat := if t.leaf.isPrimitive then t.levels else t.levels - 1

def isArray (t : JavaType) : Bool := 0 < t.dimensions

def mode : JavaType → Mode
  | void => .void
  | primitive p => p.mode
  | cls _ | pointer _ => .pointer

end JavaType

end ClassAbi
