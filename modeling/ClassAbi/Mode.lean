import ClassAbi.Text.Basic

/-!
# Modes

The machine representations of scalar values.
-/

namespace ClassAbi

inductive Mode where
  | void
  | bit
  | int8
  | uint8
  | int16
  | uint16
  | int32
  | uint32
  | int64
  | float32
  | float64
  | pointer
  deriving Repr, DecidableEq, BEq, Inhabited

namespace Mode

def all : List Mode :=
  [void, bit, int8, uint8, int16, uint16, int32, uint32, int64, float32, float64, pointer]

def name : Mode → Text
  | void => "none"
  | bit => "b"
  | int8 => "Bs"
  | uint8 => "Bu"
  | int16 => "Hs"
  | uint16 => "Hu"
  | int32 => "Is"
  | uint32 => "Iu"
  | int64 => "Ls"
  | float32 => "F"
  | float64 => "D"
  | pointer => "P"

def size (pointerSize : Int) : Mode → Int
  | void => 0
  | bit | int8 | uint8 => 1
  | int16 | uint16 => 2
  | int32 | uint32 | float32 => 4
  | int64 | float64 => 8
  | pointer => pointerSize

def isInt : Mode → Bool
  | int8 | uint8 | int16 | uint16 | int32 | uint32 | int64 => true
  | _ => false

def isFloat : Mode → Bool
  | float32 | float64 => true
  | _ => false

def isSigned : Mode → Bool
  | int8 | int16 | int32 | int64 => true
  | _ => false

end Mode

end ClassAbi
