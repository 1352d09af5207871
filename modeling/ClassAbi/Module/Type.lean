import ClassAbi.Mode
import ClassAbi.Text.Number

/-!
# Types of a module

The types that a module text writes for values and for constants. Compounds are packed, with padding as members of its
own, so that no layout rule of the reader of the text can move their parts.
-/

namespace ClassAbi.Module

inductive Ty where
  | void
  | int (bits : Int)
  | float
  | double
  | ptr
  | array (count : Int) (elem : Ty)
  | packed (parts : List Ty)
  deriving Repr, BEq, Inhabited

namespace Ty

def ofMode : Mode → Ty
  | .void => void
  | .bit => int 1
  | .int8 | .uint8 => int 8
  | .int16 | .uint16 => int 16
  | .int32 | .uint32 => int 32
  | .int64 => int 64
  | .float32 => float
  | .float64 => double
  | .pointer => ptr

def bytes (count : Int) : Ty := array count (int 8)

def text : Ty → Text
  | void => "void"
  | int bits => "i" ++ Text.ofInt bits
  | float => "float"
  | double => "double"
  | ptr => "ptr"
  | array count elem => "[" ++ Text.ofInt count ++ " x " ++ elem.text ++ "]"
  | packed [] => "<\x7b\x7d>"
  | packed (part :: parts) => "<\x7b " ++ part.text ++ texts parts ++ " \x7d>"
where
  /-- The texts of further parts, each after a comma. -/
  texts : List Ty → Text
    | [] => []
    | part :: parts => ", " ++ part.text ++ texts parts

end Ty

end ClassAbi.Module
