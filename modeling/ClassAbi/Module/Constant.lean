import ClassAbi.Module.Type
import ClassAbi.Text.Scientific

/-!
# Constants of a module

The values that a module text writes for the content of globals and for the constant operands of instructions.
-/

namespace ClassAbi.Module

inductive Const where
  /-- An integer in a mode, where references have `bits` bits. -/
  | word (mode : Mode) (value : Int) (bits : Int)
  | zero (mode : Mode)
  | zeroes
  | symbol (name : Text)
  | sum (type : Ty) (left right : Const)
  /-- The address `offset` bytes after another. -/
  | shifted (base : Const) (type : Ty) (offset : Const)
  | array (elems : List (Ty × Const))
  | packed (parts : List (Ty × Const))
  deriving Repr, Inhabited

namespace Const

def wordText (mode : Mode) (v bits : Int) : Text :=
  match mode with
  | .pointer =>
    if v = 0 then "null" else "inttoptr (i" ++ Text.ofInt bits ++ " " ++ Text.ofInt v ++ " to ptr)"
  | .float32 | .float64 => Text.ofIntScientific v
  | .bit => if v = 0 then "false" else "true"
  | _ => Text.ofInt v

def zeroText : Mode → Text
  | .pointer => "null"
  | .float32 | .float64 => "0.0"
  | _ => "0"

def text : Const → Text
  | word mode v bits => wordText mode v bits
  | zero mode => zeroText mode
  | zeroes => "zeroinitializer"
  | symbol name => name
  | sum type left right => "add (" ++ type.text ++ " " ++ left.text ++ ", " ++ type.text ++ " " ++ right.text ++ ")"
  | shifted base type offset =>
    "getelementptr (i8, ptr " ++ base.text ++ ", " ++ type.text ++ " " ++ offset.text ++ ")"
  | array elems => "[" ++ Text.join ", " (texts elems) ++ "]"
  | packed [] => "zeroinitializer"
  | packed (part :: parts) => "<\x7b " ++ Text.join ", " (texts (part :: parts)) ++ " \x7d>"
where
  texts : List (Ty × Const) → List Text
    | [] => []
    | (type, value) :: rest => (type.text ++ " " ++ value.text) :: texts rest

end Const

end ClassAbi.Module
