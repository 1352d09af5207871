import ClassAbi.Module.Instruction
import ClassAbi.Text.Quoted

/-!
# Modules

A module text holds, in this order, the target, the defined data, the declarations of what is defined elsewhere, the
routines, and the list of the data that must be kept although nothing refers to it.
-/

namespace ClassAbi.Module

structure Global where
  symbol : Text
  isPrivate : Bool
  isHidden : Bool
  isConstant : Bool
  type : Ty
  value : Const
  isRegistered : Bool
  align : Int
  deriving Repr, Inhabited

inductive Declaration where
  | routine (symbol : Text) (result : Ty) (params : List Ty) (noReturn : Bool)
  | data (symbol : Text)
  deriving Repr, Inhabited

structure Definition where
  symbol : Text
  isPrivate : Bool
  result : Ty
  params : List Ty
  body : List Instruction
  deriving Repr, Inhabited

structure Contents where
  triple : Text
  globals : List Global
  declarations : List Declaration
  definitions : List Definition
  used : List Text
  deriving Repr, Inhabited

def Global.text (g : Global) : Text :=
  g.symbol ++ " = " ++ Text.onlyIf g.isPrivate "private " ++ Text.onlyIf g.isHidden "hidden " ++
    (if g.isConstant then "constant " else "global " : String) ++ g.type.text ++ " " ++ g.value.text ++
    Text.onlyIf g.isRegistered ", section \".jcr\"" ++ Text.onlyIf (0 < g.align) (", align " ++ Text.ofInt g.align) ++ "\n"

def Declaration.text : Declaration → Text
  | routine symbol result params noReturn =>
    "declare " ++ result.text ++ " " ++ symbol ++ "(" ++ Text.join ", " (params.map Ty.text) ++ ")" ++
      Text.onlyIf noReturn " noreturn" ++ "\n"
  | data symbol => symbol ++ " = external global i8\n"

def Definition.head (d : Definition) : Text :=
  let params := d.params.zipIdx.map fun (type, i) => type.text ++ " %p" ++ Text.ofNat i
  "define " ++ Text.onlyIf d.isPrivate "private " ++ d.result.text ++ " " ++ d.symbol ++
    "(" ++ Text.join ", " params ++ ") \x7b"

def Definition.text (d : Definition) : Text := d.head ++ "\nentry:\n" ++ d.body.flatMap Instruction.text ++ "\x7d\n\n"

/-- The lines of a part, and an empty line after them if there are any. -/
def part {α : Type} (text : α → Text) (items : List α) : Text :=
  items.flatMap text ++ Text.onlyIf (!items.isEmpty) "\n"

def usedText (used : List Text) : Text :=
  Text.onlyIf (!used.isEmpty)
    ("@llvm.used = appending global [" ++ Text.ofNat used.length ++ " x ptr] [" ++
      Text.join ", " (used.map fun name => "ptr " ++ name) ++ "], section \"llvm.metadata\"\n")

def Contents.text (m : Contents) : Text :=
  "target triple = " ++ m.triple.quote ++ "\n\n" ++ part Global.text m.globals ++
    part Declaration.text m.declarations ++ m.definitions.flatMap Definition.text ++ usedText m.used

end ClassAbi.Module
