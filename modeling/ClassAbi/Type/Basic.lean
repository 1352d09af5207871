import ClassAbi.Mode
import ClassAbi.Text.Number

/-!
# Types

The types of global data and of routines. Types have identity and may contain each other, so they stand in a table and
refer to one another by their positions in it; a member may also have no type at all. The table begins with the primitive
types and the unknown type, which are shared.
-/

namespace ClassAbi

abbrev TypeId := Nat

/-- A named element of a struct or a union. -/
structure Member where
  name : Text
  type : Option TypeId
  deriving Repr, DecidableEq, BEq, Inhabited

structure Signature where
  params : List (Option TypeId)
  results : List (Option TypeId)
  /-- Whether calls of the routine do not come back. -/
  noReturn : Bool
  deriving Repr, DecidableEq, BEq, Inhabited

inductive Shape where
  | primitive (mode : Mode)
  /-- Members one after the other. -/
  | struct (name : Text) (members : List Member)
  | union (name : Text) (members : List Member)
  /-- Elements of one type. A negative length stands for an extent that the content gives. -/
  | array (elem : Option TypeId) (length : Int)
  | routine (sig : Signature)
  | unknown
  deriving Repr, DecidableEq, BEq, Inhabited

structure TypeTable where
  shapes : Array Shape
  deriving Repr, Inhabited

namespace TypeTable

def initial : TypeTable := ⟨((Mode.all.map Shape.primitive) ++ [Shape.unknown]).toArray⟩

def shape? (types : TypeTable) (t : TypeId) : Option Shape := types.shapes[t]?

def push (types : TypeTable) (shape : Shape) : TypeId × TypeTable :=
  (types.shapes.size, ⟨types.shapes.push shape⟩)

def set (types : TypeTable) (t : TypeId) (shape : Shape) : TypeTable := ⟨types.shapes.setIfInBounds t shape⟩

def mode? (types : TypeTable) (t : TypeId) : Option Mode :=
  match types.shape? t with
  | some (.primitive mode) => some mode
  | _ => none

def signature? (types : TypeTable) (t : TypeId) : Option Signature :=
  match types.shape? t with
  | some (.routine sig) => some sig
  | _ => none

/-- The mode of the values of a type that are passed around: compounds are passed by reference. -/
def valueMode (types : TypeTable) (t : Option TypeId) : Mode := (t.bind types.mode?).getD .pointer

def resultMode (types : TypeTable) (sig : Signature) : Mode :=
  match sig.results with
  | [] => .void
  | t :: _ => types.valueMode t

end TypeTable

def Mode.typeId (mode : Mode) : TypeId := mode.ctorIdx

/-- The shared type of what is only declared. -/
def unknownType : TypeId := Mode.all.length

end ClassAbi
