import ClassAbi.Outcome
import ClassAbi.Target
import ClassAbi.Type.Text
import ClassAbi.Word

/-!
# Layout

The size and alignment of types, and the places of the members of compounds. A compound that contains itself, a routine
and the unknown type have no layout.
-/

namespace ClassAbi

structure Place where
  offset : Int
  align : Int
  deriving Repr, DecidableEq, BEq, Inhabited

/-- The layout of a type. Only structs and unions have places for members. -/
structure TypeLayout where
  size : Int
  align : Int
  places : Option (List Place)
  deriving Repr, DecidableEq, BEq, Inhabited

inductive LayoutError where
  /-- A compound contains itself, through the types of `cycle`. -/
  | recursive (type : Text) (cycle : List Text)
  /-- A type of things that have no size. -/
  | unsized (type : Text)
  deriving Repr, DecidableEq, BEq

def LayoutError.name : LayoutError → Text
  | recursive .. => "recursive"
  | unsized _ => "unsized"

def LayoutError.message : LayoutError → Text
  | recursive type cycle =>
    "compound " ++ type ++ " contains itself (cycle: " ++ Text.join " -> " cycle ++ ")"
  | unsized type => "type " ++ type ++ " has no storage size"

namespace TypeLayout

def offsetAt (l : TypeLayout) (index : Int) : Int :=
  if index < 0 then 0 else (((l.places.getD [])[index.toNat]?).map Place.offset).getD 0

end TypeLayout

namespace Layout

/-- The least multiple of `align` that is not below a natural number `n`. -/
def roundUp (n align : Int) : Int :=
  if align ≤ 1 then n
  else
    let r := n.tmod align
    if r = 0 then n else wrap (n + (align - r))

/-- The layout of references. A target without a size has references of eight bytes, one without an alignment aligns
them to their size. -/
def pointer (target : Target) : TypeLayout :=
  let size := if target.pointerSize ≤ 0 then 8 else target.pointerSize
  ⟨size, if target.pointerAlign ≤ 0 then size else target.pointerAlign, none⟩

/-- The layout of the scalars of a mode, which are aligned to their size. -/
def scalar (target : Target) (mode : Mode) : TypeLayout :=
  if mode = .pointer then pointer target
  else
    let size := mode.size (pointer target).size
    if size ≤ 0 then ⟨0, 1, none⟩ else ⟨size, size, none⟩

def modeSize (target : Target) (mode : Mode) : Int := mode.size (pointer target).size

/-- A compound whose last members are not placed yet. -/
structure Partial where
  size : Int
  align : Int
  /-- The places so far, the last one first. -/
  places : List Place
  deriving Repr, DecidableEq, BEq, Inhabited

def Partial.empty : Partial := ⟨0, 1, []⟩

/-- A struct with one more member: it begins at the next offset that its alignment admits. -/
def Partial.append (p : Partial) (member : TypeLayout) : Partial :=
  let align := max member.align 1
  let offset := roundUp p.size align
  ⟨wrap (offset + member.size), max p.align align, ⟨offset, align⟩ :: p.places⟩

def Partial.overlay (p : Partial) (member : TypeLayout) : Partial :=
  let align := max member.align 1
  ⟨max p.size member.size, max p.align align, ⟨0, align⟩ :: p.places⟩

def Partial.finish (p : Partial) : TypeLayout := ⟨roundUp p.size p.align, p.align, some p.places.reverse⟩

/-- The layout of an array. One whose extent the content gives has no size of its own. -/
def array (elem : TypeLayout) (length : Int) : TypeLayout :=
  let align := max elem.align 1
  if length < 0 then ⟨0, align, none⟩ else ⟨wrap (roundUp elem.size align * length), align, none⟩

end Layout

end ClassAbi
