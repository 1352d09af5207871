import ClassAbi.Text.Quoted
import ClassAbi.Text.Space

/-!
# Access flags

The access and property flags of classes and members, one bit each.
-/

namespace ClassAbi

structure Access where
  bits : UInt16
  deriving Repr, DecidableEq, BEq, Inhabited

structure UnknownFlag where
  word : Text
  deriving Repr, DecidableEq, BEq

def UnknownFlag.message (e : UnknownFlag) : Text := "unknown access flag " ++ e.word.quote

namespace Access

def none : Access := ⟨0⟩

def union (a b : Access) : Access := ⟨a.bits ||| b.bits⟩

def has (a : Access) (mask : UInt16) : Bool := a.bits &&& mask != 0

def isPublic (a : Access) : Bool := a.has 0x0001
def isPrivate (a : Access) : Bool := a.has 0x0002
def isStatic (a : Access) : Bool := a.has 0x0008
def isFinal (a : Access) : Bool := a.has 0x0010
def isNative (a : Access) : Bool := a.has 0x0100
def isInterface (a : Access) : Bool := a.has 0x0200
def isAbstract (a : Access) : Bool := a.has 0x0400

def abstract : Access := ⟨0x0400⟩

def words : List (Text × UInt16) :=
  [("public", 0x0001), ("private", 0x0002), ("protected", 0x0004), ("static", 0x0008), ("final", 0x0010),
    ("super", 0x0020), ("synchronized", 0x0020), ("volatile", 0x0040), ("transient", 0x0080), ("native", 0x0100),
    ("interface", 0x0200), ("abstract", 0x0400), ("strict", 0x0800), ("synthetic", 0x1000), ("annotation", 0x2000),
    ("enum", 0x4000)]

/-- The flags that a list of words names. The first word that names none is reported. -/
def ofWords : List Text → Except UnknownFlag Access
  | [] => .ok none
  | word :: rest =>
    match words.lookup word.keyword with
    | .none => .error ⟨word⟩
    | some bit => do return union ⟨bit⟩ (← ofWords rest)

end Access

end ClassAbi
