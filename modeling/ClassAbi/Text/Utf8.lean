import ClassAbi.Text.Basic

/-!
# Characters of a text

`units` reads a text as a sequence of characters and of stray bytes, those at which no UTF-8 encoding starts. Writing the
units back gives the text. `chars` is the lossy view, in which a stray byte counts as the replacement character.
-/

namespace ClassAbi.Text

/-- One step of reading a text: a character, or a byte at which none starts. -/
inductive Unit where
  | char (c : Char)
  | stray (b : UInt8)
  deriving Repr, DecidableEq, BEq

namespace Unit

def bytes : Unit → Text
  | char c => String.utf8EncodeChar c
  | stray b => [b]

def toChar : Unit → Char
  | char c => c
  | stray _ => '�'

end Unit

def within (lo hi b : UInt8) : Bool := lo ≤ b && b ≤ hi

/-- The character that starts with byte `a`, and how many of the bytes after `a` belong to it. -/
def charAt? (a : UInt8) (rest : Text) : Option (Char × Nat) :=
  if a < 0x80 then some (Char.ofNat a.toNat, 0)
  else if a < 0xC2 then none
  else if a < 0xE0 then
    match rest with
    | b :: _ =>
      if within 0x80 0xBF b then
        some (Char.ofNat ((a.toNat - 0xC0) * 64 + (b.toNat - 0x80)), 1)
      else none
    | _ => none
  else if a < 0xF0 then
    match rest with
    | b :: c :: _ =>
      if within (if a = 0xE0 then 0xA0 else 0x80) (if a = 0xED then 0x9F else 0xBF) b && within 0x80 0xBF c then
        some (Char.ofNat (((a.toNat - 0xE0) * 64 + (b.toNat - 0x80)) * 64 + (c.toNat - 0x80)), 2)
      else none
    | _ => none
  else if a < 0xF5 then
    match rest with
    | b :: c :: d :: _ =>
      if within (if a = 0xF0 then 0x90 else 0x80) (if a = 0xF4 then 0x8F else 0xBF) b && within 0x80 0xBF c &&
          within 0x80 0xBF d then
        some (Char.ofNat ((((a.toNat - 0xF0) * 64 + (b.toNat - 0x80)) * 64 + (c.toNat - 0x80)) * 64 +
          (d.toNat - 0x80)), 3)
      else none
    | _ => none
  else none

def units : Text → List Unit
  | [] => []
  | a :: rest =>
    match charAt? a rest with
    | some (c, n) => .char c :: units (rest.drop n)
    | none => .stray a :: units rest
termination_by t => t.length

def ofUnits (us : List Unit) : Text := us.flatMap Unit.bytes

def chars (t : Text) : List Char := t.units.map Unit.toChar

def isValid (t : Text) : Bool := t.units.all fun
  | .char _ => true
  | .stray _ => false

def ofChar (c : Char) : Text := String.utf8EncodeChar c

/-- The UTF-8 encoding of a number that is a scalar value, else that of U+FFFD. -/
def ofScalar (n : Int) : Text :=
  if 0 ≤ n ∧ n.toNat.isValidChar then ofChar (Char.ofNat n.toNat) else ofChar '�'

end ClassAbi.Text
