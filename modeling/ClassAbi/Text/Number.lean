import ClassAbi.Text.Basic

/-!
# Numbers in texts

Writing numbers in a base of at most sixteen, and reading them back with an optional sign and a bound on the number of
bits. Reading tells a text that is no number from a number that is too large.
-/

namespace ClassAbi.Text

def digit (n : Nat) : UInt8 := if n < 10 then 0x30 + n.toUInt8 else 0x57 + n.toUInt8

/-- The value of a digit of a base of at most thirty-six, in either case. -/
def digitValue? (base : Nat) (b : UInt8) : Option Nat :=
  let v :=
    if 0x30 ≤ b ∧ b ≤ 0x39 then some (b.toNat - 0x30)
    else if 0x61 ≤ b ∧ b ≤ 0x7A then some (b.toNat - 0x57)
    else if 0x41 ≤ b ∧ b ≤ 0x5A then some (b.toNat - 0x37)
    else none
  v.filter (· < base)

def ofNatIn (base n : Nat) : Text :=
  if 2 ≤ base ∧ base ≤ n then ofNatIn base (n / base) ++ [digit (n % base)] else [digit n]
termination_by n
decreasing_by
  rename_i h
  exact Nat.div_lt_self (Nat.lt_of_lt_of_le (by decide) (Nat.le_trans h.1 h.2)) h.1

def ofNat (n : Nat) : Text := ofNatIn 10 n

def ofInt : Int → Text
  | .ofNat n => ofNat n
  | .negSucc n => 0x2D :: ofNat (n + 1)

def ofHex (n : Nat) : Text := ofNatIn 16 n

def zeroFill (width : Nat) (t : Text) : Text := List.replicate (width - t.length) 0x30 ++ t

def ofByteHex (b : UInt8) : Text := [digit (b.toNat / 16), digit (b.toNat % 16)]

inductive NumberError where
  | syntaxError
  | outOfRange
  deriving Repr, DecidableEq, BEq

def NumberError.message : NumberError → Text
  | syntaxError => "invalid syntax"
  | outOfRange => "value out of range"

/-- Reads digits onto a number that is already read. The first digit that makes the number exceed `max` ends the
reading, whatever follows it. -/
def readDigits (base max : Nat) : (acc : Nat) → Text → Except NumberError Nat
  | acc, [] => .ok acc
  | acc, b :: t =>
    match digitValue? base b with
    | none => .error .syntaxError
    | some d =>
      let acc := acc * base + d
      if max < acc then .error .outOfRange else readDigits base max acc t

def readNat (base bits : Nat) (t : Text) : Except NumberError Nat :=
  if t.isEmpty then .error .syntaxError else readDigits base ((1 <<< bits) - 1) 0 t

/-- Puts a sign before a magnitude, if the number then fits into a word of `bits` bits. -/
def signed (bits : Nat) (negative : Bool) (n : Nat) : Except NumberError Int :=
  if negative then
    if 1 <<< (bits - 1) < n then .error .outOfRange else .ok (-(n : Int))
  else
    if 1 <<< (bits - 1) ≤ n then .error .outOfRange else .ok n

/-- The sign of a text, whether it is a minus, and what follows it. -/
def takeSign : Text → Bool × Text
  | 0x2B :: t => (false, t)
  | 0x2D :: t => (true, t)
  | t => (false, t)

def readInt (base bits : Nat) (t : Text) : Except NumberError Int := do
  let (negative, digits) := takeSign t
  signed bits negative (← readNat base bits digits)

/-! ### Numbers with a mark of their base -/

/-- Whether every underscore of a number stands between digits. One may also follow the mark of the base. -/
def underscoresSeparate (hex : Bool) : (afterDigit : Bool) → Text → Bool
  | _, [] => true
  | afterDigit, b :: t =>
    if b = 0x5F then
      afterDigit && (t.head?.map fun c => (digitValue? (if hex then 16 else 10) c).isSome).getD false &&
        underscoresSeparate hex false t
    else underscoresSeparate hex ((digitValue? (if hex then 16 else 10) b).isSome) t

/-- The base of a number by its mark, and its digits. A zero at the start marks base eight. -/
def baseOf : Text → Nat × Text
  | 0x30 :: x :: y :: t =>
    if x = 0x62 || x = 0x42 then (2, y :: t)
    else if x = 0x6F || x = 0x4F then (8, y :: t)
    else if x = 0x78 || x = 0x58 then (16, y :: t)
    else (8, x :: y :: t)
  | 0x30 :: t => (8, t)
  | t => (10, t)

/-- Reads a number with an optional sign and a mark of its base. Underscores may separate its digits. -/
def readLiteral (bits : Nat) (t : Text) : Except NumberError Int := do
  let (negative, body) := takeSign t
  if body.isEmpty then throw .syntaxError
  let (base, digits) := baseOf body
  let n ← readDigits base ((1 <<< bits) - 1) 0 (digits.filter (· != 0x5F))
  let marked := digits.length + 2 = body.length
  if digits.contains 0x5F && !underscoresSeparate (base = 16) (marked || base = 8) digits then throw .syntaxError
  signed bits negative n

end ClassAbi.Text
