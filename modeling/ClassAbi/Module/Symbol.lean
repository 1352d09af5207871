import ClassAbi.Program.Basic
import ClassAbi.Target

/-!
# Symbols

How a module text refers to an entity. A name that already carries the platform's decoration is marked, so that it is not
decorated again. Other names are quoted unless they have only characters that need no quotes.
-/

namespace ClassAbi.Module

def isNameByte (c : UInt8) : Bool :=
  (0x61 ≤ c && c ≤ 0x7A) || (0x41 ≤ c && c ≤ 0x5A) || c == 0x5F || c == 0x2E || c == 0x24 || c == 0x2D ||
    (0x30 ≤ c && c ≤ 0x39)

def isPlainName : Text → Bool
  | [] => false
  | c :: rest => !(0x30 ≤ c && c ≤ 0x39) && isNameByte c && rest.all isNameByte

def upperDigit (n : Nat) : UInt8 := if n < 10 then 0x30 + n.toUInt8 else 0x37 + n.toUInt8

/-- A byte of a quoted name: quotes, backslashes and what is not printable in ASCII are written in hexadecimal. -/
def escapeByte (c : UInt8) : Text :=
  if c == 0x22 || c == 0x5C || c < 0x20 || 0x7F ≤ c then
    [0x5C, upperDigit (c.toNat / 16), upperDigit (c.toNat % 16)]
  else [c]

def symbol (target : Target) (e : Entity) : Text :=
  let name := e.label
  if !target.decoration.isEmpty && e.visibility != .hidden && name.startsWith target.decoration then
    "@\"\\01" ++ name ++ "\""
  else if isPlainName name then "@" ++ name
  else "@\"" ++ name.flatMap escapeByte ++ "\""

end ClassAbi.Module
