import ClassAbi.Text.Basic

/-!
# Writing MessagePack

Every value is a header byte, the length if the header does not hold it, and then the content. The shortest header is
taken. Lengths are below 2^32.
-/

namespace ClassAbi.MessagePack

def bigEndian : (n : Nat) → (value : Nat) → Text
  | 0, _ => []
  | n + 1, value => bigEndian n (value / 256) ++ [value.toUInt8]

def nil : Text := [0xC0]

def uint16 (n : UInt16) : Text := 0xCD :: bigEndian 2 n.toNat

def stringHeader (n : Nat) : Text :=
  if n < 32 then [0xA0 + n.toUInt8]
  else if n < 256 then 0xD9 :: bigEndian 1 n
  else if n < 65536 then 0xDA :: bigEndian 2 n
  else 0xDB :: bigEndian 4 n

def string (t : Text) : Text := stringHeader t.length ++ t

def arrayHeader (n : Nat) : Text :=
  if n < 16 then [0x90 + n.toUInt8]
  else if n < 65536 then 0xDC :: bigEndian 2 n
  else 0xDD :: bigEndian 4 n

def array (values : List Text) : Text := arrayHeader values.length ++ values.flatten

def mapHeader (n : Nat) : Text :=
  if n < 16 then [0x80 + n.toUInt8]
  else if n < 65536 then 0xDE :: bigEndian 2 n
  else 0xDF :: bigEndian 4 n

def record (fields : List (Text × Text)) : Text :=
  mapHeader fields.length ++ fields.flatMap fun (name, value) => string name ++ value

end ClassAbi.MessagePack
