import ClassAbi.Text.Number
import ClassAbi.Text.Printable
import ClassAbi.Text.Utf8

/-!
# Quoted texts

`quote` shows a text between double quotes in printable characters only; `unquote?` reads a quoted literal, which may also
stand between single quotes (one character) or back quotes (no escapes).
-/

namespace ClassAbi.Text

def shortEscape? (n : Nat) : Option UInt8 :=
  match n with
  | 0x07 => some 0x61
  | 0x08 => some 0x62
  | 0x0C => some 0x66
  | 0x0A => some 0x6E
  | 0x0D => some 0x72
  | 0x09 => some 0x74
  | 0x0B => some 0x76
  | _ => none

/-- A character as it stands in a quoted text, where `mark` is the quotation mark. -/
def quoteChar (mark : UInt8) (c : Char) : Text :=
  let n := c.toNat
  if n = mark.toNat ∨ n = 0x5C then [0x5C, n.toUInt8]
  else if isPrintable c then ofChar c
  else match shortEscape? n with
    | some letter => [0x5C, letter]
    | none =>
      if n < 0x20 ∨ n = 0x7F then 0x5C :: 0x78 :: zeroFill 2 (ofHex n)
      else if n < 0x10000 then 0x5C :: 0x75 :: zeroFill 4 (ofHex n)
      else 0x5C :: 0x55 :: zeroFill 8 (ofHex n)

/-- A unit as it stands in a quoted text. A stray byte is shown by its number. -/
def quoteUnit : Unit → Text
  | .char c => quoteChar 0x22 c
  | .stray b => 0x5C :: 0x78 :: ofByteHex b

def quote (t : Text) : Text := 0x22 :: (t.units.flatMap quoteUnit ++ [0x22])

def quoteByte (b : UInt8) : Text := 0x27 :: (quoteChar 0x27 (Char.ofNat b.toNat) ++ [0x27])

/-! ### Reading -/

def ofDigits? (base : Nat) (t : Text) : Option Nat :=
  t.foldlM (fun acc b => (digitValue? base b).map (acc * base + ·)) 0

/-- A text and the rest that follows it, which is no longer than `t`. -/
abbrev Taken (t : Text) := Text × { r : Text // r.length ≤ t.length }

def readCoded (width : Nat) (t : Text) : Option (Nat × { r : Text // r.length ≤ t.length }) :=
  let digits := t.take width
  if digits.length < width then none
  else (ofDigits? 16 digits).map (·, ⟨t.drop width, by simp⟩)

def readByte (width : Nat) (t : Text) : Option (Taken t) := (readCoded width t).map fun (n, rest) => ([n.toUInt8], rest)

def readScalar (width : Nat) (t : Text) : Option (Taken t) := do
  let (n, rest) ← readCoded width t
  if n.isValidChar then some (ofChar (Char.ofNat n), rest) else none

def readOctal (c : UInt8) : (t : Text) → Option (Taken t)
  | d :: e :: rest => do
    let n ← ofDigits? 8 [c, d, e]
    if n ≤ 255 then some ([n.toUInt8], ⟨rest, (List.suffix_append [d, e] rest).length_le⟩) else none
  | _ => none

/-- The content of the escape after a backslash, inside a literal between `mark`s, and the rest. -/
def readEscape (mark : UInt8) : (t : Text) → Option (Taken t)
  | [] => none
  | c :: t =>
    let as (b : UInt8) : Option (Taken (c :: t)) := some ([b], ⟨t, by simp⟩)
    let within (r : Option (Taken t)) : Option (Taken (c :: t)) :=
      r.map fun (content, ⟨rest, h⟩) => (content, ⟨rest, by simp only [List.length_cons]; omega⟩)
    match c with
    | 0x61 => as 0x07
    | 0x62 => as 0x08
    | 0x66 => as 0x0C
    | 0x6E => as 0x0A
    | 0x72 => as 0x0D
    | 0x74 => as 0x09
    | 0x76 => as 0x0B
    | 0x78 => within (readByte 2 t)
    | 0x75 => within (readScalar 4 t)
    | 0x55 => within (readScalar 8 t)
    | 0x5C => as 0x5C
    | c =>
      if c = mark ∧ (c = 0x22 ∨ c = 0x27) then as c
      else if 0x30 ≤ c ∧ c ≤ 0x37 then within (readOctal c t)
      else none

/-- The content of one position of a literal and the rest, which is shorter. -/
def readQuotedUnit (mark : UInt8) : (t : Text) → Option (Text × { r : Text // r.length < t.length })
  | [] => none
  | c :: t =>
    if c = 0x0A then none
    else if c = 0x5C then
      (readEscape mark t).map fun (content, ⟨rest, h⟩) =>
        (content, ⟨rest, Nat.lt_succ_of_le h⟩)
    else match charAt? c t with
      | some (_, n) => some (c :: t.take n, ⟨t.drop n, Nat.lt_succ_of_le (List.drop_sublist n t).length_le⟩)
      | none => some (ofChar '�', ⟨t, Nat.lt_succ_self _⟩)

/-- The content of a literal up to the quotation mark that ends it, if nothing follows that mark. -/
def readQuoted (mark : UInt8) (t : Text) : Option Text :=
  if t = [mark] then some []
  else if t.head? = some mark then none
  else match readQuotedUnit mark t with
    | none => none
    | some (content, ⟨rest, _⟩) => (readQuoted mark rest).map (content ++ ·)
termination_by t.length

def unquote? : Text → Option Text
  | 0x60 :: t =>
    match cut? 0x60 t with
    | some (content, []) => some (content.filter (· != 0x0D))
    | _ => none
  | 0x22 :: t => readQuoted 0x22 t
  | [0x27, 0x27] => some []
  | 0x27 :: t =>
    match readQuotedUnit 0x27 t with
    | some (content, ⟨[0x27], _⟩) => if t.head? = some 0x27 then none else some content
    | _ => none
  | _ => none

end ClassAbi.Text
