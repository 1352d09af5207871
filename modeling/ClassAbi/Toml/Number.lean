import ClassAbi.Text.Number
import ClassAbi.Toml.Expr

/-!
# Numbers and moments of TOML

How far a number or a moment reaches is decided by its characters alone; whether it is a proper one is decided afterwards.
-/

namespace ClassAbi.Toml

def isDigitOf (base : Nat) (c : Char) : Bool := c.toNat < 128 && (Text.digitValue? base c.toNat.toUInt8).isSome

def isDigit (c : Char) : Bool := isDigitOf 10 c

/-- Whether digits stand before and after every underscore. The letters of hexadecimal numbers count as digits. -/
def underscoresFit (cs : List Char) : Bool :=
  go false cs
where
  /-- Whether the rest fits, after a digit or not. -/
  go : Bool → List Char → Bool
    | after, [] => after
    | after, c :: cs => (c != '_' || after) && go (isDigitOf 16 c) cs

def hasLeadingZero : List Char → Bool
  | '0' :: c :: _ => c != 'b' && c != 'o' && c != 'x'
  | s :: '0' :: _ :: _ => s == '+' || s == '-'
  | _ => false

/-- The number that digits of a base spell, underscores aside, within words of 64 bits. -/
def wordOf? (base : Nat) (negative : Bool) (digits : List Char) : Option Int :=
  let t := textOf (digits.filter (· != '_'))
  match Text.readNat base 64 t with
  | .ok n => (Text.signed 64 negative n).toOption
  | .error _ => none

def integerOf? (cs : List Char) : Option Int := do
  guard (underscoresFit cs)
  guard (!hasLeadingZero cs)
  match cs with
  | '0' :: 'b' :: ds => wordOf? 2 false ds
  | '0' :: 'o' :: ds => wordOf? 8 false ds
  | '0' :: 'x' :: ds => wordOf? 16 false ds
  | '+' :: ds => wordOf? 10 false ds
  | '-' :: ds => wordOf? 10 true ds
  | ds => wordOf? 10 false ds

/-! ### Floating point numbers -/

def dividesFloat (c : Char) : Bool := c == '.' || c == 'e' || c == 'E'

def pointsFit : List Char → Bool
  | [] => true
  | '.' :: cs => (cs.head?.map isDigit).getD false && pointsFit cs
  | _ :: cs => pointsFit cs

/-- Whether the number `digits` times ten to the power `exponent` is too large for a word of 64 bits: whether it is nearer to
2 to the power 1024 than to the largest number below that. -/
def overflows (digits : Nat) (exponent : Int) : Bool :=
  let size : Int := (Text.ofNat digits).length + exponent
  if digits = 0 || size < 300 then false
  else if 320 < size then true
  else
    let limit := (1 <<< 1024) - (1 <<< 970)
    if 0 ≤ exponent then limit ≤ digits * Nat.pow 10 exponent.toNat
    else limit * Nat.pow 10 (-exponent).toNat ≤ digits

def floatParts (cs : List Char) : List (List Char) :=
  (cs.foldr (fun c parts =>
    if dividesFloat c then [] :: parts
    else match parts with
      | [] => [[c]]
      | part :: rest => (c :: part) :: rest) [[]]).filter (!·.isEmpty)

/-- Whether a number in decimal with a fraction, an exponent or both is a proper one. -/
def isFloat (cs : List Char) : Bool :=
  let parts := floatParts cs
  let digits := cs.filter (· != '_')
  let unsigned := match digits with
    | '+' :: ds => ds
    | '-' :: ds => ds
    | ds => ds
  let whole := unsigned.takeWhile isDigit
  let (fraction, rest) := match unsigned.drop whole.length with
    | '.' :: rest => (rest.takeWhile isDigit, rest.dropWhile isDigit)
    | rest => ([], rest)
  let exponent : Option Int := match rest with
    | [] => some 0
    | c :: rest =>
      if c == 'e' || c == 'E' then
        let (negative, ds) := match rest with
          | '+' :: ds => (false, ds)
          | '-' :: ds => (true, ds)
          | ds => (false, ds)
        if ds.isEmpty || !ds.all isDigit then none
        else (decimal ds).map fun n => if negative then -(n : Int) else n
      else none
  parts.all underscoresFit && !(parts.head?.map hasLeadingZero).getD false && pointsFit cs && !whole.isEmpty &&
    match exponent, decimal (whole ++ fraction) with
    | some e, some n => !overflows n (e - fraction.length)
    | _, _ => false
where
  /-- The number that decimal digits spell. -/
  decimal (ds : List Char) : Option Nat :=
    ds.foldlM (fun n c => (Text.digitValue? 10 c.toNat.toUInt8).map (n * 10 + ·)) 0

/-! ### Moments -/

/-- Reads a number of two digits below `bound`, or of one digit if `short` allows it. -/
def twoDigits (bound : Nat) (short : Bool) : List Char → Option (Nat × List Char)
  | a :: b :: cs =>
    if isDigit a && isDigit b then
      let n := (a.toNat - 48) * 10 + (b.toNat - 48)
      if n < bound then some (n, cs) else none
    else if isDigit a && short then some (a.toNat - 48, b :: cs)
    else none
  | [a] => if isDigit a && short then some (a.toNat - 48, []) else none
  | [] => none

def sign (c : Char) : List Char → Option (List Char)
  | d :: cs => if d == c then some cs else none
  | [] => none

def daysIn (year month : Nat) : Nat :=
  if month = 2 then
    if year % 4 = 0 && (year % 100 != 0 || year % 400 = 0) then 29 else 28
  else if month ∈ [4, 6, 9, 11] then 30
  else 31

def afterDate (cs : List Char) : Option (List Char) := do
  let digits := cs.take 4
  guard (digits.length = 4 && digits.all isDigit)
  let year := digits.foldl (fun n c => n * 10 + (c.toNat - 48)) 0
  let cs ← sign '-' (cs.drop 4)
  let (month, cs) ← twoDigits 13 false cs
  let cs ← sign '-' cs
  let (day, cs) ← twoDigits 100 false cs
  guard (1 ≤ month && 1 ≤ day && day ≤ daysIn year month)
  return cs

/-- What follows a time of day, which may have a fraction of a second. -/
def afterTime (cs : List Char) : Option (List Char) := do
  let (_, cs) ← twoDigits 24 true cs
  let cs ← sign ':' cs
  let (_, cs) ← twoDigits 60 false cs
  let cs ← sign ':' cs
  let (_, cs) ← twoDigits 60 false cs
  return match cs with
    | '.' :: c :: rest => if isDigit c then rest.dropWhile isDigit else cs
    | cs => cs

def afterZone : List Char → Option (List Char)
  | 'Z' :: cs => some cs
  | s :: cs => do
    guard (s == '+' || s == '-')
    let (_, cs) ← twoDigits 25 false cs
    let cs ← sign ':' cs
    let (_, cs) ← twoDigits 61 false cs
    return cs
  | [] => none

/-- Whether the characters are a date, a time of day, or both, in which case a zone may follow. -/
def isMoment (cs : List Char) : Bool :=
  let cs := cs.map fun c => if c == 'z' then 'Z' else if c == 't' || c == ' ' then 'T' else c
  match afterDate cs with
  | some [] => true
  | some rest =>
    match (sign 'T' rest).bind afterTime with
    | some [] => true
    | some rest => afterZone rest == some []
    | none => false
  | none => afterTime cs == some []

/-! ### Reading -/

def inMoment (c : Char) : Bool := isDigit c || c ∈ ['-', ':', 'T', 't', ' ', '.', 'Z', 'z', '+']

def inFloat (c : Char) : Bool := isDigit c || c ∈ ['_', '.', '-', '+', 'e', 'E']

def decimalNumber (sign cs : List Char) : Option (Expr × List Char) :=
  let body := cs.takeWhile fun c => isDigit c || c == '_'
  let rest := cs.drop body.length
  if (rest.head?.map dividesFloat).getD false then
    let body := cs.takeWhile inFloat
    if isFloat (sign ++ body) then some (.float, cs.drop body.length) else none
  else (integerOf? (sign ++ body)).map fun n => (.integer n, rest)

def basedNumber (base : Nat) (mark : Char) (cs : List Char) : Option (Expr × List Char) := do
  guard ((cs.head?.map (isDigitOf base)).getD false)
  let body := cs.takeWhile fun c => isDigitOf base c || c == '_'
  return (.integer (← integerOf? ('0' :: mark :: body)), cs.drop body.length)

/-- A moment. Blanks at its end do not belong to it. -/
def moment (cs : List Char) : Option (Expr × List Char) :=
  let body := cs.takeWhile inMoment
  if isMoment (body.reverse.dropWhile (· == ' ')).reverse then some (.moment, cs.drop body.length) else none

def numberOrMoment (cs : List Char) : Option (Expr × List Char) :=
  match cs with
  | '0' :: 'b' :: rest => basedNumber 2 'b' rest
  | '0' :: 'o' :: rest => basedNumber 8 'o' rest
  | '0' :: 'x' :: rest => basedNumber 16 'x' rest
  | cs =>
    let digits := cs.takeWhile isDigit
    let next := (cs.drop digits.length).head?
    if digits != ['0'] && (next == some '-' || next == some ':') then moment cs else decimalNumber [] cs

def signedNumber (sign : Char) (cs : List Char) : Option (Expr × List Char) :=
  match cs with
  | 'i' :: 'n' :: 'f' :: rest => some (.float, rest)
  | 'n' :: 'a' :: 'n' :: rest => some (.float, rest)
  | c :: _ => if isDigit c then decimalNumber [sign] cs else none
  | [] => none

end ClassAbi.Toml
