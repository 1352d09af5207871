import ClassAbi.Text.LowerCase

/-!
# Blanks

Trimming a text, splitting it into words, and the form in which keywords are compared.
-/

namespace ClassAbi.Text

/-- Whether a character is white space: the controls from tab to carriage return, the next-line control, and the
characters of Unicode that separate words, lines or paragraphs. -/
def isSpace (c : Char) : Bool :=
  let n := c.toNat
  (0x09 ≤ n && n ≤ 0x0D) || n == 0x20 || n == 0x85 || n == 0xA0 || n == 0x1680 || (0x2000 ≤ n && n ≤ 0x200A) ||
    n == 0x2028 || n == 0x2029 || n == 0x202F || n == 0x205F || n == 0x3000

def Unit.isSpace : Unit → Bool
  | .char c => Text.isSpace c
  | .stray _ => false

def trim (t : Text) : Text :=
  ofUnits ((t.units.dropWhile Unit.isSpace).reverse.dropWhile Unit.isSpace).reverse

def unitWords (us : List Unit) : List (List Unit) :=
  let (word, words) := us.foldr (fun u (word, words) =>
    if u.isSpace then
      if word.isEmpty then ([], words) else ([], word :: words)
    else (u :: word, words)) ([], [])
  if word.isEmpty then words else word :: words

def words (t : Text) : List Text := (unitWords t.units).map ofUnits

/-- A keyword in the form in which keywords are compared: trimmed and in lower case. -/
def keyword (t : Text) : Text := lower (trim t)

end ClassAbi.Text
