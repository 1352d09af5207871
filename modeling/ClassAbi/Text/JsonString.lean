import ClassAbi.Text.Number
import ClassAbi.Text.Utf8

/-!
# JSON strings

A text as a JSON string that may stand inside markup: besides what JSON requires, the signs of markup and the two line
separators of Unicode are written as escapes. A stray byte becomes the escape of the replacement character.
-/

namespace ClassAbi.Text

def jsonEscape (c : Char) : Text := "\\u" ++ zeroFill 4 (ofHex c.toNat)

def jsonChar (c : Char) : Text :=
  match c with
  | '"' => "\\\""
  | '\\' => "\\\\"
  | '\n' => "\\n"
  | '\r' => "\\r"
  | '\t' => "\\t"
  | '\x08' => "\\b"
  | '\x0c' => "\\f"
  | c => if c < ' ' || c ∈ ['<', '>', '&', '\u2028', '\u2029'] then jsonEscape c else ofChar c

def jsonString (t : Text) : Text :=
  "\"" ++ t.units.flatMap (fun
    | .char c => jsonChar c
    | .stray _ => jsonEscape '�') ++ "\""

end ClassAbi.Text
