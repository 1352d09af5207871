import ClassAbi.LinkerName.Error
import ClassAbi.Text.Ascii

/-!
# Identifiers inside linker names

A linker name may hold letters, digits, `_` and `$` only. Any other character of an identifier is written as the escape
`__U`, its number in hexadecimal, `_`. An underscore that would complete the marker `__U` is escaped itself, so that the
marker only ever opens an escape. A *segment* is an escaped identifier after its length, and a class path is the sequence
of the segments between its slashes.
-/

namespace ClassAbi.LinkerName

open Ascii

def escapeMarker : Text := "__U"

def isPlain (c : Char) : Bool := c == '_' || c == '$' || c.isAlphanum

def escapeChar (c : Char) : Text := escapeMarker ++ Text.ofHex c.toNat ++ [underscore]

/-- Escapes the characters of an identifier; the flag tells whether an underscore was written just before. -/
def escapeChars : (afterUnderscore : Bool) → List Char → Text
  | _, [] => []
  | afterUnderscore, c :: cs =>
    if isPlain c && !(c == '_' && afterUnderscore && cs.head? == some 'U') then
      c.toNat.toUInt8 :: escapeChars (c == '_') cs
    else escapeChar c ++ escapeChars true cs

def escape (ident : Text) : Except EncodeError Text :=
  if ident.isEmpty then .error .emptyIdentifier else .ok (escapeChars false ident.chars)

def escapeError (whole t : Text) (reason : DecodeReason) : DecodeError := ⟨whole, whole.length - (t.length + 3), reason⟩

def unescapeFrom (whole : Text) : Text → Except DecodeError Text
  | [] => .ok []
  | underscore :: underscore :: upperU :: t =>
    match h : t.dropWhile (· != underscore) with
    | [] => .error (escapeError whole t .openEscape)
    | _ :: rest =>
      let digits := t.takeWhile (· != underscore)
      if digits.isEmpty then .error (escapeError whole t .openEscape)
      else match Text.readInt 16 32 digits with
        | .error _ => .error ⟨whole, whole.length - t.length, .badEscapeDigits⟩
        | .ok n => do
          have : rest.length < t.length + 3 := by
            have := (List.dropWhile_sublist (l := t) (· != underscore)).length_le
            rw [h, List.length_cons] at this
            omega
          return Text.ofScalar n ++ (← unescapeFrom whole rest)
  | b :: t => do return b :: (← unescapeFrom whole t)
termination_by t => t.length

def unescape (escaped : Text) : Except DecodeError Text := unescapeFrom escaped escaped

def segment (ident : Text) : Except EncodeError Text := do
  let escaped ← escape ident
  return Text.ofNat escaped.length ++ escaped

def path (cls : Text) : Except EncodeError Text :=
  if cls.isEmpty then .error .emptyClassName
  else match (cls.split slash).mapM segment with
    | .error cause => .error (.badSegment cls cause)
    | .ok segments => .ok segments.flatten

end ClassAbi.LinkerName
