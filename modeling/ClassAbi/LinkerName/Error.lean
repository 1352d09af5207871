import ClassAbi.Text.Quoted

/-!
# Errors of linker names

Why a class, member or descriptor has no linker name, and why a text is none.
-/

namespace ClassAbi.LinkerName

inductive EncodeError where
  /-- A name, or a part of a path, without characters. -/
  | emptyIdentifier
  | emptyClassName
  /-- A class path with a part that cannot be encoded. -/
  | badSegment (cls : Text) (cause : EncodeError)
  /-- A method descriptor that does not begin with its parameters. -/
  | noParameters (descriptor : Text)
  /-- A method descriptor whose parameters do not end. -/
  | openParameters (descriptor : Text)
  /-- A class type that does not end. -/
  | openClassType (params : Text)
  | bareArray (params : Text)
  /-- A character that begins no type. -/
  | badCharacter (params : Text) (c : UInt8)
  deriving Repr, DecidableEq, BEq

namespace EncodeError

def subject : EncodeError → Text
  | emptyIdentifier | emptyClassName => []
  | badSegment t _ | noParameters t | openParameters t | openClassType t | bareArray t | badCharacter t _ => t

def message : EncodeError → Text
  | emptyIdentifier => wording [] "empty identifier"
  | emptyClassName => wording [] "empty class name"
  | badSegment t cause => wording t cause.message
  | noParameters t => wording t "method descriptor must start with '('"
  | openParameters t => wording t "missing ')'"
  | openClassType t => wording t "unterminated class type"
  | bareArray t => wording t "array without element type"
  | badCharacter t c => wording t ("unexpected descriptor character " ++ Text.ofChar (Char.ofNat c.toNat))
where
  wording (subject reason : Text) : Text := "mangle: cannot encode " ++ subject.quote ++ ": " ++ reason

end EncodeError

/-- What is wrong at a position of a linker name. -/
inductive DecodeReason where
  | openEscape
  | badEscapeDigits
  | noSegmentLength
  | badSegmentLength
  | segmentPastEnd
  | noNestedStart
  | noPathBeforeInitializer
  | trailingCharacters
  | notNested
  | openNestedName
  | noClassOrMember
  | emptyClassPath
  | openArray
  | unknownCode (c : UInt8)
  deriving Repr, DecidableEq, BEq

def DecodeReason.message : DecodeReason → Text
  | openEscape => "unterminated escape"
  | badEscapeDigits => "bad escape digits"
  | noSegmentLength => "expected segment length"
  | badSegmentLength => "bad segment length"
  | segmentPastEnd => "segment runs past end"
  | noNestedStart => "missing _ZN"
  | noPathBeforeInitializer => "no class path before initializer"
  | trailingCharacters => "trailing characters after vtable name"
  | notNested => "not a nested name"
  | openNestedName => "unterminated nested name"
  | noClassOrMember => "nested name needs a class and a member"
  | emptyClassPath => "empty class path"
  | openArray => "unterminated array parameter"
  | unknownCode c => "unknown parameter code " ++ Text.ofChar (Char.ofNat c.toNat)

/-- A text that is no linker name, and where it departs from the form. -/
structure DecodeError where
  name : Text
  pos : Nat
  reason : DecodeReason
  deriving Repr, DecidableEq, BEq

def DecodeError.message (e : DecodeError) : Text :=
  "mangle: cannot decode " ++ e.name.quote ++ " at offset " ++ Text.ofNat e.pos ++ ": " ++ e.reason.message

end ClassAbi.LinkerName
