import ClassAbi.Access
import ClassAbi.Class.Error
import ClassAbi.Files.Error

/-!
# Errors of manifests

What can be wrong with a class-set manifest, or with several of them taken together.
-/

namespace ClassAbi

inductive ManifestCause where
  | unreadable (cause : FileError)
  /-- A file that is not well formed. -/
  | malformed
  /-- A required value that is absent. -/
  | missing (what : Text)
  | duplicate
  | unknownClass (name : Text)
  | badAccess (cause : UnknownFlag)
  | badDescriptor (descriptor : Text) (cause : ClassError)
  /-- A build setting that differs from that of an earlier manifest. -/
  | conflict (setting : Text) (earlier : Text)
  deriving Repr, DecidableEq, BEq

/-- What is wrong, in which manifest, and with which class. -/
structure ManifestError where
  path : Text
  /-- The name of the class, empty if the error is not about one. -/
  cls : Text := []
  cause : ManifestCause
  deriving Repr, DecidableEq, BEq

def ManifestCause.name : ManifestCause → Text
  | unreadable _ | malformed => "parse"
  | missing _ => "missing"
  | duplicate => "duplicate"
  | unknownClass _ => "unknown_class"
  | badAccess _ => "access"
  | badDescriptor .. => "descriptor"
  | conflict .. => "conflict"

def ManifestCause.message : ManifestCause → Text
  | unreadable cause => "failed to parse TOML: " ++ cause.message
  | malformed => "failed to parse TOML"
  | missing what => "missing " ++ what
  | duplicate => "class declared twice"
  | unknownClass name => "unknown class " ++ name
  | badAccess cause => cause.message
  | badDescriptor descriptor cause => "bad descriptor " ++ descriptor ++ ": " ++ cause.message
  | conflict setting earlier => "conflicting [build]." ++ setting ++ " (also set in " ++ earlier ++ ")"

def ManifestError.message (e : ManifestError) : Text :=
  e.path ++ Text.onlyIf (!e.cls.isEmpty) (": class " ++ e.cls) ++ ": " ++ e.cause.message

end ClassAbi
