import ClassAbi.Text.Basic

/-!
# Errors of file operations

An operation on files that failed, the paths that it was about, and why it failed.
-/

namespace ClassAbi

inductive FileCause where
  | notFound
  | notDirectory
  | isDirectory
  | alreadyExists
  | nameTooLong
  | invalid
  /-- Another reason, in the words of the machine. -/
  | other (reason : Text)
  deriving Repr, DecidableEq, BEq, Inhabited

def FileCause.message : FileCause → Text
  | notFound => "no such file or directory"
  | notDirectory => "not a directory"
  | isDirectory => "is a directory"
  | alreadyExists => "file exists"
  | nameTooLong => "file name too long"
  | invalid => "invalid argument"
  | other reason => reason

structure FileError where
  operation : Text
  /-- The paths that the operation was about. -/
  paths : List Text
  cause : FileCause
  deriving Repr, DecidableEq, BEq, Inhabited

def FileError.message (e : FileError) : Text := Text.join " " (e.operation :: e.paths) ++ ": " ++ e.cause.message

end ClassAbi
