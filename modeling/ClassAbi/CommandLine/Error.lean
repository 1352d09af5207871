import ClassAbi.Compile.Output
import ClassAbi.Error

/-!
# Errors of commands

What is wrong with the way a command is called, and what can go wrong while it runs.
-/

namespace ClassAbi.CommandLine

def toolName : Text := "gcjabi"

inductive UsageError where
  /-- A word that is no command of the tool, and the commands that may have been meant. -/
  | unknownCommand (word : Text) (similar : List Text)
  /-- A word after a command that takes none. -/
  | surplus (word command : Text)
  | unknownFlag (name : Text)
  /-- A letter that is no flag, and the letters from there on. -/
  | unknownLetter (letter : UInt8) (letters : Text)
  | badSyntax (argument : Text)
  | flagNeedsValue (name : Text)
  | letterNeedsValue (letter : UInt8) (letters : Text)
  /-- A value that a flag does not take. -/
  | badValue (value flag reader : Text) (cause : Text.NumberError)
  | wrongCount (wanted given : Nat)
  | countOutOfRange (least most given : Nat)
  | tooFew (least given : Nat)
  deriving Repr, DecidableEq, BEq

/-- A letter between apostrophes. The first byte of the encoding of a letter beyond ASCII stands for it. -/
def letterText (letter : UInt8) : Text :=
  if letter < 0x80 then Text.quoteByte letter
  else "'" ++ Text.ofChar (if letter < 0xC0 then 'Â' else 'Ã') ++ "'"

def suggestionLine (name : Text) : Text := "\t" ++ name ++ "\n"

def UsageError.message : UsageError → Text
  | unknownCommand word similar =>
    "unknown command " ++ word.quote ++ " for " ++ toolName.quote ++
      Text.onlyIf (!similar.isEmpty)
        ("\n\nDid you mean this?\n" ++ similar.flatMap suggestionLine)
  | surplus word command => "unknown command " ++ word.quote ++ " for " ++ (toolName ++ " " ++ command).quote
  | unknownFlag name => "unknown flag: --" ++ name
  | unknownLetter letter letters => "unknown shorthand flag: " ++ letterText letter ++ " in -" ++ letters
  | badSyntax argument => "bad flag syntax: " ++ argument
  | flagNeedsValue name => "flag needs an argument: --" ++ name
  | letterNeedsValue letter letters => "flag needs an argument: " ++ letterText letter ++ " in -" ++ letters
  | badValue value flag reader cause =>
    "invalid argument " ++ value.quote ++ " for " ++ flag.quote ++ " flag: " ++ reader ++ ": parsing " ++ value.quote ++
      ": " ++ cause.message
  | wrongCount wanted given => "accepts " ++ Text.ofNat wanted ++ " arg(s), received " ++ Text.ofNat given
  | countOutOfRange least most given =>
    "accepts between " ++ Text.ofNat least ++ " and " ++ Text.ofNat most ++ " arg(s), received " ++ Text.ofNat given
  | tooFew least given => "requires at least " ++ Text.ofNat least ++ " arg(s), only received " ++ Text.ofNat given

inductive CommandError where
  | usage (cause : UsageError)
  | colourMode (word : Text)
  | versionFormat (word : Text)
  | indexAndManifests
  | nothingGiven
  | indexFile (cause : FileError)
  | indexContent (cause : Reach.SnapshotError)
  | traceFile (cause : FileError)
  | output (cause : OutputError)
  | failed (cause : Error)
  deriving Repr

def CommandError.message : CommandError → Text
  | usage cause => cause.message
  | colourMode word => "invalid color mode " ++ word.quote ++ " (expected auto|on|off)"
  | versionFormat word => "unsupported format " ++ word.quote ++ " (must be pretty or json)"
  | indexAndManifests => "--index and manifests are exclusive"
  | nothingGiven => "no manifests given"
  | indexFile cause => "read index: " ++ cause.message
  | indexContent cause => "read index: " ++ cause.message
  | traceFile cause => "failed to create tracer: failed to open trace output: " ++ cause.message
  | output cause => cause.message
  | failed cause => cause.message

end ClassAbi.CommandLine
