import ClassAbi.Compile.Basic
import ClassAbi.Text.Duration
import ClassAbi.Version

/-!
# What commands print

Progress lines, tables of times, and the content of an index, with or without colours.
-/

namespace ClassAbi.CommandLine

def coloured (colours : Bool) (colour t : Text) : Text :=
  if colours then "\x1b[" ++ colour ++ "m" ++ t ++ "\x1b[0m" else t

def emphasized (colours : Bool) (colour t : Text) : Text := if colours then BuildInfo.bold colour t else t

def good (colours : Bool) (t : Text) : Text := emphasized colours "32" t

def bad (colours : Bool) (t : Text) : Text := emphasized colours "31" t

def aside (colours : Bool) (t : Text) : Text := coloured colours "36" t

/-- The line about a stage that ended. The start of a stage is not shown. -/
def progressLine (colours : Bool) (p : Progress) : Text :=
  match p.status with
  | .working => []
  | .done =>
    aside colours "  done" ++ " " ++ Text.padRight 8 p.stage.name ++ " " ++ Text.ofDuration p.elapsed ++ "\n"
  | .failed => bad colours "failed" ++ " " ++ Text.padRight 8 p.stage.name ++ "\n"

def timeLine (name : Text) (elapsed : Int) (note : Text) : Text :=
  "  " ++ Text.padRight 10 name ++ " " ++ Text.ofMilliseconds elapsed ++ " ms" ++
    Text.onlyIf (!note.isEmpty) ("  " ++ note) ++ "\n"

def timeTable (phases : List Phase) : Text :=
  "timings:\n" ++ (phases.flatMap fun p => timeLine p.stage.name p.elapsed p.note) ++
    timeLine "total" (phases.foldl (fun total p => total + p.elapsed) 0) []

def initText (init missing : Text) : Text := if init.isEmpty then missing else init

def classLine (c : Reach.ClassEntry) : Text :=
  "class " ++ c.cls ++ " " ++ c.descriptor ++ " init " ++ initText c.init "none" ++ "\n"

def callLine (colours : Bool) (c : Reach.CallEntry) : Text :=
  c.caller ++ " -> " ++ initText c.init (aside colours "none") ++ " (" ++ c.cls ++ ")\n"

/-- The calls in an index and the initializers that they run, and before them the classes if `classes` is set. -/
def indexText (colours classes : Bool) (s : Reach.Snapshot) : Text :=
  "target " ++ s.target ++ "\n" ++ Text.onlyIf classes ((s.classes.getD []).flatMap classLine) ++
    (s.calls.getD []).flatMap (callLine colours)

end ClassAbi.CommandLine
