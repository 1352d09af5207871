import ClassAbi.Text.Basic

/-!
# The version line

How the tool identifies itself, in plain text or with the numbers of a dotted version in colours.
-/

namespace ClassAbi

structure BuildInfo where
  version : Text
  commit : Text
  date : Text
  deriving Repr, DecidableEq, BEq, Inhabited

namespace BuildInfo

def development : BuildInfo := ⟨"0.1.0-dev", [], []⟩

def bold (colour : Text) (t : Text) : Text := "\x1b[" ++ colour ++ ";1m" ++ t ++ "\x1b[0;22m"

/-- The version with its three numbers set by `paint`, or as it is if it has not three. -/
def decorated (paint : Text → Text → Text) (version : Text) : Text :=
  let (core, suffix) := (Text.cut? 0x2D version).getD (version, [])
  match Text.split 0x2E core with
  | [major, minor, patch] =>
    paint "33" major ++ "." ++ paint "32" minor ++ "." ++ paint "34" patch ++
      Text.onlyIf (!suffix.isEmpty) ("-" ++ suffix)
  | _ => version

/-- The version line. With `parts`, the numbers of the version are set apart, in colours if `colours` is on too. -/
def describe (info : BuildInfo) (parts colours : Bool) : Text :=
  let version :=
    if parts then decorated (if colours then bold else fun _ t => t) info.version else info.version
  "gcjabi " ++ version ++
    Text.onlyIf (!info.commit.isEmpty)
      (" (" ++ info.commit ++ Text.onlyIf (!info.date.isEmpty) (", " ++ info.date) ++ ")")

end BuildInfo

end ClassAbi
