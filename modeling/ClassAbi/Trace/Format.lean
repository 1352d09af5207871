import ClassAbi.Text.JsonString
import ClassAbi.Trace.Event

/-!
# Formats of a trace

Events are written as lines for a reader, or as JSON objects, one in a line.
-/

namespace ClassAbi.Trace

inductive Format where
  | auto
  | text
  | ndjson
  deriving Repr, DecidableEq, BEq, Inhabited

def Format.ofWord (word : Text) : Except WordError Format :=
  let lower := word.lower
  if lower = [] ∨ lower = Text.ofString "auto" then .ok .auto
  else if lower = Text.ofString "text" then .ok .text
  else if lower = Text.ofString "ndjson" ∨ lower = Text.ofString "json" then .ok .ndjson
  else .error (.format word)

/-- The format of a file: one that is left open is settled by the ending of the name. -/
def Format.forPath (format : Format) (path : Text) : Format :=
  match format with
  | .auto => if (Text.before? ".ndjson" path).isSome then .ndjson else .text
  | format => format

def jsonObject (members : List (Text × Text)) : Text :=
  "\x7b" ++ Text.join "," (members.map fun (key, value) => key.jsonString ++ ":" ++ value) ++ "\x7d"

/-- The JSON object of an event, in which what is empty is left out. -/
def Event.json (e : Event) : Text :=
  let number (key : String) (n : Nat) : List (Text × Text) := if n = 0 then [] else [(key, Text.ofNat n)]
  let extra := jsonObject ((sorted e.extra).map fun (key, value) => (key, value.jsonString))
  jsonObject (
    [(Text.ofString "time", e.time.text.jsonString), (Text.ofString "seq", Text.ofNat e.seq),
      (Text.ofString "kind", e.kind.name.jsonString), (Text.ofString "scope", e.scope.name.jsonString)] ++
    number "span_id" e.span ++ number "parent_id" e.parent ++
    [(Text.ofString "name", e.name.jsonString)] ++
    (if e.detail.isEmpty then [] else [(Text.ofString "detail", e.detail.jsonString)]) ++
    (if e.extra.isEmpty then [] else [(Text.ofString "extra", extra)]))

def Event.written (e : Event) : Format → Text
  | .ndjson => e.json ++ "\n"
  | .auto | .text => e.line ++ "\n"

end ClassAbi.Trace
