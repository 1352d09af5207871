import ClassAbi.Descent
import ClassAbi.Type.Basic

/-!
# The text of a type

How types read in messages. A routine with an absent parameter or result has no text; as an array element it is written
as a note about that, and so is an absent element. An array that is its own element, or a routine that takes itself, is
spelled without end: a type that comes up again while it is being spelled is one of these.
-/

namespace ClassAbi.TypeTable

def absentText : Text := "%!s(<nil>)"

def faultyText : Text :=
  "%!s(PANIC=String method: runtime error: invalid memory address or nil pointer dereference)"

def tagged (keyword name : Text) : Text := if name.isEmpty then keyword else keyword ++ " " ++ name

def extentText (length : Int) : Text := if length < 0 then "[]" else "[" ++ Text.ofInt length ++ "]"

/-- What comes of spelling a type of a shape, if that comes to an end: its text, or none because something in it is absent.
The types in it are spelled by `spell`. -/
def spelled (spell : TypeId → Option (Option Text)) : Shape → Option (Option Text)
  | .primitive mode => return some mode.name
  | .struct name _ => return some (tagged "struct" name)
  | .union name _ => return some (tagged "union" name)
  | .unknown => return some "unknown"
  | .array none length => return some (extentText length ++ absentText)
  | .array (some elem) length => do return some (extentText length ++ (← spell elem).getD faultyText)
  | .routine sig => do
    let texts ← (sig.params ++ sig.results).foldlM (fun (before : Option (List Text)) t =>
      match before, t with
      | some texts, some t => do return (← spell t).map (texts ++ [·])
      | _, _ => return none) (some [])
    return texts.map fun texts =>
      "method(" ++ Text.join ", " (texts.take sig.params.length) ++ ") (" ++
        Text.join ", " (texts.drop sig.params.length) ++ ")"

/-- What comes of spelling a type inside those on the stack. -/
def spellingIn (types : TypeTable) (stack : List TypeId) (t : TypeId) : Option (Option Text) :=
  if onStack : t ∈ stack then none
  else if bound : t < types.shapes.size then spelled (types.spellingIn (t :: stack)) types.shapes[t]
  else return none
termination_by unvisited types.shapes.size stack
decreasing_by exact unvisited_cons_lt bound onStack

def text? (types : TypeTable) (t : TypeId) : Option Text := (types.spellingIn [] t).join

end ClassAbi.TypeTable
