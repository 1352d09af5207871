import ClassAbi.LinkerName.Encode
import ClassAbi.Outcome

/-!
# Reading linker names

`decode` recovers the class, the member and the parameters that a linker name spells, and `initializerClass` the class of
a static initializer. Lengths inside a name are words of 64 bits: a length that overflows when it is added to its
position is no error that is reported, but a read outside the name.
-/

namespace ClassAbi.LinkerName

open Ascii

inductive Symbol where
  | descriptor (cls : Text)
  | vtable (cls : Text)
  /-- A method with its parameter types, or a field, which has none. -/
  | member (cls name : Text) (params : Option (List Text))
  deriving Repr, DecidableEq, BEq

namespace Symbol

def kind : Symbol → Text
  | descriptor _ => "class"
  | vtable _ => "vtable"
  | member .. => "member"

def cls : Symbol → Text
  | descriptor c | vtable c | member c _ _ => c

def name : Symbol → Text
  | descriptor _ | vtable _ => []
  | member _ n _ => n

def params : Symbol → Option (List Text)
  | descriptor _ | vtable _ => none
  | member _ _ ps => ps

def text : Symbol → Text
  | descriptor c => c ++ ".class$"
  | vtable c => "vtable for " ++ c
  | member c n none => c ++ "." ++ n
  | member c n (some ps) => c ++ "." ++ n ++ "(" ++ ps.flatten ++ ")"

end Symbol

def position (whole t : Text) : Nat := whole.length - t.length

def errorAt {α : Type} (whole t : Text) (reason : DecodeReason) : Outcome DecodeError α :=
  .fail ⟨whole, position whole t, reason⟩

/-- A step that reports decoding errors and reads nothing outside the name. -/
def checked {α : Type} : Except DecodeError α → Outcome DecodeError α
  | .ok a => .ok a
  | .error e => .fail e

/-- The escaped identifier of the segment at the rest `t` of the name `whole`, and what follows it. -/
def readSegment (whole t : Text) : Outcome DecodeError (Text × { r : Text // r.length < t.length }) :=
  let digits := t.takeWhile isDigit
  let body := t.dropWhile isDigit
  if h : digits.isEmpty then errorAt whole t .noSegmentLength
  else match Text.readNat 10 63 digits with
    | .error _ => errorAt whole t .badSegmentLength
    | .ok 0 => errorAt whole t .badSegmentLength
    | .ok n =>
      let escaped := body.take n
      if escaped.length < n then
        if 1 <<< 63 ≤ position whole body + n then .fault else errorAt whole body .segmentPastEnd
      else .ok (escaped, ⟨body.drop n, by
        have hlen : digits.length + body.length = t.length := by
          rw [← List.length_append, List.takeWhile_append_dropWhile]
        have hpos : 0 < digits.length := by
          cases hd : digits with
          | nil => simp [hd] at h
          | cons => simp
        simp only [List.length_drop]
        omega⟩)

def readSegments (whole t : Text) : Outcome DecodeError (List Text × { r : Text // r.length ≤ t.length }) :=
  match t with
  | [] => errorAt whole [] .openNestedName
  | upperE :: t => .ok ([], ⟨upperE :: t, Nat.le_refl _⟩)
  | c :: t => do
    let (escaped, ⟨rest, h⟩) ← readSegment whole (c :: t)
    let ident ← checked (unescape escaped)
    let (idents, ⟨rest', h'⟩) ← readSegments whole rest
    return (ident :: idents, ⟨rest', by omega⟩)
termination_by t.length
decreasing_by assumption

def readPath (whole t : Text) : Outcome DecodeError (Text × { r : Text // r.length ≤ t.length }) := do
  match ← readSegments whole t with
  | ([], ⟨rest, _⟩) => errorAt whole rest .emptyClassPath
  | (idents, rest) => return (Text.join [slash] idents, rest)

/-- The parameter type whose code is at the rest `t` of the name `whole`, and what follows it. -/
def readParameter (whole t : Text) : Outcome DecodeError (Text × { r : Text // r.length < t.length }) :=
  match t with
  | [] => .fault
  | c :: t =>
    match primitiveCodes.find? (·.2 == c) with
    | some (letter, _) => .ok ([letter], ⟨t, Nat.lt_succ_self _⟩)
    | none =>
      match h : Text.after? arrayStart (c :: t) with
      | some inner => do
        have hlt : inner.length < (c :: t).length := Text.length_lt_of_after? h (by decide)
        let (elem, ⟨rest, hr⟩) ← readParameter whole inner
        have htail : rest.tail.length ≤ rest.length := (List.tail_sublist rest).length_le
        if rest.head? = some upperE then
          return (openBracket :: elem, ⟨rest.tail, Nat.lt_trans (Nat.lt_of_le_of_lt htail hr) hlt⟩)
        else errorAt whole rest .openArray
      | none =>
        match h : Text.after? classStart (c :: t) with
        | some inner => do
          let (path, ⟨rest, hr⟩) ← readPath whole inner
          have hlt : inner.length < (c :: t).length := Text.length_lt_of_after? h (by decide)
          have hdrop : (rest.drop 1).length ≤ rest.length := (List.drop_sublist 1 rest).length_le
          return (upperL :: (path ++ [semicolon]), ⟨rest.drop 1, Nat.lt_of_le_of_lt (Nat.le_trans hdrop hr) hlt⟩)
        | none => errorAt whole (c :: t) (.unknownCode c)
termination_by t.length
decreasing_by assumption

def readParametersFrom (whole t : Text) : Outcome DecodeError (List Text) :=
  match t with
  | [] => .ok []
  | c :: t => do
    let (param, ⟨rest, _⟩) ← readParameter whole (c :: t)
    return param :: (← readParametersFrom whole rest)
termination_by t.length
decreasing_by assumption

def readParameters (whole t : Text) : Outcome DecodeError (List Text) :=
  if t = "v" then .ok [] else readParametersFrom whole t

/-- The member whose token stands before a closing `E`, and the rest that begins with that `E`. -/
def readToken (t : Text) : Option (Text × Text) :=
  substitutions.findSome? fun (name, token) =>
    match Text.after? token t with
    | some (upperE :: rest) => some (name, upperE :: rest)
    | _ => none

/-- The escaped identifiers of the segments of a member name, the member if it is a token, and the rest, which begins
with the closing `E` if there is one. -/
def readMember (whole t : Text) : Outcome DecodeError (List Text × Option Text × Text) :=
  match t with
  | [] => .ok ([], none, [])
  | upperE :: t => .ok ([], none, upperE :: t)
  | c :: t =>
    match readToken (c :: t) with
    | some (name, rest) => .ok ([], some name, rest)
    | none => do
      let (escaped, ⟨rest, _⟩) ← readSegment whole (c :: t)
      let (segments, token, rest') ← readMember whole rest
      return (escaped :: segments, token, rest')
termination_by t.length
decreasing_by assumption

def unescapePath (full : Text) (segments : List Text) : Outcome DecodeError Text :=
  match segments with
  | [] => .fail ⟨full, 0, .emptyClassPath⟩
  | segments => do
    let idents ← checked (segments.mapM unescape)
    return Text.join [slash] idents

/-- The symbol whose linker name is `full` without the closing parts read so far: the segments and the token of its
member, and the rest after the closing `E`. -/
def symbolOf (full whole : Text) (segments : List Text) (token : Option Text) (rest : Text) :
    Outcome DecodeError Symbol := do
  match token with
  | some name =>
    let cls ← unescapePath full segments
    return .member cls name (← optionalParameters)
  | none =>
    match segments.reverse with
    | last :: init@(_ :: _) =>
      let cls ← unescapePath full init.reverse
      if last = "class$" ∧ rest.isEmpty then return .descriptor cls
      else
        let name ← checked (unescape last)
        return .member cls name (← optionalParameters)
    | _ => errorAtFull .noClassOrMember
where
  /-- The parameters, which a field lacks. -/
  optionalParameters : Outcome DecodeError (Option (List Text)) :=
    if rest.isEmpty then .ok none else some <$> readParameters whole rest
  /-- An error that shows the whole linker name. -/
  errorAtFull {α : Type} (reason : DecodeReason) : Outcome DecodeError α :=
    .fail ⟨full, position whole rest, reason⟩

def decode (full decoration : Text) : Outcome DecodeError Symbol :=
  let whole := Text.dropStart decoration full
  match Text.after? vtableStart whole with
  | some t => do
    let (cls, ⟨rest, _⟩) ← readPath whole t
    if rest = [upperE] then return .vtable cls
    else .fail ⟨full, position whole rest, .trailingCharacters⟩
  | none =>
    match Text.after? nestedStart whole with
    | none => .fail ⟨full, 0, .notNested⟩
    | some t => do
      match ← readMember whole t with
      | (segments, token, upperE :: rest) => symbolOf full whole segments token rest
      | (_, _, rest) => .fail ⟨full, position whole rest, .openNestedName⟩

def readInitializerPath (whole t : Text) : Outcome DecodeError (List Text × Text) :=
  if t.startsWith initializerSegment then .ok ([], t)
  else do
    let (escaped, ⟨rest, _⟩) ← readSegment whole t
    let ident ← checked (unescape escaped)
    let (idents, rest') ← readInitializerPath whole rest
    return (ident :: idents, rest')
termination_by t.length

def initializerClass (full decoration : Text) : Outcome DecodeError Text :=
  let whole := Text.dropStart decoration full
  match Text.after? nestedStart whole with
  | none => .fail ⟨full, 0, .noNestedStart⟩
  | some t => do
    match ← readInitializerPath whole t with
    | ([], rest) => .fail ⟨full, position whole rest, .noPathBeforeInitializer⟩
    | (idents, _) => return Text.join [slash] idents

def isInitializer (full : Text) : Bool :=
  Text.occursIn nestedStart full && Text.occursIn (initializerSegment ++ [upperE]) full

end ClassAbi.LinkerName
