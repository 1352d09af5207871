import ClassAbi.Class.Basic
import ClassAbi.Class.Error
import ClassAbi.Text.Ascii

/-!
# Type descriptors

The descriptor of a type is a letter for a primitive, the name of a class between `L` and `;`, or `[` and the descriptor
of the elements of an array. A method descriptor has those of the parameters in parentheses, and then that of the result
or `V`. Classes in descriptors must be registered.
-/

namespace ClassAbi

open Ascii

namespace Registry

def descriptorOf (r : Registry) : JavaType → Text
  | .void => [upperV]
  | .primitive p => [p.letter]
  | .cls c | .pointer (.cls c) => upperL :: (r.nameOf c ++ [semicolon])
  | .pointer elem => openBracket :: r.descriptorOf elem

/-- The descriptor of a type by the number of its pointers, the innermost of which is no array above a class. -/
def signature? (r : Registry) (t : JavaType) : Option Text :=
  match t.leaf with
  | .primitive p => some (List.replicate t.levels openBracket ++ [p.letter])
  | .cls c => some (List.replicate (t.levels - 1) openBracket ++ upperL :: (r.nameOf c ++ [semicolon]))
  | _ => none

/-- The text of a type: the name of the innermost type and a star for each pointer. No type has no text. -/
def typeText? (r : Registry) : JavaType → Option Text
  | .void => none
  | .primitive p => some p.name
  | .cls c => some (r.nameOf c)
  | .pointer elem => (r.typeText? elem).map (· ++ "*")

def typeMention (r : Registry) : JavaType → Text
  | .void => "<nil>"
  | t => (r.typeText? t).getD
    "%!v(PANIC=String method: runtime error: invalid memory address or nil pointer dereference)"

def readType (r : Registry) (whole : Text) : (t : Text) → Except ClassError (JavaType × { r : Text // r.length < t.length })
  | [] => .error (.descriptorEnds whole)
  | c :: t =>
    match Primitive.ofLetter? c with
    | some p => .ok (.primitive p, ⟨t, by simp⟩)
    | none =>
      if c = upperL then
        match h : t.dropWhile (· != semicolon) with
        | [] => .error (.openClassType whole)
        | _ :: rest =>
          let name := t.takeWhile (· != semicolon)
          match r.find? name with
          | none => .error (.unknownInDescriptor whole name)
          | some cls => .ok (.reference cls, ⟨rest, by
              have := (List.dropWhile_sublist (l := t) (· != semicolon)).length_le
              rw [h, List.length_cons] at this
              simp only [List.length_cons]
              omega⟩)
      else if c = openBracket then
        match r.readType whole t with
        | .error e => .error e
        | .ok (elem, ⟨rest, h⟩) => .ok (.pointer elem, ⟨rest, by simp only [List.length_cons]; omega⟩)
      else .error (.badLetter whole c (whole.length - (t.length + 1)))

def typeOfDescriptor (r : Registry) (descriptor : Text) : Except ClassError JavaType := do
  let (t, ⟨rest, _⟩) ← r.readType descriptor descriptor
  if rest.isEmpty then return t else .error (.descriptorTrails descriptor)

/-- The parameters in `t`, a part of the method descriptor `whole`, and what follows the closing parenthesis. -/
def readParameters (r : Registry) (whole t : Text) : Except ClassError (List JavaType × Text) :=
  match t with
  | [] => .error (.openParameters whole)
  | c :: rest =>
    if c = closeParen then .ok ([], rest)
    else do
      let (p, ⟨rest, _⟩) ← r.readType whole (c :: rest)
      let (params, rest) ← r.readParameters whole rest
      return (p :: params, rest)
termination_by t.length
decreasing_by assumption

def typesOfDescriptor (r : Registry) (descriptor : Text) : Except ClassError (List JavaType × JavaType) :=
  match descriptor with
  | openParen :: t => do
    let (params, rest) ← r.readParameters descriptor t
    if rest = [upperV] then return (params, .void)
    let (result, ⟨rest, _⟩) ← r.readType descriptor rest
    if rest.isEmpty then return (params, result) else .error (.methodTrails descriptor)
  | _ => .error (.noParameters descriptor)

def resolve (r : Registry) (name : Text) : Except ClassError ClassId :=
  match r.find? name with
  | some c => .ok c
  | none => .error (.unknownClass name)

/-- The type that is written as a descriptor or as the bare name of a class, which stands for the class itself. -/
def typeNamed (r : Registry) (t : Text) : Except ClassError JavaType :=
  match t with
  | [c] =>
    match Primitive.ofLetter? c with
    | some p => .ok (.primitive p)
    | none => named
  | _ => named
where
  /-- The type, when it is not a single letter of a primitive. -/
  named : Except ClassError JavaType :=
    if t.head? = some openBracket || (t.head? = some upperL && t.getLast? = some semicolon) then
      r.typeOfDescriptor t
    else (r.resolve t).map .cls

end Registry

end ClassAbi
