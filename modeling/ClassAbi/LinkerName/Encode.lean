import ClassAbi.LinkerName.Ident

/-!
# Linker names of classes and members

The class descriptor, the vtable, the methods and the static fields of a class each have a linker name that spells the
class path. Member names that the linker's scheme reserves are replaced by tokens of their own. The name of a method also
spells the types of its parameters, and not that of its result.
-/

namespace ClassAbi.LinkerName

open Ascii

def nestedStart : Text := "_ZN"

def vtableStart : Text := "_ZTVN"

def descriptorSegment : Text := "6class$"

def initializerSegment : Text := "18__U3c_clinit__U3e_"

def arrayStart : Text := "P6JArrayI"

def classStart : Text := "PN"

/-- The member names that are not written as segments, each with its token, in the order in which a reader tries them. -/
def substitutions : List (Text × Text) :=
  [("<init>", "C1"), ("<clinit>", initializerSegment), ("and", "3and$"), ("or", "2or$"), ("not", "3not$"),
    ("xor", "3xor$"), ("delete", "6delete$")]

def primitiveCodes : List (UInt8 × UInt8) :=
  [(0x42, 0x63), (0x43, 0x77), (0x53, 0x73), (0x49, 0x69), (0x4A, 0x78), (0x5A, 0x62), (0x46, 0x66), (0x44, 0x64)]

def member (name : Text) : Except EncodeError Text :=
  match substitutions.lookup name with
  | some token => .ok token
  | none => segment name

def ofDescriptor (cls : Text) : Except EncodeError Text := do
  return nestedStart ++ (← path cls) ++ descriptorSegment ++ [upperE]

def ofVtable (cls : Text) : Except EncodeError Text := do
  return vtableStart ++ (← path cls) ++ [upperE]

theorem length_le_of_dropWhile {p : UInt8 → Bool} {t rest : Text} {b : UInt8} (h : t.dropWhile p = b :: rest) :
    rest.length ≤ t.length := by
  have hle := (List.dropWhile_sublist p (l := t)).length_le
  rw [h, List.length_cons] at hle
  omega

/-- The code of the first type of `t`, a part of the parameters `params`, and what follows that type. -/
def parameter (params : Text) : (t : Text) → Except EncodeError (Text × { r : Text // r.length ≤ t.length - 1 })
  | [] => .error (.bareArray params)
  | c :: t =>
    match primitiveCodes.lookup c with
    | some code => .ok ([code], ⟨t, Nat.le_refl _⟩)
    | none =>
      if c = upperL then
        match h : t.dropWhile (· != semicolon) with
        | [] => .error (.openClassType params)
        | _ :: rest => do
          let path ← path (t.takeWhile (· != semicolon))
          return (classStart ++ path ++ [upperE], ⟨rest, length_le_of_dropWhile h⟩)
      else if c = openBracket then do
        let (elem, ⟨rest, h⟩) ← parameter params t
        return (arrayStart ++ elem ++ [upperE], ⟨rest, Nat.le_trans h (Nat.sub_le _ _)⟩)
      else .error (.badCharacter params c)

def parametersFrom (params : Text) (t : Text) : Except EncodeError Text :=
  match t with
  | [] => .ok []
  | c :: t => do
    let (code, ⟨rest, h⟩) ← parameter params (c :: t)
    have : rest.length < (c :: t).length := Nat.lt_succ_of_le h
    return code ++ (← parametersFrom params rest)
termination_by t.length
decreasing_by assumption

def parameters (descriptor : Text) : Except EncodeError Text :=
  match descriptor with
  | openParen :: t =>
    match Text.cut? closeParen t with
    | none => .error (.openParameters descriptor)
    | some ([], _) => .ok "v"
    | some (params, _) => parametersFrom params params
  | _ => .error (.noParameters descriptor)

def ofMethod (cls name descriptor : Text) : Except EncodeError Text := do
  return nestedStart ++ (← path cls) ++ (← member name) ++ [upperE] ++ (← parameters descriptor)

def ofField (cls name : Text) : Except EncodeError Text := do
  return nestedStart ++ (← path cls) ++ (← member name) ++ [upperE]

end ClassAbi.LinkerName
