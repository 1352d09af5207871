/-!
# Text

Names, messages and generated modules are byte sequences: a class name need not be valid UTF-8, and what is written must
show the same bytes. A string literal stands for its UTF-8 encoding.
-/

namespace ClassAbi

abbrev Text := List UInt8

namespace Text

def ofString (s : String) : Text := s.toByteArray.data.toList

instance : Coe String Text := ⟨ofString⟩

def toString? (t : Text) : Option String := String.fromUTF8? ⟨t.toArray⟩

def startsWith (t p : Text) : Bool := p.isPrefixOf t

def after? : (p t : Text) → Option Text
  | [], t => some t
  | _ :: _, [] => none
  | a :: p, b :: t => if a = b then after? p t else none

theorem length_after? {p t r : Text} (h : after? p t = some r) : p.length + r.length = t.length := by
  induction p generalizing t with
  | nil => simp only [after?, Option.some.injEq] at h; simp [h]
  | cons a p ih =>
    cases t with
    | nil => simp [after?] at h
    | cons b t =>
      by_cases hab : a = b
      · have := ih (by simpa [after?, hab] using h)
        simp only [List.length_cons]
        omega
      · simp [after?, hab] at h

theorem length_lt_of_after? {p t r : Text} (h : after? p t = some r) (hne : p ≠ []) : r.length < t.length := by
  have hlen := length_after? h
  have hpos := List.length_pos_iff.2 hne
  omega

def dropStart (p t : Text) : Text := (after? p t).getD t

def before? (p t : Text) : Option Text := (after? p.reverse t.reverse).map List.reverse

def occursIn (p : Text) : Text → Bool
  | [] => p.isEmpty
  | b :: t => startsWith (b :: t) p || occursIn p t

/-- The parts of a text between the occurrences of a byte. There is always at least one. -/
def split (sep : UInt8) (t : Text) : List Text :=
  t.foldr (fun b parts =>
    if b = sep then [] :: parts
    else match parts with
      | [] => [[b]]
      | part :: rest => (b :: part) :: rest) [[]]

def join (sep : Text) : List Text → Text
  | [] => []
  | part :: rest => part ++ (rest.map (sep ++ ·)).flatten

def cut? (sep : UInt8) (t : Text) : Option (Text × Text) :=
  match t.dropWhile (· != sep) with
  | [] => none
  | _ :: rest => some (t.takeWhile (· != sep), rest)

def replace (a b : UInt8) (t : Text) : Text := t.map fun c => if c = a then b else c

def le : Text → Text → Bool
  | [], _ => true
  | _ :: _, [] => false
  | a :: s, b :: t => if a < b then true else if b < a then false else le s t

def onlyIf (b : Bool) (t : Text) : Text := if b then t else []

def times (n : Nat) (t : Text) : Text := (List.replicate n t).flatten

def padRight (width : Nat) (t : Text) : Text := t ++ List.replicate (width - t.length) 0x20

end Text

end ClassAbi
