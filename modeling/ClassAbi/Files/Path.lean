import ClassAbi.Text.Basic

/-!
# Paths

Names of files with slashes between the directories that lead to them.
-/

namespace ClassAbi.Path

def slash : UInt8 := 0x2F

def isAbsolute (p : Text) : Bool := p.head? == some slash

/-- The parts of a path before which the parts in `done` stand, the last one first. A part `..` takes one away again, except
at the root. -/
def partsFrom (absolute : Bool) : (done parts : List Text) → List Text
  | done, [] => done.reverse
  | done, part :: parts =>
    if part.isEmpty || part == Text.ofString "." then partsFrom absolute done parts
    else if part != Text.ofString ".." then partsFrom absolute (part :: done) parts
    else match done with
      | [] => partsFrom absolute (if absolute then [] else [part]) parts
      | last :: rest =>
        if last == Text.ofString ".." then partsFrom absolute (part :: done) parts else partsFrom absolute rest parts

def parts (p : Text) : List Text := partsFrom (isAbsolute p) [] (Text.split slash p)

def ofParts (absolute : Bool) (parts : List Text) : Text :=
  let body := Text.join "/" parts
  if absolute then "/" ++ body else if body.isEmpty then "." else body

def clean (p : Text) : Text := ofParts (isAbsolute p) (parts p)

/-- The last part of a path, which is empty after a slash at the end. -/
def lastPart (p : Text) : Text := (p.reverse.takeWhile (· != slash)).reverse

def directory (p : Text) : Text := clean (p.take (p.length - (lastPart p).length))

/-- What a path has before its last part. A slash at the end stays there. -/
def parent (p : Text) : Text := ((p.reverse.dropWhile (· == slash)).dropWhile (· != slash)).reverse

theorem length_dropWhile_le {α : Type} (f : α → Bool) (l : List α) : (l.dropWhile f).length ≤ l.length :=
  (List.dropWhile_suffix f).length_le

theorem parent_length_lt {p : Text} (h : p ≠ []) : (parent p).length < p.length := by
  unfold parent
  have hp : p.length = p.reverse.length := List.length_reverse.symm
  rw [List.length_reverse, hp]
  cases hr : p.reverse with
  | nil => exact absurd (List.reverse_eq_nil_iff.mp hr) h
  | cons a r =>
    by_cases ha : a = slash
    · subst ha
      have h1 := length_dropWhile_le (· != slash) (r.dropWhile (· == slash))
      have h2 := length_dropWhile_le (· == slash) r
      simp only [List.dropWhile_cons, beq_self_eq_true, if_true, List.length_cons]
      omega
    · have h1 := length_dropWhile_le (· != slash) r
      simp only [List.dropWhile_cons, beq_iff_eq, ha, if_false, bne_iff_ne, ne_eq, not_false_eq_true, if_true,
        List.length_cons]
      omega

def inDirectory (dir name : Text) : Text := if dir.getLast? == some slash then dir ++ name else dir ++ "/" ++ name

/-- The path without the extension of its last part: what stands before the last dot there. -/
def withoutExtension (p : Text) : Text :=
  let last := lastPart p
  let extension := (last.reverse.takeWhile (· != 0x2E)).length + 1
  if last.contains 0x2E then p.take (p.length - extension) else p

end ClassAbi.Path
