import ClassAbi.Toml.Number
import ClassAbi.Toml.Quoted

/-!
# The grammar of TOML documents

Arrays may go over several lines and hold comments; tables in braces may not.
-/

namespace ClassAbi.Toml

def isKeyChar (c : Char) : Bool := c.isAlphanum || c == '_' || c == '-'

def skipBlanks (cs : List Char) : List Char := cs.dropWhile isBlank

def skipComment (cs : List Char) : List Char := cs.dropWhile (!isNewline ·)

def skipLines : List Char → List Char
  | [] => []
  | c :: cs =>
    if isBlank c || isNewline c then skipLines cs
    else if c == '#' then skipLines (skipComment cs)
    else c :: cs
termination_by cs => cs.length
decreasing_by
  · simp
  · exact Nat.lt_succ_of_le (List.dropWhile_sublist _).length_le

def keyPart : List Char → Option (Text × List Char)
  | '"' :: cs => quoted cs
  | '\'' :: cs => literal cs
  | cs =>
    let name := cs.takeWhile isKeyChar
    if name.isEmpty then none else some (textOf name, cs.drop name.length)

def keyWithin : (fuel : Nat) → List Char → Option (Key × List Char)
  | 0, _ => none
  | fuel + 1, cs => do
    let (part, rest) ← keyPart (skipBlanks cs)
    match skipBlanks rest with
    | '.' :: rest => do
      let (parts, rest) ← keyWithin fuel rest
      return (part :: parts, rest)
    | rest => return ([part], rest)

def scalar : List Char → Option (Expr × List Char)
  | '"' :: '"' :: '"' :: cs => (quotedLines cs).map fun (t, rest) => (.string t, rest)
  | '"' :: cs => (quoted cs).map fun (t, rest) => (.string t, rest)
  | '\'' :: '\'' :: '\'' :: cs => (literalLines cs).map fun (t, rest) => (.string t, rest)
  | '\'' :: cs => (literal cs).map fun (t, rest) => (.string t, rest)
  | 'i' :: 'n' :: 'f' :: cs => some (.float, cs)
  | 'n' :: 'a' :: 'n' :: cs => some (.float, cs)
  | '+' :: cs => signedNumber '+' cs
  | '-' :: cs => signedNumber '-' cs
  | cs =>
    if (cs.head?.map isDigit).getD false then numberOrMoment cs
    else
      let word := cs.takeWhile Char.isAlpha
      let rest := cs.drop word.length
      if word = "true".toList then some (.boolean true, rest)
      else if word = "false".toList then some (.boolean false, rest)
      else none

mutual

def valueWithin : (fuel : Nat) → List Char → Option (Expr × List Char)
  | 0, _ => none
  | fuel + 1, cs =>
    match skipBlanks cs with
    | '[' :: rest => itemsWithin fuel [] rest
    | '\x7b' :: rest =>
      match skipBlanks rest with
      | '\x7d' :: rest => some (.table [], rest)
      | rest => pairsWithin fuel [] rest
    | cs => scalar cs

/-- Reads the items of an array after those in `done`, the last one first, and its closing bracket. -/
def itemsWithin : (fuel : Nat) → (done : List Expr) → List Char → Option (Expr × List Char)
  | 0, _, _ => none
  | fuel + 1, done, cs =>
    match skipLines cs with
    | ']' :: rest => some (.array done.reverse, rest)
    | cs => do
      let (e, rest) ← valueWithin fuel cs
      match skipLines rest with
      | ',' :: rest => itemsWithin fuel (e :: done) rest
      | ']' :: rest => some (.array (e :: done).reverse, rest)
      | _ => none

/-- Reads the pairs of a table after those in `done`, the last one first, and its closing brace. -/
def pairsWithin : (fuel : Nat) → (done : List (Key × Expr)) → List Char → Option (Expr × List Char)
  | 0, _, _ => none
  | fuel + 1, done, cs => do
    let (k, rest) ← keyWithin fuel cs
    let rest ← sign '=' rest
    let (e, rest) ← valueWithin fuel rest
    match skipBlanks rest with
    | ',' :: rest => pairsWithin fuel ((k, e) :: done) rest
    | '\x7d' :: rest => some (.table ((k, e) :: done).reverse, rest)
    | _ => none

end

/-- What follows the end of a line, before which a comment may stand. -/
def endLine (cs : List Char) : Option (List Char) :=
  match skipBlanks cs with
  | [] => some []
  | c :: rest => if c == '#' then some (skipComment rest) else if isNewline c then some rest else none

/-- Reads a line that is not empty, up to its end. There are no more than `fuel` characters, and every two steps of the
reading of a value take a character at least. -/
def statement (fuel : Nat) : List Char → Option (Statement × List Char)
  | '[' :: '[' :: cs => do
    let (k, rest) ← keyWithin fuel cs
    let rest ← (sign ']' rest).bind (sign ']')
    return (.item k, ← endLine rest)
  | '[' :: cs => do
    let (k, rest) ← keyWithin fuel cs
    return (.table k, ← (sign ']' rest).bind endLine)
  | cs => do
    let (k, rest) ← keyWithin fuel cs
    let (e, rest) ← (sign '=' rest).bind (valueWithin (2 * fuel))
    return (.assign k e, ← endLine rest)

def statementsWithin : (fuel : Nat) → (done : List Statement) → List Char → Option (List Statement)
  | 0, _, _ => none
  | fuel + 1, done, cs =>
    match skipLines cs with
    | [] => some done.reverse
    | cs => do
      let (s, rest) ← statement (fuel + 1) cs
      statementsWithin fuel (s :: done) rest

def dropMark : Text → Text
  | 0xFF :: 0xFE :: t => t
  | 0xFE :: 0xFF :: t => t
  | 0xEF :: 0xBB :: 0xBF :: t => t
  | t => t

/-- Whether the characters may stand in a document: no controls but tabs and line ends, and a carriage return only before a
line feed. -/
def allowed : List Char → Bool
  | [] => true
  | '\r' :: cs => cs.head? == some '\n' && allowed cs
  | c :: cs => (c == '\t' || c == '\n' || (' ' ≤ c && c != '\x7f')) && allowed cs

/-- The characters of a document. The replacement character counts as a byte that was not understood. -/
def charsOf? (t : Text) : Option (List Char) := do
  let cs := (dropMark t).chars
  guard (!cs.contains '�' && allowed cs)
  return cs

def statements? (t : Text) : Option (List Statement) := do
  let cs ← charsOf? t
  statementsWithin (cs.length + 1) [] cs

end ClassAbi.Toml
