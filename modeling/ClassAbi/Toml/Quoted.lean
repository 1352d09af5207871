import ClassAbi.Text.Number
import ClassAbi.Toml.Expr

/-!
# Strings of TOML

A string stands between quotes, in which a backslash starts an escape, or between apostrophes, where it does not. Three
quotes or apostrophes enclose a string of several lines.
-/

namespace ClassAbi.Toml

/-- The content of a string up to its closing quote. A backslash protects the character after it. -/
def untilQuote : (done : List Char) → List Char → Option (List Char × List Char)
  | _, [] => none
  | done, '"' :: cs => some (done.reverse, cs)
  | done, '\\' :: c :: cs => if isNewline c then none else untilQuote (c :: '\\' :: done) cs
  | done, c :: cs => if isNewline c then none else untilQuote (c :: done) cs

def untilApostrophe : (done : List Char) → List Char → Option (List Char × List Char)
  | _, [] => none
  | done, c :: cs =>
    if c == '\'' then some (done.reverse, cs)
    else if isNewline c then none
    else untilApostrophe (c :: done) cs

/-- Whether a string of several lines, whose last characters come first, ends in five quotes that one more follows. A
backslash before the five counts as the start of an escape. -/
def tooManyQuotes (quote : Char) (escapes : Bool) (content : List Char) : Bool :=
  content.take 5 == List.replicate 5 quote && !(escapes && content[5]? == some '\\')

/-- The content of a string of several lines up to its three closing quotes. Up to two quotes may stand before these. -/
def untilQuotes (quote : Char) (escapes : Bool) : (done : List Char) → List Char → Option (List Char × List Char)
  | _, [] => none
  | done, c :: cs =>
    if escapes && c == '\\' then
      match cs with
      | [] => none
      | e :: cs => untilQuotes quote escapes (e :: c :: done) cs
    else if c != quote then untilQuotes quote escapes (c :: done) cs
    else if cs.take 2 != [quote, quote] then untilQuotes quote escapes (c :: done) cs
    else if cs[2]? != some quote then some (done.reverse, cs.drop 2)
    else if tooManyQuotes quote escapes (quote :: quote :: c :: done) then none
    else untilQuotes quote escapes (c :: done) cs

def shortEscape? : Char → Option Char
  | 'b' => some '\x08'
  | 't' => some '\t'
  | 'n' => some '\n'
  | 'f' => some '\x0c'
  | 'r' => some '\r'
  | '"' => some '"'
  | '\\' => some '\\'
  | _ => none

def hexNumber? (digits : List Char) : Option Nat :=
  digits.foldlM (fun n c => (Text.digitValue? 16 c.toNat.toUInt8).filter (fun _ => c.toNat < 128) |>.map (n * 16 + ·)) 0

def escapedChar? (width : Nat) (digits : List Char) : Option Char := do
  guard (digits.length = width)
  let n ← hexNumber? digits
  if n.isValidChar then some (Char.ofNat n) else none

/-- The content of a string with its escapes replaced. A backslash at the end of a line removes the line end and the blanks
and empty lines after it. -/
def unescape : (cs : List Char) → Option (List Char)
  | [] => some []
  | c :: cs =>
    if c != '\\' then (c :: ·) <$> unescape cs
    else match cs with
      | [] => none
      | e :: rest =>
        match shortEscape? e with
        | some d => (d :: ·) <$> unescape rest
        | none =>
          if e == 'u' then do
            let d ← escapedChar? 4 (rest.take 4)
            (d :: ·) <$> unescape (rest.drop 4)
          else if e == 'U' then do
            let d ← escapedChar? 8 (rest.take 8)
            (d :: ·) <$> unescape (rest.drop 8)
          else if (isBlank e || isNewline e) && (e :: rest.takeWhile fun c => isBlank c || isNewline c).contains '\n' then
            unescape (rest.dropWhile fun c => isBlank c || isNewline c)
          else none
termination_by cs => cs.length
decreasing_by
  all_goals simp only [List.length_cons, List.length_drop]
  all_goals first
    | omega
    | exact Nat.lt_succ_of_le (Nat.le_succ_of_le (List.dropWhile_sublist _).length_le)

def dropFirstNewline : List Char → List Char
  | '\n' :: cs => cs
  | '\r' :: '\n' :: cs => cs
  | cs => cs

def quoted (cs : List Char) : Option (Text × List Char) := do
  let (content, rest) ← untilQuote [] cs
  return (textOf (← unescape content), rest)

def literal (cs : List Char) : Option (Text × List Char) := (untilApostrophe [] cs).map fun (content, rest) => (textOf content, rest)

def quotedLines (cs : List Char) : Option (Text × List Char) := do
  let (content, rest) ← untilQuotes '"' true [] cs
  return (textOf (← unescape (dropFirstNewline content)), rest)

def literalLines (cs : List Char) : Option (Text × List Char) := do
  let (content, rest) ← untilQuotes '\'' false [] cs
  return (textOf (dropFirstNewline content), rest)

end ClassAbi.Toml
