import ClassAbi.Text.Utf8

/-!
# The form of a TOML document

A document is a sequence of lines that open a table or assign a value to a key. Numbers and moments are checked when they
are read, and only the value of an integer is kept. A reader
takes characters and gives what it read from their start, together with what remains.
-/

namespace ClassAbi.Toml

abbrev Key := List Text

inductive Expr where
  | string (t : Text)
  | integer (n : Int)
  | float
  | boolean (b : Bool)
  /-- A date, a time, or both. -/
  | moment
  | array (es : List Expr)
  | table (pairs : List (Key × Expr))
  deriving Repr, Inhabited

inductive Statement where
  | table (key : Key)
  | item (key : Key)
  | assign (key : Key) (value : Expr)
  deriving Repr, Inhabited

def textOf (cs : List Char) : Text := cs.flatMap Text.ofChar

def isBlank (c : Char) : Bool := c == ' ' || c == '\t'

def isNewline (c : Char) : Bool := c == '\n' || c == '\r'

end ClassAbi.Toml
