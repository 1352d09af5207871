import ClassAbi.Mode
import ClassAbi.Program.Op

/-!
# Constants

The content of global data: zeroes, integers, constant code, and compounds of these. Constant code is an address, an
integer, or a sum.
-/

namespace ClassAbi

abbrev EntityId := Nat

/-- An expression whose value is known when the program is linked. -/
inductive Code where
  | const (mode : Mode) (value : Int)
  | address (entity : EntityId)
  | add (left right : Code)
  /-- An operation that stands alone and has no operands. -/
  | bare (op : Op) (mode : Mode)
  deriving Repr, DecidableEq, BEq, Inhabited

namespace Code

/-- The mode of the value of an expression; a sum has that of its left side. -/
def mode : Code → Mode
  | const mode _ => mode
  | address _ => .pointer
  | add left _ => left.mode
  | bare _ mode => mode

def op : Code → Op
  | const _ _ => .const
  | address _ => .address
  | add _ _ => .add
  | bare op _ => op

end Code

/-- The content of a global or of one of its members. -/
inductive Init where
  /-- Zeroes, as many as it takes. -/
  | null
  | word (mode : Mode) (value : Int)
  | code (code : Code)
  | compound (values : List Init)
  deriving Repr, BEq, Inhabited

namespace Init

def ofEntity : Option EntityId → Init
  | some e => code (.address e)
  | none => null

def maxValues : Nat := 1 <<< 44

def nulls? (n : Int) : Option Init :=
  if n < 0 ∨ maxValues < n then none else some (compound (List.replicate n.toNat null))

def isNull : Init → Bool
  | null => true
  | _ => false

def entity? : Init → Option EntityId
  | code (.address e) => some e
  | _ => none

def integer? : Init → Option Int
  | word _ v => some v
  | code (.const _ v) => some v
  | code (.bare .const _) => some 0
  | _ => none

def values? : Init → Option (List Init)
  | compound values => some values
  | _ => none

end Init

end ClassAbi
