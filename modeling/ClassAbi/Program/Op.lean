import ClassAbi.Text.Number

/-!
# Operations

The operations of graph nodes and of constant code.
-/

namespace ClassAbi

inductive Op where
  | const
  | address
  | add
  | param
  | call
  | load
  | store
  | alloc
  | member
  | sel
  | cmp
  | vptrIsSet
  | conv
  /-- An operation that is not defined. -/
  | other (code : Nat)
  deriving Repr, DecidableEq, BEq, Inhabited

namespace Op

def ofCode : Nat → Op
  | 1 => const
  | 2 => address
  | 3 => add
  | 4 => param
  | 5 => call
  | 6 => load
  | 7 => store
  | 8 => alloc
  | 9 => member
  | 10 => sel
  | 11 => cmp
  | 12 => vptrIsSet
  | 13 => conv
  | n => other n

def name : Op → Text
  | const => "Const"
  | address => "Address"
  | add => "Add"
  | param => "Param"
  | call => "Call"
  | load => "Load"
  | store => "Store"
  | alloc => "Alloc"
  | member => "Member"
  | sel => "Sel"
  | cmp => "Cmp"
  | vptrIsSet => "VptrIsSet"
  | conv => "Conv"
  | other code => "Op(" ++ Text.ofNat code ++ ")"

def hasEffect : Op → Bool
  | call | load | store | alloc | vptrIsSet => true
  | _ => false

end Op

/-- The relation that a comparison tests. -/
inductive Relation where
  | equal
  | unequal
  | less
  | greater
  /-- A relation that is not defined. -/
  | other (code : Nat)
  deriving Repr, DecidableEq, BEq, Inhabited

namespace Relation

def ofCode : Nat → Relation
  | 1 => equal
  | 2 => unequal
  | 3 => less
  | 4 => greater
  | n => other n

def code : Relation → Nat
  | equal => 1
  | unequal => 2
  | less => 3
  | greater => 4
  | other n => n

end Relation

end ClassAbi
