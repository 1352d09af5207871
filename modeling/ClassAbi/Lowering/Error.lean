import ClassAbi.Text.Number
import ClassAbi.Text.Quoted

/-!
# Errors of operations

Why the text of an operation cannot be read, and why an operation has no code.
-/

namespace ClassAbi.Lowering

inductive OpError where
  | unknownMnemonic (word : Text)
  /-- A literal that is not quoted as it should be. -/
  | badLiteral (operand : Text)
  | operandCount (mnemonic : Text) (count : Nat)
  | badSize (operand : Text)
  /-- An array type with fewer dimensions than sizes are given. -/
  | fewDimensions (type : Text) (count : Nat)
  | noReference
  | notRoutine (entity : Text)
  | noMethod (cls name descriptor : Text)
  deriving Repr, DecidableEq, BEq

def OpError.message : OpError → Text
  | unknownMnemonic word => "unknown operation " ++ word.quote
  | badLiteral operand => "ldc operand " ++ operand ++ ": invalid syntax"
  | operandCount mnemonic count => mnemonic ++ ": unexpected operand count " ++ Text.ofNat count
  | badSize operand => "bad array size " ++ operand.quote
  | fewDimensions type count => type ++ " has fewer than " ++ Text.ofNat count ++ " dimensions"
  | noReference => "method has no reference parameter"
  | notRoutine entity => "entity " ++ entity ++ " is not a routine"
  | noMethod cls name descriptor => cls ++ " has no method " ++ name ++ descriptor

end ClassAbi.Lowering
