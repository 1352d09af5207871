import ClassAbi.Layout.Basic

/-!
# Errors of module texts

Why the content of a global or the body of a routine cannot be written.
-/

namespace ClassAbi.Module

inductive EmitError where
  | layout (cause : LayoutError)
  | untyped
  /-- A compound for a type that is no compound. -/
  | compoundFor (type : Text)
  /-- An operation that constant code cannot have. -/
  | notConstant (node : Text)
  /-- A value that is used and has not been defined. -/
  | undefined (node : Text)
  /-- Storage for something that is no array. -/
  | allocOf (type : Text)
  | callWithoutType
  | inconvertible (source result : Mode)
  | unknownRelation (code : Nat)
  | unsupported (op : Text)
  | inMember (name : Text) (cause : EmitError)
  | inElement (index : Nat) (cause : EmitError)
  | inNode (node : Text) (cause : EmitError)
  | inGlobal (name : Text) (cause : EmitError)
  | inRoutine (name : Text) (cause : EmitError)
  deriving Repr, DecidableEq, BEq

namespace EmitError

def message : EmitError → Text
  | layout cause => cause.message
  | untyped => "defined entity has no type"
  | compoundFor type => "compound initializer for " ++ type
  | notConstant node => "node " ++ node ++ " is not constant code"
  | undefined node => "operand " ++ node ++ " used before definition"
  | allocOf type => "alloc of " ++ type
  | callWithoutType => "call without a routine type"
  | inconvertible source result => "cannot convert " ++ source.name ++ " to " ++ result.name
  | unknownRelation code => "unknown relation " ++ Text.ofNat code
  | unsupported op => "unsupported operation " ++ op
  | inMember name cause => "member " ++ name ++ ": " ++ cause.message
  | inElement index cause => "element " ++ Text.ofNat index ++ ": " ++ cause.message
  | inNode node cause => node ++ ": " ++ cause.message
  | inGlobal name cause => "global " ++ name ++ ": " ++ cause.message
  | inRoutine name cause => "function " ++ name ++ ": " ++ cause.message

def layout? : EmitError → Option LayoutError
  | layout cause => some cause
  | inMember _ cause | inElement _ cause | inNode _ cause | inGlobal _ cause | inRoutine _ cause => cause.layout?
  | _ => none

end EmitError

end ClassAbi.Module
