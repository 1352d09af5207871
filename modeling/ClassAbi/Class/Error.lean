import ClassAbi.Text.Number
import ClassAbi.Text.Quoted

/-!
# Errors of classes

What can be wrong with the declaration of a class, with a type descriptor, and with the hierarchy.
-/

namespace ClassAbi

inductive ClassError where
  | emptyName
  /-- A name that is not written with slashes. -/
  | dottedName (name : Text)
  | declaredTwice (name : Text)
  | unknownClass (name : Text)
  /-- A class that is its own supertype, through the others of the chain. -/
  | cyclic (chain : List Text)
  | descriptorEnds (descriptor : Text)
  | descriptorTrails (descriptor : Text)
  | openClassType (descriptor : Text)
  /-- A descriptor that names a class which is not known. -/
  | unknownInDescriptor (descriptor name : Text)
  | badLetter (descriptor : Text) (letter : UInt8) (position : Nat)
  | noParameters (descriptor : Text)
  | openParameters (descriptor : Text)
  | methodTrails (descriptor : Text)
  | superNotLaidOut (name : Text)
  | superWithoutSlots (name : Text)
  | tooManySlots (count : Nat)
  deriving Repr, DecidableEq, BEq

def ClassError.message : ClassError → Text
  | emptyName => "empty class name"
  | dottedName name => "class " ++ name.quote ++ ": expected an internal name (slash separated)"
  | declaredTwice name => "class " ++ name.quote ++ " declared twice"
  | unknownClass name => "unknown class " ++ name.quote
  | cyclic chain => "cyclic class hierarchy: " ++ Text.join " -> " chain
  | descriptorEnds d => "descriptor " ++ d.quote ++ ": unexpected end"
  | descriptorTrails d => "descriptor " ++ d.quote ++ ": trailing characters"
  | openClassType d => "descriptor " ++ d.quote ++ ": unterminated class type"
  | unknownInDescriptor d name => "descriptor " ++ d.quote ++ ": " ++ "unknown class " ++ name.quote
  | badLetter d letter position =>
    "descriptor " ++ d.quote ++ ": unexpected " ++ Text.quoteByte letter ++ " at " ++ Text.ofNat position
  | noParameters d => "method descriptor " ++ d.quote ++ ": expected '('"
  | openParameters d => "method descriptor " ++ d.quote ++ ": missing ')'"
  | methodTrails d => "method descriptor " ++ d.quote ++ ": trailing characters"
  | superNotLaidOut name => "superclass " ++ name ++ " is not laid out"
  | superWithoutSlots name => "superclass " ++ name ++ " has no slots"
  | tooManySlots count => Text.ofNat count ++ " vtable slots exceed the u16 index range"

end ClassAbi
