import ClassAbi.Text.Number

/-!
# Errors of the runtime interface

Why a class cannot be described to the runtime, and why code for an operation cannot be built.
-/

namespace ClassAbi

inductive AbiErrorKind where
  | missingRuntimeType
  | vtableTooSmall
  | interfaceSuperclass
  | layoutNotFinal
  | noDescriptor
  | unexpectedType
  | fieldOverflow
  | sessionClosed
  deriving Repr, DecidableEq, BEq, Inhabited

def AbiErrorKind.name : AbiErrorKind → Text
  | missingRuntimeType => "missing runtime type"
  | vtableTooSmall => "vtable too small"
  | interfaceSuperclass => "interface as superclass"
  | layoutNotFinal => "layout not final"
  | noDescriptor => "no class descriptor"
  | unexpectedType => "unexpected type"
  | fieldOverflow => "field overflow"
  | sessionClosed => "session closed"

inductive AbiCause where
  | rootNotRegistered
  | noClassVtable
  | tooFewSlots (count : Int)
  | firstSupertypeInterface (name : Text)
  | instanceNotLaidOut
  | noStorage (field : Text)
  | noOffset (field : Text)
  | notLaidOut
  | slotsNotAssigned
  | interfaceWithoutDescriptor (name : Text)
  | superWithoutDescriptor (name : Text)
  | descriptorNotDeclared
  | vtableNotDeclared
  | typeWithoutDescriptor (type : Text)
  | elementWithoutDescriptor (type : Text)
  | noSignature (type : Text)
  | runtimeClass
  | interfaceVtable
  | notInstantiable
  | noDimensions
  | notInterface
  | longConstant (bytes : Nat)
  | slotOverflow (slot : Int) (method : Text)
  | fieldSizeOverflow (size : Int) (field : Text)
  | countOverflow (count : Text) (value : Int)
  | instanceSizeOverflow (size : Int)
  | closed
  deriving Repr, DecidableEq, BEq, Inhabited

namespace AbiCause

def kind : AbiCause → AbiErrorKind
  | rootNotRegistered | noClassVtable => .missingRuntimeType
  | tooFewSlots _ => .vtableTooSmall
  | firstSupertypeInterface _ => .interfaceSuperclass
  | instanceNotLaidOut | noStorage _ | noOffset _ | notLaidOut | slotsNotAssigned => .layoutNotFinal
  | interfaceWithoutDescriptor _ | superWithoutDescriptor _ | descriptorNotDeclared | vtableNotDeclared
  | typeWithoutDescriptor _ | elementWithoutDescriptor _ => .noDescriptor
  | noSignature _ | runtimeClass | interfaceVtable | notInstantiable | noDimensions | notInterface => .unexpectedType
  | longConstant _ | slotOverflow _ _ | fieldSizeOverflow _ _ | countOverflow _ _ | instanceSizeOverflow _ =>
    .fieldOverflow
  | closed => .sessionClosed

def detail : AbiCause → Text
  | rootNotRegistered => "root class is not registered"
  | noClassVtable => "needed for the descriptor vptr"
  | tooFewSlots count => Text.ofInt count ++ " slots"
  | firstSupertypeInterface name => "first supertype " ++ name ++ " is an interface"
  | instanceNotLaidOut => "instance layout is not computed"
  | noStorage field => "static field " ++ field ++ " has no storage"
  | noOffset field => "field " ++ field ++ " has no offset"
  | notLaidOut => "descriptor requested before layout and dispatch"
  | slotsNotAssigned => "vtable slots are not assigned"
  | interfaceWithoutDescriptor name => "interface " ++ name
  | superWithoutDescriptor name => "superclass " ++ name
  | descriptorNotDeclared => "class descriptor not declared"
  | vtableNotDeclared => "vtable entity not declared"
  | typeWithoutDescriptor type => "type " ++ type ++ " has no class descriptor"
  | elementWithoutDescriptor type => "element type " ++ type ++ " has no class descriptor"
  | noSignature type => "no signature for " ++ type
  | runtimeClass => "runtime classes are declared, not built"
  | interfaceVtable => "interfaces have no vtable"
  | notInstantiable => "cannot instantiate"
  | noDimensions => "multianewarray without dimensions"
  | notInterface => "not an interface"
  | longConstant bytes => "utf8 constant of " ++ Text.ofNat bytes ++ " bytes"
  | slotOverflow slot method => "vtable index " ++ Text.ofInt slot ++ " of " ++ method
  | fieldSizeOverflow size field => "size " ++ Text.ofInt size ++ " of field " ++ field
  | countOverflow count value => count ++ " = " ++ Text.ofInt value
  | instanceSizeOverflow size => "instance size " ++ Text.ofInt size
  | closed => "session caches were dropped"

end AbiCause

structure AbiError where
  /-- The name of the class, empty if the error is not about one. -/
  cls : Text
  cause : AbiCause
  deriving Repr, DecidableEq, BEq, Inhabited

def AbiError.message (e : AbiError) : Text :=
  "gcj: " ++ Text.onlyIf (!e.cls.isEmpty) (e.cls ++ ": ") ++ e.cause.kind.name ++ ": " ++ e.cause.detail

end ClassAbi
