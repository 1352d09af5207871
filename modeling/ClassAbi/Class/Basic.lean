import Std.Data.HashMap
import ClassAbi.Access
import ClassAbi.Class.Type
import ClassAbi.Program.Constant

/-!
# Classes

The classes and interfaces of a compilation, with their members. Layout, vtable slots and the entities that stand for a
class in the program are filled in by later steps.
-/

namespace ClassAbi

/-- How calls of a method find the code. -/
inductive Binding where
  | static
  | dynamic
  | interface
  deriving Repr, DecidableEq, BEq, Inhabited

def Binding.name : Binding → Text
  | static => "static"
  | dynamic => "dynamic"
  | interface => "interface"

structure Method where
  name : Text
  descriptor : Text
  access : Access
  params : List JavaType
  /-- The type of the result, `void` if there is none. -/
  result : JavaType
  inVtable : Bool
  binding : Binding
  /-- The position in the vtable, its header included; negative for a method that is not in it. -/
  slot : Int := -1
  entity : Option EntityId := none
  ops : List Text := []
  deriving Repr, Inhabited

structure Field where
  name : Text
  descriptor : Text
  access : Access
  type : JavaType
  /-- The place of an instance field in its object, negative if it has none. -/
  offset : Int := -1
  entity : Option EntityId := none
  deriving Repr, Inhabited

/-- A method, named by its class and its position among the methods of that class. -/
structure MethodRef where
  owner : ClassId
  index : Nat
  deriving Repr, DecidableEq, BEq, Inhabited

structure Class where
  name : Text
  access : Access
  external : Bool
  super : Option ClassId := none
  interfaces : List ClassId := []
  methods : Array Method := #[]
  fields : Array Field := #[]
  «instance» : Option TypeId := none
  size : Int := 0
  align : Int := 0
  /-- The number of slots of the vtable, its header included. -/
  vtableSize : Int := 0
  /-- The methods in the vtable, in the order of their slots. -/
  vtable : Array MethodRef := #[]
  descriptor : Option EntityId := none
  vtableEntity : Option EntityId := none
  layoutFinal : Bool := false
  dispatchFinal : Bool := false
  deriving Repr, Inhabited

namespace Class

def isInterface (c : Class) : Bool := c.access.isInterface

def needsVtable (c : Class) : Bool := !c.isInterface

def supertypes (c : Class) : List ClassId := c.super.toList ++ c.interfaces

def methodIndex? (c : Class) (name descriptor : Text) : Option Nat :=
  c.methods.findIdx? fun m => m.name == name && m.descriptor == descriptor

def fieldIndex? (c : Class) (name : Text) : Option Nat := c.fields.findIdx? (·.name == name)

def staticFieldCount (c : Class) : Nat := (c.fields.filter (·.access.isStatic)).size

end Class

structure Registry where
  classes : Array Class := #[]
  byName : Std.HashMap Text ClassId := ∅

instance : Inhabited Registry := ⟨{}⟩

namespace Registry

def class? (r : Registry) (c : ClassId) : Option Class := r.classes[c]?

def find? (r : Registry) (name : Text) : Option ClassId := r.byName[name]?

def nameOf (r : Registry) (c : ClassId) : Text := ((r.class? c).map Class.name).getD []

def method? (r : Registry) (m : MethodRef) : Option Method := (r.class? m.owner).bind fun c => c.methods[m.index]?

def modifyClass (r : Registry) (c : ClassId) (f : Class → Class) : Registry :=
  { r with classes := r.classes.modify c f }

def modifyMethod (r : Registry) (m : MethodRef) (f : Method → Method) : Registry :=
  r.modifyClass m.owner fun c => { c with methods := c.methods.modify m.index f }

def modifyField (r : Registry) (c : ClassId) (i : Nat) (f : Field → Field) : Registry :=
  r.modifyClass c fun cls => { cls with fields := cls.fields.modify i f }

end Registry

end ClassAbi
