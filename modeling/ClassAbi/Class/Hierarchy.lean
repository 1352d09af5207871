import Std.Data.HashSet
import ClassAbi.Class.Basic
import ClassAbi.Class.Error
import ClassAbi.Descent

/-!
# The class hierarchy

Lists the classes so that every class comes after its supertypes, and searches supertypes for methods.
-/

namespace ClassAbi

/-- Classes in an order in which each one comes after its supertypes. -/
structure Sorted where
  /-- The classes, the last one first. -/
  order : List ClassId := []
  members : Std.HashSet ClassId := ∅

def Sorted.push (s : Sorted) (c : ClassId) : Sorted := ⟨c :: s.order, s.members.insert c⟩

namespace Registry

/-- Adds a class and the supertypes that are still missing, where `path` leads from a class to its supertype `c`, the
nearest one first. -/
def sortFrom (r : Registry) (path : List ClassId) (c : ClassId) (s : Sorted) : Except ClassError Sorted :=
  if s.members.contains c then .ok s
  else if onPath : c ∈ path then .error (.cyclic ((c :: path).reverse.map r.nameOf))
  else if bound : c < r.classes.size then do
    let s ← r.classes[c].supertypes.foldlM (fun s super => r.sortFrom (c :: path) super s) s
    return s.push c
  else .ok s
termination_by unvisited r.classes.size path
decreasing_by exact unvisited_cons_lt bound onPath

def superToSub (r : Registry) : Except ClassError (List ClassId) := do
  let s ← (List.range r.classes.size).foldlM (fun s c => r.sortFrom [] c s) {}
  return s.order.reverse

/-- The method with a name and a descriptor that a class or else a supertype declares, where `path` leads to the class. -/
def lookupFrom (r : Registry) (path : List ClassId) (c : ClassId) (name descriptor : Text) : Option MethodRef :=
  if onPath : c ∈ path then none
  else if bound : c < r.classes.size then
    match r.classes[c].methodIndex? name descriptor with
    | some i => some ⟨c, i⟩
    | none => r.classes[c].supertypes.findSome? fun super => r.lookupFrom (c :: path) super name descriptor
  else none
termination_by unvisited r.classes.size path
decreasing_by exact unvisited_cons_lt bound onPath

def lookupMethod (r : Registry) (c : ClassId) (name descriptor : Text) : Option MethodRef :=
  r.lookupFrom [] c name descriptor

end Registry

end ClassAbi
