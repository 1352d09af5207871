import Std.Data.HashMap
import ClassAbi.Graph.Basic
import ClassAbi.Text.Quoted

/-!
# Programs

A program owns the types, the global entities and the graphs of one compilation. Entities stand in the order in which they
were made, and no two have the same linker name, unless it is empty.
-/

namespace ClassAbi

abbrev GraphId := Nat

/-- Where an entity is defined, and who can see it. -/
inductive Visibility where
  /-- Defined here, and exported. -/
  | exported
  /-- Declared here, and defined elsewhere. -/
  | external
  /-- Defined here, and not exported. -/
  | hidden
  /-- A code without a meaning, taken as defined here and exported. -/
  | other (code : Nat)
  deriving Repr, DecidableEq, BEq, Inhabited

namespace Visibility

def ofCode : Nat → Visibility
  | 0 => exported
  | 1 => external
  | 2 => hidden
  | n => other n

def code : Visibility → Nat
  | exported => 0
  | external => 1
  | hidden => 2
  | other n => n

end Visibility

/-- Further properties for the linker. -/
structure Linkage where
  constant : Bool := false
  hiddenUser : Bool := false
  others : Nat := 0
  deriving Repr, DecidableEq, BEq, Inhabited

def Linkage.ofCode (n : Nat) : Linkage := ⟨n % 2 = 1, n / 2 % 2 = 1, n / 4⟩

def Linkage.code (l : Linkage) : Nat := l.constant.toNat + 2 * l.hiddenUser.toNat + 4 * l.others

/-- The section of an entity. -/
inductive Segment where
  | data
  /-- The list of the classes to register when the image is loaded. -/
  | registration
  /-- A code without a meaning, taken as that of data. -/
  | other (code : Nat)
  deriving Repr, DecidableEq, BEq, Inhabited

namespace Segment

def ofCode : Nat → Segment
  | 0 => data
  | 1 => registration
  | n => other n

def code : Segment → Nat
  | data => 0
  | registration => 1
  | other n => n

end Segment

structure Entity where
  name : Text
  ld : Text
  type : TypeId
  visibility : Visibility := .exported
  linkage : Linkage := {}
  segment : Segment := .data
  alignment : Int := 0
  init : Option Init := none
  body : Option GraphId := none
  deriving Repr, Inhabited

def Entity.label (e : Entity) : Text := if e.ld.isEmpty then e.name else e.ld

/-- A linker name that another entity has. -/
structure DuplicateName where
  ld : Text
  deriving Repr, DecidableEq, BEq

def DuplicateName.message (e : DuplicateName) : Text := "duplicate linker name " ++ e.ld.quote

structure Program where
  types : TypeTable := .initial
  entities : Array Entity := #[]
  byName : Std.HashMap Text EntityId := ∅
  /-- How many names have been made with each tag. -/
  made : Std.HashMap Text Nat := ∅
  graphs : Array Graph := #[]

instance : Inhabited Program := ⟨{}⟩

namespace Program

def entity? (p : Program) (e : EntityId) : Option Entity := p.entities[e]?

def lookup (p : Program) (ld : Text) : Option EntityId := p.byName[ld]?

/-- Adds an entity that is not yet in use. Its type is the unknown type if none is given. -/
def addEntity (p : Program) (name ld : Text) (type : Option TypeId) : Except DuplicateName EntityId × Program :=
  if !ld.isEmpty && p.byName.contains ld then (.error ⟨ld⟩, p)
  else
    let id := p.entities.size
    (.ok id, { p with
      entities := p.entities.push { name, ld, type := type.getD unknownType }
      byName := if ld.isEmpty then p.byName else p.byName.insert ld id })

def modifyEntity (p : Program) (e : EntityId) (f : Entity → Entity) : Program :=
  { p with entities := p.entities.modify e f }

/-- The tag followed by a number that it was not followed by before. -/
def uniqueName (p : Program) (tag : Text) : Text × Program :=
  let n := p.made.getD tag 0
  (tag ++ "." ++ Text.ofNat n, { p with made := p.made.insert tag (n + 1) })

def addType (p : Program) (shape : Shape) : TypeId × Program :=
  let (t, types) := p.types.push shape
  (t, { p with types })

def isRoutine (p : Program) (e : Entity) : Bool := (p.types.signature? e.type).isSome

def routines (p : Program) : List (EntityId × Entity) :=
  (p.entities.toList.zipIdx.map fun (e, i) => (i, e)).filter fun (_, e) => p.isRoutine e

def addGraph (p : Program) (e : Option EntityId) : GraphId × Program :=
  let id := p.graphs.size
  let p := { p with graphs := p.graphs.push { entity := e } }
  (id, match e with
    | some e => p.modifyEntity e fun ent => { ent with body := some id }
    | none => p)

def build {α : Type} (p : Program) (g : GraphId) (step : Graph.Builder α) : α × Program :=
  let graph := (p.graphs[g]?).getD {}
  -- The graph leaves the program while it is extended, so that it is extended in place.
  let p := { p with graphs := p.graphs.setIfInBounds g {} }
  let (a, graph) := step graph
  (a, { p with graphs := p.graphs.setIfInBounds g graph })

def label? (p : Program) (e : Option EntityId) : Option Text := (e.bind p.entity?).map Entity.label

def nodeText (p : Program) (n : Node) : Text :=
  match n.op with
  | .const => "Const " ++ n.mode.name ++ " " ++ Text.ofInt n.value
  | .address => "Address " ++ (p.label? n.entity).getD "<nil>"
  | op => op.name ++ "#" ++ Text.ofNat n.id ++ " " ++ n.mode.name

end Program

end ClassAbi
