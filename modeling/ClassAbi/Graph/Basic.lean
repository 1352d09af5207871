import ClassAbi.Program.Constant
import ClassAbi.Type.Basic

/-!
# Graphs

The body of a routine is a single block of nodes in the order in which they were made. Nodes with an effect form a chain:
each refers to the one before it as the memory state that it finds. Nodes refer to each other by number, and the first
node of a graph has number 1.
-/

namespace ClassAbi

abbrev NodeId := Nat

structure Node where
  id : NodeId := 0
  op : Op
  mode : Mode
  args : List NodeId := []
  /-- The memory state before a node with an effect. -/
  mem : Option NodeId := none
  entity : Option EntityId := none
  type : Option TypeId := none
  value : Int := 0
  relation : Relation := .other 0
  name : Text := []
  deriving Repr, DecidableEq, BEq, Inhabited

structure Graph where
  entity : Option EntityId := none
  nodes : Array Node := #[]
  /-- Nodes that are not part of the body, but that others may name. -/
  loose : List Node := []
  mem : Option NodeId := none
  /-- The parameters that are in use, each with its position. -/
  params : List (Int × Node) := []
  numbered : Nat := 0
  result : Option NodeId := none
  returns : Bool := false
  deriving Repr, Inhabited

namespace Graph

abbrev Builder := StateM Graph

/-- The node with a number. Unless nodes were put in by hand it stands at the position before that. -/
def node? (g : Graph) (id : NodeId) : Option Node :=
  match g.nodes[id - 1]? with
  | some n => if n.id = id then some n else search
  | none => search
where
  search : Option Node := g.nodes.find? (·.id == id) <|> g.loose.find? (·.id == id)

def add (n : Node) : Builder Node := fun g =>
  let n := { n with id := g.numbered + 1 }
  (n, { g with nodes := g.nodes.push n, numbered := g.numbered + 1 })

/-- Adds a node with an effect: it takes the current memory state and becomes the next one. -/
def effect (n : Node) : Builder Node := do
  let g ← get
  let n ← add { n with mem := g.mem }
  modify fun g => { g with mem := some n.id }
  return n

/-- The parameter at a position. It is made when it is first asked for, and has the mode of that time. -/
def param (i : Int) (mode : Mode) : Builder Node := do
  match (← get).params.lookup i with
  | some n => return n
  | none =>
    let n ← add { op := .param, mode, value := i }
    modify fun g => { g with params := (i, n) :: g.params }
    return n

def const (mode : Mode) (v : Int) : Builder Node := add { op := .const, mode, value := v }

def null : Builder Node := const .pointer 0

def address (e : Option EntityId) : Builder Node := add { op := .address, mode := .pointer, entity := e }

def sum (left right : Node) : Builder Node := add { op := .add, mode := left.mode, args := [left.id, right.id] }

/-- A call of `callee`, a routine of type `type` whose result has mode `mode`. -/
def call (callee : Node) (type : TypeId) (mode : Mode) (args : List Node) : Builder Node :=
  effect { op := .call, mode, type := some type, args := callee.id :: args.map Node.id }

def load (addr : Node) (mode : Mode) : Builder Node := effect { op := .load, mode, args := [addr.id] }

def store (addr val : Node) : Builder Node :=
  effect { op := .store, mode := .void, type := some val.mode.typeId, args := [addr.id, val.id] }

def alloc (type : TypeId) (count : Int) : Builder Node :=
  effect { op := .alloc, mode := .pointer, type := some type, value := count }

def member (ptr : Node) (name : Text) (offset : Int) : Builder Node :=
  add { op := .member, mode := .pointer, name, value := offset, args := [ptr.id] }

def sel (ptr index : Node) (elem : Option TypeId) : Builder Node :=
  add { op := .sel, mode := .pointer, type := elem, args := [ptr.id, index.id] }

/-- The value in another mode. Nothing is added if it has that mode. -/
def conv (v : Node) (mode : Mode) : Builder Node :=
  if v.mode = mode then return v else add { op := .conv, mode, args := [v.id] }

def cmp (left right : Node) (relation : Relation) : Builder Node :=
  add { op := .cmp, mode := .bit, relation, args := [left.id, right.id] }

/-- States that the object `ptr` is of class `cls`, with the given reference to its vtable unless only the runtime knows
it. -/
def vptrIsSet (ptr : Node) (cls : Text) (vptr : Option Node) : Builder Node :=
  effect { op := .vptrIsSet, mode := .pointer, name := cls, args := ptr.id :: (vptr.map Node.id).toList }

def ret (v : Option Node) : Builder Unit :=
  modify fun g => { g with result := v.map Node.id, returns := true }

def calls (g : Graph) : List Node := g.nodes.toList.filter (·.op == .call)

def callee? (g : Graph) (n : Node) : Option EntityId := do
  guard (n.op = .call)
  let callee ← g.node? (← n.args.head?)
  guard (callee.op = .address)
  callee.entity

def callArgs (n : Node) : List NodeId := if n.op = .call then n.args.tail else []

/-- At most `limit` memory states, from `state` back to the first one. -/
def statesFrom (g : Graph) : (limit : Nat) → (state : Option NodeId) → List NodeId
  | 0, _ => []
  | _, none => []
  | limit + 1, some id => id :: g.statesFrom limit ((g.node? id).bind Node.mem)

/-- The nodes with an effect, from the first to the current memory state. -/
def memoryChain (g : Graph) : List NodeId := (g.statesFrom g.nodes.size g.mem).reverse

end Graph

end ClassAbi
