import ClassAbi.Module.Content
import ClassAbi.Module.Instruction

/-!
# Bodies of routines

Turns the nodes of a graph into instructions, one after the other. Constants, addresses and parameters are operands and
need no instruction. Every other value is held by a temporary, or it is the same as one that already has a name.
-/

namespace ClassAbi.Module

structure Frame where
  temps : Nat := 0
  /-- The operands that hold the values of nodes. -/
  values : Std.HashMap NodeId Operand := ∅
  /-- The instructions, the last one first. -/
  lines : List Instruction := []

instance : Inhabited Frame := ⟨{}⟩

namespace Frame

def line (f : Frame) (i : Instruction) : Frame := { f with lines := i :: f.lines }

def assign (f : Frame) (n : Node) (v : Operand) : Frame := { f with values := f.values.insert n.id v }

/-- Adds an instruction that defines a new temporary, which holds the value of a node. -/
def define (f : Frame) (n : Node) (i : Nat → Instruction) : Frame :=
  let dest := f.temps + 1
  ({ f with temps := dest }.line (i dest)).assign n (.temp dest)

end Frame

def predicate (relation : Relation) (mode : Mode) : Except EmitError Text :=
  match relation with
  | .equal => .ok "eq"
  | .unequal => .ok "ne"
  | .less => .ok (if mode.isSigned then "slt" else "ult" : String)
  | .greater => .ok (if mode.isSigned then "sgt" else "ugt" : String)
  | .other code => .error (.unknownRelation code)

/-- The body that a graph is written as, and what is needed to write it. -/
structure BodySource extends Source where
  graph : Graph

namespace BodySource

def node (src : BodySource) (id : NodeId) : Emitter Node := Emitter.need (src.graph.node? id)

def operand (src : BodySource) (f : Frame) (n : Node) : Emitter Operand :=
  match n.op with
  | .const => return .const (.word n.mode n.value src.pointerBits)
  | .address => do return .const (.symbol (← src.symbolOf n.entity))
  | .param => return .param n.value
  | _ =>
    match f.values[n.id]? with
    | some v => return v
    | none => Emitter.fail (.undefined (src.program.nodeText n))

def storageType (src : BodySource) (t : Option TypeId) : Emitter Ty :=
  match t.bind src.program.types.mode? with
  | some mode => return Ty.ofMode mode
  | none => do return Ty.bytes (← src.sizeOf t)

/-- Writes a call. Arguments have the types of the parameters, and further ones those of their modes. -/
def emitCall (src : BodySource) (f : Frame) (n : Node) (ops : List (Node × Operand)) : Emitter Frame :=
  match n.type.bind src.program.types.signature?, ops with
  | none, _ => Emitter.fail .callWithoutType
  | some _, [] => Emitter.fault
  | some sig, (_, callee) :: ops =>
    let args := ops.zipIdx.map fun ((arg, v), i) =>
      (match sig.params[i]? with
        | some t => src.valueType t
        | none => Ty.ofMode arg.mode, v)
    let call dest := Instruction.call dest (src.resultType sig) callee args
    return if sig.results.isEmpty then f.line (call none) else f.define n fun dest => call (some dest)

/-- Writes a conversion. A conversion between integers of one size gives the same value, and takes a number for a
temporary nevertheless. -/
def emitConv (src : BodySource) (f : Frame) (n source : Node) (v : Operand) : Emitter Frame :=
  let a := source.mode
  let b := n.mode
  let convert (c : Conversion) : Frame := f.define n fun dest => .convert dest c (Ty.ofMode a) v (Ty.ofMode b)
  if b = .bit then return f.define n fun dest => .compare dest "ne" (Ty.ofMode a) v (.const (.zero a))
  else if a = .bit then return convert .extendZero
  else if a = .pointer && b.isInt then return convert .pointerToInt
  else if b = .pointer && a.isInt then return convert .intToPointer
  else if a.isInt && b.isInt then
    let pointerSize := src.target.pointerSize
    if a.size pointerSize = b.size pointerSize then return { f with temps := f.temps + 1 }.assign n v
    else if b.size pointerSize < a.size pointerSize then return convert .truncate
    else if a.isSigned then return convert .extendSign
    else return convert .extendZero
  else Emitter.fail (.inconvertible a b)

def emitNode (src : BodySource) (f : Frame) (n : Node) : Emitter Frame := do
  if n.op = .const || n.op = .address || n.op = .param then return f
  let ops ← n.args.mapM fun id => do
    let arg ← src.node id
    return (arg, ← src.operand f arg)
  match n.op, ops with
  | .add, (_, a) :: (right, b) :: _ =>
    return f.define n fun dest =>
      if n.mode = .pointer then .shift dest a (Ty.ofMode right.mode) b else .add dest (Ty.ofMode n.mode) a b
  | .call, ops => src.emitCall f n ops
  | .load, (_, addr) :: _ => return f.define n fun dest => .load dest (Ty.ofMode n.mode) addr
  | .store, (_, addr) :: (val, v) :: _ => return f.line (.store (Ty.ofMode val.mode) v addr)
  | .alloc, _ =>
    match src.shape? n.type with
    | some (.array elem length) =>
      let elem ← src.storageType elem
      return f.define n fun dest => .alloc dest length elem
    | _ => Emitter.fail (.allocOf (src.typeText n.type))
  | .member, (_, base) :: _ =>
    return f.define n fun dest => .member dest base src.pointerBits n.value n.name
  | .sel, ops =>
    let elem ← src.storageType n.type
    match ops with
    | (_, base) :: (index, i) :: _ => return f.define n fun dest => .element dest elem base (Ty.ofMode index.mode) i
    | _ => Emitter.fault
  | .cmp, (left, a) :: rest =>
    match predicate n.relation left.mode, rest with
    | .error e, _ => Emitter.fail e
    | .ok p, (_, b) :: _ => return f.define n fun dest => .compare dest p (Ty.ofMode left.mode) a b
    | .ok _, [] => Emitter.fault
  | .conv, (source, v) :: _ => src.emitConv f n source v
  | .vptrIsSet, (_, object) :: _ => return (f.line (.remark object n.name)).assign n object
  | .other code, _ => Emitter.fail (.unsupported (Op.other code).name)
  | _, _ => Emitter.fault

def emitNodes (src : BodySource) : Emitter Frame :=
  src.graph.nodes.toList.foldlM (fun f n =>
    Emitter.within (.inNode (src.program.nodeText n)) (src.emitNode f n)) {}

end BodySource

namespace Source

/-- The instructions of a routine. One without a graph, or whose graph sets no result, returns the zero of its result
mode. -/
def body (src : Source) (sig : Signature) (graph : Option GraphId) : Emitter (List Instruction) := do
  let graph ← match graph with
    | none => pure none
    | some g => some <$> Emitter.need src.program.graphs[g]?
  let b : BodySource := { src with graph := graph.getD {} }
  let f ← b.emitNodes
  let type := src.resultType sig
  let last ←
    match type, b.graph.result with
    | .void, _ => pure (Instruction.ret none)
    | _, none => pure (.ret (some (type, .const (.zero (src.program.types.resultMode sig)))))
    | _, some id => do pure (.ret (some (type, ← b.operand f (← b.node id))))
  return (last :: f.lines).reverse

end Source

end ClassAbi.Module
