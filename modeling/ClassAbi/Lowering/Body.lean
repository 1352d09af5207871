import ClassAbi.Abi.Descriptor
import ClassAbi.Abi.Dynamic
import ClassAbi.Class.Members
import ClassAbi.Lowering.Op

/-!
# Bodies of methods

Turns the operations of a method into a graph. The result of the method is the last value, if that has the right mode or
can be converted to it, and zero otherwise.
-/

namespace ClassAbi.Lowering

open ClassAbi.Action

def referenceParam (g : GraphId) (e : EntityId) : Action Node := do
  let p := (← get).program
  let ent ← need (p.entity? e)
  match p.types.signature? ent.type with
  | none => fail (.operation (.notRoutine ent.label))
  | some sig =>
    match sig.params.findIdx? fun t => (t.bind p.types.mode?) == some .pointer with
    | none => fail (.operation .noReference)
    | some i => onGraph g (Graph.param i .pointer)

def interfaceMethod (c : ClassId) (name descriptor : Text) : Action Method := do
  let r ← registry
  match r.lookupMethod c name descriptor with
  | none => fail (.operation (.noMethod (r.nameOf c) name descriptor))
  | some m => need (r.method? m)

/-- The code of an operation in the body `g` of the routine `e`. It gives the new last value, if that changes. -/
def lower (g : GraphId) (e : EntityId) (op : Operation) : Action (Option Node) := do
  let r ← registry
  match op with
  | .new cls =>
    let c ← ofExcept .cls (r.resolve cls)
    some <$> Abi.allocateObject g c
  | .newArray elem count =>
    let t ← ofExcept .cls (r.typeNamed elem)
    let count ← onGraph g (Graph.const .int32 count)
    some <$> Abi.allocateArray g t count
  | .multiNewArray type sizes =>
    let t ← ofExcept .cls (r.typeNamed type)
    if t.dimensions < sizes.length then fail (.operation (.fewDimensions type sizes.length))
    let sizes ← sizes.mapM fun n => onGraph g (Graph.const .int32 n)
    some <$> Abi.newMultiArray g t sizes
  | .instanceOf type =>
    let t ← ofExcept .cls (r.typeNamed type)
    let object ← referenceParam g e
    some <$> Abi.instanceOf g object t
  | .checkCast type =>
    let t ← ofExcept .cls (r.typeNamed type)
    let object ← referenceParam g e
    Abi.checkCast g t object
    return some object
  | .invokeInterface cls name descriptor =>
    let c ← ofExcept .cls (r.resolve cls)
    let m ← interfaceMethod c name descriptor
    let object ← referenceParam g e
    let code ← Abi.lookupInterface g object (← class' c) m
    let type ← newType (.routine m.signature)
    let mode := (← get).program.types.resultMode m.signature
    onGraph g do
      let args ← m.params.mapM fun p => Graph.const p.mode 0
      return some (← Graph.call code type mode (object :: args))
  | .initClass cls =>
    let c ← ofExcept .cls (r.resolve cls)
    Abi.initClass g c
    return none
  | .literal text => some <$> Abi.newString g text
  | .arrayLength =>
    let object ← referenceParam g e
    some <$> Abi.arrayLength g object

def finish (result : JavaType) (last : Option Node) : Graph.Builder Unit :=
  if result = .void then Graph.ret none
  else do
    let mode := result.mode
    let value ← match last with
      | some v =>
        if v.mode = mode then pure v
        else if v.mode = .bit && mode.isInt then Graph.conv v mode
        else Graph.const mode 0
      | none => Graph.const mode 0
    Graph.ret (some value)

/-- Builds the code of the operations from position `i` on. Each one is noted in the trace, inside the span `span`, if
`traced` is set. -/
def lowerAll (g : GraphId) (e : EntityId) (method : Text) (traced : Bool) (span : Nat) :
    (i : Nat) → (last : Option Node) → List Text → Action (Option Node)
  | _, last, [] => return last
  | i, last, source :: sources => do
    let op ← ofExcept (fun cause => .inOperation method i source (.operation cause)) (Operation.ofText source)
    let value ← fun w =>
      let (result, w) := lower g e op w
      (Outcome.mapError (Error.inOperation method i source) result, w)
    if traced then onTrace fun t => ((), t.point .node ("op:" ++ op.mnemonic) source span)
    lowerAll g e method traced span (i + 1) (value <|> last) sources

def lowerBody (m : Method) (e : EntityId) (method : Text) (traced : Bool) (span : Nat) : Action GraphId := do
  let g ← onProgram (·.addGraph (some e))
  let last ← lowerAll g e method traced span 0 none m.ops
  onGraph g (finish m.result last)
  return g

/-- Builds the body of a method. With `parent`, that is noted in the trace inside the given span. -/
def lowerMethod (ref : MethodRef) (parent : Option Nat) : Action GraphId := do
  let cls ← class' ref.owner
  let m ← need cls.methods[ref.index]?
  match m.entity with
  | none => fail (.noEntity cls.name m.name)
  | some e =>
    let method := cls.name ++ "." ++ m.name ++ m.descriptor
    match parent with
    | none => lowerBody m e method false 0
    | some parent =>
      Abi.withSpan .cls ("lower:" ++ method) parent [("ops", Text.ofNat m.ops.length)] fun span =>
        lowerBody m e method true span.id

/-- Builds the bodies of the methods in `refs` that are not only declared, and gives their number. If the compilation has
been cancelled, none is built. An error comes with the number of the bodies built before it. -/
def lowerMethods (cancelled : Bool) (parent : Option Nat) : (count : Nat) → List MethodRef → Action (Nat × Option (Failure Error))
  | count, [] => return (count, none)
  | count, ref :: refs => do
    if cancelled then return (count, some (.error .cancelled))
    let m ← need ((← registry).method? ref)
    let declared ← match m.entity with
      | none => pure true
      | some e => do pure ((← need ((← get).program.entity? e)).visibility == .external)
    if declared then lowerMethods cancelled parent count refs
    else
      let result ← fun w =>
        let (result, w) := lowerMethod ref parent w
        (.ok result, w)
      match result with
      | .ok _ => lowerMethods cancelled parent (count + 1) refs
      | .error failure => return (count, some failure)

def lowerProgram (cancelled : Bool) (parent : Option Nat) : Action (Nat × Option (Failure Error)) := do
  let classes := (← registry).classes.toList.zipIdx.filter fun (cls, _) => !cls.external
  let refs := classes.flatMap fun (cls, c) => (List.range cls.methods.size).map fun i => (⟨c, i⟩ : MethodRef)
  lowerMethods cancelled parent 0 refs

end ClassAbi.Lowering
