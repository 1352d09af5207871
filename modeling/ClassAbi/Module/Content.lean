import ClassAbi.Layout.Engine
import ClassAbi.Module.Constant
import ClassAbi.Module.Error
import ClassAbi.Module.Symbol

/-!
# The content of globals

Renders the content of a global as a constant of a type. A struct becomes a packed struct with padding up to the offset of
each member and up to its size, so its parts lie where the layout says. A union is written as one of its members, the
first with a content of its own.
-/

namespace ClassAbi.Module

structure Source where
  program : Program
  target : Target

abbrev Emitter := ExceptT (Failure EmitError) (StateM Layouts)

namespace Emitter

def fail {α : Type} (e : EmitError) : Emitter α := throw (.error e)

def fault {α : Type} : Emitter α := throw .fault

def need {α : Type} : Option α → Emitter α
  | some a => pure a
  | none => fault

def within {α : Type} (wrap : EmitError → EmitError) (step : Emitter α) : Emitter α := fun known =>
  let (result, known) := step known
  (Outcome.mapError wrap result, known)

end Emitter

namespace Source

def layoutOf (src : Source) (t : Option TypeId) : Emitter TypeLayout := do
  let t ← Emitter.need t
  fun known =>
    let (result, known) := Layout.layoutOf src.program.types src.target t known
    (Outcome.mapError EmitError.layout result, known)

def sizeOf (src : Source) (t : Option TypeId) : Emitter Int := do return (← src.layoutOf t).size

def pointerBits (src : Source) : Int := wrap (src.target.pointerSize * 8)

def symbolOf (src : Source) (e : Option EntityId) : Emitter Text := do
  return symbol src.target (← Emitter.need (e.bind src.program.entity?))

def typeText (src : Source) : Option TypeId → Text
  | none => TypeTable.absentText
  | some t => (src.program.types.text? t).getD TypeTable.faultyText

def valueType (src : Source) (t : Option TypeId) : Ty := Ty.ofMode (src.program.types.valueMode t)

def resultType (src : Source) (sig : Signature) : Ty := Ty.ofMode (src.program.types.resultMode sig)

def shape? (src : Source) (t : Option TypeId) : Option Shape := t.bind src.program.types.shape?

def zeroOf (src : Source) (t : Option TypeId) : Emitter (Ty × Const) :=
  match src.shape? t with
  | some (.primitive mode) => return (Ty.ofMode mode, .zero mode)
  | _ => do return (Ty.bytes (← src.sizeOf t), .zeroes)

def codeValue (src : Source) : Code → Emitter (Ty × Const)
  | .const mode v => return (Ty.ofMode mode, .word mode v src.pointerBits)
  | .address e => do return (.ptr, .symbol (← src.symbolOf e))
  | .add left right => do
    let (_, base) ← src.codeValue left
    let (type, offset) ← src.codeValue right
    if left.mode = .pointer then return (.ptr, .shifted base type offset)
    else return (Ty.ofMode left.mode, .sum type base offset)
  | .bare .const mode => return (Ty.ofMode mode, .word mode 0 src.pointerBits)
  | .bare .address _ | .bare .add _ => Emitter.fault
  | .bare op mode => Emitter.fail (.notConstant (op.name ++ "#0 " ++ mode.name))

end Source

/-- The parts of a packed struct up to a position, the last one first. -/
structure Packing where
  parts : List (Ty × Const)
  pos : Int
  deriving Repr, Inhabited

namespace Packing

def pad (p : Packing) (pos : Int) : Packing :=
  if pos ≤ p.pos then p else ⟨(Ty.bytes (wrap (pos - p.pos)), .zeroes) :: p.parts, pos⟩

def add (p : Packing) (part : Ty × Const) (size : Int) : Packing := ⟨part :: p.parts, wrap (p.pos + size)⟩

end Packing

def packed (parts : List (Ty × Const)) : Ty × Const := (.packed (parts.map Prod.fst), .packed parts)

/-- An array of the given elements, or a packed struct if they have different types. -/
def arrayOf (elems : List (Ty × Const)) : Ty × Const :=
  match elems with
  | [] => (Ty.bytes 0, .zeroes)
  | (type, _) :: rest =>
    if rest.all fun elem => elem.1 == type then (.array elems.length type, .array elems) else packed elems

/-- The member of a union that is written: the first one whose value is not null, or else the first one. Every member
looked at has to have a value. -/
def chosenMember (members : List Member) (values : List Init) : Option Nat :=
  search 0 members values
where
  /-- The choice among the members from position `i` on. -/
  search (i : Nat) : List Member → List Init → Option Nat
    | [], _ => some 0
    | _ :: _, [] => none
    | _ :: members, v :: values => if v.isNull then search (i + 1) members values else some i

namespace Source

/-- The bytes that a value takes for a member. An array without a length takes its extent from the value. -/
def memberSize (src : Source) (t : Option TypeId) (v : Init) : Emitter Int :=
  match src.shape? t, v with
  | some (.array elem length), .compound values =>
    if length < 0 then do return wrap ((← src.sizeOf elem) * values.length) else src.sizeOf t
  | some (.array _ length), _ => if length < 0 then return 0 else src.sizeOf t
  | _, _ => src.sizeOf t

mutual

def content (src : Source) (t : Option TypeId) : Init → Emitter (Ty × Const)
  | .null => src.zeroOf t
  | .word mode v =>
    let mode := (t.bind src.program.types.mode?).getD mode
    return (Ty.ofMode mode, .word mode v src.pointerBits)
  | .code code => src.codeValue code
  | .compound values =>
    match src.shape? t with
    | some (.struct _ members) => do
      let l ← src.layoutOf t
      let p ← src.structParts members (l.places.getD []) ⟨[], 0⟩ values
      return packed (p.pad l.size).parts.reverse
    | some (.union _ members) => do
      let size ← src.sizeOf t
      let chosen ← Emitter.need (chosenMember members values)
      let m ← Emitter.need members[chosen]?
      let value ← src.memberValue m chosen values
      let p := Packing.add ⟨[], 0⟩ value (← src.sizeOf m.type)
      return packed (p.pad size).parts.reverse
    | some (.array elem _) => do return arrayOf (← src.elements elem 0 [] values)
    | _ => Emitter.fail (.compoundFor (src.typeText t))

def structParts (src : Source) (members : List Member) (places : List Place) (p : Packing) : List Init → Emitter Packing
  | [] => if members.isEmpty then return p else Emitter.fault
  | v :: values =>
    match members, places with
    | [], _ => return p
    | _ :: _, [] => Emitter.fault
    | m :: members, place :: places => do
      let p := p.pad place.offset
      let value ← Emitter.within (.inMember m.name) (src.content m.type v)
      let p := p.add value (← src.memberSize m.type v)
      src.structParts members places p values

def memberValue (src : Source) (m : Member) (i : Nat) : List Init → Emitter (Ty × Const)
  | [] => Emitter.fault
  | v :: values =>
    match i with
    | 0 => Emitter.within (.inMember m.name) (src.content m.type v)
    | i + 1 => src.memberValue m i values

/-- The elements of an array, after those in `before`, of which the last one comes first. -/
def elements (src : Source) (elem : Option TypeId) (i : Nat) (before : List (Ty × Const)) :
    List Init → Emitter (List (Ty × Const))
  | [] => return before.reverse
  | v :: values => do
    let value ← Emitter.within (.inElement i) (src.content elem v)
    src.elements elem (i + 1) (value :: before) values

end

end Source

end ClassAbi.Module
