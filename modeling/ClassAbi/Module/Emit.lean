import ClassAbi.Module.Basic
import ClassAbi.Module.Body

/-!
# Writing a program

A program becomes a module: its defined data in the order in which it was made, its declarations in the order of their
names, and its routines.
-/

namespace ClassAbi.Module

namespace Source

def global (src : Source) (e : Entity) : Emitter Global := do
  if e.type = unknownType then Emitter.fail .untyped
  let (type, value) ← src.content e.type (e.init.getD .null)
  let natural ← fun known =>
    let (result, known) := src.layoutOf e.type known
    match result with
    | .ok l => (.ok l.align, known)
    | .error (.error _) => (.ok e.alignment, known)
    | .error .fault => (.error .fault, known)
  return {
    symbol := symbol src.target e
    isPrivate := e.visibility = .hidden
    isHidden := e.linkage.hiddenUser && e.visibility != .hidden
    isConstant := e.linkage.constant
    type, value
    isRegistered := e.segment = .registration
    align := max e.alignment natural }

def globals (src : Source) : Emitter (List Global) :=
  (src.program.entities.toList.filter fun e => e.visibility != .external && !src.program.isRoutine e).mapM fun e =>
    Emitter.within (.inGlobal e.label) (src.global e)

def declaration (src : Source) (e : Entity) : Declaration :=
  match src.program.types.signature? e.type with
  | some sig => .routine (symbol src.target e) (src.resultType sig) (sig.params.map src.valueType) sig.noReturn
  | none => .data (symbol src.target e)

def declarations (src : Source) : List Declaration :=
  let external := src.program.entities.toList.filter fun e => e.visibility = .external
  (external.mergeSort fun a b => Text.le a.label b.label).map src.declaration

def definition (src : Source) (e : Entity) (sig : Signature) : Emitter Definition := do
  return {
    symbol := symbol src.target e
    isPrivate := e.visibility = .hidden
    result := src.resultType sig
    params := sig.params.map src.valueType
    body := ← src.body sig e.body }

/-- The routines that are defined, with their signatures. -/
def routines (src : Source) : List (Entity × Signature) :=
  src.program.entities.toList.filterMap fun e =>
    match src.program.types.signature? e.type with
    | some sig => if e.visibility = .external then none else some (e, sig)
    | none => none

def definitions (src : Source) : Emitter (List Definition) :=
  src.routines.mapM fun (e, sig) => Emitter.within (.inRoutine e.label) (src.definition e sig)

def contents (src : Source) : Emitter Contents := do
  let globals ← src.globals
  let definitions ← src.definitions
  return {
    triple := src.target.triple
    globals
    declarations := src.declarations
    definitions
    used := (globals.filter Global.isRegistered).map Global.symbol }

end Source

end ClassAbi.Module

namespace ClassAbi.Program

def emit (p : Program) (target : Target) : Module.Emitter Text := do
  return (← Module.Source.contents ⟨p, target⟩).text

end ClassAbi.Program
