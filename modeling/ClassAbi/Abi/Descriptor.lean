import ClassAbi.Abi.Vtable

/-!
# Class descriptors

The descriptor of a class refers to its name, its superclass, the tables of its members and its vtable. The runtime fills
in the other members when it links the class.
-/

namespace ClassAbi.Abi

open ClassAbi.Action

def classVersion : Int := 407000

def loadedState : Int := 1

def descriptorAlignment : Int := 32

/-- The descriptor of the superclass. The first supertype counts as the superclass, and must not be an interface. -/
def superDescriptor (cls : Class) : Action (Option EntityId) := do
  match cls.supertypes with
  | [] => return none
  | s :: _ =>
    let super ← class' s
    if super.isInterface then
      onTrace fun t =>
        ((), t.point .cls ("rtti:" ++ cls.name) ("first supertype " ++ super.name ++ " is an interface") 0)
      refuse cls.name (.firstSupertypeInterface super.name)
    match super.descriptor with
    | none => refuse cls.name (.superWithoutDescriptor super.name)
    | some e => return some e

def checkSigned (bits : Nat) (cls : Text) (v : Int) (cause : AbiCause) : Action Unit :=
  if v < -(1 <<< (bits - 1) : Nat) || ((1 <<< (bits - 1) : Nat) : Int) ≤ v then refuse cls cause else pure ()

def checkCount (cls : Text) (member : ClassMember) (v : Int) : Action Unit :=
  checkSigned 16 cls v (.countOverflow member.label v)

def register (descriptor : EntityId) : Action EntityId := do
  let name ← onProgram (·.uniqueName "jcr_ptr")
  let e ← newEntity name [] (some Mode.pointer.typeId)
  modifyEntity e fun ent =>
    { ent with
      visibility := .hidden
      linkage := { constant := true, hiddenUser := true }
      segment := .registration
      alignment := 1
      init := some (.ofEntity descriptor) }
  return e

def headerMembers : Action Nat := do
  let object ← class' (← session).root
  match (← get).program.types.shape? (← need object.instance) with
  | some (.struct _ members) => return members.length
  | _ => fault

def describe (c : ClassId) (cls : Class) (descriptor : EntityId) : Action BuiltClass := do
  let classCls ← match (← registry).find? classClass with
    | none => refuse classClass .noClassVtable
    | some k => class' k
  if classCls.vtableEntity.isNone then refuse classClass .noClassVtable
  let name ← internDotted cls.name
  let methods ← methodTable cls
  let fields ← fieldTable cls
  let interfaces ← interfaceTable cls
  let super ← superDescriptor cls
  checkCount cls.name .methodCount cls.methods.size
  checkCount cls.name .fieldCount cls.fields.size
  checkCount cls.name .staticFieldCount cls.staticFieldCount
  checkCount cls.name .interfaceCount cls.interfaces.length
  let vtableMethods := if cls.needsVtable then cls.vtableSize - (headerSlots - vptrSlot) else 0
  checkCount cls.name .vtableMethodCount vtableMethods
  checkSigned 32 cls.name cls.size (.instanceSizeOverflow cls.size)
  let classVptr := ((← vptrValue classCls).map Init.code).getD .null
  let vptr := ((← vptrValue cls).map Init.code).getD .null
  let header := Init.compound (classVptr :: List.replicate ((← headerMembers) - 1) .null)
  let member : ClassMember → Init
    | .base => header
    | .nextOrVersion => .word .pointer classVersion
    | .name => .ofEntity name.entity
    | .accessFlags => .word .uint16 cls.access.bits.toNat
    | .superclass => .ofEntity super
    | .methods => .ofEntity methods
    | .methodCount => .word .int16 cls.methods.size
    | .vtableMethodCount => .word .int16 vtableMethods
    | .fields => .ofEntity fields
    | .sizeInBytes => .word .int32 cls.size
    | .fieldCount => .word .int16 cls.fields.size
    | .staticFieldCount => .word .int16 cls.staticFieldCount
    | .vtable => vptr
    | .interfaces => .ofEntity interfaces
    | .interfaceCount => .word .int16 cls.interfaces.length
    | .state => .word .int8 loadedState
    | _ => .null
  let members := ClassMember.all.map member
  let type := (← session).types.cls
  modifyEntity descriptor fun e =>
    { e with type, init := some (.compound members), alignment := descriptorAlignment }
  let registration ← if (← session).registers then some <$> register descriptor else pure none
  let built : BuiltClass := ⟨descriptor, members, methods, fields, interfaces, registration⟩
  modifySession fun s => { s with built := s.built.insert c built }
  return built

/-- Runs an action inside a span of the trace. If it succeeds, the end of the span has the annotations of the result. -/
def withSpan {α : Type} (scope : Trace.Scope) (name : Text) (parent : Nat) (extra : List (Text × Text))
    (action : Trace.Span → Action α) : Action α := do
  let span ← onTrace (·.begin scope name parent)
  fun w =>
    let (result, w) := action span w
    let span := match result with
      | .ok _ => extra.foldl (fun span (key, value) => span.withExtra key value) span
      | .error _ => span
    (result, { w with trace := w.trace.finish span [] })

/-- Builds the descriptor of a class, which must have its layout and its slots. A class is built once. -/
def buildDescriptor (c : ClassId) : Action BuiltClass := do
  let cls ← class' c
  checkOpen cls.name
  match (← session).built[c]? with
  | some built => return built
  | none =>
    if cls.external then refuse cls.name .runtimeClass
    if !cls.layoutFinal || !cls.dispatchFinal then refuse cls.name .notLaidOut
    match cls.descriptor with
    | none => refuse cls.name .descriptorNotDeclared
    | some descriptor =>
      let extra : List (Text × Text) :=
        [("methods", Text.ofNat cls.methods.size), ("fields", Text.ofNat cls.fields.size)]
      withSpan .cls ("rtti:" ++ cls.name) 0 extra fun _ => describe c cls descriptor

end ClassAbi.Abi
