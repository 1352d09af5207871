import ClassAbi.Compile.Run
import ClassAbi.Proofs.Reach.Index
import ClassAbi.Proofs.Trace.Nesting

/-!
# Actions and their spans

Whatever an action on the workspace does, and even if it fails half way, what it adds to the trace are points and spans that
have been ended again. Only the descriptors, the vtables and the bodies are traced at all.
-/

namespace ClassAbi

variable {α : Type}

/-- Whether points and whole spans lead from the trace of one workspace to that of another. -/
def Workspace.Nests (w w' : Workspace) : Prop := w.trace.Nests w'.trace

namespace Action

abbrev Nested (x : Action α) : Prop := Works Workspace.Nests x

theorem Works.nests {x : Action α} (h : Nested x) (w : Workspace) : w.trace.Nests (x w).2.trace :=
  keep_along (P := fun w' : Workspace => w.trace.Nests w'.trace) (fun _ _ h hstep => h.trans hstep) (h.changes w) (.refl _)

theorem Works.of_trace_eq {x : Action α} (h : ∀ w, (x w).2.trace = w.trace) : Nested x := by
  refine .of_step fun w => ?_
  rw [Workspace.Nests, h w]
  exact .refl w.trace

instance (g : Program → α × Program) : Nested (onProgram g) := .of_trace_eq fun _ => rfl

instance (g : Registry → Registry) : Nested (onRegistry g) := .of_trace_eq fun _ => rfl

instance (r : Registry) : Nested (modify fun w => { w with registry := r }) := .of_trace_eq fun _ => rfl

instance (s : Option Session) : Nested (modify fun w => { w with session := s }) := .of_trace_eq fun _ => rfl

instance (shape : Shape) : Nested (newType shape) := inferInstanceAs (Nested (onProgram _))

instance (e : EntityId) (g : Entity → Entity) : Nested (modifyEntity e g) := inferInstanceAs (Nested (onProgram _))

instance (name ld : Text) (t : Option TypeId) : Nested (newEntity name ld t) := inferInstanceAs (Nested (_ >>= _))

instance (t : Option TypeId) : Nested (layoutOf t) := .bind fun _ => .of_trace_eq fun _ => rfl

instance (scope : Trace.Scope) (name detail : Text) (parent : Nat) :
    Nested (onTrace fun t => ((), t.point scope name detail parent)) :=
  .of_step fun w => w.trace.nests_point scope name detail parent

end Action

section

open ClassAbi.Action

-- The terms that combine the instances grow with the action.
set_option synthInstance.maxSize 2000

/-! ### Classes -/

namespace Class

instance (cls : Class) : Nested (firstMember cls) := by
  unfold firstMember
  split <;> infer_instance

instance : Nested layOutAll := by
  unfold layOutAll layOut
  dsimp only
  infer_instance

instance (cls : Class) : Nested (inheritedSlots cls) := by
  unfold inheritedSlots
  split <;> infer_instance

instance : Nested assignAllSlots := by
  unfold assignAllSlots assignSlots fillSlots
  dsimp only
  infer_instance

instance : Nested createAllMembers := by
  unfold createAllMembers createMembers createRoutine createStorage
  dsimp only
  infer_instance

end Class

namespace Manifest

instance (path cls : Text) (cause : ManifestCause) : Nested (complain path cls cause : Action α) := by
  unfold complain
  infer_instance

instance (path cls : Text) (words : List Text) : Nested (accessOf path cls words) := by
  unfold accessOf
  split <;> infer_instance

instance (path cls name : Text) : Nested (classNamed path cls name) := by
  refine .bind fun r => ?_
  split <;> infer_instance

instance (path : Text) (spec : ClassSpec) : Nested (declareSpec path spec) := by
  have hdeclare : ∀ (r : Registry) (access : Access), Nested (match r.declare spec.name access spec.external with
      | .error _ => complain path spec.name (.missing "valid internal name")
      | .ok (cls, registry) => do
        modify fun w => { w with registry }
        return (⟨path, spec, cls⟩ : Pending)) := by
    intro r access
    split <;> infer_instance
  unfold declareSpec
  dsimp only
  infer_instance

instance {path cls descriptor : Text} {x : Action Unit} [h : Nested x] : Nested (describing path cls descriptor x) := ⟨h.changes⟩

instance (p : Pending) : Nested (link p) := by
  unfold link
  split <;> infer_instance

instance (ms : List Manifest) : Nested (populate ms) := by
  unfold populate addMembers Class.addField Class.addMethod
  dsimp only
  infer_instance

end Manifest

/-! ### The session -/

namespace Abi

instance (f : Session → Session) : Nested (modifySession f) := .of_trace_eq fun _ => rfl

instance (cls : Text) : Nested (checkOpen cls) := by
  unfold checkOpen
  infer_instance

instance (header : Option TypeId) : Nested (arrayModel header) := by
  refine .bind fun t => .bind fun l => ?_
  split <;> infer_instance

instance (header : Option TypeId) : Nested (recordTypes header) := by
  unfold recordTypes
  infer_instance

instance (ld : Text) (t : TypeId) : Nested (declareExternal ld t) := by
  unfold declareExternal
  dsimp only
  infer_instance

instance (h : Helper) : Nested (declareHelper h) := by
  unfold declareHelper
  infer_instance

instance (p : Primitive) : Nested (declarePrimitive p) := by
  unfold declarePrimitive
  infer_instance

instance (c : ClassId) : Nested (declareClass c) := by
  unfold declareClass
  dsimp only
  infer_instance

instance (registers : Bool) : Nested (start registers) := by
  refine .bind fun r => ?_
  dsimp only
  split <;> infer_instance

instance (text : Text) : Nested (intern text) := by
  refine .bind fun _ => .bind fun s => ?_
  split
  · infer_instance
  · exact .check inferInstance

instance (name : Text) : Nested (internDotted name) := inferInstanceAs (Nested (intern _))

instance (m : Method) : Nested (codeOf m) := by
  unfold codeOf
  infer_instance

instance (t : JavaType) : Nested (typeSignature t) := by
  refine .bind fun _ => ?_
  split <;> infer_instance

instance (tag : Text) (elem : TypeId) (length : Nat) (values : List Init) : Nested (newTable tag elem length values) := by
  unfold newTable
  infer_instance

instance (cls : Text) (m : Method) : Nested (methodRecord cls m) := .bind fun _ => .bind fun _ => .check inferInstance

instance (cls : Class) : Nested (methodTable cls) := by
  unfold methodTable
  infer_instance

instance (cls : Text) (f : Field) : Nested (fieldPlace cls f) := by
  unfold fieldPlace
  split_ifs
  · split <;> infer_instance
  · infer_instance
  · infer_instance

instance (cls : Text) (f : Field) : Nested (fieldRecord cls f) := by
  refine .bind fun name => .bind fun known => ?_
  dsimp only
  split <;> infer_instance

instance (cls : Class) : Nested (fieldTable cls) := by
  unfold fieldTable
  infer_instance

instance (cls : Class) : Nested (interfaceTable cls) := by
  have hreference : ∀ iface : Class, Nested (match iface.descriptor with
      | none => refuse cls.name (.interfaceWithoutDescriptor iface.name)
      | some e => return Init.ofEntity (some e)) := by
    intro iface
    split <;> infer_instance
  unfold interfaceTable
  infer_instance

instance (cls : Class) : Nested (superDescriptor cls) := by
  unfold superDescriptor
  split
  · infer_instance
  · refine .bind fun super => .ite inferInstance ?_
    dsimp only
    split <;> infer_instance

instance (cls : Class) : Nested (vptrValue cls) := by
  unfold vptrValue
  split <;> infer_instance

instance (cls : Class) (descriptor : Init) : Nested (vtableSlots cls descriptor) :=
  .bind fun _ => .bind fun _ => .check inferInstance

instance (c : ClassId) : Nested (buildVtable c) := by
  refine .bind fun cls => .bind fun _ => .check (.check (.check ?_))
  split
  · infer_instance
  · refine .bind fun t => .bind fun alignment => .bind fun _ => .bind fun s => .ite inferInstance (.check (.check ?_))
    dsimp only
    infer_instance

instance : Nested headerMembers := by
  refine .bind fun s => .bind fun object => .bind fun w => .bind fun t => ?_
  split <;> infer_instance

instance (bits : Nat) (cls : Text) (v : Int) (cause : AbiCause) : Nested (checkSigned bits cls v cause) := by
  unfold checkSigned
  infer_instance

instance (cls : Text) (member : ClassMember) (v : Int) : Nested (checkCount cls member v) := by
  unfold checkCount
  infer_instance

instance (descriptor : EntityId) : Nested (register descriptor) := by
  unfold register
  infer_instance

instance (c : ClassId) (cls : Class) (descriptor : EntityId) : Nested (describe c cls descriptor) := by
  refine .bind fun r => ?_
  cases r.find? classClass with
  | none => exact inferInstanceAs (Nested (refuse _ _ >>= _))
  | some k =>
    refine Works.bind fun classCls => .check (.bind fun name => .bind fun methods => .bind fun fields => ?_)
    refine .bind fun interfaces => .bind fun super => .bind fun _ => .bind fun _ => .bind fun _ => .bind fun _ => ?_
    refine .bind fun _ => .bind fun _ => .bind fun _ => .bind fun _ => .bind fun _ => .bind fun _ => .bind fun _ => ?_
    exact .bind fun _ => .ite inferInstance inferInstance

/-- A span and what happens inside it. -/
instance {scope : Trace.Scope} {name : Text} {parent : Nat} {extra : List (Text × Text)} {action : Trace.Span → Action α}
    [h : ∀ span, Nested (action span)] : Nested (withSpan scope name parent extra action) := by
  refine .of_step fun w => ?_
  let opened := w.trace.begin scope name parent
  let done := action opened.1 { w with trace := opened.2 }
  have hrun : (withSpan scope name parent extra action w).2.trace = done.2.trace.finish (match done.1 with
      | .ok _ => extra.foldl (fun span (key, value) => span.withExtra key value) opened.1
      | .error _ => opened.1) [] := rfl
  rw [Workspace.Nests, hrun]
  refine Trace.Recorder.Nests.enclose ?_ ((h opened.1).nests { w with trace := opened.2 }) []
  split
  · exact Trace.Span.same_annotated _ _
  · exact ⟨rfl, rfl, rfl, rfl⟩

instance (c : ClassId) : Nested (buildDescriptor c) := by
  refine .bind fun cls => .bind fun _ => .bind fun s => ?_
  split
  · infer_instance
  · refine .check (.check ?_)
    split <;> infer_instance

instance : Answers Workspace.Nests where
  graphs _ _ := .refl _
  body _ _ _ := .refl _
  layouts _ _ := .refl _
  type _ _ := .refl _
  point _ _ _ _ := inferInstance
  span _ _ _ _ _ _ := inferInstance
  intern _ := inferInstance
  vtable _ := inferInstance
  descriptor _ := inferInstance

end Abi

/-! ### Stages -/

namespace Compile

instance (count : Nat) (classes : List ClassId) : Nested (describeAll count classes) := by
  induction classes generalizing count with
  | nil => exact inferInstanceAs (Nested (pure count))
  | cons c classes ih =>
    unfold describeAll
    dsimp only
    infer_instance

instance : Nested emitModule := .of_trace_eq fun _ => rfl

end Compile

end

end ClassAbi
