import ClassAbi.Proofs.Abi.Build
import ClassAbi.Proofs.Abi.Works

/-!
# Operations of a session

Everything that can be asked of a session after its start, in any order, with what fails included. Whatever the operations
are, they only make changes of the known kinds.
-/

open Relation

namespace ClassAbi.Abi

open ClassAbi.Action Workspace

/-- What a session can be asked for. -/
inductive Operation where
  | intern (text : Text)
  | internDotted (name : Text)
  | typeSignature (t : JavaType)
  | methodRecord (cls : Text) (m : Method)
  | fieldRecord (cls : Text) (f : Field)
  | methodTable (cls : Class)
  | fieldTable (cls : Class)
  | interfaceTable (cls : Class)
  | vptrValue (cls : Class)
  | buildVtable (c : ClassId)
  | buildDescriptor (c : ClassId)
  | newGraph (e : Option EntityId)
  | classObject (g : GraphId) (t : JavaType)
  | allocateObject (g : GraphId) (c : ClassId)
  | allocateArray (g : GraphId) (elem : JavaType) (count : Node)
  | newMultiArray (g : GraphId) (t : JavaType) (sizes : List Node)
  | instanceOf (g : GraphId) (object : Node) (t : JavaType)
  | checkCast (g : GraphId) (t : JavaType) (object : Node)
  | lookupInterface (g : GraphId) (object : Node) (iface : Class) (m : Method)
  | initClass (g : GraphId) (c : ClassId)
  | newString (g : GraphId) (text : Text)
  | arrayLength (g : GraphId) (array : Node)
  | arrayData (g : GraphId) (array : Node)
  | lowerMethod (m : MethodRef) (parent : Option Nat)
  | lowerProgram (cancelled : Bool) (parent : Option Nat)
  | close

/-- The step that answers an operation, without its result. -/
def Operation.answer : Operation → Action Unit
  | intern text => discard (Abi.intern text)
  | internDotted name => discard (Abi.internDotted name)
  | typeSignature t => discard (Abi.typeSignature t)
  | methodRecord cls m => discard (Abi.methodRecord cls m)
  | fieldRecord cls f => discard (Abi.fieldRecord cls f)
  | methodTable cls => discard (Abi.methodTable cls)
  | fieldTable cls => discard (Abi.fieldTable cls)
  | interfaceTable cls => discard (Abi.interfaceTable cls)
  | vptrValue cls => discard (Abi.vptrValue cls)
  | buildVtable c => discard (Abi.buildVtable c)
  | buildDescriptor c => discard (Abi.buildDescriptor c)
  | newGraph e => discard (onProgram (·.addGraph e))
  | classObject g t => discard (Abi.classObject g t)
  | allocateObject g c => discard (Abi.allocateObject g c)
  | allocateArray g elem count => discard (Abi.allocateArray g elem count)
  | newMultiArray g t sizes => discard (Abi.newMultiArray g t sizes)
  | instanceOf g object t => discard (Abi.instanceOf g object t)
  | checkCast g t object => Abi.checkCast g t object
  | lookupInterface g object iface m => discard (Abi.lookupInterface g object iface m)
  | initClass g c => Abi.initClass g c
  | newString g text => discard (Abi.newString g text)
  | arrayLength g array => discard (Abi.arrayLength g array)
  | arrayData g array => discard (Abi.arrayData g array)
  | lowerMethod m parent => discard (Lowering.lowerMethod m parent)
  | lowerProgram cancelled parent => discard (Lowering.lowerProgram cancelled parent)
  | close => modifySession Session.close

/-- The workspace after some operations, each of which may have failed. -/
def operate (w : Workspace) (ops : List Operation) : Workspace := ops.foldl (fun w op => (op.answer w).2) w

/-- Whether one of the operations is `op`, and is answered without an error. -/
def Answered (w : Workspace) (ops : List Operation) (op : Operation) : Prop :=
  ∃ before after w', ops = before ++ op :: after ∧ Finishes op.answer (operate w before) () w'

instance {S : Workspace → Workspace → Prop} (cls : Class) : Works S (vptrValue cls) := ⟨fun _ => (leads_vptrValue cls).1⟩

theorem works_of_additions {α : Type} {x : Action α} {Q : α → Workspace → Prop} (h : ∀ w, Leads Addition x w Q) :
    Works Progress x := ⟨fun w => ((h w).lift fun _ _ h => .fill (.add h)).1⟩

instance : Answers Progress where
  graphs _ := .graphs
  body _ := .body
  layouts _ t := .fill (.add (.layouts t))
  type _ shape := .fill (.add (.type shape))
  point _ _ _ _ := .of_step fun _ => .fill (.add (.trace _))
  span := works_withSpan fun _ trace => .fill (.add (.trace trace))
  intern text := works_of_additions fun _ => leads_intern text
  vtable c := ⟨fun _ => ((leads_buildVtable c).lift fun _ _ h => .fill h).1⟩
  descriptor c := ⟨fun _ => ((leads_buildDescriptor c).lift fun _ _ h => .fill h).1⟩

instance (cls : Text) (m : Method) : Works Progress (methodRecord cls m) := works_of_additions fun _ => leads_methodRecord cls m

instance (cls : Text) (f : Field) : Works Progress (fieldRecord cls f) := works_of_additions fun _ => leads_fieldRecord cls f

instance (cls : Class) : Works Progress (methodTable cls) := works_of_additions fun _ => leads_methodTable cls

instance (cls : Class) : Works Progress (fieldTable cls) := works_of_additions fun _ => leads_fieldTable cls

instance (cls : Class) : Works Progress (interfaceTable cls) := works_of_additions fun _ => leads_interfaceTable cls

theorem works_answer {op : Operation} (hop : op ≠ .close) : Works Progress op.answer := by
  cases op with
  | close => exact absurd rfl hop
  | _ =>
    dsimp only [Operation.answer]
    infer_instance

theorem changes_of_answer (op : Operation) (w : Workspace) : ReflTransGen Change w (op.answer w).2 := by
  by_cases hop : op = .close
  · subst hop
    exact .single .close
  · exact ReflTransGen.mono (fun _ _ => Change.progress) _ _ ((works_answer hop).changes w)

theorem changes_of_operate (w : Workspace) (ops : List Operation) : ReflTransGen Change w (operate w ops) := by
  induction ops generalizing w with
  | nil => exact .refl
  | cons op ops ih => exact (changes_of_answer op w).trans (ih _)

theorem progress_of_operate (w : Workspace) {ops : List Operation} (hopen : .close ∉ ops) :
    ReflTransGen Progress w (operate w ops) := by
  induction ops generalizing w with
  | nil => exact .refl
  | cons op ops ih =>
    have hop : op ≠ .close := fun h => hopen (h ▸ List.mem_cons_self)
    exact ((works_answer hop).changes w).trans (ih _ fun h => hopen (List.mem_cons_of_mem _ h))

theorem operate_append (w : Workspace) (before after : List Operation) :
    operate w (before ++ after) = operate (operate w before) after := List.foldl_append

end ClassAbi.Abi
