import ClassAbi.Lowering.Body
import ClassAbi.Proofs.Action

/-!
# Actions that only make some changes

Whatever an action on the workspace does, and even if it fails half way, the changes it makes are of kinds that are known from
its parts. An action is found to work with some kinds of changes by the class `Works`, which has an instance for each way to
combine actions, and for all operations of a session where its first steps work.
-/

open Relation

namespace ClassAbi

variable {α β : Type} {S : Workspace → Workspace → Prop}

/-- Actions that only make changes that `S` allows, from wherever they start. -/
class Action.Works (S : Workspace → Workspace → Prop) (x : Action α) : Prop where
  changes : ∀ w, ReflTransGen S w (x w).2

namespace Action

variable {x y : Action α} {f : α → Action β}

theorem Works.keeps (h : Works S x) (w0 : Workspace) : Keeps (ReflTransGen S w0) x :=
  fun w hw => hw.trans (h.changes w)

theorem Works.of_keeps (h : ∀ w0, Keeps (ReflTransGen S w0) x) : Works S x := ⟨fun w => h w w .refl⟩

theorem Works.of_step (h : ∀ w, S w (x w).2) : Works S x := ⟨fun w => .single (h w)⟩

theorem Works.of_same (h : ∀ w, (x w).2 = w) : Works S x := ⟨fun w => by rw [h w]⟩

instance (a : α) : Works S (pure a : Action α) := .of_same fun _ => rfl

instance (e : Failure Error) : Works S (throw e : Action α) := .of_same fun _ => rfl

instance : Works S (get : Action Workspace) := .of_same fun _ => rfl

theorem Works.bind [hx : Works S x] (hf : ∀ a, Works S (f a)) : Works S (x >>= f) :=
  .of_keeps fun w0 => (hx.keeps w0).bind fun a => (hf a).keeps w0

instance [Works S x] [hf : ∀ a, Works S (f a)] : Works S (x >>= f) := .bind hf

instance [Works S x] (g : α → β) : Works S (g <$> x) := by
  rw [map_eq_pure_bind]
  infer_instance

instance [Works S x] : Works S (discard x) := inferInstanceAs (Works S (_ <$> x))

theorem Works.ite {c : Prop} [Decidable c] (hx : Works S x) (hy : Works S y) : Works S (if c then x else y) := by
  split_ifs
  · exact hx
  · exact hy

instance {c : Prop} [Decidable c] [hx : Works S x] [hy : Works S y] : Works S (if c then x else y) := .ite hx hy

theorem Works.check {c : Prop} [Decidable c] {e : Failure Error} {f : Unit → Action β} (h : Works S (f ())) :
    Works S (if c then (throw e : Action Unit) >>= f else f ()) := by
  split_ifs
  · exact .of_same fun _ => rfl
  · exact h

instance {g : α → Action PUnit} {as : List α} [h : ∀ a, Works S (g a)] : Works S (as.forM g) :=
  .of_keeps fun w0 => keeps_forM fun a _ => (h a).keeps w0

instance {g : α → Action β} {as : List α} [h : ∀ a, Works S (g a)] : Works S (as.mapM g) :=
  .of_keeps fun w0 => keeps_mapM fun a => (h a).keeps w0

instance {g : β → α → Action β} {as : List α} [h : ∀ b a, Works S (g b a)] (b : β) : Works S (as.foldlM g b) :=
  .of_keeps fun w0 => keeps_foldlM (fun b a _ => (h b a).keeps w0) b

theorem Works.mapResult (h : Works S x) (g : Outcome Error α → Outcome Error β) :
    Works S (fun w => (g (x w).1, (x w).2) : Action β) := ⟨h.changes⟩

instance (e : Error) : Works S (fail e : Action α) := inferInstanceAs (Works S (throw _))

instance (cls : Text) (cause : AbiCause) : Works S (refuse cls cause : Action α) := inferInstanceAs (Works S (throw _))

instance : Works S (fault : Action α) := inferInstanceAs (Works S (throw _))

/-! What follows a failure is not reached. -/

instance (e : Error) : Works S (fail e >>= f) := .of_same fun _ => rfl

instance (cls : Text) (cause : AbiCause) : Works S (refuse cls cause >>= f) := .of_same fun _ => rfl

instance : Works S (fault >>= f) := .of_same fun _ => rfl

instance (o : Option α) : Works S (need o) := by
  cases o <;> unfold need <;> infer_instance

instance {ε : Type} (g : ε → Error) (o : Except ε α) : Works S (ofExcept g o) := by
  cases o <;> unfold ofExcept <;> infer_instance

instance {step : Step} [h : Works S x] : Works S (within step x) := ⟨h.changes⟩

instance : Works S registry := inferInstanceAs (Works S (_ >>= _))

instance (c : ClassId) : Works S (class' c) := inferInstanceAs (Works S (_ >>= _))

end Action

open ClassAbi.Action

namespace Abi

/-- Whether `S` allows the changes by which a session answers. -/
class Answers (S : Workspace → Workspace → Prop) : Prop where
  graphs : ∀ w graphs, S w { w with program := { w.program with graphs } }
  body : ∀ w e g, S w { w with program := w.program.modifyEntity e fun ent => { ent with body := some g } }
  layouts : ∀ w t, S w { w with layouts := (Layout.layoutOf w.program.types w.target t w.layouts).2 }
  type : ∀ w shape, S w { w with program := (w.program.addType shape).2 }
  point : ∀ scope name detail parent, Works S (onTrace fun t => ((), t.point scope name detail parent))
  span : ∀ {α : Type} scope name parent extra (action : Trace.Span → Action α), (∀ span, Works S (action span)) →
    Works S (withSpan scope name parent extra action)
  intern : ∀ text, Works S (intern text)
  vtable : ∀ c, Works S (buildVtable c)
  descriptor : ∀ c, Works S (buildDescriptor c)

theorem works_withSpan (htrace : ∀ w trace, S w { w with trace }) (scope : Trace.Scope) (name : Text) (parent : Nat)
    (extra : List (Text × Text)) (action : Trace.Span → Action α) (h : ∀ span, Works S (action span)) :
    Works S (withSpan scope name parent extra action) :=
  ⟨fun w => .tail (.head (htrace w _) ((h _).changes _)) (htrace _ _)⟩

instance : Works S session := by
  unfold session
  infer_instance

instance (h : Helper) : Works S (helper h) := by
  unfold helper
  infer_instance

instance (t : JavaType) : Works S (descriptorOf t) := by
  unfold descriptorOf
  split <;> infer_instance

instance : Works S pointerSize := by
  unfold pointerSize
  dsimp only
  infer_instance

instance : Works S vptrOffset := by
  unfold vptrOffset
  infer_instance

instance : Works S offsetMode := by
  unfold offsetMode
  infer_instance

variable [hS : Answers S]

instance (g : GraphId) (step : Graph.Builder α) : Works S (onGraph g step) := .of_step fun w => hS.graphs w _

instance (shape : Shape) : Works S (newType shape) := .of_step fun w => hS.type w shape

instance (t : Option TypeId) : Works S (layoutOf t) := .bind fun t => .of_step fun w => hS.layouts w t

instance (e : Option EntityId) : Works S (onProgram (·.addGraph e)) where
  changes w := by
    have hgraph : S w { w with program := { w.program with graphs := w.program.graphs.push { entity := e } } } := hS.graphs w _
    cases e with
    | none => exact .single hgraph
    | some e => exact (ReflTransGen.single hgraph).tail (hS.body _ e _)

instance (scope : Trace.Scope) (name detail : Text) (parent : Nat) :
    Works S (onTrace fun t => ((), t.point scope name detail parent)) := hS.point scope name detail parent

instance {scope : Trace.Scope} {name : Text} {parent : Nat} {extra : List (Text × Text)} {action : Trace.Span → Action α}
    [h : ∀ span, Works S (action span)] : Works S (withSpan scope name parent extra action) := hS.span _ _ _ _ _ h

instance (text : Text) : Works S (intern text) := hS.intern text

instance (name : Text) : Works S (internDotted name) := hS.intern _

instance (c : ClassId) : Works S (buildVtable c) := hS.vtable c

instance (c : ClassId) : Works S (buildDescriptor c) := hS.descriptor c

-- The terms that combine the instances grow with the action.
set_option synthInstance.maxSize 2000

instance (t : JavaType) : Works S (typeSignature t) := by
  refine .bind fun _ => ?_
  split <;> infer_instance

/-! ### Code of bodies -/

instance (g : GraphId) (h : Helper) (args : List Node) : Works S (callHelper g h args) := by
  unfold callHelper
  infer_instance

instance (g : GraphId) (levels : Nat) (cls : Node) : Works S (arrayClass g levels cls) := by
  induction levels generalizing cls with
  | zero => exact inferInstanceAs (Works S (pure cls))
  | succ levels ih =>
    unfold arrayClass
    infer_instance

instance (g : GraphId) (t : JavaType) : Works S (classObject g t) := by
  refine .bind fun known => ?_
  split
  · infer_instance
  · dsimp only
    refine .ite inferInstance (.bind fun known => ?_)
    split <;> infer_instance

instance (g : GraphId) (cls : Class) : Works S (vptrNode g cls) := by
  unfold vptrNode
  split <;> infer_instance

instance (g : GraphId) (c : ClassId) : Works S (allocateObject g c) := .bind fun _ => .check inferInstance

instance (g : GraphId) (elem : JavaType) (count : Node) : Works S (allocateArray g elem count) := by
  unfold allocateArray
  dsimp only
  infer_instance

instance (g : GraphId) (buffer : Node) (i : Nat) (sizes : List Node) : Works S (storeSizes g buffer i sizes) := by
  induction sizes generalizing i with
  | nil => exact inferInstanceAs (Works S (pure ()))
  | cons size sizes ih =>
    unfold storeSizes
    infer_instance

instance (g : GraphId) (t : JavaType) (sizes : List Node) : Works S (newMultiArray g t sizes) := by
  unfold newMultiArray
  exact .check inferInstance

instance (g : GraphId) (object : Node) (t : JavaType) : Works S (instanceOf g object t) := by
  unfold instanceOf
  infer_instance

instance (g : GraphId) (t : JavaType) (object : Node) : Works S (checkCast g t object) := by
  unfold checkCast
  infer_instance

instance (g : GraphId) (object : Node) (iface : Class) (m : Method) : Works S (lookupInterface g object iface m) := by
  unfold lookupInterface vptrPlace
  exact .check inferInstance

instance (g : GraphId) (c : ClassId) : Works S (initClass g c) := by
  unfold initClass
  infer_instance

instance (g : GraphId) (text : Text) : Works S (newString g text) := by
  unfold newString
  infer_instance

instance (g : GraphId) (array : Node) : Works S (arrayLength g array) := by
  unfold arrayLength
  infer_instance

instance (g : GraphId) (array : Node) : Works S (arrayData g array) := by
  unfold arrayData
  infer_instance

end Abi

namespace Lowering

open ClassAbi.Abi

variable [Answers S]

set_option synthInstance.maxSize 2000

instance (g : GraphId) (e : EntityId) : Works S (referenceParam g e) := by
  refine .bind fun w => .bind fun ent => ?_
  split
  · infer_instance
  · split <;> infer_instance

instance (c : ClassId) (name descriptor : Text) : Works S (interfaceMethod c name descriptor) := by
  refine .bind fun r => ?_
  split <;> infer_instance

instance (g : GraphId) (e : EntityId) (op : Operation) : Works S (lower g e op) := by
  refine .bind fun r => ?_
  cases op <;> dsimp only <;> infer_instance

instance (g : GraphId) (e : EntityId) (method : Text) (traced : Bool) (span i : Nat) (last : Option Node) (sources : List Text) :
    Works S (lowerAll g e method traced span i last sources) := by
  induction sources generalizing i last with
  | nil => exact inferInstanceAs (Works S (pure last))
  | cons source sources ih =>
    refine .bind fun op => ?_
    have hlower : Works S (fun w =>
        let (result, w) := lower g e op w
        (Outcome.mapError (Error.inOperation method i source) result, w) : Action (Option Node)) :=
      .mapResult (inferInstanceAs (Works S (lower g e op))) _
    refine .bind fun value => ?_
    dsimp only
    infer_instance

instance (m : Method) (e : EntityId) (method : Text) (traced : Bool) (span : Nat) :
    Works S (lowerBody m e method traced span) := by
  unfold lowerBody
  infer_instance

instance (ref : MethodRef) (parent : Option Nat) : Works S (lowerMethod ref parent) := by
  refine .bind fun cls => .bind fun m => ?_
  split
  · infer_instance
  · dsimp only
    split <;> infer_instance

instance (cancelled : Bool) (parent : Option Nat) (count : Nat) (refs : List MethodRef) :
    Works S (lowerMethods cancelled parent count refs) := by
  induction refs generalizing count with
  | nil => exact inferInstanceAs (Works S (pure (count, none)))
  | cons ref refs ih =>
    have hbuild : Works S (do
        let result ← fun w =>
          let (result, w) := lowerMethod ref parent w
          (.ok result, w)
        match result with
        | .ok _ => lowerMethods cancelled parent (count + 1) refs
        | .error failure => return (count, some failure)) := by
      have hmethod : Works S (fun w =>
          let (result, w) := lowerMethod ref parent w
          (.ok result, w) : Action (Outcome Error GraphId)) := .mapResult (inferInstanceAs (Works S (lowerMethod ref parent))) _
      refine .bind fun result => ?_
      split <;> infer_instance
    unfold lowerMethods
    refine .ite inferInstance (.bind fun r => .bind fun m => ?_)
    dsimp only
    split <;> infer_instance

instance (cancelled : Bool) (parent : Option Nat) : Works S (lowerProgram cancelled parent) := by
  unfold lowerProgram
  dsimp only
  infer_instance

end Lowering

end ClassAbi
