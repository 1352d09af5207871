import ClassAbi.Compile.Run
import ClassAbi.Proofs.Abi.Objects
import ClassAbi.Proofs.Lowering.Body
import ClassAbi.Proofs.Manifest.Populate

/-!
# Workspaces after the stages

`Compile.StandsAfter` says which workspaces the stages of a compilation lead to. Between the stages only the trace changes.
What is known of sessions and of bodies is put together here for these workspaces: when the bodies have been built, exactly
the methods that are not only declared have one (`Compile.StandsAfter.assembled`).
-/

open Relation

namespace ClassAbi

open ClassAbi.Action Workspace Abi Lowering

namespace Compile

/-- Whether a workspace is one after a stage, for a target and for the classes of manifests. -/
inductive StandsAfter (target : Target) (ms : List Manifest) (registers : Bool) : Stage → Workspace → Prop
  | load {trace : Trace.Recorder} {w : Workspace} (hrun : Finishes (Manifest.populate ms) { target, trace } () w) :
    StandsAfter target ms registers .load w
  | layout {w w' : Workspace} (trace : Trace.Recorder) (h : StandsAfter target ms registers .load w)
    (hrun : Finishes Class.layOutAll { w with trace } () w') : StandsAfter target ms registers .layout w'
  | dispatch {w w' : Workspace} (trace : Trace.Recorder) (h : StandsAfter target ms registers .layout w)
    (hrun : Finishes (do Class.assignAllSlots; Class.createAllMembers) { w with trace } () w') :
    StandsAfter target ms registers .dispatch w'
  -- The session is started between the stages.
  | describe {w w0 w' : Workspace} {n : Nat} (trace trace' : Trace.Recorder) (h : StandsAfter target ms registers .dispatch w)
    (hstart : Finishes (Abi.start registers) { w with trace } () w0)
    (hrun : Finishes (describeAll 0 (List.range w0.registry.classes.size)) { w0 with trace := trace' } n w') :
    StandsAfter target ms registers .describe w'
  | lower {w w' : Workspace} {cancelled : Bool} {parent : Option Nat} {n : Nat} (trace : Trace.Recorder)
    (h : StandsAfter target ms registers .describe w)
    (hrun : Finishes (lowerProgram cancelled parent) { w with trace } (n, none) w') : StandsAfter target ms registers .lower w'
  | reach {w w' : Workspace} {x : Reach.Index} (trace : Trace.Recorder) (h : StandsAfter target ms registers .lower w)
    (hrun : Finishes (Reach.build target.decoration) { w with trace } x w') : StandsAfter target ms registers .reach w'

end Compile

/-! ### Before the session -/

theorem Manifest.keeps_rest_populate {P : Workspace → Prop} (hP : ∀ w r, P w → P { w with registry := r }) (ms : List Manifest) :
    Keeps P (Manifest.populate ms) := by
  have honRegistry : ∀ f : Registry → Registry, Keeps P (onRegistry f) := fun f => keeps_onRegistry fun w hw => hP w _ hw
  apply Manifest.keeps_populate
  · intro name access external
    refine keeps_registry.bind fun _ => (keeps_ofExcept _ _).bind fun x => ?_
    exact Keeps.bind (fun w hw => hP w x.2 hw) fun _ => keeps_pure x.1
  · exact fun c f => honRegistry _
  · exact fun c name descriptor access => keeps_registry.bind fun _ => (keeps_ofExcept _ _).bind fun _ => honRegistry _
  · exact fun c name descriptor access ops => (keeps_class' _).bind fun _ => keeps_registry.bind fun _ =>
      (keeps_ofExcept _ _).bind fun _ => honRegistry _

theorem Manifest.keeps_spelled_populate (ms : List Manifest) :
    Keeps (fun w => w.Built ∧ w.registry.Spelled) (Manifest.populate ms) := by
  apply Manifest.keeps_populate
  · rintro name access external w ⟨hbuilt, hspelled⟩
    refine ⟨.declare name access external hbuilt, ?_⟩
    rw [Class.declare, bind_apply_of_finishes finishes_registry]
    cases hok : w.registry.declare name access external with
    | error e => exact hspelled
    | ok x => exact hspelled.declare hok
  · rintro c f w ⟨hbuilt, hspelled⟩
    refine ⟨Manifest.built_inherit hbuilt c f, ?_⟩
    have hagree : Registry.AgreeUpTo (fun cls => { cls with super := none, interfaces := [] }) w.registry
        (w.registry.modifyClass c fun cls => { cls with super := (f cls).1, interfaces := (f cls).2 }) :=
      w.registry.agreeUpTo_modifyClass c fun _ => rfl
    exact hspelled.congr hagree (fun _ => rfl) fun _ => rfl
  · rintro c name descriptor access w ⟨hbuilt, hspelled⟩
    refine ⟨.addField c name descriptor access hbuilt, ?_⟩
    rw [Class.addField, bind_apply_of_finishes finishes_registry]
    cases hok : w.registry.fieldOf name descriptor access with
    | error e => exact hspelled
    | ok f =>
      have hagree : Registry.AgreeUpTo (fun cls => { cls with fields := #[] }) w.registry
          (w.registry.modifyClass c fun cls => { cls with fields := cls.fields.push f }) :=
        w.registry.agreeUpTo_modifyClass c fun _ => rfl
      exact hspelled.congr hagree (fun _ => rfl) fun _ => rfl
  · rintro c name descriptor access ops w ⟨hbuilt, hspelled⟩
    refine ⟨.addMethod c name descriptor access ops hbuilt, ?_⟩
    cases hcls : w.registry.class? c with
    | none =>
      have hread : class' c w = (.error .fault, w) := by rw [class', bind_apply_of_finishes finishes_get, hcls]; rfl
      rw [Class.addMethod, bind_apply_of_error hread]
      exact hspelled
    | some cls =>
      rw [Class.addMethod, bind_apply_of_finishes (finishes_class'_iff.2 ⟨hcls, rfl⟩), bind_apply_of_finishes finishes_registry]
      cases hok : w.registry.methodOf cls.access name descriptor access with
      | error e => exact hspelled
      | ok m =>
        rw [Registry.methodOf, bind_eq_ok_iff] at hok
        obtain ⟨types, htypes, hm⟩ := hok
        cases hm
        exact hspelled.addMethod (Registry.spells_of_typesOfDescriptor hbuilt.known htypes)

theorem Registry.Spelled.unlinked {r r' : Registry} (h : r.Spelled) (hagree : Registry.AgreeUpTo Class.unlinked r r') :
    r'.Spelled := by
  refine h.congr hagree (fun _ => rfl) fun cls => ?_
  rw [Class.unlinked, Array.map_map]
  rfl

namespace Compile

variable {target : Target} {ms : List Manifest} {registers : Bool} {w w0 w' : Workspace}

/-- Whether there are classes and types, but no entities yet. -/
structure Bare (target : Target) (w : Workspace) : Prop where
  target_eq : w.target = target
  built : w.Built
  entities : w.program.entities = #[]
  unknown : w.program.types.shape? unknownType = some .unknown
  spelled : w.registry.Spelled

theorem Bare.withTrace (h : Bare target w) (trace : Trace.Recorder) : Bare target { w with trace } :=
  ⟨h.target_eq, .elsewhere (w := w) rfl rfl rfl rfl h.built, h.entities, h.unknown, h.spelled⟩

theorem StandsAfter.bare_load (h : StandsAfter target ms registers .load w) : Bare target w := by
  cases h with
  | @load trace _ hrun =>
    have hbuilt : Workspace.Built { target, trace } := .elsewhere (w := { target }) rfl rfl rfl rfl (.start target)
    obtain ⟨htarget, hprogram⟩ := (Manifest.keeps_rest_populate (P := fun w => w.target = target ∧ w.program = {})
      (fun _ _ hw => hw) ms).of_finishes ⟨rfl, rfl⟩ hrun
    obtain ⟨hbuilt', hspelled⟩ := (Manifest.keeps_spelled_populate ms).of_finishes ⟨hbuilt, Registry.spelled_empty⟩ hrun
    refine ⟨htarget, hbuilt', ?_, ?_, hspelled⟩ <;> rw [hprogram]
    rfl

theorem StandsAfter.bare_layout (h : StandsAfter target ms registers .layout w) : Bare target w := by
  cases h with
  | @layout w1 _ trace h hrun =>
    have hbare := h.bare_load.withTrace trace
    have hrest := (keeps_layOutAll (keeps_layOut_of
      (P := fun w => w.target = target ∧ w.program.entities = #[] ∧ w.program.types.shape? unknownType = some .unknown)
      (fun w shape hw => ⟨hw.1, hw.2.1, w.program.types.extends_push shape _ _ hw.2.2⟩) (fun _ _ hw => hw)
      fun _ _ _ => keeps_onRegistry fun _ hw => hw)).of_finishes ⟨hbare.target_eq, hbare.entities, hbare.unknown⟩ hrun
    have hbuilt := hbare.built.layOutAll
    rw [hrun] at hbuilt
    obtain ⟨before, hdone, -⟩ := objectsDone hbare.built hrun
    exact ⟨hrest.1, hbuilt, hrest.2.1, hrest.2.2, hbare.spelled.congr hdone.same (fun _ => rfl) fun _ => rfl⟩

/-- What is known of a workspace before the session is started. -/
structure Dispatched (target : Target) (w : Workspace) : Prop where
  target_eq : w.target = target
  built : w.Built
  inventory : w.Inventory
  unknown : w.program.types.shape? unknownType = some .unknown
  spelled : w.registry.Spelled
  order : ∃ order, w.registry.superToSub = .ok order
  linked : w.Linked w.registry.members

theorem Dispatched.withTrace (h : Dispatched target w) (trace : Trace.Recorder) : Dispatched target { w with trace } where
  target_eq := h.target_eq
  built := .elsewhere (w := w) rfl rfl rfl rfl h.built
  inventory := h.inventory.congr rfl rfl rfl rfl
  unknown := h.unknown
  spelled := h.spelled
  order := h.order
  linked := h.linked.grown ⟨rfl, fun _ _ h => h, fun _ _ h => h, fun _ _ h => h, .refl _⟩ rfl

theorem StandsAfter.dispatched (h : StandsAfter target ms registers .dispatch w) : Dispatched target w := by
  cases h with
  | @dispatch w1 _ trace h hrun =>
    have hbare := h.bare_layout.withTrace trace
    obtain ⟨_, w2, hslots, hmembers⟩ := finishes_bind_iff.1 hrun
    have hassigned := slotsAssigned hbare.built.declared hslots
    have hbuilt2 := hbare.built.assignAllSlots
    rw [hslots] at hbuilt2
    have hmakes := makes_of_createAllMembers hmembers
    have hpath := hmakes.path
    have hprogram : w2.program = w1.program := by rw [hassigned.rest]
    refine ⟨?_, hbuilt2.makings hpath, ?_, ?_, ?_, ?_, (hmakes.linked (linked_empty _)).mono Set.subset_union_left⟩
    · rw [(grown_of_makings hpath).target_eq, hassigned.rest]
      exact hbare.target_eq
    · exact (inventory_empty (by rw [hprogram]; exact hbare.entities)).makings hpath
    · apply (grown_of_makings hpath).types
      rw [hprogram]
      exact hbare.unknown
    · have hspelled2 : w2.registry.Spelled := by
        refine hbare.spelled.congr hassigned.same (fun _ => rfl) fun cls => ?_
        rw [Class.withoutSlots, Array.map_map]
        rfl
      exact hspelled2.unlinked (grown_of_makings hpath).registry
    · obtain ⟨order, horder, -⟩ := finishes_assignAllSlots_iff.1 hslots
      obtain ⟨order', horder'⟩ := hassigned.same.exists_superToSub (fun _ => rfl) horder
      exact (grown_of_makings hpath).registry.exists_superToSub (fun _ => rfl) horder'

/-! ### The session -/

/-- What is known of a workspace in which the session has been started. -/
structure Opened (target : Target) (w0 : Workspace) (s0 : Session) : Prop where
  started : Started w0 s0
  target_eq : w0.target = target
  built : w0.Built
  inventory : w0.Inventory
  unknown : w0.program.types.shape? unknownType = some .unknown
  spelled : w0.registry.Spelled
  order : ∃ order, w0.registry.superToSub = .ok order

theorem Dispatched.opened (h : Dispatched target w) (hrun : Finishes (Abi.start registers) w () w0) :
    ∃ s0, Opened target w0 s0 := by
  obtain ⟨hgrown, s0, hstarted⟩ := started_of_start h.linked hrun
  have hbuilt := built_of_start h.built hrun
  obtain ⟨v, s, ⟨hpath, -⟩, rfl, -⟩ := makes_of_start hrun
  refine ⟨s0, hstarted, hgrown.target_eq.trans h.target_eq, hbuilt, ?_, hgrown.types _ _ h.unknown,
    h.spelled.unlinked hgrown.registry, ?_⟩
  · exact (h.inventory.makings hpath).congr rfl rfl rfl rfl
  · obtain ⟨order, horder⟩ := h.order
    exact hgrown.registry.exists_superToSub (fun _ => rfl) horder

def Bodiless (w : Workspace) : Prop := ∀ e ent, w.program.entity? e = some ent → ent.body = none

theorem Bodiless.fill (h : Bodiless w) (hfill : Filling w w') : Bodiless w' := by
  have hmodify : ∀ (x : EntityId) (f : Entity → Entity), (∀ ent, (f ent).body = ent.body) → ∀ e ent,
      (w.program.modifyEntity x f).entity? e = some ent → ent.body = none := by
    intro x f hf e ent he
    rw [Program.entity?_modifyEntity] at he
    split_ifs at he
    · obtain ⟨ent', hent', rfl⟩ := Option.map_eq_some_iff.1 he
      rw [hf]
      exact h e ent' hent'
    · exact h e ent he
  cases hfill with
  | add hadd =>
    intro e ent he
    cases hold : w.program.entity? e with
    | none => exact hadd.body_eq hold he
    | some ent' =>
      obtain rfl := Option.some.inj ((hadd.entity?_eq hold).symm.trans he)
      exact h e ent' hold
  | vtableType _ _ _ _ _ => exact hmodify _ _ fun _ => rfl
  | vtable _ _ _ _ _ _ _ _ _ => exact hmodify _ _ fun _ => rfl
  | descriptor _ _ _ _ _ _ => exact hmodify _ _ fun _ => rfl

theorem works_describeAll (count : Nat) (cs : List ClassId) : Works Filling (describeAll count cs) := by
  have hvtable : ∀ c, Works Filling (buildVtable c) := fun c => ⟨fun _ => (leads_buildVtable c).1⟩
  have hdescriptor : ∀ c, Works Filling (buildDescriptor c) := fun c => ⟨fun _ => (leads_buildDescriptor c).1⟩
  induction cs generalizing count with
  | nil => exact inferInstanceAs (Works _ (pure count))
  | cons c cs ih =>
    unfold describeAll
    dsimp only
    infer_instance

/-- What is known of a workspace in which the vtables and descriptors have been built. -/
structure Described (target : Target) (w0 : Workspace) (s0 : Session) (w : Workspace) : Prop where
  opened : Opened target w0 s0
  path : ReflTransGen Abi.Progress w0 w
  bodiless : Bodiless w

theorem StandsAfter.described (h : StandsAfter target ms registers .describe w) : ∃ w0 s0, Described target w0 s0 w := by
  cases h with
  | @describe w1 w0 _ n trace trace' h hstart hrun =>
    obtain ⟨s0, hopened⟩ := (h.dispatched.withTrace trace).opened hstart
    have hpath := (works_describeAll 0 (List.range w0.registry.classes.size)).changes { w0 with trace := trace' }
    rw [hrun] at hpath
    replace hpath : ReflTransGen Filling w0 w := .head (.add (.trace trace')) hpath
    refine ⟨w0, s0, hopened, ReflTransGen.mono (fun _ _ h => .fill h) _ _ hpath, ?_⟩
    exact keep_along (fun _ _ h hstep => h.fill hstep) hpath fun e ent hent => hopened.inventory.bodiless e ent hent

/-! ### The bodies -/

/-- What is known of a workspace in which the bodies have been built, where `d` is the helper that runs initializers. -/
structure Assembled (target : Target) (w0 : Workspace) (s0 : Session) (d : DeclaredHelper) (w : Workspace) : Prop where
  opened : Opened target w0 s0
  path : ReflTransGen Abi.Progress w0 w
  helper : w0.helper? .initClass = some d
  lowered : ∃ done, Lowered w0 d.entity done w ∧ ∀ ref, ref ∈ done ↔ Defined w0 ref

theorem changes_of_progress (h : ReflTransGen Abi.Progress w w') : ReflTransGen Change w w' :=
  ReflTransGen.mono (fun _ _ h => .progress h) _ _ h

theorem StandsAfter.assembled (h : StandsAfter target ms registers .lower w) : ∃ w0 s0 d, Assembled target w0 s0 d w := by
  cases h with
  | @lower w1 _ cancelled parent n trace h hrun =>
    obtain ⟨w0, s0, hdescribed⟩ := h.described
    have hopened := hdescribed.opened
    obtain ⟨d, hd, -⟩ := hopened.started.helper .initClass
    have hhelper : w0.helper? .initClass = some d := by rw [helper?, hopened.started.session, Option.bind_some, hd]
    have hpath1 : ReflTransGen Abi.Progress w0 { w1 with trace } := hdescribed.path.tail (.fill (.add (.trace trace)))
    have hpath : ReflTransGen Abi.Progress { w1 with trace } w := by
      have hworks : Works Abi.Progress (lowerProgram cancelled parent) := inferInstance
      replace hworks := hworks.changes { w1 with trace }
      rwa [hrun] at hworks
    have hbare : Lowered w0 d.entity [] { w1 with trace } := by
      refine ⟨((sound_of_started hopened.started).changes (changes_of_progress hpath1)).1, by simp, ?_⟩
      intro e ent g hent hbody
      rw [hdescribed.bodiless e ent hent] at hbody
      cases hbody
    exact ⟨w0, s0, d, hopened, hpath1.trans hpath, hhelper, lowered_of_lowerProgram hhelper hopened.built hbare hrun⟩

/-! ### Entities -/

section

variable {s0 : Session} {d : DeclaredHelper} {c : ClassId} {cls : Class} {e : EntityId} {ent : Entity}

theorem Assembled.sound (h : Assembled target w0 s0 d w) : Sound w0 w :=
  ((sound_of_started h.opened.started).changes (changes_of_progress h.path)).1

theorem Assembled.part_unique (h : Assembled target w0 s0 d w) {c' : ClassId} {cls' : Class} (part part' : Class.Part)
    (hcls : w0.registry.class? c = some cls) (hcls' : w0.registry.class? c' = some cls') (hhas : cls.Has part)
    (hhas' : cls'.Has part') (he : cls.entityOf part = some e) (he' : cls'.entityOf part' = some e) : (c, part) = (c', part') :=
  (sound_of_started h.opened.started).part_unique part part' hcls hcls' hhas hhas' he he'

/-- Whether a type is not that of routines. -/
def IsData (types : TypeTable) (t : TypeId) : Prop := ∃ shape, types.shape? t = some shape ∧ ∀ sig, shape ≠ .routine sig

/-- Whether an entity has the type that it had in `w0`, or is data. -/
def Typed (w0 w : Workspace) : Prop := ∀ e ent, w.program.entity? e = some ent →
  (∃ ent0, w0.program.entity? e = some ent0 ∧ ent.type = ent0.type) ∨ IsData w.program.types ent.type

/-- What a session makes is data, and so is what vtables and descriptors become. -/
theorem Typed.progress (hopened : Opened target w0 s0) (hfollows : w0.Follows w) (h : Typed w0 w) (hstep : Abi.Progress w w') :
    Typed w0 w' := by
  have htypes := hstep.follows.types
  have hold : ∀ e ent t, w.program.entity? e = some ent → t = ent.type →
      (∃ ent0, w0.program.entity? e = some ent0 ∧ t = ent0.type) ∨ IsData w'.program.types t := by
    rintro e ent _ he rfl
    exact (h e ent he).imp_right fun ⟨shape, hshape, hdata⟩ => ⟨shape, htypes _ _ hshape, hdata⟩
  have hsame : w'.program.entities = w.program.entities → Typed w0 w' := by
    intro heq e ent he
    rw [Program.entity?, heq] at he
    exact hold e ent _ he rfl
  have hpush : ∀ (p : Program) ent, p.entities = w.program.entities → w'.program = p.push ent →
      IsData w'.program.types ent.type → Typed w0 w' := by
    intro p ent hp heq hdata e ent' he
    rw [heq, Program.entity?_push] at he
    split_ifs at he
    · cases he
      exact .inr hdata
    · rw [Program.entity?, hp] at he
      exact hold e ent' _ he rfl
  have hmodify : ∀ x f, w'.program = w.program.modifyEntity x f →
      (∀ ent, (f ent).type = ent.type ∨ IsData w'.program.types (f ent).type) → Typed w0 w' := by
    intro x f heq hf e ent he
    rw [heq, Program.entity?_modifyEntity] at he
    split_ifs at he
    · obtain ⟨ent0, hent0, rfl⟩ := Option.map_eq_some_iff.1 he
      rcases hf ent0 with hkept | hdata
      · exact hold e ent0 _ hent0 hkept
      · exact .inr hdata
    · exact hold e ent _ he rfl
  obtain ⟨_, -, hshapes⟩ := hopened.started.types
  replace hshapes := hshapes.extends (hfollows.trans hstep.follows).types
  have hsession : ∀ {s : Session}, w.session = some s →
      IsData w'.program.types s.types.cls ∧ IsData w'.program.types s.types.utf8 := by
    intro s hs
    obtain ⟨s', hs', hclose⟩ := hfollows.session hopened.started.session
    cases hs.symm.trans hs'
    have hrecords : s.close.types = s0.close.types := congrArg Session.types hclose
    replace hrecords : s.types = s0.types := hrecords
    obtain ⟨_, -, hutf8⟩ := hshapes.utf8
    rw [hrecords]
    exact ⟨⟨_, hshapes.cls, by simp⟩, _, hutf8, by simp⟩
  cases hstep with
  | graphs _ => exact hsame rfl
  | body _ _ => exact hmodify _ _ rfl fun _ => .inl rfl
  | fill hfill =>
    cases hfill with
    | vtableType _ _ _ _ ht => exact hmodify _ _ rfl fun _ => .inr ⟨_, ht, by simp⟩
    | vtable _ _ _ _ _ _ _ _ _ => exact hmodify _ _ rfl fun _ => .inl rfl
    | descriptor hs _ _ _ _ _ => exact hmodify _ _ rfl fun _ => .inr (hsession hs).1
    | add hadd =>
      cases hadd with
      | trace _ | layouts _ | type _ | name _ _ => exact hsame rfl
      | constant hs _ _ _ _ => exact hpush (w.program.uniqueName "_Utf8").2 _ rfl rfl (hsession hs).2
      | table _ htype _ _ => exact hpush w.program _ rfl rfl ⟨_, htype, by simp⟩
      | registration _ _ =>
        have hpointer := hfollows.types _ _ (hopened.built.typesSound.shared .pointer)
        exact hpush (w.program.uniqueName "jcr_ptr").2 _ rfl rfl ⟨_, hpointer, by simp⟩

theorem Assembled.typed (h : Assembled target w0 s0 d w) : Typed w0 w := by
  refine (keep_along (P := fun v => w0.Follows v ∧ Typed w0 v) ?_ h.path ⟨.refl w0, fun e ent he => .inl ⟨ent, he, rfl⟩⟩).2
  exact fun u v hu hstep => ⟨hu.1.trans hstep.follows, hu.2.progress h.opened hu.1 hstep⟩

theorem Assembled.method_of_routine (h : Assembled target w0 s0 d w) (hent : w.program.entity? e = some ent)
    (hvisibility : ent.visibility ≠ .external) (hroutine : w.program.isRoutine ent = true) :
    ∃ ref m, w0.registry.method? ref = some m ∧ m.entity = some e := by
  have hdata : ¬IsData w.program.types ent.type := by
    rintro ⟨shape, hshape, hnot⟩
    rw [Program.isRoutine, TypeTable.signature?, hshape] at hroutine
    cases shape with
    | routine sig => exact hnot sig rfl
    | primitive _ | struct _ _ | union _ _ | array _ _ | unknown => cases hroutine
  obtain ⟨ent0, hent0, htype⟩ := (h.typed e ent hent).resolve_right hdata
  obtain ⟨ent', hent', -, -, hsame, -⟩ := h.sound.follows.entities e ent0 hent0
  cases hent.symm.trans hent'
  rcases part_of_entity h.opened.started h.opened.inventory hent0 with ⟨name, -, -, hexternal⟩ | ⟨c, cls, part, hcls, hhas, he, hmade⟩
  · exact absurd (hsame.trans hexternal) hvisibility
  have hbare : part = .descriptor ∨ part = .vtable → False := fun hpart =>
    hdata ⟨_, by rw [htype, (hmade.bare hpart).1]; exact h.sound.follows.types _ _ h.opened.unknown, by simp⟩
  cases part with
  | routine i =>
    obtain ⟨m, hm⟩ := hhas
    rw [Class.entityOf, hm, Option.bind_some] at he
    exact ⟨⟨c, i⟩, m, Option.bind_eq_some_iff.2 ⟨cls, hcls, hm⟩, he⟩
  | storage i =>
    obtain ⟨f, hf, -⟩ := hhas
    have hfield := (h.opened.built.declared c cls hcls).fields f (Array.mem_of_getElem? hf)
    rw [(hmade.storage i f rfl hf).1, storageType_of_declared hfield] at htype
    exact (hdata ⟨_, htype ▸ h.sound.follows.types _ _ (h.opened.built.typesSound.shared _), by simp⟩).elim
  | descriptor => exact (hbare (.inl rfl)).elim
  | vtable => exact (hbare (.inr rfl)).elim

end

/-! ### A small class set -/

/-- A class whose static initializer initializes the class itself, and the classes that every class set needs. -/
def oneInitializer : Manifest where
  classes :=
    [{ name := "java/lang/Object", external := true },
      { name := "java/lang/Class", super := "java/lang/Object", external := true },
      { name := "A", super := "java/lang/Object"
        methods := [{ name := "<clinit>", descriptor := "()V", access := ["static"], ops := ["initclass A"] }] }]

theorem exists_standsAfter_oneInitializer :
    ∃ w object cls a m, StandsAfter .linux64 [oneInitializer] false .lower w ∧ w.registry.classes = #[object, cls, a] ∧
      (object.name = "java/lang/Object" ∧ object.methods = #[]) ∧ (cls.name = "java/lang/Class" ∧ cls.methods = #[]) ∧
      (a.name = "A" ∧ a.external = false ∧ a.methods = #[m]) ∧
      (m.name = "<clinit>" ∧ m.descriptor = "()V" ∧ m.access = ⟨0x0008⟩ ∧ m.ops = [Text.ofString "initclass A"]) ∧
      (Module.Source.routines ⟨w.program, .linux64⟩).length = 1 := by
  obtain ⟨r1, h1⟩ : ∃ r, Manifest.populate [oneInitializer] { target := .linux64 } = r := ⟨_, rfl⟩
  obtain ⟨r2, h2⟩ : ∃ r, Class.layOutAll r1.2 = r := ⟨_, rfl⟩
  obtain ⟨r3, h3⟩ : ∃ r, (do Class.assignAllSlots; Class.createAllMembers : Action Unit) r2.2 = r := ⟨_, rfl⟩
  obtain ⟨r4, h4⟩ : ∃ r, Abi.start false r3.2 = r := ⟨_, rfl⟩
  obtain ⟨r5, h5⟩ : ∃ r, describeAll 0 (List.range r4.2.registry.classes.size) r4.2 = r := ⟨_, rfl⟩
  obtain ⟨r6, h6⟩ : ∃ r, lowerProgram false none r5.2 = r := ⟨_, rfl⟩
  -- The results are computed one after the other, each from the one before.
  have hr := h1
  cbv at hr
  subst hr
  have hr := h2
  cbv at hr
  subst hr
  have hr := h3
  cbv at hr
  subst hr
  have hr := h4
  cbv at hr
  subst hr
  have hr := h5
  cbv at hr
  subst hr
  have hr := h6
  cbv at hr
  subst hr
  exact ⟨_, _, _, _, _, .lower _ (.describe _ _ (.dispatch _ (.layout _ (.load h1) h2) h3) h4 h5) h6, rfl, ⟨rfl, rfl⟩, ⟨rfl, rfl⟩,
    ⟨rfl, rfl, rfl⟩, ⟨rfl, rfl, rfl, rfl⟩, rfl⟩

end Compile

end ClassAbi
