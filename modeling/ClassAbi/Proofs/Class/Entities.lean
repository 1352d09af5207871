import ClassAbi.Class.Members
import ClassAbi.Proofs.Class.Hierarchy
import ClassAbi.Proofs.LinkerName.Inverse
import ClassAbi.Proofs.Program

/-!
# The entities of classes

Methods, static fields, class descriptors and vtables have entities in the program. Each is made under a linker name that is
not in use, and then entered in its class; nothing else of the class changes. `Workspace.Linked` says that some parts of
classes have been given entities, each one its own. It also holds of classes in which other entities had been entered
before, as these are replaced.
-/

namespace ClassAbi

def Method.unlinked (m : Method) : Method := { m with entity := none }

def Field.unlinked (f : Field) : Field := { f with entity := none }

namespace Class

/-- What can have an entity in a class. -/
inductive Part where
  | routine (i : Nat)
  | storage (i : Nat)
  | descriptor
  | vtable
  deriving DecidableEq

def entityOf (cls : Class) : Part → Option EntityId
  | .routine i => cls.methods[i]?.bind Method.entity
  | .storage i => cls.fields[i]?.bind Field.entity
  | .descriptor => cls.descriptor
  | .vtable => cls.vtableEntity

/-- Whether a class has a part: all methods have routines, but only static fields have storage, and interfaces have no
vtable. -/
def Has (cls : Class) : Part → Prop
  | .routine i => ∃ m, cls.methods[i]? = some m
  | .storage i => ∃ f, cls.fields[i]? = some f ∧ f.access.isStatic = true
  | .descriptor => True
  | .vtable => cls.needsVtable = true

/-- The class in which the entity of a part is entered. -/
def link (cls : Class) (part : Part) (e : EntityId) : Class :=
  match part with
  | .routine i => { cls with methods := cls.methods.modify i fun m => { m with entity := some e } }
  | .storage i => { cls with fields := cls.fields.modify i fun f => { f with entity := some e } }
  | .descriptor => { cls with descriptor := some e }
  | .vtable => { cls with vtableEntity := some e }

def unlinked (cls : Class) : Class :=
  { cls with
    methods := cls.methods.map Method.unlinked
    fields := cls.fields.map Field.unlinked
    descriptor := none
    vtableEntity := none }

/-- Whether a text is the linker name of a part, without the decoration of the target. -/
def LinkerNameOf (cls : Class) (part : Part) (ld : Text) : Prop :=
  match part with
  | .routine i => ∃ m, cls.methods[i]? = some m ∧ LinkerName.ofMethod cls.name m.name m.descriptor = .ok ld
  | .storage i => ∃ f, cls.fields[i]? = some f ∧ LinkerName.ofField cls.name f.name = .ok ld
  | .descriptor => LinkerName.ofDescriptor cls.name = .ok ld
  | .vtable => LinkerName.ofVtable cls.name = .ok ld

/-- Whether a part is only declared: the runtime provides it, or it is a method without a body. -/
def isDeclared (cls : Class) : Part → Bool
  | .routine i => cls.external || cls.methods[i]?.any fun m => m.access.isAbstract || m.access.isNative
  | _ => cls.external

variable {cls cls' : Class} {part part' : Part} {e : EntityId}

theorem modify_map_unlinked {α : Type} (xs : Array α) (i : Nat) {f g : α → α} (h : ∀ x, g (f x) = g x) :
    (xs.modify i f).map g = xs.map g := by
  apply Array.ext_getElem?
  intro j
  rw [Array.getElem?_map, Array.getElem?_map, Array.getElem?_modify]
  split_ifs with hij
  · simp [Option.map_map, Function.comp_def, h]
  · rfl

theorem unlinked_link (cls : Class) (part : Part) (e : EntityId) : (cls.link part e).unlinked = cls.unlinked := by
  cases part with
  | routine i =>
    have hmethods : (cls.methods.modify i fun m => { m with entity := some e }).map Method.unlinked =
        cls.methods.map Method.unlinked := modify_map_unlinked cls.methods i fun _ => rfl
    simp only [link, unlinked, hmethods]
  | storage i =>
    have hfields : (cls.fields.modify i fun f => { f with entity := some e }).map Field.unlinked =
        cls.fields.map Field.unlinked := modify_map_unlinked cls.fields i fun _ => rfl
    simp only [link, unlinked, hfields]
  | descriptor => rfl
  | vtable => rfl

theorem entityOf_link_self (h : cls.Has part) (e : EntityId) : (cls.link part e).entityOf part = some e := by
  cases part with
  | routine i =>
    obtain ⟨m, hm⟩ := h
    simp [link, entityOf, Array.getElem?_modify, hm]
  | storage i =>
    obtain ⟨f, hf, -⟩ := h
    simp [link, entityOf, Array.getElem?_modify, hf]
  | descriptor => rfl
  | vtable => rfl

theorem entityOf_link_of_ne (h : part' ≠ part) (e : EntityId) : (cls.link part e).entityOf part' = cls.entityOf part' := by
  cases part <;> cases part' <;> simp_all [link, entityOf, Array.getElem?_modify]
  all_goals rw [if_neg (Ne.symm h)]

/-! ### What does not depend on entities -/

theorem exists_method_of_unlinked (h : cls'.unlinked = cls.unlinked) {i : Nat} {m' : Method} (hm' : cls'.methods[i]? = some m') :
    ∃ m, cls.methods[i]? = some m ∧ m'.unlinked = m.unlinked := by
  have hmethods := congrArg (fun c : Class => c.methods[i]?) h
  simp only [unlinked, Array.getElem?_map, hm', Option.map_some] at hmethods
  obtain ⟨m, hm, heq⟩ := Option.map_eq_some_iff.1 hmethods.symm
  exact ⟨m, hm, heq.symm⟩

theorem exists_field_of_unlinked (h : cls'.unlinked = cls.unlinked) {i : Nat} {f' : Field} (hf' : cls'.fields[i]? = some f') :
    ∃ f, cls.fields[i]? = some f ∧ f'.unlinked = f.unlinked := by
  have hfields := congrArg (fun c : Class => c.fields[i]?) h
  simp only [unlinked, Array.getElem?_map, hf', Option.map_some] at hfields
  obtain ⟨f, hf, heq⟩ := Option.map_eq_some_iff.1 hfields.symm
  exact ⟨f, hf, heq.symm⟩

theorem name_eq_of_unlinked (h : cls'.unlinked = cls.unlinked) : cls'.name = cls.name := by
  simpa [unlinked] using congrArg Class.name h

theorem external_eq_of_unlinked (h : cls'.unlinked = cls.unlinked) : cls'.external = cls.external := by
  simpa [unlinked] using congrArg Class.external h

theorem access_eq_of_unlinked (h : cls'.unlinked = cls.unlinked) : cls'.access = cls.access := by
  simpa [unlinked] using congrArg Class.access h

theorem Has.congr (hhas : cls.Has part) (h : cls'.unlinked = cls.unlinked) : cls'.Has part := by
  cases part with
  | routine i =>
    obtain ⟨m, hm⟩ := hhas
    obtain ⟨m', hm', -⟩ := exists_method_of_unlinked h.symm hm
    exact ⟨m', hm'⟩
  | storage i =>
    obtain ⟨f, hf, hstatic⟩ := hhas
    obtain ⟨f', hf', heq⟩ := exists_field_of_unlinked h.symm hf
    have haccess : f.access = f'.access := by simpa [Field.unlinked] using congrArg Field.access heq
    exact ⟨f', hf', haccess ▸ hstatic⟩
  | descriptor => trivial
  | vtable =>
    have haccess := access_eq_of_unlinked h
    simp only [Has, needsVtable, isInterface, haccess] at hhas ⊢
    exact hhas

theorem LinkerNameOf.congr {ld : Text} (hld : cls.LinkerNameOf part ld) (h : cls'.unlinked = cls.unlinked) :
    cls'.LinkerNameOf part ld := by
  have hname := name_eq_of_unlinked h
  cases part with
  | routine i =>
    obtain ⟨m, hm, hok⟩ := hld
    obtain ⟨m', hm', heq⟩ := exists_method_of_unlinked h.symm hm
    have hmname : m.name = m'.name := by simpa [Method.unlinked] using congrArg Method.name heq
    have hmdesc : m.descriptor = m'.descriptor := by simpa [Method.unlinked] using congrArg Method.descriptor heq
    exact ⟨m', hm', by rw [hname, ← hmname, ← hmdesc, hok]⟩
  | storage i =>
    obtain ⟨f, hf, hok⟩ := hld
    obtain ⟨f', hf', heq⟩ := exists_field_of_unlinked h.symm hf
    have hfname : f.name = f'.name := by simpa [Field.unlinked] using congrArg Field.name heq
    exact ⟨f', hf', by rw [hname, ← hfname, hok]⟩
  | descriptor => exact (congrArg LinkerName.ofDescriptor hname).trans hld
  | vtable => exact (congrArg LinkerName.ofVtable hname).trans hld

theorem isDeclared_congr (h : cls'.unlinked = cls.unlinked) (part : Part) : cls'.isDeclared part = cls.isDeclared part := by
  have hexternal := external_eq_of_unlinked h
  cases part with
  | routine i =>
    rw [isDeclared, isDeclared, hexternal]
    cases hm : cls.methods[i]? with
    | none =>
      cases hm' : cls'.methods[i]? with
      | none => rfl
      | some m' =>
        obtain ⟨m, hm1, -⟩ := exists_method_of_unlinked h hm'
        cases hm.symm.trans hm1
    | some m =>
      obtain ⟨m', hm', heq⟩ := exists_method_of_unlinked h.symm hm
      have haccess : m.access = m'.access := by simpa [Method.unlinked] using congrArg Method.access heq
      rw [hm', Option.any_some, Option.any_some, haccess]
  | storage i => exact hexternal
  | descriptor => exact hexternal
  | vtable => exact hexternal

theorem LinkerNameOf.unique {ld ld' : Text} (h : cls.LinkerNameOf part ld) (h' : cls.LinkerNameOf part ld') : ld = ld' := by
  cases part with
  | routine i =>
    obtain ⟨m, hm, hok⟩ := h
    obtain ⟨m', hm', hok'⟩ := h'
    cases hm.symm.trans hm'
    exact Except.ok.inj (hok.symm.trans hok')
  | storage i =>
    obtain ⟨f, hf, hok⟩ := h
    obtain ⟨f', hf', hok'⟩ := h'
    cases hf.symm.trans hf'
    exact Except.ok.inj (hok.symm.trans hok')
  | descriptor => exact Except.ok.inj (Eq.trans (Eq.symm h) h')
  | vtable => exact Except.ok.inj (Eq.trans (Eq.symm h) h')

theorem LinkerNameOf.ne_nil {ld : Text} (h : cls.LinkerNameOf part ld) : ld ≠ [] := by
  cases part with
  | routine i =>
    obtain ⟨m, -, hok⟩ := h
    obtain ⟨_, _, -, -, -, rfl⟩ := LinkerName.ofMethod_eq_ok hok
    exact List.append_ne_nil_of_left_ne_nil (by decide) _
  | storage i =>
    obtain ⟨f, -, hok⟩ := h
    obtain ⟨_, -, -, rfl⟩ := LinkerName.ofField_eq_ok hok
    exact List.append_ne_nil_of_left_ne_nil (by decide) _
  | descriptor =>
    obtain ⟨-, rfl⟩ := LinkerName.ofDescriptor_eq_ok_iff.1 h
    exact List.append_ne_nil_of_left_ne_nil (by decide) _
  | vtable =>
    obtain ⟨-, rfl⟩ := LinkerName.ofVtable_eq_ok h
    exact List.append_ne_nil_of_left_ne_nil (by decide) _

end Class

theorem Registry.storageType_congr {r r' : Registry} (h : Registry.AgreeUpTo Class.unlinked r r') (t : JavaType) :
    r'.storageType t = r.storageType t := by
  cases t with
  | cls c =>
    have hinstance : ∀ o : Option Class, o.bind Class.instance = (o.map Class.unlinked).bind Class.instance := by
      rintro (_ | cls) <;> rfl
    rw [storageType, storageType, hinstance, hinstance (r.class? c), h.class?_eq]
  | void | primitive p | pointer elem => rfl

/-! ### Growing workspaces -/

/-- Whether the entities of a workspace are still in place in another one, in which classes may have other entities. -/
structure Workspace.Grown (w w' : Workspace) : Prop where
  target_eq : w'.target = w.target
  types : w.program.types.Extends w'.program.types
  entities : ∀ e ent, w.program.entity? e = some ent → w'.program.entity? e = some ent
  lookup : ∀ ld e, w.program.lookup ld = some e → w'.program.lookup ld = some e
  registry : Registry.AgreeUpTo Class.unlinked w.registry w'.registry

namespace Workspace

variable {w w' w'' : Workspace}

theorem Grown.refl (w : Workspace) : w.Grown w := ⟨rfl, fun _ _ h => h, fun _ _ h => h, fun _ _ h => h, .refl _⟩

theorem Grown.trans (h : w.Grown w') (h' : w'.Grown w'') : w.Grown w'' where
  target_eq := h'.target_eq.trans h.target_eq
  types t shape ht := h'.types t shape (h.types t shape ht)
  entities e ent he := h'.entities e ent (h.entities e ent he)
  lookup ld e he := h'.lookup ld e (h.lookup ld e he)
  registry := h.registry.trans h'.registry

theorem grown_addType (w : Workspace) (shape : Shape) : w.Grown { w with program := (w.program.addType shape).2 } :=
  ⟨rfl, w.program.types.extends_push shape, fun _ _ h => h, fun _ _ h => h, .refl _⟩

/-- The workspace with a new entity that is entered in a class. -/
def linkNew (w : Workspace) (c : ClassId) (part : Class.Part) (ent : Entity) : Workspace :=
  { w with
    program := w.program.push ent
    registry := w.registry.modifyClass c fun cls => cls.link part w.program.entities.size }

theorem agreeUpTo_link (r : Registry) (c : ClassId) (part : Class.Part) (e : EntityId) :
    Registry.AgreeUpTo Class.unlinked r (r.modifyClass c fun cls => cls.link part e) where
  byName_eq := rfl
  class?_eq d := by
    rw [Registry.class?_modifyClass]
    split_ifs with hcd
    · rw [Option.map_map]
      congr 1
      funext cls
      exact cls.unlinked_link part e
    · rfl

theorem grown_linkNew (w : Workspace) (c : ClassId) (part : Class.Part) (ent : Entity) (hfree : w.program.Unused ent.ld) :
    w.Grown (w.linkNew c part ent) where
  target_eq := rfl
  types _ _ h := h
  entities _ _ h := Program.entity?_push_of_some h ent
  lookup _ _ h := Program.lookup_push_of_some hfree h
  registry := agreeUpTo_link _ _ _ _

/-! ### Entities for the parts of classes -/

/-- Whether `ent`, with the number `e`, is the entity for a part of a class. -/
structure MadeFor (w : Workspace) (cls : Class) (part : Class.Part) (e : EntityId) (ent : Entity) : Prop where
  entity : w.program.entity? e = some ent
  found : w.program.lookup ent.ld = some e
  ld : ∃ ld, cls.LinkerNameOf part ld ∧ ent.ld = w.target.decorate ld
  visibility : ent.visibility = if cls.isDeclared part then .external else .exported
  routine : ∀ i m, part = .routine i → cls.methods[i]? = some m → w.program.types.signature? ent.type = some m.signature
  storage : ∀ i f, part = .storage i → cls.fields[i]? = some f →
    ent.type = w.registry.storageType f.type ∧ ent.init = if cls.external then none else some .null
  -- Descriptors and vtables are filled later.
  bare : part = .descriptor ∨ part = .vtable → ent.type = unknownType ∧ ent.init = none

theorem signature?_of_extends {types types' : TypeTable} (h : types.Extends types') {t : TypeId} {sig : Signature}
    (hsig : types.signature? t = some sig) : types'.signature? t = some sig := by
  rw [TypeTable.signature?] at hsig ⊢
  split at hsig
  · cases hsig
    rw [h t _ ‹_›]
  · cases hsig

theorem MadeFor.grown {cls cls' : Class} {part : Class.Part} {e : EntityId} {ent : Entity} (h : w.MadeFor cls part e ent)
    (hgrown : w.Grown w') (hcls : cls'.unlinked = cls.unlinked) : w'.MadeFor cls' part e ent where
  entity := hgrown.entities e ent h.entity
  found := hgrown.lookup _ e h.found
  ld := by
    obtain ⟨ld, hld, heq⟩ := h.ld
    exact ⟨ld, hld.congr hcls, by rw [hgrown.target_eq, heq]⟩
  visibility := by rw [Class.isDeclared_congr hcls, h.visibility]
  routine i m hpart hm := by
    obtain ⟨m0, hm0, heq⟩ := Class.exists_method_of_unlinked hcls hm
    have hsig : m.unlinked.signature = m0.unlinked.signature := congrArg Method.signature heq
    exact (signature?_of_extends hgrown.types (h.routine i m0 hpart hm0)).trans (congrArg some hsig.symm)
  storage i f hpart hf := by
    obtain ⟨f0, hf0, heq⟩ := Class.exists_field_of_unlinked hcls hf
    have htype : f.type = f0.type := by simpa [Field.unlinked] using congrArg Field.type heq
    obtain ⟨hstorage, hinit⟩ := h.storage i f0 hpart hf0
    rw [htype, Registry.storageType_congr hgrown.registry, Class.external_eq_of_unlinked hcls]
    exact ⟨hstorage, hinit⟩
  bare := h.bare

/-- Whether the parts of classes in `done` have entities that were made for them, each one its own. -/
structure Linked (w : Workspace) (done : Set (ClassId × Class.Part)) : Prop where
  made : ∀ c part, (c, part) ∈ done → ∃ cls e ent, w.registry.class? c = some cls ∧ cls.entityOf part = some e ∧
    w.MadeFor cls part e ent
  distinct : ∀ c part c' part' cls cls' e, (c, part) ∈ done → (c', part') ∈ done → w.registry.class? c = some cls →
    w.registry.class? c' = some cls' → cls.entityOf part = some e → cls'.entityOf part' = some e → (c, part) = (c', part')

variable {done : Set (ClassId × Class.Part)}

theorem linked_empty (w : Workspace) : w.Linked ∅ := ⟨fun _ _ h => h.elim, fun _ _ _ _ _ _ _ h => h.elim⟩

theorem Linked.mono {done' : Set (ClassId × Class.Part)} (h : w.Linked done) (hsub : done' ⊆ done) : w.Linked done' where
  made c part hmem := h.made c part (hsub hmem)
  distinct c part c' part' cls cls' e hmem hmem' := h.distinct c part c' part' cls cls' e (hsub hmem) (hsub hmem')

theorem Linked.grown (h : w.Linked done) (hgrown : w.Grown w') (hregistry : w'.registry = w.registry) : w'.Linked done where
  made c part hmem := by
    obtain ⟨cls, e, ent, hcls, he, hmade⟩ := h.made c part hmem
    exact ⟨cls, e, ent, by rw [hregistry, hcls], he, hmade.grown hgrown rfl⟩
  distinct := by
    rw [hregistry]
    exact h.distinct

theorem Linked.exists_made {c : ClassId} {cls : Class} (h : w.Linked done) (part : Class.Part)
    (hcls : w.registry.class? c = some cls) (hmem : (c, part) ∈ done) :
    ∃ e ent, cls.entityOf part = some e ∧ w.MadeFor cls part e ent := by
  obtain ⟨cls', e, ent, hcls', he, hmade⟩ := h.made c part hmem
  cases hcls.symm.trans hcls'
  exact ⟨e, ent, he, hmade⟩

theorem Linked.exists_madeFor {c : ClassId} {cls : Class} {e : EntityId} (h : w.Linked done) (part : Class.Part)
    (hcls : w.registry.class? c = some cls) (hmem : (c, part) ∈ done) (he : cls.entityOf part = some e) :
    ∃ ent, w.MadeFor cls part e ent := by
  obtain ⟨e', ent, he', hmade⟩ := h.exists_made part hcls hmem
  cases he.symm.trans he'
  exact ⟨ent, hmade⟩

theorem entityOf_linkNew {c d : ClassId} {part part' : Class.Part} {ent : Entity} {dcls : Class}
    (hd : (w.linkNew c part ent).registry.class? d = some dcls) (hne : (d, part') ≠ (c, part)) :
    ∃ dcls0, w.registry.class? d = some dcls0 ∧ dcls.unlinked = dcls0.unlinked ∧
      dcls.entityOf part' = dcls0.entityOf part' := by
  simp only [linkNew, Registry.class?_modifyClass] at hd
  split_ifs at hd with hcd
  · obtain ⟨dcls0, hdcls0, rfl⟩ := Option.map_eq_some_iff.1 hd
    have hpart : part' ≠ part := by
      rintro rfl
      exact hne (by rw [hcd])
    exact ⟨dcls0, hdcls0, dcls0.unlinked_link _ _, Class.entityOf_link_of_ne hpart _⟩
  · exact ⟨dcls, hd, rfl, rfl⟩

theorem Linked.linkNew (h : w.Linked done) {c : ClassId} {cls : Class} {part : Class.Part} {ent : Entity}
    (hcls : w.registry.class? c = some cls) (hhas : cls.Has part) (hfree : w.program.Unused ent.ld)
    (hmade : (w.linkNew c part ent).MadeFor cls part w.program.entities.size ent) :
    (w.linkNew c part ent).Linked (insert (c, part) done) := by
  have hgrown := w.grown_linkNew c part ent hfree
  have hhere : (w.linkNew c part ent).registry.class? c = some (cls.link part w.program.entities.size) := by
    simp [Workspace.linkNew, Registry.class?_modifyClass, hcls]
  have hself := Class.entityOf_link_self hhas w.program.entities.size
  -- Entities that were there before have smaller numbers than the new one.
  have hold : ∀ d part' dcls e, (d, part') ∈ done → (d, part') ≠ (c, part) →
      (w.linkNew c part ent).registry.class? d = some dcls → dcls.entityOf part' = some e → e < w.program.entities.size := by
    intro d part' dcls e hmem hne hdcls he
    obtain ⟨dcls0, hdcls0, -, hsame⟩ := entityOf_linkNew hdcls hne
    obtain ⟨dcls1, e1, ent1, hdcls1, he1, hmade1⟩ := h.made d part' hmem
    cases hdcls0.symm.trans hdcls1
    cases (hsame.symm.trans he).symm.trans he1
    exact Program.lt_size_of_entity? hmade1.entity
  have hnew : ∀ dcls e, (w.linkNew c part ent).registry.class? c = some dcls → dcls.entityOf part = some e →
      e = w.program.entities.size := by
    intro dcls e hdcls he
    cases hhere.symm.trans hdcls
    exact Option.some.inj (he.symm.trans hself)
  constructor
  · intro d part' hmem
    by_cases hd : (d, part') = (c, part)
    · cases hd
      exact ⟨_, _, ent, hhere, hself, hmade.grown (.refl _) (cls.unlinked_link _ _)⟩
    · have hmem' : (d, part') ∈ done := Set.mem_of_mem_insert_of_ne hmem hd
      obtain ⟨dcls0, e, ent', hdcls0, he, hmade'⟩ := h.made d part' hmem'
      obtain ⟨dcls, hdcls, -⟩ := hgrown.registry.symm.exists_class hdcls0
      obtain ⟨dcls1, hdcls1, hunlinked, hsame⟩ := entityOf_linkNew hdcls hd
      cases hdcls0.symm.trans hdcls1
      exact ⟨dcls, e, ent', hdcls, hsame.trans he, hmade'.grown hgrown hunlinked⟩
  · intro d part1 d' part2 dcls dcls' e hmem hmem' hdcls hdcls' he he'
    by_cases hd : (d, part1) = (c, part)
    · by_cases hd' : (d', part2) = (c, part)
      · rw [hd, hd']
      · cases hd
        have hlt := hold d' part2 dcls' e (Set.mem_of_mem_insert_of_ne hmem' hd') hd' hdcls' he'
        exact absurd (hnew dcls e hdcls he) hlt.ne
    · have hmem1 := Set.mem_of_mem_insert_of_ne hmem hd
      by_cases hd' : (d', part2) = (c, part)
      · cases hd'
        have hlt := hold d part1 dcls e hmem1 hd hdcls he
        exact absurd (hnew dcls' e hdcls' he') hlt.ne
      · obtain ⟨dcls0, hdcls0, -, hsame⟩ := entityOf_linkNew hdcls hd
        obtain ⟨dcls0', hdcls0', -, hsame'⟩ := entityOf_linkNew hdcls' hd'
        exact h.distinct d part1 d' part2 dcls0 dcls0' e hmem1 (Set.mem_of_mem_insert_of_ne hmem' hd') hdcls0 hdcls0'
          (hsame.symm.trans he) (hsame'.symm.trans he')

end Workspace

end ClassAbi
