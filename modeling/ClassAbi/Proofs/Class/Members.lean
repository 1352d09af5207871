import ClassAbi.Abi.Start
import ClassAbi.Proofs.Class.Entities

/-!
# The entities of members

`Making` is one step towards the entities of a program: it makes a type, or an entity for the runtime or for a part of a class.
Once the members of all classes have been created, every method has a routine with its own signature and every static field
has storage, and no two members share an entity. So a class in which this succeeds has no two methods of one name and
descriptor: their routines would have the same linker name.
-/

namespace ClassAbi

variable {w w' : Workspace} {c : ClassId} {cls : Class} {i : Nat}
variable {m : Method}

def Class.routineEntity (cls : Class) (m : Method) (ld : Text) (t : TypeId) : Entity :=
  { name := m.name ++ "." ++ m.descriptor
    ld
    type := t
    visibility := if cls.external || m.access.isAbstract || m.access.isNative then .external else .exported }

def Class.storageEntity (cls : Class) (f : Field) (ld : Text) (t : TypeId) : Entity :=
  { name := f.name
    ld
    type := t
    visibility := if cls.external then .external else .exported
    init := if cls.external then none else some .null }

theorem finishes_createRoutine_iff :
    Finishes (Class.createRoutine c cls i m) w () w' ↔
      ∃ ld, LinkerName.ofMethod cls.name m.name m.descriptor = .ok ld ∧ w.program.Unused (w.target.decorate ld) ∧
        Workspace.linkNew { w with program := (w.program.addType (.routine m.signature)).2 } c (.routine i)
          (cls.routineEntity m (w.target.decorate ld) w.program.types.shapes.size) = w' := by
  by_cases hexternal : (cls.external || m.access.isAbstract || m.access.isNative) = true <;>
    simp [Class.createRoutine, hexternal, Class.routineEntity, Program.modifyEntity_push] <;> rfl

theorem finishes_createStorage_iff {f : Field} :
    Finishes (Class.createStorage c cls i f) w () w' ↔
      ∃ ld, LinkerName.ofField cls.name f.name = .ok ld ∧ w.program.Unused (w.target.decorate ld) ∧
        w.linkNew c (.storage i) (cls.storageEntity f (w.target.decorate ld) (w.registry.storageType f.type)) = w' := by
  by_cases hexternal : cls.external = true <;>
    simp [Class.createStorage, hexternal, Class.storageEntity, Program.modifyEntity_push] <;> rfl

def Class.Part.IsMember : Class.Part → Prop
  | .routine _ | .storage _ => True
  | .descriptor | .vtable => False

def Registry.members (r : Registry) : Set (ClassId × Class.Part) :=
  { h | ∃ cls, r.class? h.1 = some cls ∧ cls.Has h.2 ∧ h.2.IsMember }

/-- Whether something is declared for the runtime under a name. -/
def Abi.IsRuntimeName (name : Text) : Prop := (∃ h : Helper, name = h.ld) ∨ ∃ p : Primitive, name = Abi.primitiveClass p

theorem Abi.IsRuntimeName.ne_nil {name : Text} (h : Abi.IsRuntimeName name) : name ≠ [] := by
  obtain ⟨h, rfl⟩ | ⟨p, rfl⟩ := h
  · cases h <;> decide
  · cases p <;> decide

def Abi.externalEntity (target : Target) (name : Text) (t : TypeId) : Entity :=
  { name, ld := target.decorate name, type := t, visibility := .external }

namespace Workspace

variable {done S T : Set (ClassId × Class.Part)} {cls0 : Class} {O : Class.Part → Prop}

/-! ### Steps -/

/-- A step that makes a type, or an entity for the runtime or for one of the parts `O` of a class. -/
inductive Making (O : Class.Part → Prop) (w : Workspace) : Workspace → Prop
  | type (shape : Shape) : Making O w { w with program := (w.program.addType shape).2 }
  | layouts (t : TypeId) : Making O w { w with layouts := (Layout.layoutOf w.program.types w.target t w.layouts).2 }
  | runtime {name : Text} (t : TypeId) (hname : Abi.IsRuntimeName name) (hfree : w.program.Unused (w.target.decorate name)) :
    Making O w { w with program := w.program.push (Abi.externalEntity w.target name t) }
  | part {c : ClassId} {cls : Class} {part : Class.Part} {ent : Entity} (hown : O part)
    (hcls : w.registry.class? c = some cls) (hhas : cls.Has part) (hfree : w.program.Unused ent.ld)
    (hmade : (w.linkNew c part ent).MadeFor cls part w.program.entities.size ent) (hbody : ent.body = none)
    (hlinkage : ent.linkage = {}) (hsegment : ent.segment = .data) :
    Making O w (w.linkNew c part ent)

theorem Making.grown (h : Making O w w') : w.Grown w' := by
  cases h with
  | type shape => exact w.grown_addType shape
  | layouts t => exact ⟨rfl, fun _ _ h => h, fun _ _ h => h, fun _ _ h => h, .refl _⟩
  | runtime _ _ hfree =>
    exact ⟨rfl, fun _ _ h => h, fun _ _ h => Program.entity?_push_of_some h _, fun _ _ h => Program.lookup_push_of_some hfree h, .refl _⟩
  | part _ _ _ hfree _ _ _ _ => exact w.grown_linkNew _ _ _ hfree

theorem grown_of_makings (h : Relation.ReflTransGen (Making O) w w') : w.Grown w' :=
  keep_along (P := fun v => w.Grown v) (fun _ _ h hstep => h.trans hstep.grown) h (.refl w)

theorem Making.linked (h : Making O w w') (hw : w.Linked done) : w'.Linked done := by
  have hgrown := h.grown
  cases h with
  | type _ | layouts _ | runtime _ _ _ => exact hw.grown hgrown rfl
  | part _ hcls hhas hfree hmade _ _ _ => exact (hw.linkNew hcls hhas hfree hmade).mono (Set.subset_insert _ _)

/-- Whether steps lead from a workspace to another one, in which they have given entities to the parts `S` of classes. -/
structure Makes (O : Class.Part → Prop) (w : Workspace) (S : Set (ClassId × Class.Part)) (w' : Workspace) : Prop where
  path : Relation.ReflTransGen (Making O) w w'
  linked : ∀ {done}, w.Linked done → w'.Linked (S ∪ done)

theorem makes_of_path (h : Relation.ReflTransGen (Making O) w w') : Makes O w ∅ w' := by
  refine ⟨h, fun {done} hw => ?_⟩
  rw [Set.empty_union]
  exact keep_along (P := fun v => v.Linked done) (fun _ _ hw hstep => hstep.linked hw) h hw

theorem Makes.mono (h : Makes O w S w') (hsub : T ⊆ S) : Makes O w T w' :=
  ⟨h.path, fun hw => (h.linked hw).mono (Set.union_subset_union_left _ hsub)⟩

theorem Makes.trans {w'' : Workspace} (h : Makes O w S w') (h' : Makes O w' T w'') : Makes O w (S ∪ T) w'' := by
  refine ⟨h.path.trans h'.path, fun hw => (h'.linked (h.linked hw)).mono ?_⟩
  rw [← Set.union_assoc, Set.union_comm T S]

/-- Steps that each give entities to some parts, one after the other, in workspaces that have grown out of `w`. -/
theorem makes_forM {α : Type} {g : α → Action Unit} {S : α → Set (ClassId × Class.Part)} {as : List α} {v v' : Workspace}
    (hstep : ∀ a ∈ as, ∀ s s', w.Grown s → Finishes (g a) s () s' → Makes O s (S a) s') (hgrown : w.Grown v)
    (hrun : Finishes (as.forM g) v () v') : Makes O v { h | ∃ a ∈ as, h ∈ S a } v' := by
  induction as generalizing v with
  | nil =>
    obtain rfl := finishes_forM_nil_iff.1 hrun
    exact (makes_of_path .refl).mono (by simp)
  | cons a as ih =>
    rw [List.forall_mem_cons] at hstep
    obtain ⟨t, hfirst, hrest⟩ := finishes_forM_cons_iff.1 hrun
    have hmakes := hstep.1 v t hgrown hfirst
    refine (hmakes.trans (ih hstep.2 (hgrown.trans (grown_of_makings hmakes.path)) hrest)).mono ?_
    rintro x ⟨b, hb, hx⟩
    rcases List.mem_cons.1 hb with rfl | hb
    · exact .inl hx
    · exact .inr ⟨b, hb, hx⟩

theorem makes_part (part : Class.Part) {ent : Entity} (hown : O part) (hcls : w.registry.class? c = some cls)
    (hhas : cls.Has part) (hfree : w.program.Unused ent.ld)
    (hmade : (w.linkNew c part ent).MadeFor cls part w.program.entities.size ent)
    (hplain : ent.body = none ∧ ent.linkage = {} ∧ ent.segment = .data) : Makes O w {(c, part)} (w.linkNew c part ent) :=
  ⟨.single (.part hown hcls hhas hfree hmade hplain.1 hplain.2.1 hplain.2.2), fun hw => hw.linkNew hcls hhas hfree hmade⟩

/-! ### One member -/

theorem makes_of_createRoutine (hcls : w.registry.class? c = some cls0) (hsame : cls0.unlinked = cls.unlinked)
    (hm : cls.methods[i]? = some m) (hrun : Finishes (Class.createRoutine c cls i m) w () w') :
    Makes (·.IsMember) w {(c, .routine i)} w' := by
  obtain ⟨ld, hld, hfree, rfl⟩ := finishes_createRoutine_iff.1 hrun
  have hhas : cls.Has (.routine i) := ⟨m, hm⟩
  have hname : cls.LinkerNameOf (.routine i) ld := ⟨m, hm, hld⟩
  have hne : w.target.decorate ld ≠ [] := List.append_ne_nil_of_right_ne_nil _ hname.ne_nil
  have htype : Makes (·.IsMember) w ∅ { w with program := (w.program.addType (.routine m.signature)).2 } :=
    makes_of_path (.single (.type _))
  refine (htype.trans (makes_part (.routine i) trivial hcls (hhas.congr hsame) (by exact hfree) ?_ ⟨rfl, rfl, rfl⟩)).mono
    Set.subset_union_right
  refine ⟨Program.entity?_push_new _ _, Program.lookup_push_new _ hne, ⟨ld, hname.congr hsame, rfl⟩, ?_, ?_, by simp, by simp⟩
  · rw [Class.isDeclared_congr hsame, Class.isDeclared, hm, Option.any_some, Class.routineEntity, Bool.or_assoc]
  · intro j m' hj hm'
    cases hj
    obtain ⟨m1, hm1, heq⟩ := Class.exists_method_of_unlinked hsame hm'
    cases hm.symm.trans hm1
    have hsig : m'.unlinked.signature = m.unlinked.signature := congrArg Method.signature heq
    show (w.program.types.push (.routine m.signature)).2.signature? (w.program.types.push (.routine m.signature)).1 = _
    rw [TypeTable.signature?, w.program.types.shape?_push]
    exact congrArg some hsig.symm

theorem makes_of_createStorage {f : Field} (hcls : w.registry.class? c = some cls0) (hsame : cls0.unlinked = cls.unlinked)
    (hf : cls.fields[i]? = some f) (hstatic : f.access.isStatic = true)
    (hrun : Finishes (Class.createStorage c cls i f) w () w') : Makes (·.IsMember) w {(c, .storage i)} w' := by
  obtain ⟨ld, hld, hfree, rfl⟩ := finishes_createStorage_iff.1 hrun
  have hname : cls.LinkerNameOf (.storage i) ld := ⟨f, hf, hld⟩
  have hne : w.target.decorate ld ≠ [] := List.append_ne_nil_of_right_ne_nil _ hname.ne_nil
  have hhas : cls.Has (.storage i) := ⟨f, hf, hstatic⟩
  refine makes_part (.storage i) trivial hcls (hhas.congr hsame) hfree ?_ ⟨rfl, rfl, rfl⟩
  refine ⟨w.program.entity?_push_new _, w.program.lookup_push_new hne, ⟨ld, hname.congr hsame, rfl⟩, ?_, by simp, ?_, by simp⟩
  · rw [Class.isDeclared_congr hsame]
    rfl
  · intro j f' hj hf'
    cases hj
    obtain ⟨f1, hf1, heq⟩ := Class.exists_field_of_unlinked hsame hf'
    cases hf.symm.trans hf1
    have htype : f'.type = f.type := by simpa [Field.unlinked] using congrArg Field.type heq
    rw [htype, Class.external_eq_of_unlinked hsame]
    exact ⟨(Registry.storageType_congr (agreeUpTo_link _ _ _ _) _).symm, rfl⟩

/-! ### All members -/

theorem makes_of_createMembers (hcls : w.registry.class? c = some cls) (hrun : Finishes (Class.createMembers c) w () w') :
    Makes (·.IsMember) w { h | h.1 = c ∧ cls.Has h.2 ∧ h.2.IsMember } w' := by
  rw [Class.createMembers, finishes_bind_iff] at hrun
  obtain ⟨cls', w0, hread, hrun⟩ := hrun
  obtain ⟨hcls', rfl⟩ := Action.finishes_class'_iff.1 hread
  cases hcls.symm.trans hcls'
  obtain ⟨_, w1, hmethods, hfields⟩ := finishes_bind_iff.1 hrun
  have hroutines := makes_forM (O := (·.IsMember)) (S := fun x => {(c, .routine x.2)}) (fun x hx s s' hgrown hstep => by
    obtain ⟨cls1, hcls1, hsame⟩ := hgrown.registry.symm.exists_class hcls
    rw [List.mem_zipIdx_iff_getElem?, Array.getElem?_toList] at hx
    exact makes_of_createRoutine hcls1 hsame.symm hx hstep) (.refl w) hmethods
  have hstorage := makes_forM (O := (·.IsMember)) (S := fun x => if x.1.access.isStatic then {(c, .storage x.2)} else ∅)
    (fun x hx s s' hgrown hstep => by
      obtain ⟨cls1, hcls1, hsame⟩ := hgrown.registry.symm.exists_class hcls
      rw [List.mem_zipIdx_iff_getElem?, Array.getElem?_toList] at hx
      dsimp only at hstep ⊢
      split_ifs at hstep ⊢ with hstatic
      · exact makes_of_createStorage hcls1 hsame.symm hx hstatic hstep
      · obtain ⟨-, rfl⟩ := finishes_pure_iff.1 hstep
        exact makes_of_path .refl) (grown_of_makings hroutines.path) hfields
  refine (hroutines.trans hstorage).mono ?_
  rintro ⟨d, part⟩ ⟨rfl, hhas, hmember⟩
  cases part with
  | routine k =>
    obtain ⟨m, hm⟩ := hhas
    refine .inl ⟨(m, k), ?_, rfl⟩
    rw [List.mem_zipIdx_iff_getElem?, Array.getElem?_toList, hm]
  | storage k =>
    obtain ⟨f, hf, hstatic⟩ := hhas
    refine .inr ⟨(f, k), ?_, ?_⟩
    · rw [List.mem_zipIdx_iff_getElem?, Array.getElem?_toList, hf]
    · rw [if_pos hstatic]
      rfl
  | descriptor | vtable => exact hmember.elim

/-- Turns of all classes that make the parts `P` of each. -/
theorem makes_forM_classes {P : Class.Part → Prop} {g : ClassId → Action Unit}
    (hstep : ∀ c cls s s', s.registry.class? c = some cls → Finishes (g c) s () s' →
      Makes O s { h | h.1 = c ∧ cls.Has h.2 ∧ P h.2 } s')
    (hrun : Finishes ((List.range w.registry.classes.size).forM g) w () w') :
    Makes O w { h | ∃ cls, w'.registry.class? h.1 = some cls ∧ cls.Has h.2 ∧ P h.2 } w' := by
  have hmakes := makes_forM (O := O)
    (S := fun c => { h | h.1 = c ∧ ∃ cls, w.registry.class? c = some cls ∧ cls.Has h.2 ∧ P h.2 })
    (fun c hc s s' hgrown hturn => by
      have hcls0 := Registry.class?_eq_some (List.mem_range.1 hc)
      obtain ⟨cls, hcls, hsame⟩ := hgrown.registry.symm.exists_class hcls0
      refine (hstep c cls s s' hcls hturn).mono ?_
      rintro ⟨d, part⟩ ⟨rfl, cls1, hcls1, hhas, hpart⟩
      cases hcls0.symm.trans hcls1
      exact ⟨rfl, hhas.congr hsame.symm, hpart⟩) (.refl w) hrun
  refine hmakes.mono ?_
  rintro ⟨d, part⟩ ⟨cls, hcls, hhas, hpart⟩
  obtain ⟨cls0, hcls0, hsame⟩ := (grown_of_makings hmakes.path).registry.exists_class hcls
  exact ⟨d, List.mem_range.2 (Registry.lt_size_of_class? hcls0), rfl, cls0, hcls0, hhas.congr hsame.symm, hpart⟩

theorem makes_of_createAllMembers (hrun : Finishes Class.createAllMembers w () w') :
    Makes (·.IsMember) w w'.registry.members w' := by
  rw [Class.createAllMembers, finishes_bind_iff] at hrun
  obtain ⟨r, w0, hread, hrun⟩ := hrun
  obtain ⟨rfl, rfl⟩ := Action.finishes_registry_iff.1 hread
  exact makes_forM_classes (fun _ _ _ _ hcls hstep => makes_of_createMembers hcls hstep) hrun

theorem Linked.eq_of_key (h : w.Linked w.registry.members) (hcls : w.registry.class? c = some cls) {j : Nat} {m' : Method}
    (hm : cls.methods[i]? = some m) (hm' : cls.methods[j]? = some m') (hname : m.name = m'.name)
    (hdescriptor : m.descriptor = m'.descriptor) : i = j := by
  have hmem : (c, Class.Part.routine i) ∈ w.registry.members := ⟨cls, hcls, ⟨m, hm⟩, trivial⟩
  have hmem' : (c, Class.Part.routine j) ∈ w.registry.members := ⟨cls, hcls, ⟨m', hm'⟩, trivial⟩
  obtain ⟨cls1, e, ent, hcls1, he, hmade⟩ := h.made _ _ hmem
  obtain ⟨cls2, e', ent', hcls2, he', hmade'⟩ := h.made _ _ hmem'
  cases hcls.symm.trans hcls1
  cases hcls.symm.trans hcls2
  -- The two routines have the same linker name, and only one entity has it.
  have hld : ent.ld = ent'.ld := by
    obtain ⟨ld, ⟨m1, hm1, hok⟩, heq⟩ := hmade.ld
    obtain ⟨ld', ⟨m2, hm2, hok'⟩, heq'⟩ := hmade'.ld
    cases hm.symm.trans hm1
    cases hm'.symm.trans hm2
    rw [hname, hdescriptor, hok', Except.ok.injEq] at hok
    rw [heq, heq', hok]
  have hfound := hmade.found
  rw [hld, hmade'.found] at hfound
  obtain rfl := Option.some.inj hfound
  have heq := h.distinct c _ c _ cls cls e' hmem hmem' hcls hcls he he'
  cases heq
  rfl

end Workspace

end ClassAbi
