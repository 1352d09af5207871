import ClassAbi.Proofs.Class.Instance
import ClassAbi.Proofs.Class.Slots

/-!
# Renaming classes

The number of a class is its position among the declarations. Two registries that have the same classes in another order
differ by a renaming of these numbers, and reading descriptors, laying out objects and assigning slots all commute with it:
the data type of the objects of a class and its slots are determined by the class and its superclass alone
(`Registry.ObjectType`, `Registry.Slotted`), in whatever order the classes have their turns.
-/

namespace ClassAbi

variable {cls cls' : Class}

/-! ### Types -/

def JavaType.rename (σ : ClassId → ClassId) : JavaType → JavaType
  | .void => .void
  | .primitive p => .primitive p
  | .cls c => .cls (σ c)
  | .pointer elem => .pointer (elem.rename σ)

section

variable {σ : ClassId → ClassId} {r r' : Registry}

theorem JavaType.mode_rename (t : JavaType) : (t.rename σ).mode = t.mode := by
  cases t <;> rfl

theorem JavaType.rename_id (t : JavaType) : t.rename id = t := by
  induction t with
  | void => rfl
  | primitive p => rfl
  | cls c => rfl
  | pointer elem ih => rw [rename, ih]

namespace Registry

theorem readType_rename (h : ∀ name, r'.find? name = (r.find? name).map σ) (whole t : Text) :
    r'.readType whole t = (r.readType whole t).map fun x => (x.1.rename σ, x.2) := by
  induction t with
  | nil => rfl
  | cons c t ih =>
    rw [readType.eq_def, readType.eq_def r]
    dsimp only
    cases Primitive.ofLetter? c with
    | some p => rfl
    | none =>
      dsimp only
      split_ifs with hclass harray
      · split
        · rfl
        · rw [h]
          cases r.find? (t.takeWhile (· != Ascii.semicolon)) <;> rfl
      · rw [ih]
        cases r.readType whole t <;> rfl
      · rfl

theorem typeOfDescriptor_rename (h : ∀ name, r'.find? name = (r.find? name).map σ) (descriptor : Text) :
    r'.typeOfDescriptor descriptor = (r.typeOfDescriptor descriptor).map (JavaType.rename σ) := by
  rw [typeOfDescriptor, typeOfDescriptor, readType_rename h]
  cases r.readType descriptor descriptor with
  | error e => rfl
  | ok x =>
    obtain ⟨t, rest, hrest⟩ := x
    cases rest <;> rfl

theorem readParameters_rename (h : ∀ name, r'.find? name = (r.find? name).map σ) (whole t : Text) :
    r'.readParameters whole t = (r.readParameters whole t).map fun x => (x.1.map (JavaType.rename σ), x.2) := by
  induction t using readParameters.induct with
  | case1 =>
    rw [readParameters, readParameters]
    rfl
  | case2 rest =>
    rw [readParameters, readParameters, if_pos rfl, if_pos rfl]
    rfl
  | case3 c rest hc ih =>
    rw [readParameters, readParameters, if_neg hc, if_neg hc, readType_rename h]
    cases r.readType whole (c :: rest) with
    | error e => rfl
    | ok x =>
      obtain ⟨p, rest', hlt⟩ := x
      simp only [Except.map, bind, Except.bind, ih rest' hlt]
      cases r.readParameters whole rest' <;> rfl

theorem typesOfDescriptor_rename (h : ∀ name, r'.find? name = (r.find? name).map σ) (descriptor : Text) :
    r'.typesOfDescriptor descriptor =
      (r.typesOfDescriptor descriptor).map fun x => (x.1.map (JavaType.rename σ), x.2.rename σ) := by
  rw [typesOfDescriptor.eq_def, typesOfDescriptor.eq_def r]
  split
  · rw [readParameters_rename h]
    rename_i t
    generalize r.readParameters _ t = parameters
    cases parameters with
    | error e => rfl
    | ok x =>
      obtain ⟨params, rest⟩ := x
      simp only [Except.map, bind, Except.bind]
      split_ifs
      · rfl
      · rw [readType_rename h]
        generalize r.readType _ rest = result
        cases result with
        | error e => rfl
        | ok x =>
          obtain ⟨result, rest', hlt⟩ := x
          cases rest' <;> rfl
  · rfl

end Registry

/-! ### Classes -/

/-- The method in whose types the classes have other numbers. -/
def Method.rename (σ : ClassId → ClassId) (m : Method) : Method :=
  { m with params := m.params.map (JavaType.rename σ), result := m.result.rename σ }

/-- The field in whose type the classes have other numbers. -/
def Field.rename (σ : ClassId → ClassId) (f : Field) : Field := { f with type := f.type.rename σ }

def MethodRef.rename (σ : ClassId → ClassId) (m : MethodRef) : MethodRef := { m with owner := σ m.owner }

/-- The class in which other classes have other numbers. -/
def Class.rename (σ : ClassId → ClassId) (cls : Class) : Class :=
  { cls with
    super := cls.super.map σ
    interfaces := cls.interfaces.map σ
    methods := cls.methods.map (Method.rename σ)
    fields := cls.fields.map (Field.rename σ)
    vtable := cls.vtable.map (MethodRef.rename σ) }

theorem Registry.methodOf_rename (h : ∀ name, r'.find? name = (r.find? name).map σ) (cls : Access) (name descriptor : Text)
    (access : Access) :
    r'.methodOf cls name descriptor access = (r.methodOf cls name descriptor access).map (Method.rename σ) := by
  rw [methodOf, methodOf, typesOfDescriptor_rename h]
  cases r.typesOfDescriptor descriptor <;> rfl

theorem Registry.fieldOf_rename (h : ∀ name, r'.find? name = (r.find? name).map σ) (name descriptor : Text)
    (access : Access) : r'.fieldOf name descriptor access = (r.fieldOf name descriptor access).map (Field.rename σ) := by
  rw [fieldOf, fieldOf, typeOfDescriptor_rename h]
  cases r.typeOfDescriptor descriptor <;> rfl

theorem Class.supertypes_rename (cls : Class) : (cls.rename σ).supertypes = cls.supertypes.map σ := by
  simp only [supertypes, rename, List.map_append]
  cases cls.super <;> rfl

theorem Class.fieldTypes_rename (cls : Class) : (cls.rename σ).fieldTypes = cls.fieldTypes := by
  simp only [fieldTypes, instanceFields, rename, Array.toList_map, List.filter_map, List.map_map]
  apply List.map_congr_left
  intro f _
  exact congrArg DataType.scalar f.type.mode_rename

theorem withOffsets_rename (fields : List Field) (places : List Place) :
    Class.withOffsets (fields.map (Field.rename σ)) places = (Class.withOffsets fields places).map (Field.rename σ) := by
  induction fields, places using Class.withOffsets.induct with
  | case1 places => rfl
  | case2 f fields places hstatic ih => simp [Class.withOffsets, Field.rename, hstatic, ih]
  | case3 f fields hstatic => simp [Class.withOffsets, Field.rename, hstatic]
  | case4 f fields hstatic place places ih => simp [Class.withOffsets, Field.rename, hstatic, ih]

end

/-- A class but for the type of its objects, which is numbered in the order of the turns. -/
def Class.untyped (cls : Class) : Class := { cls with «instance» := none }

theorem Class.untyped_withLayout {σ : ClassId → ClassId} (h : cls'.untyped = (cls.rename σ).untyped) (t t' : TypeId)
    (l : TypeLayout) : (cls'.withLayout t' l).untyped = ((cls.withLayout t l).rename σ).untyped := by
  have hwith : (cls'.withLayout t' l).untyped = (cls'.untyped.withLayout t l).untyped := rfl
  rw [hwith, h]
  simp only [untyped, withLayout, rename, Array.toList_map, withOffsets_rename, List.map_toArray]

namespace Registry

/-- Whether the classes of `r'` are those of `r`, with the number `σ c` in the place of `c`. -/
structure Renames (σ : Equiv.Perm ClassId) (r r' : Registry) : Prop where
  find?_eq : ∀ name, r'.find? name = (r.find? name).map σ
  class?_eq : ∀ c, (r'.class? (σ c)).map Class.untyped = (r.class? c).map fun cls => (cls.rename σ).untyped

variable {σ : Equiv.Perm ClassId} {r r' : Registry} {c : ClassId} {cls : Class}

theorem Renames.exists_class (h : Renames σ r r') (hcls : r.class? c = some cls) :
    ∃ cls', r'.class? (σ c) = some cls' ∧ cls'.untyped = (cls.rename σ).untyped := by
  have heq := h.class?_eq c
  rw [hcls, Option.map_some] at heq
  exact Option.map_eq_some_iff.1 heq

theorem Renames.exists_source (h : Renames σ r r') (hcls : r'.class? c = some cls) :
    ∃ c0 cls0, c = σ c0 ∧ r.class? c0 = some cls0 := by
  have heq := h.class?_eq (σ.symm c)
  rw [σ.apply_symm_apply, hcls, Option.map_some] at heq
  obtain ⟨cls0, hcls0, -⟩ := Option.map_eq_some_iff.1 heq.symm
  exact ⟨σ.symm c, cls0, (σ.apply_symm_apply c).symm, hcls0⟩

theorem Renames.lt_size_iff (h : Renames σ r r') : σ c < r'.classes.size ↔ c < r.classes.size := by
  constructor
  · intro hlt
    obtain ⟨c0, cls0, hc, hcls0⟩ := h.exists_source (class?_eq_some hlt)
    rw [σ.injective hc]
    exact lt_size_of_class? hcls0
  · intro hlt
    obtain ⟨cls', hcls', -⟩ := h.exists_class (class?_eq_some hlt)
    exact lt_size_of_class? hcls'

theorem AgreeUpTo.class?_eq_none {forget : Class → Class} (h : AgreeUpTo forget r r') (hc : r.class? c = none) :
    r'.class? c = none := by
  have heq := h.class?_eq c
  rwa [hc, Option.map_none, Option.map_eq_none_iff] at heq

theorem Renames.of_agree {forget : Class → Class} {r1 r1' : Registry} (h : Renames σ r r') (hsame : AgreeUpTo forget r r1)
    (hsame' : AgreeUpTo forget r' r1')
    (hclass : ∀ c cls cls', r.class? c = some cls → r'.class? (σ c) = some cls' → cls'.untyped = (cls.rename σ).untyped →
      (r1'.class? (σ c)).map Class.untyped = (r1.class? c).map fun cls => (cls.rename σ).untyped) : Renames σ r1 r1' where
  find?_eq name := by
    rw [find?, find?, hsame.byName_eq, hsame'.byName_eq]
    exact h.find?_eq name
  class?_eq c := by
    cases hcls : r.class? c with
    | none =>
      have hnone := h.class?_eq c
      rw [hcls, Option.map_none, Option.map_eq_none_iff] at hnone
      rw [hsame.class?_eq_none hcls, hsame'.class?_eq_none hnone, Option.map_none, Option.map_none]
    | some cls =>
      obtain ⟨cls', hcls', heq⟩ := h.exists_class hcls
      exact hclass c cls cls' hcls hcls' heq

theorem super_of_untyped (h : cls'.untyped = (cls.rename σ).untyped) : cls'.super = cls.super.map σ := by
  have heq := congrArg Class.super h
  exact heq

theorem supertypes_of_untyped (h : cls'.untyped = (cls.rename σ).untyped) : cls'.supertypes = cls.supertypes.map σ := by
  have heq := congrArg Class.supertypes h
  exact heq.trans cls.supertypes_rename

theorem fieldTypes_of_untyped (h : cls'.untyped = (cls.rename σ).untyped) : cls'.fieldTypes = cls.fieldTypes := by
  have heq := congrArg Class.fieldTypes h
  exact heq.trans cls.fieldTypes_rename

theorem Ordered.rename {before : List ClassId} (hordered : r.Ordered before) (h : Renames σ r r') :
    r'.Ordered (before.map σ) := by
  induction before with
  | nil => trivial
  | cons c before ih =>
    obtain ⟨hc, ⟨cls, hcls, hsupers⟩, hbefore⟩ := hordered
    obtain ⟨cls', hcls', heq⟩ := h.exists_class hcls
    refine ⟨?_, ⟨cls', hcls', fun super hsuper hlt => ?_⟩, ih hbefore⟩
    · rw [List.mem_map_of_injective σ.injective]
      exact hc
    · rw [supertypes_of_untyped heq, List.mem_map] at hsuper
      obtain ⟨super0, hsuper0, rfl⟩ := hsuper
      exact List.mem_map_of_mem (hsupers super0 hsuper0 (h.lt_size_iff.1 hlt))

theorem Renames.exists_superToSub (h : Renames σ r r') {order : List ClassId} (horder : r.superToSub = .ok order) :
    ∃ order', r'.superToSub = .ok order' := by
  obtain ⟨hordered, hmem⟩ := superToSub_spec horder
  refine (hordered.rename h).exists_superToSub fun c hlt => ?_
  obtain ⟨c0, cls0, rfl, hcls0⟩ := h.exists_source (class?_eq_some hlt)
  exact List.mem_map_of_mem (List.mem_reverse.2 (hmem c0 (lt_size_of_class? hcls0)))

def SupersKnown (r : Registry) : Prop :=
  ∀ c cls s, r.class? c = some cls → cls.super = some s → ∃ super, r.class? s = some super

theorem SupersKnown.rename (hsupers : r.SupersKnown) (h : Renames σ r r') : r'.SupersKnown := by
  intro c cls s hcls hs
  obtain ⟨c0, cls0, rfl, hcls0⟩ := h.exists_source hcls
  obtain ⟨cls', hcls', heq⟩ := h.exists_class hcls0
  cases hcls.symm.trans hcls'
  rw [super_of_untyped heq, Option.map_eq_some_iff] at hs
  obtain ⟨s0, hs0, rfl⟩ := hs
  obtain ⟨super0, hsuper0⟩ := hsupers c0 cls0 s0 hcls0 hs0
  obtain ⟨super, hsuper, -⟩ := h.exists_class hsuper0
  exact ⟨super, hsuper⟩

theorem ObjectType.rename {d : DataType} (hobject : r.ObjectType c d) (h : Renames σ r r') : r'.ObjectType (σ c) d := by
  induction hobject with
  | root hcls hs =>
    obtain ⟨cls', hcls', heq⟩ := h.exists_class hcls
    rw [← fieldTypes_of_untyped heq]
    refine .root hcls' ?_
    rw [super_of_untyped heq, hs, Option.map_none]
  | extend hcls hs _ ih =>
    obtain ⟨cls', hcls', heq⟩ := h.exists_class hcls
    rw [← fieldTypes_of_untyped heq]
    refine .extend hcls' ?_ ih
    rw [super_of_untyped heq, hs, Option.map_some]

end Registry

/-! ### The layout of objects -/

section

variable {σ : Equiv.Perm ClassId} {w w' v : Workspace}

/-- What the layout of all objects does to a class depends on the data type of its objects only. -/
theorem class?_layOutAll (built : w.Built) (hrun : Finishes Class.layOutAll w () w') {c : ClassId}
    (hcls : w.registry.class? c = some cls) : ∃ d t, w.registry.ObjectType c d ∧
      w'.registry.class? c = some (cls.withLayout t (d.layout w.target)) := by
  obtain ⟨before, hdone, hall⟩ := objectsDone built hrun
  obtain ⟨cls', hcls', -⟩ := hdone.same.symm.exists_class hcls
  obtain ⟨cls0, d, t, hcls0, hobject, hchanged⟩ := hdone.changed c (hall c cls' hcls')
  cases hcls.symm.trans hcls0
  exact ⟨d, t, hobject, hchanged⟩

theorem supersKnown_of_layOutAll (built : w.Built) (hrun : Finishes Class.layOutAll w () w') : w.registry.SupersKnown := by
  intro c cls s hcls hs
  obtain ⟨d, t, hobject, -⟩ := class?_layOutAll built hrun hcls
  cases hobject with
  | root hcls' hs' =>
    cases hcls.symm.trans hcls'
    cases hs.symm.trans hs'
  | extend hcls' hs' hsuper =>
    cases hcls.symm.trans hcls'
    cases hs.symm.trans hs'
    cases hsuper <;> exact ⟨_, ‹_›⟩

theorem supersKnown_layOutAll (built : w.Built) (hrun : Finishes Class.layOutAll w () w') : w'.registry.SupersKnown := by
  intro c cls s hcls hs
  obtain ⟨_, hdone, -⟩ := objectsDone built hrun
  obtain ⟨cls0, hcls0, heq⟩ := hdone.same.exists_class hcls
  obtain ⟨super0, hsuper0⟩ := supersKnown_of_layOutAll built hrun c cls0 s hcls0 ((Class.super_eq heq).symm.trans hs)
  obtain ⟨super, hsuper, -⟩ := hdone.same.symm.exists_class hsuper0
  exact ⟨super, hsuper⟩

theorem Registry.Renames.layOutAll (h : Renames σ w.registry v.registry) (htarget : v.target = w.target) (built : w.Built)
    (built' : v.Built) (hrun : Finishes Class.layOutAll w () w') :
    ∃ v', Finishes Class.layOutAll v () v' ∧ Renames σ w'.registry v'.registry := by
  obtain ⟨order, horder, -⟩ := finishes_layOutAll_iff.1 hrun
  obtain ⟨order', horder'⟩ := h.exists_superToSub horder
  obtain ⟨v', hrun'⟩ := exists_layOutAll built' horder' ((supersKnown_of_layOutAll built hrun).rename h)
  obtain ⟨_, hdone, -⟩ := objectsDone built hrun
  obtain ⟨_, hdone', -⟩ := objectsDone built' hrun'
  refine ⟨v', hrun', h.of_agree hdone.same hdone'.same fun c cls cls' hcls hcls' heq => ?_⟩
  obtain ⟨d, t, hobject, hw'⟩ := class?_layOutAll built hrun hcls
  obtain ⟨d', t', hobject', hv'⟩ := class?_layOutAll built' hrun' hcls'
  obtain rfl := hobject'.unique (hobject.rename h)
  rw [hw', hv', Option.map_some, Option.map_some, htarget, Class.untyped_withLayout heq]

end

/-! ### Slots -/

namespace SlotTable

/-- Whether two tables have the same methods, up to the numbers of classes, and find the same positions. -/
structure Renames (σ : ClassId → ClassId) (t t' : SlotTable) : Prop where
  slots_eq : t'.slots = t.slots.map (MethodRef.rename σ)
  index_eq : ∀ key : MethodKey, t'.index[key]? = t.index[key]?

variable {σ : ClassId → ClassId} {t t' : SlotTable}

theorem Renames.place (h : Renames σ t t') (key : MethodKey) (m : MethodRef) :
    (t'.place key (m.rename σ)).1 = (t.place key m).1 ∧ Renames σ (t.place key m).2 (t'.place key (m.rename σ)).2 := by
  have hsize : t'.slots.size = t.slots.size := by rw [h.slots_eq, Array.size_map]
  simp only [SlotTable.place, h.index_eq key]
  cases t.index[key]? with
  | some i =>
    refine ⟨rfl, ?_, h.index_eq⟩
    simp [h.slots_eq]
  | none =>
    refine ⟨hsize, ?_, fun key' => ?_⟩
    · simp [h.slots_eq]
    · simp [Std.HashMap.getElem?_insert, h.index_eq, hsize]

theorem Renames.placeAll (h : Renames σ t t') (c : ClassId) (before : Nat) (methods : List Method) :
    (SlotTable.placeAll (σ c) before t' (methods.map (Method.rename σ))).1 =
        (SlotTable.placeAll c before t methods).1.map (Method.rename σ) ∧
      Renames σ (SlotTable.placeAll c before t methods).2
        (SlotTable.placeAll (σ c) before t' (methods.map (Method.rename σ))).2 := by
  induction methods generalizing before t t' with
  | nil => exact ⟨rfl, h⟩
  | cons m methods ih =>
    rw [List.map_cons, SlotTable.placeAll, SlotTable.placeAll]
    have hin : (m.rename σ).inVtable = m.inVtable := rfl
    rw [hin]
    split_ifs
    · obtain ⟨hslot, htable⟩ := h.place m.key ⟨c, before⟩
      obtain ⟨hmethods, hrest⟩ := ih htable (before + 1)
      refine ⟨?_, hrest⟩
      rw [List.map_cons]
      exact List.cons_eq_cons.2 ⟨by simp only [Method.rename, ← hslot]; rfl, hmethods⟩
    · obtain ⟨hmethods, hrest⟩ := ih h (before + 1)
      exact ⟨congrArg (m.rename σ :: ·) hmethods, hrest⟩

theorem ofVtable_congr {r r' : Registry} (h : r'.key? = r.key?) (vtable : Array MethodRef) :
    ofVtable r' vtable = ofVtable r vtable := by
  have henter : enter r' = enter r := by
    funext index entry
    have hkey := congrFun h entry.1
    rw [Registry.key?, Registry.key?] at hkey
    rw [enter, enter]
    cases hm : r.method? entry.1 with
    | none =>
      rw [hm, Option.map_none, Option.map_eq_none_iff] at hkey
      rw [hkey]
    | some m =>
      rw [hm, Option.map_some] at hkey
      obtain ⟨m', hm', heq⟩ := Option.map_eq_some_iff.1 hkey
      rw [hm']
      exact congrArg (index.insertIfNew · entry.2) heq
  rw [ofVtable, ofVtable]
  exact congrArg (fun f => SlotTable.mk vtable (vtable.toList.zipIdx.foldl f ∅)) henter

end SlotTable

namespace Registry

/-- What a class becomes when slots are assigned, by the slots of its superclass. -/
inductive Slotted (r : Registry) : ClassId → Class → Prop
  | interface {c : ClassId} {cls : Class} (hcls : r.class? c = some cls) (hinterface : cls.isInterface = true) :
    r.Slotted c { cls with dispatchFinal := true }
  | root {c : ClassId} {cls : Class} {methods : List Method} {t : SlotTable} (hcls : r.class? c = some cls)
    (hclass : cls.isInterface = false) (hs : cls.super = none)
    (hplace : SlotTable.placeAll c 0 (.ofVtable r #[]) cls.methods.toList = (methods, t)) :
    r.Slotted c (cls.withSlots methods t)
  | extend {c s : ClassId} {cls super : Class} {methods : List Method} {t : SlotTable} (hcls : r.class? c = some cls)
    (hclass : cls.isInterface = false) (hs : cls.super = some s) (hsuper : r.Slotted s super)
    (hplace : SlotTable.placeAll c 0 (.ofVtable r super.vtable) cls.methods.toList = (methods, t)) :
    r.Slotted c (cls.withSlots methods t)

variable {σ : Equiv.Perm ClassId} {r r' : Registry} {c : ClassId} {cls cls' : Class}

theorem Slotted.exists_class (h : r.Slotted c cls) : ∃ cls0, r.class? c = some cls0 := by
  cases h <;> exact ⟨_, ‹_›⟩

theorem Slotted.dispatchFinal (h : r.Slotted c cls) : cls.dispatchFinal = true := by
  cases h <;> rfl

theorem Slotted.unique (h : r.Slotted c cls) (h' : r.Slotted c cls') : cls = cls' := by
  induction h generalizing cls' with
  | interface hcls hinterface =>
    cases h' with
    | interface hcls' => rw [Option.some.inj (hcls.symm.trans hcls')]
    | root hcls' hclass | extend hcls' hclass =>
      cases hcls.symm.trans hcls'
      cases hinterface.symm.trans hclass
  | root hcls hclass hs hplace =>
    cases h' with
    | interface hcls' hinterface =>
      cases hcls.symm.trans hcls'
      cases hclass.symm.trans hinterface
    | root hcls' _ _ hplace' =>
      cases hcls.symm.trans hcls'
      cases hplace.symm.trans hplace'
      rfl
    | extend hcls' _ hs' =>
      cases hcls.symm.trans hcls'
      cases hs.symm.trans hs'
  | extend hcls hclass hs _ hplace ih =>
    cases h' with
    | interface hcls' hinterface =>
      cases hcls.symm.trans hcls'
      cases hclass.symm.trans hinterface
    | root hcls' _ hs' =>
      cases hcls.symm.trans hcls'
      cases hs.symm.trans hs'
    | extend hcls' _ hs' hsuper' hplace' =>
      cases hcls.symm.trans hcls'
      cases hs.symm.trans hs'
      obtain rfl := ih hsuper'
      cases hplace.symm.trans hplace'
      rfl

theorem Renames.key?_eq (h : Renames σ r r') (m : MethodRef) : r'.key? (m.rename σ) = r.key? m := by
  rw [key?, key?, method?, method?, MethodRef.rename]
  cases hcls : r.class? m.owner with
  | none =>
    have hnone := h.class?_eq m.owner
    rw [hcls, Option.map_none, Option.map_eq_none_iff] at hnone
    rw [hnone]
  | some cls =>
    obtain ⟨cls', hcls', heq⟩ := h.exists_class hcls
    have hmethods := congrArg Class.methods heq
    change cls'.methods = cls.methods.map (Method.rename σ) at hmethods
    simp only [hcls', Option.bind_some, hmethods, Array.getElem?_map, Option.map_map]
    rfl

theorem Renames.ofVtable (h : Renames σ r r') (vtable : Array MethodRef) :
    SlotTable.Renames σ (.ofVtable r vtable) (.ofVtable r' (vtable.map (MethodRef.rename σ))) where
  slots_eq := rfl
  index_eq key := by
    rw [SlotTable.index_ofVtable, SlotTable.index_ofVtable, SlotTable.getElem?_foldl_enter,
      SlotTable.getElem?_foldl_enter, Array.toList_map, List.findIdx?_map]
    simp only [Function.comp_def, h.key?_eq]

theorem withSlots_of_untyped {inherited : Array MethodRef} {methods : List Method} {t : SlotTable} (h : Renames σ r r')
    (heq : cls'.untyped = (cls.rename σ).untyped)
    (hplace : SlotTable.placeAll c 0 (.ofVtable r inherited) cls.methods.toList = (methods, t)) :
    ∃ methods' t', SlotTable.placeAll (σ c) 0 (.ofVtable r' (inherited.map (MethodRef.rename σ))) cls'.methods.toList =
        (methods', t') ∧ (cls'.withSlots methods' t').untyped = ((cls.withSlots methods t).rename σ).untyped := by
  have hmethods := congrArg Class.methods heq
  change cls'.methods = cls.methods.map (Method.rename σ) at hmethods
  obtain ⟨hplaced, htable⟩ := (h.ofVtable inherited).placeAll c 0 cls.methods.toList
  rw [hplace] at hplaced htable
  refine ⟨_, _, rfl, ?_⟩
  have hwith : ∀ methods t, (cls'.withSlots methods t).untyped = (cls'.untyped.withSlots methods t).untyped :=
    fun _ _ => rfl
  rw [hwith, heq, hmethods, Array.toList_map, hplaced]
  simp only [Class.untyped, Class.withSlots, Class.rename, htable.slots_eq, Array.size_map, List.map_toArray]

theorem isInterface_of_untyped (h : cls'.untyped = (cls.rename σ).untyped) : cls'.isInterface = cls.isInterface := by
  have heq := congrArg Class.isInterface h
  exact heq

theorem Slotted.rename (hslotted : r.Slotted c cls) (h : Renames σ r r') :
    ∃ cls', r'.Slotted (σ c) cls' ∧ cls'.untyped = (cls.rename σ).untyped := by
  induction hslotted with
  | interface hcls hinterface =>
    obtain ⟨cls', hcls', heq⟩ := h.exists_class hcls
    refine ⟨_, .interface hcls' ((isInterface_of_untyped heq).trans hinterface), ?_⟩
    exact congrArg (fun cls : Class => { cls with dispatchFinal := true }) heq
  | root hcls hclass hs hplace =>
    obtain ⟨cls', hcls', heq⟩ := h.exists_class hcls
    obtain ⟨methods', t', hplace', heq'⟩ := withSlots_of_untyped h heq hplace
    rw [Array.map_empty] at hplace'
    refine ⟨_, .root hcls' ((isInterface_of_untyped heq).trans hclass) ?_ hplace', heq'⟩
    rw [super_of_untyped heq, hs, Option.map_none]
  | extend hcls hclass hs _ hplace ih =>
    obtain ⟨cls', hcls', heq⟩ := h.exists_class hcls
    obtain ⟨super', hsuper', hsame⟩ := ih
    obtain ⟨methods', t', hplace', heq'⟩ := withSlots_of_untyped h heq hplace
    have hvtable := congrArg Class.vtable hsame
    refine ⟨_, .extend hcls' ((isInterface_of_untyped heq).trans hclass) ?_ hsuper' (hvtable ▸ hplace'), heq'⟩
    rw [super_of_untyped heq, hs, Option.map_some]

end Registry

/-! ### The assignment of slots -/

/-- The state after the turns of the classes in `before`, where each class is as it was or has its slots. -/
structure SlotsGiven (w0 : Workspace) (before : List ClassId) (w : Workspace) : Prop extends SlotsDone w0 before w where
  waiting : ∀ c ∉ before, w.registry.class? c = w0.registry.class? c
  given : ∀ c ∈ before, ∃ cls, w.registry.class? c = some cls ∧ w0.registry.Slotted c cls

section

variable {w0 w w' v : Workspace} {before : List ClassId} {c : ClassId}

theorem slotsGiven_start (hdeclared : w.Declared) : SlotsGiven w [] w :=
  ⟨⟨rfl, .refl _, hdeclared, by simp⟩, fun _ _ => rfl, by simp⟩

/-- The class whose turn it is has the slots that it takes over and those of its methods. -/
theorem SlotsGiven.slotted (h : SlotsGiven w0 before w) (hordered : w0.registry.Ordered (c :: before))
    {inherited : Array MethodRef} {methods : List Method} {t : SlotTable} (hcls : w.registry.class? c = some cls)
    (hclass : cls.isInterface = false) (hinherits : w.registry.Inherits cls inherited)
    (hplace : SlotTable.placeAll c 0 (.ofVtable w.registry inherited) cls.methods.toList = (methods, t)) :
    w0.registry.Slotted c (cls.withSlots methods t) := by
  have hcls0 := (h.waiting c hordered.1).symm.trans hcls
  rw [SlotTable.ofVtable_congr (Registry.key?_eq_of_agree h.same)] at hplace
  cases hinherits with
  | none hs => exact .root hcls0 hclass hs hplace
  | @super s super hs hsuper _ =>
    obtain ⟨super', hsuper', hslotted⟩ := h.given s (h.super_mem hordered List.mem_cons_self hcls hs hsuper)
    cases hsuper.symm.trans hsuper'
    exact .extend hcls0 hclass hs hslotted hplace

theorem SlotsGiven.turn (h : SlotsGiven w0 before w) (hordered : w0.registry.Ordered (c :: before))
    (hrun : Finishes (Class.assignSlots c) w () w') : SlotsGiven w0 (c :: before) w' := by
  have hdone := h.toSlotsDone.turn hordered hrun
  obtain ⟨cls, cls', hcls, hupdated, hslotted⟩ : ∃ cls cls', w.registry.class? c = some cls ∧
      w.registry.Updated c cls' w'.registry ∧ w0.registry.Slotted c cls' := by
    obtain ⟨cls, hcls, ⟨hinterface, rfl⟩ | ⟨hclass, inherited, methods, t, hinherits, hplace, -, rfl⟩⟩ :=
      finishes_assignSlots_iff.1 hrun
    · exact ⟨cls, _, hcls, Registry.updated_modifyClass hcls _,
        .interface ((h.waiting c hordered.1).symm.trans hcls) hinterface⟩
    · exact ⟨cls, _, hcls, Registry.updated_modifyClass hcls _, h.slotted hordered hcls hclass hinherits hplace⟩
  refine ⟨hdone, fun d hd => ?_, fun d hd => ?_⟩
  · rw [List.mem_cons, not_or] at hd
    exact (hupdated.elsewhere hd.1).trans (h.waiting d hd.2)
  · by_cases hdc : d = c
    · subst hdc
      exact ⟨cls', hupdated.here, hslotted⟩
    · obtain ⟨dcls, hdcls, hdslotted⟩ := h.given d ((List.mem_cons.1 hd).resolve_left hdc)
      exact ⟨dcls, (hupdated.elsewhere hdc).trans hdcls, hdslotted⟩

/-- Whether no class has more slots than the numbers of slots allow. -/
def Registry.SlotsFit (r : Registry) : Prop :=
  ∀ c cls, r.Slotted c cls → cls.isInterface = false → headerSlots + cls.vtable.size < 0xFFFF

theorem SlotsGiven.exists_turn (h : SlotsGiven w0 before w) (hsupers : w0.registry.SupersKnown) (hfit : w0.registry.SlotsFit)
    (hordered : w0.registry.Ordered (c :: before)) : ∃ w', Finishes (Class.assignSlots c) w () w' := by
  obtain ⟨-, ⟨cls, hcls0, -⟩, -⟩ := id hordered
  have hcls := (h.waiting c hordered.1).trans hcls0
  cases hinterface : cls.isInterface with
  | true => exact ⟨_, finishes_assignSlots_iff.2 ⟨cls, hcls, .inl ⟨hinterface, rfl⟩⟩⟩
  | false =>
    obtain ⟨inherited, hinherits⟩ : ∃ inherited, w.registry.Inherits cls inherited := by
      cases hs : cls.super with
      | none => exact ⟨_, .none hs⟩
      | some s =>
        obtain ⟨super0, hsuper0⟩ := hsupers c cls s hcls0 hs
        obtain ⟨super, hsuper, -⟩ := h.same.symm.exists_class hsuper0
        obtain ⟨super', hsuper', hslotted⟩ := h.given s (h.super_mem hordered List.mem_cons_self hcls hs hsuper)
        exact ⟨_, .super hs hsuper' hslotted.dispatchFinal⟩
    rcases hplace : SlotTable.placeAll c 0 (.ofVtable w.registry inherited) cls.methods.toList with ⟨methods, t⟩
    have hsize := hfit c _ (h.slotted hordered hcls hinterface hinherits hplace) hinterface
    exact ⟨_, finishes_of_place hcls hinterface hinherits hplace hsize⟩

/-- What the assignment of all slots does to a class is determined by the class and its superclasses. -/
theorem class?_assignAllSlots (hdeclared : w.Declared) (hrun : Finishes Class.assignAllSlots w () w')
    (hcls : w.registry.class? c = some cls) : ∃ cls', w'.registry.class? c = some cls' ∧ w.registry.Slotted c cls' := by
  obtain ⟨order, horder, hturns⟩ := finishes_assignAllSlots_iff.1 hrun
  obtain ⟨hordered, hmem⟩ := Registry.superToSub_spec horder
  have hdone := Registry.Ordered.turns (fun c before w1 w2 hordered h => h.turn hordered) (by rwa [List.append_nil])
    (slotsGiven_start hdeclared) hturns
  apply hdone.given c
  rw [List.append_nil, List.mem_reverse]
  exact hmem c (Registry.lt_size_of_class? hcls)

theorem exists_assignAllSlots (hdeclared : w.Declared) {order : List ClassId} (horder : w.registry.superToSub = .ok order)
    (hsupers : w.registry.SupersKnown) (hfit : w.registry.SlotsFit) : ∃ w', Finishes Class.assignAllSlots w () w' := by
  obtain ⟨w', hrun⟩ := Registry.Ordered.exists_turns (fun c before w1 w2 hordered h => h.turn hordered)
    (fun c before w1 hordered h => h.exists_turn hsupers hfit hordered)
    (by rw [List.append_nil]; exact (Registry.superToSub_spec horder).1) (slotsGiven_start hdeclared)
  exact ⟨w', finishes_assignAllSlots_iff.2 ⟨order, horder, hrun⟩⟩

theorem slotsFit_of_assignAllSlots (hdeclared : w.Declared) (hrun : Finishes Class.assignAllSlots w () w') :
    w.registry.SlotsFit := by
  intro c cls hslotted hclass
  obtain ⟨cls0, hcls0⟩ := hslotted.exists_class
  obtain ⟨cls', hcls', hslotted'⟩ := class?_assignAllSlots hdeclared hrun hcls0
  obtain rfl := hslotted.unique hslotted'
  have hslots := (slotsAssigned hdeclared hrun).slots c cls hcls' hclass
  have hsize := hslots.size_eq
  have hle := hslots.size_le
  omega

theorem Registry.Renames.assignAllSlots {σ : Equiv.Perm ClassId} (h : Renames σ w.registry v.registry)
    (hdeclared : w.Declared) (hdeclared' : v.Declared) (hsupers : w.registry.SupersKnown)
    (hrun : Finishes Class.assignAllSlots w () w') :
    ∃ v', Finishes Class.assignAllSlots v () v' ∧ Renames σ w'.registry v'.registry := by
  have hfit : v.registry.SlotsFit := by
    intro c cls hslotted hclass
    obtain ⟨cls', hcls'⟩ := hslotted.exists_class
    obtain ⟨c0, cls0, rfl, hcls0⟩ := h.exists_source hcls'
    obtain ⟨cls1, -, hslotted1⟩ := class?_assignAllSlots hdeclared hrun hcls0
    obtain ⟨cls2, hslotted2, heq⟩ := hslotted1.rename h
    obtain rfl := hslotted.unique hslotted2
    have hfit := slotsFit_of_assignAllSlots hdeclared hrun c0 cls1 hslotted1 ((isInterface_of_untyped heq).symm.trans hclass)
    have hvtable : cls.vtable = cls1.vtable.map (MethodRef.rename σ) := congrArg Class.vtable heq
    rwa [hvtable, Array.size_map]
  obtain ⟨order, horder, -⟩ := finishes_assignAllSlots_iff.1 hrun
  obtain ⟨order', horder'⟩ := h.exists_superToSub horder
  obtain ⟨v', hrun'⟩ := exists_assignAllSlots hdeclared' horder' (hsupers.rename h) hfit
  refine ⟨v', hrun', h.of_agree (slotsAssigned hdeclared hrun).same (slotsAssigned hdeclared' hrun').same
    fun c cls cls' hcls hcls' heq => ?_⟩
  obtain ⟨cls1, hcls1, hslotted⟩ := class?_assignAllSlots hdeclared hrun hcls
  obtain ⟨cls1', hcls1', hslotted'⟩ := class?_assignAllSlots hdeclared' hrun' hcls'
  obtain ⟨cls2, hslotted2, heq2⟩ := hslotted.rename h
  obtain rfl := hslotted'.unique hslotted2
  rw [hcls1, hcls1', Option.map_some, Option.map_some, heq2]

end

end ClassAbi
