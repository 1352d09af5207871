import ClassAbi.Manifest.Populate
import ClassAbi.Proofs.Class.Renaming

/-!
# What declarations give

Manifests are entered into an empty registry in three passes, and the later ones find classes of any manifest. What comes
out is described without passes: a class has the number of its declaration, and `Registry.classFrom?` says what a
declaration gives where names stand for these numbers.
-/

namespace ClassAbi

variable {headers : List Class} {r r' : Registry} {c : ClassId} {σ : ClassId → ClassId} {α β : Type} {spec : ClassSpec}
  {cls path name descriptor : Text} {access : Access} {p : Pending} {ps : List Pending} {ms : List Manifest}

open ClassAbi.Action

/-- The declared class without supertypes and members. -/
def ClassSpec.header? (spec : ClassSpec) : Option Class :=
  (Access.ofWords spec.access).toOption.map fun access => { name := spec.name, access, external := spec.external }

/-- Whether a class may have the name of a declaration. -/
def ClassSpec.Named (spec : ClassSpec) : Prop := spec.name.isEmpty = false ∧ spec.name.contains 0x2E = false

namespace Registry

def superFrom? (r : Registry) (spec : ClassSpec) : Option (Option ClassId) :=
  if (Manifest.superName spec).isEmpty then some none else (r.find? (Manifest.superName spec)).map some

def fieldFrom? (r : Registry) (f : FieldSpec) : Option Field :=
  (Access.ofWords f.access).toOption.bind fun access => (r.fieldOf f.name f.descriptor access).toOption

/-- The method that a declaration gives in a class with some flags. -/
def methodFrom? (r : Registry) (cls : Access) (m : MethodSpec) : Option Method :=
  (Access.ofWords m.access).toOption.bind fun access =>
    let access := if cls.isInterface && m.name != Text.ofString "<clinit>" then access.union .abstract else access
    (r.methodOf cls m.name m.descriptor access).toOption.map fun method => { method with ops := m.ops }

/-- The class that a declaration gives, if the classes that it names are registered. -/
def classFrom? (r : Registry) (spec : ClassSpec) : Option Class :=
  spec.header?.bind fun header => (r.superFrom? spec).bind fun super =>
    (spec.interfaces.mapM r.find?).bind fun interfaces => (spec.fields.mapM r.fieldFrom?).bind fun fields =>
      (spec.methods.mapM (r.methodFrom? header.access)).map fun methods =>
        { header with super, interfaces, fields := fields.toArray, methods := methods.toArray }

def enter (r : Registry) (cls : Class) : Registry :=
  { classes := r.classes.push cls, byName := r.byName.insert cls.name r.classes.size }

theorem find?_enter (r : Registry) (cls : Class) (name : Text) :
    (r.enter cls).find? name = if cls.name = name then some r.classes.size else r.find? name := by
  rw [find?, enter, Std.HashMap.getElem?_insert]
  simp [find?]

theorem find?_foldl_enter (hnodup : (headers.map Class.name).Nodup) (r : Registry) (name : Text) :
    (headers.foldl enter r).find? name =
      (((headers.map Class.name).idxOf? name).map (r.classes.size + ·)).or (r.find? name) := by
  induction headers generalizing r with
  | nil => simp
  | cons cls headers ih =>
    rw [List.map_cons, List.nodup_cons] at hnodup
    rw [List.foldl_cons, ih hnodup.2, find?_enter, List.map_cons, List.idxOf?_cons]
    by_cases hname : cls.name = name
    · subst hname
      have hnone : (headers.map Class.name).idxOf? cls.name = none := List.idxOf?_eq_none_iff.2 hnodup.1
      simp [hnone]
    · have hsize : (r.enter cls).classes.size = r.classes.size + 1 := Array.size_push _
      simp only [hname, if_false, beq_iff_eq, hsize, Option.map_map]
      congr 2
      funext i
      simp only [Function.comp_apply]
      omega

theorem classes_foldl_enter (headers : List Class) (r : Registry) :
    (headers.foldl enter r).classes = r.classes ++ headers.toArray := by
  induction headers generalizing r with
  | nil => simp
  | cons cls headers ih =>
    rw [List.foldl_cons, ih, enter]
    simp

theorem modifyClass_id (r : Registry) (c : ClassId) : (r.modifyClass c fun cls => cls) = r := by
  rw [modifyClass]
  congr 1
  apply Array.ext_getElem?
  intro d
  rw [Array.getElem?_modify]
  split_ifs <;> simp

theorem fieldFrom?_rename (h : ∀ name, r'.find? name = (r.find? name).map σ) (f : FieldSpec) :
    r'.fieldFrom? f = (r.fieldFrom? f).map (Field.rename σ) := by
  rw [fieldFrom?, fieldFrom?]
  cases (Access.ofWords f.access).toOption with
  | none => rfl
  | some access =>
    rw [Option.bind_some, Option.bind_some, fieldOf_rename h]
    cases r.fieldOf f.name f.descriptor access <;> rfl

theorem methodFrom?_rename (h : ∀ name, r'.find? name = (r.find? name).map σ) (cls : Access) (m : MethodSpec) :
    r'.methodFrom? cls m = (r.methodFrom? cls m).map (Method.rename σ) := by
  rw [methodFrom?, methodFrom?]
  cases (Access.ofWords m.access).toOption with
  | none => rfl
  | some access =>
    rw [Option.bind_some, Option.bind_some]
    dsimp only
    rw [methodOf_rename h]
    generalize r.methodOf cls m.name m.descriptor _ = method
    cases method <;> rfl

theorem superFrom?_rename (h : ∀ name, r'.find? name = (r.find? name).map σ) (spec : ClassSpec) :
    r'.superFrom? spec = (r.superFrom? spec).map (Option.map σ) := by
  rw [superFrom?, superFrom?]
  split_ifs
  · rfl
  · rw [h]
    cases r.find? (Manifest.superName spec) <;> rfl

theorem mapM_map_of_eq {f g : α → Option β} {h : β → β} (heq : ∀ a, g a = (f a).map h) (as : List α) :
    as.mapM g = (as.mapM f).map (List.map h) := by
  induction as with
  | nil => rfl
  | cons a as ih =>
    rw [List.mapM_cons, List.mapM_cons, ih, heq]
    cases f a with
    | none => rfl
    | some b => cases as.mapM f <;> rfl

theorem classFrom?_rename (h : ∀ name, r'.find? name = (r.find? name).map σ) (spec : ClassSpec) :
    r'.classFrom? spec = (r.classFrom? spec).map (Class.rename σ) := by
  rw [classFrom?, classFrom?]
  cases hheader : spec.header? with
  | none => rfl
  | some header =>
    obtain ⟨access, -, rfl⟩ := Option.map_eq_some_iff.1 hheader
    simp only [Option.bind_some, superFrom?_rename h, mapM_map_of_eq h, mapM_map_of_eq (fieldFrom?_rename h),
      mapM_map_of_eq (methodFrom?_rename h access)]
    cases r.superFrom? spec with
    | none => rfl
    | some super =>
      cases spec.interfaces.mapM r.find? with
      | none => rfl
      | some interfaces =>
        cases spec.fields.mapM r.fieldFrom? with
        | none => rfl
        | some fields =>
          cases spec.methods.mapM (r.methodFrom? access) with
          | none => rfl
          | some methods =>
            simp [Class.rename]

theorem fieldFrom?_congr (h : ∀ name, r'.find? name = r.find? name) : r'.fieldFrom? = r.fieldFrom? := by
  funext f
  have hid : Field.rename id = id := by
    funext f
    rw [Field.rename, JavaType.rename_id]
    rfl
  have heq := fieldFrom?_rename (fun name => (h name).trans Option.map_id_apply.symm) f
  rwa [hid, Option.map_id_apply] at heq

theorem methodFrom?_congr (h : ∀ name, r'.find? name = r.find? name) : r'.methodFrom? = r.methodFrom? := by
  funext cls m
  have hid : Method.rename id = id := by
    funext m
    rw [Method.rename, JavaType.rename_id, List.map_congr_left fun t _ => JavaType.rename_id t, List.map_id']
    rfl
  have heq := methodFrom?_rename (fun name => (h name).trans Option.map_id_apply.symm) cls m
  rwa [hid, Option.map_id_apply] at heq

theorem superFrom?_congr (h : ∀ name, r'.find? name = r.find? name) : r'.superFrom? = r.superFrom? := by
  funext spec
  rw [superFrom?, superFrom?, h]

theorem classFrom?_congr (h : ∀ name, r'.find? name = r.find? name) : r'.classFrom? = r.classFrom? := by
  funext spec
  rw [classFrom?, classFrom?, superFrom?_congr h, fieldFrom?_congr h, methodFrom?_congr h, funext h]

theorem classFrom?_eq_some_iff {cls : Class} :
    r.classFrom? spec = some cls ↔ ∃ header super interfaces fields methods, spec.header? = some header ∧
      r.superFrom? spec = some super ∧ spec.interfaces.mapM r.find? = some interfaces ∧
      spec.fields.mapM r.fieldFrom? = some fields ∧ spec.methods.mapM (r.methodFrom? header.access) = some methods ∧
      { header with super, interfaces, fields := fields.toArray, methods := methods.toArray } = cls := by
  simp only [classFrom?, Option.bind_eq_some_iff, Option.map_eq_some_iff]
  constructor
  · rintro ⟨header, hheader, super, hsuper, interfaces, hinterfaces, fields, hfields, methods, hmethods, rfl⟩
    exact ⟨header, super, interfaces, fields, methods, hheader, hsuper, hinterfaces, hfields, hmethods, rfl⟩
  · rintro ⟨header, super, interfaces, fields, methods, hheader, hsuper, hinterfaces, hfields, hmethods, rfl⟩
    exact ⟨header, hheader, super, hsuper, interfaces, hinterfaces, fields, hfields, methods, hmethods, rfl⟩

end Registry

theorem ClassSpec.name_of_header? {header : Class} (h : spec.header? = some header) : header.name = spec.name := by
  obtain ⟨access, -, rfl⟩ := Option.map_eq_some_iff.1 h
  rfl

namespace Manifest

variable {w w' : Workspace}

@[simp]
theorem not_finishes_complain {cause : ManifestCause} {a : α} :
    ¬Finishes (complain path cls cause) w a w' := not_finishes_throw _

@[simp]
theorem finishes_accessOf_iff {words : List Text} :
    Finishes (accessOf path cls words) w access w' ↔ (Access.ofWords words).toOption = some access ∧ w = w' := by
  rw [accessOf]
  cases Access.ofWords words with
  | error e => simp [Except.toOption]
  | ok a => simp [Except.toOption]

@[simp]
theorem finishes_classNamed_iff : Finishes (classNamed path cls name) w c w' ↔ w.registry.find? name = some c ∧ w = w' := by
  cases hfind : w.registry.find? name <;> simp [classNamed, hfind]

@[simp]
theorem finishes_describing_iff {action : Action Unit} :
    Finishes (describing path cls descriptor action) w () w' ↔ Finishes action w () w' :=
  finishes_mapError_iff

/-! ### The first pass -/

theorem finishes_declareSpec_iff :
    Finishes (declareSpec path spec) w p w' ↔ ∃ header, spec.header? = some header ∧ w.registry.find? spec.name = none ∧
      spec.Named ∧ ⟨path, spec, w.registry.classes.size⟩ = p ∧ { w with registry := w.registry.enter header } = w' := by
  rw [declareSpec, ClassSpec.header?]
  cases haccess : (Access.ofWords spec.access).toOption with
  | none => simp [haccess]
  | some access =>
    simp only [finishes_bind_iff, finishes_accessOf_iff, haccess, finishes_registry_iff, ClassSpec.Named, Registry.find?,
      Registry.declare, Registry.enter]
    simp
    split_ifs <;> simp_all [and_comm]

theorem finishes_declareAll_iff {entries : List (Text × ClassSpec)} :
    Finishes (entries.mapM fun e => declareSpec e.1 e.2) w ps w' ↔
      ∃ headers, List.Forall₂ (fun e header => e.2.header? = some header) entries headers ∧ (∀ e ∈ entries, e.2.Named) ∧
        (entries.map fun e => e.2.name).Nodup ∧ (∀ e ∈ entries, w.registry.find? e.2.name = none) ∧
        (entries.zipIdx w.registry.classes.size).map (fun e => Pending.mk e.1.1 e.1.2 e.2) = ps ∧
        { w with registry := headers.foldl Registry.enter w.registry } = w' := by
  induction entries generalizing w ps with
  | nil =>
    rw [finishes_mapM_nil_iff]
    simp
  | cons e entries ih =>
    have hsize : ∀ header, (w.registry.enter header).classes.size = w.registry.classes.size + 1 :=
      fun header => Array.size_push _
    rw [finishes_mapM_cons_iff]
    simp only [finishes_declareSpec_iff, ih, List.map_cons, List.nodup_cons, List.forall_mem_cons, List.zipIdx_cons]
    constructor
    · rintro ⟨p, _, rest, ⟨header, hheader, hfresh, hnamed, rfl, rfl⟩, ⟨headers, hheaders, hnames, hnodup, hfreshes, rfl, rfl⟩, rfl⟩
      have hother : ∀ e' ∈ entries, e'.2.name ≠ e.2.name ∧ w.registry.find? e'.2.name = none := by
        intro e' he'
        have hfind := hfreshes e' he'
        rw [Registry.find?_enter, ClassSpec.name_of_header? hheader] at hfind
        split_ifs at hfind with heq
        exact ⟨Ne.symm heq, hfind⟩
      refine ⟨header :: headers, .cons hheader hheaders, ⟨hnamed, hnames⟩, ⟨fun hmem => ?_, hnodup⟩,
        ⟨hfresh, fun e' he' => (hother e' he').2⟩, by rw [hsize], rfl⟩
      obtain ⟨e', he', heq⟩ := List.mem_map.1 hmem
      exact (hother e' he').1 heq
    · rintro ⟨_, _ | ⟨hheader, hheaders⟩, ⟨hnamed, hnames⟩, ⟨hnew, hnodup⟩, ⟨hfresh, hfreshes⟩, rfl, rfl⟩
      refine ⟨_, _, _, ⟨_, hheader, hfresh, hnamed, rfl, rfl⟩, ⟨_, hheaders, hnames, hnodup, fun e' he' => ?_, rfl, rfl⟩, ?_⟩
      · rw [Registry.find?_enter, ClassSpec.name_of_header? hheader, if_neg, hfreshes e' he']
        intro heq
        exact hnew (List.mem_map.2 ⟨e', he', heq.symm⟩)
      · rw [hsize]

/-! ### The passes over declared classes -/

/-- The registry with a change of the class of each declaration. -/
def changeAll (f : β → Class → Class) (ps : List Pending) (bs : List β) (r : Registry) : Registry :=
  (ps.zip bs).foldl (fun r x => r.modifyClass x.1.cls (f x.2)) r

section

variable {f : β → Class → Class} {bs : List β}

/-- Steps that only change the classes that they are about, where what they depend on is kept. -/
theorem finishes_forM_modifyClass_iff {g : Pending → Action Unit} {R : Pending → β → Prop} {P : Registry → Prop}
    (hturn : ∀ p ∈ ps, ∀ w w', P w.registry →
      (Finishes (g p) w () w' ↔ ∃ b, R p b ∧ { w with registry := w.registry.modifyClass p.cls (f b) } = w'))
    (hkeep : ∀ p ∈ ps, ∀ b r, P r → P (r.modifyClass p.cls (f b))) (hw : P w.registry) :
    Finishes (ps.forM g) w () w' ↔
      ∃ bs, List.Forall₂ R ps bs ∧ { w with registry := changeAll f ps bs w.registry } = w' := by
  induction ps generalizing w with
  | nil =>
    rw [finishes_forM_nil_iff]
    simp [changeAll]
  | cons p ps ih =>
    rw [List.forall_mem_cons] at hturn hkeep
    rw [finishes_forM_cons_iff]
    simp only [hturn.1 w _ hw]
    constructor
    · rintro ⟨_, ⟨b, hb, rfl⟩, hrest⟩
      obtain ⟨bs, hbs, rfl⟩ := (ih hturn.2 hkeep.2 (hkeep.1 b _ hw)).1 hrest
      exact ⟨b :: bs, .cons hb hbs, rfl⟩
    · rintro ⟨_, _ | ⟨hb, hbs⟩, rfl⟩
      exact ⟨_, ⟨_, hb, rfl⟩, (ih hturn.2 hkeep.2 (hkeep.1 _ _ hw)).2 ⟨_, hbs, rfl⟩⟩

theorem changeAll_keeps {P : Registry → Prop} (hkeep : ∀ c b r, P r → P (r.modifyClass c (f b))) (hr : P r) :
    P (changeAll f ps bs r) := by
  rw [changeAll]
  generalize ps.zip bs = changes
  induction changes generalizing r with
  | nil => exact hr
  | cons x changes ih => exact ih (hkeep x.1.cls x.2 r hr)

theorem class?_changeAll_of_notMem (hc : c ∉ ps.map Pending.cls) (r : Registry) :
    (changeAll f ps bs r).class? c = r.class? c := by
  induction ps generalizing bs r with
  | nil => rfl
  | cons p ps ih =>
    rw [List.map_cons, List.mem_cons, not_or] at hc
    cases bs with
    | nil => rfl
    | cons b bs => exact (ih hc.2 _).trans (by rw [Registry.class?_modifyClass, if_neg (Ne.symm hc.1)])

theorem class?_changeAll (hnodup : (ps.map Pending.cls).Nodup) {i : Nat} {b : β} (hp : ps[i]? = some p)
    (hb : bs[i]? = some b) (r : Registry) : (changeAll f ps bs r).class? p.cls = (r.class? p.cls).map (f b) := by
  induction ps generalizing bs r i with
  | nil => simp at hp
  | cons q ps ih =>
    rw [List.map_cons, List.nodup_cons] at hnodup
    cases bs with
    | nil => simp at hb
    | cons b' bs =>
      rw [changeAll, List.zip_cons_cons, List.foldl_cons, ← changeAll]
      cases i with
      | zero =>
        obtain rfl : q = p := by simpa using hp
        obtain rfl : b' = b := by simpa using hb
        rw [class?_changeAll_of_notMem hnodup.1, Registry.class?_modifyClass, if_pos rfl]
      | succ i =>
        rw [List.getElem?_cons_succ] at hp hb
        have hne : q.cls ≠ p.cls := by
          intro heq
          exact hnodup.1 (heq ▸ List.mem_map_of_mem (List.mem_of_getElem? hp))
        rw [ih hnodup.2 hp hb, Registry.class?_modifyClass, if_neg hne]

theorem find?_changeAll (name : Text) : (changeAll f ps bs r).find? name = r.find? name :=
  changeAll_keeps (P := fun r' => r'.find? name = r.find? name) (fun _ _ _ hr => hr) rfl

end

theorem finishes_forM_add_iff {g : α → Action Unit} {R : α → β → Prop} {add : List β → Class → Class}
    {P : Registry → Prop} {as : List α} (hnil : ∀ cls, add [] cls = cls)
    (hcons : ∀ b bs cls, add bs (add [b] cls) = add (b :: bs) cls)
    (hturn : ∀ a w w', P w.registry →
      (Finishes (g a) w () w' ↔ ∃ b, R a b ∧ { w with registry := w.registry.modifyClass c (add [b]) } = w'))
    (hkeep : ∀ bs r, P r → P (r.modifyClass c (add bs))) (hw : P w.registry) :
    Finishes (as.forM g) w () w' ↔
      ∃ bs, List.Forall₂ R as bs ∧ { w with registry := w.registry.modifyClass c (add bs) } = w' := by
  induction as generalizing w with
  | nil =>
    rw [finishes_forM_nil_iff]
    simp only [List.forall₂_nil_left_iff, exists_eq_left, funext hnil]
    rw [Registry.modifyClass_id]
  | cons a as ih =>
    rw [finishes_forM_cons_iff]
    simp only [hturn a w _ hw]
    constructor
    · rintro ⟨_, ⟨b, hb, rfl⟩, hrest⟩
      obtain ⟨bs, hbs, rfl⟩ := (ih (hkeep [b] _ hw)).1 hrest
      refine ⟨b :: bs, .cons hb hbs, ?_⟩
      rw [← funext (hcons b bs)]
      exact congrArg (fun r => { w with registry := r }) (Registry.modifyClass_modifyClass ..).symm
    · rintro ⟨_, _ | @⟨_, b, _, bs, hb, hbs⟩, rfl⟩
      refine ⟨_, ⟨b, hb, rfl⟩, (ih (hkeep [b] _ hw)).2 ⟨bs, hbs, ?_⟩⟩
      rw [← funext (hcons b bs)]
      exact congrArg (fun r => { w with registry := r }) (Registry.modifyClass_modifyClass ..)

end Manifest

def Class.addInterfaces (interfaces : List ClassId) (cls : Class) : Class :=
  { cls with interfaces := cls.interfaces ++ interfaces }

def Class.addFields (fields : List Field) (cls : Class) : Class := { cls with fields := cls.fields ++ fields.toArray }

def Class.addMethods (methods : List Method) (cls : Class) : Class :=
  { cls with methods := cls.methods ++ methods.toArray }

def Class.addSuper (super : Option ClassId) (cls : Class) : Class := { cls with super := super.or cls.super }

namespace Manifest

variable {w w' : Workspace} {r0 : Registry}

theorem finishes_interfaces_iff {names : List Text} (hw : ∀ name, w.registry.find? name = r0.find? name) :
    Finishes (names.forM fun name => do
        let i ← classNamed path cls name
        onRegistry fun r => r.modifyClass c fun cls => { cls with interfaces := cls.interfaces ++ [i] }) w () w' ↔
      ∃ interfaces, names.mapM r0.find? = some interfaces ∧
        { w with registry := w.registry.modifyClass c (Class.addInterfaces interfaces) } = w' := by
  simp only [mapM_eq_some_iff]
  refine finishes_forM_add_iff (P := fun r => ∀ name, r.find? name = r0.find? name) (by simp [Class.addInterfaces])
    (by simp [Class.addInterfaces]) (fun name w w' hw => ?_) (fun _ _ hr => hr) hw
  simp [hw]
  rfl

/-- The supertypes that the second pass finds. -/
def Links (r : Registry) (p : Pending) (x : Option ClassId × List ClassId) : Prop :=
  r.superFrom? p.spec = some x.1 ∧ p.spec.interfaces.mapM r.find? = some x.2

def withLinks (x : Option ClassId × List ClassId) (cls : Class) : Class := (cls.addSuper x.1).addInterfaces x.2

theorem finishes_link_iff (hw : ∀ name, w.registry.find? name = r0.find? name) :
    Finishes (link p) w () w' ↔
      ∃ x, Links r0 p x ∧ { w with registry := w.registry.modifyClass p.cls (withLinks x) } = w' := by
  rw [link]
  simp only [Links, Prod.exists, Registry.superFrom?]
  cases superName p.spec with
  | nil =>
    simp only [List.isEmpty_nil, if_true, finishes_interfaces_iff hw, Option.some.injEq, and_assoc, exists_and_left,
      exists_eq_left']
    rfl
  | cons b name =>
    simp only [List.isEmpty_cons, Bool.false_eq_true, if_false, Option.map_eq_some_iff]
    rw [finishes_bind_iff]
    simp only [finishes_classNamed_iff, finishes_bind_iff, finishes_onRegistry_iff, hw]
    constructor
    · rintro ⟨s, _, ⟨hs, rfl⟩, _, _, rfl, h⟩
      obtain ⟨interfaces, hinterfaces, rfl⟩ := (finishes_interfaces_iff (by exact hw)).1 h
      refine ⟨some s, interfaces, ⟨⟨s, hs, rfl⟩, hinterfaces⟩, ?_⟩
      simp only [Registry.modifyClass_modifyClass]
      rfl
    · rintro ⟨_, interfaces, ⟨⟨s, hs, rfl⟩, hinterfaces⟩, rfl⟩
      refine ⟨s, w, ⟨hs, rfl⟩, (), _, rfl, (finishes_interfaces_iff (by exact hw)).2 ⟨interfaces, hinterfaces, ?_⟩⟩
      simp only [Registry.modifyClass_modifyClass]
      rfl

/-! ### The third pass -/

theorem toOption_eq_some_iff {ε : Type} {x : Except ε α} {a : α} : x.toOption = some a ↔ x = .ok a := by
  cases x <;> simp [Except.toOption]

@[simp]
theorem finishes_addField_iff :
    Finishes (Class.addField c name descriptor access) w () w' ↔
      ∃ f, (w.registry.fieldOf name descriptor access).toOption = some f ∧
        { w with registry := w.registry.modifyClass c (Class.addFields [f]) } = w' := by
  have hpush : ∀ f, (fun cls : Class => { cls with fields := cls.fields.push f }) = Class.addFields [f] := by
    intro f
    funext cls
    simp [Class.addFields]
  simp [Class.addField, hpush, toOption_eq_some_iff]

@[simp]
theorem finishes_addMethod_iff {ops : List Text} :
    Finishes (Class.addMethod c name descriptor access ops) w () w' ↔
      ∃ cls m, w.registry.class? c = some cls ∧
        (w.registry.methodOf cls.access name descriptor access).toOption = some m ∧
        { w with registry := w.registry.modifyClass c (Class.addMethods [{ m with ops }]) } = w' := by
  have hpush : ∀ m, (fun cls : Class => { cls with methods := cls.methods.push m }) = Class.addMethods [m] := by
    intro m
    funext cls
    simp [Class.addMethods]
  simp [Class.addMethod, hpush, toOption_eq_some_iff, and_assoc]

theorem finishes_fields_iff {fields : List FieldSpec} (hw : ∀ name, w.registry.find? name = r0.find? name) :
    Finishes (fields.forM fun f => do
        let access ← accessOf path cls f.access
        describing path cls f.descriptor (Class.addField c f.name f.descriptor access)) w () w' ↔
      ∃ members, fields.mapM r0.fieldFrom? = some members ∧
        { w with registry := w.registry.modifyClass c (Class.addFields members) } = w' := by
  simp only [mapM_eq_some_iff]
  refine finishes_forM_add_iff (P := fun r => ∀ name, r.find? name = r0.find? name) (by simp [Class.addFields])
    (by simp [Class.addFields]) (fun f w w' hw => ?_) (fun _ _ hr => hr) hw
  rw [← Registry.fieldFrom?_congr hw]
  simp [Registry.fieldFrom?, Option.bind_eq_some_iff]
  grind

theorem finishes_methods_iff {methods : List MethodSpec} (hw : ∀ name, w.registry.find? name = r0.find? name)
    (hc : (w.registry.class? c).map Class.access = some access) :
    Finishes (methods.forM fun m => do
        let access ← accessOf path name m.access
        let cls ← class' c
        let access := if cls.isInterface && m.name != Text.ofString "<clinit>" then access.union .abstract else access
        describing path name m.descriptor (Class.addMethod c m.name m.descriptor access m.ops)) w () w' ↔
      ∃ members, methods.mapM (r0.methodFrom? access) = some members ∧
        { w with registry := w.registry.modifyClass c (Class.addMethods members) } = w' := by
  simp only [mapM_eq_some_iff]
  refine finishes_forM_add_iff (P := fun r => (∀ name, r.find? name = r0.find? name) ∧ (r.class? c).map Class.access = some access)
    (by simp [Class.addMethods]) (by simp [Class.addMethods]) (fun m w w' hw => ?_) (fun ms r hr => ⟨hr.1, ?_⟩) ⟨hw, hc⟩
  · obtain ⟨cls, hcls, rfl⟩ := Option.map_eq_some_iff.1 hw.2
    rw [← Registry.methodFrom?_congr hw.1]
    simp [hcls, Registry.methodFrom?, Option.bind_eq_some_iff, Class.isInterface]
    grind
  · rw [Registry.class?_modifyClass, if_pos rfl, Option.map_map]
    exact hr.2

/-- The members that the third pass finds. -/
def HasMembers (r : Registry) (p : Pending) (x : List Field × List Method) : Prop :=
  p.spec.fields.mapM r.fieldFrom? = some x.1 ∧
    ∃ header, p.spec.header? = some header ∧ p.spec.methods.mapM (r.methodFrom? header.access) = some x.2

def withMembers (x : List Field × List Method) (cls : Class) : Class := (cls.addFields x.1).addMethods x.2

/-- Whether the class of a declaration has the declared flags. -/
def HasFlags (r : Registry) (p : Pending) : Prop :=
  ∃ header, p.spec.header? = some header ∧ (r.class? p.cls).map Class.access = some header.access

theorem HasFlags.modifyClass (h : HasFlags r p) (c : ClassId) {f : Class → Class}
    (hf : ∀ cls, (f cls).access = cls.access) : HasFlags (r.modifyClass c f) p := by
  obtain ⟨header, hheader, haccess⟩ := h
  refine ⟨header, hheader, ?_⟩
  rw [Registry.class?_modifyClass]
  split_ifs
  · rw [Option.map_map, ← haccess]
    exact congrArg (Option.map · _) (funext hf)
  · exact haccess

theorem finishes_addMembers_iff (hw : ∀ name, w.registry.find? name = r0.find? name) (hflags : HasFlags w.registry p) :
    Finishes (addMembers p) w () w' ↔
      ∃ x, HasMembers r0 p x ∧ { w with registry := w.registry.modifyClass p.cls (withMembers x) } = w' := by
  obtain ⟨header, hheader, hc⟩ := hflags
  rw [addMembers, finishes_bind_iff]
  simp only [finishes_fields_iff hw, HasMembers, Prod.exists, hheader, Option.some.injEq, exists_eq_left']
  have hc' : ∀ fields, ((w.registry.modifyClass p.cls (Class.addFields fields)).class? p.cls).map Class.access =
      some header.access := by
    intro fields
    rw [Registry.class?_modifyClass, if_pos rfl, Option.map_map]
    exact hc
  constructor
  · rintro ⟨_, _, ⟨fields, hfields, rfl⟩, h⟩
    obtain ⟨methods, hmethods, rfl⟩ := (finishes_methods_iff (by exact hw) (hc' fields)).1 h
    refine ⟨fields, methods, ⟨hfields, hmethods⟩, ?_⟩
    simp only [Registry.modifyClass_modifyClass]
    rfl
  · rintro ⟨fields, methods, ⟨hfields, hmethods⟩, rfl⟩
    refine ⟨(), _, ⟨fields, hfields, rfl⟩, (finishes_methods_iff (by exact hw) (hc' fields)).2 ⟨methods, hmethods, ?_⟩⟩
    simp only [Registry.modifyClass_modifyClass]
    rfl

/-- The passes after the first one, which find classes by the names that it has entered. -/
theorem finishes_passes_iff (hflags : ∀ p ∈ ps, HasFlags w.registry p) :
    Finishes (ps.forM link >>= fun _ => ps.forM addMembers) w () w' ↔ ∃ links members,
      List.Forall₂ (Links w.registry) ps links ∧ List.Forall₂ (HasMembers w.registry) ps members ∧
      { w with registry := changeAll withMembers ps members (changeAll withLinks ps links w.registry) } = w' := by
  have hmembers : ∀ links, Finishes (ps.forM addMembers) { w with registry := changeAll withLinks ps links w.registry } () w' ↔
      ∃ members, List.Forall₂ (HasMembers w.registry) ps members ∧
        { w with registry := changeAll withMembers ps members (changeAll withLinks ps links w.registry) } = w' := by
    intro links
    refine finishes_forM_modifyClass_iff
      (P := fun r => (∀ name, r.find? name = w.registry.find? name) ∧ ∀ p ∈ ps, HasFlags r p)
      (fun p hp w w' hw => finishes_addMembers_iff hw.1 (hw.2 p hp)) ?_ ⟨find?_changeAll, fun p hp => ?_⟩
    · exact fun p _ x r hr => ⟨hr.1, fun q hq => (hr.2 q hq).modifyClass p.cls fun _ => rfl⟩
    · exact changeAll_keeps (P := fun r => HasFlags r p) (fun c _ _ hr => hr.modifyClass c fun _ => rfl) (hflags p hp)
  rw [finishes_bind_iff]
  simp only [finishes_forM_modifyClass_iff (P := fun r => ∀ name, r.find? name = w.registry.find? name)
    (fun p _ w w' hw => finishes_link_iff hw) (fun _ _ _ _ hr => hr) fun _ => rfl]
  constructor
  · rintro ⟨_, _, ⟨links, hlinks, rfl⟩, h⟩
    obtain ⟨members, hall, rfl⟩ := (hmembers links).1 h
    exact ⟨links, members, hlinks, hall, rfl⟩
  · rintro ⟨links, members, hlinks, hall, rfl⟩
    exact ⟨(), _, ⟨links, hlinks, rfl⟩, (hmembers links).2 ⟨members, hall, rfl⟩⟩

end Manifest

/-- Whether the classes of a registry are those that declarations give. -/
structure Registry.Populated (r : Registry) (specs : List ClassSpec) : Prop where
  find?_eq : ∀ name, r.find? name = (specs.map ClassSpec.name).idxOf? name
  class?_eq : ∀ c, r.class? c = specs[c]?.bind r.classFrom?

/-- Whether declarations may be entered together: their names are valid and distinct, and they name each other. -/
structure Declarable (specs : List ClassSpec) : Prop where
  named : ∀ spec ∈ specs, spec.Named
  nodup : (specs.map ClassSpec.name).Nodup
  resolved : ∀ r : Registry, (∀ name, r.find? name = (specs.map ClassSpec.name).idxOf? name) →
    ∀ spec ∈ specs, ∃ cls, r.classFrom? spec = some cls

namespace Manifest

variable {w w' : Workspace} {r0 : Registry}

def entries (ms : List Manifest) : List (Text × ClassSpec) := ms.flatMap fun m => m.classes.map fun c => (m.path, c)

/-- The declarations with the numbers of their classes. -/
def pending (ms : List Manifest) : List Pending := (entries ms).zipIdx.map fun e => ⟨e.1.1, e.1.2, e.2⟩

theorem snd_entries (ms : List Manifest) : (entries ms).map Prod.snd = ms.flatMap Manifest.classes := by
  simp [entries, List.map_flatMap, Function.comp_def]

theorem getElem?_pending (h : (ms.flatMap Manifest.classes)[c]? = some spec) :
    ∃ path, (pending ms)[c]? = some ⟨path, spec, c⟩ := by
  rw [← snd_entries, List.getElem?_map] at h
  obtain ⟨e, he, rfl⟩ := Option.map_eq_some_iff.1 h
  exact ⟨e.1, by simp [pending, he]⟩

theorem nodup_pending (ms : List Manifest) : ((pending ms).map Pending.cls).Nodup := by
  have hcls : (pending ms).map Pending.cls = List.range (entries ms).length := by
    rw [pending, List.map_map]
    exact (List.zipIdx_map_snd 0 _).trans (List.range_eq_range' ..).symm
  rw [hcls]
  exact List.nodup_range

def named (headers : List Class) : Registry := headers.foldl Registry.enter {}

def passed (ps : List Pending) (headers : List Class) (links : List (Option ClassId × List ClassId))
    (members : List (List Field × List Method)) : Registry :=
  changeAll withMembers ps members (changeAll withLinks ps links (named headers))

theorem class?_named (headers : List Class) (c : ClassId) : (named headers).class? c = headers[c]? := by
  rw [Registry.class?, named, Registry.classes_foldl_enter]
  simp

/-- Whether classes are those of the declarations, without supertypes and members. -/
def HeadersOf (ms : List Manifest) (headers : List Class) : Prop :=
  List.Forall₂ (fun e header => e.2.header? = some header) (entries ms) headers

theorem HeadersOf.getElem? (h : HeadersOf ms headers) (hspec : (ms.flatMap Manifest.classes)[c]? = some spec) :
    ∃ header, headers[c]? = some header ∧ spec.header? = some header := by
  rw [← snd_entries, List.getElem?_map] at hspec
  obtain ⟨e, he, rfl⟩ := Option.map_eq_some_iff.1 hspec
  exact exists_getElem?_of_forall₂ h he

theorem hasFlags_named (h : HeadersOf ms headers) (hp : p ∈ pending ms) : HasFlags (named headers) p := by
  obtain ⟨⟨e, c⟩, he, rfl⟩ := List.mem_map.1 hp
  have hspec : (ms.flatMap Manifest.classes)[c]? = some e.2 := by
    rw [← snd_entries, List.getElem?_map, List.mem_zipIdx_iff_getElem?.1 he, Option.map_some]
  obtain ⟨header, hheader, heq⟩ := h.getElem? hspec
  refine ⟨header, heq, ?_⟩
  rw [class?_named, hheader, Option.map_some]

theorem finishes_populate_iff {target : Target} :
    Finishes (populate ms) { target } () w' ↔ ∃ headers links members,
      HeadersOf ms headers ∧ (∀ e ∈ entries ms, e.2.Named) ∧ ((entries ms).map fun e => e.2.name).Nodup ∧
      List.Forall₂ (Links (named headers)) (pending ms) links ∧
      List.Forall₂ (HasMembers (named headers)) (pending ms) members ∧
      { target, registry := passed (pending ms) headers links members } = w' := by
  have hpasses : populate ms = ((entries ms).mapM fun e => declareSpec e.1 e.2) >>= fun ps =>
      ps.forM link >>= fun _ => ps.forM addMembers := rfl
  rw [hpasses, finishes_bind_iff]
  simp only [finishes_declareAll_iff]
  constructor
  · rintro ⟨ps, _, ⟨headers, hheaders, hnamed, hnodup, -, rfl, rfl⟩, h⟩
    obtain ⟨links, members, hlinks, hmembers, rfl⟩ := (finishes_passes_iff fun _ hp => hasFlags_named hheaders hp).1 h
    exact ⟨headers, links, members, hheaders, hnamed, hnodup, hlinks, hmembers, rfl⟩
  · rintro ⟨headers, links, members, hheaders, hnamed, hnodup, hlinks, hmembers, rfl⟩
    refine ⟨pending ms, { target, registry := named headers }, ⟨headers, hheaders, hnamed, hnodup, fun e _ => ?_, rfl, rfl⟩,
      (finishes_passes_iff fun _ hp => hasFlags_named hheaders hp).2 ⟨links, members, hlinks, hmembers, rfl⟩⟩
    simp [Registry.find?]

theorem HeadersOf.names_eq (h : HeadersOf ms headers) :
    headers.map Class.name = (ms.flatMap Manifest.classes).map ClassSpec.name := by
  rw [← snd_entries, List.map_map]
  rw [HeadersOf] at h
  generalize entries ms = es at h
  induction h with
  | nil => rfl
  | cons hheader _ ih => rw [List.map_cons, List.map_cons, ih, ClassSpec.name_of_header? hheader, Function.comp_apply]

theorem find?_named (hnodup : (headers.map Class.name).Nodup) (name : Text) :
    (named headers).find? name = (headers.map Class.name).idxOf? name := by
  rw [named, Registry.find?_foldl_enter hnodup]
  simp [Registry.find?]

section

variable {ms : List Manifest} {headers : List Class} {links : List (Option ClassId × List ClassId)}
  {members : List (List Field × List Method)}

theorem find?_passed (name : Text) :
    (passed (pending ms) headers links members).find? name = (named headers).find? name :=
  (find?_changeAll name).trans (find?_changeAll name)

theorem class?_passed (hheaders : HeadersOf ms headers) (hlinks : List.Forall₂ (Links (named headers)) (pending ms) links)
    (hmembers : List.Forall₂ (HasMembers (named headers)) (pending ms) members)
    (hspec : (ms.flatMap Manifest.classes)[c]? = some spec) :
    ∃ cls, (passed (pending ms) headers links members).class? c = some cls ∧ (named headers).classFrom? spec = some cls := by
  obtain ⟨path, hp⟩ := getElem?_pending hspec
  obtain ⟨header, hheader, heq⟩ := hheaders.getElem? hspec
  obtain ⟨x, hx, hlink⟩ := exists_getElem?_of_forall₂ hlinks hp
  obtain ⟨y, hy, hfields, header', heq', hmethods⟩ := exists_getElem?_of_forall₂ hmembers hp
  cases heq.symm.trans heq'
  refine ⟨withMembers y (withLinks x header), ?_, ?_⟩
  · have hlinked := class?_changeAll (f := withLinks) (nodup_pending ms) hp hx (named headers)
    rw [class?_named, hheader, Option.map_some] at hlinked
    rw [passed, class?_changeAll (nodup_pending ms) hp hy, hlinked, Option.map_some]
  · refine Registry.classFrom?_eq_some_iff.2 ⟨header, x.1, x.2, y.1, y.2, heq, hlink.1, hlink.2, hfields, hmethods, ?_⟩
    obtain ⟨access, -, rfl⟩ := Option.map_eq_some_iff.1 heq
    simp [withMembers, withLinks, Class.addSuper, Class.addInterfaces, Class.addFields, Class.addMethods]

theorem class?_passed_eq_none (hheaders : HeadersOf ms headers) (hc : (ms.flatMap Manifest.classes)[c]? = none) :
    (passed (pending ms) headers links members).class? c = none := by
  have hlength : headers.length = (ms.flatMap Manifest.classes).length := by
    rw [← snd_entries, List.length_map]
    exact hheaders.length_eq.symm
  have hle := List.getElem?_eq_none_iff.1 hc
  have hnotMem : c ∉ (pending ms).map Pending.cls := by
    intro hmem
    obtain ⟨p, hp, rfl⟩ := List.mem_map.1 hmem
    obtain ⟨⟨e, i⟩, he, rfl⟩ := List.mem_map.1 hp
    have hlt := (List.getElem?_eq_some_iff.1 (List.mem_zipIdx_iff_getElem?.1 he)).1
    rw [← snd_entries, List.length_map] at hle
    dsimp only at hle
    omega
  rw [passed, class?_changeAll_of_notMem hnotMem, class?_changeAll_of_notMem hnotMem, class?_named, List.getElem?_eq_none_iff]
  omega

end

/-- Manifests that are entered have declarations that may be, and the registry has their classes. -/
theorem populated_of_finishes {target : Target} (h : Finishes (populate ms) { target } () w) :
    Declarable (ms.flatMap Manifest.classes) ∧ w.registry.Populated (ms.flatMap Manifest.classes) ∧
      w = { target, registry := w.registry } := by
  obtain ⟨headers, links, members, hheaders, hnamed, hnodup, hlinks, hmembers, rfl⟩ := finishes_populate_iff.1 h
  have hnames : (headers.map Class.name).Nodup := by
    rw [hheaders.names_eq, ← snd_entries, List.map_map]
    exact hnodup
  have hfind : ∀ name, (named headers).find? name = ((ms.flatMap Manifest.classes).map ClassSpec.name).idxOf? name := by
    intro name
    rw [find?_named hnames, hheaders.names_eq]
  refine ⟨⟨?_, hheaders.names_eq ▸ hnames, fun r hr => ?_⟩, ⟨fun name => ?_, fun c => ?_⟩, rfl⟩
  · intro spec hspec
    rw [← snd_entries] at hspec
    obtain ⟨e, he, rfl⟩ := List.mem_map.1 hspec
    exact hnamed e he
  · rw [Registry.classFrom?_congr fun name => (hr name).trans (hfind name).symm]
    intro spec hspec
    obtain ⟨c, hc⟩ := List.mem_iff_getElem?.1 hspec
    obtain ⟨cls, -, hcls⟩ := class?_passed hheaders hlinks hmembers hc
    exact ⟨cls, hcls⟩
  · exact (find?_passed name).trans (hfind name)
  · cases hspec : (ms.flatMap Manifest.classes)[c]? with
    | none => exact class?_passed_eq_none hheaders hspec
    | some spec =>
      obtain ⟨cls, hcls, hfrom⟩ := class?_passed hheaders hlinks hmembers hspec
      rw [Option.bind_some, Registry.classFrom?_congr find?_passed, hfrom]
      exact hcls

theorem exists_forall₂ {R : α → β → Prop} {as : List α} (h : ∀ a ∈ as, ∃ b, R a b) : ∃ bs, List.Forall₂ R as bs := by
  induction as with
  | nil => exact ⟨[], .nil⟩
  | cons a as ih =>
    rw [List.forall_mem_cons] at h
    obtain ⟨b, hb⟩ := h.1
    obtain ⟨bs, hbs⟩ := ih h.2
    exact ⟨b :: bs, .cons hb hbs⟩

theorem exists_names {names : List Text} (hnodup : names.Nodup) :
    ∃ r : Registry, ∀ name, r.find? name = names.idxOf? name := by
  have hnames : (names.map fun name => ({ name, access := ⟨0⟩, external := false } : Class)).map Class.name = names := by
    simp [Function.comp_def]
  refine ⟨named (names.map fun name => { name, access := ⟨0⟩, external := false }), fun name => ?_⟩
  rw [find?_named (hnames.symm ▸ hnodup), hnames]

theorem exists_populate (h : Declarable (ms.flatMap Manifest.classes)) (target : Target) :
    ∃ w, Finishes (populate ms) { target } () w := by
  have hmem : ∀ e ∈ entries ms, e.2 ∈ ms.flatMap Manifest.classes := by
    intro e he
    rw [← snd_entries]
    exact List.mem_map_of_mem he
  have hspec : ∀ p ∈ pending ms, p.spec ∈ ms.flatMap Manifest.classes := by
    intro p hp
    obtain ⟨⟨e, c⟩, he, rfl⟩ := List.mem_map.1 hp
    exact hmem e (List.mem_of_getElem? (List.mem_zipIdx_iff_getElem?.1 he))
  -- The flags of a class do not depend on the numbers, which are only known once all classes are declared.
  obtain ⟨r, hr⟩ := exists_names h.nodup
  obtain ⟨headers, hheaders⟩ : ∃ headers, HeadersOf ms headers := by
    refine exists_forall₂ fun e he => ?_
    obtain ⟨cls, hcls⟩ := h.resolved r hr e.2 (hmem e he)
    obtain ⟨header, -, -, -, -, hheader, -⟩ := Registry.classFrom?_eq_some_iff.1 hcls
    exact ⟨header, hheader⟩
  have hfind : ∀ name, (named headers).find? name = ((ms.flatMap Manifest.classes).map ClassSpec.name).idxOf? name := by
    intro name
    rw [find?_named (hheaders.names_eq ▸ h.nodup), hheaders.names_eq]
  have hclass := h.resolved (named headers) hfind
  obtain ⟨links, hlinks⟩ : ∃ links, List.Forall₂ (Links (named headers)) (pending ms) links := by
    refine exists_forall₂ fun p hp => ?_
    obtain ⟨cls, hcls⟩ := hclass p.spec (hspec p hp)
    obtain ⟨-, super, interfaces, -, -, -, hsuper, hinterfaces, -⟩ := Registry.classFrom?_eq_some_iff.1 hcls
    exact ⟨(super, interfaces), hsuper, hinterfaces⟩
  obtain ⟨members, hmembers⟩ : ∃ members, List.Forall₂ (HasMembers (named headers)) (pending ms) members := by
    refine exists_forall₂ fun p hp => ?_
    obtain ⟨cls, hcls⟩ := hclass p.spec (hspec p hp)
    obtain ⟨header, -, -, fields, methods, hheader, -, -, hfields, hmethods, -⟩ := Registry.classFrom?_eq_some_iff.1 hcls
    exact ⟨(fields, methods), hfields, header, hheader, hmethods⟩
  refine ⟨_, finishes_populate_iff.2 ⟨headers, links, members, hheaders, fun e he => h.named e.2 (hmem e he), ?_, hlinks,
    hmembers, rfl⟩⟩
  have hnodup := h.nodup
  rwa [← snd_entries, List.map_map] at hnodup

/-! ### Steps that lead to the registry -/

theorem built_inherit (h : w.Built) (c : ClassId) (f : Class → Option ClassId × List ClassId) :
    Workspace.Built { w with
      registry := w.registry.modifyClass c fun cls => { cls with super := (f cls).1, interfaces := (f cls).2 } } := by
  cases hcls : w.registry.class? c with
  | none =>
    rw [Registry.modifyClass_congr (g := fun cls => cls) (by simp [hcls]), Registry.modifyClass_id]
    exact h
  | some cls =>
    have hsame : (w.registry.modifyClass c fun cls => { cls with super := (f cls).1, interfaces := (f cls).2 }) =
        w.registry.modifyClass c fun cls' => { cls' with super := (f cls).1, interfaces := (f cls).2 } := by
      apply Registry.modifyClass_congr
      intro cls' hcls'
      rw [Option.some.inj (hcls.symm.trans hcls')]
    rw [hsame]
    exact .inherit c (f cls).1 (f cls).2 h

section

variable {P : Workspace → Prop}
  (hdeclare : ∀ name access external, Keeps P (Class.declare name access external))
  (hinherit : ∀ (c : ClassId) (f : Class → Option ClassId × List ClassId), Keeps P
    (onRegistry fun r => r.modifyClass c fun cls => { cls with super := (f cls).1, interfaces := (f cls).2 }))
  (hfield : ∀ c name descriptor access, Keeps P (Class.addField c name descriptor access))
  (hmethod : ∀ c name descriptor access ops, Keeps P (Class.addMethod c name descriptor access ops))

theorem keeps_accessOf (path cls : Text) (words : List Text) : Keeps P (accessOf path cls words) := by
  rw [accessOf]
  split
  · exact keeps_pure _
  · exact keeps_throw _

theorem keeps_classNamed (path cls name : Text) : Keeps P (classNamed path cls name) := by
  refine keeps_registry.bind fun r => ?_
  split
  · exact keeps_pure _
  · exact keeps_throw _

include hdeclare in
theorem keeps_declareSpec (path : Text) (spec : ClassSpec) : Keeps P (declareSpec path spec) := by
  refine (keeps_accessOf path spec.name spec.access).bind fun access w hw => ?_
  rw [bind_apply_of_finishes finishes_registry]
  split_ifs
  · exact hw
  · cases hok : w.registry.declare spec.name access spec.external with
    | error e => exact hw
    | ok x =>
      have hstate : Class.declare spec.name access spec.external w = (.ok x.1, { w with registry := x.2 }) := by
        rw [Class.declare, bind_apply_of_finishes finishes_registry, hok]
        rfl
      have hafter := hdeclare spec.name access spec.external w hw
      rw [hstate] at hafter
      exact hafter

include hinherit in
theorem keeps_link (p : Pending) : Keeps P (link p) := by
  have hinterfaces : Keeps P (p.spec.interfaces.forM fun name => do
      let i ← classNamed p.path p.spec.name name
      onRegistry fun r => r.modifyClass p.cls fun c => { c with interfaces := c.interfaces ++ [i] }) :=
    keeps_forM fun name _ => (keeps_classNamed p.path p.spec.name name).bind fun i =>
      hinherit p.cls fun cls => (cls.super, cls.interfaces ++ [i])
  rw [link]
  split
  · exact hinterfaces
  · refine (keeps_classNamed _ _ _).bind fun s => Keeps.bind ?_ fun _ => hinterfaces
    exact hinherit p.cls fun cls => (some s, cls.interfaces)

include hfield hmethod in
theorem keeps_addMembers (p : Pending) : Keeps P (addMembers p) := by
  refine Keeps.bind (keeps_forM fun f _ => ?_) fun _ => keeps_forM fun m _ => ?_
  · refine Keeps.bind (keeps_accessOf p.path p.spec.name f.access) fun access w hw => ?_
    exact hfield p.cls f.name f.descriptor access w hw
  · refine Keeps.bind (keeps_accessOf p.path p.spec.name m.access) fun access => ?_
    exact Keeps.bind (keeps_class' p.cls) fun cls w hw => hmethod p.cls m.name m.descriptor _ m.ops w hw

include hdeclare hinherit hfield hmethod in
/-- Entering manifests declares classes, sets supertypes and adds members, and does nothing else. -/
theorem keeps_populate (ms : List Manifest) : Keeps P (populate ms) := by
  refine Keeps.bind (keeps_mapM fun e => ?_) fun ps => Keeps.bind (keeps_forM fun p _ => ?_) fun _ => keeps_forM fun p _ => ?_
  · exact keeps_declareSpec hdeclare e.1 e.2
  · exact keeps_link hinherit p
  · exact keeps_addMembers hfield hmethod p

end

theorem keeps_built_populate (ms : List Manifest) : Keeps Workspace.Built (populate ms) := by
  apply keeps_populate
  · exact fun name access external w hw => .declare name access external hw
  · exact fun c f w hw => built_inherit hw c f
  · exact fun c name descriptor access w hw => .addField c name descriptor access hw
  · exact fun c name descriptor access ops w hw => .addMethod c name descriptor access ops hw

end Manifest

end ClassAbi
