import ClassAbi.Proofs.Workspace

/-!
# The objects of a hierarchy

The objects of a class begin with those of its superclass, so a field is at the same offset in all subclasses. `LaidOut` says
that the recorded size, alignment and offsets of a class are those of the data type of its objects; it is established when
the class has its turn, and later turns keep it, since they only add types and layouts.
-/

namespace ClassAbi

variable {cls : Class} {r : Registry} {c : ClassId} {d : DataType} {m : Member} {t : TypeId} {f : Field}
  {path : List Nat}

/-- The fields that the objects of a class have besides those of its superclass. -/
def Class.instanceFields (cls : Class) : List Field := cls.fields.toList.filter fun f => !f.access.isStatic

def Class.fieldTypes (cls : Class) : List DataType := cls.instanceFields.map fun f => .scalar f.type.mode

namespace Registry

/-- Whether the objects of a class are of a data type. -/
inductive ObjectType (r : Registry) : ClassId → DataType → Prop
  | root {c : ClassId} {cls : Class} (hcls : r.class? c = some cls) (hs : cls.super = none) :
    r.ObjectType c (.struct (.scalar .pointer :: cls.fieldTypes))
  | extend {c s : ClassId} {cls : Class} {d : DataType} (hcls : r.class? c = some cls) (hs : cls.super = some s)
    (h : r.ObjectType s d) : r.ObjectType c (.struct (d :: cls.fieldTypes))

/-- Whether the objects of a class have a field, which may be inherited. The path has the position of the field, after that
of the part of the superclass that it is in, if any. -/
inductive HasField (r : Registry) : ClassId → List Nat → Field → Prop
  | own {c : ClassId} {cls : Class} {i : Nat} {f : Field} (hcls : r.class? c = some cls)
    (hf : cls.instanceFields[i]? = some f) : r.HasField c [i + 1] f
  | inherited {c s : ClassId} {cls : Class} {path : List Nat} {f : Field} (hcls : r.class? c = some cls)
    (hs : cls.super = some s) (h : r.HasField s path f) : r.HasField c (0 :: path) f

end Registry

/-- Whether a scalar is at an offset in the values of a type, by the layouts of the structs around it. The path has the
position of a member in each of them. -/
inductive Workspace.ScalarAt (w : Workspace) : TypeId → List Nat → Int → Mode → Prop
  | scalar {t : TypeId} {mode : Mode} (h : w.program.types.shape? t = some (.primitive mode)) : w.ScalarAt t [] 0 mode
  | member {t t' : TypeId} {name : Text} {members : List Member} {m : Member} {l : TypeLayout} {w' : Workspace} {i : Nat}
    {path : List Nat} {offset : Int} {mode : Mode} (hshape : w.program.types.shape? t = some (.struct name members))
    (hm : members[i]? = some m) (htype : m.type = some t') (hlayout : Finishes (Action.layoutOf t) w l w')
    (h : w.ScalarAt t' path offset mode) : w.ScalarAt t (i :: path) (l.offsetAt i + offset) mode

/-! ### What the layout of objects leaves alone -/

def Field.withoutOffset (f : Field) : Field := { f with offset := -1 }

/-- A class without what the layout of its objects fills in. -/
def Class.withoutLayout (cls : Class) : Class :=
  { cls with
    fields := cls.fields.map Field.withoutOffset, «instance» := none, size := 0, align := 0, layoutFinal := false }

theorem withoutOffset_withOffsets (fields : List Field) (places : List Place) :
    (Class.withOffsets fields places).map Field.withoutOffset = fields.map Field.withoutOffset := by
  induction fields, places using Class.withOffsets.induct with
  | case1 places => rfl
  | case2 f fields places hstatic ih => rw [Class.withOffsets.eq_def]; simp [hstatic, ih]
  | case3 f fields hstatic => rw [Class.withOffsets.eq_def]; simp [hstatic]
  | case4 f fields hstatic place places ih => rw [Class.withOffsets.eq_def]; simp [hstatic, ih, Field.withoutOffset]

theorem Class.withoutLayout_withLayout (cls : Class) (t : TypeId) (l : TypeLayout) :
    (cls.withLayout t l).withoutLayout = cls.withoutLayout := by
  have hfields : ((withOffsets cls.fields.toList (l.places.getD []).tail).toArray).map Field.withoutOffset =
      cls.fields.map Field.withoutOffset := by
    rw [List.map_toArray, withoutOffset_withOffsets, ← Array.toList_map, Array.toArray_toList]
  simp only [withoutLayout, withLayout, hfields]

theorem Class.fieldTypes_withoutLayout (cls : Class) : cls.withoutLayout.fieldTypes = cls.fieldTypes := by
  simp only [fieldTypes, instanceFields, withoutLayout, Array.toList_map, List.filter_map, List.map_map]
  rfl

theorem Class.fieldTypes_eq {cls' : Class} (h : cls'.withoutLayout = cls.withoutLayout) :
    cls'.fieldTypes = cls.fieldTypes := by
  rw [← fieldTypes_withoutLayout cls', h, fieldTypes_withoutLayout]

theorem Class.super_eq {cls' : Class} (h : cls'.withoutLayout = cls.withoutLayout) : cls'.super = cls.super := by
  have heq := congrArg Class.super h
  exact heq

theorem offset_withOffsets {fields : List Field} {places : List Place}
    (h : (fields.filter fun f => !f.access.isStatic).length = places.length) :
    ((Class.withOffsets fields places).filter fun f => !f.access.isStatic).map Field.offset = places.map Place.offset := by
  induction fields, places using Class.withOffsets.induct with
  | case1 places =>
    obtain rfl := List.length_eq_zero_iff.1 h.symm
    rfl
  | case2 f fields places hstatic ih =>
    rw [Class.withOffsets.eq_def]
    simp only [hstatic, List.filter_cons, if_true, Bool.not_true, Bool.false_eq_true, if_false] at h ⊢
    exact ih h
  | case3 f fields hstatic => simp [hstatic] at h
  | case4 f fields hstatic place places ih =>
    rw [Class.withOffsets.eq_def]
    simp only [hstatic, List.filter_cons, Bool.not_false, if_true, List.length_cons, Nat.add_right_cancel_iff] at h ⊢
    simp [hstatic, ih h]

namespace Registry

theorem ObjectType.unique {d' : DataType} (h : r.ObjectType c d) (h' : r.ObjectType c d') : d = d' := by
  induction h generalizing d' with
  | root hcls hs =>
    cases h' with
    | root hcls' _ => rw [Option.some.inj (hcls.symm.trans hcls')]
    | extend hcls' hs' _ =>
      cases hcls.symm.trans hcls'
      cases hs.symm.trans hs'
  | extend hcls hs _ ih =>
    cases h' with
    | root hcls' hs' =>
      cases hcls.symm.trans hcls'
      cases hs.symm.trans hs'
    | extend hcls' hs' h' =>
      cases hcls.symm.trans hcls'
      cases hs.symm.trans hs'
      rw [ih h']

theorem ObjectType.congr (forget : Class → Class) (hsuper : ∀ cls, (forget cls).super = cls.super)
    (hfields : ∀ cls, (forget cls).fieldTypes = cls.fieldTypes) {r' : Registry} (h : r.ObjectType c d)
    (hsame : AgreeUpTo forget r' r) : r'.ObjectType c d := by
  induction h with
  | root hcls hs =>
    obtain ⟨cls', hcls', heq⟩ := hsame.exists_class hcls
    rw [← hfields, heq, hfields]
    exact .root hcls' (by rw [← hsuper, ← heq, hsuper, hs])
  | extend hcls hs _ ih =>
    obtain ⟨cls', hcls', heq⟩ := hsame.exists_class hcls
    rw [← hfields, heq, hfields]
    exact .extend hcls' (by rw [← hsuper, ← heq, hsuper, hs]) ih

end Registry

/-! ### One turn -/

/-- The member with which the objects of a class begin. -/
@[mk_iff]
inductive Registry.FirstMember (r : Registry) (cls : Class) : Member → Prop
  | vptr (hs : cls.super = none) : r.FirstMember cls ⟨vptrMember, some Mode.pointer.typeId⟩
  | base {s : ClassId} {super : Class} (hs : cls.super = some s) (hsuper : r.class? s = some super)
    (hfinal : super.layoutFinal = true) : r.FirstMember cls ⟨baseMember, super.instance⟩

theorem Registry.FirstMember.name_eq (h : r.FirstMember cls m) (hs : cls.super = none) : m.name = vptrMember := by
  cases h with
  | vptr => rfl
  | base hs' => cases hs.symm.trans hs'

theorem finishes_firstMember_iff {w w' : Workspace} :
    Finishes (Class.firstMember cls) w m w' ↔ w.registry.FirstMember cls m ∧ w = w' := by
  cases hs : cls.super <;> simp [Class.firstMember, Registry.firstMember_iff, hs] <;> grind

def Registry.objectShape (r : Registry) (cls : Class) (first : Member) : Shape :=
  .struct cls.name (first :: Class.ownMembers r cls)

theorem finishes_layOut_iff {w w' : Workspace} :
    Finishes (Class.layOut c) w () w' ↔
      ∃ cls first l known, w.registry.class? c = some cls ∧ w.registry.FirstMember cls first ∧
        Finishes (Layout.layoutOf (w.program.types.push (w.registry.objectShape cls first)).2 w.target
          w.program.types.shapes.size) w.layouts l known ∧
        w' = { w with
          program := (w.program.addType (w.registry.objectShape cls first)).2
          layouts := known
          registry := w.registry.modifyClass c fun cls => cls.withLayout w.program.types.shapes.size l } := by
  simp only [Class.layOut, finishes_bind_iff, Action.finishes_class'_iff, finishes_firstMember_iff,
    Action.finishes_registry_iff, Action.finishes_newType_iff, Action.finishes_layoutOf_iff, Action.finishes_onRegistry_iff]
  simp [@eq_comm _ w']
  rfl

/-- Whether what is recorded of a class is the layout of the data type of its objects. -/
structure Class.LaidOut (w : Workspace) (cls : Class) (first : DataType) (t : TypeId) : Prop where
  final : cls.layoutFinal = true
  instance_eq : cls.instance = some t
  shape : ∃ m members, w.program.types.shape? t = some (.struct cls.name (m :: members)) ∧
    (cls.super = none → m.name = vptrMember)
  describes : w.program.types.Describes (.struct (first :: cls.fieldTypes)) t
  right : Layout.RightIn w.program.types w.target w.layouts t
  size_eq : cls.size = ((DataType.struct (first :: cls.fieldTypes)).layout w.target).size
  align_eq : cls.align = ((DataType.struct (first :: cls.fieldTypes)).layout w.target).align
  offsets_eq : cls.instanceFields.map Field.offset =
    (((DataType.struct (first :: cls.fieldTypes)).layout w.target).places.getD []).tail.map Place.offset

theorem Class.LaidOut.exact {w : Workspace} {p : Nat} {first : DataType} (h : cls.LaidOut w first t)
    (hp : w.target.Regular p) (hsize : (DataType.struct (first :: cls.fieldTypes)).size p < 2 ^ 63) :
    cls.size = (DataType.struct (first :: cls.fieldTypes)).size p ∧
      cls.align = (DataType.struct (first :: cls.fieldTypes)).align p ∧
      cls.instanceFields.map Field.offset = (offsets p 0 (first :: cls.fieldTypes)).tail.map Nat.cast := by
  have hplaces : (((DataType.struct (first :: cls.fieldTypes)).exact p).places.getD []).map Place.offset =
      (offsets p 0 (first :: cls.fieldTypes)).map Nat.cast := offset_places 0 _
  rw [h.size_eq, h.align_eq, h.offsets_eq, layout_eq_exact hp hsize, List.map_tail, hplaces, ← List.map_tail]
  exact ⟨rfl, rfl, rfl⟩

theorem Class.LaidOut.grows {w w' : Workspace} {first : DataType} (h : cls.LaidOut w first t)
    (htarget : w'.target = w.target) (hext : w.program.types.Extends w'.program.types)
    (hgrows : Layout.Grows w'.program.types w.target w.layouts w'.layouts) : cls.LaidOut w' first t where
  final := h.final
  instance_eq := h.instance_eq
  shape := by
    obtain ⟨m, members, hshape, hname⟩ := h.shape
    exact ⟨m, members, hext t _ hshape, hname⟩
  describes := h.describes.extends hext
  right := htarget ▸ (h.right.extends h.describes hext).grows hgrows
  size_eq := htarget ▸ h.size_eq
  align_eq := htarget ▸ h.align_eq
  offsets_eq := htarget ▸ h.offsets_eq

theorem storageType_of_declared (h : f.Declared) (r : Registry) : r.storageType f.type = f.type.mode.typeId := by
  rcases h.type_cases with ⟨prim, heq⟩ | ⟨elem, heq⟩ <;> rw [heq] <;> rfl

theorem Workspace.TypesSound.describesAll {w : Workspace} (h : w.TypesSound) {fields : List Field}
    (hfields : ∀ f ∈ fields, f.Declared) (r : Registry) :
    w.program.types.DescribesAll (fields.map fun f => .scalar f.type.mode)
      (fields.map fun f => ⟨f.name, some (r.storageType f.type)⟩) := by
  induction fields with
  | nil => exact trivial
  | cons f fields ih =>
    rw [List.forall_mem_cons] at hfields
    refine ⟨⟨_, rfl, ?_⟩, ih hfields.2⟩
    rw [storageType_of_declared hfields.1]
    exact h.shared f.type.mode

/-- A new struct stands for one of what its members stand for, and what is known of its parts is right. -/
theorem Workspace.TypesSound.describes_struct {w : Workspace} (h : w.TypesSound) {name : Text} {ds : List DataType}
    {members : List Member} (hall : w.program.types.DescribesAll ds members)
    (hright : ∀ m ∈ members, ∀ t, m.type = some t → Layout.RightIn w.program.types w.target w.layouts t) {types : TypeTable}
    (htypes : types = (w.program.types.push (.struct name members)).2) :
    types.Describes (.struct ds) w.program.types.shapes.size ∧
      Layout.RightIn types w.target w.layouts w.program.types.shapes.size := by
  have hext : w.program.types.Extends types := htypes ▸ w.program.types.extends_push _
  have hshape : types.shape? w.program.types.shapes.size = some (.struct name members) :=
    htypes ▸ w.program.types.shape?_push _
  refine ⟨⟨_, _, hshape, hall.extends fun _ _ _ hd => hd.extends hext⟩, .of_contained ?_ fun t' hcontains => ?_⟩
  · -- No layout is known of a type that is not in the table yet.
    by_contra hsome
    obtain ⟨l, hl⟩ := Option.ne_none_iff_exists'.1 hsome
    exact absurd (h.layouts.bounded _ l hl) (lt_irrefl _)
  · cases hcontains with
    | struct hshape' hm htype =>
      cases hshape.symm.trans hshape'
      obtain ⟨d, -, t, htype', hd⟩ := hall.exists_of_mem hm
      obtain rfl := Option.some.inj (htype'.symm.trans htype)
      exact (hright _ hm t htype).extends hd hext
    | union hshape' | array hshape' => cases hshape.symm.trans hshape'

/-- What holds once the objects of the classes in `before` have a layout, where `w0` is the workspace of the start. -/
structure ObjectsDone (w0 : Workspace) (before : List ClassId) (w : Workspace) : Prop where
  target_eq : w.target = w0.target
  same : Registry.AgreeUpTo Class.withoutLayout w0.registry w.registry
  declared : w.Declared
  sound : w.TypesSound
  laidOut : ∀ c ∈ before, ∀ cls, w.registry.class? c = some cls →
    ∃ first t, w0.registry.ObjectType c (.struct (first :: cls.fieldTypes)) ∧ cls.LaidOut w first t
  -- A class that has had no turn is as it was, and a turn changes a class only by the layout.
  waiting : ∀ c ∉ before, w.registry.class? c = w0.registry.class? c
  changed : ∀ c ∈ before, ∃ cls0 d t, w0.registry.class? c = some cls0 ∧ w0.registry.ObjectType c d ∧
    w.registry.class? c = some (cls0.withLayout t (d.layout w0.target))

variable {w0 w w' : Workspace} {p : Nat} {before : List ClassId}

theorem ObjectsDone.first (h : ObjectsDone w0 before w) (hordered : w0.registry.Ordered (c :: before))
    (hcls : w.registry.class? c = some cls) (hfirst : w.registry.FirstMember cls m) :
    ∃ d t, w0.registry.ObjectType c (.struct (d :: cls.fieldTypes)) ∧ m.type = some t ∧ w.program.types.Describes d t ∧
      Layout.RightIn w.program.types w.target w.layouts t := by
  obtain ⟨cls0, hcls0, heq⟩ := h.same.exists_class hcls
  rw [Class.fieldTypes_eq heq]
  cases hfirst with
  | vptr hs =>
    exact ⟨.scalar .pointer, Mode.pointer.typeId, .root hcls0 ((Class.super_eq heq).symm.trans hs), rfl,
      h.sound.shared .pointer, h.sound.layouts.rightIn (h.sound.shared .pointer)⟩
  | base hs hsuper _ =>
    have hmem := h.same.super_mem (fun _ => rfl) hordered List.mem_cons_self hcls hs hsuper
    obtain ⟨first, t, hobject, hlaid⟩ := h.laidOut _ hmem _ hsuper
    exact ⟨_, t, .extend hcls0 ((Class.super_eq heq).symm.trans hs) hobject, hlaid.instance_eq, hlaid.describes, hlaid.right⟩

/-- The new type stands for the data type of the objects, and what is known of its parts is right. -/
theorem ObjectsDone.describes (h : ObjectsDone w0 before w) (hcls : cls.Declared) (hm : m.type = some t)
    (hd : w.program.types.Describes d t) (hright : Layout.RightIn w.program.types w.target w.layouts t)
    {types : TypeTable} (htypes : types = (w.program.types.push (w.registry.objectShape cls m)).2) :
    types.Describes (.struct (d :: cls.fieldTypes)) w.program.types.shapes.size ∧
      Layout.RightIn types w.target w.layouts w.program.types.shapes.size := by
  have hfields : ∀ f ∈ cls.instanceFields, f.Declared := fun f hf =>
    hcls.fields f (Array.mem_toList_iff.1 (List.mem_of_mem_filter hf))
  have hall : w.program.types.DescribesAll (d :: cls.fieldTypes) (m :: Class.ownMembers w.registry cls) :=
    ⟨⟨t, hm, hd⟩, h.sound.describesAll hfields w.registry⟩
  refine h.sound.describes_struct hall (fun m' hm' t' htype => ?_) htypes
  rcases List.mem_cons.1 hm' with rfl | hm'
  · cases hm.symm.trans htype
    exact hright
  · obtain ⟨f, hf, rfl⟩ := List.mem_map.1 hm'
    cases htype
    rw [storageType_of_declared (hfields f hf)]
    exact h.sound.layouts.rightIn (h.sound.shared f.type.mode)

theorem Class.laidOut_withLayout {first : DataType} {l : TypeLayout}
    (hl : l = (DataType.struct (first :: cls.fieldTypes)).layout w.target)
    (hshape : ∃ m members, w.program.types.shape? t = some (.struct cls.name (m :: members)) ∧
      (cls.super = none → m.name = vptrMember))
    (hd : w.program.types.Describes (.struct (first :: cls.fieldTypes)) t)
    (hright : Layout.RightIn w.program.types w.target w.layouts t) : (cls.withLayout t l).LaidOut w first t := by
  have hsame := fieldTypes_eq (cls.withoutLayout_withLayout t l)
  have hlength : cls.instanceFields.length = (l.places.getD []).tail.length := by
    rw [hl, List.length_tail, length_places_struct, List.length_cons, fieldTypes, List.length_map, Nat.add_sub_cancel]
  refine ⟨rfl, rfl, hshape, hsame ▸ hd, hright, ?_, ?_, ?_⟩
  · rw [hsame]
    exact congrArg TypeLayout.size hl
  · rw [hsame]
    exact congrArg TypeLayout.align hl
  · rw [hsame, ← hl]
    exact offset_withOffsets hlength

/-- A turn adds the layout of the objects of its class, and leaves those of the classes before it. -/
theorem ObjectsDone.turn (h : ObjectsDone w0 before w) (hordered : w0.registry.Ordered (c :: before))
    (hrun : Finishes (Class.layOut c) w () w') : ObjectsDone w0 (c :: before) w' := by
  have hdeclared := (keeps_layOut c).of_finishes h.declared hrun
  have hsound := (keeps_types_layOut c).of_finishes h.sound hrun
  obtain ⟨cls, m, l, known, hcls, hfirst, hlayout, rfl⟩ := finishes_layOut_iff.1 hrun
  obtain ⟨d, t, hobject, hm, hd, hright⟩ := h.first hordered hcls hfirst
  obtain ⟨hdescribes, hparts⟩ := h.describes (h.declared c cls hcls) hm hd hright rfl
  -- The layout that was computed is that of the data type of the objects.
  obtain ⟨known', hlayout', hgrows⟩ := Layout.finishes_layoutOf hdescribes hparts
  obtain ⟨rfl, rfl⟩ := hlayout.unique hlayout'
  have hupdated := Registry.updated_modifyClass hcls fun cls' => cls'.withLayout w.program.types.shapes.size
    ((DataType.struct (d :: cls.fieldTypes)).layout w.target)
  have hsame := hupdated.agreeUpTo hcls (cls.withoutLayout_withLayout _ _)
  refine ⟨h.target_eq, h.same.trans hsame, hdeclared, hsound, fun e he ecls hecls => ?_, fun e he => ?_, fun e he => ?_⟩
  rotate_left
  · rw [List.mem_cons, not_or] at he
    exact (hupdated.elsewhere he.1).trans (h.waiting e he.2)
  · by_cases hec : e = c
    · subst hec
      refine ⟨cls, _, w.program.types.shapes.size, (h.waiting e hordered.1).symm.trans hcls, hobject, ?_⟩
      rw [← h.target_eq]
      exact hupdated.here
    · obtain ⟨cls0, d', t', hcls0, hobject', hchanged⟩ := h.changed e ((List.mem_cons.1 he).resolve_left hec)
      exact ⟨cls0, d', t', hcls0, hobject', (hupdated.elsewhere hec).trans hchanged⟩
  by_cases hec : e = c
  · subst hec
    cases hupdated.here.symm.trans hecls
    refine ⟨d, _, ?_, Class.laidOut_withLayout rfl ?_ hdescribes (hparts.grows hgrows)⟩
    rotate_left
    · exact ⟨m, _, w.program.types.shape?_push _, hfirst.name_eq⟩
    rw [Class.fieldTypes_eq (cls.withoutLayout_withLayout _ _)]
    exact hobject
  · have hmem : e ∈ before := (List.mem_cons.1 he).resolve_left hec
    obtain ⟨first, t', hobject', hlaid⟩ := h.laidOut e hmem ecls ((hupdated.elsewhere hec).symm.trans hecls)
    exact ⟨first, t', hobject', hlaid.grows rfl (w.program.types.extends_push _) hgrows⟩

/-! ### All classes -/

theorem finishes_layOutAll_iff :
    Finishes Class.layOutAll w () w' ↔
      ∃ order, w.registry.superToSub = .ok order ∧ Finishes (order.forM Class.layOut) w () w' := by
  -- A turn looks the class up for the message of an error; the layout needs the class, too.
  have hturn : ∀ c w w', Finishes (do
      let name := (← Action.class' c).name
      Action.within (.layoutOf name) (Class.layOut c) : Action Unit) w ⟨⟩ w' ↔ Finishes (Class.layOut c) w ⟨⟩ w' := by
    intro c w w'
    simp only [finishes_bind_iff, Action.finishes_class'_iff, Action.finishes_within_iff]
    constructor
    · rintro ⟨cls, w1, ⟨-, rfl⟩, hrun⟩
      exact hrun
    · intro hrun
      obtain ⟨cls, -, -, -, hcls, -⟩ := finishes_layOut_iff.1 hrun
      exact ⟨cls, w, ⟨hcls, rfl⟩, hrun⟩
  rw [Class.layOutAll]
  simp only [finishes_bind_iff, finishes_forM_congr hturn]
  simp

theorem ObjectsDone.exists_first (h : ObjectsDone w0 before w)
    (hsupers : ∀ c cls s, w0.registry.class? c = some cls → cls.super = some s → ∃ super, w0.registry.class? s = some super)
    (hordered : w0.registry.Ordered (c :: before)) (hcls : w.registry.class? c = some cls) :
    ∃ m, w.registry.FirstMember cls m := by
  cases hs : cls.super with
  | none => exact ⟨_, .vptr hs⟩
  | some s =>
    obtain ⟨cls0, hcls0, heq⟩ := h.same.exists_class hcls
    obtain ⟨super0, hsuper0⟩ := hsupers c cls0 s hcls0 ((Class.super_eq heq).symm.trans hs)
    obtain ⟨super, hsuper, -⟩ := h.same.symm.exists_class hsuper0
    have hmem := h.same.super_mem (fun _ => rfl) hordered List.mem_cons_self hcls hs hsuper
    obtain ⟨first, t, -, hlaid⟩ := h.laidOut s hmem super hsuper
    exact ⟨_, .base hs hsuper hlaid.final⟩

theorem ObjectsDone.exists_turn (h : ObjectsDone w0 before w)
    (hsupers : ∀ c cls s, w0.registry.class? c = some cls → cls.super = some s → ∃ super, w0.registry.class? s = some super)
    (hordered : w0.registry.Ordered (c :: before)) : ∃ w', Finishes (Class.layOut c) w () w' := by
  obtain ⟨-, ⟨cls0, hcls0, -⟩, -⟩ := id hordered
  obtain ⟨cls, hcls, -⟩ := h.same.symm.exists_class hcls0
  obtain ⟨m, hfirst⟩ := h.exists_first hsupers hordered hcls
  obtain ⟨d, t, -, hm, hd, hright⟩ := h.first hordered hcls hfirst
  obtain ⟨hdescribes, hparts⟩ := h.describes (h.declared c cls hcls) hm hd hright rfl
  obtain ⟨known, hlayout, -⟩ := Layout.finishes_layoutOf hdescribes hparts
  exact ⟨_, finishes_layOut_iff.2 ⟨cls, m, _, known, hcls, hfirst, hlayout, rfl⟩⟩

/-- The objects can be laid out if the classes can be put in order and no superclass is missing. -/
theorem exists_layOutAll (built : w.Built) {order : List ClassId} (horder : w.registry.superToSub = .ok order)
    (hsupers : ∀ c cls s, w.registry.class? c = some cls → cls.super = some s → ∃ super, w.registry.class? s = some super) :
    ∃ w', Finishes Class.layOutAll w () w' := by
  have hstart : ObjectsDone w [] w := ⟨rfl, .refl _, built.declared, built.typesSound, by simp, by simp, by simp⟩
  obtain ⟨w', hrun⟩ := Registry.Ordered.exists_turns (fun c before w1 w2 hordered h => h.turn hordered)
    (fun c before w1 hordered h => h.exists_turn hsupers hordered)
    (by rw [List.append_nil]; exact (Registry.superToSub_spec horder).1) hstart
  exact ⟨w', finishes_layOutAll_iff.2 ⟨order, horder, hrun⟩⟩

theorem objectsDone (built : w.Built) (h : Finishes Class.layOutAll w () w') :
    ∃ before, ObjectsDone w before w' ∧ ∀ c cls, w'.registry.class? c = some cls → c ∈ before := by
  obtain ⟨order, horder, hturns⟩ := finishes_layOutAll_iff.1 h
  obtain ⟨hordered, hmem⟩ := Registry.superToSub_spec horder
  have hstart : ObjectsDone w [] w := ⟨rfl, .refl _, built.declared, built.typesSound, by simp, by simp, by simp⟩
  have hdone := Registry.Ordered.turns (fun c before w1 w2 hordered h => h.turn hordered) (by rwa [List.append_nil])
    hstart hturns
  refine ⟨_, hdone, fun c cls hcls => ?_⟩
  obtain ⟨cls0, hcls0, -⟩ := hdone.same.exists_class hcls
  rw [List.append_nil, List.mem_reverse]
  exact hmem c (Registry.lt_size_of_class? hcls0)

/-! ### Parts of objects -/

theorem scalarAt_of_partAt? (hp : w.target.Regular p) (hd : w.program.types.Describes d t)
    (hright : Layout.RightIn w.program.types w.target w.layouts t) (hsize : d.size p < 2 ^ 63) {offset : Nat}
    {mode : Mode} (h : d.partAt? p path = some (offset, .scalar mode)) : w.ScalarAt t path offset mode := by
  induction path generalizing d t offset with
  | nil =>
    cases h
    exact .scalar hd
  | cons i path ih =>
    obtain ⟨members, member, outer, inner, rfl, hmember, houter, hinner, rfl⟩ := DataType.partAt?_cons_iff.1 h
    obtain ⟨known, hrun, -⟩ := Layout.finishes_layoutOf hd hright
    rw [layout_eq_exact hp hsize] at hrun
    obtain ⟨name, ms, hshape, hall⟩ := hd
    obtain ⟨m, t', hm, htype, hdesc⟩ := hall.getElem? hmember
    have hle := member_le_size hmember houter
    have hscalar := ih hdesc (hright.contained (.struct hshape (List.mem_of_getElem? hm) htype)) (by omega) hinner
    rw [Nat.cast_add, ← offsetAt_exact houter]
    exact .member hshape hm htype (Action.finishes_layoutOf_iff.2 ⟨known, hrun, rfl⟩) hscalar

theorem Registry.ObjectType.vptr (h : r.ObjectType c d) :
    ∃ n, d.partAt? p (List.replicate (n + 1) 0) = some (0, .scalar .pointer) := by
  induction h with
  | root _ _ => exact ⟨0, by rw [List.replicate_succ, DataType.partAt?_first]; rfl⟩
  | extend _ _ _ ih =>
    obtain ⟨n, hn⟩ := ih
    exact ⟨n + 1, by rw [List.replicate_succ, DataType.partAt?_first, hn]⟩

theorem Registry.HasField.exists_ne_zero (h : r.HasField c path f) : ∃ i ∈ path, i ≠ 0 := by
  induction h with
  | own _ _ => exact ⟨_, List.mem_singleton_self _, by omega⟩
  | inherited _ _ _ ih =>
    obtain ⟨i, hi, hne⟩ := ih
    exact ⟨i, List.mem_cons_of_mem _ hi, hne⟩

theorem Field.Declared.bytes_pos (h : f.Declared) (hp : 0 < p) : 0 < f.type.mode.bytes p := by
  rcases h.type_cases with ⟨prim, heq⟩ | ⟨elem, heq⟩
  · rw [heq]
    cases prim <;> exact Nat.succ_pos _
  · rw [heq]
    exact hp

section

variable (h : ObjectsDone w0 before w) (hmem : ∀ c cls, w.registry.class? c = some cls → c ∈ before)
  (hp : w.target.Regular p) (hsize : ∀ c d, w0.registry.ObjectType c d → d.size p < 2 ^ 63)

include h

theorem ObjectsDone.super {s : ClassId} {first : DataType} (hcls : w.registry.class? c = some cls)
    (hs : cls.super = some s) (hobject : w0.registry.ObjectType c (.struct (first :: cls.fieldTypes))) :
    w0.registry.ObjectType s first := by
  obtain ⟨cls0, hcls0, heq⟩ := h.same.exists_class hcls
  have hs0 := (Class.super_eq heq).symm.trans hs
  generalize hd : DataType.struct (first :: cls.fieldTypes) = d at hobject
  cases hobject with
  | root hcls' hs' =>
    cases hcls0.symm.trans hcls'
    cases hs0.symm.trans hs'
  | extend hcls' hs' hsuper =>
    cases hcls0.symm.trans hcls'
    cases hs0.symm.trans hs'
    rw [(List.cons.inj (DataType.struct.inj hd)).1]
    exact hsuper

include hmem hp hsize

/-- A field is in the data type of the objects of every subclass, at the offset that is recorded for it. -/
theorem ObjectsDone.field (hfield : w.registry.HasField c path f) (hobject : w0.registry.ObjectType c d) :
    ∃ offset : Nat, d.partAt? p path = some (offset, .scalar f.type.mode) ∧ f.offset = offset ∧ f.Declared := by
  induction hfield generalizing d with
  | @own c cls i f hcls hf =>
    obtain ⟨first, t, hobject', hlaid⟩ := h.laidOut c (hmem c cls hcls) cls hcls
    obtain rfl := hobject.unique hobject'
    have htype : (first :: cls.fieldTypes)[i + 1]? = some (.scalar f.type.mode) := by
      rw [List.getElem?_cons_succ, Class.fieldTypes, List.getElem?_map, hf, Option.map_some]
    have hoffset := congrArg (fun l => l[i]?) (hlaid.exact hp (hsize c _ hobject')).2.2
    simp only [List.getElem?_map, hf, Option.map_some, List.getElem?_tail] at hoffset
    obtain ⟨offset, hoffset', hcast⟩ := Option.map_eq_some_iff.1 hoffset.symm
    refine ⟨offset, DataType.partAt?_cons_iff.2 ⟨_, _, _, _, rfl, htype, hoffset', rfl, rfl⟩, hcast.symm, ?_⟩
    exact (h.declared c cls hcls).fields f (Array.mem_toList_iff.1 (List.mem_of_mem_filter (List.mem_of_getElem? hf)))
  | @inherited c s cls path f hcls hs _ ih =>
    obtain ⟨first, t, hobject', hlaid⟩ := h.laidOut c (hmem c cls hcls) cls hcls
    obtain rfl := hobject.unique hobject'
    rw [DataType.partAt?_first]
    exact ih (h.super hcls hs hobject)

theorem ObjectsDone.vptr_le (hfield : w.registry.HasField c path f) (hobject : w0.registry.ObjectType c d) :
    Mode.pointer.bytes p ≤ f.offset := by
  obtain ⟨n, hvptr⟩ := hobject.vptr (p := p)
  have hpos : 0 < p := by rcases hp.width with rfl | rfl <;> decide
  obtain ⟨offset, hpart, hoffset, hdeclared⟩ := h.field hmem hp hsize hfield hobject
  obtain ⟨i, hi, hne⟩ := hfield.exists_ne_zero
  have hpath : List.replicate (n + 1) 0 ≠ path := fun heq => hne (List.eq_of_mem_replicate (heq ▸ hi))
  have hbytes := hdeclared.bytes_pos hpos
  rcases DataType.partAt?_disjoint hvptr hpart hpath with hbefore | hafter <;> omega

/-- The own fields of a class come after the part of its superclass, which does not need more alignment. -/
theorem ObjectsDone.own {s : ClassId} {super : Class} (hcls : w.registry.class? c = some cls) (hs : cls.super = some s)
    (hsuper : w.registry.class? s = some super) :
    super.align ≤ cls.align ∧ ∀ f ∈ cls.instanceFields, super.size ≤ f.offset := by
  obtain ⟨first, t, hobject, hlaid⟩ := h.laidOut c (hmem c cls hcls) cls hcls
  obtain ⟨first', t', hobject', hlaid'⟩ := h.laidOut s (hmem s super hsuper) super hsuper
  obtain ⟨-, halign, -⟩ := hlaid.exact hp (hsize c _ hobject)
  obtain ⟨hsize', halign', -⟩ := hlaid'.exact hp (hsize s _ hobject')
  obtain rfl := (h.super hcls hs hobject).unique hobject'
  rw [halign, halign', hsize']
  refine ⟨by exact_mod_cast align_le_alignAll List.mem_cons_self, fun f hf => ?_⟩
  obtain ⟨i, hi⟩ := List.mem_iff_getElem?.1 hf
  obtain ⟨offset, hpart, hoffset, -⟩ := h.field hmem hp hsize (.own hcls hi) hobject
  obtain ⟨members, member, outer, inner, heq, -, houter, hinner, rfl⟩ := DataType.partAt?_cons_iff.1 hpart
  cases heq
  cases hinner
  have hzero : (offsets p 0 (DataType.struct (first' :: super.fieldTypes) :: cls.fieldTypes))[0]? =
      some (alignUp 0 ((DataType.struct (first' :: super.fieldTypes)).align p)) := rfl
  have hbefore := member_before (Nat.succ_pos i) rfl hzero houter
  omega

end

/-! ### Objects -/

/-- Where the scalars in the objects of a class are, whose type is `t`. -/
structure Workspace.ObjectsOf (w : Workspace) (c : ClassId) (cls : Class) (t : TypeId) : Prop where
  recorded : ∃ l w', Finishes (Action.layoutOf t) w l w' ∧ l.size = cls.size ∧ l.align = cls.align
  align_dvd : cls.align ∣ cls.size
  -- The reference to the vtable.
  vptr : ∃ n, w.ScalarAt t (List.replicate (n + 1) 0) 0 .pointer
  vptr_le : Layout.modeSize w.target .pointer ≤ cls.size
  -- The fields, own and inherited, each at the offset in the class that declares it.
  field : ∀ path f, w.registry.HasField c path f → w.ScalarAt t path f.offset f.type.mode ∧
    Layout.modeSize w.target f.type.mode ∣ f.offset ∧ Layout.modeSize w.target .pointer ≤ f.offset ∧
    f.offset + Layout.modeSize w.target f.type.mode ≤ cls.size
  apart : ∀ path path' f f', w.registry.HasField c path f → w.registry.HasField c path' f' → path ≠ path' →
    f.offset + Layout.modeSize w.target f.type.mode ≤ f'.offset ∨ f'.offset + Layout.modeSize w.target f'.type.mode ≤ f.offset
  own : ∀ s super, cls.super = some s → w.registry.class? s = some super →
    super.align ≤ cls.align ∧ ∀ f ∈ cls.instanceFields, super.size ≤ f.offset
  static : ∀ f ∈ cls.fields, f.access.isStatic = true → f.offset = -1

theorem ObjectsDone.objectsOf (h : ObjectsDone w0 before w) (hmem : ∀ c cls, w.registry.class? c = some cls → c ∈ before)
    (hp : w.target.Regular p) (hsize : ∀ c d, w0.registry.ObjectType c d → d.size p < 2 ^ 63)
    (hcls : w.registry.class? c = some cls) : ∃ t, cls.instance = some t ∧ w.ObjectsOf c cls t := by
  have hpos : 0 < p := by rcases hp.width with rfl | rfl <;> decide
  obtain ⟨first, t, hobject, hlaid⟩ := h.laidOut c (hmem c cls hcls) cls hcls
  have hlt := hsize c _ hobject
  obtain ⟨hsize_eq, halign_eq, -⟩ := hlaid.exact hp hlt
  obtain ⟨known, hrun, -⟩ := Layout.finishes_layoutOf hlaid.describes hlaid.right
  rw [layout_eq_exact hp hlt] at hrun
  refine ⟨t, hlaid.instance_eq, ?_⟩
  constructor
  case recorded =>
    exact ⟨_, _, Action.finishes_layoutOf_iff.2 ⟨known, hrun, rfl⟩, hsize_eq.symm, halign_eq.symm⟩
  case align_dvd =>
    rw [halign_eq, hsize_eq]
    exact_mod_cast DataType.align_dvd_size _
  case vptr =>
    obtain ⟨n, hvptr⟩ := hobject.vptr (p := p)
    exact ⟨n, by exact_mod_cast scalarAt_of_partAt? hp hlaid.describes hlaid.right hlt hvptr⟩
  case vptr_le =>
    obtain ⟨n, hvptr⟩ := hobject.vptr (p := p)
    have hle := DataType.partAt?_le hvptr
    rw [modeSize_eq hp, hsize_eq]
    rw [Nat.zero_add] at hle
    exact_mod_cast hle
  case field =>
    intro path f hfield
    obtain ⟨offset, hpart, hoffset, hdeclared⟩ := h.field hmem hp hsize hfield hobject
    have hle : offset + f.type.mode.bytes p ≤ _ := DataType.partAt?_le hpart
    have hdvd : max (f.type.mode.bytes p) 1 ∣ offset := (DataType.partAt?_aligned hp.eq_pow hpart).1
    rw [max_eq_left (hdeclared.bytes_pos hpos)] at hdvd
    rw [modeSize_eq hp, modeSize_eq hp, hsize_eq]
    refine ⟨hoffset ▸ scalarAt_of_partAt? hp hlaid.describes hlaid.right hlt hpart, ?_, h.vptr_le hmem hp hsize hfield hobject, ?_⟩
    · rw [hoffset]
      exact_mod_cast hdvd
    · rw [hoffset]
      exact_mod_cast hle
  case apart =>
    intro path path' f f' hfield hfield' hne
    obtain ⟨offset, hpart, hoffset, -⟩ := h.field hmem hp hsize hfield hobject
    obtain ⟨offset', hpart', hoffset', -⟩ := h.field hmem hp hsize hfield' hobject
    rw [modeSize_eq hp, modeSize_eq hp, hoffset, hoffset']
    exact_mod_cast DataType.partAt?_disjoint hpart hpart' hne
  case own => exact fun s super hs hsuper => h.own hmem hp hsize hcls hs hsuper
  case static => exact fun f hf hstatic => ((h.declared c cls hcls).fields f hf).offset_of_static hstatic

/-- Where the objects of all classes can be laid out and are not too large, the scalars in them are as `ObjectsOf` says, and a
field is at the same offset in all subclasses. Nothing else changes in the classes. -/
theorem layOutAll_embeds {triple : Text} (htarget : Target.ofTriple triple = .ok w.target) (built : w.Built)
    (h : Finishes Class.layOutAll w () w')
    (hsize : ∀ c d, w.registry.ObjectType c d → d.size w.target.pointerSize.toNat < 2 ^ 63) :
    Registry.AgreeUpTo Class.withoutLayout w.registry w'.registry ∧
      ∀ c cls, w'.registry.class? c = some cls → ∃ t, cls.instance = some t ∧ w'.ObjectsOf c cls t := by
  obtain ⟨p, hp⟩ := Target.regular_of_ofTriple htarget
  rw [hp.size_eq, Int.toNat_natCast] at hsize
  obtain ⟨before, hdone, hmem⟩ := objectsDone built h
  exact ⟨hdone.same, fun c cls hcls => hdone.objectsOf hmem (hdone.target_eq ▸ hp) hsize hcls⟩

/-- The two classes with a static and three other fields. -/
def classesWithFields : Workspace :=
  let first := (Class.addField 0 "n" "J" ⟨8⟩ (Class.addField 0 "x" "I" ⟨2⟩ (twoClasses ⟨1⟩)).2).2
  (Class.addField 1 "y" "J" ⟨0⟩ (Class.addField 1 "b" "B" ⟨0⟩ first).2).2

theorem target_classesWithFields : classesWithFields.target = .linux64 := by cbv

theorem classes_classesWithFields :
    classesWithFields.registry.classes.toList.map (fun cls => (cls.super, cls.fieldTypes)) =
      [(none, [.scalar .int32]), (some 0, [.scalar .int8, .scalar .int64])] := by cbv

theorem classesWithFields_cases (h : classesWithFields.registry.class? c = some cls) :
    c = 0 ∧ cls.super = none ∧ cls.fieldTypes = [.scalar .int32] ∨
      c = 1 ∧ cls.super = some 0 ∧ cls.fieldTypes = [.scalar .int8, .scalar .int64] := by
  have hmap := congrArg (fun l => l[c]?) classes_classesWithFields
  have hcls : classesWithFields.registry.classes[c]? = some cls := h
  simp only [List.getElem?_map, Array.getElem?_toList, hcls, Option.map_some] at hmap
  match c with
  | 0 => exact .inl ⟨rfl, Prod.mk.inj (Option.some.inj hmap)⟩
  | 1 => exact .inr ⟨rfl, Prod.mk.inj (Option.some.inj hmap)⟩

theorem objectType_classesWithFields (h : classesWithFields.registry.ObjectType c d) :
    c = 0 ∧ d = .struct [.scalar .pointer, .scalar .int32] ∨
      c = 1 ∧ d = .struct [.struct [.scalar .pointer, .scalar .int32], .scalar .int8, .scalar .int64] := by
  induction h with
  | root hcls hs =>
    rcases classesWithFields_cases hcls with ⟨rfl, -, htypes⟩ | ⟨-, hs', -⟩
    · exact .inl ⟨rfl, by rw [htypes]⟩
    · cases hs.symm.trans hs'
  | extend hcls hs _ ih =>
    rcases classesWithFields_cases hcls with ⟨-, hs', -⟩ | ⟨rfl, hs', htypes⟩
    · cases hs.symm.trans hs'
    · cases hs.symm.trans hs'
      rcases ih with ⟨-, rfl⟩ | ⟨hne, -⟩
      · exact .inr ⟨rfl, by rw [htypes]⟩
      · cases hne

theorem layOutAll_embeds_fields :
    Target.ofTriple "x86_64-linux-gnu" = .ok classesWithFields.target ∧ classesWithFields.Built ∧
      (∀ c d, classesWithFields.registry.ObjectType c d → d.size classesWithFields.target.pointerSize.toNat < 2 ^ 63) ∧
      ∃ w', Finishes Class.layOutAll classesWithFields () w' ∧
        Registry.AgreeUpTo Class.withoutLayout classesWithFields.registry w'.registry ∧
        ∀ c cls, w'.registry.class? c = some cls → ∃ t, cls.instance = some t ∧ w'.ObjectsOf c cls t := by
  have htarget : Target.ofTriple "x86_64-linux-gnu" = .ok classesWithFields.target := by
    rw [target_classesWithFields]
    cbv
  have hbuilt : classesWithFields.Built :=
    .addField 1 "y" "J" ⟨0⟩ (.addField 1 "b" "B" ⟨0⟩ (.addField 0 "n" "J" ⟨8⟩ (.addField 0 "x" "I" ⟨2⟩ (built_twoClasses ⟨1⟩))))
  have hsize : ∀ c d, classesWithFields.registry.ObjectType c d → d.size 8 < 2 ^ 63 := by
    intro c d h
    rcases objectType_classesWithFields h with ⟨-, rfl⟩ | ⟨-, rfl⟩ <;> cbv
  have hsupers : ∀ c cls s, classesWithFields.registry.class? c = some cls → cls.super = some s →
      ∃ super, classesWithFields.registry.class? s = some super := by
    intro c cls s hcls hs
    have hlength := congrArg List.length classes_classesWithFields
    rw [List.length_map, Array.length_toList] at hlength
    rcases classesWithFields_cases hcls with ⟨-, hs', -⟩ | ⟨-, hs', -⟩
    · cases hs.symm.trans hs'
    · cases hs.symm.trans hs'
      exact ⟨_, Registry.class?_eq_some (hlength ▸ Nat.two_pos)⟩
  obtain ⟨w', hrun⟩ := exists_layOutAll hbuilt (by cbv) hsupers
  have hwidth : classesWithFields.target.pointerSize.toNat = 8 := by
    rw [target_classesWithFields]
    rfl
  rw [← hwidth] at hsize
  exact ⟨htarget, hbuilt, hsize, w', hrun, layOutAll_embeds htarget hbuilt hrun hsize⟩

end ClassAbi
