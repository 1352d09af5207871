import ClassAbi.Class.Declare
import ClassAbi.Class.Instance
import ClassAbi.Class.Slots
import ClassAbi.Proofs.Action
import ClassAbi.Proofs.Class.Descriptor
import ClassAbi.Proofs.Class.Hierarchy

/-!
# What declarations establish

A declared method goes into the vtable as its flags say, and has no slot if it does not go into it. The types of parameters
and fields are primitive or pointers, a static field has no offset, and an interface has no vtable. All later steps keep this,
also when they fail.
-/

namespace ClassAbi

variable {c : ClassId} {f : Class → Class} {r : Registry} {name descriptor : Text} {access : Access}

/-- Whether a method is neither static nor private, so that a method of a subclass can override it. -/
def Method.IsVirtual (m : Method) : Prop := m.access.isStatic = false ∧ m.access.isPrivate = false

instance (m : Method) : Decidable m.IsVirtual := inferInstanceAs (Decidable (_ ∧ _))

def JavaType.IsValued (t : JavaType) : Prop := (∃ p, t = .primitive p) ∨ ∃ elem, t = .pointer elem

/-- Whether the choice for or against the vtable is the one that the flags and the name of a method ask for, and all
parameters have values. -/
structure Method.Declared (m : Method) : Prop where
  inVtable_iff : m.inVtable = true ↔ m.IsVirtual ∧ m.access.isFinal = false ∧ m.name ≠ Text.ofString "<init>"
  slot_of_excluded : m.inVtable = false → m.slot = -1
  params : ∀ p ∈ m.params, p.IsValued

/-- Whether a field has a type of its own, and no offset if it is static. -/
structure Field.Declared (f : Field) : Prop where
  type_cases : f.type.IsValued
  offset_of_static : f.access.isStatic = true → f.offset = -1

/-- What holds of every class from its declaration on. -/
structure Class.Declared (cls : Class) : Prop where
  methods : ∀ m ∈ cls.methods, m.Declared
  fields : ∀ f ∈ cls.fields, f.Declared
  vtable_of_interface : cls.isInterface = true → cls.vtable = #[]

namespace Registry

def Declared (r : Registry) : Prop := ∀ c cls, r.class? c = some cls → cls.Declared

variable {r : Registry}

theorem Declared.modifyClass (h : r.Declared) (hf : ∀ cls, r.class? c = some cls → (f cls).Declared) :
    (r.modifyClass c f).Declared := by
  intro d cls hd
  rw [class?_modifyClass] at hd
  split_ifs at hd with hcd
  · subst hcd
    obtain ⟨cls0, hcls0, rfl⟩ := Option.map_eq_some_iff.1 hd
    exact hf cls0 hcls0
  · exact h d cls hd

theorem declared_empty : Declared {} := by
  intro c cls h
  simp [class?] at h

end Registry

/-- Whether the classes of a workspace are as declarations make them. -/
def Workspace.Declared (w : Workspace) : Prop := w.registry.Declared

section

open ClassAbi.Action

/-- A step that changes one class keeps what declarations establish if the change does. -/
theorem keeps_modifyClass (hf : ∀ cls : Class, cls.Declared → (f cls).Declared) :
    Keeps Workspace.Declared (onRegistry fun r => r.modifyClass c f) :=
  keeps_onRegistry fun _ hw => hw.modifyClass fun cls hcls => hf cls (hw c cls hcls)

/-! ### Declaring -/

theorem declared_of_declare {r' : Registry} {external : Bool} (h : r.Declared)
    (hdeclare : r.declare name access external = .ok (c, r')) : r'.Declared := by
  rw [Registry.declare] at hdeclare
  split_ifs at hdeclare
  cases hdeclare
  intro d cls hd
  rw [Registry.class?, Array.getElem?_push] at hd
  split_ifs at hd
  · cases hd
    exact ⟨by simp, by simp, fun _ => rfl⟩
  · exact h d cls hd

theorem keeps_declare (name : Text) (access : Access) (external : Bool) :
    Keeps Workspace.Declared (Class.declare name access external) := by
  refine keeps_registry.bind_of (Q := Registry.Declared) (fun w r w' hw hread => ?_) fun r hr => ?_
  · obtain ⟨rfl, -⟩ := finishes_registry_iff.1 hread
    exact hw
  refine (keeps_ofExcept _ _).bind_of (Q := fun x => x.2.Declared) (fun w x w' _ hdeclare => ?_) fun x hx => ?_
  · exact declared_of_declare hr (finishes_ofExcept_iff.1 hdeclare).1
  · obtain ⟨c, r'⟩ := x
    refine Keeps.bind ?_ fun _ => keeps_pure c
    exact fun _ _ => hx

theorem Registry.Reads.isValued {d : Text} {type : JavaType} (h : r.Reads d type) : type.IsValued := by
  cases h with
  | primitive p => exact .inl ⟨p, rfl⟩
  | reference _ _ => exact .inr ⟨_, rfl⟩
  | array _ => exact .inr ⟨_, rfl⟩

theorem isValued_of_typesOfDescriptor {params : List JavaType} {result : JavaType}
    (h : r.typesOfDescriptor descriptor = .ok (params, result)) : ∀ p ∈ params, p.IsValued := by
  obtain ⟨ds, -, hds, -⟩ := Registry.typesOfDescriptor_eq_ok_iff.1 h
  clear h
  induction hds with
  | nil => simp
  | cons hd _ ih => exact List.forall_mem_cons.2 ⟨hd.isValued, ih⟩

theorem declared_of_methodOf {cls : Access} {m : Method} (h : r.methodOf cls name descriptor access = .ok m)
    (ops : List Text) : { m with ops }.Declared := by
  rw [Registry.methodOf, bind_eq_ok_iff] at h
  obtain ⟨⟨params, result⟩, htypes, hm⟩ := h
  cases hm
  refine ⟨?_, fun _ => rfl, isValued_of_typesOfDescriptor htypes⟩
  simp only [Method.IsVirtual, Bool.not_eq_true', Bool.or_eq_false_iff, beq_eq_false_iff_ne, ne_eq]
  tauto

theorem keeps_addMethod (c : ClassId) (name descriptor : Text) (access : Access) (ops : List Text) :
    Keeps Workspace.Declared (Class.addMethod c name descriptor access ops) := by
  refine (keeps_class' c).bind fun cls => keeps_registry.bind fun r => ?_
  refine (keeps_ofExcept _ _).bind_of (Q := fun m => { m with ops }.Declared) (fun w m w' _ hmethod => ?_) fun m hm => ?_
  · exact declared_of_methodOf (finishes_ofExcept_iff.1 hmethod).1 ops
  refine keeps_modifyClass fun cls hcls => ⟨fun m' hm' => ?_, hcls.fields, hcls.vtable_of_interface⟩
  rcases Array.mem_push.1 hm' with hold | rfl
  · exact hcls.methods m' hold
  · exact hm

theorem declared_of_fieldOf {f : Field} (h : r.fieldOf name descriptor access = .ok f) : f.Declared := by
  rw [Registry.fieldOf, bind_eq_ok_iff] at h
  obtain ⟨type, htype, hf⟩ := h
  cases hf
  exact ⟨(Registry.typeOfDescriptor_eq_ok_iff.1 htype).isValued, fun _ => rfl⟩

theorem keeps_addField (c : ClassId) (name descriptor : Text) (access : Access) :
    Keeps Workspace.Declared (Class.addField c name descriptor access) := by
  refine keeps_registry.bind fun r => ?_
  refine (keeps_ofExcept _ _).bind_of (Q := Field.Declared) (fun w f w' _ hfield => ?_) fun f hf => ?_
  · exact declared_of_fieldOf (finishes_ofExcept_iff.1 hfield).1
  refine keeps_modifyClass fun cls hcls => ⟨hcls.methods, fun f' hf' => ?_, hcls.vtable_of_interface⟩
  rcases Array.mem_push.1 hf' with hold | rfl
  · exact hcls.fields f' hold
  · exact hf

/-! ### Layout and slots -/

theorem declared_of_mem_withOffsets {fields : List Field} {places : List Place} (h : ∀ f ∈ fields, f.Declared) :
    ∀ f ∈ Class.withOffsets fields places, f.Declared := by
  induction fields generalizing places with
  | nil => simp [Class.withOffsets]
  | cons f fields ih =>
    rw [List.forall_mem_cons] at h
    by_cases hstatic : f.access.isStatic = true
    · rw [Class.withOffsets.eq_def]
      simp only [if_pos hstatic]
      exact List.forall_mem_cons.2 ⟨h.1, ih h.2⟩
    · rw [Class.withOffsets.eq_def]
      simp only [if_neg hstatic]
      cases places with
      | nil => exact List.forall_mem_cons.2 h
      | cons place places =>
        exact List.forall_mem_cons.2 ⟨⟨h.1.type_cases, fun hs => absurd hs hstatic⟩, ih h.2⟩

theorem Class.Declared.withLayout {cls : Class} (h : cls.Declared) (t : TypeId) (l : TypeLayout) :
    (cls.withLayout t l).Declared := by
  refine ⟨h.methods, fun f hf => ?_, h.vtable_of_interface⟩
  rw [Class.withLayout, List.mem_toArray] at hf
  exact declared_of_mem_withOffsets (fun f hf => h.fields f (Array.mem_toList_iff.1 hf)) f hf

theorem keeps_firstMember {P : Workspace → Prop} (cls : Class) : Keeps P (Class.firstMember cls) := by
  rw [Class.firstMember]
  split
  · exact keeps_pure _
  · refine (keeps_class' _).bind fun super => ?_
    split_ifs
    · exact keeps_pure _
    · exact keeps_throw _

section

variable {P : Workspace → Prop}

/-- Objects are laid out by a new type, which is then asked for its layout. -/
theorem keeps_layOut_of (htype : ∀ w shape, P w → P { w with program := (w.program.addType shape).2 })
    (hlayout : ∀ w t, P w → P { w with layouts := (Layout.layoutOf w.program.types w.target t w.layouts).2 })
    (hclass : ∀ c t l, Keeps P (onRegistry fun r => r.modifyClass c fun cls => cls.withLayout t l)) (c : ClassId) :
    Keeps P (Class.layOut c) := by
  refine (keeps_class' c).bind fun cls => (keeps_firstMember cls).bind fun first => keeps_registry.bind fun r => ?_
  exact (keeps_newType fun w hw => htype w _ hw).bind fun t => (keeps_layoutOf hlayout).bind fun l => hclass c t l

theorem keeps_layOutAll (h : ∀ c, Keeps P (Class.layOut c)) : Keeps P Class.layOutAll :=
  keeps_registry.bind fun _ => (keeps_ofExcept _ _).bind fun _ => keeps_forM fun c _ =>
    (keeps_class' c).bind fun _ => keeps_within (h c)

theorem keeps_inheritedSlots (cls : Class) : Keeps P (Class.inheritedSlots cls) := by
  rw [Class.inheritedSlots]
  split
  · exact keeps_pure _
  · refine (keeps_class' _).bind fun super => ?_
    split_ifs
    · exact keeps_pure _
    · exact keeps_throw _

theorem keeps_assignSlots_of
    (hclass : ∀ c f, (∀ cls : Class, ∃ methods vtable vtableSize dispatchFinal,
      f cls = { cls with methods, vtable, vtableSize, dispatchFinal }) → Keeps P (onRegistry fun r => r.modifyClass c f))
    (c : ClassId) : Keeps P (Class.assignSlots c) := by
  refine (keeps_class' c).bind fun cls => ?_
  split_ifs
  · refine (keeps_inheritedSlots cls).bind fun inherited => keeps_registry.bind fun r => ?_
    refine (hclass c _ fun _ => ⟨_, _, _, _, rfl⟩).bind fun _ => ?_
    dsimp only
    split_ifs
    · exact keeps_throw _
    · exact hclass c _ fun _ => ⟨_, _, _, _, rfl⟩
  · exact hclass c _ fun _ => ⟨_, _, _, _, rfl⟩

theorem keeps_assignAllSlots (h : ∀ c, Keeps P (Class.assignSlots c)) : Keeps P Class.assignAllSlots :=
  keeps_registry.bind fun _ => (keeps_ofExcept _ _).bind fun _ => keeps_forM fun c _ => h c

end

theorem keeps_layOut (c : ClassId) : Keeps Workspace.Declared (Class.layOut c) :=
  keeps_layOut_of (fun _ _ hw => hw) (fun _ _ hw => hw) (fun _ t l => keeps_modifyClass fun _ hcls => hcls.withLayout t l) c

theorem declared_of_mem_placeAll {before : Nat} {t : SlotTable} {methods : List Method} (h : ∀ m ∈ methods, m.Declared) :
    ∀ m ∈ (SlotTable.placeAll c before t methods).1, m.Declared := by
  induction methods generalizing before t with
  | nil => simp [SlotTable.placeAll]
  | cons m methods ih =>
    rw [List.forall_mem_cons] at h
    rw [SlotTable.placeAll]
    split_ifs with hin
    · refine List.forall_mem_cons.2 ⟨⟨h.1.inVtable_iff, fun hout => ?_, h.1.params⟩, ih h.2⟩
      rw [hin] at hout
      cases hout
    · exact List.forall_mem_cons.2 ⟨h.1, ih h.2⟩

/-- Whether, besides, the class `c` is an interface or not, as `interface` says. -/
def DeclaredWith (c : ClassId) (interface : Bool) (w : Workspace) : Prop :=
  w.Declared ∧ ∀ cls, w.registry.class? c = some cls → cls.isInterface = interface

theorem keeps_modifyClass_with {interface : Bool}
    (hf : ∀ cls : Class, cls.Declared → cls.isInterface = interface → (f cls).Declared)
    (haccess : ∀ cls : Class, (f cls).isInterface = cls.isInterface) :
    Keeps (DeclaredWith c interface) (onRegistry fun r => r.modifyClass c f) := by
  refine keeps_onRegistry fun w hw => ⟨hw.1.modifyClass fun cls hcls => hf cls (hw.1 c cls hcls) (hw.2 cls hcls), ?_⟩
  intro cls hcls
  rw [Registry.class?_modifyClass, if_pos rfl] at hcls
  obtain ⟨cls0, hcls0, rfl⟩ := Option.map_eq_some_iff.1 hcls
  rw [haccess, hw.2 cls0 hcls0]

theorem keeps_fillSlots {cls : Class} (hcls : cls.Declared) (inherited : Array MethodRef) :
    Keeps (DeclaredWith c false) (Class.fillSlots c cls inherited) := by
  refine keeps_registry.bind fun r => ?_
  dsimp only
  refine Keeps.bind ?_ fun _ => ?_
  · refine keeps_modifyClass_with (fun cls' hcls' _ => ?_) fun _ => rfl
    refine ⟨fun m hm => ?_, hcls'.fields, hcls'.vtable_of_interface⟩
    exact declared_of_mem_placeAll (fun m hm => hcls.methods m (Array.mem_toList_iff.1 hm)) m (List.mem_toArray.1 hm)
  · split_ifs
    · exact keeps_throw _
    · refine keeps_modifyClass_with (fun cls' hcls' hclass => ?_) fun _ => rfl
      exact ⟨hcls'.methods, hcls'.fields, fun hinterface => absurd (hclass.symm.trans hinterface) (by simp)⟩

theorem keeps_assignSlots (c : ClassId) : Keeps Workspace.Declared (Class.assignSlots c) := by
  have hkeeps : ∀ interface, Keeps (DeclaredWith c interface) (Class.assignSlots c) := by
    intro interface
    refine (keeps_class' c).bind_of (Q := fun cls => cls.Declared ∧ cls.isInterface = interface)
      (fun w cls w' hw hread => ?_) fun cls hcls => ?_
    · obtain ⟨hcls, -⟩ := finishes_class'_iff.1 hread
      exact ⟨hw.1 c cls hcls, hw.2 cls hcls⟩
    · obtain ⟨hdeclared, rfl⟩ := hcls
      cases hinterface : cls.isInterface with
      | false =>
        rw [if_pos (by simp [Class.needsVtable, hinterface])]
        exact (keeps_inheritedSlots cls).bind fun inherited => keeps_fillSlots hdeclared inherited
      | true =>
        rw [if_neg (by simp [Class.needsVtable, hinterface])]
        exact keeps_modifyClass_with (fun cls' hcls' _ => ⟨hcls'.methods, hcls'.fields, hcls'.vtable_of_interface⟩)
          fun cls' => rfl
  intro w hw
  cases hcls : w.registry.class? c with
  | none => exact (hkeeps false w ⟨hw, by simp [hcls]⟩).1
  | some cls => exact (hkeeps cls.isInterface w ⟨hw, by simp [hcls]⟩).1

end

end ClassAbi
