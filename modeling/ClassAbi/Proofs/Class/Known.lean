import ClassAbi.Proofs.Class.Entities
import ClassAbi.Proofs.Workspace

/-!
# Names and types of a registry

A class is found under its name and under no other one, and the types of fields are made of primitive types and registered
classes. Layout, slots and entities do not matter for this, so that all later steps keep it.
-/

namespace ClassAbi

variable {t d name : Text} {type : JavaType} {c : ClassId} {access : Access}

def Field.outline (f : Field) : Field := { f with offset := -1, entity := none }

def Class.outline (cls : Class) : Class :=
  { name := cls.name, access := cls.access, external := cls.external, fields := cls.fields.map Field.outline }

open Ascii

namespace Registry

/-- Whether a type can stand in a descriptor. -/
inductive HasType (r : Registry) : JavaType → Prop
  | primitive (p : Primitive) : HasType r (.primitive p)
  | reference {c : ClassId} {cls : Class} (h : r.class? c = some cls) : HasType r (.reference c)
  | array {elem : JavaType} (h : HasType r elem) : HasType r (.pointer elem)

/-- Whether classes are found by name, and the types of fields are known. -/
structure Known (r : Registry) : Prop where
  found : ∀ c cls, r.class? c = some cls → r.find? cls.name = some c
  named : ∀ name c, r.find? name = some c → ∃ cls, r.class? c = some cls ∧ cls.name = name
  types : ∀ c cls f, r.class? c = some cls → f ∈ cls.fields → r.HasType f.type

variable {r r' : Registry}

theorem known_empty : Known {} := by
  refine ⟨?_, ?_, ?_⟩ <;> intros <;> simp_all [class?, find?]

theorem HasType.mono {t : JavaType} (h : r.HasType t) (hclass : ∀ c cls, r.class? c = some cls → ∃ cls', r'.class? c = some cls') :
    r'.HasType t := by
  induction h with
  | primitive p => exact .primitive p
  | reference h =>
    obtain ⟨cls', hcls'⟩ := hclass _ _ h
    exact .reference hcls'
  | array _ ih => exact .array ih

theorem Known.congr (h : r.Known) (hagree : AgreeUpTo Class.outline r r') : r'.Known where
  found c cls hcls := by
    obtain ⟨cls0, hcls0, heq⟩ := hagree.exists_class hcls
    have hname : cls.name = cls0.name := by simpa [Class.outline] using congrArg Class.name heq
    rw [find?, hagree.byName_eq, hname]
    exact h.found c cls0 hcls0
  named name c hfind := by
    rw [find?, hagree.byName_eq] at hfind
    obtain ⟨cls0, hcls0, hname0⟩ := h.named name c hfind
    obtain ⟨cls, hcls, heq⟩ := hagree.symm.exists_class hcls0
    have hname : cls0.name = cls.name := by simpa [Class.outline] using congrArg Class.name heq
    exact ⟨cls, hcls, hname ▸ hname0⟩
  types c cls f hcls hf := by
    obtain ⟨cls0, hcls0, heq⟩ := hagree.exists_class hcls
    have hfields : cls.fields.map Field.outline = cls0.fields.map Field.outline := congrArg Class.fields heq
    have hmem : f.outline ∈ cls0.fields.map Field.outline := hfields ▸ Array.mem_map_of_mem hf
    obtain ⟨f0, hf0, hsame⟩ := Array.mem_map.1 hmem
    have htype : f0.type = f.type := by simpa [Field.outline] using congrArg Field.type hsame
    refine (htype ▸ h.types c cls0 f0 hcls0 hf0).mono fun d dcls hd => ?_
    obtain ⟨dcls', hdcls', -⟩ := hagree.symm.exists_class hd
    exact ⟨dcls', hdcls'⟩

theorem agreeUpTo_modifyClass {forget : Class → Class} (r : Registry) (c : ClassId) {f : Class → Class}
    (hf : ∀ cls, forget (f cls) = forget cls) : AgreeUpTo forget r (r.modifyClass c f) where
  byName_eq := rfl
  class?_eq d := by
    rw [class?_modifyClass]
    split_ifs
    · rw [Option.map_map]
      exact congrArg (fun g => (r.class? d).map g) (funext hf)
    · rfl

theorem AgreeUpTo.outline_of_unlinked (h : AgreeUpTo Class.unlinked r r') : AgreeUpTo Class.outline r r' where
  byName_eq := h.byName_eq
  class?_eq c := by
    have houtline : ∀ o : Option Class, o.map Class.outline = (o.map Class.unlinked).map Class.outline := by
      rintro (_ | cls)
      · rfl
      · have hfields : cls.fields.map Field.outline = (cls.fields.map Field.unlinked).map Field.outline := by
          rw [Array.map_map]
          rfl
        simp only [Option.map_some, Class.outline, Class.unlinked, hfields]
    rw [houtline, houtline (r.class? c), h.class?_eq]

/-! ### Declarations -/

theorem HasType.of_reads (h : r.Known) (hread : r.Reads d type) : r.HasType type := by
  induction hread with
  | primitive p => exact .primitive p
  | reference _ hfind =>
    obtain ⟨cls, hcls, -⟩ := h.named _ _ hfind
    exact .reference hcls
  | array _ ih => exact .array ih

theorem nameOf_of_class? {cls : Class} (h : r.class? c = some cls) : r.nameOf c = cls.name := by
  rw [nameOf, h]
  rfl

theorem Reads.descriptorOf_eq (hread : r.Reads d type) (h : r.Known) : r.descriptorOf type = d := by
  induction hread with
  | primitive p => rfl
  | reference _ hfind =>
    obtain ⟨cls, hcls, rfl⟩ := h.named _ _ hfind
    rw [JavaType.reference, descriptorOf, nameOf_of_class? hcls]
  | array hread ih =>
    rw [← ih]
    cases hread <;> rfl

theorem HasType.of_fieldOf (h : r.Known) {descriptor : Text} {f : Field}
    (hfield : r.fieldOf name descriptor access = .ok f) : r.HasType f.type := by
  rw [fieldOf, bind_eq_ok_iff] at hfield
  obtain ⟨type, htype, hf⟩ := hfield
  cases hf
  exact .of_reads h (typeOfDescriptor_eq_ok_iff.1 htype)

/-! ### Descriptors -/

/-- Whether a byte stands in descriptors for something else than a name. -/
def IsDescriptorLetter (b : UInt8) : Prop :=
  b ∈ [openParen, closeParen, openBracket, upperL, semicolon, upperV] ∨ ∃ p, Primitive.ofLetter? b = some p

/-- Whether each byte of a text is a letter of descriptors or stands in the name of a class. -/
def Spells (r : Registry) (t : Text) : Prop :=
  ∀ b ∈ t, IsDescriptorLetter b ∨ ∃ c cls, r.class? c = some cls ∧ b ∈ cls.name

/-- Whether the descriptors of all methods are made of letters and of the names of classes. -/
def Spelled (r : Registry) : Prop := ∀ c cls m, r.class? c = some cls → m ∈ cls.methods → r.Spells m.descriptor

theorem Spells.append {s : Text} (hs : r.Spells s) (ht : r.Spells t) : r.Spells (s ++ t) := by
  intro b hb
  rcases List.mem_append.1 hb with hb | hb
  · exact hs b hb
  · exact ht b hb

theorem Spells.cons {b : UInt8} (hb : IsDescriptorLetter b) (ht : r.Spells t) : r.Spells (b :: t) := by
  intro b' hb'
  rcases List.mem_cons.1 hb' with rfl | hb'
  · exact .inl hb
  · exact ht b' hb'

theorem spells_of_find? (h : r.Known) (hfind : r.find? name = some c) : r.Spells name := by
  obtain ⟨cls, hcls, rfl⟩ := h.named name c hfind
  exact fun b hb => .inr ⟨c, cls, hcls, hb⟩

theorem spells_of_reads (h : r.Known) (hread : r.Reads d type) : r.Spells d := by
  have hnil : r.Spells [] := by simp [Spells]
  induction hread with
  | primitive p => exact hnil.cons (.inr ⟨p, Primitive.ofLetter?_eq_some_iff.2 rfl⟩)
  | reference _ hfind => exact ((spells_of_find? h hfind).append (hnil.cons (.inl (by simp)))).cons (.inl (by simp))
  | array _ ih => exact ih.cons (.inl (by simp))

theorem spells_of_typesOfDescriptor (h : r.Known) {descriptor : Text} {params : List JavaType}
    (hread : r.typesOfDescriptor descriptor = .ok (params, type)) : r.Spells descriptor := by
  obtain ⟨ds, result, hds, rfl, hresult⟩ := typesOfDescriptor_eq_ok_iff.1 hread
  have hnil : r.Spells [] := by simp [Spells]
  have hparams : r.Spells ds.flatten := by
    clear hread
    induction hds with
    | nil => exact hnil
    | cons hd _ ih => exact (spells_of_reads h hd).append ih
  refine (hparams.append (Spells.cons (.inl (by simp)) ?_)).cons (.inl (by simp))
  rcases hresult with ⟨rfl, -⟩ | hresult
  · exact hnil.cons (.inl (by simp))
  · exact spells_of_reads h hresult

theorem Spells.mono (h : r.Spells t)
    (hclasses : ∀ c cls, r.class? c = some cls → ∃ cls', r'.class? c = some cls' ∧ cls'.name = cls.name) : r'.Spells t := by
  intro b hb
  refine (h b hb).imp_right ?_
  rintro ⟨c, cls, hcls, hmem⟩
  obtain ⟨cls', hcls', hname⟩ := hclasses c cls hcls
  exact ⟨c, cls', hcls', hname ▸ hmem⟩

theorem spelled_empty : Spelled {} := by
  intro c cls m h
  simp [class?] at h

theorem Spelled.congr (h : r.Spelled) {forget : Class → Class} (hagree : AgreeUpTo forget r r')
    (hname : ∀ cls, (forget cls).name = cls.name)
    (hmethods : ∀ cls, (forget cls).methods.map Method.descriptor = cls.methods.map Method.descriptor) : r'.Spelled := by
  intro c cls m hcls hm
  obtain ⟨cls0, hcls0, heq⟩ := hagree.exists_class hcls
  have hmem : m.descriptor ∈ cls0.methods.map Method.descriptor := by
    rw [← hmethods, ← heq, hmethods]
    exact Array.mem_map_of_mem hm
  obtain ⟨m0, hm0, hsame⟩ := Array.mem_map.1 hmem
  rw [← hsame]
  refine (h c cls0 m0 hcls0 hm0).mono fun d dcls hd => ?_
  obtain ⟨dcls', hdcls', heq'⟩ := hagree.symm.exists_class hd
  exact ⟨dcls', hdcls', by rw [← hname, ← heq', hname]⟩

theorem Spelled.declare (h : r.Spelled) {external : Bool} (hdeclare : r.declare name access external = .ok (c, r')) :
    r'.Spelled := by
  rw [Registry.declare] at hdeclare
  split_ifs at hdeclare
  cases hdeclare
  intro d cls m hd hm
  rw [class?, Array.getElem?_push] at hd
  split_ifs at hd
  · cases hd
    simp at hm
  · refine (h d cls m hd hm).mono fun k kcls hk => ⟨kcls, ?_, rfl⟩
    rw [class?, Array.getElem?_push, if_neg (lt_size_of_class? hk).ne]
    exact hk

theorem Spelled.addMethod (h : r.Spelled) {m : Method} (hm : r.Spells m.descriptor) :
    (r.modifyClass c fun cls => { cls with methods := cls.methods.push m }).Spelled := by
  have hclasses : ∀ d cls, r.class? d = some cls → ∃ cls',
      (r.modifyClass c fun cls => { cls with methods := cls.methods.push m }).class? d = some cls' ∧ cls'.name = cls.name := by
    intro d cls hd
    rw [class?_modifyClass]
    split_ifs
    · exact ⟨{ cls with methods := cls.methods.push m }, by rw [hd, Option.map_some], rfl⟩
    · exact ⟨cls, hd, rfl⟩
  intro d cls m' hd hm'
  rw [class?_modifyClass] at hd
  split_ifs at hd
  · obtain ⟨cls0, hcls0, rfl⟩ := Option.map_eq_some_iff.1 hd
    rcases Array.mem_push.1 hm' with hold | rfl
    · exact (h d cls0 m' hcls0 hold).mono hclasses
    · exact hm.mono hclasses
  · exact (h d cls m' hd hm').mono hclasses

theorem Known.declare (h : r.Known) {external : Bool} (hdeclare : r.declare name access external = .ok (c, r')) : r'.Known := by
  rw [Registry.declare] at hdeclare
  split_ifs at hdeclare with hempty hdotted htwice
  cases hdeclare
  have hfresh : r.find? name = none := by simpa [find?] using htwice
  have hclass : ∀ d cls, class? { classes := r.classes.push { name, access, external }, byName := r.byName.insert name r.classes.size } d = some cls →
      d = r.classes.size ∧ cls = { name, access, external } ∨ r.class? d = some cls := by
    intro d cls hd
    rw [class?, Array.getElem?_push] at hd
    split_ifs at hd with hsize
    · cases hd
      exact .inl ⟨hsize, rfl⟩
    · exact .inr hd
  have hmono : ∀ d cls, r.class? d = some cls →
      class? { classes := r.classes.push { name, access, external }, byName := r.byName.insert name r.classes.size } d = some cls := by
    intro d cls hd
    have hlt := lt_size_of_class? hd
    rw [class?, Array.getElem?_push, if_neg hlt.ne]
    exact hd
  refine ⟨fun d cls hd => ?_, fun name' d hd => ?_, fun d cls f hd hf => ?_⟩
  · rw [find?, Std.HashMap.getElem?_insert]
    rcases hclass d cls hd with ⟨rfl, rfl⟩ | hold
    · simp
    · have hfound := h.found d cls hold
      have hne : name ≠ cls.name := by
        rintro rfl
        cases hfresh.symm.trans hfound
      rw [if_neg (by simpa using hne)]
      exact hfound
  · rw [find?, Std.HashMap.getElem?_insert] at hd
    split_ifs at hd with heq
    · cases hd
      refine ⟨{ name, access, external }, ?_, by simpa using heq⟩
      rw [class?, Array.getElem?_push, if_pos rfl]
    · obtain ⟨cls, hcls, hname⟩ := h.named name' d hd
      exact ⟨cls, hmono d cls hcls, hname⟩
  · rcases hclass d cls hd with ⟨rfl, rfl⟩ | hold
    · simp at hf
    · exact (h.types d cls f hold hf).mono fun k kcls hk => ⟨kcls, hmono k kcls hk⟩

theorem Known.addField (h : r.Known) {f : Field} (hf : r.HasType f.type) :
    (r.modifyClass c fun cls => { cls with fields := cls.fields.push f }).Known := by
  have hclass : ∀ d cls, (r.modifyClass c fun cls => { cls with fields := cls.fields.push f }).class? d = some cls →
      ∃ cls0, r.class? d = some cls0 ∧ cls.name = cls0.name ∧ ∀ f' ∈ cls.fields, f' = f ∨ f' ∈ cls0.fields := by
    intro d cls hd
    rw [class?_modifyClass] at hd
    split_ifs at hd
    · obtain ⟨cls0, hcls0, rfl⟩ := Option.map_eq_some_iff.1 hd
      exact ⟨cls0, hcls0, rfl, fun f' hf' => (Array.mem_push.1 hf').symm⟩
    · exact ⟨cls, hd, rfl, fun f' hf' => .inr hf'⟩
  have hmono : ∀ d cls, r.class? d = some cls → ∃ cls',
      (r.modifyClass c fun cls => { cls with fields := cls.fields.push f }).class? d = some cls' ∧ cls'.name = cls.name := by
    intro d cls hd
    rw [class?_modifyClass]
    split_ifs
    · exact ⟨{ cls with fields := cls.fields.push f }, by rw [hd, Option.map_some], rfl⟩
    · exact ⟨cls, hd, rfl⟩
  refine ⟨fun d cls hd => ?_, fun name d hd => ?_, fun d cls f' hd hf' => ?_⟩
  · obtain ⟨cls0, hcls0, hname, -⟩ := hclass d cls hd
    rw [hname]
    exact h.found d cls0 hcls0
  · obtain ⟨cls0, hcls0, hname⟩ := h.named name d hd
    obtain ⟨cls, hcls, hsame⟩ := hmono d cls0 hcls0
    exact ⟨cls, hcls, hsame.trans hname⟩
  · obtain ⟨cls0, hcls0, -, hfields⟩ := hclass d cls hd
    have htype : r.HasType f'.type := by
      rcases hfields f' hf' with rfl | hold
      · exact hf
      · exact h.types d cls0 f' hcls0 hold
    refine htype.mono fun k kcls hk => ?_
    obtain ⟨kcls', hkcls', -⟩ := hmono k kcls hk
    exact ⟨kcls', hkcls'⟩

end Registry

/-! ### Steps that keep outlines -/

section

open ClassAbi.Action

variable {r0 : Registry}

theorem keeps_outline_modifyClass (c : ClassId) {f : Class → Class} (hf : ∀ cls : Class, (f cls).outline = cls.outline) :
    Keeps (fun w : Workspace => Registry.AgreeUpTo Class.outline r0 w.registry) (onRegistry fun r => r.modifyClass c f) :=
  keeps_onRegistry fun w hw => hw.trans (w.registry.agreeUpTo_modifyClass c hf)

theorem Class.map_outline_withOffsets (fields : List Field) (places : List Place) :
    (Class.withOffsets fields places).map Field.outline = fields.map Field.outline := by
  induction fields generalizing places with
  | nil => simp [Class.withOffsets]
  | cons f fields ih =>
    rw [Class.withOffsets.eq_def]
    dsimp only
    split_ifs
    · simp [ih]
    · cases places with
      | nil => rfl
      | cons place places => simp [ih, Field.outline]

theorem Class.outline_withLayout (cls : Class) (t : TypeId) (l : TypeLayout) : (cls.withLayout t l).outline = cls.outline := by
  have hfields : (Class.withOffsets cls.fields.toList (l.places.getD []).tail).toArray.map Field.outline =
      cls.fields.map Field.outline := by
    rw [List.map_toArray, Class.map_outline_withOffsets, ← Array.toList_map, Array.toArray_toList]
  simp only [Class.outline, Class.withLayout, hfields]

theorem keeps_outline_layOutAll :
    Keeps (fun w : Workspace => Registry.AgreeUpTo Class.outline r0 w.registry) Class.layOutAll :=
  keeps_layOutAll (keeps_layOut_of (fun _ _ hw => hw) (fun _ _ hw => hw) fun c t l =>
    keeps_outline_modifyClass c fun cls => cls.outline_withLayout t l)

theorem keeps_outline_assignAllSlots :
    Keeps (fun w : Workspace => Registry.AgreeUpTo Class.outline r0 w.registry) Class.assignAllSlots := by
  refine keeps_assignAllSlots (keeps_assignSlots_of fun c f hf => keeps_outline_modifyClass c fun cls => ?_)
  obtain ⟨_, _, _, _, heq⟩ := hf cls
  rw [heq]
  rfl

end

/-- In every workspace classes are found by their names, and the types of fields are known. -/
theorem Workspace.Built.known {w : Workspace} (h : w.Built) : w.registry.Known := by
  induction h with
  | start target => exact Registry.known_empty
  | @declare w name access external _ ih =>
    have hkeeps : Keeps (fun w : Workspace => w.registry.Known) (Class.declare name access external) := by
      refine Action.keeps_registry.bind_of (Q := Registry.Known) (fun w r w' hw hread => ?_) fun r hr => ?_
      · obtain ⟨rfl, -⟩ := Action.finishes_registry_iff.1 hread
        exact hw
      refine (Action.keeps_ofExcept _ _).bind_of (Q := fun x => x.2.Known) (fun w x w' _ hx => ?_) fun x hx => ?_
      · exact hr.declare (Action.finishes_ofExcept_iff.1 hx).1
      · obtain ⟨c, r'⟩ := x
        exact Keeps.bind (fun _ _ => hx) fun _ => keeps_pure c
    exact hkeeps w ih
  | @inherit w c super interfaces _ ih => exact ih.congr (w.registry.agreeUpTo_modifyClass c fun _ => rfl)
  | @addMethod w c name descriptor access ops _ ih =>
    have hkeeps : Keeps (fun v : Workspace => Registry.AgreeUpTo Class.outline w.registry v.registry)
        (Class.addMethod c name descriptor access ops) :=
      (Action.keeps_class' c).bind fun _ => Action.keeps_registry.bind fun _ => (Action.keeps_ofExcept _ _).bind fun _ =>
        keeps_outline_modifyClass c fun _ => rfl
    exact ih.congr (hkeeps w (.refl _))
  | @addField w c name descriptor access _ ih =>
    have hread : Finishes Action.registry w w.registry w := Action.finishes_registry
    rw [Class.addField, bind_apply_of_finishes hread]
    cases hfield : w.registry.fieldOf name descriptor access with
    | error e => exact ih
    | ok f => exact ih.addField (.of_fieldOf ih hfield)
  | @layOutAll w _ ih => exact ih.congr (keeps_outline_layOutAll w (.refl _))
  | @assignAllSlots w _ ih => exact ih.congr (keeps_outline_assignAllSlots w (.refl _))
  | newType shape _ ih => exact ih
  | setType t shape _ _ ih => exact ih
  | @layoutOf w t _ ih => exact Action.keeps_layoutOf (P := fun v => v.registry.Known) (fun _ _ hw => hw) w ih
  | @linkClass w c descriptor vtableEntity _ ih => exact ih.congr (w.registry.agreeUpTo_modifyClass c fun _ => rfl)
  | @linkMethod w m entity _ ih => exact ih.congr (w.registry.agreeUpTo_modifyClass _ fun _ => rfl)
  | @linkField w c i entity _ ih =>
    refine ih.congr (w.registry.agreeUpTo_modifyClass c fun cls => ?_)
    have hfields : (cls.fields.modify i fun f => { f with entity }).map Field.outline = cls.fields.map Field.outline :=
      Class.modify_map_unlinked cls.fields i fun _ => rfl
    simp only [Class.outline, hfields]
  | elsewhere _ registry _ _ _ ih => exact registry ▸ ih

end ClassAbi
