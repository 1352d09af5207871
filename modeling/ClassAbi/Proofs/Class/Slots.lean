import ClassAbi.Proofs.Class.SlotTable
import ClassAbi.Proofs.Workspace

/-!
# The slots of a hierarchy

Slots are assigned class by class, superclasses first. `SlotsOf` says what holds of the slots of one class, relative to
those of its superclass; it is established when the class has its turn, and later turns keep it, since they change other
classes only. So in the end it holds of every class, and a slot means the same method all the way down a hierarchy.
-/

namespace ClassAbi

variable {r r' : Registry} {methods methods' : List Method} {k : Nat} {c : ClassId} {before : List ClassId}
  {t : SlotTable} {cls : Class} {inherited : Array MethodRef} {w w' w0 : Workspace}

/-! ### What the assignment of slots leaves alone -/

def Method.withoutSlot (m : Method) : Method := { m with slot := -1 }

/-- A class without what the assignment of slots fills in. -/
def Class.withoutSlots (cls : Class) : Class :=
  { cls with methods := cls.methods.map Method.withoutSlot, vtable := #[], vtableSize := 0, dispatchFinal := false }

namespace Registry

theorem key?_eq (r : Registry) (m : MethodRef) :
    r.key? m = ((r.class? m.owner).map Class.withoutSlots).bind fun cls => cls.methods[m.index]?.map Method.key := by
  rw [key?, method?]
  cases r.class? m.owner with
  | none => rfl
  | some cls =>
    simp only [Option.bind_some, Option.map_some, Class.withoutSlots, Array.getElem?_map, Option.map_map]
    rfl

theorem key?_eq_of_agree (h : AgreeUpTo Class.withoutSlots r r') : r'.key? = r.key? := by
  funext m
  rw [Registry.key?_eq, Registry.key?_eq, h.class?_eq]

end Registry

theorem getElem?_of_withoutSlot (h : methods'.map Method.withoutSlot = methods.map Method.withoutSlot) {m' : Method}
    (hm' : methods'[k]? = some m') : ∃ m, methods[k]? = some m ∧ m.inVtable = m'.inVtable ∧ m.key = m'.key := by
  have hk := congrArg (fun l => l[k]?) h
  simp only [List.getElem?_map, hm', Option.map_some] at hk
  obtain ⟨m, hm, heq⟩ := Option.map_eq_some_iff.1 hk.symm
  have hin := congrArg Method.inVtable heq
  have hkey := congrArg Method.key heq
  exact ⟨m, hm, hin, hkey⟩

theorem LatestAt.congr {key : MethodKey} (h : LatestAt methods key k)
    (heq : methods'.map Method.withoutSlot = methods.map Method.withoutSlot) : LatestAt methods' key k := by
  obtain ⟨⟨m, hm, hin, hkey⟩, hlatest⟩ := h
  obtain ⟨m', hm', hin', hkey'⟩ := getElem?_of_withoutSlot heq.symm hm
  refine ⟨⟨m', hm', hin'.trans hin, hkey'.trans hkey⟩, fun k' n' hlt hn' hn_in => ?_⟩
  obtain ⟨n, hn, hin_eq, hkey_eq⟩ := getElem?_of_withoutSlot heq hn'
  rw [← hkey_eq]
  exact hlatest k' n hlt hn (hin_eq.trans hn_in)

theorem Undeclared.congr {key : MethodKey} (h : Undeclared methods key)
    (heq : methods'.map Method.withoutSlot = methods.map Method.withoutSlot) : Undeclared methods' key := by
  intro k m' hm' hin
  obtain ⟨m, hm, hin_eq, hkey_eq⟩ := getElem?_of_withoutSlot heq hm'
  rw [← hkey_eq]
  exact h k m hm (hin_eq.trans hin)

theorem SlotTable.Placed.withoutSlot_eq {keyOf : MethodRef → Option MethodKey} {before : Nat} {t' : SlotTable}
    (h : Placed keyOf c before t methods methods' t') :
    methods'.map Method.withoutSlot = methods.map Method.withoutSlot := by
  apply List.ext_getElem?
  intro k
  rw [List.getElem?_map, List.getElem?_map]
  cases hm : methods[k]? with
  | none =>
    have hlen : methods.length ≤ k := List.getElem?_eq_none_iff.1 hm
    rw [List.getElem?_eq_none (h.length_eq.trans_le hlen)]
  | some m =>
    cases hin : m.inVtable with
    | false => rw [h.excluded k m hm hin]
    | true =>
      obtain ⟨i, e, hm', -⟩ := h.included k m hm hin
      rw [hm']
      rfl

/-! ### The slots of one class -/

/-- What the slots of the class `c` are, relative to those of its superclass. -/
structure SlotsOf (r : Registry) (c : ClassId) (cls : Class) : Prop where
  size_eq : cls.vtableSize = headerSlots + cls.vtable.size
  size_le : cls.vtableSize ≤ 0xFFFE
  distinct : DistinctKeys r.key? cls.vtable
  kept : ∀ (s : ClassId) (super : Class), cls.super = some s → r.class? s = some super →
    super.vtable.size ≤ cls.vtable.size ∧
      ∀ (i : Nat) (e : MethodRef), super.vtable[i]? = some e → ∃ e', cls.vtable[i]? = some e' ∧ r.key? e' = r.key? e
  entry : ∀ (i : Nat) (e : MethodRef), cls.vtable[i]? = some e → ∃ key, r.key? e = some key ∧
    ((∃ k, e = ⟨c, k⟩ ∧ LatestAt cls.methods.toList key k) ∨
      ∃ (s : ClassId) (super : Class), cls.super = some s ∧ r.class? s = some super ∧ super.vtable[i]? = some e ∧
        Undeclared cls.methods.toList key)
  included : ∀ (k : Nat) (m : Method), cls.methods[k]? = some m → m.inVtable = true →
    ∃ (i : Nat) (e : MethodRef), m.slot = headerSlots + i ∧ cls.vtable[i]? = some e ∧ r.key? e = some m.key ∧
      ((∀ (k' : Nat) (m' : Method), cls.methods[k']? = some m' → m'.inVtable = true → m'.key = m.key → k' = k) → e = ⟨c, k⟩)
  excluded : ∀ m ∈ cls.methods, m.inVtable = false → m.slot = -1

/-- The slots with which a class begins. -/
@[mk_iff]
inductive Registry.Inherits (r : Registry) (cls : Class) : Array MethodRef → Prop
  | none (h : cls.super = none) : r.Inherits cls #[]
  | super {s : ClassId} {super : Class} (h : cls.super = some s) (hs : r.class? s = some super)
    (hfinal : super.dispatchFinal = true) : r.Inherits cls super.vtable

def Class.withSlots (cls : Class) (methods : List Method) (t : SlotTable) : Class :=
  { cls with
    methods := methods.toArray, vtable := t.slots, vtableSize := headerSlots + t.slots.size, dispatchFinal := true }

theorem slotsOf_of_placed (hdeclared : cls.Declared) (hinherits : r.Inherits cls inherited)
    (hplaced : SlotTable.Placed r.key? c 0 (.ofVtable r inherited) cls.methods.toList methods t)
    (hsize : headerSlots + t.slots.size < 0xFFFF) (hkeys : r'.key? = r.key?)
    (hsuper : ∀ s, cls.super = some s → r'.class? s = r.class? s) : SlotsOf r' c (cls.withSlots methods t) := by
  rw [Class.withSlots]
  have hexcluded : ∀ m ∈ cls.methods.toList, m.inVtable = false → m.slot = -1 :=
    fun m hm => (hdeclared.methods m (Array.mem_toList_iff.1 hm)).slot_of_excluded
  have heq := hplaced.withoutSlot_eq
  refine ⟨rfl, ?_, hkeys ▸ hplaced.valid.distinctKeys, fun s super hs hclass => ?_, fun i e he => ?_, fun k m hm hin => ?_,
    fun m hm hin => ?_⟩
  · show ((headerSlots + t.slots.size : Nat) : Int) ≤ 0xFFFE
    omega
  · rw [hsuper s hs] at hclass
    cases hinherits with
    | none hnone =>
      rw [hnone] at hs
      cases hs
    | super hs' hclass' _ =>
      cases hs.symm.trans hs'
      cases hclass.symm.trans hclass'
      exact ⟨hplaced.size_le, fun i e he => hkeys ▸ hplaced.kept i e he⟩
  · obtain ⟨key, hkey, hentry⟩ := hplaced.entry i e he
    refine ⟨key, hkeys ▸ hkey, ?_⟩
    rcases hentry with ⟨k, rfl, hlatest⟩ | ⟨hinherited, hundeclared⟩
    · exact .inl ⟨k, by rw [Nat.zero_add], hlatest.congr (by simpa using heq)⟩
    · right
      cases hinherits with
      | none _ => simp [SlotTable.ofVtable] at hinherited
      | super hs hclass _ =>
        exact ⟨_, _, hs, (hsuper _ hs).trans hclass, hinherited, hundeclared.congr (by simpa using heq)⟩
  · rw [List.getElem?_toArray] at hm
    obtain ⟨m0, hm0, hin0, -⟩ := getElem?_of_withoutSlot heq hm
    obtain ⟨i, e, hm', he, hkey⟩ := hplaced.included k m0 hm0 (hin0.trans hin)
    rw [hm] at hm'
    cases hm'
    refine ⟨i, e, rfl, he, hkeys ▸ hkey, fun honce => ?_⟩
    obtain ⟨key, hkey', hentry⟩ := hplaced.entry i e he
    cases hkey'.symm.trans hkey
    rcases hentry with ⟨k', rfl, hlatest⟩ | ⟨-, hundeclared⟩
    · obtain ⟨⟨m', hm', hin', hkey''⟩, -⟩ := hlatest.congr heq
      rw [Nat.zero_add, honce k' m' (List.getElem?_toArray.trans hm') hin' hkey'']
    · exact absurd rfl (hundeclared k m0 hm0 (hin0.trans hin))
  · obtain ⟨k, hk⟩ := Array.mem_iff_getElem?.1 hm
    rw [List.getElem?_toArray] at hk
    obtain ⟨m0, hm0, hin0, -⟩ := getElem?_of_withoutSlot heq hk
    have hkept := hplaced.excluded k m0 hm0 (hin0.trans hin)
    rw [hk] at hkept
    cases hkept
    exact hexcluded m (List.mem_of_getElem? hm0) hin

theorem SlotsOf.congr (h : SlotsOf r c cls) (hkeys : r'.key? = r.key?)
    (hsuper : ∀ s, cls.super = some s → r'.class? s = r.class? s) : SlotsOf r' c cls where
  size_eq := h.size_eq
  size_le := h.size_le
  distinct := hkeys ▸ h.distinct
  kept s super hs hclass := by
    rw [hkeys]
    exact h.kept s super hs (hsuper s hs ▸ hclass)
  entry i e he := by
    obtain ⟨key, hkey, hentry⟩ := h.entry i e he
    refine ⟨key, hkeys ▸ hkey, hentry.imp id ?_⟩
    rintro ⟨s, super, hs, hclass, hinherited⟩
    exact ⟨s, super, hs, (hsuper s hs).trans hclass, hinherited⟩
  included := hkeys ▸ h.included
  excluded := h.excluded

/-! ### One turn -/

theorem finishes_inheritedSlots_iff :
    Finishes (Class.inheritedSlots cls) w inherited w' ↔ w.registry.Inherits cls inherited ∧ w = w' := by
  cases hs : cls.super <;> simp [Class.inheritedSlots, Registry.inherits_iff, hs]
  grind

theorem Registry.modifyClass_modifyClass (r : Registry) (c : ClassId) (f g : Class → Class) :
    (r.modifyClass c f).modifyClass c g = r.modifyClass c (g ∘ f) := by
  rw [modifyClass, modifyClass, modifyClass]
  congr 1
  apply Array.ext_getElem?
  intro d
  rw [Array.getElem?_modify, Array.getElem?_modify, Array.getElem?_modify]
  split_ifs <;> simp

theorem finishes_fillSlots_iff :
    Finishes (Class.fillSlots c cls inherited) w () w' ↔
      ∃ methods t, SlotTable.placeAll c 0 (.ofVtable w.registry inherited) cls.methods.toList = (methods, t) ∧
        headerSlots + t.slots.size < 0xFFFF ∧
        { w with registry := w.registry.modifyClass c fun cls => cls.withSlots methods t } = w' := by
  have hread : Finishes Action.registry w w.registry w := Action.finishes_registry
  rcases hplace : SlotTable.placeAll c 0 (.ofVtable w.registry inherited) cls.methods.toList with ⟨methods, t⟩
  rw [Class.fillSlots, Finishes, bind_apply_of_finishes hread, hplace, ← Finishes, finishes_bind_iff]
  constructor
  · rintro ⟨_, w1, hmethods, hrest⟩
    dsimp only at hrest
    split_ifs at hrest with hsize
    · exact absurd hrest (not_finishes_throw _)
    · rw [Action.finishes_onRegistry_iff] at hmethods hrest
      refine ⟨methods, t, rfl, by omega, ?_⟩
      rw [← hrest, ← hmethods]
      simp only [Registry.modifyClass_modifyClass]
      rfl
  · rintro ⟨methods', t', hplace', hsize, hw'⟩
    cases hplace'
    refine ⟨(), _, Action.finishes_onRegistry_iff.2 rfl, ?_⟩
    rw [if_neg (by omega), Action.finishes_onRegistry_iff, ← hw']
    simp only [Registry.modifyClass_modifyClass]
    rfl

/-- What one turn does to its class: an interface gets no slots, and any other class the slots of its methods after those
that it takes over. -/
theorem finishes_assignSlots_iff :
    Finishes (Class.assignSlots c) w () w' ↔ ∃ cls, w.registry.class? c = some cls ∧
      (cls.isInterface = true ∧
          { w with registry := w.registry.modifyClass c fun cls => { cls with dispatchFinal := true } } = w' ∨
        cls.isInterface = false ∧ ∃ inherited methods t, w.registry.Inherits cls inherited ∧
          SlotTable.placeAll c 0 (.ofVtable w.registry inherited) cls.methods.toList = (methods, t) ∧
          headerSlots + t.slots.size < 0xFFFF ∧
          { w with registry := w.registry.modifyClass c fun cls => cls.withSlots methods t } = w') := by
  simp only [Class.assignSlots, finishes_bind_iff, Action.finishes_class'_iff, and_assoc, exists_eq_left', exists_and_left]
  refine exists_congr fun cls => and_congr_right fun hcls => ?_
  cases hinterface : cls.isInterface <;>
    simp [Class.needsVtable, hinterface, finishes_inheritedSlots_iff, finishes_fillSlots_iff]

theorem key?_of_getElem? (hcls : r.class? c = some cls) {m : Method} (hm : cls.methods.toList[k]? = some m) :
    r.key? ⟨c, k⟩ = some m.key := by
  rw [Array.getElem?_toList] at hm
  rw [Registry.key?, Registry.method?, hcls, Option.bind_some, hm, Option.map_some]

/-! ### All turns -/

/-- The state after the turns of the classes in `before`, which began in the workspace `w0`. -/
structure SlotsDone (w0 : Workspace) (before : List ClassId) (w : Workspace) : Prop where
  rest : w = { w0 with registry := w.registry }
  same : Registry.AgreeUpTo Class.withoutSlots w0.registry w.registry
  declared : w.Declared
  slots : ∀ c ∈ before, ∀ cls, w.registry.class? c = some cls → cls.isInterface = false → SlotsOf w.registry c cls

theorem SlotsDone.distinctKeys (h : SlotsDone w0 before w) (hinherits : w.registry.Inherits cls inherited)
    (hsuper : ∀ s super, cls.super = some s → w.registry.class? s = some super → s ∈ before) :
    DistinctKeys w.registry.key? inherited := by
  cases hinherits with
  | none _ =>
    intro i e he
    simp at he
  | @super s super hs hclass _ =>
    cases hinterface : super.isInterface with
    | false => exact (h.slots s (hsuper s super hs hclass) super hclass hinterface).distinct
    | true =>
      rw [(h.declared s super hclass).vtable_of_interface hinterface]
      intro i e he
      simp at he

theorem SlotsDone.super_mem (h : SlotsDone w0 before w) {d s : ClassId} {super : Class}
    (hordered : w0.registry.Ordered (c :: before)) (hd : d ∈ c :: before) (hcls : w.registry.class? d = some cls)
    (hs : cls.super = some s) (hsuper : w.registry.class? s = some super) : s ∈ before :=
  h.same.super_mem (fun _ => rfl) hordered hd hcls hs hsuper

theorem SlotsDone.placed (h : SlotsDone w0 before w) (hcls : w.registry.class? c = some cls)
    (hinherits : w.registry.Inherits cls inherited)
    (hsuper : ∀ s super, cls.super = some s → w.registry.class? s = some super → s ∈ before)
    (hplace : SlotTable.placeAll c 0 (.ofVtable w.registry inherited) cls.methods.toList = (methods, t)) :
    SlotTable.Placed w.registry.key? c 0 (.ofVtable w.registry inherited) cls.methods.toList methods t := by
  have hvalid := SlotTable.valid_ofVtable (h.distinctKeys hinherits hsuper)
  have hkeys : ∀ (k : Nat) (m : Method), cls.methods.toList[k]? = some m → w.registry.key? ⟨c, 0 + k⟩ = some m.key := by
    intro k m hm
    rw [Nat.zero_add]
    exact key?_of_getElem? hcls hm
  have hplaced := SlotTable.placed_placeAll hvalid hkeys
  rwa [hplace] at hplaced

theorem SlotsDone.updated (h : SlotsDone w0 before w) (hordered : w0.registry.Ordered (c :: before))
    (hrun : Finishes (Class.assignSlots c) w () w') :
    ∃ cls cls', w.registry.class? c = some cls ∧ w.registry.Updated c cls' w'.registry ∧
      w' = { w with registry := w'.registry } ∧ cls'.withoutSlots = cls.withoutSlots ∧
      (cls'.isInterface = false → ∀ r : Registry, r.key? = w.registry.key? →
        (∀ s, cls.super = some s → r.class? s = w.registry.class? s) → SlotsOf r c cls') := by
  obtain ⟨cls, hcls, hcases⟩ := finishes_assignSlots_iff.1 hrun
  rcases hcases with ⟨hinterface, rfl⟩ | ⟨-, inherited, methods, t, hinherits, hplace, hsize, rfl⟩
  · refine ⟨cls, _, hcls, Registry.updated_modifyClass hcls _, rfl, rfl, fun hclass => ?_⟩
    exact absurd (hinterface.symm.trans hclass) (by simp)
  · have hplaced := h.placed hcls hinherits (fun s super => h.super_mem hordered List.mem_cons_self hcls) hplace
    refine ⟨cls, _, hcls, Registry.updated_modifyClass hcls _, rfl, ?_, fun _ r hkeys hsuper => ?_⟩
    · simp only [Class.withoutSlots, Class.withSlots, List.map_toArray, hplaced.withoutSlot_eq, ← Array.toList_map,
        Array.toArray_toList]
    · exact slotsOf_of_placed (h.declared c cls hcls) hinherits hplaced hsize hkeys hsuper

theorem SlotsDone.turn (h : SlotsDone w0 before w) (hordered : w0.registry.Ordered (c :: before))
    (hrun : Finishes (Class.assignSlots c) w () w') : SlotsDone w0 (c :: before) w' := by
  obtain ⟨cls, cls', hcls, hupdated, hrest, heq, hslots⟩ := h.updated hordered hrun
  have hsame := hupdated.agreeUpTo hcls heq
  have hunchanged : ∀ d ∈ c :: before, ∀ dcls, w.registry.class? d = some dcls → ∀ s, dcls.super = some s →
      w'.registry.class? s = w.registry.class? s := by
    intro d hd dcls hdcls s hs
    apply hupdated.elsewhere
    rintro rfl
    exact hordered.1 (h.super_mem hordered hd hdcls hs hcls)
  have hdeclared := (keeps_assignSlots c).of_finishes h.declared hrun
  refine ⟨by rw [hrest, h.rest], h.same.trans hsame, hdeclared, fun d hd dcls hdcls hclass => ?_⟩
  by_cases hdc : d = c
  · subst hdc
    rw [hupdated.here] at hdcls
    cases hdcls
    exact hslots hclass w'.registry (Registry.key?_eq_of_agree hsame) (hunchanged d hd cls hcls)
  · rw [hupdated.elsewhere hdc] at hdcls
    have hmem : d ∈ before := (List.mem_cons.1 hd).resolve_left hdc
    exact (h.slots d hmem dcls hdcls hclass).congr (Registry.key?_eq_of_agree hsame) (hunchanged d hd dcls hdcls)

/-! ### Hierarchies -/

/-- Whether a class is `a` or a subclass of it, with no interface on the way. -/
inductive Registry.Descends (r : Registry) : ClassId → ClassId → Prop
  | refl {a : ClassId} {cls : Class} (hcls : r.class? a = some cls) (hclass : cls.isInterface = false) : r.Descends a a
  | step {c s a : ClassId} {cls : Class} (hcls : r.class? c = some cls) (hclass : cls.isInterface = false)
    (hs : cls.super = some s) (h : r.Descends s a) : r.Descends c a

theorem Registry.Descends.source {a : ClassId} (h : r.Descends c a) : ∃ cls, r.class? c = some cls := by
  cases h <;> exact ⟨_, ‹_›⟩

theorem Registry.Descends.target_isInterface {a : ClassId} (h : r.Descends c a) (hcls : r.class? a = some cls) :
    cls.isInterface = false := by
  induction h with
  | refl hcls' hclass => exact Option.some.inj (hcls.symm.trans hcls') ▸ hclass
  | step _ _ _ _ ih => exact ih hcls

/-- Whether `w'` is `w` with slots for the methods of all classes. -/
structure SlotsAssigned (w w' : Workspace) : Prop where
  rest : w' = { w with registry := w'.registry }
  same : Registry.AgreeUpTo Class.withoutSlots w.registry w'.registry
  slots : ∀ c cls, w'.registry.class? c = some cls → cls.isInterface = false → SlotsOf w'.registry c cls

theorem finishes_assignAllSlots_iff :
    Finishes Class.assignAllSlots w () w' ↔
      ∃ order, w.registry.superToSub = .ok order ∧ Finishes (order.forM Class.assignSlots) w () w' := by
  simp [Class.assignAllSlots]

theorem slotsAssigned (hdeclared : w.Declared) (h : Finishes Class.assignAllSlots w () w') : SlotsAssigned w w' := by
  obtain ⟨order, horder, hturns⟩ := finishes_assignAllSlots_iff.1 h
  obtain ⟨hordered, hmem⟩ := Registry.superToSub_spec horder
  have hstart : SlotsDone w [] w := ⟨rfl, .refl _, hdeclared, by simp⟩
  have hdone := Registry.Ordered.turns (fun c before w1 w2 hordered h => h.turn hordered) (by rwa [List.append_nil]) hstart hturns
  refine ⟨hdone.rest, hdone.same, fun c cls hcls => hdone.slots c ?_ cls hcls⟩
  obtain ⟨cls0, hcls0, -⟩ := hdone.same.exists_class hcls
  rw [List.append_nil, List.mem_reverse]
  exact hmem c (Registry.lt_size_of_class? hcls0)

/-- Whether a slot of a class belongs to the same name and descriptor in all its subclasses. -/
def Registry.SlotsAgree (r : Registry) : Prop :=
  ∀ (c a : ClassId) (cls ancestor : Class), r.Descends c a → r.class? c = some cls → r.class? a = some ancestor →
    ∀ (i : Nat) (e : MethodRef), ancestor.vtable[i]? = some e → ∃ e', cls.vtable[i]? = some e' ∧ r.key? e' = r.key? e

theorem SlotsAssigned.slotsAgree (h : SlotsAssigned w w') : w'.registry.SlotsAgree := by
  intro c a cls ancestor hdescends hcls hancestor i e he
  induction hdescends generalizing cls with
  | refl hcls' hclass =>
    cases hcls.symm.trans hancestor
    exact ⟨e, he, rfl⟩
  | @step c s a cls' hcls' hclass hs hdescends ih =>
    obtain rfl := Option.some.inj (hcls.symm.trans hcls')
    obtain ⟨super, hsuper⟩ := hdescends.source
    obtain ⟨e1, he1, hkey1⟩ := ih super hsuper hancestor
    obtain ⟨e2, he2, hkey2⟩ := ((h.slots c cls hcls hclass).kept s super hs hsuper).2 i e1 he1
    exact ⟨e2, he2, hkey2.trans hkey1⟩

/-! ### Two classes -/

def publicMethod : Method :=
  { name := "m", descriptor := "()V", access := ⟨1⟩, params := [], result := .void, inVtable := true, binding := .dynamic }

def firstClass : Class := { name := "A", access := ⟨1⟩, external := false, methods := #[publicMethod] }

def secondClass (method : Method) : Class :=
  { name := "B", access := ⟨1⟩, external := false, super := some 0, methods := #[method] }

theorem placeAll_new (r : Registry) : ∃ t : SlotTable, t.slots = #[⟨0, 0⟩] ∧
    SlotTable.placeAll 0 0 (.ofVtable r #[]) [publicMethod] = ([{ publicMethod with slot := 4 }], t) := by
  have hnew : (SlotTable.ofVtable r #[]).index[publicMethod.key]? = none := by
    rw [SlotTable.index_ofVtable]
    simp
  rw [SlotTable.placeAll, if_pos (by decide), SlotTable.place, hnew]
  exact ⟨_, rfl, rfl⟩

theorem placeAll_overriding (h : r.key? ⟨0, 0⟩ = some publicMethod.key) :
    ∃ t : SlotTable, t.slots = #[⟨1, 0⟩] ∧
      SlotTable.placeAll 1 0 (.ofVtable r #[⟨0, 0⟩]) [publicMethod] = ([{ publicMethod with slot := 4 }], t) := by
  have hold : (SlotTable.ofVtable r #[⟨0, 0⟩]).index[publicMethod.key]? = some 0 := by
    rw [SlotTable.index_ofVtable]
    simp [SlotTable.getElem?_enter, h]
  rw [SlotTable.placeAll, if_pos (by decide), SlotTable.place, hold]
  exact ⟨_, rfl, rfl⟩

theorem finishes_of_place (hcls : w.registry.class? c = some cls) (hclass : cls.isInterface = false)
    (hinherits : w.registry.Inherits cls inherited)
    (hplace : SlotTable.placeAll c 0 (.ofVtable w.registry inherited) cls.methods.toList = (methods, t))
    (hsize : headerSlots + t.slots.size < 0xFFFF) :
    Finishes (Class.assignSlots c) w ()
      { w with registry := w.registry.modifyClass c fun cls => cls.withSlots methods t } :=
  finishes_assignSlots_iff.2 ⟨cls, hcls, .inr ⟨hclass, inherited, methods, t, hinherits, hplace, hsize, rfl⟩⟩

theorem finishes_twoClasses (w : Workspace) (method : Method) {method' : Method} {entry : MethodRef}
    (horder : w.registry.superToSub = .ok [0, 1]) (hfirst : w.registry.class? 0 = some firstClass)
    (hsecond : w.registry.class? 1 = some (secondClass method))
    (hplace : ∀ r : Registry, r.key? ⟨0, 0⟩ = some publicMethod.key → ∃ t : SlotTable, t.slots = #[entry] ∧
      SlotTable.placeAll 1 0 (.ofVtable r #[⟨0, 0⟩]) [method] = ([method'], t)) :
    ∃ w', Finishes Class.assignAllSlots w () w' ∧
      (∃ cls, w'.registry.class? 0 = some cls ∧ cls.isInterface = false ∧ cls.super = none ∧
        cls.methods = #[{ publicMethod with slot := 4 }] ∧ cls.vtable = #[⟨0, 0⟩]) ∧
      ∃ cls, w'.registry.class? 1 = some cls ∧ cls.isInterface = false ∧ cls.super = some 0 ∧ cls.methods = #[method'] ∧
        cls.vtable = #[entry] := by
  obtain ⟨t, ht, hnew⟩ := placeAll_new w.registry
  have hupdated := Registry.updated_modifyClass hfirst fun cls => cls.withSlots [{ publicMethod with slot := 4 }] t
  have hkey := key?_of_getElem? (k := 0) (m := { publicMethod with slot := 4 }) hupdated.here rfl
  obtain ⟨t', ht', hplaced⟩ := hplace _ hkey
  have hsecond' := (hupdated.elsewhere (by decide)).trans hsecond
  have hupdated' := Registry.updated_modifyClass hsecond' fun cls => cls.withSlots [method'] t'
  have hvtable : (firstClass.withSlots [{ publicMethod with slot := 4 }] t).vtable = #[⟨0, 0⟩] := ht
  have hinherits : Registry.Inherits _ (secondClass method) _ := .super rfl hupdated.here rfl
  rw [hvtable] at hinherits
  have hclass : firstClass.isInterface = false := by decide
  have hclass' : (secondClass method).isInterface = false := hclass
  have hturn := finishes_of_place hfirst hclass (.none rfl) hnew (by simp [ht, headerSlots])
  have hturn' := finishes_of_place (w := { w with registry := _ }) hsecond' hclass' hinherits hplaced (by simp [ht', headerSlots])
  have hturns := finishes_forM_cons_iff (u := ()).2 ⟨_, hturn, finishes_forM_cons_iff.2 ⟨_, hturn', finishes_forM_nil_iff.2 rfl⟩⟩
  refine ⟨_, finishes_assignAllSlots_iff.2 ⟨[0, 1], horder, hturns⟩, ?_, ?_⟩
  · exact ⟨_, (hupdated'.elsewhere (by decide)).trans hupdated.here, hclass, rfl, rfl, ht⟩
  · exact ⟨_, hupdated'.here, hclass', rfl, rfl, ht'⟩

/-- Where slots can be assigned, every class has them as `SlotsOf` says, and a slot of a class belongs to the same name and
descriptor in all its subclasses. Nothing else changes. -/
theorem assignAllSlots_assigns {w w' : Workspace} (built : w.Built) (h : Finishes Class.assignAllSlots w () w') :
    SlotsAssigned w w' ∧ w'.registry.SlotsAgree := by
  have hassigned := slotsAssigned built.declared h
  exact ⟨hassigned, hassigned.slotsAgree⟩

theorem assignAllSlots_assigns_overriding :
    (twoClasses ⟨1⟩).Built ∧ ∃ w', Finishes Class.assignAllSlots (twoClasses ⟨1⟩) () w' ∧
      (w'.registry.class? 1).map Class.vtable = some #[⟨1, 0⟩] ∧ SlotsAssigned (twoClasses ⟨1⟩) w' ∧ w'.registry.SlotsAgree := by
  have hbuilt := built_twoClasses ⟨1⟩
  obtain ⟨w', hrun, -, cls, hcls, -, -, -, hvtable⟩ := finishes_twoClasses (twoClasses ⟨1⟩) publicMethod
    (by cbv) (by cbv) (by cbv) fun _ => placeAll_overriding
  exact ⟨hbuilt, w', hrun, by rw [hcls, Option.map_some, hvtable], assignAllSlots_assigns hbuilt hrun⟩

end ClassAbi
