import ClassAbi.Proofs.Class.Slots

/-!
# Virtual dispatch

A call through a slot of a class ends at the last declaration that goes into the vtable, in the nearest class with such a
declaration. This is the first virtual method that a search up the superclasses finds, unless that method is final, so that
it never gets into the vtable, or the same class declares its name and descriptor again.
-/

namespace ClassAbi

variable {cls : Class} {k : Nat} {m : Method}

namespace Registry

/-- Where a call through the slot of a name and descriptor ends in a class. -/
inductive Dispatches (r : Registry) (key : MethodKey) : ClassId → MethodRef → Prop
  | here {c : ClassId} {cls : Class} {k : Nat} (hcls : r.class? c = some cls) (hlatest : LatestAt cls.methods.toList key k) :
    r.Dispatches key c ⟨c, k⟩
  | above {c s : ClassId} {cls : Class} {e : MethodRef} (hcls : r.class? c = some cls)
    (hnone : Undeclared cls.methods.toList key) (hs : cls.super = some s) (h : r.Dispatches key s e) : r.Dispatches key c e

/-- The first method with a name and descriptor that is neither static nor private, in a class and then its superclasses. -/
inductive FirstVirtual (r : Registry) (key : MethodKey) : ClassId → MethodRef → Prop
  | here {c : ClassId} {cls : Class} {k : Nat} {m : Method} (hcls : r.class? c = some cls) (hm : cls.methods[k]? = some m)
    (hkey : m.key = key) (hvirtual : m.IsVirtual)
    (hfirst : ∀ (k' : Nat) (m' : Method), k' < k → cls.methods[k']? = some m' → m'.key = key → ¬m'.IsVirtual) :
    r.FirstVirtual key c ⟨c, k⟩
  | above {c s : ClassId} {cls : Class} {x : MethodRef} (hcls : r.class? c = some cls)
    (hnone : ∀ (k : Nat) (m : Method), cls.methods[k]? = some m → m.key = key → ¬m.IsVirtual) (hs : cls.super = some s)
    (h : r.FirstVirtual key s x) : r.FirstVirtual key c x

/-- Whether a method is not final and its class does not put a later one with the same name and descriptor into its slot. -/
def Stands (r : Registry) (x : MethodRef) : Prop :=
  ∃ (cls : Class) (m : Method), r.class? x.owner = some cls ∧ cls.methods[x.index]? = some m ∧ m.access.isFinal = false ∧
    ∀ (k : Nat) (m' : Method), x.index < k → cls.methods[k]? = some m' → m'.inVtable = true → m'.key ≠ m.key

variable {r : Registry} {key : MethodKey} {c : ClassId} {e x : MethodRef}

theorem Dispatches.latestAt (h : r.Dispatches key c e) :
    ∃ cls, r.class? e.owner = some cls ∧ LatestAt cls.methods.toList key e.index := by
  induction h with
  | here hcls hlatest => exact ⟨_, hcls, hlatest⟩
  | above _ _ _ _ ih => exact ih

theorem undeclared_of_not_virtual (hdeclared : cls.Declared)
    (hnone : ∀ (k : Nat) (m : Method), cls.methods[k]? = some m → m.key = key → ¬m.IsVirtual) :
    Undeclared cls.methods.toList key := by
  intro k m hm hin hkey
  rw [Array.getElem?_toList] at hm
  have hvirtual := ((hdeclared.methods m (Array.mem_of_getElem? hm)).inVtable_iff.1 hin).1
  exact hnone k m hm hkey hvirtual

theorem inVtable_of_not_final (hdeclared : cls.Declared) (hm : cls.methods[k]? = some m) (hvirtual : m.IsVirtual)
    (hfinal : m.access.isFinal = false) (hname : m.key.1 ≠ Text.ofString "<init>") : m.inVtable = true :=
  (hdeclared.methods m (Array.mem_of_getElem? hm)).inVtable_iff.2 ⟨hvirtual, hfinal, hname⟩

theorem FirstVirtual.eq_iff_stands (hfirst : r.FirstVirtual key c x) (hdispatch : r.Dispatches key c e)
    (hdeclared : r.Declared) (hname : key.1 ≠ Text.ofString "<init>") : e = x ↔ r.Stands x := by
  induction hfirst with
  | @here c cls k m hcls hm hkey hvirtual hfirst =>
    subst hkey
    have hin : r.Stands ⟨c, k⟩ → m.inVtable = true := by
      rintro ⟨cls', m', hcls', hm', hfinal, -⟩
      cases hcls.symm.trans hcls'
      cases hm.symm.trans hm'
      exact inVtable_of_not_final (hdeclared c cls hcls) hm hvirtual hfinal hname
    constructor
    · rintro rfl
      obtain ⟨cls', hcls', ⟨m', hm', hin', hkey'⟩, hlatest⟩ := hdispatch.latestAt
      cases hcls.symm.trans hcls'
      rw [Array.getElem?_toList] at hm'
      cases hm.symm.trans hm'
      have hfinal := ((hdeclared c cls hcls).methods m (Array.mem_of_getElem? hm)).inVtable_iff.1 hin' |>.2.1
      refine ⟨cls, m, hcls, hm, hfinal, fun k' m' hlt hm' hin' => ?_⟩
      exact hlatest k' m' hlt (Array.getElem?_toList.trans hm') hin'
    · intro hstands
      have hm_in := hin hstands
      cases hdispatch with
      | @here _ cls' k' hcls' hlatest =>
        cases hcls.symm.trans hcls'
        obtain ⟨⟨m', hm', hin', hkey'⟩, hlater⟩ := hlatest
        obtain ⟨cls', m1, hcls', hm1, -, hlast⟩ := hstands
        cases hcls.symm.trans hcls'
        cases hm.symm.trans hm1
        rw [Array.getElem?_toList] at hm'
        -- Neither of the two positions is before the other.
        have hle : ¬k < k' := fun hlt => hlast k' m' hlt hm' hin' hkey'
        have hge : ¬k' < k := fun hlt => hlater k m hlt (Array.getElem?_toList.trans hm) hm_in rfl
        rw [Nat.le_antisymm (Nat.not_lt.1 hle) (Nat.not_lt.1 hge)]
      | above hcls' hnone hs h =>
        cases hcls.symm.trans hcls'
        exact absurd rfl (hnone k m (Array.getElem?_toList.trans hm) hm_in)
  | above hcls hnone hs _ ih =>
    have hundeclared := undeclared_of_not_virtual (hdeclared _ _ hcls) hnone
    cases hdispatch with
    | here hcls' hlatest =>
      cases hcls.symm.trans hcls'
      obtain ⟨⟨m, hm, hin, hkey⟩, -⟩ := hlatest
      exact absurd hkey (hundeclared _ m hm hin)
    | above hcls' _ hs' h =>
      cases hcls.symm.trans hcls'
      cases hs.symm.trans hs'
      exact ih h

theorem Descends.exists_firstVirtual {a : ClassId} (h : r.Descends c a) {ancestor : Class}
    (hancestor : r.class? a = some ancestor) (hm : ancestor.methods[k]? = some m) (hkey : m.key = key)
    (hvirtual : m.IsVirtual) : ∃ x, r.FirstVirtual key c x := by
  classical
  have hsearch : ∀ (c : ClassId) (cls : Class), r.class? c = some cls →
      (∃ x, r.FirstVirtual key c x) ∨
        ∀ (k : Nat) (m : Method), cls.methods[k]? = some m → m.key = key → ¬m.IsVirtual := by
    intro c cls hcls
    by_cases hany : ∃ k : Nat, ∃ m : Method, cls.methods[k]? = some m ∧ m.key = key ∧ m.IsVirtual
    · obtain ⟨m0, hm0, hkey0, hvirtual0⟩ := Nat.find_spec hany
      refine .inl ⟨_, .here hcls hm0 hkey0 hvirtual0 fun k' m' hlt hm' hkey' hvirtual' => ?_⟩
      exact Nat.find_min hany hlt ⟨m', hm', hkey', hvirtual'⟩
    · exact .inr fun k m hm hkey hvirtual => hany ⟨k, m, hm, hkey, hvirtual⟩
  induction h with
  | refl hcls _ =>
    refine (hsearch _ ancestor hancestor).resolve_right fun hnone => ?_
    exact hnone k m hm hkey hvirtual
  | step hcls _ hs _ ih =>
    rcases hsearch _ _ hcls with hfound | hnone
    · exact hfound
    · obtain ⟨x, hx⟩ := ih hancestor
      exact ⟨x, .above hcls hnone hs hx⟩

end Registry

/-- An entry of a vtable that an included method of a superclass has a share in is where calls end. -/
theorem SlotsAssigned.dispatches {w w' : Workspace} (h : SlotsAssigned w w') {c a : ClassId} {ancestor : Class}
    {key : MethodKey} {i : Nat} {e : MethodRef} (hdescends : w'.registry.Descends c a)
    (hcls : w'.registry.class? c = some cls) (hancestor : w'.registry.class? a = some ancestor)
    (hm : ancestor.methods[k]? = some m) (hin : m.inVtable = true) (hkey : m.key = key) (he : cls.vtable[i]? = some e)
    (hkey_e : w'.registry.key? e = some key) : w'.registry.Dispatches key c e := by
  induction hdescends generalizing cls with
  | @refl a cls' hcls' hclass =>
    obtain rfl := Option.some.inj (hcls.symm.trans hancestor)
    obtain rfl := Option.some.inj (hcls.symm.trans hcls')
    obtain ⟨key', hkey', hentry⟩ := (h.slots a cls hcls hclass).entry i e he
    obtain rfl := Option.some.inj (hkey_e.symm.trans hkey')
    rcases hentry with ⟨k', rfl, hlatest⟩ | ⟨s, super, -, -, -, hundeclared⟩
    · exact .here hcls hlatest
    · exact absurd hkey (hundeclared k m (Array.getElem?_toList.trans hm) hin)
  | @step c s a cls' hcls' hclass hs hdescends ih =>
    obtain rfl := Option.some.inj (hcls.symm.trans hcls')
    obtain ⟨key', hkey', hentry⟩ := (h.slots c cls hcls hclass).entry i e he
    obtain rfl := Option.some.inj (hkey_e.symm.trans hkey')
    rcases hentry with ⟨k', rfl, hlatest⟩ | ⟨s', super, hs', hsuper, hinherited, hundeclared⟩
    · exact .here hcls hlatest
    · obtain rfl := Option.some.inj (hs.symm.trans hs')
      exact .above hcls hundeclared hs (ih hsuper hancestor hinherited)

/-- The method of the second class if it is declared final. -/
def finalMethod : Method := { publicMethod with access := ⟨0x11⟩, inVtable := false, binding := .static }

/-- A call of a method through its slot, on an object of a subclass, ends at the first virtual method that a search up
from the subclass finds if and only if that one is not final and not declared again. -/
theorem entry_eq_firstVirtual_iff {w w' : Workspace} (built : w.Built) (h : Finishes Class.assignAllSlots w () w')
    {c a : ClassId} {cls ancestor : Class} (hdescends : w'.registry.Descends c a) (hcls : w'.registry.class? c = some cls)
    (hancestor : w'.registry.class? a = some ancestor) {k : Nat} {m : Method} (hm : ancestor.methods[k]? = some m)
    (hslot : 0 ≤ m.slot) :
    ∃ (i : Nat) (e : MethodRef), m.slot = headerSlots + i ∧ cls.vtable[i]? = some e ∧ w'.registry.Dispatches m.key c e ∧
      (∃ x, w'.registry.FirstVirtual m.key c x) ∧ ∀ x, w'.registry.FirstVirtual m.key c x → (e = x ↔ w'.registry.Stands x) := by
  have hassigned := slotsAssigned built.declared h
  have hdeclared : w'.Declared := (keeps_assignAllSlots keeps_assignSlots).of_finishes built.declared h
  have hmethod := (hdeclared a ancestor hancestor).methods m (Array.mem_of_getElem? hm)
  have hin : m.inVtable = true := by
    by_contra hout
    have hnone := hmethod.slot_of_excluded (Bool.eq_false_iff.2 hout)
    omega
  obtain ⟨hvirtual, -, hname⟩ := hmethod.inVtable_iff.1 hin
  have hslots := hassigned.slots a ancestor hancestor (hdescends.target_isInterface hancestor)
  obtain ⟨i, e0, hi, he0, hkey0, -⟩ := hslots.included k m hm hin
  obtain ⟨e, he, hkey⟩ := hassigned.slotsAgree c a cls ancestor hdescends hcls hancestor i e0 he0
  have hdispatches := hassigned.dispatches hdescends hcls hancestor hm hin rfl he (hkey.trans hkey0)
  refine ⟨i, e, hi, he, hdispatches, hdescends.exists_firstVirtual hancestor hm rfl hvirtual, fun x hx => ?_⟩
  exact hx.eq_iff_stands hdispatches hdeclared hname

theorem entry_eq_firstVirtual_iff_overriding :
    (twoClasses ⟨1⟩).Built ∧ ∃ (w' : Workspace) (cls ancestor : Class) (m : Method),
      Finishes Class.assignAllSlots (twoClasses ⟨1⟩) () w' ∧
      w'.registry.Descends 1 0 ∧ w'.registry.class? 1 = some cls ∧ w'.registry.class? 0 = some ancestor ∧
      ancestor.methods[0]? = some m ∧ 0 ≤ m.slot ∧
      ∃ (i : Nat) (e : MethodRef), m.slot = headerSlots + i ∧ cls.vtable[i]? = some e ∧ w'.registry.Dispatches m.key 1 e ∧
        (∃ x, w'.registry.FirstVirtual m.key 1 x) ∧
        ∀ x, w'.registry.FirstVirtual m.key 1 x → (e = x ↔ w'.registry.Stands x) := by
  obtain ⟨w', hrun, ⟨ancestor, hancestor, hclass, -, hmethods, -⟩, cls, hcls, hclass', hsuper, -⟩ :=
    finishes_twoClasses (twoClasses ⟨1⟩) publicMethod (by cbv) (by cbv) (by cbv) fun _ => placeAll_overriding
  have hm : ancestor.methods[0]? = some { publicMethod with slot := 4 } := by rw [hmethods]; rfl
  have hdescends : w'.registry.Descends 1 0 := .step hcls hclass' hsuper (.refl hancestor hclass)
  have hslot : (0 : Int) ≤ 4 := by decide
  exact ⟨built_twoClasses ⟨1⟩, w', cls, ancestor, _, hrun, hdescends, hcls, hancestor, hm, hslot,
    entry_eq_firstVirtual_iff (built_twoClasses ⟨1⟩) hrun hdescends hcls hancestor hm hslot⟩

/-- A final method that overrides another is not reached. -/
theorem final_override_not_reached :
    (twoClasses ⟨0x11⟩).Built ∧ ∃ (w' : Workspace) (cls ancestor : Class) (m : Method),
      Finishes Class.assignAllSlots (twoClasses ⟨0x11⟩) () w' ∧
      w'.registry.Descends 1 0 ∧ w'.registry.class? 1 = some cls ∧ w'.registry.class? 0 = some ancestor ∧
      ancestor.methods[0]? = some m ∧ m.slot = headerSlots ∧ w'.registry.FirstVirtual m.key 1 ⟨1, 0⟩ ∧
      cls.vtable[0]? = some ⟨0, 0⟩ := by
  have hplace : ∀ r : Registry, r.key? ⟨0, 0⟩ = some publicMethod.key → ∃ t : SlotTable, t.slots = #[⟨0, 0⟩] ∧
      SlotTable.placeAll 1 0 (.ofVtable r #[⟨0, 0⟩]) [finalMethod] = ([finalMethod], t) :=
    fun r _ => ⟨SlotTable.ofVtable r #[⟨0, 0⟩], rfl, rfl⟩
  obtain ⟨w', hrun, ⟨ancestor, hancestor, hclass, -, hmethods, -⟩, cls, hcls, hclass', hsuper, hmethods', hvtable⟩ :=
    finishes_twoClasses (twoClasses ⟨0x11⟩) finalMethod (by cbv) (by cbv) (by cbv) hplace
  refine ⟨built_twoClasses ⟨0x11⟩, w', cls, ancestor, { publicMethod with slot := 4 }, hrun,
    .step hcls hclass' hsuper (.refl hancestor hclass), hcls, hancestor, by rw [hmethods]; rfl, rfl, ?_, by rw [hvtable]; rfl⟩
  refine .here hcls (m := finalMethod) (by rw [hmethods']; rfl) rfl (by decide) fun k' m' hlt => ?_
  omega

end ClassAbi
