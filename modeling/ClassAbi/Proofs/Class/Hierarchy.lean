import ClassAbi.Class.Hierarchy
import ClassAbi.Proofs.Action
import ClassAbi.Proofs.Outcome

/-!
# The order of the classes

`superToSub` lists every class once, after the supertypes of it that are registered. The depth-first search keeps this of
what it has listed so far, and it never lists a class that it is still on the way to. Steps that are taken for the classes
in this order find that the superclass of a class has had its turn.
-/

namespace ClassAbi

variable {r : Registry} {c : ClassId} {cls : Class} {s s' : Sorted} {path order before : List ClassId}

namespace Registry

/-- Whether a list, the last class first, has no class twice and every class after its supertypes. -/
def Ordered (r : Registry) : List ClassId → Prop
  | [] => True
  | c :: before =>
    c ∉ before ∧ (∃ cls, r.class? c = some cls ∧ ∀ super ∈ cls.supertypes, super < r.classes.size → super ∈ before) ∧
      r.Ordered before

theorem class?_eq_some (h : c < r.classes.size) : r.class? c = some r.classes[c] :=
  Array.getElem?_eq_getElem h

theorem lt_size_of_class? (h : r.class? c = some cls) : c < r.classes.size :=
  (Array.getElem?_eq_some_iff.1 h).1

end Registry

/-- Whether the classes listed so far are in order, and the set of members is theirs. -/
structure Sorted.Valid (r : Registry) (s : Sorted) : Prop where
  contains_iff : ∀ c, s.members.contains c = true ↔ c ∈ s.order
  ordered : r.Ordered s.order

theorem Sorted.valid_empty (r : Registry) : Sorted.Valid r {} where
  contains_iff c := by simp
  ordered := trivial

theorem Sorted.Valid.push (h : s.Valid r) (hc : c ∉ s.order) (hcls : r.class? c = some cls)
    (hsuper : ∀ super ∈ cls.supertypes, super < r.classes.size → super ∈ s.order) :
    (s.push c).Valid r where
  contains_iff d := by
    simp only [Sorted.push, Std.HashSet.contains_insert, Bool.or_eq_true, beq_iff_eq, h.contains_iff, List.mem_cons]
    rw [eq_comm]
  ordered := ⟨hc, ⟨cls, hcls, hsuper⟩, h.ordered⟩

namespace Registry

variable {r : Registry}

/-- What a search from one class leaves behind: more classes in order, none of them on the path to it. -/
structure Extended (r : Registry) (path : List ClassId) (s s' : Sorted) : Prop where
  valid : s'.Valid r
  added : ∃ new, s'.order = new ++ s.order ∧ ∀ c ∈ path, c ∉ new

theorem Extended.refl (h : s.Valid r) : r.Extended path s s :=
  ⟨h, [], rfl, by simp⟩

theorem Extended.trans {s'' : Sorted} (h : r.Extended path s s') (h' : r.Extended path s' s'') : r.Extended path s s'' := by
  obtain ⟨new, hnew, hpath⟩ := h.added
  obtain ⟨new', hnew', hpath'⟩ := h'.added
  refine ⟨h'.valid, new' ++ new, by rw [hnew', hnew, List.append_assoc], fun c hc hmem => ?_⟩
  exact (List.mem_append.1 hmem).elim (hpath' c hc) (hpath c hc)

theorem Extended.mem (h : r.Extended path s s') (hc : c ∈ s.order) : c ∈ s'.order := by
  obtain ⟨new, hnew, -⟩ := h.added
  rw [hnew]
  exact List.mem_append_right new hc

theorem extended_foldlM {step : Sorted → ClassId → Except ClassError Sorted} {cs : List ClassId}
    (hstep : ∀ c s s', step s c = .ok s' → s.Valid r → r.Extended path s s' ∧ (c < r.classes.size → c ∈ s'.order))
    (h : cs.foldlM step s = .ok s') (hs : s.Valid r) :
    r.Extended path s s' ∧ ∀ c ∈ cs, c < r.classes.size → c ∈ s'.order := by
  induction cs generalizing s with
  | nil =>
    cases h
    exact ⟨Extended.refl hs, by simp⟩
  | cons c cs ih =>
    rw [List.foldlM_cons, bind_eq_ok_iff] at h
    obtain ⟨t, ht, hrest⟩ := h
    obtain ⟨hext, hmem⟩ := hstep c s t ht hs
    obtain ⟨hext', hmem'⟩ := ih hrest hext.valid
    refine ⟨hext.trans hext', fun d hd hlt => ?_⟩
    rcases List.mem_cons.1 hd with rfl | hd
    · exact hext'.mem (hmem hlt)
    · exact hmem' d hd hlt

theorem sortFrom_extended (h : r.sortFrom path c s = .ok s') (hs : s.Valid r) :
    r.Extended path s s' ∧ (c < r.classes.size → c ∈ s'.order) := by
  induction path, c, s using Registry.sortFrom.induct r generalizing s' with
  | case1 path c s hmem =>
    rw [sortFrom, if_pos hmem] at h
    cases h
    exact ⟨Extended.refl hs, fun _ => (hs.contains_iff c).1 hmem⟩
  | case2 path c s hmem hpath =>
    rw [sortFrom, if_neg hmem, dif_pos hpath] at h
    cases h
  | case3 path c s hmem hpath hlt ih =>
    rw [sortFrom, if_neg hmem, dif_neg hpath, dif_pos hlt, bind_eq_ok_iff] at h
    obtain ⟨t, ht, hpush⟩ := h
    cases hpush
    obtain ⟨hext, hsuper⟩ := extended_foldlM (fun d u u' hu hvalid => ih u d hu hvalid) ht hs
    obtain ⟨new, hnew, hfresh⟩ := hext.added
    have hc : c ∉ t.order := by
      rw [hnew, List.mem_append, not_or]
      exact ⟨hfresh c List.mem_cons_self, fun hold => hmem ((hs.contains_iff c).2 hold)⟩
    refine ⟨⟨hext.valid.push hc (class?_eq_some hlt) hsuper, c :: new, ?_, fun d hd hin => ?_⟩, fun _ => ?_⟩
    · rw [Sorted.push, hnew]
      rfl
    · rcases List.mem_cons.1 hin with rfl | hin
      · exact hpath hd
      · exact hfresh d (List.mem_cons_of_mem c hd) hin
    · exact List.mem_cons_self
  | case4 path c s hmem hpath hlt =>
    rw [sortFrom, if_neg hmem, dif_neg hpath, dif_neg hlt] at h
    cases h
    exact ⟨Extended.refl hs, fun hlt' => absurd hlt' hlt⟩

/-- The list has every class of the registry, and the classes before one hold its supertypes. -/
theorem superToSub_spec (h : r.superToSub = .ok order) : r.Ordered order.reverse ∧ ∀ c, c < r.classes.size → c ∈ order := by
  rw [superToSub, bind_eq_ok_iff] at h
  obtain ⟨s, hs, hpure⟩ := h
  cases hpure
  obtain ⟨hext, hmem⟩ := extended_foldlM (fun c t t' ht hvalid => sortFrom_extended ht hvalid) hs (Sorted.valid_empty r)
  refine ⟨by rw [List.reverse_reverse]; exact hext.valid.ordered, fun c hc => ?_⟩
  rw [List.mem_reverse]
  exact hmem c (List.mem_range.2 hc) hc

/-! ### Turns -/

theorem Ordered.super_mem (h : r.Ordered before) {s : ClassId} (hc : c ∈ before) (hcls : r.class? c = some cls)
    (hs : s ∈ cls.supertypes) (hlt : s < r.classes.size) : s ∈ before := by
  induction before with
  | nil => simp at hc
  | cons d before ih =>
    obtain ⟨-, ⟨cls', hcls', hsuper⟩, hordered⟩ := h
    rcases List.mem_cons.1 hc with rfl | hc
    · rw [hcls] at hcls'
      cases hcls'
      exact List.mem_cons_of_mem c (hsuper s hs hlt)
    · exact List.mem_cons_of_mem d (ih hordered hc)

theorem Ordered.nodup (h : r.Ordered before) : before.Nodup := by
  induction before with
  | nil => exact List.nodup_nil
  | cons c before ih => exact List.nodup_cons.2 ⟨h.1, ih h.2.2⟩

theorem Ordered.exists_class (h : r.Ordered before) (hc : c ∈ before) : ∃ cls, r.class? c = some cls := by
  induction before with
  | nil => cases hc
  | cons d before ih =>
    rcases List.mem_cons.1 hc with rfl | hc
    · obtain ⟨cls, hcls, -⟩ := h.2.1
      exact ⟨cls, hcls⟩
    · exact ih h.2.2 hc

theorem Ordered.of_append {after : List ClassId} (h : r.Ordered (after ++ before)) : r.Ordered before := by
  induction after with
  | nil => exact h
  | cons c after ih => exact ih h.2.2

/-- What holds after the turns of some classes holds after those of all if one turn keeps it up. -/
theorem Ordered.turns {P : List ClassId → Workspace → Prop} {turn : ClassId → Action Unit}
    (hturn : ∀ c before w w', r.Ordered (c :: before) → P before w → Finishes (turn c) w () w' → P (c :: before) w')
    {w w' : Workspace} (hordered : r.Ordered (order.reverse ++ before)) (h : P before w)
    (hrun : Finishes (order.forM turn) w () w') : P (order.reverse ++ before) w' := by
  induction order generalizing before w with
  | nil =>
    obtain rfl := finishes_forM_nil_iff.1 hrun
    exact h
  | cons c order ih =>
    rw [List.reverse_cons, List.append_assoc, List.singleton_append] at hordered ⊢
    obtain ⟨w1, hfirst, hrest⟩ := finishes_forM_cons_iff.1 hrun
    exact ih hordered (hturn c before w w1 hordered.of_append h hfirst) hrest

/-- The places of a list without a class twice: a supertype stands before its subtypes. -/
theorem Ordered.exists_rank (h : r.Ordered before) :
    ∃ rank : ClassId → Nat, (∀ c ∈ before, rank c < before.length) ∧
      ∀ c ∈ before, ∀ cls, r.class? c = some cls → ∀ super ∈ cls.supertypes, super < r.classes.size → rank super < rank c := by
  induction before with
  | nil => exact ⟨fun _ => 0, by simp, by simp⟩
  | cons d before ih =>
    obtain ⟨hd, ⟨dcls, hdcls, hsupers⟩, hbefore⟩ := h
    obtain ⟨rank, hbound, hrank⟩ := ih hbefore
    have hother : ∀ c ∈ before, (if c = d then before.length else rank c) = rank c := by
      intro c hc
      rw [if_neg]
      rintro rfl
      exact hd hc
    refine ⟨fun c => if c = d then before.length else rank c, fun c hc => ?_, fun c hc cls hcls super hsuper hlt => ?_⟩
    · rcases List.mem_cons.1 hc with rfl | hc
      · simp
      · have hlt := hbound c hc
        simp only [hother c hc, List.length_cons]
        omega
    · rcases List.mem_cons.1 hc with rfl | hc
      · cases hdcls.symm.trans hcls
        have hmem := hsupers super hsuper hlt
        simp only [hother super hmem, if_true]
        exact hbound super hmem
      · simp only [hother c hc, hother super (hbefore.super_mem hc hcls hsuper hlt)]
        exact hrank c hc cls hcls super hsuper hlt

theorem exists_foldlM {step : Sorted → ClassId → Except ClassError Sorted} {cs : List ClassId}
    (h : ∀ c ∈ cs, ∀ s, ∃ s', step s c = .ok s') (s : Sorted) : ∃ s', cs.foldlM step s = .ok s' := by
  induction cs generalizing s with
  | nil => exact ⟨s, rfl⟩
  | cons c cs ih =>
    rw [List.forall_mem_cons] at h
    obtain ⟨t, ht⟩ := h.1 s
    obtain ⟨s', hs'⟩ := ih h.2 t
    refine ⟨s', ?_⟩
    rw [List.foldlM_cons, bind_eq_ok_iff]
    exact ⟨t, ht, hs'⟩

/-- A search along which the rank decreases does not come back to a class that it is on the way to. -/
theorem exists_sortFrom {rank : ClassId → Nat}
    (hrank : ∀ c cls, r.class? c = some cls → ∀ super ∈ cls.supertypes, super < r.classes.size → rank super < rank c)
    (hpath : ∀ d ∈ path, d < r.classes.size) (hc : c < r.classes.size → ∀ d ∈ path, rank c < rank d) :
    ∃ s', r.sortFrom path c s = .ok s' := by
  induction path, c, s using Registry.sortFrom.induct r with
  | case1 path c s hmem => exact ⟨s, by rw [sortFrom, if_pos hmem]⟩
  | case2 path c s hmem hin => exact absurd (hc (hpath c hin) c hin) (lt_irrefl _)
  | case3 path c s hmem hout hlt ih =>
    have hsupers : ∀ super ∈ r.classes[c].supertypes, ∀ s, ∃ s', r.sortFrom (c :: path) super s = .ok s' := by
      intro super hsuper s
      refine ih s super (List.forall_mem_cons.2 ⟨hlt, hpath⟩) fun hslt => ?_
      have hbelow := hrank c _ (class?_eq_some hlt) super hsuper hslt
      exact List.forall_mem_cons.2 ⟨hbelow, fun d hd => hbelow.trans (hc hlt d hd)⟩
    obtain ⟨t, ht⟩ := exists_foldlM hsupers s
    refine ⟨t.push c, ?_⟩
    rw [sortFrom, if_neg hmem, dif_neg hout, dif_pos hlt, bind_eq_ok_iff]
    exact ⟨t, ht, rfl⟩
  | case4 path c s hmem hout hlt => exact ⟨s, by rw [sortFrom, if_neg hmem, dif_neg hout, dif_neg hlt]⟩

theorem exists_superToSub {rank : ClassId → Nat}
    (hrank : ∀ c cls, r.class? c = some cls → ∀ super ∈ cls.supertypes, super < r.classes.size → rank super < rank c) :
    ∃ order, r.superToSub = .ok order := by
  have hstep : ∀ c ∈ List.range r.classes.size, ∀ s, ∃ s', r.sortFrom [] c s = .ok s' := fun c _ s =>
    exists_sortFrom hrank (by simp) (by simp)
  obtain ⟨s, hs⟩ := exists_foldlM hstep {}
  refine ⟨s.order.reverse, ?_⟩
  rw [superToSub, bind_eq_ok_iff]
  exact ⟨s, hs, rfl⟩

theorem Ordered.exists_superToSub (h : r.Ordered before) (hall : ∀ c, c < r.classes.size → c ∈ before) :
    ∃ order, r.superToSub = .ok order := by
  obtain ⟨rank, -, hrank⟩ := h.exists_rank
  exact Registry.exists_superToSub fun c cls hcls => hrank c (hall c (lt_size_of_class? hcls)) cls hcls

theorem Ordered.exists_turns {P : List ClassId → Workspace → Prop} {turn : ClassId → Action Unit}
    (hturn : ∀ c before w w', r.Ordered (c :: before) → P before w → Finishes (turn c) w () w' → P (c :: before) w')
    (hexists : ∀ c before w, r.Ordered (c :: before) → P before w → ∃ w', Finishes (turn c) w () w') {w : Workspace}
    (hordered : r.Ordered (order.reverse ++ before)) (h : P before w) : ∃ w', Finishes (order.forM turn) w () w' := by
  induction order generalizing before w with
  | nil => exact ⟨w, finishes_forM_nil_iff.2 rfl⟩
  | cons c order ih =>
    rw [List.reverse_cons, List.append_assoc, List.singleton_append] at hordered
    obtain ⟨w1, hfirst⟩ := hexists c before w hordered.of_append h
    obtain ⟨w', hrest⟩ := ih hordered (hturn c before w w1 hordered.of_append h hfirst)
    exact ⟨w', finishes_forM_cons_iff.2 ⟨w1, hfirst, hrest⟩⟩

/-- Whether two registries have the same classes, but for what `forget` takes away. -/
structure AgreeUpTo (forget : Class → Class) (r r' : Registry) : Prop where
  byName_eq : r'.byName = r.byName
  class?_eq : ∀ c, (r'.class? c).map forget = (r.class? c).map forget

variable {forget : Class → Class} {r' r'' : Registry}

theorem AgreeUpTo.refl (r : Registry) : AgreeUpTo forget r r := ⟨rfl, fun _ => rfl⟩

theorem AgreeUpTo.symm (h : AgreeUpTo forget r r') : AgreeUpTo forget r' r :=
  ⟨h.byName_eq.symm, fun c => (h.class?_eq c).symm⟩

theorem AgreeUpTo.trans (h : AgreeUpTo forget r r') (h' : AgreeUpTo forget r' r'') : AgreeUpTo forget r r'' :=
  ⟨h'.byName_eq.trans h.byName_eq, fun c => (h'.class?_eq c).trans (h.class?_eq c)⟩

theorem Updated.agreeUpTo {cls' : Class} (h : r.Updated c cls' r') (hcls : r.class? c = some cls)
    (heq : forget cls' = forget cls) : AgreeUpTo forget r r' where
  byName_eq := h.byName_eq
  class?_eq d := by
    rw [h.class?_eq]
    split_ifs with hcd
    · rw [← hcd, hcls, Option.map_some, Option.map_some, heq]
    · rfl

theorem AgreeUpTo.exists_class (h : AgreeUpTo forget r r') (hcls : r'.class? c = some cls) :
    ∃ cls0, r.class? c = some cls0 ∧ forget cls = forget cls0 := by
  have heq := h.class?_eq c
  rw [hcls, Option.map_some] at heq
  obtain ⟨cls0, hcls0, heq0⟩ := Option.map_eq_some_iff.1 heq.symm
  exact ⟨cls0, hcls0, heq0.symm⟩

theorem AgreeUpTo.lt_size (h : AgreeUpTo forget r r') (hc : c < r'.classes.size) : c < r.classes.size := by
  obtain ⟨cls, hcls, -⟩ := h.exists_class (class?_eq_some hc)
  exact lt_size_of_class? hcls

theorem AgreeUpTo.exists_superToSub (h : AgreeUpTo forget r r')
    (hforget : ∀ cls, (forget cls).supertypes = cls.supertypes) (horder : r.superToSub = .ok order) :
    ∃ order', r'.superToSub = .ok order' := by
  obtain ⟨hordered, hall⟩ := superToSub_spec horder
  obtain ⟨rank, -, hrank⟩ := hordered.exists_rank
  have hrank' : ∀ c cls, r'.class? c = some cls → ∀ super ∈ cls.supertypes, super < r'.classes.size → rank super < rank c := by
    intro c cls hcls super hsuper hlt
    obtain ⟨cls0, hcls0, hsame⟩ := h.exists_class hcls
    rw [← hforget, hsame, hforget] at hsuper
    exact hrank c (List.mem_reverse.2 (hall c (lt_size_of_class? hcls0))) cls0 hcls0 super hsuper (h.lt_size hlt)
  exact Registry.exists_superToSub hrank'

theorem AgreeUpTo.super_mem (h : AgreeUpTo forget r r') (hforget : ∀ cls, (forget cls).supertypes = cls.supertypes)
    {d s : ClassId} {super : Class} (hordered : r.Ordered (c :: before)) (hd : d ∈ c :: before)
    (hcls : r'.class? d = some cls) (hs : cls.super = some s) (hsuper : r'.class? s = some super) : s ∈ before := by
  obtain ⟨cls0, hcls0, hsame⟩ := h.exists_class hcls
  obtain ⟨super0, hsuper0, -⟩ := h.exists_class hsuper
  have hmem : s ∈ cls0.supertypes := by
    rw [← hforget cls0, ← hsame, hforget, Class.supertypes, hs]
    simp
  have hlt := lt_size_of_class? hsuper0
  obtain ⟨-, ⟨cls', hcls', hsupers⟩, hbefore⟩ := hordered
  rcases List.mem_cons.1 hd with rfl | hd
  · rw [hcls0] at hcls'
    cases hcls'
    exact hsupers s hmem hlt
  · exact hbefore.super_mem hd hcls0 hmem hlt

end Registry

end ClassAbi
