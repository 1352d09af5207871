import ClassAbi.Proofs.Class.Instance
import ClassAbi.Proofs.Class.Slots

/-!
# Sorting the classes

`superToSub` is a topological sort: it fails exactly if the supertypes have a cycle, and then it reports a way along
supertypes that comes back to a class which it has passed. As the passes over the classes follow its order, they never find
a superclass that has not had its turn.
-/

open Relation

namespace ClassAbi

namespace Registry

variable {r : Registry} {path order : List ClassId} {c : ClassId} {s : Sorted} {e : ClassError}

/-- Whether a class has another one as a direct supertype. -/
def Extends (r : Registry) (c super : ClassId) : Prop := ∃ cls, r.class? c = some cls ∧ super ∈ cls.supertypes

/-- Whether an error reports a way along supertypes whose last class is on it before. -/
def ReportsCycle (r : Registry) (e : ClassError) : Prop :=
  ∃ chain last, e = .cyclic ((chain ++ [last]).map r.nameOf) ∧ (chain ++ [last]).IsChain r.Extends ∧ last ∈ chain

/-! ### Failures -/

theorem exists_of_foldlM_error {step : Sorted → ClassId → Except ClassError Sorted} {cs : List ClassId}
    (h : cs.foldlM step s = .error e) : ∃ c ∈ cs, ∃ t, step t c = .error e := by
  induction cs generalizing s with
  | nil => cases h
  | cons c cs ih =>
    rw [List.foldlM_cons] at h
    cases hstep : step s c with
    | error e' =>
      rw [hstep] at h
      cases h
      exact ⟨c, List.mem_cons_self, s, hstep⟩
    | ok t =>
      rw [hstep] at h
      obtain ⟨d, hd, hfail⟩ := ih h
      exact ⟨d, List.mem_cons_of_mem c hd, hfail⟩

theorem reportsCycle_of_sortFrom (h : r.sortFrom path c s = .error e) (hpath : (c :: path).reverse.IsChain r.Extends) :
    r.ReportsCycle e := by
  induction path, c, s using Registry.sortFrom.induct r with
  | case1 path c s hmem =>
    rw [sortFrom, if_pos hmem] at h
    cases h
  | case2 path c s hmem hin =>
    rw [sortFrom, if_neg hmem, dif_pos hin] at h
    cases h
    rw [List.reverse_cons] at hpath
    exact ⟨path.reverse, c, by rw [List.reverse_cons], hpath, List.mem_reverse.2 hin⟩
  | case3 path c s hmem hout hlt ih =>
    rw [sortFrom, if_neg hmem, dif_neg hout, dif_pos hlt] at h
    cases hfold : r.classes[c].supertypes.foldlM (fun s super => r.sortFrom (c :: path) super s) s with
    | ok t =>
      rw [hfold] at h
      cases h
    | error e' =>
      rw [hfold] at h
      cases h
      obtain ⟨super, hsuper, t, hfail⟩ := exists_of_foldlM_error hfold
      refine ih t super hfail ?_
      rw [List.reverse_cons, List.isChain_append]
      refine ⟨hpath, .singleton super, ?_⟩
      simp only [List.getLast?_reverse, List.head?_cons, Option.mem_some_iff]
      rintro _ rfl _ rfl
      exact ⟨_, class?_eq_some hlt, hsuper⟩
  | case4 path c s hmem hout hlt =>
    rw [sortFrom, if_neg hmem, dif_neg hout, dif_neg hlt] at h
    cases h

theorem reportsCycle_of_superToSub (h : r.superToSub = .error e) : r.ReportsCycle e := by
  rw [superToSub] at h
  cases hfold : (List.range r.classes.size).foldlM (fun s c => r.sortFrom [] c s) {} with
  | ok s =>
    rw [hfold] at h
    cases h
  | error e' =>
    rw [hfold] at h
    cases h
    obtain ⟨c, -, s, hfail⟩ := exists_of_foldlM_error hfold
    exact reportsCycle_of_sortFrom hfail (.singleton c)

theorem ReportsCycle.exists_cycle (h : r.ReportsCycle e) : ∃ c, TransGen r.Extends c c := by
  obtain ⟨chain, last, -, hchain, hmem⟩ := h
  have hpairs := List.isChain_iff_pairwise.1 (hchain.imp fun _ _ h => TransGen.single h)
  exact ⟨last, (List.pairwise_append.1 hpairs).2.2 last hmem last (List.mem_singleton.2 rfl)⟩

/-! ### Orders -/

theorem not_cycle_of_superToSub (hclosed : ∀ c super, r.Extends c super → super < r.classes.size)
    (h : r.superToSub = .ok order) : ¬TransGen r.Extends c c := by
  obtain ⟨hordered, hall⟩ := superToSub_spec h
  obtain ⟨rank, -, hrank⟩ := hordered.exists_rank
  have hbelow : ∀ d, TransGen r.Extends c d → rank d < rank c := by
    have hstep : ∀ a b, r.Extends a b → rank b < rank a := by
      intro a b hab
      have hlt := hclosed a b hab
      obtain ⟨cls, hcls, hb⟩ := hab
      exact hrank a (List.mem_reverse.2 (hall a (lt_size_of_class? hcls))) cls hcls b hb hlt
    intro d hd
    induction hd with
    | single h => exact hstep c _ h
    | tail _ h ih => exact (hstep _ _ h).trans ih
  exact fun hcycle => lt_irrefl _ (hbelow c hcycle)

theorem mem_iff_of_superToSub (h : r.superToSub = .ok order) : c ∈ order ↔ c < r.classes.size := by
  obtain ⟨hordered, hall⟩ := superToSub_spec h
  refine ⟨fun hc => ?_, hall c⟩
  obtain ⟨cls, hcls⟩ := hordered.exists_class (List.mem_reverse.2 hc)
  exact lt_size_of_class? hcls

theorem super_before_of_superToSub {before after : List ClassId} (h : r.superToSub = .ok (before ++ c :: after))
    {super : ClassId} (hsuper : r.Extends c super) (hlt : super < r.classes.size) : super ∈ before := by
  obtain ⟨hordered, -⟩ := superToSub_spec h
  rw [List.reverse_append, List.reverse_cons, List.append_assoc] at hordered
  obtain ⟨-, ⟨cls, hcls, hsupers⟩, -⟩ := hordered.of_append
  obtain ⟨cls', hcls', hmem⟩ := hsuper
  cases hcls.symm.trans hcls'
  exact List.mem_reverse.1 (hsupers super hmem hlt)

end Registry

/-! ### Turns -/

/-- The error without the steps in which it was found. -/
def Error.cause : Error → Error
  | .within _ e => e.cause
  | e => e

/-- Whether an error says that a superclass has not had its turn. -/
def Error.OutOfTurn (e : Error) : Prop :=
  ∃ super, e.cause = .cls (.superNotLaidOut super) ∨ e.cause = .cls (.superWithoutSlots super)

def InTurn {α : Type} (x : Action α) (w : Workspace) : Prop := ∀ e w', x w = (.error (.error e), w') → ¬e.OutOfTurn

namespace InTurn

variable {α β : Type} {w : Workspace}

theorem pure (a : α) : InTurn (pure a : Action α) w := by
  intro e w' h
  cases h

theorem fault : InTurn (Action.fault : Action α) w := by
  intro e w' h
  cases h

theorem fail {e : Error} (he : ¬e.OutOfTurn) : InTurn (Action.fail e : Action α) w := by
  intro e' w' h
  cases h
  exact he

theorem bind {x : Action α} {f : α → Action β} (hx : InTurn x w) (hf : ∀ a w', Finishes x w a w' → InTurn (f a) w') :
    InTurn (x >>= f) w := by
  rcases hrun : x w with ⟨e | a, w'⟩
  · intro e' w'' h
    rw [bind_apply_of_error hrun] at h
    cases h
    exact hx e' w' hrun
  · rw [InTurn, bind_apply_of_finishes hrun]
    exact hf a w' hrun

theorem need (o : Option α) : InTurn (Action.need o) w := by
  cases o with
  | none => exact fault
  | some a => exact pure a

theorem class' (c : ClassId) : InTurn (Action.class' c) w := bind (pure w) fun _ _ _ => need _

theorem of_mapError {ε : Type} {g : ε → Error} {x : Workspace → Outcome ε α × Workspace}
    (h : ∀ e w', x w = (.error (.error e), w') → ¬(g e).OutOfTurn) :
    InTurn (fun w => (Outcome.mapError g (x w).1, (x w).2) : Action α) w := by
  intro e w' hrun
  rcases hx : x w with ⟨(_ | e0) | a, w1⟩ <;> simp only [hx, Outcome.mapError] at hrun
  all_goals cases hrun
  exact h e0 w' hx

theorem within {step : Step} {x : Action α} (h : InTurn x w) : InTurn (Action.within step x) w := of_mapError h

theorem layoutOf (t : Option TypeId) : InTurn (Action.layoutOf t) w := by
  refine bind (need t) fun t w1 _ => of_mapError (g := Error.layout) (x := fun w =>
    ((Layout.layoutOf w.program.types w.target t w.layouts).1,
      { w with layouts := (Layout.layoutOf w.program.types w.target t w.layouts).2 })) ?_
  rintro e w' - ⟨super, h | h⟩ <;> cases h

theorem registry : InTurn Action.registry w := bind (pure w) fun _ _ _ => pure _

theorem newType (shape : Shape) : InTurn (Action.newType shape) w := by
  intro e w' h
  cases h

theorem onRegistry (f : Registry → Registry) : InTurn (Action.onRegistry f) w := by
  intro e w' h
  cases h

end InTurn

def Class.onlySupertypes (cls : Class) : Class where
  name := []
  access := ⟨0⟩
  external := false
  super := cls.super
  interfaces := cls.interfaces

/-- Whether the classes in `before` have had their turns, which `final` shows. -/
structure TurnsDone (final : Class → Bool) (r : Registry) (before : List ClassId) (w : Workspace) : Prop where
  same : Registry.AgreeUpTo Class.onlySupertypes r w.registry
  done : ∀ c ∈ before, ∀ cls, w.registry.class? c = some cls → final cls = true

namespace TurnsDone

variable {final : Class → Bool} {r : Registry} {before : List ClassId} {w w' : Workspace} {c : ClassId} {cls cls' : Class}

theorem super (h : TurnsDone final r before w) (hordered : r.Ordered (c :: before)) (hcls : w.registry.class? c = some cls)
    {s : ClassId} {super : Class} (hs : cls.super = some s) (hsuper : w.registry.class? s = some super) : final super = true :=
  h.done s (h.same.super_mem (fun _ => rfl) hordered List.mem_cons_self hcls hs hsuper) super hsuper

theorem update (h : TurnsDone final r before w) (hcls : w.registry.class? c = some cls)
    (hupdated : w.registry.Updated c cls' w'.registry) (heq : cls'.onlySupertypes = cls.onlySupertypes)
    (hfinal : final cls' = true) : TurnsDone final r (c :: before) w' := by
  refine ⟨h.same.trans (hupdated.agreeUpTo hcls heq), fun d hd dcls hdcls => ?_⟩
  rw [hupdated.class?_eq] at hdcls
  split_ifs at hdcls with hcd
  · cases hdcls
    exact hfinal
  · exact h.done d ((List.mem_cons.1 hd).resolve_left (Ne.symm hcd)) dcls hdcls

theorem inTurn_super {α : Type} (h : TurnsDone final r before w) (hordered : r.Ordered (c :: before))
    (hcls : w.registry.class? c = some cls) {root : Action α} {ready early : Class → Action α} (hroot : InTurn root w)
    (hready : ∀ super, InTurn (ready super) w) :
    InTurn (match cls.super with
      | none => root
      | some s => do
        let super ← Action.class' s
        if final super then ready super else early super) w := by
  split
  · exact hroot
  next s hs =>
    refine (InTurn.class' s).bind fun super w' hread => ?_
    obtain ⟨hsuper, rfl⟩ := Action.finishes_class'_iff.1 hread
    rw [if_pos (h.super hordered hcls hs hsuper)]
    exact hready super

theorem inTurn_forM {turn : ClassId → Action Unit}
    (hturn : ∀ c before w, r.Ordered (c :: before) → TurnsDone final r before w →
      InTurn (turn c) w ∧ ∀ w', Finishes (turn c) w () w' → TurnsDone final r (c :: before) w')
    {order : List ClassId} (hordered : r.Ordered (order.reverse ++ before)) (h : TurnsDone final r before w) :
    InTurn (order.forM turn) w := by
  induction order generalizing before w with
  | nil => exact .pure _
  | cons c order ih =>
    rw [List.reverse_cons, List.append_assoc, List.singleton_append] at hordered
    obtain ⟨hfirst, hnext⟩ := hturn c before w hordered.of_append h
    rw [List.forM_eq_forM, List.forM_cons]
    exact hfirst.bind fun _ w' hrun => ih hordered (hnext w' hrun)

theorem inTurn_pass (final : Class → Bool) {turn : ClassId → Action Unit}
    (hturn : ∀ c before w', w.registry.Ordered (c :: before) → TurnsDone final w.registry before w' →
      InTurn (turn c) w' ∧ ∀ w'', Finishes (turn c) w' () w'' → TurnsDone final w.registry (c :: before) w'') :
    InTurn (do let order ← Action.ofExcept .cls (← Action.registry).superToSub; order.forM turn) w := by
  refine InTurn.registry.bind fun _ _ hread => ?_
  obtain ⟨rfl, rfl⟩ := Action.finishes_registry_iff.1 hread
  cases hsort : w.registry.superToSub with
  | error e =>
    obtain ⟨chain, last, rfl, -⟩ := Registry.reportsCycle_of_superToSub hsort
    refine InTurn.bind (.fail ?_) fun order w' hrun => absurd hrun (not_finishes_throw _)
    rintro ⟨super, h | h⟩ <;> cases h
  | ok order =>
    have hstart : TurnsDone final w.registry [] w := ⟨.refl _, by simp⟩
    refine inTurn_forM hturn ?_ hstart
    rw [List.append_nil]
    exact (Registry.superToSub_spec hsort).1

end TurnsDone

theorem inTurn_layOutAll (w : Workspace) : InTurn Class.layOutAll w := by
  refine TurnsDone.inTurn_pass Class.layoutFinal fun c before w1 hordered h => ⟨?_, fun w' hrun => ?_⟩
  · refine (InTurn.class' c).bind fun _ w2 hread => .within ((InTurn.class' c).bind fun cls w3 hread' => ?_)
    obtain ⟨-, rfl⟩ := Action.finishes_class'_iff.1 hread
    obtain ⟨hcls, rfl⟩ := Action.finishes_class'_iff.1 hread'
    refine (h.inTurn_super hordered hcls (.pure _) fun _ => .pure _).bind fun _ _ _ => InTurn.registry.bind fun _ _ _ => ?_
    exact (InTurn.newType _).bind fun t _ _ => (InTurn.layoutOf t).bind fun _ _ _ => .onRegistry _
  · obtain ⟨_, _, hread, hrun⟩ := finishes_bind_iff.1 hrun
    obtain ⟨-, rfl⟩ := Action.finishes_class'_iff.1 hread
    obtain ⟨cls, first, l, known, hcls, -, -, rfl⟩ := finishes_layOut_iff.1 (Action.finishes_within_iff.1 hrun)
    exact h.update hcls (Registry.updated_modifyClass hcls _) rfl rfl

theorem inTurn_assignAllSlots (w : Workspace) : InTurn Class.assignAllSlots w := by
  refine TurnsDone.inTurn_pass Class.dispatchFinal fun c before w1 hordered h => ⟨?_, fun w' hrun => ?_⟩
  · refine (InTurn.class' c).bind fun cls w2 hread => ?_
    obtain ⟨hcls, rfl⟩ := Action.finishes_class'_iff.1 hread
    split_ifs
    · refine (h.inTurn_super hordered hcls (.pure _) fun _ => .pure _).bind fun _ _ _ => InTurn.registry.bind fun _ _ _ => ?_
      refine (InTurn.onRegistry _).bind fun _ _ _ => ?_
      dsimp only
      split_ifs
      · refine .fail ?_
        rintro ⟨super, h | h⟩ <;> cases h
      · exact .onRegistry _
    · exact .onRegistry _
  · obtain ⟨cls, hcls, ⟨-, rfl⟩ | ⟨-, inherited, methods, t, -, -, -, rfl⟩⟩ := finishes_assignSlots_iff.1 hrun <;>
      exact h.update hcls (Registry.updated_modifyClass hcls _) rfl rfl

/-! ### The sort -/

/-- Whether the classes of a registry are listed in order, or else a cycle is reported. -/
structure Registry.Sorts (r : Registry) : Prop where
  fails_iff : (∃ e, r.superToSub = .error e) ↔ ∃ c, TransGen r.Extends c c
  nodup : ∀ order, r.superToSub = .ok order → order.Nodup
  mem_iff : ∀ order, r.superToSub = .ok order → ∀ c, c ∈ order ↔ c < r.classes.size
  super_mem : ∀ before c after, r.superToSub = .ok (before ++ c :: after) → ∀ super, r.Extends c super → super ∈ before
  reportsCycle : ∀ e, r.superToSub = .error e → r.ReportsCycle e
  -- The passes in this order.
  inTurn : ∀ w : Workspace, w.registry = r → ∀ pass ∈ [Class.layOutAll, Class.assignAllSlots], ∀ e w',
    pass w = (.error (.error e), w') → ¬e.OutOfTurn

/-- The classes are sorted where all supertypes are registered. -/
theorem superToSub_sorts {r : Registry} (hclosed : ∀ c super, r.Extends c super → super < r.classes.size) : r.Sorts where
  fails_iff := by
    constructor
    · rintro ⟨e, h⟩
      exact (Registry.reportsCycle_of_superToSub h).exists_cycle
    · rintro ⟨c, hcycle⟩
      cases h : r.superToSub with
      | error e => exact ⟨e, rfl⟩
      | ok order => exact absurd hcycle (Registry.not_cycle_of_superToSub hclosed h)
  nodup order h := List.nodup_reverse.1 (Registry.superToSub_spec h).1.nodup
  mem_iff order h c := Registry.mem_iff_of_superToSub h
  super_mem before c after h super hsuper := Registry.super_before_of_superToSub h hsuper (hclosed c super hsuper)
  reportsCycle e h := Registry.reportsCycle_of_superToSub h
  inTurn w _ pass hpass := by
    rcases List.mem_pair.1 hpass with rfl | rfl
    · exact inTurn_layOutAll w
    · exact inTurn_assignAllSlots w

/-- Four classes, of which the last has both subclasses of the first as supertypes. -/
def diamond : Registry where
  classes := #[{ name := "A", access := ⟨1⟩, external := false }, { name := "B", access := ⟨1⟩, external := false, super := some 0 },
    { name := "C", access := ⟨0x200⟩, external := false, super := some 0 },
    { name := "D", access := ⟨1⟩, external := false, super := some 1, interfaces := [2] }]

theorem superToSub_sorts_diamond : (∀ c super, diamond.Extends c super → super < diamond.classes.size) ∧ diamond.Sorts := by
  have hclosed : ∀ c super, diamond.Extends c super → super < diamond.classes.size := by
    rintro c super ⟨cls, hcls, hsuper⟩
    have hmem := Array.mem_of_getElem? hcls
    simp only [diamond, List.mem_toArray, List.mem_cons, List.not_mem_nil, or_false] at hmem
    rcases hmem with rfl | rfl | rfl | rfl <;> revert super <;> decide
  exact ⟨hclosed, superToSub_sorts hclosed⟩

end ClassAbi
