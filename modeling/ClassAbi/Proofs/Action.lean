import ClassAbi.Workspace
import Mathlib

/-!
# Runs of steps

The steps of a compilation, of the layout engine and of a module's writer carry a state and may fail, and a step that fails
keeps what it had changed. What a sequence of steps does follows from what each of them does: `Finishes` is about the runs
that give a result, and `Keeps` about the state that is left however a run ends.
-/

open Relation

namespace ClassAbi

section

variable {ε σ α β : Type} {x : ExceptT ε (StateM σ) α} {f : α → ExceptT ε (StateM σ) β} {s s' : σ}

/-- Whether a step takes the state `s` to `s'` and gives `a`. -/
def Finishes (x : ExceptT ε (StateM σ) α) (s : σ) (a : α) (s' : σ) : Prop := x s = (.ok a, s')

@[simp]
theorem finishes_pure_iff {a b : α} : Finishes (pure a : ExceptT ε (StateM σ) α) s b s' ↔ a = b ∧ s = s' := by
  show ((Except.ok a, s) : Except ε α × σ) = (.ok b, s') ↔ a = b ∧ s = s'
  rw [Prod.mk.injEq, Except.ok.injEq]

theorem finishes_pure {a : α} : Finishes (pure a : ExceptT ε (StateM σ) α) s a s := rfl

theorem not_finishes_of_error {e : ε} {t : σ} {a : α} (h : x s = (.error e, t)) : ¬Finishes x s a s' := by
  intro hfinishes
  have hne : ((Except.error e, t) : Except ε α × σ) ≠ (.ok a, s') := by simp
  exact hne (h.symm.trans hfinishes)

@[simp]
theorem not_finishes_throw (e : ε) {a : α} : ¬Finishes (throw e : ExceptT ε (StateM σ) α) s a s' :=
  not_finishes_of_error rfl

theorem finishes_of_isOk {x : ExceptT ε (StateM σ) PUnit} (h : (x s).1.isOk = true) : Finishes x s ⟨⟩ (x s).2 := by
  rcases hx : x s with ⟨e | a, t⟩
  · rw [hx] at h
    cases h
  · exact hx

@[simp]
theorem finishes_get_iff {t : σ} : Finishes (get : ExceptT ε (StateM σ) σ) s t s' ↔ s = t ∧ s = s' := finishes_pure_iff

theorem finishes_get : Finishes (get : ExceptT ε (StateM σ) σ) s s s := rfl

@[simp]
theorem finishes_modify_iff {g : σ → σ} {u : PUnit} :
    Finishes (modify g : ExceptT ε (StateM σ) PUnit) s u s' ↔ g s = s' := by
  show ((Except.ok ⟨⟩, g s) : Except ε PUnit × σ) = (.ok u, s') ↔ g s = s'
  simp

theorem bind_apply_of_finishes {a : α} (h : Finishes x s a s') : (x >>= f) s = f a s' := by
  simp only [bind, ExceptT.bind, ExceptT.mk, StateT.bind, ExceptT.bindCont]
  rw [h]

theorem bind_apply_of_error {e : ε} (h : x s = (.error e, s')) : (x >>= f) s = (.error e, s') := by
  simp only [bind, ExceptT.bind, ExceptT.mk, StateT.bind, ExceptT.bindCont]
  rw [h]
  rfl

@[simp]
theorem finishes_bind_iff {b : β} : Finishes (x >>= f) s b s' ↔ ∃ a t, Finishes x s a t ∧ Finishes (f a) t b s' := by
  constructor
  · intro h
    rcases hx : x s with ⟨e | a, t⟩
    · exact absurd h (not_finishes_of_error (bind_apply_of_error hx))
    · rw [Finishes, bind_apply_of_finishes hx] at h
      exact ⟨a, t, hx, h⟩
  · rintro ⟨a, t, hx, hf⟩
    rw [Finishes, bind_apply_of_finishes hx]
    exact hf

@[simp]
theorem finishes_map_iff {g : α → β} {b : β} : Finishes (g <$> x) s b s' ↔ ∃ a, Finishes x s a s' ∧ g a = b := by
  rw [← bind_pure_comp, finishes_bind_iff]
  simp [and_comm]

@[simp]
theorem finishes_forM_nil_iff {g : α → ExceptT ε (StateM σ) PUnit} {u : PUnit} : Finishes ([].forM g) s u s' ↔ s = s' := by
  rw [List.forM_eq_forM, List.forM_nil, finishes_pure_iff]
  simp

@[simp]
theorem finishes_forM_cons_iff {g : α → ExceptT ε (StateM σ) PUnit} {a : α} {as : List α} {u : PUnit} :
    Finishes ((a :: as).forM g) s u s' ↔ ∃ t, Finishes (g a) s ⟨⟩ t ∧ Finishes (as.forM g) t u s' := by
  rw [List.forM_eq_forM, List.forM_cons, finishes_bind_iff]
  exact ⟨fun ⟨_, t, h⟩ => ⟨t, h⟩, fun ⟨t, h⟩ => ⟨⟨⟩, t, h⟩⟩

theorem finishes_forM_congr {g g' : α → ExceptT ε (StateM σ) PUnit}
    (h : ∀ a s s', Finishes (g a) s ⟨⟩ s' ↔ Finishes (g' a) s ⟨⟩ s') {as : List α} {u : PUnit} :
    Finishes (as.forM g) s u s' ↔ Finishes (as.forM g') s u s' := by
  induction as generalizing s with
  | nil => rw [finishes_forM_nil_iff, finishes_forM_nil_iff]
  | cons a as ih => simp only [finishes_forM_cons_iff, h, ih]

@[simp]
theorem finishes_mapM_nil_iff {g : α → ExceptT ε (StateM σ) β} {bs : List β} :
    Finishes ([].mapM g) s bs s' ↔ [] = bs ∧ s = s' := by
  rw [List.mapM_nil, finishes_pure_iff]

@[simp]
theorem finishes_mapM_cons_iff {g : α → ExceptT ε (StateM σ) β} {a : α} {as : List α} {bs : List β} :
    Finishes ((a :: as).mapM g) s bs s' ↔
      ∃ b t rest, Finishes (g a) s b t ∧ Finishes (as.mapM g) t rest s' ∧ b :: rest = bs := by
  simp only [List.mapM_cons, finishes_bind_iff, finishes_pure_iff]
  constructor
  · rintro ⟨b, t, hfirst, rest, u, hrest, rfl, rfl⟩
    exact ⟨b, t, rest, hfirst, hrest, rfl⟩
  · rintro ⟨b, t, rest, hfirst, hrest, rfl⟩
    exact ⟨b, t, hfirst, rest, s', hrest, rfl, rfl⟩

/-- The results of steps that only lead on along `G`, which keeps what is known of a result. -/
theorem forall₂_of_finishes_mapM {G : σ → σ → Prop} {R : α → β → σ → Prop} {g : α → ExceptT ε (StateM σ) β} {as : List α}
    {bs : List β} (hrefl : ∀ s, G s s) (htrans : ∀ {s t u}, G s t → G t u → G s u)
    (hkeep : ∀ a b s t, R a b s → G s t → R a b t)
    (hstep : ∀ a ∈ as, ∀ s b t, Finishes (g a) s b t → G s t ∧ R a b t) (hrun : Finishes (as.mapM g) s bs s') :
    G s s' ∧ List.Forall₂ (fun a b => R a b s') as bs := by
  induction as generalizing s bs with
  | nil =>
    obtain ⟨rfl, rfl⟩ := finishes_mapM_nil_iff.1 hrun
    exact ⟨hrefl s, .nil⟩
  | cons a as ih =>
    rw [List.forall_mem_cons] at hstep
    obtain ⟨b, t, rest, hfirst, hrest, rfl⟩ := finishes_mapM_cons_iff.1 hrun
    obtain ⟨hG, hR⟩ := hstep.1 s b t hfirst
    obtain ⟨hG', hrest⟩ := ih hstep.2 hrest
    exact ⟨htrans hG hG', .cons (hkeep a b t s' hR hG') hrest⟩

theorem Finishes.unique {a b : α} {t : σ} (h : Finishes x s a s') (h' : Finishes x s b t) : a = b ∧ s' = t := by
  have heq : ((Except.ok a, s') : Except ε α × σ) = (.ok b, t) := h.symm.trans h'
  simpa using heq

theorem mapError_eq_ok_iff {ε ε' : Type} {g : ε → ε'} {x : Outcome ε α} {a : α} :
    Outcome.mapError g x = .ok a ↔ x = .ok a := by
  rcases x with ⟨_ | e⟩ | b <;> simp [Outcome.mapError]

theorem finishes_mapError_iff {ε ε' : Type} {g : ε → ε'} {x : ExceptT (Failure ε) (StateM σ) α} {a : α} :
    Finishes (fun s => (Outcome.mapError g (x s).1, (x s).2) : ExceptT (Failure ε') (StateM σ) α) s a s' ↔
      Finishes x s a s' := by
  show ((Outcome.mapError g (x s).1, (x s).2) : Outcome ε' α × σ) = (.ok a, s') ↔ (x s : Outcome ε α × σ) = (.ok a, s')
  rw [Prod.ext_iff, Prod.ext_iff, mapError_eq_ok_iff]

/-- Whether a property of the state still holds after a step, which may have failed. -/
def Keeps (P : σ → Prop) (x : ExceptT ε (StateM σ) α) : Prop := ∀ s, P s → P (x s).2

variable {P : σ → Prop}

theorem Keeps.of_finishes (h : Keeps P x) (hs : P s) {a : α} (hrun : Finishes x s a s') : P s' := by
  have hkept := h s hs
  rwa [hrun] at hkept

theorem keeps_pure (a : α) : Keeps P (pure a : ExceptT ε (StateM σ) α) := fun _ hs => hs

theorem keeps_throw (e : ε) : Keeps P (throw e : ExceptT ε (StateM σ) α) := fun _ hs => hs

theorem keeps_get : Keeps P (get : ExceptT ε (StateM σ) σ) := fun _ hs => hs

theorem keeps_modify {g : σ → σ} (h : ∀ s, P s → P (g s)) : Keeps P (modify g : ExceptT ε (StateM σ) PUnit) := h

theorem Keeps.bind_of {Q : α → Prop} (hx : Keeps P x) (hQ : ∀ s a t, P s → Finishes x s a t → Q a)
    (hf : ∀ a, Q a → Keeps P (f a)) : Keeps P (x >>= f) := by
  intro s hs
  rcases hrun : x s with ⟨e | a, t⟩
  · have hkept := hx s hs
    rw [hrun] at hkept
    rw [bind_apply_of_error hrun]
    exact hkept
  · rw [bind_apply_of_finishes hrun]
    exact hf a (hQ s a t hs hrun) t (hx.of_finishes hs hrun)

theorem Keeps.bind (hx : Keeps P x) (hf : ∀ a, Keeps P (f a)) : Keeps P (x >>= f) :=
  hx.bind_of (fun _ _ _ _ _ => trivial) fun a _ => hf a

theorem keeps_forM {g : α → ExceptT ε (StateM σ) PUnit} {as : List α} (h : ∀ a ∈ as, Keeps P (g a)) :
    Keeps P (as.forM g) := by
  induction as with
  | nil => exact keeps_pure _
  | cons a as ih =>
    rw [List.forM_eq_forM, List.forM_cons]
    exact (h a List.mem_cons_self).bind fun _ => ih fun b hb => h b (List.mem_cons_of_mem a hb)

theorem keeps_foldlM {g : β → α → ExceptT ε (StateM σ) β} {as : List α} (h : ∀ b, ∀ a ∈ as, Keeps P (g b a)) (b : β) :
    Keeps P (as.foldlM g b) := by
  induction as generalizing b with
  | nil => exact keeps_pure b
  | cons a as ih =>
    rw [List.foldlM_cons]
    exact (h b a List.mem_cons_self).bind fun c => ih (fun b' a' ha' => h b' a' (List.mem_cons_of_mem a ha')) c

theorem keeps_mapM {g : α → ExceptT ε (StateM σ) β} {as : List α} (h : ∀ a, Keeps P (g a)) : Keeps P (as.mapM g) := by
  induction as with
  | nil => exact keeps_pure []
  | cons a as ih =>
    rw [List.mapM_cons]
    exact (h a).bind fun b => ih.bind fun bs => keeps_pure (b :: bs)

/-! ### Where steps lead -/

/-- Whether a step, however it ends, only makes changes that `S` allows, and its result and the state it leaves satisfy `Q`. -/
def Leads (S : σ → σ → Prop) (x : ExceptT ε (StateM σ) α) (s : σ) (Q : α → σ → Prop) : Prop :=
  ReflTransGen S s (x s).2 ∧ ∀ a s', Finishes x s a s' → Q a s'

variable {S : σ → σ → Prop} {Q : α → σ → Prop} {R : β → σ → Prop}

theorem leads_pure {a : α} (h : Q a s) : Leads S (pure a : ExceptT ε (StateM σ) α) s Q := by
  refine ⟨.refl, fun b s' hrun => ?_⟩
  obtain ⟨rfl, rfl⟩ := finishes_pure_iff.1 hrun
  exact h

theorem leads_throw (e : ε) : Leads S (throw e : ExceptT ε (StateM σ) α) s Q :=
  ⟨.refl, fun _ _ hrun => absurd hrun (not_finishes_throw e)⟩


theorem leads_of_finishes {a : α} (hrun : Finishes x s a s') (hsteps : ReflTransGen S s s') (h : Q a s') :
    Leads S x s Q := by
  refine ⟨?_, fun b t hb => ?_⟩
  · rw [hrun]
    exact hsteps
  · obtain ⟨rfl, rfl⟩ := hrun.unique hb
    exact h

theorem leads_of_error {e : ε} (hrun : x s = (.error e, s)) : Leads S x s Q := by
  refine ⟨?_, fun b t hb => absurd hb (not_finishes_of_error hrun)⟩
  rw [hrun]

theorem Leads.imp {Q' : α → σ → Prop} (h : Leads S x s Q) (hQ : ∀ a t, Q a t → Q' a t) : Leads S x s Q' :=
  ⟨h.1, fun a t hrun => hQ a t (h.2 a t hrun)⟩

theorem Leads.lift {S' : σ → σ → Prop} (h : Leads S x s Q) (hS : ∀ s t, S s t → S' s t) : Leads S' x s Q :=
  ⟨ReflTransGen.mono hS _ _ h.1, h.2⟩

theorem Leads.bind (hx : Leads S x s Q) (hf : ∀ a t, ReflTransGen S s t → Q a t → Leads S (f a) t R) :
    Leads S (x >>= f) s R := by
  rcases hrun : x s with ⟨e | a, t⟩
  · have hstate := hx.1
    rw [hrun] at hstate
    refine ⟨by rw [bind_apply_of_error hrun]; exact hstate, fun b s' h => ?_⟩
    exact absurd h (not_finishes_of_error (bind_apply_of_error hrun))
  · have hstate := hx.1
    rw [hrun] at hstate
    have hrest := hf a t hstate (hx.2 a t hrun)
    have hsame : (x >>= f) s = f a t := bind_apply_of_finishes hrun
    refine ⟨by rw [hsame]; exact hstate.trans hrest.1, fun b s' h => ?_⟩
    rw [Finishes, hsame] at h
    exact hrest.2 b s' h

theorem leads_bind_of_same (hsame : (x s).2 = s) (hf : ∀ a, Finishes x s a s → Leads S (f a) s R) : Leads S (x >>= f) s R := by
  have hx : Leads S x s fun a t => t = s ∧ Finishes x s a s := by
    refine ⟨by rw [hsame], fun a t hrun => ?_⟩
    obtain rfl : t = s := by rw [← hsame, hrun]
    exact ⟨rfl, hrun⟩
  refine hx.bind ?_
  rintro a _ - ⟨rfl, hrun⟩
  exact hf a hrun

theorem leads_get_bind {f : σ → ExceptT ε (StateM σ) β} (h : Leads S (f s) s R) : Leads S (get >>= f) s R := by
  refine leads_bind_of_same rfl fun t hrun => ?_
  obtain ⟨rfl, -⟩ := finishes_get_iff.1 hrun
  exact h

theorem Leads.and_changes (hx : Leads S x s Q) : Leads S x s fun a t => ReflTransGen S s t ∧ Q a t := by
  refine ⟨hx.1, fun a t hrun => ⟨?_, hx.2 a t hrun⟩⟩
  have hstate := hx.1
  rwa [hrun] at hstate

theorem Leads.bind_of_le {S' : σ → σ → Prop} (hx : Leads S x s Q) (hS : ∀ s t, S s t → S' s t)
    (hf : ∀ a t, ReflTransGen S s t → Q a t → Leads S' (f a) t R) : Leads S' (x >>= f) s R :=
  (hx.and_changes.lift hS).bind fun a t _ ⟨hst, hQ⟩ => hf a t hst hQ

theorem keep_along {P : σ → Prop} (hkeep : ∀ s t, P s → S s t → P t) {t : σ} (hst : ReflTransGen S s t) (h : P s) :
    P t := by
  induction hst with
  | refl => exact h
  | tail _ hlast ih => exact hkeep _ _ ih hlast

/-- The results of steps one after the other, where changes keep what is known of a result. -/
theorem leads_mapM {T : α → β → σ → Prop} {g : α → ExceptT ε (StateM σ) β} {as : List α}
    (hkeep : ∀ a b s t, T a b s → S s t → T a b t)
    (hstep : ∀ a ∈ as, ∀ t, ReflTransGen S s t → Leads S (g a) t (T a)) :
    Leads S (as.mapM g) s fun bs t => List.Forall₂ (fun a b => T a b t) as bs := by
  induction as generalizing s with
  | nil => exact leads_pure .nil
  | cons a as ih =>
    rw [List.forall_mem_cons] at hstep
    rw [List.mapM_cons]
    refine (hstep.1 s .refl).bind fun b t hst hT => ?_
    refine (ih fun a' ha' u htu => hstep.2 a' ha' u (hst.trans htu)).bind fun bs u htu hrest => leads_pure ?_
    exact .cons (keep_along (hkeep a b) htu hT) hrest

end

namespace Action

variable {α : Type} {w w' : Workspace}

@[simp]
theorem finishes_need_iff {o : Option α} {a : α} : Finishes (need o) w a w' ↔ o = some a ∧ w = w' := by
  cases o with
  | none => simp [need, fault, not_finishes_throw]
  | some b => rw [need, finishes_pure_iff, Option.some.injEq]

@[simp]
theorem finishes_class'_iff {c : ClassId} {cls : Class} :
    Finishes (class' c) w cls w' ↔ w.registry.class? c = some cls ∧ w = w' := by
  rw [class', finishes_bind_iff]
  simp [finishes_get_iff, finishes_need_iff, and_comm]

theorem finishes_registry : Finishes registry w w.registry w := rfl

@[simp]
theorem finishes_registry_iff {r : Registry} : Finishes registry w r w' ↔ w.registry = r ∧ w = w' := by
  rw [registry, finishes_bind_iff]
  simp [finishes_get_iff, finishes_pure_iff, and_comm]

@[simp]
theorem finishes_ofExcept_iff {ε : Type} {f : ε → Error} {x : Except ε α} {a : α} :
    Finishes (ofExcept f x) w a w' ↔ x = .ok a ∧ w = w' := by
  cases x with
  | error e => simp [ofExcept, fail, not_finishes_throw]
  | ok b => rw [ofExcept, finishes_pure_iff, Except.ok.injEq]

@[simp]
theorem finishes_ite_fail_iff {p : Prop} [Decidable p] {action : Action α} {e : Error} {a : α} :
    Finishes (if p then action else fail e) w a w' ↔ p ∧ Finishes action w a w' := by
  split_ifs with hp <;> simp [hp, fail]

@[simp]
theorem finishes_onRegistry_iff {f : Registry → Registry} {u : Unit} :
    Finishes (onRegistry f) w u w' ↔ { w with registry := f w.registry } = w' := finishes_modify_iff

@[simp]
theorem finishes_within_iff {step : Step} {x : Action α} {a : α} : Finishes (within step x) w a w' ↔ Finishes x w a w' :=
  finishes_mapError_iff

@[simp]
theorem finishes_newType_iff {shape : Shape} {t : TypeId} :
    Finishes (newType shape) w t w' ↔
      (w.program.types.push shape).1 = t ∧ { w with program := (w.program.addType shape).2 } = w' := by
  show ((Except.ok (w.program.types.push shape).1, { w with program := (w.program.addType shape).2 }) :
    Except (Failure Error) TypeId × Workspace) = (.ok t, w') ↔ _
  rw [Prod.mk.injEq, Except.ok.injEq]

theorem finishes_layoutOf_iff {t : TypeId} {l : TypeLayout} :
    Finishes (layoutOf (some t)) w l w' ↔
      ∃ known, Finishes (Layout.layoutOf w.program.types w.target t) w.layouts l known ∧ { w with layouts := known } = w' := by
  have hrun : ∀ run : Outcome LayoutError TypeLayout × Layouts,
      ((Outcome.mapError Error.layout run.1, { w with layouts := run.2 }) : Outcome Error TypeLayout × Workspace) = (.ok l, w') ↔
        ∃ known, run = (.ok l, known) ∧ { w with layouts := known } = w' := by
    rintro ⟨result, known⟩
    simp only [Prod.mk.injEq, mapError_eq_ok_iff]
    exact ⟨fun ⟨hl, hw⟩ => ⟨known, ⟨hl, rfl⟩, hw⟩, fun ⟨_, ⟨hl, hk⟩, hw⟩ => ⟨hl, hk ▸ hw⟩⟩
  exact hrun (Layout.layoutOf w.program.types w.target t w.layouts)

section

variable {S : Workspace → Workspace → Prop} {Q : α → Workspace → Prop}

theorem leads_need {o : Option α} (h : ∀ a, o = some a → Q a w) : Leads S (need o) w Q := by
  cases o with
  | none => exact leads_throw _
  | some a => exact leads_pure (h a rfl)

theorem leads_ofExcept {ε : Type} {f : ε → Error} {x : Except ε α} (h : ∀ a, x = .ok a → Q a w) :
    Leads S (ofExcept f x) w Q := by
  cases x with
  | error e => exact leads_throw _
  | ok a => exact leads_pure (h a rfl)

section

variable {β : Type} {R : β → Workspace → Prop}

theorem leads_need_bind {o : Option α} {f : α → Action β} (h : ∀ a, o = some a → Leads S (f a) w R) :
    Leads S (need o >>= f) w R := by
  refine leads_bind_of_same ?_ fun a hrun => h a (finishes_need_iff.1 hrun).1
  cases o <;> rfl

theorem leads_class'_bind {c : ClassId} {f : Class → Action β}
    (h : ∀ cls, w.registry.class? c = some cls → Leads S (f cls) w R) : Leads S (class' c >>= f) w R := by
  rw [class', bind_assoc]
  exact leads_get_bind (leads_need_bind h)

theorem leads_registry_bind {f : Registry → Action β} (h : Leads S (f w.registry) w R) : Leads S (registry >>= f) w R := by
  refine leads_bind_of_same rfl fun r hrun => ?_
  obtain ⟨rfl, -⟩ := finishes_registry_iff.1 hrun
  exact h

theorem leads_ofExcept_bind {ε : Type} {g : ε → Error} {x : Except ε α} {f : α → Action β}
    (h : ∀ a, x = .ok a → Leads S (f a) w R) : Leads S (ofExcept g x >>= f) w R := by
  refine leads_bind_of_same ?_ fun a hrun => h a (finishes_ofExcept_iff.1 hrun).1
  cases x <;> rfl

end

theorem leads_mapError {g : Error → Error} {x : Action α} (h : Leads S x w Q) :
    Leads S (fun w => (Outcome.mapError g (x w).1, (x w).2) : Action α) w Q :=
  ⟨h.1, fun a w' hrun => h.2 a w' (finishes_mapError_iff.1 hrun)⟩

end

variable {P : Workspace → Prop}

theorem keeps_need (o : Option α) : Keeps P (need o) := by
  cases o with
  | none => exact keeps_throw _
  | some a => exact keeps_pure a

theorem keeps_class' (c : ClassId) : Keeps P (class' c) := keeps_get.bind fun _ => keeps_need _

theorem keeps_registry : Keeps P registry := keeps_get.bind fun _ => keeps_pure _

theorem keeps_ofExcept {ε : Type} (f : ε → Error) (x : Except ε α) : Keeps P (ofExcept f x) := by
  cases x with
  | error e => exact keeps_throw _
  | ok a => exact keeps_pure a

theorem keeps_within {step : Step} {x : Action α} (h : Keeps P x) : Keeps P (within step x) := h

theorem keeps_onRegistry {f : Registry → Registry} (h : ∀ w, P w → P { w with registry := f w.registry }) :
    Keeps P (onRegistry f) := h

theorem keeps_newType {shape : Shape} (h : ∀ w, P w → P { w with program := (w.program.addType shape).2 }) :
    Keeps P (newType shape) := h

theorem keeps_layoutOf {t : Option TypeId}
    (h : ∀ w t, P w → P { w with layouts := (Layout.layoutOf w.program.types w.target t w.layouts).2 }) :
    Keeps P (layoutOf t) :=
  (keeps_need t).bind fun t w hw => h w t hw

end Action

/-! ### Changes of one class -/

namespace Registry

theorem class?_modifyClass (r : Registry) (c d : ClassId) (f : Class → Class) :
    (r.modifyClass c f).class? d = if c = d then (r.class? d).map f else r.class? d := by
  rw [class?, modifyClass, Array.getElem?_modify]
  rfl

/-- Whether `r'` is `r` with `cls` in the place of the class `c`. -/
structure Updated (r : Registry) (c : ClassId) (cls : Class) (r' : Registry) : Prop where
  byName_eq : r'.byName = r.byName
  class?_eq : ∀ d, r'.class? d = if c = d then some cls else r.class? d

variable {r r' : Registry} {c : ClassId} {cls : Class}

theorem updated_modifyClass (h : r.class? c = some cls) (f : Class → Class) : r.Updated c (f cls) (r.modifyClass c f) where
  byName_eq := rfl
  class?_eq d := by
    rw [class?_modifyClass]
    split_ifs with hcd
    · rw [← hcd, h, Option.map_some]
    · rfl

theorem modifyClass_congr {f g : Class → Class} (h : ∀ cls, r.class? c = some cls → f cls = g cls) :
    r.modifyClass c f = r.modifyClass c g := by
  rw [modifyClass, modifyClass]
  congr 1
  apply Array.ext_getElem?
  intro d
  rw [Array.getElem?_modify, Array.getElem?_modify]
  split_ifs with hcd
  · subst hcd
    cases hcls : r.classes[c]? with
    | none => rfl
    | some cls => rw [Option.map_some, Option.map_some, h cls hcls]
  · rfl

theorem Updated.here (h : r.Updated c cls r') : r'.class? c = some cls := by rw [h.class?_eq, if_pos rfl]

theorem Updated.elsewhere (h : r.Updated c cls r') {d : ClassId} (hd : d ≠ c) : r'.class? d = r.class? d := by
  rw [h.class?_eq, if_neg hd.symm]

end Registry

end ClassAbi
