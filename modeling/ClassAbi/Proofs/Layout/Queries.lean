import ClassAbi.Proofs.Layout.Sized
import ClassAbi.Proofs.Type.Text

/-!
# Questions about layouts

Layouts and errors are remembered from question to question, also while the types around are still under computation. The
answer to a question does not depend on what is remembered: a type has a layout if and only if it is sized, and then it is
always the same; otherwise the first parts without a layout lead from it to the same obstacle, and the report is of the same
kind. A report spells the types that it is about. Where these are spelled without end there is no report.
-/

open Relation

namespace ClassAbi

variable {f : Failure LayoutError} {stack : List TypeId}

namespace TypeTable

/-- Whether all types that a type leads to can be spelled. -/
def Named (types : TypeTable) (t : TypeId) : Prop := ∀ t', types.Follows t t' → (types.text? t').isSome

end TypeTable

namespace Layout

variable {types : TypeTable} {target : Target} {t t' : TypeId} {known : Layouts}

/-- Whether a failure is the one to expect of a type: it is about the obstacle that the type leads to. -/
def Ends (types : TypeTable) (t : TypeId) : Failure LayoutError → Prop
  | .error (.unsized _) => ∃ u, types.Follows t u ∧ types.Unsized u ∧ types.Named u
  | .error (.recursive _ _) => ∃ u, types.Follows t u ∧ TransGen types.Next u u ∧ types.Named u
  | .fault => ∃ u, types.Follows t u ∧ types.Obstacle u ∧ ¬types.Named u

theorem Ends.head (hnext : types.Next t t') (h : Ends types t' f) : Ends types t f := by
  match f, h with
  | .error (.unsized _), ⟨u, hfollows, h⟩ => exact ⟨u, hfollows.head hnext, h⟩
  | .error (.recursive _ _), ⟨u, hfollows, h⟩ => exact ⟨u, hfollows.head hnext, h⟩
  | .fault, ⟨u, hfollows, h⟩ => exact ⟨u, hfollows.head hnext, h⟩

theorem Ends.exists_obstacle (h : Ends types t f) : ∃ u, types.Follows t u ∧ types.Obstacle u := by
  match f, h with
  | .error (.unsized _), ⟨u, hfollows, hu, _⟩ => exact ⟨u, hfollows, .inl hu⟩
  | .error (.recursive _ _), ⟨u, hfollows, hu, _⟩ => exact ⟨u, hfollows, .inr hu⟩
  | .fault, ⟨u, hfollows, hu, _⟩ => exact ⟨u, hfollows, hu⟩

theorem Ends.not_sized (h : Ends types t f) : ¬types.Sized t := by
  intro hsized
  obtain ⟨u, hfollows, hu⟩ := h.exists_obstacle
  obtain ⟨hunsized, hcycle⟩ := hsized u (ReflTransGen.mono (fun _ _ hnext => hnext.contains) _ _ hfollows)
  rcases hu with hu | hu
  · exact hunsized hu
  · exact hcycle (TransGen.mono (fun _ _ hnext => hnext.contains) _ _ hu)

def SameKind : Failure LayoutError → Failure LayoutError → Prop
  | .fault, .fault => True
  | .error e, .error e' => e.name = e'.name
  | _, _ => False

theorem Ends.sameKind {f' : Failure LayoutError} (h : Ends types t f) (h' : Ends types t f') : SameKind f f' := by
  have hnamed : ∀ {u u'}, types.Follows t u → types.Follows t u' → types.Obstacle u' → types.Named u → types.Named u' :=
    fun hu hu' hobstacle hnamed v hv => hnamed v ((TypeTable.follows_obstacle hu hu' hobstacle).trans hv)
  have hkind : ∀ {u u'}, types.Follows t u → types.Follows t u' → types.Unsized u → TransGen types.Next u' u' →
      False := by
    intro u u' hu hu' hunsized hcycle
    obtain ⟨v, hnext, -⟩ := TransGen.head'_iff.1 hcycle
    rw [← TypeTable.eq_of_follows_unsized hunsized (TypeTable.follows_obstacle hu hu' (.inr hcycle))] at hnext
    exact hnext.not_unsized hunsized
  match f, f', h, h' with
  | .fault, .fault, _, _ => exact trivial
  | .error (.unsized _), .error (.unsized _), _, _ => rfl
  | .error (.recursive _ _), .error (.recursive _ _), _, _ => rfl
  | .error (.unsized _), .error (.recursive _ _), ⟨_, hu, hunsized, _⟩, ⟨_, hu', hcycle, _⟩ =>
    exact (hkind hu hu' hunsized hcycle).elim
  | .error (.recursive _ _), .error (.unsized _), ⟨_, hu', hcycle, _⟩, ⟨_, hu, hunsized, _⟩ =>
    exact (hkind hu hu' hunsized hcycle).elim
  | .error (.unsized _), .fault, ⟨_, hu, _, hn⟩, ⟨_, hu', hobstacle, hnot⟩ =>
    exact absurd (hnamed hu hu' hobstacle hn) hnot
  | .error (.recursive _ _), .fault, ⟨_, hu, _, hn⟩, ⟨_, hu', hobstacle, hnot⟩ =>
    exact absurd (hnamed hu hu' hobstacle hn) hnot
  | .fault, .error (.unsized _), ⟨_, hu', hobstacle, hnot⟩, ⟨_, hu, _, hn⟩ =>
    exact absurd (hnamed hu hu' hobstacle hn) hnot
  | .fault, .error (.recursive _ _), ⟨_, hu', hobstacle, hnot⟩, ⟨_, hu, _, hn⟩ =>
    exact absurd (hnamed hu hu' hobstacle hn) hnot

/-! ### What is remembered -/

/-- Whether everything that is remembered is what a question would give. -/
structure Right (types : TypeTable) (target : Target) (known : Layouts) : Prop where
  layout : ∀ t l, known[t]? = some (.ok l) → ∃ d, types.Describes d t ∧ l = d.layout target
  error : ∀ t e, known[t]? = some (.error e) → Ends types t (.error e)

theorem right_empty : Right types target ∅ := ⟨by simp, by simp⟩

theorem Right.rightIn (h : Right types target known) (t : TypeId) : RightIn types target known t := by
  intro t' d _ hd
  rcases hknown : known[t']? with _ | e | l
  · exact .inl rfl
  · exact absurd hd.sized (h.error t' e hknown).not_sized
  · obtain ⟨d', hd', rfl⟩ := h.layout t' l hknown
    exact .inr (by rw [hd.unique hd'])

theorem Right.grows {known' : Layouts} (h : Right types target known) (hgrows : Grows types target known known') :
    Right types target known' := by
  refine ⟨fun t l hl => ?_, fun t e he => ?_⟩
  · rcases hgrows t with heq | ⟨d, hd, heq⟩
    · exact h.layout t l (heq ▸ hl)
    · rw [heq] at hl
      cases hl
      exact ⟨d, hd, rfl⟩
  · rcases hgrows t with heq | ⟨d, hd, heq⟩
    · exact h.error t e (heq ▸ he)
    · rw [heq] at he
      cases he

theorem Right.insert_error (h : Right types target known) {e : LayoutError} (he : Ends types t (.error e)) :
    Right types target (known.insert t (.error e)) := by
  refine ⟨fun t' l hl => ?_, fun t' e' he' => ?_⟩
  all_goals rw [Std.HashMap.getElem?_insert] at *
  · split_ifs at hl with heq
    · cases hl
    · exact h.layout t' l hl
  · split_ifs at he' with heq
    · cases he'
      rwa [← beq_iff_eq.1 heq]
    · exact h.error t' e' he'

/-- Whether a computation for a type fails in the way that is to be expected, and leaves only right layouts. -/
def Stops (types : TypeTable) (target : Target) (t : TypeId) (action : Engine TypeLayout) (known : Layouts) : Prop :=
  ∃ f known', action known = (.error f, known') ∧ Ends types t f ∧ Right types target known'

theorem stops_remember {action : Engine TypeLayout} (h : Stops types target t action known) :
    Stops types target t (remember t action) known := by
  obtain ⟨f, known', hrun, hends, hright⟩ := h
  cases f with
  | fault => exact ⟨.fault, known', by rw [remember, hrun], hends, hright⟩
  | error e => exact ⟨.error e, _, by rw [remember, hrun], hends, hright.insert_error hends⟩

/-- Types whose text is wanted are spelled one after the other, unless one of them cannot be spelled. -/
theorem mapM_textOf (ts : List TypeId) (known : Layouts) :
    (∃ texts, ts.mapM (textOf types) known = (.ok texts, known) ∧ ∀ t ∈ ts, (types.text? t).isSome) ∨
      ts.mapM (textOf types) known = (.error .fault, known) ∧ ∃ t ∈ ts, types.text? t = none := by
  induction ts with
  | nil => exact .inl ⟨[], rfl, by simp⟩
  | cons t ts ih =>
    rw [List.mapM_cons]
    cases htext : types.text? t with
    | none =>
      refine .inr ⟨bind_apply_of_error ?_, t, List.mem_cons_self, htext⟩
      rw [textOf, htext]
      rfl
    | some text =>
      have hfirst : Finishes (textOf types t) known text known := by
        rw [textOf, htext]
        exact finishes_pure
      rw [bind_apply_of_finishes hfirst]
      rcases ih with ⟨texts, hrest, hall⟩ | ⟨hrest, t', ht', hnone⟩
      · refine .inl ⟨text :: texts, bind_apply_of_finishes hrest, List.forall_mem_cons.2 ⟨by rw [htext]; rfl, hall⟩⟩
      · exact .inr ⟨bind_apply_of_error hrest, t', List.mem_cons_of_mem t ht', hnone⟩

/-! ### Types on the stack -/

/-- Whether each type of a stack is followed by the one above it, and the topmost by `t`. -/
def Chained (types : TypeTable) (stack : List TypeId) (t : TypeId) : Prop :=
  (t :: stack).IsChain fun a b => types.Next b a

theorem Chained.push (h : Chained types stack t) (hnext : types.Next t t') : Chained types (t :: stack) t' :=
  List.isChain_cons_cons.2 ⟨hnext, h⟩

theorem Chained.not_sized (h : Chained types stack t) : ∀ s ∈ stack, ¬types.Sized s := by
  induction stack generalizing t with
  | nil => simp
  | cons s stack ih =>
    obtain ⟨hnext, hrest⟩ := List.isChain_cons_cons.1 h
    exact List.forall_mem_cons.2 ⟨hnext.not_sized, ih hrest⟩

theorem transGen_of_isChain {l : List TypeId} {z : TypeId} (h : (l ++ [z]).IsChain fun a b => types.Next b a) :
    ∀ v ∈ l, TransGen types.Next z v := by
  induction l with
  | nil => simp
  | cons a l ih =>
    rw [List.cons_append, List.isChain_cons] at h
    have hlater := ih h.2
    refine List.forall_mem_cons.2 ⟨?_, hlater⟩
    cases l with
    | nil => exact .single (h.1 z rfl)
    | cons b l => exact (hlater b List.mem_cons_self).tail (h.1 b rfl)

theorem exists_next_of_isChain {l : List TypeId} {a : TypeId} (h : (a :: l).IsChain fun a b => types.Next b a) :
    ∀ v ∈ l, ∃ w ∈ a :: l, types.Next v w := by
  induction l generalizing a with
  | nil => simp
  | cons b l ih =>
    obtain ⟨hnext, hrest⟩ := List.isChain_cons_cons.1 h
    refine List.forall_mem_cons.2 ⟨⟨a, List.mem_cons_self, hnext⟩, fun v hv => ?_⟩
    obtain ⟨w, hw, hfollow⟩ := ih hrest v hv
    exact ⟨w, List.mem_cons_of_mem a hw, hfollow⟩

/-- The types that are named when a type comes up again: it and those above it on the stack. -/
def cycleOf (stack : List TypeId) (t : TypeId) : List TypeId := t :: ((stack.takeWhile (· ≠ t)).reverse ++ [t])

/-- A type that comes up again leads to itself and to the types above it on the stack, and to no other. -/
theorem Chained.cycle (h : Chained types stack t) (hmem : t ∈ stack) :
    TransGen types.Next t t ∧ ∀ v, types.Follows t v ↔ v ∈ cycleOf stack t := by
  obtain ⟨above, below, rfl, habove⟩ := List.eq_append_cons_of_mem hmem
  have htake : (above ++ t :: below).takeWhile (· ≠ t) = above := by
    have hother : ∀ s ∈ above, decide (s ≠ t) = true := fun s hs => decide_eq_true fun heq => habove (heq ▸ hs)
    rw [List.takeWhile_append_of_pos hother, List.takeWhile_cons_of_neg (by simp), List.append_nil]
  have hcycle : ((t :: above) ++ [t]).IsChain fun a b => types.Next b a := by
    have hchain : (((t :: above) ++ [t]) ++ below).IsChain fun a b => types.Next b a := by
      rwa [List.append_assoc, List.singleton_append]
    exact hchain.left_of_append
  have hleads := transGen_of_isChain hcycle
  refine ⟨hleads t List.mem_cons_self, fun v => ?_⟩
  have hcycleOf : v ∈ cycleOf (above ++ t :: below) t ↔ v ∈ above ++ [t] := by
    rw [cycleOf, htake]
    simp [or_comm]
  rw [hcycleOf]
  clear hcycleOf
  constructor
  · intro hfollows
    induction hfollows with
    | refl => simp
    | tail _ hnext ih =>
      obtain ⟨w, hw, hnext'⟩ := exists_next_of_isChain hcycle _ ih
      rw [hnext.unique hnext']
      simpa [or_comm] using hw
  · intro hv
    rcases List.mem_append.1 hv with hv | hv
    · exact (hleads v (List.mem_cons_of_mem t hv)).to_reflTransGen
    · rw [List.mem_singleton.1 hv]

/-! ### Types without a layout -/

theorem layoutIn_apply_of_error {e : LayoutError} (h : known[t]? = some (.error e)) :
    layoutIn types target stack t known = (.error (.error e), known) := by
  have hget : Finishes (get : Engine Layouts) known known known := finishes_get
  rw [layoutIn, bind_apply_of_finishes hget, h]
  rfl

theorem layoutIn_apply_of_stacked (hnone : known[t]? = none) (hmem : t ∈ stack) :
    layoutIn types target stack t known = remember t (do
      let cycle ← (cycleOf stack t).mapM (textOf types)
      throw (.error (.recursive (← textOf types t) cycle))) known := by
  have hget : Finishes (get : Engine Layouts) known known known := finishes_get
  rw [layoutIn, bind_apply_of_finishes hget, hnone]
  dsimp only
  rw [dif_pos hmem]
  rfl

theorem stops_cycle (h : Chained types stack t) (hmem : t ∈ stack) (hknown : Right types target known) :
    Stops types target t (do
      let cycle ← (cycleOf stack t).mapM (textOf types)
      throw (.error (.recursive (← textOf types t) cycle))) known := by
  obtain ⟨hcycle, hfollows⟩ := h.cycle hmem
  rcases mapM_textOf (cycleOf stack t) known with ⟨texts, hrun, hall⟩ | ⟨hrun, v, hv, hnone⟩
  · have hnamed : types.Named t := fun v hv => hall v ((hfollows v).1 hv)
    obtain ⟨text, htext⟩ := Option.isSome_iff_exists.1 (hnamed t .refl)
    have hself : Finishes (textOf types t) known text known := by
      rw [textOf, htext]
      exact finishes_pure
    refine ⟨.error (.recursive text texts), known, ?_, ⟨t, .refl, hcycle, hnamed⟩, hknown⟩
    rw [bind_apply_of_finishes hrun, bind_apply_of_finishes hself]
    rfl
  · refine ⟨.fault, known, bind_apply_of_error hrun, ⟨t, .refl, .inr hcycle, fun hnamed => ?_⟩, hknown⟩
    have hsome := hnamed v ((hfollows v).2 hv)
    rw [hnone] at hsome
    cases hsome

theorem stops_unsized (h : types.Unsized t) (hknown : Right types target known) :
    Stops types target t (do throw (.error (.unsized (← textOf types t)))) known := by
  cases htext : types.text? t with
  | none =>
    have hself : textOf types t known = (.error .fault, known) := by
      rw [textOf, htext]
      rfl
    refine ⟨.fault, known, bind_apply_of_error hself, ⟨t, .refl, .inl h, fun hnamed => ?_⟩, hknown⟩
    have hsome := hnamed t .refl
    rw [htext] at hsome
    cases hsome
  | some text =>
    have hself : Finishes (textOf types t) known text known := by
      rw [textOf, htext]
      exact finishes_pure
    refine ⟨.error (.unsized text), known, ?_, ⟨t, .refl, h, fun v hv => ?_⟩, hknown⟩
    · rw [bind_apply_of_finishes hself]
      rfl
    · rw [← TypeTable.eq_of_follows_unsized h hv, htext]
      rfl

/-- A sized type has its layout, whatever types without one are on the stack. -/
theorem finishes_layoutIn_of_sized (hclosed : types.Closed) (ht : types.Has t) (hsized : types.Sized t)
    (hstack : ∀ s ∈ stack, ¬types.Sized s) (hknown : Right types target known) :
    ∃ d known', types.Describes d t ∧ Finishes (layoutIn types target stack t) known (d.layout target) known' ∧
      Right types target known' := by
  obtain ⟨d, hd⟩ := hclosed.exists_describes ht hsized
  obtain ⟨known', hrun, hgrows⟩ := finishes_layoutIn hd
    (fun t' hwithin hmem => hstack t' hmem (hsized.within hwithin)) (hknown.rightIn t)
  exact ⟨d, known', hd, hrun, hknown.grows hgrows⟩

theorem stops_join (join : Partial → TypeLayout → Partial) (hclosed : types.Closed) (hstack : ∀ s ∈ stack, ¬types.Sized s)
    {members : List Member} {before after : List (Option TypeId)}
    (hmembers : members.map Member.type = before ++ some t' :: after)
    (hbefore : ∀ r ∈ before, ∃ s, r = some s ∧ types.Has s ∧ types.Sized s)
    (hstops : ∀ known, Right types target known → Stops types target t' (layoutIn types target stack t') known)
    (hknown : Right types target known) (part : Partial) :
    ∃ f known', (members.foldlM (fun p m => do return join p (← contained m.type (layoutIn types target stack))) part :
      Engine Partial) known = (.error f, known') ∧ Ends types t' f ∧ Right types target known' := by
  induction before generalizing members known part with
  | nil =>
    obtain ⟨m, members, rfl, hm, -⟩ := List.map_eq_cons_iff.1 hmembers
    obtain ⟨f, known', hrun, hends, hright⟩ := hstops known hknown
    refine ⟨f, known', ?_, hends, hright⟩
    rw [List.foldlM_cons, hm]
    exact bind_apply_of_error (bind_apply_of_error hrun)
  | cons r before ih =>
    obtain ⟨m, members, rfl, hm, hrest⟩ := List.map_eq_cons_iff.1 hmembers
    rw [List.forall_mem_cons] at hbefore
    obtain ⟨s, rfl, hhas, hsized⟩ := hbefore.1
    obtain ⟨d, known1, -, hrun, hright⟩ := finishes_layoutIn_of_sized hclosed hhas hsized hstack hknown
    obtain ⟨f, known', hrun', hends, hright'⟩ := ih hrest hbefore.2 hright (join part (d.layout target))
    refine ⟨f, known', ?_, hends, hright'⟩
    have hfirst : Finishes (do return join part (← contained m.type (layoutIn types target stack))) known
        (join part (d.layout target)) known1 := by
      rw [hm]
      exact finishes_bind_iff.2 ⟨_, _, hrun, finishes_pure⟩
    rw [List.foldlM_cons, bind_apply_of_finishes hfirst]
    exact hrun'

theorem stops_computed (hclosed : types.Closed) (hstack : ∀ s ∈ stack, ¬types.Sized s) (hnext : types.Next t t')
    {shape : Shape} (hshape : types.shape? t = some shape)
    (hstops : ∀ known, Right types target known → Stops types target t' (layoutIn types target stack t') known)
    (hknown : Right types target known) : Stops types target t (computed types target stack t shape) known := by
  obtain ⟨shape', before, after, hshape', hparts, hsized, hnot⟩ := id hnext
  cases hshape.symm.trans hshape'
  have hbefore : ∀ r ∈ before, ∃ s, r = some s ∧ types.Has s ∧ types.Sized s := by
    intro r hr
    obtain ⟨s, rfl, hs⟩ := hsized r hr
    obtain ⟨s', hs', hhas⟩ := hclosed.part hshape (by rw [hparts]; exact List.mem_append_left _ hr)
    exact ⟨s, rfl, Option.some.inj hs' ▸ hhas, hs⟩
  cases shape with
  | struct name members =>
    obtain ⟨f, known', hrun, hends, hright⟩ := stops_join .append hclosed hstack hparts hbefore hstops hknown .empty
    exact ⟨f, known', bind_apply_of_error hrun, hends.head hnext, hright⟩
  | union name members =>
    obtain ⟨f, known', hrun, hends, hright⟩ := stops_join .overlay hclosed hstack hparts hbefore hstops hknown .empty
    exact ⟨f, known', bind_apply_of_error hrun, hends.head hnext, hright⟩
  | array elem length =>
    obtain ⟨f, known', hrun, hends, hright⟩ := hstops known hknown
    have helem : elem = some t' := by
      cases before with
      | nil => exact (List.cons.inj hparts).1
      | cons r before => simp [Shape.parts] at hparts
    subst helem
    exact ⟨f, known', bind_apply_of_error hrun, hends.head hnext, hright⟩
  | primitive mode | routine sig | unknown => simp [Shape.parts] at hparts

/-- A type that is not sized stops the computation at its obstacle, whatever is remembered. The induction is on the types that
are not on the stack. -/
theorem stops_layoutIn (hclosed : types.Closed) (ht : types.Has t) (hnot : ¬types.Sized t)
    (hstack : Chained types stack t) (hknown : Right types target known) :
    Stops types target t (layoutIn types target stack t) known := by
  induction hn : unvisited types.shapes.size stack using Nat.strong_induction_on generalizing stack t known with
  | _ n ih =>
    rcases hmemo : known[t]? with _ | e | l
    · by_cases hmem : t ∈ stack
      · rw [Stops, layoutIn_apply_of_stacked hmemo hmem]
        exact stops_remember (stops_cycle hstack hmem hknown)
      · obtain ⟨shape, hshape⟩ := ht.exists_shape
        rw [Stops, layoutIn_apply_of_fresh hmemo hmem hshape]
        refine stops_remember ?_
        by_cases hunsized : types.Unsized t
        · rcases id hunsized with ⟨sig, hrou⟩ | hunk
          · cases hshape.symm.trans hrou
            exact stops_unsized hunsized hknown
          · cases hshape.symm.trans hunk
            exact stops_unsized hunsized hknown
        · obtain ⟨t', hnext⟩ := hclosed.exists_next ht hnot hunsized
          obtain ⟨-, -, -, -, -, -, hnot'⟩ := id hnext
          refine stops_computed hclosed ?_ hnext hshape (fun known hknown => ?_) hknown
          · exact List.forall_mem_cons.2 ⟨hnot, hstack.not_sized⟩
          · exact ih _ (hn ▸ unvisited_cons_lt ht hmem) (hclosed.contains hnext.contains) hnot' (hstack.push hnext) hknown rfl
    · exact ⟨.error e, known, layoutIn_apply_of_error hmemo, hknown.error t e hmemo, hknown⟩
    · obtain ⟨d, hd, -⟩ := hknown.layout t l hmemo
      exact absurd hd.sized hnot

/-! ### Questions -/

/-- A question about a type. -/
inductive Query where
  | layout (t : TypeId)
  | size (t : TypeId)
  | align (t : TypeId)
  /-- The offset of a member. -/
  | offset (t : TypeId) (index : Int)
  deriving Repr, DecidableEq

/-- The answer to a question. -/
inductive Answer where
  | layout (l : TypeLayout)
  | number (n : Int)
  deriving Repr, DecidableEq

namespace Query

def type : Query → TypeId
  | layout t | size t | align t | offset t _ => t

def answer : Query → TypeLayout → Answer
  | layout _, l => .layout l
  | size _, l => .number l.size
  | align _, l => .number l.align
  | offset _ index, l => .number (l.offsetAt index)

def ask (types : TypeTable) (target : Target) (q : Query) : Engine Answer := do
  return q.answer (← layoutOf types target q.type)

/-- What is remembered after questions, whether or not they were answered. -/
def afterAll (types : TypeTable) (target : Target) (questions : List Query) : Layouts :=
  questions.foldl (fun known q => (q.ask types target known).2) ∅

end Query

/-- Whether two outcomes are the same up to the wording of an error. -/
def Alike {α : Type} : Outcome LayoutError α → Outcome LayoutError α → Prop
  | .ok a, .ok b => a = b
  | .error f, .error f' => SameKind f f'
  | _, _ => False

variable {q : Query}

theorem finishes_ask (hclosed : types.Closed) (hq : types.Has q.type) (hsized : types.Sized q.type)
    (hknown : Right types target known) :
    ∃ d known', types.Describes d q.type ∧ Finishes (q.ask types target) known (q.answer (d.layout target)) known' ∧
      Right types target known' := by
  have hstack : ∀ s ∈ ([] : List TypeId), ¬types.Sized s := by simp
  obtain ⟨d, known', hd, hrun, hright⟩ := finishes_layoutIn_of_sized hclosed hq hsized hstack hknown
  exact ⟨d, known', hd, finishes_bind_iff.2 ⟨_, _, hrun, finishes_pure⟩, hright⟩

theorem stops_ask (hclosed : types.Closed) (hq : types.Has q.type) (hnot : ¬types.Sized q.type)
    (hknown : Right types target known) :
    ∃ f known', q.ask types target known = (.error f, known') ∧ Ends types q.type f ∧ Right types target known' := by
  have hstack : Chained types [] q.type := List.isChain_singleton _
  obtain ⟨f, known', hrun, hends, hright⟩ := stops_layoutIn hclosed hq hnot hstack hknown
  exact ⟨f, known', bind_apply_of_error hrun, hends, hright⟩

theorem right_afterAll (hclosed : types.Closed) {questions : List Query} (hquestions : ∀ q ∈ questions, types.Has q.type) :
    Right types target (Query.afterAll types target questions) := by
  suffices hall : ∀ known, Right types target known →
      Right types target (questions.foldl (fun known q => (q.ask types target known).2) known) from hall ∅ right_empty
  induction questions with
  | nil => exact fun known hknown => hknown
  | cons q questions ih =>
    intro known hknown
    rw [List.forall_mem_cons] at hquestions
    refine ih hquestions.2 _ ?_
    dsimp only
    by_cases hsized : types.Sized q.type
    · obtain ⟨d, known', -, hrun, hright⟩ := finishes_ask hclosed hquestions.1 hsized hknown
      rwa [hrun]
    · obtain ⟨f, known', hrun, -, hright⟩ := stops_ask hclosed hquestions.1 hsized hknown
      rwa [hrun]

/-- Whether a type leads to an obstacle that cannot be reported, as a type that the report names is spelled without end. -/
def Unreportable (types : TypeTable) (t : TypeId) : Prop :=
  ∃ u, types.Follows t u ∧ types.Obstacle u ∧ ∃ v, types.Follows u v ∧ types.Endless v

theorem ends_fault_iff (hclosed : types.Closed) (ht : types.Has t) : Ends types t .fault ↔ Unreportable types t := by
  have hhas : ∀ {t}, types.Has t → ∀ {v}, types.Follows t v → types.Has v := by
    intro t ht v hfollows
    rcases hfollows.cases_tail with rfl | ⟨w, -, hnext⟩
    · exact ht
    · exact hclosed.contains hnext.contains
  refine exists_congr fun u => and_congr_right fun hu => and_congr_right fun _ => ?_
  rw [TypeTable.Named]
  push Not
  refine exists_congr fun v => and_congr_right fun hv => ?_
  rw [ne_eq, hclosed.isSome_text?_iff (hhas (hhas ht hu) hv), not_not]

/-- The answer to a question after others is that of an engine that was asked nothing before. There is an answer if and only
if the type is sized, and otherwise a report, unless a type that it names is spelled without end. -/
theorem ask_after_alike (hclosed : types.Closed) {earlier : List Query} (hquestions : ∀ p ∈ q :: earlier, types.Has p.type) :
    Alike (q.ask types target (Query.afterAll types target earlier)).1 (q.ask types target ∅).1 ∧
      ((∃ a, (q.ask types target (Query.afterAll types target earlier)).1 = .ok a) ↔ types.Sized q.type) ∧
      ((q.ask types target (Query.afterAll types target earlier)).1 = Outcome.fault ↔
        ¬types.Sized q.type ∧ Unreportable types q.type) := by
  rw [List.forall_mem_cons] at hquestions
  obtain ⟨hq, hearlier⟩ := hquestions
  have hknown := @right_afterAll types target hclosed earlier hearlier
  by_cases hsized : types.Sized q.type
  · obtain ⟨d, known', hd, hrun, -⟩ := finishes_ask hclosed hq hsized hknown
    obtain ⟨d', known0, hd', hfresh, -⟩ := finishes_ask hclosed hq hsized right_empty
    rw [hrun, hfresh, hd.unique hd']
    exact ⟨rfl, ⟨fun _ => hsized, fun _ => ⟨_, rfl⟩⟩, ⟨fun heq => absurd heq (by simp [Outcome.fault]), fun h => absurd hsized h.1⟩⟩
  · obtain ⟨f, known', hrun, hends, -⟩ := stops_ask hclosed hq hsized hknown
    obtain ⟨f', known0, hfresh, hends', -⟩ := stops_ask hclosed hq hsized right_empty
    rw [hrun, hfresh]
    refine ⟨hends.sameKind hends', ⟨fun ⟨a, ha⟩ => absurd ha (by simp), fun h => absurd h hsized⟩, ⟨fun heq => ?_, fun h => ?_⟩⟩
    · cases heq
      exact ⟨hsized, (ends_fault_iff hclosed hq).1 hends⟩
    · have hkind := hends.sameKind ((ends_fault_iff hclosed hq).2 h.2)
      cases f with
      | fault => rfl
      | error e => exact hkind.elim

/-- A struct that contains an array of itself, asked for after two others that have no layout. -/
theorem ask_after_alike_struct :
    let types := ((TypeTable.initial.push (.struct "s" [⟨"x", some 14⟩])).2.push (.array (some 13) 2)).2
    let earlier : List Query := [.size 14, .layout 12]
    types.Closed ∧ (∀ p ∈ Query.offset 13 0 :: earlier, types.Has p.type) ∧
      Alike (Query.ask types Target.linux64 (.offset 13 0) (Query.afterAll types Target.linux64 earlier)).1
        (Query.ask types Target.linux64 (.offset 13 0) ∅).1 := by
  intro types earlier
  have hclosed : types.Closed := TypeTable.closed_of_all (by decide)
  have hquestions : ∀ p ∈ Query.offset 13 0 :: earlier, types.Has p.type := by
    show ∀ p ∈ Query.offset 13 0 :: earlier, p.type < 15
    decide
  exact ⟨hclosed, hquestions, (ask_after_alike hclosed hquestions).1⟩

/-- An array that is its own element contains itself, and is not reported. -/
theorem self_element_not_reported :
    let types := (TypeTable.initial.push (.array (some 13) 3)).2
    types.Closed ∧ types.Has 13 ∧ ¬types.Sized 13 ∧ (Query.ask types Target.linux64 (.layout 13) ∅).1 = Outcome.fault := by
  intro types
  have hclosed : types.Closed := TypeTable.closed_of_all (by decide)
  have hhas : types.Has 13 := by
    show 13 < 14
    decide
  have hcontains : types.Contains 13 13 := .array rfl
  have hnot : ¬types.Sized 13 := fun hsized => (hsized 13 .refl).2 (.single hcontains)
  have hnext : types.Next 13 13 := ⟨_, [], [], rfl, rfl, by simp, hnot⟩
  have hendless : types.Endless 13 := ⟨13, .refl, .single (.inl ⟨3, rfl⟩)⟩
  have hreport : Unreportable types 13 := ⟨13, .refl, .inr (.single hnext), 13, .refl, hendless⟩
  obtain ⟨f, known', hrun, hends, -⟩ :=
    @stops_ask types Target.linux64 ∅ (.layout 13) hclosed hhas hnot right_empty
  refine ⟨hclosed, hhas, hnot, ?_⟩
  rw [hrun]
  have hkind := hends.sameKind ((ends_fault_iff hclosed hhas).2 hreport)
  cases f with
  | fault => rfl
  | error e => exact hkind.elim

end Layout

end ClassAbi
