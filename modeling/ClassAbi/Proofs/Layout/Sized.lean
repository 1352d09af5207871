import ClassAbi.Proofs.Layout.Engine

/-!
# Types with a size

In a table whose references all lead to types of the table, a type stands for a data type if and only if nothing inside of it
contains itself and everything inside of it has a size. A type for which this fails has a first part for which it fails, and
following these parts leads either to a type without a size or into a cycle.
-/

open Relation

namespace ClassAbi

variable {shape : Shape}

/-- What holds of a type if it holds of all that it leads to, provided that nothing it leads to leads back to itself. -/
theorem induction_of_acyclic {n : Nat} {R : Nat → Nat → Prop} {P : Nat → Prop} (hR : ∀ a b, R a b → b < n) {t : Nat} (ht : t < n)
    (hacyclic : ∀ t', ReflTransGen R t t' → ¬TransGen R t' t')
    (hstep : ∀ t', ReflTransGen R t t' → (∀ t'', R t' t'' → P t'') → P t') : P t := by
  -- The induction is on the entries that are not on the path to `t`.
  suffices hpath : ∀ (path : List Nat) (t' : Nat), ReflTransGen R t t' → t' < n →
      (∀ s ∈ path, TransGen R s t') → P t' from hpath [] t .refl ht (by simp)
  intro path
  induction hk : unvisited n path using Nat.strong_induction_on generalizing path with
  | _ k ih =>
    intro t' hreach hbound hpath
    have hfresh : t' ∉ path := fun hmem => hacyclic t' hreach (hpath t' hmem)
    refine hstep t' hreach fun t'' hnext => ?_
    refine ih _ (hk ▸ unvisited_cons_lt hbound hfresh) (t' :: path) rfl t'' (hreach.tail hnext) (hR _ _ hnext) ?_
    intro s hs
    rcases List.mem_cons.1 hs with rfl | hs
    · exact .single hnext
    · exact (hpath s hs).tail hnext

def Shape.parts : Shape → List (Option TypeId)
  | .struct _ members | .union _ members => members.map Member.type
  | .array elem _ => [elem]
  | .primitive _ | .routine _ | .unknown => []

def Shape.references : Shape → List (Option TypeId)
  | .routine sig => sig.params ++ sig.results
  | shape => shape.parts

namespace TypeTable

def Has (types : TypeTable) (t : TypeId) : Prop := t < types.shapes.size

/-- Whether all references of a table are to types of the table. -/
def Closed (types : TypeTable) : Prop :=
  ∀ t shape, types.shape? t = some shape → ∀ r ∈ shape.references, ∃ t', r = some t' ∧ types.Has t'

def Unsized (types : TypeTable) (t : TypeId) : Prop :=
  (∃ sig, types.shape? t = some (.routine sig)) ∨ types.shape? t = some .unknown

/-- Whether a type neither is nor contains, at any depth, a type without a size or one that contains itself. -/
def Sized (types : TypeTable) (t : TypeId) : Prop :=
  ∀ t', types.Within t t' → ¬types.Unsized t' ∧ ¬TransGen types.Contains t' t'

variable {types : TypeTable} {t t' t'' : TypeId}

theorem Has.exists_shape (h : types.Has t) : ∃ shape, types.shape? t = some shape :=
  ⟨_, Array.getElem?_eq_getElem h⟩

theorem contains_iff : types.Contains t t' ↔ ∃ shape, types.shape? t = some shape ∧ some t' ∈ shape.parts := by
  constructor
  · rintro (⟨hshape, hm, htype⟩ | ⟨hshape, hm, htype⟩ | hshape)
    · exact ⟨_, hshape, List.mem_map.2 ⟨_, hm, htype⟩⟩
    · exact ⟨_, hshape, List.mem_map.2 ⟨_, hm, htype⟩⟩
    · exact ⟨_, hshape, List.mem_singleton_self _⟩
  · rintro ⟨shape, hshape, hmem⟩
    cases shape with
    | struct name members =>
      obtain ⟨m, hm, htype⟩ := List.mem_map.1 hmem
      exact .struct hshape hm htype
    | union name members =>
      obtain ⟨m, hm, htype⟩ := List.mem_map.1 hmem
      exact .union hshape hm htype
    | array elem length => exact .array (List.mem_singleton.1 hmem ▸ hshape)
    | primitive mode | routine sig | unknown => exact absurd hmem List.not_mem_nil

theorem closed_of_all (h : types.shapes.toList.all fun shape => shape.references.all fun r => r.any (· < types.shapes.size)) :
    types.Closed := by
  intro t shape hshape r hr
  have hmem : shape ∈ types.shapes.toList := List.mem_of_getElem? (by rwa [Array.getElem?_toList])
  have hr := List.all_eq_true.1 (List.all_eq_true.1 h shape hmem) r hr
  obtain ⟨t', rfl, ht'⟩ := (Option.any_eq_true _ _).1 hr
  have hlt : t' < types.shapes.size := of_decide_eq_true ht'
  exact ⟨t', rfl, hlt⟩

theorem Closed.part (h : types.Closed) (hshape : types.shape? t = some shape) {r : Option TypeId} (hr : r ∈ shape.parts) :
    ∃ t', r = some t' ∧ types.Has t' := by
  refine h t shape hshape r ?_
  cases shape with
  | routine sig => exact absurd hr List.not_mem_nil
  | primitive mode | struct name members | union name members | array elem length | unknown => exact hr

theorem Closed.contains (h : types.Closed) (hcontains : types.Contains t t') : types.Has t' := by
  obtain ⟨shape, hshape, hmem⟩ := contains_iff.1 hcontains
  obtain ⟨t1, ht1, hhas⟩ := h.part hshape hmem
  exact Option.some.inj ht1 ▸ hhas

theorem Sized.contained (h : types.Sized t) (hcontains : types.Contains t t') : types.Sized t' :=
  fun t'' hwithin => h t'' (hwithin.head hcontains)

theorem Sized.within (h : types.Sized t) (hwithin : types.Within t t') : types.Sized t' :=
  fun t'' hrest => h t'' (hwithin.trans hrest)

theorem Describes.not_unsized {d : DataType} (h : types.Describes d t) : ¬types.Unsized t := by
  rintro (⟨sig, hshape⟩ | hshape)
  all_goals cases d <;> simp_all [Describes]

theorem Describes.sized {d : DataType} (h : types.Describes d t) : types.Sized t := by
  intro t' hwithin
  obtain ⟨d', hd', -⟩ := h.of_within hwithin
  refine ⟨hd'.not_unsized, fun hcycle => ?_⟩
  obtain ⟨t1, hcontains, hback⟩ := TransGen.head'_iff.1 hcycle
  exact hd'.not_within hcontains hback

theorem exists_describes_of_parts (hshape : types.shape? t = some shape) (hsized : ¬types.Unsized t)
    (hparts : ∀ r ∈ shape.parts, ∃ t' d, r = some t' ∧ types.Describes d t') : ∃ d, types.Describes d t := by
  have hall : ∀ members : List Member, (∀ r ∈ members.map Member.type, ∃ t' d, r = some t' ∧ types.Describes d t') →
      ∃ ds, types.DescribesAll ds members := by
    intro members hmembers
    induction members with
    | nil => exact ⟨[], trivial⟩
    | cons m members ih =>
      rw [List.map_cons, List.forall_mem_cons] at hmembers
      obtain ⟨t', d, ht', hd⟩ := hmembers.1
      obtain ⟨ds, hds⟩ := ih hmembers.2
      exact ⟨d :: ds, ⟨t', ht', hd⟩, hds⟩
  cases shape with
  | primitive mode => exact ⟨.scalar mode, hshape⟩
  | struct name members =>
    obtain ⟨ds, hds⟩ := hall members hparts
    exact ⟨.struct ds, name, members, hshape, hds⟩
  | union name members =>
    obtain ⟨ds, hds⟩ := hall members hparts
    exact ⟨.union ds, name, members, hshape, hds⟩
  | array elem length =>
    obtain ⟨t', d, rfl, hd⟩ := hparts elem (List.mem_singleton_self _)
    exact ⟨.array d length, t', hshape, hd⟩
  | routine sig => exact absurd (.inl ⟨sig, hshape⟩) hsized
  | unknown => exact absurd (.inr hshape) hsized

theorem Closed.exists_describes (h : types.Closed) (ht : types.Has t) (hsized : types.Sized t) : ∃ d, types.Describes d t := by
  refine induction_of_acyclic (P := fun t => ∃ d, types.Describes d t) (fun _ _ => h.contains) ht
    (fun t' hwithin => (hsized t' hwithin).2) ?_
  intro t' hwithin hparts
  have hhas : types.Has t' := by
    rcases hwithin.cases_tail with rfl | ⟨t1, -, hcontains⟩
    · exact ht
    · exact h.contains hcontains
  obtain ⟨shape, hshape⟩ := hhas.exists_shape
  refine exists_describes_of_parts hshape (hsized t' hwithin).1 fun r hr => ?_
  obtain ⟨t1, rfl, -⟩ := h.part hshape hr
  obtain ⟨d, hd⟩ := hparts t1 (contains_iff.2 ⟨shape, hshape, hr⟩)
  exact ⟨t1, d, rfl, hd⟩

/-! ### The first part without a layout -/

/-- Whether `t'` is the first part of `t` that has no layout. -/
def Next (types : TypeTable) (t t' : TypeId) : Prop :=
  ∃ shape before after, types.shape? t = some shape ∧ shape.parts = before ++ some t' :: after ∧
    (∀ r ∈ before, ∃ s, r = some s ∧ types.Sized s) ∧ ¬types.Sized t'

theorem Next.contains (h : types.Next t t') : types.Contains t t' := by
  obtain ⟨shape, before, after, hshape, hparts, -, -⟩ := h
  exact contains_iff.2 ⟨shape, hshape, by simp [hparts]⟩

theorem Next.not_sized (h : types.Next t t') : ¬types.Sized t := by
  obtain ⟨-, -, -, -, -, -, hnot⟩ := id h
  exact fun hsized => hnot (hsized.contained h.contains)

theorem Next.not_unsized (h : types.Next t t') : ¬types.Unsized t := by
  obtain ⟨shape, hshape, hmem⟩ := contains_iff.1 h.contains
  rintro (⟨sig, hother⟩ | hother)
  all_goals
    cases hshape.symm.trans hother
    exact List.not_mem_nil hmem

theorem Next.unique (h : types.Next t t') (h' : types.Next t t'') : t' = t'' := by
  obtain ⟨shape, before, after, hshape, hparts, hbefore, hnot⟩ := h
  obtain ⟨shape', before', after', hshape', hparts', hbefore', hnot'⟩ := h'
  cases hshape.symm.trans hshape'
  rw [hparts] at hparts'
  clear hparts hshape hshape'
  induction before generalizing before' with
  | nil =>
    cases before' with
    | nil => cases hparts'; rfl
    | cons r before' =>
      cases hparts'
      obtain ⟨s, hs, hsized⟩ := hbefore' _ List.mem_cons_self
      exact absurd (Option.some.inj hs ▸ hsized) hnot
  | cons r before ih =>
    cases before' with
    | nil =>
      cases hparts'
      obtain ⟨s, hs, hsized⟩ := hbefore _ List.mem_cons_self
      exact absurd (Option.some.inj hs ▸ hsized) hnot'
    | cons r' before' =>
      rw [List.forall_mem_cons] at hbefore hbefore'
      exact ih hbefore.2 before' hbefore'.2 (List.cons.inj hparts').2

theorem Closed.exists_next (h : types.Closed) (ht : types.Has t) (hnot : ¬types.Sized t) (hsized : ¬types.Unsized t) :
    ∃ t', types.Next t t' := by
  obtain ⟨shape, hshape⟩ := ht.exists_shape
  have hpart : ∃ r ∈ shape.parts, ∃ t', r = some t' ∧ ¬types.Sized t' := by
    by_contra hnone
    push Not at hnone
    obtain ⟨d, hd⟩ := exists_describes_of_parts hshape hsized fun r hr => by
      obtain ⟨t', rfl, hhas⟩ := h.part hshape hr
      obtain ⟨d, hd⟩ := h.exists_describes hhas (hnone _ hr t' rfl)
      exact ⟨t', d, rfl, hd⟩
    exact hnot hd.sized
  -- Parts are followed up to the first one that is not sized.
  suffices hlist : ∀ parts : List (Option TypeId), (∀ r ∈ parts, ∃ t', r = some t') →
      (∃ r ∈ parts, ∃ t', r = some t' ∧ ¬types.Sized t') → ∃ before t' after, parts = before ++ some t' :: after ∧
        (∀ r ∈ before, ∃ s, r = some s ∧ types.Sized s) ∧ ¬types.Sized t' by
    obtain ⟨before, t', after, hparts, hbefore, hfirst⟩ :=
      hlist shape.parts (fun r hr => (h.part hshape hr).imp fun _ hr => hr.1) hpart
    exact ⟨t', shape, before, after, hshape, hparts, hbefore, hfirst⟩
  intro parts
  induction parts with
  | nil => simp
  | cons r parts ih =>
    intro hpresent hexists
    rw [List.forall_mem_cons] at hpresent
    obtain ⟨t', rfl⟩ := hpresent.1
    by_cases hfirst : types.Sized t'
    · have hlater : ∃ r ∈ parts, ∃ t', r = some t' ∧ ¬types.Sized t' := by
        obtain ⟨r, hr, t1, rfl, ht1⟩ := hexists
        rcases List.mem_cons.1 hr with heq | hr
        · exact absurd hfirst (Option.some.inj heq ▸ ht1)
        · exact ⟨_, hr, t1, rfl, ht1⟩
      obtain ⟨before, t1, after, rfl, hbefore, ht1⟩ := ih hpresent.2 hlater
      exact ⟨some t' :: before, t1, after, rfl, List.forall_mem_cons.2 ⟨⟨t', rfl, hfirst⟩, hbefore⟩, ht1⟩
    · exact ⟨[], t', parts, rfl, by simp, hfirst⟩

/-! ### Where the first parts lead -/

/-- Whether following first parts without a layout leads from the first type to the second one. -/
abbrev Follows (types : TypeTable) : TypeId → TypeId → Prop := ReflTransGen types.Next

theorem next_rightUnique : Relator.RightUnique types.Next := fun _ _ _ h h' => h.unique h'

theorem follows_back (hcycle : TransGen types.Next t t) (h : types.Follows t t') : types.Follows t' t := by
  induction h with
  | refl => exact .refl
  | @tail b c hb hnext ih =>
    rcases ih.cases_head with rfl | ⟨c', hnext', hrest⟩
    · obtain ⟨c', hnext', hrest⟩ := TransGen.head'_iff.1 hcycle
      rwa [hnext.unique hnext']
    · rwa [hnext.unique hnext']

/-- Whether a type is an obstacle to a layout: it has no size, or it comes up again. -/
def Obstacle (types : TypeTable) (t : TypeId) : Prop := types.Unsized t ∨ TransGen types.Next t t

theorem eq_of_follows_unsized (hunsized : types.Unsized t) (h : types.Follows t t') : t = t' := by
  rcases h.cases_head with rfl | ⟨c, hnext, -⟩
  · rfl
  · exact absurd hunsized hnext.not_unsized

theorem follows_obstacle {u u' : TypeId} (h : types.Follows t u) (h' : types.Follows t u')
    (hu' : types.Obstacle u') : types.Follows u u' := by
  rcases ReflTransGen.total_of_right_unique next_rightUnique h h' with hlead | hlead
  · exact hlead
  · rcases hu' with hunsized | hcycle
    · rw [eq_of_follows_unsized hunsized hlead]
    · exact follows_back hcycle hlead

end TypeTable

end ClassAbi
