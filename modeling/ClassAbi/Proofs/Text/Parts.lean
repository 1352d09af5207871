import ClassAbi.Text.Basic
import Mathlib

/-!
# Parts of texts

`after?` recognises what a text begins with, and `split` and `join` are inverse on parts that do not hold the separator.
The lemmas here are the only ones that look into these functions.
-/

namespace ClassAbi.Text

/-! ### The start of a text -/

@[simp] theorem after?_append (p t : Text) : after? p (p ++ t) = some t := by
  induction p with
  | nil => rfl
  | cons a p ih => simp [after?, ih]

theorem after?_eq_some_iff {p t r : Text} : after? p t = some r ↔ t = p ++ r := by
  refine ⟨fun h => ?_, fun h => h ▸ after?_append p r⟩
  induction p generalizing t with
  | nil => simpa [after?] using h
  | cons a p ih =>
    cases t with
    | nil => simp [after?] at h
    | cons b t =>
      rw [after?] at h
      split_ifs at h with hab
      rw [hab, List.cons_append, ih h]

theorem after?_eq_none_iff {p t : Text} : after? p t = none ↔ ∀ r, t ≠ p ++ r := by
  refine ⟨fun h r ht => ?_, fun h => ?_⟩
  · rw [after?_eq_some_iff.2 ht] at h
    cases h
  · cases hr : after? p t with
    | none => rfl
    | some r => exact absurd (after?_eq_some_iff.1 hr) (h r)

@[simp] theorem dropStart_append (p t : Text) : dropStart p (p ++ t) = t := by
  simp [dropStart]

theorem startsWith_iff {p t : Text} : t.startsWith p = true ↔ ∃ r, t = p ++ r := by
  rw [startsWith, List.isPrefixOf_iff_prefix]
  exact ⟨fun ⟨r, h⟩ => ⟨r, h.symm⟩, fun ⟨r, h⟩ => ⟨r, h.symm⟩⟩

/-! ### Runs of bytes -/

section

variable {f : UInt8 → Bool} {s t : Text}

theorem takeWhile_run (hs : ∀ b ∈ s, f b = true) (ht : ∀ b, t.head? = some b → f b = false) :
    (s ++ t).takeWhile f = s := by
  rw [List.takeWhile_append_of_pos hs]
  cases t with
  | nil => simp
  | cons b t => simp [ht b rfl]

theorem dropWhile_run (hs : ∀ b ∈ s, f b = true) (ht : ∀ b, t.head? = some b → f b = false) :
    (s ++ t).dropWhile f = t := by
  rw [List.dropWhile_append_of_pos hs]
  cases t with
  | nil => rfl
  | cons b t => simp [ht b rfl]

end

/-! ### The first occurrence of a byte -/

section

variable {sep : UInt8} {p q t u : Text}

theorem takeWhile_ne_append (h : sep ∉ p) (t : Text) : (p ++ sep :: t).takeWhile (· != sep) = p :=
  takeWhile_run (fun b hb => bne_iff_ne.2 fun heq => h (heq ▸ hb)) (by simp)

theorem dropWhile_ne_append (h : sep ∉ p) (t : Text) : (p ++ sep :: t).dropWhile (· != sep) = sep :: t :=
  dropWhile_run (fun b hb => bne_iff_ne.2 fun heq => h (heq ▸ hb)) (by simp)

theorem not_mem_takeWhile_ne (sep : UInt8) (t : Text) : sep ∉ t.takeWhile (· != sep) := fun h => by
  simpa using List.mem_takeWhile_imp h

theorem eq_append_of_dropWhile_ne {b : UInt8} (h : t.dropWhile (· != sep) = b :: u) :
    t = t.takeWhile (· != sep) ++ sep :: u := by
  have hb := List.head?_dropWhile_not (· != sep) t
  rw [h] at hb
  obtain rfl : b = sep := by simpa using hb
  rw [← h, List.takeWhile_append_dropWhile]

theorem cut?_eq_some_iff : cut? sep t = some (p, u) ↔ sep ∉ p ∧ t = p ++ sep :: u := by
  rw [cut?]
  constructor
  · intro h
    split at h
    · cases h
    · next hdrop =>
      cases h
      exact ⟨not_mem_takeWhile_ne sep t, eq_append_of_dropWhile_ne hdrop⟩
  · rintro ⟨hp, rfl⟩
    rw [dropWhile_ne_append hp, takeWhile_ne_append hp]

theorem append_sep_inj (hp : sep ∉ p) (hq : sep ∉ q) (h : p ++ sep :: t = q ++ sep :: u) : p = q ∧ t = u := by
  have hpq : p = q := by rw [← takeWhile_ne_append hp t, h, takeWhile_ne_append hq]
  subst hpq
  exact ⟨rfl, (List.cons.inj (List.append_cancel_left h)).2⟩

end

/-! ### Splitting and joining -/

variable {sep : UInt8} {p q t : Text} {parts : List Text}

theorem split_cons_sep (sep : UInt8) (t : Text) : split sep (sep :: t) = [] :: split sep t := by
  simp [split]

theorem split_ne_nil (sep : UInt8) (t : Text) : split sep t ≠ [] := by
  cases t with
  | nil => simp [split]
  | cons b t =>
    rw [split, List.foldr_cons]
    split_ifs
    · simp
    · split <;> simp

/-- A part that does not hold the separator is the first one of what begins with it and the separator. -/
theorem split_append_sep (h : sep ∉ p) (t : Text) : split sep (p ++ sep :: t) = p :: split sep t := by
  induction p with
  | nil => exact split_cons_sep sep t
  | cons b p ih =>
    rw [List.mem_cons, not_or] at h
    have hp := ih h.2
    rw [split] at hp
    rw [split, List.cons_append, List.foldr_cons, if_neg (Ne.symm h.1), hp]

theorem split_of_not_mem (h : sep ∉ p) : split sep p = [p] := by
  induction p with
  | nil => rfl
  | cons b p ih =>
    rw [List.mem_cons, not_or] at h
    have hp := ih h.2
    rw [split] at hp
    rw [split, List.foldr_cons, if_neg (Ne.symm h.1), hp]

@[simp] theorem join_singleton (sep p : Text) : join sep [p] = p := by
  simp [join]

theorem join_cons_cons (sep p q : Text) (parts : List Text) :
    join sep (p :: q :: parts) = p ++ (sep ++ join sep (q :: parts)) := by
  simp [join]

theorem join_append (hne : parts ≠ []) {others : List Text} (hothers : others ≠ []) :
    join [sep] (parts ++ others) = join [sep] parts ++ sep :: join [sep] others := by
  obtain ⟨q, others, rfl⟩ := List.exists_cons_of_ne_nil hothers
  induction parts with
  | nil => exact absurd rfl hne
  | cons p parts ih =>
    cases parts with
    | nil => rw [List.singleton_append, join_cons_cons, join_singleton, List.singleton_append]
    | cons r parts =>
      rw [List.cons_append, List.cons_append, join_cons_cons, ← List.cons_append, ih (by simp), join_cons_cons]
      simp

theorem split_join (hne : parts ≠ []) (h : ∀ p ∈ parts, sep ∉ p) : split sep (join [sep] parts) = parts := by
  induction parts with
  | nil => exact absurd rfl hne
  | cons p parts ih =>
    cases parts with
    | nil => rw [join_singleton, split_of_not_mem (h p (by simp))]
    | cons q parts =>
      rw [join_cons_cons, List.singleton_append, split_append_sep (h p (by simp)),
        ih (by simp) fun r hr => h r (List.mem_cons_of_mem p hr)]

theorem exists_split (sep : UInt8) (t : Text) :
    ∃ parts, parts ≠ [] ∧ (∀ p ∈ parts, sep ∉ p) ∧ join [sep] parts = t := by
  induction t with
  | nil => exact ⟨[[]], by simp, by simp, rfl⟩
  | cons b t ih =>
    obtain ⟨parts, hne, hparts, rfl⟩ := ih
    obtain ⟨p, parts, rfl⟩ := List.exists_cons_of_ne_nil hne
    by_cases hb : b = sep
    · refine ⟨[] :: p :: parts, by simp, ?_, ?_⟩
      · simpa using hparts
      · rw [join_cons_cons, hb]
        rfl
    · refine ⟨(b :: p) :: parts, by simp, ?_, by simp [join]⟩
      intro q hq
      rcases List.mem_cons.1 hq with rfl | hq
      · rw [List.mem_cons, not_or]
        exact ⟨Ne.symm hb, hparts p (by simp)⟩
      · exact hparts q (List.mem_cons_of_mem p hq)

@[simp] theorem join_split (sep : UInt8) (t : Text) : join [sep] (split sep t) = t := by
  obtain ⟨parts, hne, hparts, rfl⟩ := exists_split sep t
  rw [split_join hne hparts]

theorem not_mem_of_mem_split (h : p ∈ split sep t) : sep ∉ p := by
  obtain ⟨parts, hne, hparts, rfl⟩ := exists_split sep t
  rw [split_join hne hparts] at h
  exact hparts p h

theorem subset_join {between : Text} (h : p ∈ parts) : p ⊆ join between parts := by
  induction parts with
  | nil => cases h
  | cons q parts ih =>
    cases parts with
    | nil =>
      rw [List.mem_singleton] at h
      rw [h, join_singleton]
      exact List.Subset.refl q
    | cons r parts =>
      rw [join_cons_cons]
      rcases List.mem_cons.1 h with rfl | h
      · exact List.subset_append_left _ _
      · exact List.subset_append_of_subset_right _ (List.subset_append_of_subset_right _ (ih h))

theorem subset_of_mem_split (h : p ∈ split sep t) : p ⊆ t := by
  have hsubset : p ⊆ join [sep] (split sep t) := subset_join h
  rwa [join_split] at hsubset

end ClassAbi.Text
