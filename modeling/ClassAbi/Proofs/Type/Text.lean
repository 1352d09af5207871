import ClassAbi.Proofs.Layout.Sized
import ClassAbi.Type.Text

/-!
# Types that can be spelled

The text of an array has the text of its elements in it, and that of a routine the texts of its parameters and results. In a
table whose references all lead to types of the table, a type has a text if and only if nothing that is spelled with it is
spelled with itself: while a type is being spelled, the types that it is spelled with are spelled inside it.
-/

open Relation

namespace ClassAbi.TypeTable

variable {types : TypeTable} {t t' : TypeId} {shape : Shape} {stack : List TypeId}

/-- Whether the text of the first type has that of the second one in it. -/
def Spells (types : TypeTable) (t t' : TypeId) : Prop :=
  (∃ length, types.shape? t = some (.array (some t') length)) ∨
    ∃ sig, types.shape? t = some (.routine sig) ∧ some t' ∈ sig.params ++ sig.results

/-- Whether a type is spelled without end, as it or a type that is spelled with it is spelled with itself. -/
def Endless (types : TypeTable) (t : TypeId) : Prop :=
  ∃ t', ReflTransGen types.Spells t t' ∧ TransGen types.Spells t' t'

theorem Closed.spells (h : types.Closed) (hspells : types.Spells t t') : types.Has t' := by
  have hreference : ∀ shape, types.shape? t = some shape → some t' ∈ shape.references → types.Has t' := by
    intro shape hshape hmem
    obtain ⟨t1, ht1, hhas⟩ := h t shape hshape _ hmem
    exact Option.some.inj ht1 ▸ hhas
  rcases hspells with ⟨length, hshape⟩ | ⟨sig, hshape, hmem⟩
  · exact hreference _ hshape (List.mem_singleton_self _)
  · exact hreference _ hshape hmem

/-! ### The types in a type -/

variable {spell : TypeId → Option (Option Text)}

theorem foldlM_spell {refs : List (Option TypeId)} {before : List Text} {result : Option (List Text)}
    (hrefs : ∀ r ∈ refs, ∃ t, r = some t ∧ ∀ text?, spell t = some text? → ∃ text, text? = some text)
    (h : refs.foldlM (fun (before : Option (List Text)) t =>
      match before, t with
      | some texts, some t => do return (← spell t).map (texts ++ [·])
      | _, _ => return none) (some before) = some result) :
    (∃ texts, result = some texts) ∧ ∀ t, some t ∈ refs → ∃ text, spell t = some (some text) := by
  induction refs generalizing before with
  | nil =>
    cases h
    exact ⟨⟨_, rfl⟩, by simp⟩
  | cons r refs ih =>
    rw [List.forall_mem_cons] at hrefs
    obtain ⟨t, rfl, htext⟩ := hrefs.1
    rw [List.foldlM_cons] at h
    cases hspell : spell t with
    | none => simp [hspell] at h
    | some text? =>
      obtain ⟨text, rfl⟩ := htext text? hspell
      simp only [hspell, Option.pure_def, Option.bind_eq_bind, Option.bind_some, Option.map_some] at h
      obtain ⟨htexts, hall⟩ := ih hrefs.2 h
      refine ⟨htexts, fun t' ht' => ?_⟩
      rcases List.mem_cons.1 ht' with heq | ht'
      · cases heq
        exact ⟨text, hspell⟩
      · exact hall t' ht'

theorem exists_foldlM_spell {refs : List (Option TypeId)} (hrefs : ∀ r ∈ refs, ∃ t text, r = some t ∧ spell t = some (some text))
    (before : List Text) :
    ∃ texts, refs.foldlM (fun (before : Option (List Text)) t =>
      match before, t with
      | some texts, some t => do return (← spell t).map (texts ++ [·])
      | _, _ => return none) (some before) = some (some texts) := by
  induction refs generalizing before with
  | nil => exact ⟨before, rfl⟩
  | cons r refs ih =>
    rw [List.forall_mem_cons] at hrefs
    obtain ⟨t, text, rfl, htext⟩ := hrefs.1
    obtain ⟨texts, hrest⟩ := ih hrefs.2 (before ++ [text])
    refine ⟨texts, ?_⟩
    rw [List.foldlM_cons]
    simpa [htext] using hrest

/-- In a closed table, a type of which the spelling ends has a text if the types in it have, and these are spelled. -/
theorem Closed.of_spelled (h : types.Closed) (hshape : types.shape? t = some shape)
    (htexts : ∀ t', types.Has t' → ∀ text?, spell t' = some text? → ∃ text, text? = some text) {result : Option Text}
    (hresult : spelled spell shape = some result) :
    (∃ text, result = some text) ∧ ∀ t', types.Spells t t' → ∃ text, spell t' = some (some text) := by
  have hspells : ∀ t', types.Spells t t' →
      (∃ length, shape = .array (some t') length) ∨ ∃ sig, shape = .routine sig ∧ some t' ∈ sig.params ++ sig.results := by
    rintro t' (⟨length, hshape'⟩ | ⟨sig, hshape', hmem⟩) <;> cases hshape.symm.trans hshape'
    · exact .inl ⟨length, rfl⟩
    · exact .inr ⟨sig, rfl, hmem⟩
  cases shape with
  | primitive mode | struct name members | union name members | unknown =>
    cases hresult
    exact ⟨⟨_, rfl⟩, fun t' ht' => by simpa using hspells t' ht'⟩
  | array elem length =>
    obtain ⟨elem, rfl, hhas⟩ := h t _ hshape elem (List.mem_singleton_self _)
    obtain ⟨inner, hinner, hresult⟩ := Option.bind_eq_some_iff.1 hresult
    obtain ⟨text, rfl⟩ := htexts elem hhas inner hinner
    cases hresult
    refine ⟨⟨_, rfl⟩, fun t' ht' => ?_⟩
    obtain ⟨_, hsame⟩ | ⟨_, hsame, -⟩ := hspells t' ht' <;> cases hsame
    exact ⟨text, hinner⟩
  | routine sig =>
    obtain ⟨texts, hfold, hresult⟩ := Option.bind_eq_some_iff.1 hresult
    have hrefs : ∀ r ∈ sig.params ++ sig.results,
        ∃ t', r = some t' ∧ ∀ text?, spell t' = some text? → ∃ text, text? = some text := by
      intro r hr
      obtain ⟨t', rfl, hhas⟩ := h t _ hshape r hr
      exact ⟨t', rfl, htexts t' hhas⟩
    obtain ⟨⟨texts, rfl⟩, hall⟩ := foldlM_spell hrefs hfold
    cases hresult
    refine ⟨⟨_, rfl⟩, fun t' ht' => ?_⟩
    obtain ⟨_, hsame⟩ | ⟨_, hsame, hmem⟩ := hspells t' ht' <;> cases hsame
    exact hall t' hmem

theorem Closed.exists_spelled (h : types.Closed) (hshape : types.shape? t = some shape)
    (hspells : ∀ t', types.Spells t t' → ∃ text, spell t' = some (some text)) : ∃ text, spelled spell shape = some (some text) := by
  cases shape with
  | primitive mode | struct name members | union name members | unknown => exact ⟨_, rfl⟩
  | array elem length =>
    obtain ⟨elem, rfl, -⟩ := h t _ hshape elem (List.mem_singleton_self _)
    obtain ⟨text, htext⟩ := hspells elem (.inl ⟨length, hshape⟩)
    exact ⟨_, Option.bind_eq_some_iff.2 ⟨_, htext, rfl⟩⟩
  | routine sig =>
    have hrefs : ∀ r ∈ sig.params ++ sig.results, ∃ t' text, r = some t' ∧ spell t' = some (some text) := by
      intro r hr
      obtain ⟨t', rfl, -⟩ := h t _ hshape r hr
      obtain ⟨text, htext⟩ := hspells t' (.inr ⟨sig, hshape, hr⟩)
      exact ⟨t', text, rfl, htext⟩
    obtain ⟨texts, htexts⟩ := exists_foldlM_spell hrefs []
    exact ⟨_, Option.bind_eq_some_iff.2 ⟨_, htexts, rfl⟩⟩

/-! ### A type inside others -/

theorem not_mem_of_spellingIn {result : Option Text} (h : types.spellingIn stack t = some result) : t ∉ stack := by
  intro hmem
  rw [spellingIn, dif_pos hmem] at h
  cases h

theorem spellingIn_of_shape (hfresh : t ∉ stack) (hshape : types.shape? t = some shape) :
    types.spellingIn stack t = spelled (types.spellingIn (t :: stack)) shape := by
  obtain ⟨hbound, hget⟩ := Array.getElem?_eq_some_iff.1 hshape
  rw [spellingIn, dif_neg hfresh, dif_pos hbound, hget]

theorem Closed.exists_text (h : types.Closed) (ht : types.Has t) {result : Option Text}
    (hspell : types.spellingIn stack t = some result) : ∃ text, result = some text := by
  induction hk : unvisited types.shapes.size stack using Nat.strong_induction_on generalizing stack t result with
  | _ k ih =>
    have hfresh := not_mem_of_spellingIn hspell
    obtain ⟨shape, hshape⟩ := ht.exists_shape
    rw [spellingIn_of_shape hfresh hshape] at hspell
    refine (h.of_spelled hshape (fun t' ht' text? htext => ?_) hspell).1
    exact ih _ (hk ▸ unvisited_cons_lt ht hfresh) ht' htext rfl

theorem Closed.spellingIn_of_spells (h : types.Closed) (ht : types.Has t) (hspells : types.Spells t t') {text : Text}
    (htext : types.spellingIn stack t = some (some text)) : ∃ text', types.spellingIn (t :: stack) t' = some (some text') := by
  obtain ⟨shape, hshape⟩ := ht.exists_shape
  rw [spellingIn_of_shape (not_mem_of_spellingIn htext) hshape] at htext
  exact (h.of_spelled hshape (fun t' ht' text? => h.exists_text ht') htext).2 t' hspells

/-- What is spelled with a type is spelled inside it. -/
theorem Closed.spellingIn_of_reach (h : types.Closed) (ht : types.Has t) (hreach : ReflTransGen types.Spells t t')
    {text : Text} (htext : types.spellingIn stack t = some (some text)) :
    types.Has t' ∧ ∃ stack' text', stack ⊆ stack' ∧ types.spellingIn stack' t' = some (some text') := by
  induction hreach with
  | refl => exact ⟨ht, stack, text, List.Subset.refl _, htext⟩
  | tail _ hspells ih =>
    obtain ⟨hhas, stack', text', hsubset, htext'⟩ := ih
    obtain ⟨text2, htext2⟩ := h.spellingIn_of_spells hhas hspells htext'
    exact ⟨h.spells hspells, _, text2, List.subset_cons_of_subset _ hsubset, htext2⟩

theorem Closed.not_endless (h : types.Closed) (ht : types.Has t) {text : Text} (htext : types.spellingIn [] t = some (some text)) :
    ¬types.Endless t := by
  rintro ⟨t', hreach, hcycle⟩
  obtain ⟨hhas, stack, text', -, htext'⟩ := h.spellingIn_of_reach ht hreach htext
  obtain ⟨t1, hspells, hback⟩ := TransGen.head'_iff.1 hcycle
  obtain ⟨text1, htext1⟩ := h.spellingIn_of_spells hhas hspells htext'
  obtain ⟨-, stack', text2, hsubset, htext2⟩ := h.spellingIn_of_reach (h.spells hspells) hback htext1
  exact not_mem_of_spellingIn htext2 (hsubset List.mem_cons_self)

theorem Closed.exists_spellingIn (h : types.Closed) (ht : types.Has t) (hnot : ¬types.Endless t) :
    ∃ text, types.spellingIn [] t = some (some text) := by
  -- The stack has none of the types that the type is spelled with.
  suffices hstack : ∀ stack : List TypeId, (∀ t', ReflTransGen types.Spells t t' → t' ∉ stack) →
      ∃ text, types.spellingIn stack t = some (some text) from hstack [] (by simp)
  refine induction_of_acyclic (P := fun t => ∀ stack : List TypeId, (∀ t', ReflTransGen types.Spells t t' → t' ∉ stack) →
    ∃ text, types.spellingIn stack t = some (some text)) (fun _ _ => h.spells) ht
    (fun t' hreach hcycle => hnot ⟨t', hreach, hcycle⟩) fun t' hreach ih stack hstack => ?_
  have hhas : types.Has t' := by
    rcases hreach.cases_tail with rfl | ⟨t1, -, hspells⟩
    · exact ht
    · exact h.spells hspells
  obtain ⟨shape, hshape⟩ := hhas.exists_shape
  rw [spellingIn_of_shape (hstack t' .refl) hshape]
  refine h.exists_spelled hshape fun t1 hspells => ih t1 hspells _ fun t2 hreach2 hmem => ?_
  rcases List.mem_cons.1 hmem with rfl | hmem
  · exact hnot ⟨t2, hreach, .head' hspells hreach2⟩
  · exact hstack t2 (.head hspells hreach2) hmem

theorem Closed.isSome_text?_iff (h : types.Closed) (ht : types.Has t) : (types.text? t).isSome ↔ ¬types.Endless t := by
  rw [text?]
  constructor
  · intro hsome
    obtain ⟨text, htext⟩ := Option.isSome_iff_exists.1 hsome
    exact h.not_endless ht (Option.join_eq_some_iff.1 htext)
  · intro hnot
    obtain ⟨text, htext⟩ := h.exists_spellingIn ht hnot
    rw [htext]
    rfl

end ClassAbi.TypeTable
