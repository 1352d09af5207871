import ClassAbi.Proofs.LinkerName.Path

/-!
# Members

The name of a member stands after the class path as a segment or as a token. A token is told apart from the segments around
it by what follows: a token ends before the closing `E`, and all but two tokens hold a dollar sign that their length does
not count. `readMember_flatten` reads the segments before a member, and `readMember_cases` says what any text was read as.
-/

namespace ClassAbi.LinkerName

variable {name : Text} {pieces : List Text}

open Ascii Text

/-! ### Tokens -/

section

variable {name token piece t u : Text}

theorem segmentOf_initializer : segmentOf "<clinit>" = initializerSegment := by cbv

theorem head?_upperE_ne_dollar (t : Text) : (upperE :: t).head? ≠ some dollar := fun h =>
  absurd (Option.some.inj h) (by decide)

theorem spells_initializerSegment : Spells initializerSegment "<clinit>" := by
  rw [← segmentOf_initializer]
  exact spells_segmentOf (by decide) ⟨by cbv, by decide⟩ (by rw [segmentOf_initializer]; decide)

theorem lookup_of_mem (h : (name, token) ∈ substitutions) : substitutions.lookup name = some token := by
  simp only [substitutions, List.mem_cons, List.not_mem_nil, or_false, Prod.mk.injEq] at h
  rcases h with ⟨rfl, rfl⟩ | ⟨rfl, rfl⟩ | ⟨rfl, rfl⟩ | ⟨rfl, rfl⟩ | ⟨rfl, rfl⟩ | ⟨rfl, rfl⟩ | ⟨rfl, rfl⟩ <;> rfl

theorem mem_of_lookup (h : substitutions.lookup name = some token) : (name, token) ∈ substitutions := by
  obtain ⟨l, r, heq, -⟩ := List.lookup_eq_some_iff.1 h
  rw [heq]
  simp

theorem readable_of_mem_substitutions (h : (name, token) ∈ substitutions) : ReadableIdent name := by
  simp only [substitutions, List.mem_cons, List.not_mem_nil, or_false, Prod.mk.injEq] at h
  rcases h with ⟨rfl, -⟩ | ⟨rfl, -⟩ | ⟨rfl, -⟩ | ⟨rfl, -⟩ | ⟨rfl, -⟩ | ⟨rfl, -⟩ | ⟨rfl, -⟩
  all_goals exact ⟨by cbv, by decide⟩

/-- A token is that of a constructor, that of a static initializer, or a segment and a dollar sign. -/
theorem token_cases (h : (name, token) ∈ substitutions) :
    token = ("C1" : Text) ∨ token = initializerSegment ∨
      ∃ ident, IsSegment (segmentOf ident) ∧ token = segmentOf ident ++ [dollar] := by
  simp only [substitutions, List.mem_cons, List.not_mem_nil, or_false, Prod.mk.injEq] at h
  rcases h with ⟨-, rfl⟩ | ⟨-, rfl⟩ | ⟨-, rfl⟩ | ⟨-, rfl⟩ | ⟨-, rfl⟩ | ⟨-, rfl⟩ | ⟨-, rfl⟩
  · exact .inl rfl
  · exact .inr (.inl rfl)
  · have hseg : segmentOf "and" = ("3and" : Text) := by cbv
    exact .inr (.inr ⟨"and", hseg ▸ ⟨by decide, by decide, by decide⟩, hseg ▸ rfl⟩)
  · have hseg : segmentOf "or" = ("2or" : Text) := by cbv
    exact .inr (.inr ⟨"or", hseg ▸ ⟨by decide, by decide, by decide⟩, hseg ▸ rfl⟩)
  · have hseg : segmentOf "not" = ("3not" : Text) := by cbv
    exact .inr (.inr ⟨"not", hseg ▸ ⟨by decide, by decide, by decide⟩, hseg ▸ rfl⟩)
  · have hseg : segmentOf "xor" = ("3xor" : Text) := by cbv
    exact .inr (.inr ⟨"xor", hseg ▸ ⟨by decide, by decide, by decide⟩, hseg ▸ rfl⟩)
  · have hseg : segmentOf "delete" = ("6delete" : Text) := by cbv
    exact .inr (.inr ⟨"delete", hseg ▸ ⟨by decide, by decide, by decide⟩, hseg ▸ rfl⟩)

theorem follows_token (h : (name, token) ∈ substitutions) (t : Text) : Follows (token ++ upperE :: t) := by
  rcases token_cases h with rfl | rfl | ⟨ident, -, rfl⟩
  · exact follows_cons (by decide) (by decide) (by decide)
  · rw [← segmentOf_initializer]
    exact follows_upperE.segmentOf_append _
  · rw [List.append_assoc]
    exact (follows_cons (by decide) (by decide) (by decide)).segmentOf_append ident

theorem eq_of_token_append (h : (name, token) ∈ substitutions) (hp : IsSegment piece) (hu : u.head? ≠ some dollar)
    (heq : token ++ upperE :: t = piece ++ u) : piece = initializerSegment ∧ token = piece ∧ u = upperE :: t := by
  rcases token_cases h with rfl | rfl | ⟨ident, hseg, rfl⟩
  · obtain ⟨b, r, rfl, hb⟩ := hp.exists_cons
    obtain ⟨rfl, -⟩ := List.cons.inj heq
    exact absurd hb (by decide)
  · obtain rfl := spells_initializerSegment.isSegment.eq_of_append hp heq
    exact ⟨rfl, rfl, (List.append_cancel_left heq).symm⟩
  · rw [List.append_assoc] at heq
    obtain rfl := hseg.eq_of_append hp heq
    exact absurd (congrArg List.head? (List.append_cancel_left heq)).symm hu

theorem readToken_append (h : (name, token) ∈ substitutions) (t : Text) :
    readToken (token ++ upperE :: t) = some (name, upperE :: t) := by
  simp only [substitutions, List.mem_cons, List.not_mem_nil, or_false, Prod.mk.injEq] at h
  rcases h with ⟨rfl, rfl⟩ | ⟨rfl, rfl⟩ | ⟨rfl, rfl⟩ | ⟨rfl, rfl⟩ | ⟨rfl, rfl⟩ | ⟨rfl, rfl⟩ | ⟨rfl, rfl⟩ <;> rfl

theorem token_of_readToken (h : readToken t = some (name, u)) :
    ∃ token r, (name, token) ∈ substitutions ∧ t = token ++ upperE :: r ∧ u = upperE :: r := by
  obtain ⟨⟨name', token⟩, hmem, hread⟩ := List.exists_of_findSome?_eq_some h
  simp only at hread
  split at hread
  · next r hafter =>
    cases hread
    exact ⟨token, r, hmem, after?_eq_some_iff.1 hafter, rfl⟩
  · cases hread

theorem readToken_segment (hp : IsSegment piece) (hu : u.head? ≠ some dollar)
    (hE : piece = initializerSegment → u.head? ≠ some upperE) : readToken (piece ++ u) = none := by
  cases hread : readToken (piece ++ u) with
  | none => rfl
  | some x =>
    obtain ⟨token, r, hmem, heq, -⟩ := token_of_readToken hread
    obtain ⟨hinit, -, rfl⟩ := eq_of_token_append hmem hp hu heq.symm
    exact absurd rfl (hE hinit)

end

/-! ### Reading up to the closing `E` -/

section

variable {whole t u : Text}

/-- How the segments of a member's name end: at an `E`, at a token before one, or at the end of the name. -/
inductive Ends : Text → Option Text → Text → Prop where
  | ended : Ends [] none []
  | segment (rest : Text) : Ends (upperE :: rest) none (upperE :: rest)
  | token {name token : Text} (h : (name, token) ∈ substitutions) (rest : Text) :
      Ends (token ++ upperE :: rest) (some name) (upperE :: rest)

/-- Whether a text that follows a segment makes it a part of the class path: it does not close the name, and does not turn
the segment into a token. -/
structure Continues (t : Text) : Prop where
  not_upperE : t.head? ≠ some upperE
  not_dollar : t.head? ≠ some dollar

theorem continues_of_isDigit {b : UInt8} (h : isDigit b = true) : Continues (b :: t) := by
  constructor
  all_goals
    rw [List.head?_cons, Ne, Option.some.injEq]
    rintro rfl
    exact absurd h (by decide)

theorem IsSegment.continues {piece : Text} (h : IsSegment piece) (t : Text) : Continues (piece ++ t) := by
  obtain ⟨b, r, rfl, hb⟩ := h.exists_cons
  exact continues_of_isDigit hb

theorem Overruns.continues (h : Overruns whole t) : Continues t := by
  obtain ⟨b, r, rfl, hb⟩ := h.exists_cons
  exact continues_of_isDigit hb

theorem Overruns.readToken_eq_none (h : Overruns whole t) : readToken t = none := by
  cases hread : readToken t with
  | none => rfl
  | some x =>
    obtain ⟨token, r, hmem, rfl, -⟩ := token_of_readToken hread
    rcases token_cases hmem with rfl | rfl | ⟨ident, hseg, rfl⟩
    · obtain ⟨b, s, hbs, hb⟩ := h.exists_cons
      obtain ⟨rfl, -⟩ := List.cons.inj hbs
      exact absurd hb (by decide)
    · exact absurd rfl (h.ne_append spells_initializerSegment.isSegment _)
    · exact absurd (List.append_assoc _ _ _) (h.ne_append hseg _)

theorem continues_token {token : Text} (h : (name, token) ∈ substitutions) (t : Text) : Continues (token ++ t) := by
  rcases token_cases h with rfl | rfl | ⟨ident, hseg, rfl⟩
  · exact ⟨fun h => absurd (Option.some.inj h) (by decide), fun h => absurd (Option.some.inj h) (by decide)⟩
  · exact spells_initializerSegment.isSegment.continues t
  · rw [List.append_assoc]
    exact hseg.continues _

theorem Continues.flatten_append (hall : ∀ p ∈ pieces, IsSegment p) (h : Continues u) :
    Continues (pieces.flatten ++ u) := by
  cases pieces with
  | nil => exact h
  | cons p pieces =>
    rw [List.flatten_cons, List.append_assoc]
    exact (hall p List.mem_cons_self).continues _

theorem readMember_cons {c : UInt8} (hc : c ≠ upperE) (htoken : readToken (c :: t) = none) :
    readMember whole (c :: t) = bare (readSegment whole (c :: t)) >>= fun x =>
      (fun y => (x.1 :: y.1, y.2)) <$> readMember whole x.2 := by
  rw [readMember.eq_3 whole c t hc, htoken]
  rcases readSegment whole (c :: t) with e | ⟨escaped, ⟨rest, h⟩⟩
  · rfl
  · simp only [bind, Except.bind, bare, Except.map]
    cases readMember whole rest <;> rfl

theorem readMember_step {piece : Text} (hp : IsSegment piece) (htoken : readToken (piece ++ u) = none) :
    readMember whole (piece ++ u) = (fun y => (body piece :: y.1, y.2)) <$> readMember whole u := by
  have hread := readSegment_append whole hp u
  obtain ⟨b, r, rfl, hb⟩ := hp.exists_cons
  rw [List.cons_append] at hread htoken ⊢
  rw [readMember_cons (ne_upperE_of_isDigit hb) htoken, hread]
  rfl

theorem readMember_of_token {c : UInt8} (hc : c ≠ upperE) {rest : Text} (htoken : readToken (c :: t) = some (name, rest)) :
    readMember whole (c :: t) = .ok ([], some name, rest) := by
  rw [readMember.eq_3 whole c t hc, htoken]

theorem readMember_of_ends {token : Option Text} {rest : Text} (h : Ends t token rest) :
    readMember whole t = .ok ([], token, rest) := by
  cases h with
  | ended => exact readMember.eq_1 whole
  | segment rest => exact readMember.eq_2 whole rest
  | @token name token h rest =>
    have hread := readToken_append h rest
    have hcont := continues_token h (upperE :: rest)
    obtain ⟨c, r, hcr⟩ := List.exists_cons_of_ne_nil (List.append_ne_nil_of_right_ne_nil token (List.cons_ne_nil upperE rest))
    rw [hcr] at hread hcont ⊢
    exact readMember_of_token (by simpa using hcont.not_upperE) hread

theorem readMember_flatten (hall : ∀ p ∈ pieces, IsSegment p) (h : Continues u) :
    readMember whole (pieces.flatten ++ u) = (fun y => (pieces.map body ++ y.1, y.2)) <$> readMember whole u := by
  induction pieces with
  | nil =>
    rw [List.flatten_nil, List.nil_append]
    cases readMember whole u <;> rfl
  | cons p pieces ih =>
    rw [List.forall_mem_cons] at hall
    have hrest := h.flatten_append hall.2
    rw [List.flatten_cons, List.append_assoc,
      readMember_step hall.1 (readToken_segment hall.1 hrest.not_dollar fun _ => hrest.not_upperE), ih hall.2]
    cases readMember whole u <;> rfl

theorem readMember_path_token (hall : ∀ p ∈ pieces, IsSegment p) {token : Text} (h : (name, token) ∈ substitutions)
    (rest : Text) :
    readMember whole (pieces.flatten ++ (token ++ upperE :: rest)) =
      .ok (pieces.map body, some name, upperE :: rest) := by
  rw [readMember_flatten hall (continues_token h _), readMember_of_ends (.token h rest)]
  simp [Functor.map, Except.map]

theorem readMember_path_segment (hall : ∀ p ∈ pieces, IsSegment p) {last : Text} (hlast : IsSegment last)
    (hinit : last ≠ initializerSegment) (rest : Text) :
    readMember whole (pieces.flatten ++ (last ++ upperE :: rest)) =
      .ok (pieces.map body ++ [body last], none, upperE :: rest) := by
  have htoken : readToken (last ++ upperE :: rest) = none :=
    readToken_segment hlast (head?_upperE_ne_dollar rest) fun h => absurd h hinit
  rw [readMember_flatten hall (hlast.continues _), readMember_step hlast htoken, readMember_of_ends (.segment rest)]
  rfl

theorem readMember_of_overruns (h : Overruns whole u) : readMember whole u = .fault := by
  have hread := readSegment_of_overruns h
  have htoken := h.readToken_eq_none
  obtain ⟨b, r, rfl, hb⟩ := h.exists_cons
  rw [readMember_cons (ne_upperE_of_isDigit hb) htoken, hread]
  rfl

theorem readMember_cases (whole t : Text) :
    (∃ (pieces : List Text) (u : Text) (token : Option Text) (rest : Text), (∀ p ∈ pieces, IsSegment p) ∧
      t = pieces.flatten ++ u ∧ Ends u token rest ∧ readMember whole t = .ok (pieces.map body, token, rest)) ∨
    (∃ (pieces : List Text) (u : Text), (∀ p ∈ pieces, IsSegment p) ∧ t = pieces.flatten ++ u ∧ Overruns whole u ∧
      readMember whole t = .fault) ∨
    ∃ e, readMember whole t = .fail e := by
  obtain ⟨n, hn⟩ : ∃ n, t.length = n := ⟨_, rfl⟩
  induction n using Nat.strongRecOn generalizing t with
  | ind n ih =>
    match t with
    | [] => exact .inl ⟨[], [], none, [], by simp, rfl, .ended, readMember_of_ends .ended⟩
    | c :: t =>
      by_cases hc : c = upperE
      · subst hc
        exact .inl ⟨[], _, none, _, by simp, rfl, .segment t, readMember_of_ends (.segment t)⟩
      cases htoken : readToken (c :: t) with
      | some x =>
        obtain ⟨token, r, hmem, heq, hrest⟩ := token_of_readToken htoken
        exact .inl ⟨[], c :: t, some x.1, x.2, by simp, rfl, heq ▸ hrest ▸ .token hmem r, readMember_of_token hc htoken⟩
      | none =>
        rcases readSegment_cases whole (c :: t) with ⟨p, r, hp, heq, hread⟩ | ⟨hover, -⟩ | ⟨-, -, e, hread⟩
        · have hlt : r.length < n := by
            rw [← hn, heq]
            exact hp.length_lt r
          rw [heq, readMember_step hp (heq ▸ htoken)]
          rcases ih r.length hlt r rfl with ⟨pieces, u, token, rest, hall, rfl, hends, h⟩ | ⟨pieces, u, hall, rfl, hover, h⟩ |
            ⟨e, h⟩
          · refine .inl ⟨p :: pieces, u, token, rest, List.forall_mem_cons.2 ⟨hp, hall⟩, by simp, hends, ?_⟩
            rw [h]
            rfl
          · refine .inr (.inl ⟨p :: pieces, u, List.forall_mem_cons.2 ⟨hp, hall⟩, by simp, hover, ?_⟩)
            rw [h]
            rfl
          · exact .inr (.inr ⟨e, by rw [h]; rfl⟩)
        · exact .inr (.inl ⟨[], c :: t, by simp, rfl, hover, readMember_of_overruns hover⟩)
        · refine .inr (.inr ⟨e, ?_⟩)
          rw [readMember_cons hc htoken, hread]
          rfl

end

end ClassAbi.LinkerName
