import ClassAbi.LinkerName.Decode
import ClassAbi.Proofs.LinkerName.Escape
import ClassAbi.Proofs.Outcome

/-!
# Reading segments

A segment is a length in decimal and as many bytes after it, the first of which is no digit (`IsSegment`). Reading a
segment finds one, reports an error, or reads outside the name, and `readSegment_cases` says which of the three happens
when. A sequence of segments up to an `E` is read as the identifiers that the segments spell, and a class path as these
identifiers between slashes.
-/

namespace ClassAbi.LinkerName

variable {t piece whole : Text}

open Ascii Text

def digitRun (t : Text) : Text := t.takeWhile isDigit

def body (t : Text) : Text := t.dropWhile isDigit

/-- Whether a text is a length and as many bytes. -/
structure IsSegment (piece : Text) : Prop where
  nonempty : body piece ≠ []
  length_body : (body piece).length = numeral (digitRun piece)
  fits : numeral (digitRun piece) < 2 ^ 63

/-- Whether the length at the rest `t` of the name `whole` is more than what follows it, and passes the range of a word when
it is added to the position after it. -/
structure Overruns (whole t : Text) : Prop where
  numbered : digitRun t ≠ []
  fits : numeral (digitRun t) < 2 ^ 63
  past : (body t).length < numeral (digitRun t)
  wraps : 2 ^ 63 ≤ position whole (body t) + numeral (digitRun t)

/-- Whether a segment spells an identifier. -/
structure Spells (piece ident : Text) : Prop where
  isSegment : IsSegment piece
  unescapes : unescape (body piece) = .ok ident

def segmentOf (ident : Text) : Text := ofNat (escaped ident).length ++ escaped ident

/-- What a reader gives, without the bound on the length of the rest. -/
def bare {α : Type} {shorter : Text → Prop} (outcome : Outcome DecodeError (α × { r : Text // shorter r })) :
    Outcome DecodeError (α × Text) :=
  outcome.map fun x => (x.1, x.2.1)

/-! ### Cutting off the digits -/

theorem digitRun_append_body (t : Text) : digitRun t ++ body t = t := List.takeWhile_append_dropWhile

theorem isDigit_of_mem_digitRun {b : UInt8} (h : b ∈ digitRun t) : isDigit b = true :=
  List.mem_takeWhile_imp h

theorem not_digitLed_body (t : Text) : ¬DigitLed (body t) := by
  rw [DigitLed, body]
  have h := List.head?_dropWhile_not isDigit t
  cases hb : (t.dropWhile isDigit).head? with
  | none => simp
  | some b =>
    rw [hb] at h
    simpa using h

section

variable {s t : Text}

theorem isDigit_eq_false_of_head? (h : ¬DigitLed t) : ∀ b, t.head? = some b → isDigit b = false := by
  intro b hb
  rw [DigitLed, hb] at h
  simpa using h

theorem digitRun_append (hs : ∀ b ∈ s, isDigit b = true) (ht : ¬DigitLed t) : digitRun (s ++ t) = s :=
  takeWhile_run hs (isDigit_eq_false_of_head? ht)

theorem body_append (hs : ∀ b ∈ s, isDigit b = true) (ht : ¬DigitLed t) : body (s ++ t) = t :=
  dropWhile_run hs (isDigit_eq_false_of_head? ht)

theorem IsSegment.digitRun_append (h : IsSegment piece) (r : Text) : digitRun (piece ++ r) = digitRun piece := by
  have hbody : ¬DigitLed (body piece ++ r) := (digitLed_append h.nonempty).not.2 (not_digitLed_body piece)
  conv_lhs => rw [← digitRun_append_body piece, List.append_assoc]
  exact LinkerName.digitRun_append (fun b hb => isDigit_of_mem_digitRun hb) hbody

theorem IsSegment.body_append (h : IsSegment piece) (r : Text) : body (piece ++ r) = body piece ++ r := by
  have hbody : ¬DigitLed (body piece ++ r) := (digitLed_append h.nonempty).not.2 (not_digitLed_body piece)
  conv_lhs => rw [← digitRun_append_body piece, List.append_assoc]
  exact LinkerName.body_append (fun b hb => isDigit_of_mem_digitRun hb) hbody

theorem IsSegment.digitRun_ne_nil (h : IsSegment piece) : digitRun piece ≠ [] := by
  intro hnil
  have hlen := h.length_body
  rw [hnil] at hlen
  exact h.nonempty (List.eq_nil_of_length_eq_zero hlen)

theorem IsSegment.eq_of_append {p q r u : Text} (hp : IsSegment p) (hq : IsSegment q) (h : p ++ r = q ++ u) : p = q := by
  have hrun : digitRun p = digitRun q := by rw [← hp.digitRun_append r, h, hq.digitRun_append]
  have hbody : body p ++ r = body q ++ u := by rw [← hp.body_append r, h, hq.body_append]
  have hlen : (body p).length = (body q).length := by rw [hp.length_body, hq.length_body, hrun]
  rw [← digitRun_append_body p, ← digitRun_append_body q, hrun, List.append_inj_left hbody hlen]

end

/-! ### Reading one segment -/

theorem isSegment_take (hpos : 0 < numeral (digitRun t)) (hfits : numeral (digitRun t) < 2 ^ 63)
    (hle : numeral (digitRun t) ≤ (body t).length) :
    IsSegment (digitRun t ++ (body t).take (numeral (digitRun t))) ∧
      body (digitRun t ++ (body t).take (numeral (digitRun t))) = (body t).take (numeral (digitRun t)) := by
  have hrest : ¬DigitLed ((body t).take (numeral (digitRun t))) := by
    rw [DigitLed, List.head?_take, if_neg (by omega)]
    exact not_digitLed_body t
  have hdigits : ∀ b ∈ digitRun t, isDigit b = true := fun b hb => isDigit_of_mem_digitRun hb
  have hlen : ((body t).take (numeral (digitRun t))).length = numeral (digitRun t) := List.length_take_of_le hle
  refine ⟨⟨?_, ?_, ?_⟩, body_append hdigits hrest⟩
  · rw [body_append hdigits hrest]
    exact List.ne_nil_of_length_pos (by omega)
  · rw [body_append hdigits hrest, digitRun_append hdigits hrest, hlen]
  · rwa [digitRun_append hdigits hrest]

theorem IsSegment.numeral_le {r : Text} (h : IsSegment piece) :
    0 < numeral (digitRun (piece ++ r)) ∧ numeral (digitRun (piece ++ r)) < 2 ^ 63 ∧
      numeral (digitRun (piece ++ r)) ≤ (body (piece ++ r)).length := by
  have hpos := List.length_pos_iff.2 h.nonempty
  rw [h.digitRun_append, h.body_append, List.length_append, ← h.length_body]
  exact ⟨hpos, h.length_body ▸ h.fits, Nat.le_add_right _ _⟩

theorem IsSegment.length_lt (h : IsSegment piece) (r : Text) : r.length < (piece ++ r).length := by
  have hpos := List.length_pos_iff.2 h.digitRun_ne_nil
  rw [← digitRun_append_body piece, List.length_append, List.length_append]
  omega

section

variable {t : Text}

theorem digitRun_ne_nil_of_pos (hpos : 0 < numeral (digitRun t)) : digitRun t ≠ [] := by
  intro hnil
  rw [hnil] at hpos
  exact absurd hpos (by decide)

theorem readSegment_of_numeral (whole : Text) (hpos : 0 < numeral (digitRun t)) (hfits : numeral (digitRun t) < 2 ^ 63) :
    bare (readSegment whole t) =
      if numeral (digitRun t) ≤ (body t).length then
        .ok ((body t).take (numeral (digitRun t)), (body t).drop (numeral (digitRun t)))
      else if 2 ^ 63 ≤ position whole (body t) + numeral (digitRun t) then .fault
      else errorAt whole (body t) .segmentPastEnd := by
  have hne := digitRun_ne_nil_of_pos hpos
  have hread : readNat 10 63 (t.takeWhile isDigit) = .ok (numeral (digitRun t)) :=
    readNat_of_lt hne (fun b hb => isDigit_of_mem_digitRun hb) hfits
  have hempty : ¬(t.takeWhile isDigit).isEmpty = true := fun h => hne (List.isEmpty_iff.1 h)
  obtain ⟨n, hn⟩ := Nat.exists_eq_succ_of_ne_zero hpos.ne'
  rw [hn] at hread ⊢
  unfold readSegment
  simp only [hempty, hread]
  by_cases hle : n + 1 ≤ (body t).length
  · have hlen : ((t.dropWhile isDigit).take (n + 1)).length = n + 1 := List.length_take_of_le hle
    simp only [hlen, Nat.lt_irrefl, ↓reduceIte]
    exact (if_pos hle).symm
  · have hlen : ((t.dropWhile isDigit).take (n + 1)).length < n + 1 := by
      rw [List.length_take]
      exact Nat.lt_of_le_of_lt (Nat.min_le_right _ _) (Nat.not_le.1 hle)
    simp only [hlen, ↓reduceIte]
    rw [if_neg hle]
    by_cases hwraps : 2 ^ 63 ≤ position whole (body t) + (n + 1)
    · exact (congrArg bare (if_pos hwraps)).trans (if_pos hwraps).symm
    · exact (congrArg bare (if_neg hwraps)).trans (if_neg hwraps).symm

/-- A text without a length in the range of a word at its front is reported as an error. -/
theorem readSegment_of_no_numeral (whole : Text) (h : ¬(0 < numeral (digitRun t) ∧ numeral (digitRun t) < 2 ^ 63)) :
    ∃ e, bare (readSegment whole t) = .fail e := by
  have hdigits : ∀ b ∈ digitRun t, isDigit b = true := fun b hb => isDigit_of_mem_digitRun hb
  unfold readSegment
  simp only
  split
  · exact ⟨_, rfl⟩
  next hempty =>
  have hne : digitRun t ≠ [] := fun hnil => hempty (List.isEmpty_iff.2 hnil)
  by_cases hfits : numeral (digitRun t) < 2 ^ 63
  · have hzero : numeral (digitRun t) = 0 := Nat.eq_zero_of_not_pos fun hpos => h ⟨hpos, hfits⟩
    have hread : readNat 10 63 (t.takeWhile isDigit) = .ok 0 := hzero ▸ readNat_of_lt hne hdigits hfits
    rw [hread]
    exact ⟨_, rfl⟩
  · obtain ⟨e, hread⟩ := readNat_of_le hdigits (Nat.not_lt.1 hfits)
    rw [show readNat 10 63 (t.takeWhile isDigit) = .error e from hread]
    exact ⟨_, rfl⟩

end

theorem readSegment_cases (whole t : Text) :
    (∃ piece r, IsSegment piece ∧ t = piece ++ r ∧ bare (readSegment whole t) = .ok (body piece, r)) ∨
    (Overruns whole t ∧ bare (readSegment whole t) = .fault) ∨
    ((∀ piece r, IsSegment piece → t ≠ piece ++ r) ∧ ¬Overruns whole t ∧ ∃ e, bare (readSegment whole t) = .fail e) := by
  by_cases hnumeral : 0 < numeral (digitRun t) ∧ numeral (digitRun t) < 2 ^ 63
  · obtain ⟨hpos, hfits⟩ := hnumeral
    rw [readSegment_of_numeral whole hpos hfits]
    by_cases hle : numeral (digitRun t) ≤ (body t).length
    · obtain ⟨hseg, hbody⟩ := isSegment_take hpos hfits hle
      refine .inl ⟨_, (body t).drop (numeral (digitRun t)), hseg, ?_, ?_⟩
      · rw [List.append_assoc, List.take_append_drop, digitRun_append_body]
      · rw [if_pos hle, hbody]
    have hnot : ∀ piece r, IsSegment piece → t ≠ piece ++ r := by
      rintro piece r h rfl
      exact hle h.numeral_le.2.2
    rw [if_neg hle]
    by_cases hwraps : 2 ^ 63 ≤ position whole (body t) + numeral (digitRun t)
    · exact .inr (.inl ⟨⟨digitRun_ne_nil_of_pos hpos, hfits, Nat.not_le.1 hle, hwraps⟩, if_pos hwraps⟩)
    · exact .inr (.inr ⟨hnot, fun h => hwraps h.wraps, _, if_neg hwraps⟩)
  · refine .inr (.inr ⟨fun piece r h heq => ?_, fun h => ?_, readSegment_of_no_numeral whole hnumeral⟩)
    · subst heq
      exact hnumeral ⟨h.numeral_le.1, h.numeral_le.2.1⟩
    · exact hnumeral ⟨Nat.zero_lt_of_lt h.past, h.fits⟩

theorem Overruns.ne_append (h : Overruns whole t) (hp : IsSegment piece) (r : Text) : t ≠ piece ++ r := by
  rintro rfl
  exact absurd h.past (Nat.not_lt.2 hp.numeral_le.2.2)

theorem readSegment_append (whole : Text) (h : IsSegment piece) (r : Text) :
    bare (readSegment whole (piece ++ r)) = .ok (body piece, r) := by
  rcases readSegment_cases whole (piece ++ r) with ⟨p, u, hp, heq, hread⟩ | ⟨hover, -⟩ | ⟨hnot, -, -⟩
  · obtain rfl : piece = p := h.eq_of_append hp heq
    obtain rfl : r = u := List.append_cancel_left heq
    exact hread
  · exact absurd rfl (hover.ne_append h r)
  · exact absurd rfl (hnot piece r h)

theorem readSegment_of_overruns (h : Overruns whole t) : bare (readSegment whole t) = .fault := by
  rcases readSegment_cases whole t with ⟨p, r, hp, rfl, -⟩ | ⟨-, hread⟩ | ⟨-, hnot, -⟩
  · exact absurd rfl (h.ne_append hp r)
  · exact hread
  · exact absurd h hnot

theorem IsSegment.exists_cons (h : IsSegment piece) : ∃ b r, piece = b :: r ∧ isDigit b = true := by
  obtain ⟨b, r, hrun⟩ := List.exists_cons_of_ne_nil h.digitRun_ne_nil
  refine ⟨b, r ++ body piece, ?_, isDigit_of_mem_digitRun (t := piece) (by rw [hrun]; simp)⟩
  conv_lhs => rw [← digitRun_append_body piece, hrun]
  rfl

theorem Overruns.exists_cons (h : Overruns whole t) : ∃ b r, t = b :: r ∧ isDigit b = true := by
  obtain ⟨b, r, hrun⟩ := List.exists_cons_of_ne_nil h.numbered
  refine ⟨b, r ++ body t, ?_, isDigit_of_mem_digitRun (t := t) (by rw [hrun]; simp)⟩
  conv_lhs => rw [← digitRun_append_body t, hrun]
  rfl

theorem ne_upperE_of_isDigit {b : UInt8} (h : isDigit b = true) : b ≠ upperE := by
  rintro rfl
  exact absurd h (by decide)

/-! ### Reading segments up to the closing `E` -/

section

variable {whole : Text}

theorem readSegments_cons {c : UInt8} (hc : c ≠ upperE) (t : Text) :
    bare (readSegments whole (c :: t)) = (do
      let (raw, rest) ← bare (readSegment whole (c :: t))
      let ident ← checked (unescape raw)
      let (idents, rest) ← bare (readSegments whole rest)
      return (ident :: idents, rest)) := by
  rw [readSegments.eq_3 whole c t hc]
  cases readSegment whole (c :: t) with
  | error e => rfl
  | ok x =>
    obtain ⟨raw, rest, h⟩ := x
    simp only [bare, Except.map, bind, Except.bind]
    cases checked (unescape raw) with
    | error e => rfl
    | ok ident => cases readSegments whole rest <;> rfl

theorem readSegments_step {ident : Text} (h : Spells piece ident) (u : Text) :
    bare (readSegments whole (piece ++ u)) = (bare (readSegments whole u)).map fun x => (ident :: x.1, x.2) := by
  have hread := readSegment_append whole h.isSegment u
  obtain ⟨b, r, rfl, hb⟩ := h.isSegment.exists_cons
  rw [List.cons_append] at hread ⊢
  rw [readSegments_cons (ne_upperE_of_isDigit hb), hread]
  simp only [bind, Except.bind, h.unescapes, checked]
  cases bare (readSegments whole u) <;> rfl

theorem readSegments_flatten {pieces idents : List Text} (h : List.Forall₂ Spells pieces idents) (u : Text) :
    bare (readSegments whole (pieces.flatten ++ u)) =
      (bare (readSegments whole u)).map fun x => (idents ++ x.1, x.2) := by
  induction h with
  | nil =>
    rw [List.flatten_nil, List.nil_append]
    cases bare (readSegments whole u) <;> rfl
  | cons hp _ ih =>
    rw [List.flatten_cons, List.append_assoc, readSegments_step hp, ih]
    cases bare (readSegments whole u) <;> rfl

theorem readSegments_upperE (r : Text) : bare (readSegments whole (upperE :: r)) = .ok ([], upperE :: r) :=
  congrArg bare (readSegments.eq_2 whole r)

theorem readSegments_of_overruns {u : Text} (h : Overruns whole u) : bare (readSegments whole u) = .fault := by
  have hread := readSegment_of_overruns h
  obtain ⟨b, r, rfl, hb⟩ := h.exists_cons
  rw [readSegments_cons (ne_upperE_of_isDigit hb), hread]
  rfl

theorem readSegments_cases (whole t : Text) :
    (∃ pieces idents r, List.Forall₂ Spells pieces idents ∧ t = pieces.flatten ++ upperE :: r ∧
      bare (readSegments whole t) = .ok (idents, upperE :: r)) ∨
    (∃ pieces idents u, List.Forall₂ Spells pieces idents ∧ t = pieces.flatten ++ u ∧ Overruns whole u ∧
      bare (readSegments whole t) = .fault) ∨
    ∃ e, bare (readSegments whole t) = .fail e := by
  obtain ⟨n, hn⟩ : ∃ n, t.length = n := ⟨_, rfl⟩
  induction n using Nat.strongRecOn generalizing t with
  | ind n ih =>
    match t with
    | [] => exact .inr (.inr ⟨_, congrArg bare (readSegments.eq_1 whole)⟩)
    | c :: t =>
      by_cases hc : c = upperE
      · subst hc
        exact .inl ⟨[], [], t, .nil, rfl, readSegments_upperE t⟩
      rcases readSegment_cases whole (c :: t) with ⟨p, r, hp, heq, hread⟩ | ⟨hover, -⟩ | ⟨-, -, e, hread⟩
      · cases hident : unescape (body p) with
        | error e =>
          refine .inr (.inr ⟨e, ?_⟩)
          rw [readSegments_cons hc, hread]
          simp only [bind, Except.bind, hident, checked]
          rfl
        | ok ident =>
          have hspells : Spells p ident := ⟨hp, hident⟩
          have hlt : r.length < n := by
            rw [← hn, heq]
            exact hp.length_lt r
          rw [heq, readSegments_step hspells]
          rcases ih r.length hlt r rfl with ⟨pieces, idents, u, hall, rfl, h⟩ | ⟨pieces, idents, u, hall, rfl, hover, h⟩ |
            ⟨e, h⟩
          · exact .inl ⟨p :: pieces, ident :: idents, u, .cons hspells hall, by simp, by rw [h]; rfl⟩
          · exact .inr (.inl ⟨p :: pieces, ident :: idents, u, .cons hspells hall, by simp, hover, by rw [h]; rfl⟩)
          · exact .inr (.inr ⟨e, by rw [h]; rfl⟩)
      · exact .inr (.inl ⟨[], [], c :: t, .nil, rfl, hover, readSegments_of_overruns hover⟩)
      · refine .inr (.inr ⟨e, ?_⟩)
        rw [readSegments_cons hc, hread]
        rfl

theorem readSegments_eq_ok_iff {rest : Text} {idents : List Text} :
    bare (readSegments whole t) = .ok (idents, rest) ↔
      ∃ pieces r, List.Forall₂ Spells pieces idents ∧ t = pieces.flatten ++ upperE :: r ∧ rest = upperE :: r := by
  constructor
  · intro h
    rcases readSegments_cases whole t with ⟨pieces, ids, r, hall, ht, hread⟩ | ⟨pieces, ids, u, -, -, -, hread⟩ | ⟨e, hread⟩
    · obtain ⟨rfl, rfl⟩ := Prod.mk.inj (Except.ok.inj (hread.symm.trans h))
      exact ⟨pieces, r, hall, ht, rfl⟩
    · exact absurd (hread.symm.trans h) (by simp)
    · exact absurd (hread.symm.trans h) (by simp)
  · rintro ⟨pieces, r, hall, rfl, rfl⟩
    rw [readSegments_flatten hall, readSegments_upperE]
    simp [Except.map]

theorem readSegments_eq_fault_iff :
    bare (readSegments whole t) = .fault ↔
      ∃ pieces idents u, List.Forall₂ Spells pieces idents ∧ t = pieces.flatten ++ u ∧ Overruns whole u := by
  constructor
  · intro h
    rcases readSegments_cases whole t with ⟨pieces, ids, r, -, -, hread⟩ | ⟨pieces, ids, u, hall, ht, hover, -⟩ | ⟨e, hread⟩
    · exact absurd (hread.symm.trans h) (by simp)
    · exact ⟨pieces, ids, u, hall, ht, hover⟩
    · exact absurd (hread.symm.trans h) (by simp)
  · rintro ⟨pieces, idents, u, hall, rfl, hover⟩
    rw [readSegments_flatten hall, readSegments_of_overruns hover]
    rfl

/-! ### Reading a class path -/

theorem readPath_eq (whole t : Text) :
    bare (readPath whole t) = bare (readSegments whole t) >>= fun x =>
      if x.1 = [] then errorAt whole x.2 .emptyClassPath else .ok (join [slash] x.1, x.2) := by
  rw [readPath]
  match readSegments whole t with
  | .error e => rfl
  | .ok ([], ⟨rest, h⟩) => rfl
  | .ok (ident :: idents, ⟨rest, h⟩) => rfl

theorem readPath_eq_ok_iff {cls rest : Text} :
    bare (readPath whole t) = .ok (cls, rest) ↔
      ∃ pieces idents r, List.Forall₂ Spells pieces idents ∧ idents ≠ [] ∧ t = pieces.flatten ++ upperE :: r ∧
        cls = join [slash] idents ∧ rest = upperE :: r := by
  rw [readPath_eq, bind_eq_ok_iff]
  constructor
  · rintro ⟨⟨idents, u⟩, hread, h⟩
    obtain ⟨pieces, r, hall, ht, rfl⟩ := readSegments_eq_ok_iff.1 hread
    by_cases hne : idents = []
    · rw [if_pos hne] at h
      exact absurd h (by simp [errorAt])
    · rw [if_neg hne] at h
      obtain ⟨rfl, rfl⟩ := Prod.mk.inj (Except.ok.inj h)
      exact ⟨pieces, idents, r, hall, hne, ht, rfl, rfl⟩
  · rintro ⟨pieces, idents, r, hall, hne, ht, rfl, rfl⟩
    exact ⟨(idents, upperE :: r), readSegments_eq_ok_iff.2 ⟨pieces, r, hall, ht, rfl⟩, if_neg hne⟩

theorem readPath_eq_fault_iff :
    bare (readPath whole t) = .fault ↔
      ∃ pieces idents u, List.Forall₂ Spells pieces idents ∧ t = pieces.flatten ++ u ∧ Overruns whole u := by
  rw [readPath_eq, Outcome.bind_eq_fault_iff, ← readSegments_eq_fault_iff, or_iff_left]
  rintro ⟨⟨idents, u⟩, -, h⟩
  split at h
  · exact absurd h (by simp [errorAt])
  · exact absurd h (by simp)

end

end ClassAbi.LinkerName
