import ClassAbi.Proofs.LinkerName.Segment

/-!
# Written class paths

A class name is written as the segments of the identifiers between its slashes. Each is read back as it was written unless
its identifier begins with a digit: that digit is then taken for a part of the length. A written path can therefore be cut
into segments in other ways than the one in which it was written. `readable_of_spells` is the fact behind all statements
about reading back: if the identifiers that are read from the front of a written path, however it is cut, join to the
path's own class name, then they were read from the segments that were written, and no identifier was at fault.
-/

namespace ClassAbi.LinkerName

variable {ident t : Text} {idents : List Text}

open Ascii Text

/-- Whether an identifier can be read back from a linker name: it is valid UTF-8 and does not begin with a digit. -/
structure ReadableIdent (ident : Text) : Prop where
  isValid : ident.isValid = true
  not_digitLed : ¬DigitLed ident

/-- Whether a class name can be read back from a linker name: it is valid UTF-8, and no identifier between its slashes
begins with a digit. -/
structure ReadablePath (cls : Text) : Prop where
  isValid : cls.isValid = true
  not_digitLed : ∀ ident ∈ cls.split slash, ¬DigitLed ident

instance : DecidablePred ReadableIdent := fun ident =>
  decidable_of_iff (ident.isValid = true ∧ ¬DigitLed ident) ⟨fun h => ⟨h.1, h.2⟩, fun h => ⟨h.1, h.2⟩⟩

instance : DecidablePred ReadablePath := fun cls =>
  decidable_of_iff (cls.isValid = true ∧ ∀ ident ∈ cls.split slash, ¬DigitLed ident)
    ⟨fun h => ⟨h.1, h.2⟩, fun h => ⟨h.1, h.2⟩⟩

/-- Whether a class name has a linker name: no identifier between its slashes is empty. -/
def HasPath (cls : Text) : Prop := ∀ ident ∈ cls.split slash, ident ≠ []

instance : DecidablePred HasPath := fun cls => inferInstanceAs (Decidable (∀ ident ∈ cls.split slash, ident ≠ []))

def pathOf (cls : Text) : Text := (cls.split slash).flatMap segmentOf

theorem readablePath_iff {cls : Text} : ReadablePath cls ↔ ∀ ident ∈ cls.split slash, ReadableIdent ident := by
  have hvalid := isValid_iff_split (x := slash) (by decide) cls
  constructor
  · intro h ident hident
    exact ⟨hvalid.1 h.isValid ident hident, h.not_digitLed ident hident⟩
  · intro h
    exact ⟨hvalid.2 fun ident hident => (h ident hident).isValid, fun ident hident => (h ident hident).not_digitLed⟩

/-! ### Writing -/

theorem segment_eq_ok_iff : segment ident = .ok t ↔ ident ≠ [] ∧ t = segmentOf ident := by
  cases ident with
  | nil => simp [segment, escape, bind, Except.bind]
  | cons b r =>
    rw [segment, escape_eq_ok_iff.2 ⟨List.cons_ne_nil b r, rfl⟩]
    simp [bind, Except.bind, pure, Except.pure, segmentOf, eq_comm]

theorem mapM_segment_eq_ok_iff {ts : List Text} :
    idents.mapM segment = .ok ts ↔ (∀ ident ∈ idents, ident ≠ []) ∧ ts = idents.map segmentOf := by
  have hmap : List.Forall₂ (fun ident t => t = segmentOf ident) idents ts ↔ ts = idents.map segmentOf := by
    have heq := congrFun (congrFun (@List.forall₂_eq_eq_eq Text) (idents.map segmentOf)) ts
    rw [List.forall₂_map_left_iff] at heq
    simpa only [eq_comm] using iff_of_eq heq
  simp only [mapM_eq_ok_iff, segment_eq_ok_iff, List.forall₂_and_left, hmap]

theorem path_eq_ok_iff {cls : Text} : path cls = .ok t ↔ HasPath cls ∧ t = pathOf cls := by
  cases cls with
  | nil => simp [path, HasPath, split]
  | cons b r =>
    have hmap : path (b :: r) = .ok t ↔ ∃ ts, (split slash (b :: r)).mapM segment = .ok ts ∧ ts.flatten = t := by
      rw [path, List.isEmpty_cons, if_neg Bool.false_ne_true]
      cases (split slash (b :: r)).mapM segment <;> simp
    simp only [hmap, mapM_segment_eq_ok_iff, HasPath, pathOf, List.flatMap_def]
    constructor
    · rintro ⟨ts, ⟨hne, rfl⟩, rfl⟩
      exact ⟨hne, rfl⟩
    · rintro ⟨hne, rfl⟩
      exact ⟨_, ⟨hne, rfl⟩, rfl⟩

/-! ### One written segment -/

section

variable {ident : Text}

theorem isDigit_of_mem_ofNat_length : ∀ b ∈ ofNat (escaped ident).length, isDigit b = true :=
  fun _ hb => isDigit_of_mem_ofNat hb

theorem not_digitLed_escaped_append (hne : ident ≠ []) (h : ¬DigitLed ident) (t : Text) :
    ¬DigitLed (escaped ident ++ t) := by
  rwa [digitLed_append (escaped_ne_nil hne), digitLed_escaped]

theorem digitRun_segmentOf_append (hne : ident ≠ []) (h : ¬DigitLed ident) (t : Text) :
    digitRun (segmentOf ident ++ t) = ofNat (escaped ident).length := by
  rw [segmentOf, List.append_assoc]
  exact digitRun_append isDigit_of_mem_ofNat_length (not_digitLed_escaped_append hne h t)

theorem body_segmentOf_append (hne : ident ≠ []) (h : ¬DigitLed ident) (t : Text) :
    body (segmentOf ident ++ t) = escaped ident ++ t := by
  rw [segmentOf, List.append_assoc]
  exact body_append isDigit_of_mem_ofNat_length (not_digitLed_escaped_append hne h t)

theorem digitLed_segmentOf_append (ident t : Text) : DigitLed (segmentOf ident ++ t) := by
  obtain ⟨b, r, hbr⟩ := List.exists_cons_of_ne_nil (ofNatIn_ne_nil 10 (escaped ident).length)
  rw [segmentOf, ofNat, hbr, List.cons_append, List.cons_append, digitLed_cons]
  exact isDigit_of_mem_ofNat_length b (by rw [ofNat, hbr]; simp)

theorem segmentOf_ne_nil (ident : Text) : segmentOf ident ≠ [] := fun h =>
  List.append_ne_nil_of_left_ne_nil (ofNatIn_ne_nil 10 _) _ h

theorem spells_segmentOf (hne : ident ≠ []) (h : ReadableIdent ident) (hfits : (segmentOf ident).length < 2 ^ 63) :
    Spells (segmentOf ident) ident := by
  have hrun := digitRun_segmentOf_append hne h.not_digitLed []
  have hbody := body_segmentOf_append hne h.not_digitLed []
  rw [List.append_nil] at hrun hbody
  rw [List.append_nil] at hbody
  have hlen : (escaped ident).length ≤ (segmentOf ident).length := by
    rw [segmentOf, List.length_append]
    exact Nat.le_add_left _ _
  refine ⟨⟨?_, ?_, ?_⟩, ?_⟩
  · rw [hbody]
    exact escaped_ne_nil hne
  · rw [hrun, hbody, numeral_ofNat]
  · rw [hrun, numeral_ofNat]
    omega
  · rw [hbody, unescape_escaped, repaired_eq_self_iff.2 h.isValid]

end

/-! ### What may follow a segment -/

/-- Whether a text can follow a segment: its start completes no escape, and nothing that begins with a digit can be read
from it. -/
structure Follows (t : Text) : Prop where
  not_underscore : t.head? ≠ some underscore
  not_upperU : t.head? ≠ some upperU
  clear : ClearStart t

section

variable {t : Text}

theorem follows_cons {b : UInt8} (hb : isDigit b ≠ true) (h_ : b ≠ underscore) (hU : b ≠ upperU) : Follows (b :: t) :=
  ⟨by simpa using h_, by simpa using hU, clearStart_cons hb fun _ heq => absurd heq h_⟩

theorem follows_upperE : Follows (upperE :: t) := follows_cons (by decide) (by decide) (by decide)

theorem Follows.segmentOf_append (h : Follows t) (ident : Text) : Follows (segmentOf ident ++ t) := by
  have hclear := clearStart_escapeChars h.not_underscore h.not_upperU h.clear ident.chars
  have hled := digitLed_segmentOf_append ident t
  obtain ⟨b, r, hbr⟩ := List.exists_cons_of_ne_nil
    (List.append_ne_nil_of_left_ne_nil (segmentOf_ne_nil ident) t)
  rw [hbr, digitLed_cons] at hled
  refine ⟨?_, ?_, ?_⟩
  · rw [hbr, List.head?_cons, Ne, Option.some.injEq]
    rintro rfl
    exact absurd hled (by decide)
  · rw [hbr, List.head?_cons, Ne, Option.some.injEq]
    rintro rfl
    exact absurd hled (by decide)
  · rw [segmentOf, List.append_assoc]
    exact clearStart_append_digits isDigit_of_mem_ofNat_length hclear

theorem Follows.flatMap_append (h : Follows t) (idents : List Text) : Follows (idents.flatMap segmentOf ++ t) := by
  induction idents with
  | nil => exact h
  | cons ident idents ih =>
    rw [List.flatMap_cons, List.append_assoc]
    exact ih.segmentOf_append ident

end

/-! ### Reading back -/

section

variable {ident piece t u : Text}

/-- A segment at the front of the one written for an identifier without a leading digit is that one. -/
theorem eq_segmentOf_of_append (hne : ident ≠ []) (h : ¬DigitLed ident) (hp : IsSegment piece)
    (heq : segmentOf ident ++ t = piece ++ u) : piece = segmentOf ident := by
  have hrun : digitRun piece = ofNat (escaped ident).length := by
    rw [← hp.digitRun_append u, ← heq, digitRun_segmentOf_append hne h]
  have hbody : body piece ++ u = escaped ident ++ t := by
    rw [← hp.body_append u, ← heq, body_segmentOf_append hne h]
  have hlen : (body piece).length = (escaped ident).length := by rw [hp.length_body, hrun, numeral_ofNat]
  rw [← digitRun_append_body piece, hrun, List.append_inj_left hbody hlen, segmentOf]

theorem not_digitLed_of_spells {other : Text} (ht : Follows t) (hp : Spells piece other)
    (heq : segmentOf ident ++ t = piece ++ u) : ¬DigitLed other := by
  refine (ht.segmentOf_append ident).clear (body piece) other hp.isSegment.nonempty ⟨u, ?_⟩ hp.unescapes
  rw [heq]
  exact (hp.isSegment.body_append u).symm

theorem eq_repaired_of_spells {other : Text} (hne : ident ≠ []) (h : ¬DigitLed ident)
    (hp : Spells (segmentOf ident) other) : other = ident.repaired := by
  have hbody := body_segmentOf_append hne h []
  rw [List.append_nil, List.append_nil] at hbody
  have hread := hp.unescapes
  rw [hbody, unescape_escaped] at hread
  exact (Except.ok.inj hread).symm

theorem readable_of_spells_segmentOf (hne : ident ≠ []) (ht : Follows t) (hp : Spells piece ident)
    (heq : segmentOf ident ++ t = piece ++ u) : ReadableIdent ident ∧ piece = segmentOf ident := by
  have hdigit := not_digitLed_of_spells ht hp heq
  obtain rfl := eq_segmentOf_of_append hne hdigit hp.isSegment heq
  have hself := eq_repaired_of_spells hne hdigit hp
  exact ⟨⟨repaired_eq_self_iff.1 hself.symm, hdigit⟩, rfl⟩

end

theorem digitLed_of_digitLed_join (h : DigitLed (join [slash] (ident :: idents))) : DigitLed ident := by
  cases ident with
  | cons b r => exact h
  | nil =>
    cases idents with
    | nil => exact h
    | cons ident idents =>
      rw [join_cons_cons, List.nil_append, List.singleton_append, digitLed_cons] at h
      exact absurd h (by decide)

theorem readable_of_spells {segs pieces : List Text} {u : Text} (hne : ∀ s ∈ segs, s ≠ [])
    (hslash : ∀ s ∈ segs, slash ∉ s) (ht : Follows t) (hall : List.Forall₂ Spells pieces idents)
    (hjoin : join [slash] idents = join [slash] segs) (hsegs : segs ≠ [])
    (heq : segs.flatMap segmentOf ++ t = pieces.flatten ++ u) :
    (∀ s ∈ segs, ReadableIdent s) ∧ pieces = segs.map segmentOf := by
  induction segs generalizing pieces idents with
  | nil => exact absurd rfl hsegs
  | cons s segs ih =>
    rw [List.forall_mem_cons] at hne hslash
    have hsplit : split slash (join [slash] idents) = s :: segs := by
      rw [hjoin, split_join hsegs (List.forall_mem_cons.2 hslash)]
    cases hall with
    | nil => exact absurd (List.cons.inj hsplit).1.symm hne.1
    | @cons piece ident pieces idents hp hall =>
      rw [List.flatMap_cons, List.append_assoc, List.flatten_cons, List.append_assoc] at heq
      have hrest := ht.flatMap_append segs
      have hdigit : ¬DigitLed s := by
        intro hled
        have hwhole : DigitLed (join [slash] (ident :: idents)) := by rwa [hjoin, join, digitLed_append hne.1]
        exact not_digitLed_of_spells hrest hp heq (digitLed_of_digitLed_join hwhole)
      obtain rfl := eq_segmentOf_of_append hne.1 hdigit hp.isSegment heq
      obtain rfl := eq_repaired_of_spells hne.1 hdigit hp
      have hclean : slash ∉ s.repaired := not_mem_repaired (by decide) hslash.1
      -- Neither `s` nor what is read for it has a slash, so the two end at the same place.
      cases idents with
      | nil =>
        rw [join_singleton, split_of_not_mem hclean, List.cons.injEq] at hsplit
        obtain ⟨hself, rfl⟩ := hsplit
        cases hall
        exact ⟨by simpa using ⟨repaired_eq_self_iff.1 hself, hdigit⟩, by simp⟩
      | cons ident idents =>
        rw [join_cons_cons, List.singleton_append, split_append_sep hclean, List.cons.injEq] at hsplit
        obtain ⟨hself, rfl⟩ := hsplit
        obtain ⟨hread, rfl⟩ := ih hne.2 hslash.2 hall (join_split slash _).symm (split_ne_nil slash _)
          (List.append_cancel_left heq)
        exact ⟨List.forall_mem_cons.2 ⟨⟨repaired_eq_self_iff.1 hself, hdigit⟩, hread⟩, rfl⟩

section

variable {cls t u : Text} {pieces idents : List Text}

/-- A class name that is read from the front of its written path is readable, and was read from all of that path. -/
theorem readablePath_of_spells (h : HasPath cls) (ht : Follows t) (hall : List.Forall₂ Spells pieces idents)
    (hjoin : join [slash] idents = cls) (heq : pathOf cls ++ t = pieces.flatten ++ u) :
    ReadablePath cls ∧ pieces = (cls.split slash).map segmentOf ∧ u = t := by
  have hsegs := readable_of_spells h (fun s hs => not_mem_of_mem_split hs) ht hall (by rw [hjoin, join_split])
    (split_ne_nil slash cls) heq
  refine ⟨readablePath_iff.2 hsegs.1, hsegs.2, ?_⟩
  rw [hsegs.2, pathOf, List.flatMap_def] at heq
  exact (List.append_cancel_left heq).symm

theorem length_segmentOf_le (h : ident ∈ cls.split slash) : (segmentOf ident).length ≤ (pathOf cls).length :=
  (List.sublist_flatten_of_mem (List.mem_map_of_mem h)).length_le

theorem spells_path (h : HasPath cls) (hread : ReadablePath cls) (hfits : (pathOf cls).length < 2 ^ 63) :
    List.Forall₂ Spells ((cls.split slash).map segmentOf) (cls.split slash) := by
  rw [List.forall₂_map_left_iff, List.forall₂_same]
  intro ident hident
  exact spells_segmentOf (h ident hident) (readablePath_iff.1 hread ident hident)
    (Nat.lt_of_le_of_lt (length_segmentOf_le hident) hfits)

theorem readPath_pathOf_iff (whole : Text) (h : HasPath cls) (hfits : (pathOf cls).length < 2 ^ 63) :
    bare (readPath whole (pathOf cls ++ upperE :: t)) = .ok (cls, u) ↔ ReadablePath cls ∧ u = upperE :: t := by
  rw [readPath_eq_ok_iff]
  constructor
  · rintro ⟨pieces, idents, r, hall, -, heq, hjoin, rfl⟩
    obtain ⟨hread, -, hrest⟩ := readablePath_of_spells h follows_upperE hall hjoin.symm heq
    exact ⟨hread, hrest⟩
  · rintro ⟨hread, rfl⟩
    refine ⟨_, _, t, spells_path h hread hfits, split_ne_nil slash cls, ?_, (join_split slash cls).symm, rfl⟩
    rw [pathOf, List.flatMap_def]

end

end ClassAbi.LinkerName
