import ClassAbi.Proofs.Text.Parts
import ClassAbi.Text.Ascii
import ClassAbi.Text.Space

/-!
# Characters and stray bytes

Reading a text unit by unit loses nothing: the bytes of its units are the text (`ofUnits_units`). The lossy view by
characters gives the text back exactly when it is valid (`repaired_eq_self_iff`). A byte below 0x80 is never part of a longer
encoding, so a text can be cut before one (`units_append`), and validity is a matter of the parts between separators.
-/

namespace ClassAbi.Text

variable {lo b a : UInt8} {rest t : Text} {c : Char} {n : Nat}

open Ascii

/-- Whether a byte can follow the first one of an encoding. -/
def IsTail (b : UInt8) : Prop := 0x80 ≤ b.toNat ∧ b.toNat ≤ 0xBF

/-- The text with U+FFFD in the place of every stray byte. -/
def repaired (t : Text) : Text := t.chars.flatMap ofChar

/-! ### One character -/

theorem within_iff {hi : UInt8} : within lo hi b = true ↔ lo.toNat ≤ b.toNat ∧ b.toNat ≤ hi.toNat := by
  simp only [within, Bool.and_eq_true, decide_eq_true_eq, UInt8.le_iff_toNat_le]

theorem within_tail_iff : within 0x80 0xBF b = true ↔ IsTail b := within_iff

theorem within_second {x y hi : UInt8} (hlo : 0x80 ≤ lo.toNat) (hhi : hi.toNat ≤ 0xBF)
    (h : within (if a = x then lo else 0x80) (if a = y then hi else 0xBF) b = true) :
    IsTail b ∧ (a = x → lo.toNat ≤ b.toNat) ∧ (a = y → b.toNat ≤ hi.toNat) := by
  obtain ⟨hlow, hhigh⟩ := within_iff.1 h
  refine ⟨⟨?_, ?_⟩, fun hx => ?_, fun hy => ?_⟩
  · split_ifs at hlow
    · exact Nat.le_trans hlo hlow
    · exact hlow
  · split_ifs at hhigh
    · exact Nat.le_trans hhigh hhi
    · exact hhigh
  · rwa [if_pos hx] at hlow
  · rwa [if_pos hy] at hhigh

theorem charAt?_cases (h : charAt? a rest = some (c, n)) :
    (n = 0 ∧ a.toNat < 0x80 ∧ c = Char.ofNat a.toNat) ∨
    (∃ b t, rest = b :: t ∧ n = 1 ∧ 0xC2 ≤ a.toNat ∧ a.toNat < 0xE0 ∧ IsTail b ∧
      c = Char.ofNat ((a.toNat - 0xC0) * 64 + (b.toNat - 0x80))) ∨
    (∃ b d t, rest = b :: d :: t ∧ n = 2 ∧ 0xE0 ≤ a.toNat ∧ a.toNat < 0xF0 ∧ IsTail b ∧ IsTail d ∧
      (a = 0xE0 → 0xA0 ≤ b.toNat) ∧ (a = 0xED → b.toNat ≤ 0x9F) ∧
      c = Char.ofNat (((a.toNat - 0xE0) * 64 + (b.toNat - 0x80)) * 64 + (d.toNat - 0x80))) ∨
    (∃ b d e t, rest = b :: d :: e :: t ∧ n = 3 ∧ 0xF0 ≤ a.toNat ∧ a.toNat < 0xF5 ∧ IsTail b ∧ IsTail d ∧
      IsTail e ∧ (a = 0xF0 → 0x90 ≤ b.toNat) ∧ (a = 0xF4 → b.toNat ≤ 0x8F) ∧
      c = Char.ofNat ((((a.toNat - 0xF0) * 64 + (b.toNat - 0x80)) * 64 + (d.toNat - 0x80)) * 64 +
        (e.toNat - 0x80))) := by
  unfold charAt? at h
  by_cases h80 : a < 0x80
  · rw [if_pos h80, Option.some.injEq, Prod.mk.injEq] at h
    exact .inl ⟨h.2.symm, UInt8.lt_iff_toNat_lt.1 h80, h.1.symm⟩
  rw [if_neg h80] at h
  by_cases hC2 : a < 0xC2
  · rw [if_pos hC2] at h
    cases h
  rw [if_neg hC2] at h
  have lowC2 : 0xC2 ≤ a.toNat := Nat.not_lt.1 fun hlt => hC2 (UInt8.lt_iff_toNat_lt.2 hlt)
  by_cases hE0 : a < 0xE0
  · rw [if_pos hE0] at h
    match rest with
    | [] => cases h
    | b :: t =>
      simp only [Option.ite_none_right_eq_some, Option.some.injEq, Prod.mk.injEq] at h
      exact .inr (.inl ⟨b, t, rfl, h.2.2.symm, lowC2, UInt8.lt_iff_toNat_lt.1 hE0, within_tail_iff.1 h.1, h.2.1.symm⟩)
  rw [if_neg hE0] at h
  have lowE0 : 0xE0 ≤ a.toNat := Nat.not_lt.1 fun hlt => hE0 (UInt8.lt_iff_toNat_lt.2 hlt)
  by_cases hF0 : a < 0xF0
  · rw [if_pos hF0] at h
    match rest with
    | [] => cases h
    | [_] => cases h
    | b :: d :: t =>
      simp only [Option.ite_none_right_eq_some, Option.some.injEq, Prod.mk.injEq, Bool.and_eq_true] at h
      obtain ⟨⟨hb, hd⟩, hc, hn⟩ := h
      obtain ⟨hb, hlow, hhigh⟩ := within_second (by decide) (by decide) hb
      exact .inr (.inr (.inl ⟨b, d, t, rfl, hn.symm, lowE0, UInt8.lt_iff_toNat_lt.1 hF0, hb, within_tail_iff.1 hd,
        hlow, hhigh, hc.symm⟩))
  rw [if_neg hF0] at h
  have lowF0 : 0xF0 ≤ a.toNat := Nat.not_lt.1 fun hlt => hF0 (UInt8.lt_iff_toNat_lt.2 hlt)
  by_cases hF5 : a < 0xF5
  · rw [if_pos hF5] at h
    match rest with
    | [] => cases h
    | [_] => cases h
    | [_, _] => cases h
    | b :: d :: e :: t =>
      simp only [Option.ite_none_right_eq_some, Option.some.injEq, Prod.mk.injEq, Bool.and_eq_true] at h
      obtain ⟨⟨⟨hb, hd⟩, he⟩, hc, hn⟩ := h
      obtain ⟨hb, hlow, hhigh⟩ := within_second (by decide) (by decide) hb
      exact .inr (.inr (.inr ⟨b, d, e, t, rfl, hn.symm, lowF0, UInt8.lt_iff_toNat_lt.1 hF5, hb, within_tail_iff.1 hd,
        within_tail_iff.1 he, hlow, hhigh, hc.symm⟩))
  · rw [if_neg hF5] at h
    cases h

theorem ofChar_ofNat {k : Nat} (h : k.isValidChar) : ofChar (Char.ofNat k) =
    if k ≤ 0x7F then [UInt8.ofNat k]
    else if k ≤ 0x7FF then [UInt8.ofNat (k / 64 % 32 + 0xC0), UInt8.ofNat (k % 64 + 0x80)]
    else if k ≤ 0xFFFF then
      [UInt8.ofNat (k / 4096 % 16 + 0xE0), UInt8.ofNat (k / 64 % 64 + 0x80), UInt8.ofNat (k % 64 + 0x80)]
    else [UInt8.ofNat (k / 262144 % 8 + 0xF0), UInt8.ofNat (k / 4096 % 64 + 0x80), UInt8.ofNat (k / 64 % 64 + 0x80),
      UInt8.ofNat (k % 64 + 0x80)] := by
  have hval : (Char.ofNat k).val.toNat = k := by
    rw [Char.ofNat, dif_pos h]
    simp [Char.ofNatAux, UInt32.toNat]
  simp only [ofChar, String.utf8EncodeChar, hval]

theorem ofNat_eq_of_toNat (h : n = b.toNat) : UInt8.ofNat n = b := by
  rw [h, UInt8.ofNat_toNat]

theorem charAt?_bytes (h : charAt? a rest = some (c, n)) : n ≤ rest.length ∧ ofChar c = a :: rest.take n := by
  rcases charAt?_cases h with ⟨rfl, ha, hc⟩ | ⟨b, t, rfl, rfl, hlow, hhigh, ⟨hb, hb'⟩, hc⟩ |
    ⟨b, d, t, rfl, rfl, hlow, hhigh, ⟨hb, hb'⟩, ⟨hd, hd'⟩, hfirst, hlast, hc⟩ |
    ⟨b, d, e, t, rfl, rfl, hlow, hhigh, ⟨hb, hb'⟩, ⟨hd, hd'⟩, ⟨he, he'⟩, hfirst, hlast, hc⟩
  · refine ⟨Nat.zero_le _, ?_⟩
    rw [hc, ofChar_ofNat (.inl (by omega)), if_pos (by omega), ofNat_eq_of_toNat rfl, List.take_zero]
  · refine ⟨by simp, ?_⟩
    rw [hc, ofChar_ofNat (.inl (by omega)), if_neg (by omega), if_pos (by omega), ofNat_eq_of_toNat (b := a) (by omega),
      ofNat_eq_of_toNat (b := b) (by omega)]
    rfl
  · refine ⟨by simp, ?_⟩
    rw [← UInt8.toNat_inj] at hfirst hlast
    simp only [UInt8.reduceToNat] at hfirst hlast
    rw [hc, ofChar_ofNat (by rw [Nat.isValidChar]; omega), if_neg (by omega), if_neg (by omega), if_pos (by omega),
      ofNat_eq_of_toNat (b := a) (by omega), ofNat_eq_of_toNat (b := b) (by omega),
      ofNat_eq_of_toNat (b := d) (by omega)]
    rfl
  · refine ⟨by simp, ?_⟩
    rw [← UInt8.toNat_inj] at hfirst hlast
    simp only [UInt8.reduceToNat] at hfirst hlast
    rw [hc, ofChar_ofNat (.inr (by omega)), if_neg (by omega), if_neg (by omega), if_neg (by omega),
      ofNat_eq_of_toNat (b := a) (by omega), ofNat_eq_of_toNat (b := b) (by omega),
      ofNat_eq_of_toNat (b := d) (by omega), ofNat_eq_of_toNat (b := e) (by omega)]
    rfl

theorem ofChar_of_mem_lt (hb : b ∈ ofChar c) (hlt : b.toNat < 0x80) : ofChar c = [b] ∧ c = Char.ofNat b.toNat := by
  have hc : ofChar c = ofChar (Char.ofNat c.toNat) := by rw [Char.ofNat_toNat]
  rw [hc, ofChar_ofNat (k := c.toNat) c.valid] at hb ⊢
  split_ifs at hb ⊢ with h7F h7FF hFFFF
  · rw [List.mem_singleton] at hb
    rw [hb, UInt8.toNat_ofNat', Nat.mod_eq_of_lt (by omega), Char.ofNat_toNat]
    exact ⟨rfl, rfl⟩
  all_goals simp only [List.mem_cons, List.not_mem_nil, or_false] at hb
  · rcases hb with hb | hb <;> rw [hb, UInt8.toNat_ofNat'] at hlt <;> omega
  · rcases hb with hb | hb | hb <;> rw [hb, UInt8.toNat_ofNat'] at hlt <;> omega
  · rcases hb with hb | hb | hb | hb <;> rw [hb, UInt8.toNat_ofNat'] at hlt <;> omega

/-! ### All characters -/

@[simp] theorem units_nil : units [] = [] := by
  rw [units]

theorem units_cons_char (h : charAt? a rest = some (c, n)) : units (a :: rest) = .char c :: units (rest.drop n) := by
  rw [units, h]

theorem units_cons_stray (h : charAt? a rest = none) : units (a :: rest) = .stray a :: units rest := by
  rw [units, h]

theorem charAt?_of_lt (h : a.toNat < 0x80) (rest : Text) : charAt? a rest = some (Char.ofNat a.toNat, 0) := by
  unfold charAt?
  rw [if_pos (UInt8.lt_iff_toNat_lt.2 h)]

theorem units_cons_of_lt (h : a.toNat < 0x80) (rest : Text) :
    units (a :: rest) = .char (Char.ofNat a.toNat) :: units rest :=
  units_cons_char (charAt?_of_lt h rest)

theorem ofUnits_units (t : Text) : ofUnits t.units = t := by
  induction t using units.induct with
  | case1 => simp [ofUnits]
  | case2 a rest c n h ih =>
    rw [units_cons_char h, ofUnits, List.flatMap_cons]
    show ofChar c ++ ofUnits (units (rest.drop n)) = a :: rest
    rw [ih, (charAt?_bytes h).2, List.cons_append, List.take_append_drop]
  | case3 a rest h ih =>
    rw [units_cons_stray h, ofUnits, List.flatMap_cons]
    show a :: ofUnits (units rest) = a :: rest
    rw [ih]

/-! ### Cutting before a byte below 0x80 -/

variable {x : UInt8}

theorem within_of_lt (hx : x.toNat < 0x80) (hlo : 0x80 ≤ lo.toNat) (hi : UInt8) : within lo hi x = false := by
  rw [Bool.eq_false_iff, Ne, within_iff]
  omega

theorem charAt?_append (hx : x.toNat < 0x80) (a : UInt8) (rest t : Text) :
    charAt? a (rest ++ x :: t) = charAt? a rest := by
  have hE0 : 0x80 ≤ (if a = 0xE0 then 0xA0 else 0x80 : UInt8).toNat := by split_ifs <;> decide
  have hF0 : 0x80 ≤ (if a = 0xF0 then 0x90 else 0x80 : UInt8).toNat := by split_ifs <;> decide
  have h80 : ∀ hi, within 0x80 hi x = false := within_of_lt hx (by decide)
  unfold charAt?
  -- The encoding that starts at `a` ends before `x`, or `x` stands where a byte of it would have to.
  match rest, t with
  | [], [] => simp [h80]
  | [], [_] => simp [within_of_lt hx hE0, h80]
  | [], _ :: _ :: _ => simp [within_of_lt hx hE0, within_of_lt hx hF0, h80]
  | [_], [] => simp [h80]
  | [_], _ :: _ => simp [h80]
  | [_, _], _ => simp [h80]
  | _ :: _ :: _ :: _, _ => simp

theorem units_append (hx : x.toNat < 0x80) (s t : Text) : units (s ++ x :: t) = units s ++ units (x :: t) := by
  induction s using units.induct with
  | case1 => simp
  | case2 a rest c n h ih =>
    have hn := (charAt?_bytes h).1
    rw [List.cons_append, units_cons_char ((charAt?_append hx a rest t).trans h), units_cons_char h,
      List.drop_append_of_le_length hn, ih, List.cons_append]
  | case3 a rest h ih =>
    rw [List.cons_append, units_cons_stray ((charAt?_append hx a rest t).trans h), units_cons_stray h, ih,
      List.cons_append]

theorem chars_append (hx : x.toNat < 0x80) (s t : Text) : chars (s ++ x :: t) = chars s ++ chars (x :: t) := by
  rw [chars, units_append hx, List.map_append]
  rfl

theorem chars_cons_of_lt (hx : x.toNat < 0x80) (t : Text) : chars (x :: t) = Char.ofNat x.toNat :: chars t := by
  rw [chars, units_cons_of_lt hx]
  rfl

theorem isValid_append (hx : x.toNat < 0x80) (s t : Text) :
    isValid (s ++ x :: t) = (isValid s && isValid t) := by
  rw [isValid, units_append hx, units_cons_of_lt hx, List.all_append, List.all_cons]
  rfl

theorem isValid_cons_of_lt (hx : x.toNat < 0x80) (t : Text) : isValid (x :: t) = isValid t := by
  rw [isValid, units_cons_of_lt hx, List.all_cons]
  rfl

theorem isValid_iff_split (hx : x.toNat < 0x80) (t : Text) :
    isValid t = true ↔ ∀ p ∈ split x t, isValid p = true := by
  obtain ⟨parts, hne, hparts, rfl⟩ := exists_split x t
  rw [split_join hne hparts]
  clear hparts
  induction parts with
  | nil => exact absurd rfl hne
  | cons p parts ih =>
    cases parts with
    | nil => simp
    | cons q parts =>
      rw [join_cons_cons, List.singleton_append, isValid_append hx, Bool.and_eq_true, ih (by simp)]
      simp

/-! ### Repaired texts -/

theorem length_ofUnits_le (us : List Unit) :
    (ofUnits us).length ≤ ((us.map Unit.toChar).flatMap ofChar).length := by
  induction us with
  | nil => exact Nat.le_refl 0
  | cons u us ih =>
    have hu : u.bytes.length ≤ (ofChar u.toChar).length := by
      cases u with
      | char c => exact Nat.le_refl _
      | stray b => exact show 1 ≤ (ofChar '�').length by decide
    simp only [ofUnits, List.flatMap_cons, List.map_cons, List.length_append] at ih ⊢
    omega

theorem length_ofUnits_lt {us : List Unit} (h : Unit.stray b ∈ us) :
    (ofUnits us).length < ((us.map Unit.toChar).flatMap ofChar).length := by
  obtain ⟨before, after, rfl⟩ := List.append_of_mem h
  have hbefore := length_ofUnits_le before
  have hafter := length_ofUnits_le after
  have hstray : (ofChar (Unit.stray b).toChar).length = 3 := show (ofChar '�').length = 3 by decide
  simp only [ofUnits, List.flatMap_append, List.flatMap_cons, List.map_append, List.map_cons, List.length_append] at *
  rw [hstray, show (Unit.stray b).bytes.length = 1 from rfl]
  omega

theorem repaired_eq_self_iff : repaired t = t ↔ isValid t = true := by
  rw [isValid, List.all_eq_true]
  refine ⟨fun h u hu => ?_, fun h => ?_⟩
  · cases u with
    | char c => rfl
    | stray b =>
      have hlt := length_ofUnits_lt hu
      rw [ofUnits_units] at hlt
      exact absurd (congrArg List.length h) (Nat.ne_of_gt hlt)
  · calc repaired t = ofUnits t.units := by
          rw [repaired, chars, List.flatMap_map, ofUnits, List.flatMap_def, List.flatMap_def]
          refine congrArg List.flatten (List.map_congr_left fun u hu => ?_)
          cases u with
          | char c => rfl
          | stray b => exact absurd (h _ hu) (by simp)
      _ = t := ofUnits_units t

theorem not_mem_repaired (hx : x.toNat < 0x80) (h : x ∉ t) : x ∉ repaired t := by
  intro hmem
  rw [repaired, chars, List.flatMap_map, List.mem_flatMap] at hmem
  obtain ⟨u, hu, hmem⟩ := hmem
  cases u with
  | char c =>
    refine h ?_
    rw [← ofUnits_units t, ofUnits, List.mem_flatMap]
    exact ⟨.char c, hu, hmem⟩
  | stray b =>
    have hfffd : ∀ y ∈ ofChar '�', 0x80 ≤ y.toNat := by
      rw [show ofChar '�' = [0xEF, 0xBF, 0xBD] by decide]
      simp
    exact Nat.not_le.2 hx (hfffd x hmem)

theorem chars_ne_nil (h : t ≠ []) : t.chars ≠ [] := by
  obtain ⟨a, rest, rfl⟩ := List.exists_cons_of_ne_nil h
  rw [chars]
  cases hc : charAt? a rest with
  | none => simp [units_cons_stray hc]
  | some r => simp [units_cons_char hc]

theorem exists_chars_cons_of_le (ha : 0x80 ≤ a.toNat) (rest : Text) :
    ∃ c cs, chars (a :: rest) = c :: cs ∧ 0x80 ≤ c.toNat := by
  cases hc : charAt? a rest with
  | none =>
    refine ⟨'�', chars rest, ?_, by decide⟩
    rw [chars, units_cons_stray hc]
    rfl
  | some r =>
    obtain ⟨c, n⟩ := r
    refine ⟨c, chars (rest.drop n), ?_, Nat.not_lt.1 fun hlt => ?_⟩
    · rw [chars, units_cons_char hc]
      rfl
    · -- A smaller number would have been written as the one byte `a`.
      have hbytes := (charAt?_bytes hc).2
      have hc' : ofChar c = ofChar (Char.ofNat c.toNat) := by rw [Char.ofNat_toNat]
      rw [hc', ofChar_ofNat (k := c.toNat) c.valid, if_pos (by omega), List.cons.injEq] at hbytes
      rw [← hbytes.1, UInt8.toNat_ofNat'] at ha
      omega

/-! ### Words -/

theorem le_of_stray_mem (h : Unit.stray b ∈ t.units) : 0x80 ≤ b.toNat := by
  induction t using units.induct with
  | case1 => simp at h
  | case2 a rest c n hchar ih =>
    rw [units_cons_char hchar] at h
    exact ih (by simpa using h)
  | case3 a rest hstray ih =>
    rw [units_cons_stray hstray, List.mem_cons] at h
    rcases h with h | h
    · obtain rfl := Unit.stray.inj h
      by_contra hlt
      rw [charAt?_of_lt (by omega)] at hstray
      cases hstray
    · exact ih h

theorem mem_unitWords {us word : List Unit} (h : word ∈ unitWords us) : ∀ u ∈ word, u ∈ us ∧ u.isSpace = false := by
  unfold unitWords at h
  split at h
  rename_i read words hread
  -- It holds of the word that is being read and of those after it.
  let Right (run : List Unit × List (List Unit)) : Prop := ∀ word ∈ run.1 :: run.2, ∀ u ∈ word, u ∈ us ∧ u.isSpace = false
  have hright : Right (read, words) := by
    rw [← hread]
    refine List.foldrRecOn (motive := Right) us _ (by simp [Right]) ?_
    rintro ⟨read, words⟩ ih v hv word hword
    dsimp only at hword
    split_ifs at hword with hspace
    all_goals rcases List.mem_cons.1 hword with rfl | hword
    · simp
    · exact ih word (List.mem_cons_of_mem _ hword)
    · simp
    · exact ih word hword
    · rw [List.forall_mem_cons]
      exact ⟨⟨hv, by simpa using hspace⟩, ih read List.mem_cons_self⟩
    · exact ih word (List.mem_cons_of_mem _ hword)
  split_ifs at h
  · exact hright word (List.mem_cons_of_mem _ h)
  · exact hright word h

/-- White space of one byte is in no word. -/
theorem not_mem_of_mem_words {word : Text} (hb : b.toNat < 0x80) (hspace : isSpace (Char.ofNat b.toNat) = true)
    (h : word ∈ t.words) : b ∉ word := by
  intro hmem
  obtain ⟨us, hus, rfl⟩ := List.mem_map.1 h
  obtain ⟨u, hu, hbytes⟩ := List.mem_flatMap.1 hmem
  obtain ⟨hunit, hnot⟩ := mem_unitWords hus u hu
  cases u with
  | char c =>
    rw [Unit.isSpace, (ofChar_of_mem_lt hbytes hb).2, hspace] at hnot
    cases hnot
  | stray a =>
    obtain rfl := List.mem_singleton.1 hbytes
    exact absurd (le_of_stray_mem hunit) (by omega)

end ClassAbi.Text
