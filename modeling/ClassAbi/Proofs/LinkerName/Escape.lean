import ClassAbi.LinkerName.Ident
import ClassAbi.Proofs.Text.Numeral
import ClassAbi.Proofs.Text.Utf8

/-!
# Escaped identifiers

Reading an escaped identifier gives back its characters (`unescape_escaped`): an underscore that is written as itself is
never followed by `_U`, so the marker `__U` stands only where an escape was written. The escaped form begins with a digit
exactly when the identifier does. If it does, the digits at its front can be lost to the number that stands before it;
what is then read from the rest cannot begin with a digit again (`clearStart_escapeChars`).
-/

namespace ClassAbi.LinkerName

variable {b : UInt8} {t s ident : Text}

open Ascii Text

def escaped (ident : Text) : Text := escapeChars false ident.chars

def DigitLed (t : Text) : Prop := t.head?.any isDigit = true

instance : DecidablePred DigitLed := fun t => inferInstanceAs (Decidable (t.head?.any isDigit = true))

@[simp] theorem not_digitLed_nil : ¬DigitLed [] := by
  simp [DigitLed]

@[simp] theorem digitLed_cons : DigitLed (b :: t) ↔ isDigit b = true := by
  simp [DigitLed]

theorem digitLed_append (h : s ≠ []) : DigitLed (s ++ t) ↔ DigitLed s := by
  obtain ⟨b, s, rfl⟩ := List.exists_cons_of_ne_nil h
  simp

theorem escape_eq_ok_iff : escape ident = .ok t ↔ ident ≠ [] ∧ t = escaped ident := by
  cases ident with
  | nil => simp [escape]
  | cons b r => simp [escape, escaped, eq_comm]

/-! ### Characters -/

section

variable {c : Char}

theorem isPlain_cases (h : isPlain c = true) : c = '_' ∨ c = '$' ∨ 0x30 ≤ c.toNat ∧ c.toNat ≤ 0x39 ∨
    0x41 ≤ c.toNat ∧ c.toNat ≤ 0x5A ∨ 0x61 ≤ c.toNat ∧ c.toNat ≤ 0x7A := by
  simp only [isPlain, Char.isAlphanum, Char.isAlpha, Char.isUpper, Char.isLower, Char.isDigit, Bool.or_eq_true,
    beq_iff_eq, Bool.and_eq_true, decide_eq_true_eq, UInt32.le_iff_toNat_le, ge_iff_le] at h
  rcases h with (h | h) | (h | h) | h
  · exact .inl h
  · exact .inr (.inl h)
  · exact .inr (.inr (.inr (.inl h)))
  · exact .inr (.inr (.inr (.inr h)))
  · exact .inr (.inr (.inl h))

theorem toNat_lt_of_isPlain (h : isPlain c = true) : c.toNat < 0x80 := by
  rcases isPlain_cases h with rfl | rfl | h
  · decide
  · decide
  · omega

theorem toNat_byte_of_isPlain (h : isPlain c = true) : c.toNat.toUInt8.toNat = c.toNat := by
  have hlt := toNat_lt_of_isPlain h
  rw [Nat.toUInt8, UInt8.toNat_ofNat']
  omega

theorem ofChar_of_isPlain (h : isPlain c = true) : ofChar c = [c.toNat.toUInt8] := by
  have hlt := toNat_lt_of_isPlain h
  rw [show ofChar c = ofChar (Char.ofNat c.toNat) by rw [Char.ofNat_toNat], ofChar_ofNat (k := c.toNat) c.valid,
    if_pos (by omega)]

theorem toNat_ofNat_of_lt (h : b.toNat < 0x80) : (Char.ofNat b.toNat).toNat = b.toNat := by
  rw [Char.toNat, Char.ofNat, dif_pos (.inl (by omega))]
  simp [Char.ofNatAux, UInt32.toNat]

theorem isPlain_of_isDigit (h : isDigit b = true) : isPlain (Char.ofNat b.toNat) = true := by
  obtain ⟨hlow, hhigh⟩ := isDigit_iff.1 h
  generalize b.toNat = n at hlow hhigh
  interval_cases n <;> decide

theorem not_digitLed_ofChar (h : isPlain c ≠ true) (t : Text) : ¬DigitLed (ofChar c ++ t) := by
  have hne : ofChar c ≠ [] := String.utf8EncodeChar_ne_nil
  rw [digitLed_append hne]
  obtain ⟨b, r, hbr⟩ := List.exists_cons_of_ne_nil hne
  rw [hbr, digitLed_cons]
  intro hb
  have hlt : b.toNat < 0x80 := by have := isDigit_iff.1 hb; omega
  obtain ⟨_, rfl⟩ := ofChar_of_mem_lt (by rw [hbr]; simp) hlt
  exact h (isPlain_of_isDigit hb)

theorem ofScalar_toNat (c : Char) : ofScalar (c.toNat : Int) = ofChar c := by
  have hvalid : c.toNat.isValidChar := c.valid
  rw [ofScalar, if_pos ⟨Int.natCast_nonneg _, by simpa using hvalid⟩, Int.toNat_natCast, Char.ofNat_toNat]

end

/-! ### Reading -/

section

variable {whole t : Text}

theorem unescapeFrom_cons (h : ∀ r, b = underscore → t ≠ underscore :: upperU :: r) :
    unescapeFrom whole (b :: t) = (b :: ·) <$> unescapeFrom whole t := by
  rw [unescapeFrom.eq_3 whole b t fun r hb ht => h r hb ht]
  cases unescapeFrom whole t <;> rfl

theorem unescapeFrom_marker {digits r : Text} (hne : digits ≠ []) (h : underscore ∉ digits) {n : Int}
    (hn : readInt 16 32 digits = .ok n) :
    unescapeFrom whole (underscore :: underscore :: upperU :: (digits ++ underscore :: r)) =
      (ofScalar n ++ ·) <$> unescapeFrom whole r := by
  refine (unescapeFrom.eq_2 whole _).trans ?_
  split
  · next heq =>
    rw [dropWhile_ne_append h] at heq
    cases heq
  · next rest heq =>
    rw [dropWhile_ne_append h, List.cons.injEq] at heq
    obtain ⟨_, rfl⟩ := heq
    simp only [takeWhile_ne_append h, hn, List.isEmpty_eq_false_iff.2 hne, Bool.false_eq_true, ↓reduceIte]
    cases unescapeFrom whole r <;> rfl

theorem unescapeFrom_open (h : underscore ∉ t) :
    unescapeFrom whole (underscore :: underscore :: upperU :: t) = .error (escapeError whole t .openEscape) := by
  have hdrop : t.dropWhile (· != underscore) = [] :=
    List.dropWhile_eq_nil_iff.2 fun b hb => bne_iff_ne.2 fun heq => h (heq ▸ hb)
  refine (unescapeFrom.eq_2 whole t).trans ?_
  split
  · rfl
  · next heq =>
    rw [hdrop] at heq
    cases heq

theorem escapeChar_eq (c : Char) :
    escapeChar c = underscore :: underscore :: upperU :: (ofHex c.toNat ++ [underscore]) := by
  rw [escapeChar, show escapeMarker = [underscore, underscore, upperU] from rfl]
  rfl

theorem escapeChar_append (c : Char) (t : Text) :
    escapeChar c ++ t = underscore :: underscore :: upperU :: (ofHex c.toNat ++ underscore :: t) := by
  rw [escapeChar_eq]
  simp

theorem unescapeFrom_escapeChar (c : Char) :
    unescapeFrom whole (escapeChar c ++ t) = (ofChar c ++ ·) <$> unescapeFrom whole t := by
  have hlt : c.toNat < 2 ^ 31 := by
    have hvalid : c.toNat < 0xD800 ∨ 0xDFFF < c.toNat ∧ c.toNat < 0x110000 := c.valid
    omega
  have hne : ofHex c.toNat ≠ [] := ofNatIn_ne_nil 16 c.toNat
  rw [escapeChar_append, unescapeFrom_marker hne (underscore_not_mem_ofHex c.toNat) (readInt_ofHex hlt), ofScalar_toNat]

end

/-! ### Writing -/

section

variable {c : Char} {cs : List Char} {t : Text} {afterUnderscore : Bool}

theorem escapeChars_cons_plain (h : isPlain c = true)
    (hU : c = '_' → afterUnderscore = true → cs.head? ≠ some 'U') :
    escapeChars afterUnderscore (c :: cs) = c.toNat.toUInt8 :: escapeChars (c == '_') cs := by
  rw [escapeChars, if_pos]
  simp only [h, Bool.true_and, Bool.not_eq_true', Bool.and_eq_false_imp, Bool.and_eq_true, beq_iff_eq,
    beq_eq_false_iff_ne, and_imp]
  exact hU

theorem escapeChars_cases (afterUnderscore : Bool) (c : Char) (cs : List Char) :
    (isPlain c = true ∧ (c = '_' → afterUnderscore = true → cs.head? ≠ some 'U') ∧
      escapeChars afterUnderscore (c :: cs) = c.toNat.toUInt8 :: escapeChars (c == '_') cs) ∨
    (c = '_' ∧ afterUnderscore = true ∨ isPlain c ≠ true) ∧
      escapeChars afterUnderscore (c :: cs) = escapeChar c ++ escapeChars true cs := by
  by_cases h : isPlain c = true ∧ (c = '_' → afterUnderscore = true → cs.head? ≠ some 'U')
  · exact .inl ⟨h.1, h.2, escapeChars_cons_plain h.1 h.2⟩
  · refine .inr ⟨?_, ?_⟩
    · by_cases hplain : isPlain c = true
      · simp only [hplain, true_and, not_forall] at h
        obtain ⟨h1, h2, -⟩ := h
        exact .inl ⟨h1, h2⟩
      · exact .inr hplain
    · rw [escapeChars, if_neg]
      simpa [and_assoc] using h

theorem eq_of_byte_eq (h : isPlain c = true) (hb : c.toNat.toUInt8 = b) : c = Char.ofNat b.toNat := by
  rw [← hb, toNat_byte_of_isPlain h, Char.ofNat_toNat]

theorem escapeChars_ne_marker (h_ : t.head? ≠ some underscore) (hU : t.head? ≠ some upperU) (cs : List Char) (r : Text) :
    escapeChars true cs ++ t ≠ underscore :: upperU :: r := by
  cases cs with
  | nil =>
    intro heq
    exact h_ (by rw [show t = underscore :: upperU :: r from heq]; rfl)
  | cons c cs =>
    rcases escapeChars_cases true c cs with ⟨hplain, hnext, heq⟩ | ⟨-, heq⟩
    · -- Here `c` is an underscore written as itself, so no `U` comes next.
      rw [heq, List.cons_append, Ne, List.cons.injEq]
      rintro ⟨hb, hrest⟩
      obtain rfl : c = '_' := eq_of_byte_eq hplain hb
      cases cs with
      | nil => exact hU (by rw [show t = upperU :: r from hrest]; rfl)
      | cons c cs =>
        rcases escapeChars_cases true c cs with ⟨hplain, -, heq⟩ | ⟨-, heq⟩
        · rw [beq_self_eq_true, heq, List.cons_append, List.cons.injEq] at hrest
          exact hnext rfl rfl (congrArg some (eq_of_byte_eq hplain hrest.1))
        · rw [beq_self_eq_true, heq, escapeChar_eq] at hrest
          exact absurd (List.cons.inj hrest).1 (by decide)
    · rw [heq, escapeChar_eq]
      intro hmarker
      exact absurd (List.cons.inj (List.cons.inj hmarker).2).1 (by decide)

end

theorem unescapeFrom_escapeChars (whole : Text) (afterUnderscore : Bool) (cs : List Char) :
    unescapeFrom whole (escapeChars afterUnderscore cs) = .ok (cs.flatMap ofChar) := by
  induction cs generalizing afterUnderscore with
  | nil => exact unescapeFrom.eq_1 whole
  | cons c cs ih =>
    rcases escapeChars_cases afterUnderscore c cs with ⟨hplain, -, heq⟩ | ⟨-, heq⟩
    · have hmarker : ∀ r, c.toNat.toUInt8 = underscore → escapeChars (c == '_') cs ≠ underscore :: upperU :: r := by
        intro r hb
        obtain rfl : c = '_' := eq_of_byte_eq hplain hb
        simpa using escapeChars_ne_marker (t := []) (by simp) (by simp) cs r
      rw [heq, unescapeFrom_cons hmarker, ih, List.flatMap_cons, ofChar_of_isPlain hplain]
      rfl
    · rw [heq, unescapeFrom_escapeChar, ih, List.flatMap_cons]
      rfl

@[simp] theorem unescape_escaped (ident : Text) : unescape (escaped ident) = .ok ident.repaired :=
  unescapeFrom_escapeChars _ false ident.chars

/-! ### Plain bytes -/

/-- Whether a byte is a letter, a digit, `_` or `$`. -/
def IsPlainByte (b : UInt8) : Prop :=
  b = underscore ∨ b = 0x24 ∨ 0x30 ≤ b.toNat ∧ b.toNat ≤ 0x39 ∨ 0x41 ≤ b.toNat ∧ b.toNat ≤ 0x5A ∨
    0x61 ≤ b.toNat ∧ b.toNat ≤ 0x7A

theorem isPlainByte_of_isPlain {c : Char} (h : isPlain c = true) : IsPlainByte c.toNat.toUInt8 := by
  rw [IsPlainByte, toNat_byte_of_isPlain h]
  rcases isPlain_cases h with rfl | rfl | h
  · exact .inl rfl
  · exact .inr (.inl rfl)
  · exact .inr (.inr h)

theorem isPlainByte_of_mem_ofHex {n : Nat} (hb : b ∈ ofHex n) : IsPlainByte b := by
  obtain ⟨d, hd, rfl⟩ := mem_ofNatIn (by decide) hb
  refine .inr (.inr ?_)
  interval_cases d <;> decide

theorem isPlainByte_escapeChars (afterUnderscore : Bool) (cs : List Char) : ∀ b ∈ escapeChars afterUnderscore cs, IsPlainByte b := by
  induction cs generalizing afterUnderscore with
  | nil => simp [escapeChars]
  | cons c cs ih =>
    rcases escapeChars_cases afterUnderscore c cs with ⟨hplain, -, heq⟩ | ⟨-, heq⟩
    · rw [heq, List.forall_mem_cons]
      exact ⟨isPlainByte_of_isPlain hplain, ih _⟩
    · have hU : IsPlainByte upperU := .inr (.inr (.inr (.inl (by decide))))
      rw [heq, escapeChar_append]
      simp only [List.forall_mem_cons, List.forall_mem_append]
      exact ⟨.inl rfl, .inl rfl, hU, fun _ => isPlainByte_of_mem_ofHex, .inl rfl, ih true⟩

/-- Every identifier that is not empty has an escaped form, which has plain bytes only and is read as the identifier with
U+FFFD in the place of its stray bytes. -/
theorem escape_undone (h : ident ≠ []) :
    ∃ t, escape ident = .ok t ∧ (∀ b ∈ t, IsPlainByte b) ∧ unescape t = .ok ident.repaired ∧
      (ident.isValid = true → unescape t = .ok ident) := by
  refine ⟨escaped ident, escape_eq_ok_iff.2 ⟨h, rfl⟩, isPlainByte_escapeChars false _, unescape_escaped ident, fun hvalid => ?_⟩
  rw [unescape_escaped, repaired_eq_self_iff.2 hvalid]

/-- The second underscore of a marker and the character after an escape are told apart. -/
theorem escape_undone_marker : escape "a-_U__U" = .ok "a__U2d___U5f_U___U5f_U" ∧ unescape "a__U2d___U5f_U___U5f_U" = .ok "a-_U__U" := by
  have hescape : escape "a-_U__U" = .ok "a__U2d___U5f_U___U5f_U" := by cbv
  obtain ⟨t, ht, -, -, hback⟩ := @escape_undone "a-_U__U" (by decide)
  cases hescape.symm.trans ht
  exact ⟨hescape, hback (by decide +kernel)⟩

/-! ### Digits at the front -/

theorem not_digitLed_escapeChar (c : Char) (t : Text) : ¬DigitLed (escapeChar c ++ t) := by
  rw [escapeChar_eq, List.cons_append, digitLed_cons]
  decide

theorem digitLed_escaped (ident : Text) : DigitLed (escaped ident) ↔ DigitLed ident := by
  cases ident with
  | nil => simp [escaped, chars, escapeChars]
  | cons a rest =>
    by_cases ha : a.toNat < 0x80
    · rw [escaped, chars_cons_of_lt ha, digitLed_cons]
      rcases escapeChars_cases false (Char.ofNat a.toNat) (chars rest) with ⟨hplain, -, heq⟩ | ⟨hcase, heq⟩
      · rw [heq, digitLed_cons, toNat_ofNat_of_lt ha, Nat.toUInt8, UInt8.ofNat_toNat]
      · have hplain : isPlain (Char.ofNat a.toNat) ≠ true := by simpa using hcase
        rw [heq]
        exact ⟨fun h => absurd h (not_digitLed_escapeChar _ _), fun h => absurd (isPlain_of_isDigit h) hplain⟩
    · obtain ⟨c, cs, hcs, hc⟩ := exists_chars_cons_of_le (Nat.not_lt.1 ha) rest
      have hplain : isPlain c ≠ true := fun h => absurd (toNat_lt_of_isPlain h) (by omega)
      rw [escaped, hcs, digitLed_cons, isDigit_iff]
      rcases escapeChars_cases false c cs with ⟨h, -, -⟩ | ⟨-, heq⟩
      · exact absurd h hplain
      · rw [heq]
        exact ⟨fun h => absurd h (not_digitLed_escapeChar _ _), fun h => by omega⟩

theorem escaped_ne_nil (h : ident ≠ []) : escaped ident ≠ [] := by
  obtain ⟨c, cs, hcs⟩ := List.exists_cons_of_ne_nil (chars_ne_nil h)
  rw [escaped, hcs]
  rcases escapeChars_cases false c cs with ⟨-, -, heq⟩ | ⟨-, heq⟩
  · rw [heq]
    simp
  · rw [heq, escapeChar_eq]
    simp

/-- No identifier that is read from the start of a text, past the digits there, begins with a digit. -/
def ClearStart (t : Text) : Prop :=
  ∀ raw ident, raw ≠ [] → raw <+: t.dropWhile isDigit → unescape raw = .ok ident → ¬DigitLed ident

section

variable {t : Text}

theorem clearStart_cons_digit (hb : isDigit b = true) (h : ClearStart t) : ClearStart (b :: t) := by
  rw [ClearStart, List.dropWhile_cons_of_pos hb]
  exact h

theorem clearStart_append_digits (hs : ∀ b ∈ s, isDigit b = true) (h : ClearStart t) : ClearStart (s ++ t) := by
  rw [ClearStart, List.dropWhile_append_of_pos hs]
  exact h

theorem not_digitLed_of_unescape {raw : Text} (hb : isDigit b ≠ true)
    (hmarker : ∀ r, b = underscore → raw ≠ underscore :: upperU :: r) (hread : unescape (b :: raw) = .ok ident) :
    ¬DigitLed ident := by
  rw [unescape, unescapeFrom_cons hmarker] at hread
  cases hrest : unescapeFrom (b :: raw) raw with
  | error e =>
    rw [hrest] at hread
    cases hread
  | ok rest =>
    rw [hrest] at hread
    obtain rfl : b :: rest = ident := Except.ok.inj hread
    rwa [digitLed_cons]

theorem clearStart_cons (hb : isDigit b ≠ true) (hmarker : ∀ r, b = underscore → t ≠ underscore :: upperU :: r) :
    ClearStart (b :: t) := by
  intro raw ident hne hprefix hread
  rw [List.dropWhile_cons_of_neg hb] at hprefix
  obtain ⟨b', raw, rfl⟩ := List.exists_cons_of_ne_nil hne
  obtain ⟨rfl, r, hr⟩ := List.cons_prefix_cons.1 hprefix
  refine not_digitLed_of_unescape hb (fun s hb' hs => ?_) hread
  exact hmarker (s ++ r) hb' (by rw [← hr, hs]; rfl)

theorem eq_append_of_prefix {digits : Text} (hdigits : underscore ∉ digits) (hs : underscore ∈ s)
    (h : s <+: digits ++ underscore :: t) : ∃ r, s = digits ++ underscore :: r := by
  have hwhole : digits ++ [underscore] <+: digits ++ underscore :: t := ⟨t, by simp⟩
  rcases List.prefix_or_prefix_of_prefix h hwhole with hshort | ⟨r, hlong⟩
  · rcases List.prefix_concat_iff.1 hshort with heq | hshort
    · exact ⟨[], heq⟩
    · exact absurd (hshort.subset hs) hdigits
  · exact ⟨r, by rw [← hlong]; simp⟩

theorem clearStart_escapeChar {c : Char} (hc : isPlain c ≠ true) (t : Text) : ClearStart (escapeChar c ++ t) := by
  intro raw ident hne hprefix hread
  rw [escapeChar_append, List.dropWhile_cons_of_neg (by decide)] at hprefix
  obtain ⟨b, raw, rfl⟩ := List.exists_cons_of_ne_nil hne
  obtain ⟨rfl, hraw⟩ := List.cons_prefix_cons.1 hprefix
  by_cases hmarker : ∃ s, raw = underscore :: upperU :: s
  · obtain ⟨s, rfl⟩ := hmarker
    have hdigits := (List.cons_prefix_cons.1 (List.cons_prefix_cons.1 hraw).2).2
    by_cases hs : underscore ∈ s
    · obtain ⟨r, rfl⟩ := eq_append_of_prefix (underscore_not_mem_ofHex c.toNat) hs hdigits
      rw [← escapeChar_append, unescape, unescapeFrom_escapeChar] at hread
      cases hrest : unescapeFrom (escapeChar c ++ r) r with
      | error e =>
        rw [hrest] at hread
        cases hread
      | ok rest =>
        rw [hrest] at hread
        obtain rfl : ofChar c ++ rest = ident := Except.ok.inj hread
        exact not_digitLed_ofChar hc rest
    · rw [unescape, unescapeFrom_open hs] at hread
      cases hread
  · exact not_digitLed_of_unescape (by decide) (fun r _ hr => hmarker ⟨r, hr⟩) hread

/-- Whatever digits at the front of an escaped form are lost, nothing that begins with one can be read from the rest. -/
theorem clearStart_escapeChars (h_ : t.head? ≠ some underscore) (hU : t.head? ≠ some upperU) (ht : ClearStart t)
    (cs : List Char) : ClearStart (escapeChars false cs ++ t) := by
  induction cs with
  | nil => exact ht
  | cons c cs ih =>
    rcases escapeChars_cases false c cs with ⟨hplain, -, heq⟩ | ⟨hcase, heq⟩
    · rw [heq, List.cons_append]
      by_cases hdigit : isDigit c.toNat.toUInt8 = true
      · have hc : (c == '_') = false := by
          rw [beq_eq_false_iff_ne]
          rintro rfl
          exact absurd hdigit (by decide)
        rw [hc]
        exact clearStart_cons_digit hdigit ih
      · refine clearStart_cons hdigit fun r hb => ?_
        obtain rfl : c = '_' := eq_of_byte_eq hplain hb
        exact escapeChars_ne_marker h_ hU cs r
    · have hplain : isPlain c ≠ true := by simpa using hcase
      rw [heq, List.append_assoc]
      exact clearStart_escapeChar hplain _

end

end ClassAbi.LinkerName
