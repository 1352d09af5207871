import Mathlib.Data.Int.ModEq
import Mathlib.Tactic.Ring
import ClassAbi.Hash
import ClassAbi.Proofs.Text.Utf8

/-!
# The hash is a polynomial

The accumulator of `nameHash` is the value at 31 of the polynomial of the bytes, up to multiples of `2 ^ 32`, however often
it overflows (`foldl_hashStep_modEq`). So the hash is this value modulo `2 ^ 16`, the hash of a text follows from those of
its parts, and for ASCII it is the low half of the hash code that the string has in the language.
-/

namespace ClassAbi

/-- The value at 31 of the polynomial whose coefficients are the bytes, read as signed numbers, the leading one first. -/
def bytePolynomial (t : Text) : ℤ := (t.mapIdx fun i b => 31 ^ (t.length - 1 - i) * b.toInt8.toInt).sum

theorem bytePolynomial_cons (b : UInt8) (t : Text) :
    bytePolynomial (b :: t) = 31 ^ t.length * b.toInt8.toInt + bytePolynomial t := by
  have hshift : ∀ i, (b :: t).length - 1 - (i + 1) = t.length - 1 - i := fun i => by
    rw [List.length_cons]
    omega
  rw [bytePolynomial, List.mapIdx_cons, List.sum_cons]
  simp only [hshift]
  rfl

theorem toNat_toUInt32_modEq (x : Int32) : (x.toUInt32.toNat : ℤ) ≡ x.toInt [ZMOD 2 ^ 32] := by
  have hbits : x.toInt = (x.toUInt32.toNat : ℤ).bmod (2 ^ 32) := BitVec.toInt_eq_toNat_bmod _
  rw [hbits]
  exact (Int.bmod_emod ..).symm

theorem hashStep_modEq (h : UInt32) (b : UInt8) :
    ((hashStep h b).toNat : ℤ) ≡ 31 * h.toNat + b.toInt8.toInt [ZMOD 2 ^ 32] := by
  have hbyte := toNat_toUInt32_modEq b.toInt8.toInt32
  rw [Int8.toInt_toInt32] at hbyte
  rw [hashStep, UInt32.toNat_add, UInt32.toNat_mul]
  push_cast
  exact (Int.mod_modEq _ _).trans ((Int.mod_modEq _ _).add hbyte)

theorem foldl_hashStep_modEq (t : Text) (h : UInt32) :
    ((t.foldl hashStep h).toNat : ℤ) ≡ 31 ^ t.length * h.toNat + bytePolynomial t [ZMOD 2 ^ 32] := by
  induction t generalizing h with
  | nil => simp [bytePolynomial]
  | cons b t ih =>
    rw [List.foldl_cons, bytePolynomial_cons, List.length_cons]
    calc ((t.foldl hashStep (hashStep h b)).toNat : ℤ)
      _ ≡ 31 ^ t.length * (hashStep h b).toNat + bytePolynomial t [ZMOD 2 ^ 32] := ih (hashStep h b)
      _ ≡ 31 ^ t.length * (31 * h.toNat + b.toInt8.toInt) + bytePolynomial t [ZMOD 2 ^ 32] :=
        ((hashStep_modEq h b).mul_left _).add_right _
      _ = 31 ^ (t.length + 1) * h.toNat + (31 ^ t.length * b.toInt8.toInt + bytePolynomial t) := by ring

theorem toNat_toUInt16_modEq {h : UInt32} {n : ℤ} (hn : (h.toNat : ℤ) ≡ n [ZMOD 2 ^ 32]) :
    (h.toUInt16.toNat : ℤ) ≡ n [ZMOD 2 ^ 16] := by
  rw [UInt32.toNat_toUInt16]
  push_cast
  exact (Int.mod_modEq _ _).trans (hn.of_dvd (by norm_num))

theorem nameHash_modEq (t : Text) : ((nameHash t).toNat : ℤ) ≡ bytePolynomial t [ZMOD 2 ^ 16] := by
  have hfold := foldl_hashStep_modEq t 0
  rw [UInt32.toNat_zero, Nat.cast_zero, mul_zero, zero_add] at hfold
  exact toNat_toUInt16_modEq hfold

theorem nameHash_append_modEq (s t : Text) :
    ((nameHash (s ++ t)).toNat : ℤ) ≡ 31 ^ t.length * (nameHash s).toNat + (nameHash t).toNat [ZMOD 2 ^ 16] := by
  have hfold := foldl_hashStep_modEq t (s.foldl hashStep 0)
  rw [← List.foldl_append] at hfold
  refine (toNat_toUInt16_modEq hfold).trans (Int.ModEq.add (Int.ModEq.mul_left _ ?_) (nameHash_modEq t).symm)
  exact (toNat_toUInt16_modEq (Int.ModEq.refl _)).symm

theorem toNat_emod_self (h : UInt16) : (h.toNat : ℤ) % 2 ^ 16 = h.toNat :=
  Int.emod_eq_of_lt (Int.natCast_nonneg _) (by exact_mod_cast h.toNat_lt)

/-! ### Hash codes of strings -/

/-- The code units of a character in UTF-16: one, or a surrogate pair. -/
def utf16 (c : Char) : List UInt16 :=
  if c.toNat < 0x10000 then [c.toNat.toUInt16]
  else [(0xD800 + (c.toNat - 0x10000) / 0x400).toUInt16, (0xDC00 + (c.toNat - 0x10000) % 0x400).toUInt16]

/-- The hash code in the language of the string that a text stands for: a sum over its code units in 32-bit arithmetic. -/
def stringHash (t : Text) : Int32 := (t.chars.flatMap utf16).foldl (fun h u => 31 * h + u.toUInt32.toInt32) 0

theorem flatMap_utf16_of_ascii {t : Text} (h : ∀ b ∈ t, b < 0x80) : t.chars.flatMap utf16 = t.map UInt8.toUInt16 := by
  induction t with
  | nil => simp [Text.chars]
  | cons b t ih =>
    rw [List.forall_mem_cons] at h
    have hb : b.toNat < 0x80 := UInt8.lt_iff_toNat_lt.1 h.1
    have hchar : (Char.ofNat b.toNat).toNat = b.toNat := by rw [Char.toNat_ofNat, if_pos (.inl (by omega))]
    rw [Text.chars_cons_of_lt hb, List.flatMap_cons, ih h.2, utf16, hchar, if_pos (by omega), List.singleton_append,
      List.map_cons]
    exact congrArg (· :: _) (UInt16.ofNat_uInt8ToNat b)

theorem toUInt32_of_ascii {b : UInt8} (h : b < 0x80) : b.toInt8.toInt32.toUInt32 = b.toUInt16.toUInt32 := by
  have hb : b.toNat < 0x80 := UInt8.lt_iff_toNat_lt.1 h
  have hsigned : b.toInt8.toInt = b.toNat := BitVec.toInt_eq_toNat_of_lt (by change 2 * b.toNat < 2 ^ 8; omega)
  have hword := toNat_toUInt32_modEq b.toInt8.toInt32
  rw [Int8.toInt_toInt32, hsigned] at hword
  have hlt := b.toInt8.toInt32.toUInt32.toNat_lt
  have hnat : b.toInt8.toInt32.toUInt32.toNat = b.toNat := by
    rw [Int.ModEq] at hword
    omega
  exact UInt32.toNat_inj.1 (hnat.trans (by simp))

theorem foldl_hashStep_of_ascii {t : Text} (h : ∀ b ∈ t, b < 0x80) (k : Int32) :
    t.foldl hashStep k.toUInt32 = ((t.map UInt8.toUInt16).foldl (fun h u => 31 * h + u.toUInt32.toInt32) k).toUInt32 := by
  induction t generalizing k with
  | nil => rfl
  | cons b t ih =>
    rw [List.forall_mem_cons] at h
    have hstep : hashStep k.toUInt32 b = (31 * k + b.toUInt16.toUInt32.toInt32).toUInt32 := by
      rw [hashStep, toUInt32_of_ascii h.1, Int32.toUInt32_add, Int32.toUInt32_mul, UInt32.toUInt32_toInt32]
      rfl
    rw [List.foldl_cons, hstep, ih h.2, List.map_cons, List.foldl_cons]

/-- The hash is the polynomial of the bytes modulo `2 ^ 16`, so that of a text follows from those of its parts. For ASCII it
is the low half of the hash code of the string. -/
theorem nameHash_is_polynomial :
    (∀ t : Text, ((nameHash t).toNat : ℤ) = (t.mapIdx fun i b => 31 ^ (t.length - 1 - i) * b.toInt8.toInt).sum % 2 ^ 16) ∧
      (∀ s t : Text, (nameHash (s ++ t)).toNat = (31 ^ t.length * (nameHash s).toNat + (nameHash t).toNat) % 2 ^ 16) ∧
      ∀ t : Text, (∀ b ∈ t, b < 0x80) → nameHash t = (stringHash t).toUInt32.toUInt16 := by
  refine ⟨fun t => ?_, fun s t => ?_, fun t h => ?_⟩
  · rw [← toNat_emod_self]
    exact nameHash_modEq t
  · have happend := nameHash_append_modEq s t
    rw [Int.ModEq, toNat_emod_self] at happend
    exact_mod_cast happend
  · rw [stringHash, flatMap_utf16_of_ascii h, ← foldl_hashStep_of_ascii h]
    rfl

theorem nameHash_is_polynomial_letters :
    (∀ b ∈ (List.replicate 8 0x7A : Text), b < 0x80) ∧
      nameHash (List.replicate 8 0x7A) = (stringHash (List.replicate 8 0x7A)).toUInt32.toUInt16 :=
  ⟨by simp, nameHash_is_polynomial.2.2 _ (by simp)⟩

end ClassAbi
