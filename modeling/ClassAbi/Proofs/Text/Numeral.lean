import ClassAbi.Text.Ascii
import ClassAbi.Text.Number
import Mathlib

/-!
# Numerals

What is written by `ofNat` and `ofHex` is read back, and decimal digits in any number are read as the number that they
spell (`numeral`), leading zeros included, as long as it fits.
-/

namespace ClassAbi.Text

variable {b : UInt8} {base n max acc : Nat} {t : Text}

open Ascii

def withDigit (n : Nat) (b : UInt8) : Nat := n * 10 + (b.toNat - 0x30)

def numeral (t : Text) : Nat := t.foldl withDigit 0

/-! ### Digits -/

theorem isDigit_iff : isDigit b = true ↔ 0x30 ≤ b.toNat ∧ b.toNat ≤ 0x39 := by
  simp only [isDigit, Bool.and_eq_true, decide_eq_true_eq, UInt8.le_iff_toNat_le]
  rfl

theorem digitValue?_digit (hbase : base ≤ 16) (h : n < base) : digitValue? base (digit n) = some n := by
  have hn : n < 16 := by omega
  interval_cases n <;> simp [digit, digitValue?, h]

theorem isDigit_digit (h : n < 10) : isDigit (digit n) = true := by
  interval_cases n <;> decide

theorem toNat_digit (h : n < 10) : (digit n).toNat = n + 0x30 := by
  interval_cases n <;> decide

theorem readDigits_cons_of_isDigit (h : isDigit b = true) (t : Text) :
    readDigits 10 max acc (b :: t) =
      if max < withDigit acc b then .error .outOfRange else readDigits 10 max (withDigit acc b) t := by
  have hb := isDigit_iff.1 h
  have h' : (0x30 : UInt8) ≤ b ∧ b ≤ 0x39 := ⟨UInt8.le_iff_toNat_le.2 hb.1, UInt8.le_iff_toNat_le.2 hb.2⟩
  have hvalue : digitValue? 10 b = some (b.toNat - 0x30) := by
    simp only [digitValue?, h', and_self, ↓reduceIte, Option.filter_some]
    rw [if_pos]
    simp only [decide_eq_true_eq]
    omega
  rw [readDigits, hvalue]
  rfl

/-! ### Writing -/

theorem ofNatIn_of_lt (h : n < base) : ofNatIn base n = [digit n] := by
  rw [ofNatIn, if_neg (by omega)]

theorem ofNatIn_of_le (hbase : 2 ≤ base) (h : base ≤ n) :
    ofNatIn base n = ofNatIn base (n / base) ++ [digit (n % base)] := by
  rw [ofNatIn, if_pos ⟨hbase, h⟩]

theorem ofNatIn_ne_nil (base n : Nat) : ofNatIn base n ≠ [] := by
  rw [ofNatIn]
  split_ifs <;> simp

theorem mem_ofNatIn (hbase : 2 ≤ base) (hb : b ∈ ofNatIn base n) : ∃ d < base, b = digit d := by
  induction n using Nat.strongRecOn with
  | ind n ih =>
    by_cases h : n < base
    · rw [ofNatIn_of_lt h, List.mem_singleton] at hb
      exact ⟨n, h, hb⟩
    · rw [ofNatIn_of_le hbase (by omega), List.mem_append, List.mem_singleton] at hb
      rcases hb with hb | hb
      · exact ih (n / base) (Nat.div_lt_self (by omega) hbase) hb
      · exact ⟨n % base, Nat.mod_lt n (by omega), hb⟩

theorem isDigit_of_mem_ofNat (hb : b ∈ ofNat n) : isDigit b = true := by
  obtain ⟨d, hd, rfl⟩ := mem_ofNatIn (by decide) hb
  exact isDigit_digit hd

theorem underscore_not_mem_ofHex (n : Nat) : underscore ∉ ofHex n := by
  intro h
  obtain ⟨d, hd, h⟩ := mem_ofNatIn (by decide) h
  interval_cases d <;> exact absurd h (by decide)

theorem ofNat_mul_ten_add {d : Nat} (hn : 0 < n) (hd : d < 10) : ofNat (n * 10 + d) = ofNat n ++ [digit d] := by
  rw [ofNat, ofNatIn_of_le (by decide) (by omega), show (n * 10 + d) / 10 = n by omega,
    show (n * 10 + d) % 10 = d by omega]
  rfl

/-! ### Reading -/

theorem readDigits_append (base max acc : Nat) (s t : Text) :
    readDigits base max acc (s ++ t) = readDigits base max acc s >>= fun acc => readDigits base max acc t := by
  induction s generalizing acc with
  | nil => rfl
  | cons b s ih =>
    rw [List.cons_append, readDigits, readDigits]
    cases digitValue? base b with
    | none => rfl
    | some d =>
      simp only
      split_ifs
      · rfl
      · exact ih (acc * base + d)

theorem readDigits_ofNatIn (hlow : 2 ≤ base) (hhigh : base ≤ 16) (hn : n ≤ max) :
    readDigits base max 0 (ofNatIn base n) = .ok n := by
  induction n using Nat.strongRecOn with
  | ind n ih =>
    by_cases h : n < base
    · rw [ofNatIn_of_lt h, readDigits, digitValue?_digit hhigh h]
      simp only [Nat.zero_mul, Nat.zero_add]
      rw [if_neg (by omega), readDigits]
    · have hdiv : n / base < n := Nat.div_lt_self (by omega) hlow
      have hmod : n % base < base := Nat.mod_lt n (by omega)
      have hsum : n / base * base + n % base = n := Nat.div_add_mod' n base
      rw [ofNatIn_of_le hlow (by omega), readDigits_append, ih (n / base) hdiv (by omega)]
      show readDigits base max (n / base) [digit (n % base)] = .ok n
      rw [readDigits, digitValue?_digit hhigh hmod]
      simp only [hsum]
      rw [if_neg (by omega), readDigits]

theorem readInt_ofHex (h : n < 2 ^ 31) : readInt 16 32 (ofHex n) = .ok n := by
  have hsign : takeSign (ofHex n) = (false, ofHex n) := by
    obtain ⟨b, t, ht⟩ := List.exists_cons_of_ne_nil (ofNatIn_ne_nil 16 n)
    have hb : b ∈ ofHex n := by rw [ofHex, ht]; simp
    obtain ⟨d, hd, rfl⟩ := mem_ofNatIn (by decide) hb
    rw [ofHex, ht]
    interval_cases d <;> rfl
  have hread : readNat 16 32 (ofHex n) = .ok n := by
    have hmax : n ≤ (1 <<< 32) - 1 := by omega
    rw [readNat, if_neg (by simpa [ofHex] using ofNatIn_ne_nil 16 n)]
    exact readDigits_ofNatIn (by decide) (by decide) hmax
  rw [readInt, hsign]
  simp only [hread]
  show signed 32 false n = .ok (n : Int)
  have hsmall : ¬1 <<< 31 ≤ n := by omega
  rw [signed, if_neg (by decide)]
  exact if_neg hsmall

theorem le_foldl_withDigit (acc : Nat) (t : Text) : acc ≤ t.foldl withDigit acc := by
  induction t generalizing acc with
  | nil => exact Nat.le_refl acc
  | cons b t ih => exact Nat.le_trans (by rw [withDigit]; omega) (ih (withDigit acc b))

theorem readDigits_of_le (h : ∀ b ∈ t, isDigit b = true) (hmax : t.foldl withDigit acc ≤ max) :
    readDigits 10 max acc t = .ok (t.foldl withDigit acc) := by
  induction t generalizing acc with
  | nil => rfl
  | cons b t ih =>
    rw [List.foldl_cons] at hmax
    have hle := le_foldl_withDigit (withDigit acc b) t
    rw [readDigits_cons_of_isDigit (h b (by simp)), if_neg (by omega), List.foldl_cons]
    exact ih (fun c hc => h c (List.mem_cons_of_mem b hc)) hmax

/-- Reading stops at the first number that is too large, wherever in the digits that is. -/
theorem readDigits_of_lt (h : ∀ b ∈ t, isDigit b = true) (hacc : acc ≤ max) (hmax : max < t.foldl withDigit acc) :
    readDigits 10 max acc t = .error .outOfRange := by
  induction t generalizing acc with
  | nil => exact absurd hacc (Nat.not_le.2 hmax)
  | cons b t ih =>
    rw [List.foldl_cons] at hmax
    rw [readDigits_cons_of_isDigit (h b (by simp))]
    by_cases hnext : withDigit acc b ≤ max
    · rw [if_neg (by omega)]
      exact ih (fun c hc => h c (List.mem_cons_of_mem b hc)) hnext hmax
    · rw [if_pos (by omega)]

theorem readNat_of_lt {bits : Nat} (hne : t ≠ []) (h : ∀ b ∈ t, isDigit b = true) (hlt : numeral t < 2 ^ bits) :
    readNat 10 bits t = .ok (numeral t) := by
  have hmax : numeral t ≤ (1 <<< bits) - 1 := by
    rw [Nat.one_shiftLeft]
    omega
  rw [readNat, if_neg (by simpa using hne)]
  exact readDigits_of_le h hmax

theorem readNat_of_le {bits : Nat} (h : ∀ b ∈ t, isDigit b = true) (hle : 2 ^ bits ≤ numeral t) :
    ∃ e, readNat 10 bits t = .error e := by
  have hpos : 0 < 2 ^ bits := Nat.two_pow_pos bits
  have hmax : (1 <<< bits) - 1 < numeral t := by
    rw [Nat.one_shiftLeft]
    omega
  rw [readNat]
  split_ifs
  · exact ⟨_, rfl⟩
  · exact ⟨_, readDigits_of_lt h (Nat.zero_le _) hmax⟩

@[simp] theorem numeral_ofNat (n : Nat) : numeral (ofNat n) = n := by
  have hdigits : ∀ b ∈ ofNat n, isDigit b = true := fun b hb => isDigit_of_mem_ofNat hb
  have hread := readDigits_of_le hdigits (Nat.le_max_right n (numeral (ofNat n)))
  have hback : readDigits 10 (max n (numeral (ofNat n))) 0 (ofNat n) = .ok n :=
    readDigits_ofNatIn (by decide) (by decide) (Nat.le_max_left n _)
  rw [hback] at hread
  exact (Except.ok.inj hread).symm

theorem ofNat_injective : Function.Injective ofNat := fun j k h => by simpa using congrArg numeral h

end ClassAbi.Text
