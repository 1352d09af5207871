import ClassAbi.Module.Content
import ClassAbi.Proofs.Layout.Words

/-!
# Packed structs

The bytes that the types of a module take, and where the parts of a packed struct are: a part begins where the one before
it ends.
-/

namespace ClassAbi.Module

mutual

/-- The bytes of a type, where references have `p`. -/
def Ty.size (p : Nat) : Ty → Int
  | .void => 0
  | .int bits => (bits + 7) / 8
  | .float => 4
  | .double => 8
  | .ptr => p
  | .array count elem => count * elem.size p
  | .packed parts => sizeAll p parts

def sizeAll (p : Nat) : List Ty → Int
  | [] => 0
  | type :: types => type.size p + sizeAll p types

end

/-- Whether values are at the given offsets among the parts of a packed struct, and all other parts are padding. The parts
begin at `pos` and end at `stop`. -/
inductive Interleaved (p : Nat) : (pos : Int) → List Int → List (Ty × Const) → List (Ty × Const) → (stop : Int) → Prop
  | nil {pos : Int} : Interleaved p pos [] [] [] pos
  | member {pos stop : Int} {offsets : List Int} {value : Ty × Const} {values parts : List (Ty × Const)}
    (h : Interleaved p (pos + value.1.size p) offsets values parts stop) :
    Interleaved p pos (pos :: offsets) (value :: values) (value :: parts) stop
  | padding {pos stop count : Int} {offsets : List Int} {values parts : List (Ty × Const)} (hcount : 0 < count)
    (h : Interleaved p (pos + count) offsets values parts stop) :
    Interleaved p pos offsets values ((Ty.bytes count, .zeroes) :: parts) stop

variable {p : Nat}

theorem Ty.size_ofMode (mode : Mode) : (Ty.ofMode mode).size p = mode.bytes p := by
  cases mode <;> simp [Ty.ofMode, Ty.size, Mode.bytes, Mode.size]

theorem Ty.size_bytes (count : Int) : (Ty.bytes count).size p = count := by
  rw [Ty.bytes, Ty.size, Ty.size]
  norm_num

theorem size_packed (parts : List (Ty × Const)) : (packed parts).1.size p = sizeAll p (parts.map Prod.fst) := by
  rw [packed, Ty.size]

theorem Interleaved.sizeAll_eq {pos stop : Int} {offsets : List Int} {values parts : List (Ty × Const)}
    (h : Interleaved p pos offsets values parts stop) : pos + sizeAll p (parts.map Prod.fst) = stop := by
  induction h with
  | nil => rw [List.map_nil, sizeAll, add_zero]
  | member _ ih => rw [List.map_cons, sizeAll, ← add_assoc, ih]
  | padding _ _ ih => rw [List.map_cons, sizeAll, Ty.size_bytes, ← add_assoc, ih]

theorem Interleaved.size_packed_eq {stop : Int} {offsets : List Int} {values parts : List (Ty × Const)}
    (h : Interleaved p 0 offsets values parts stop) : (packed parts).1.size p = stop := by
  rw [size_packed, ← h.sizeAll_eq, zero_add]

theorem Interleaved.append {pos middle stop : Int} {offsets offsets' : List Int}
    {values values' parts parts' : List (Ty × Const)} (h : Interleaved p pos offsets values parts middle)
    (h' : Interleaved p middle offsets' values' parts' stop) :
    Interleaved p pos (offsets ++ offsets') (values ++ values') (parts ++ parts') stop := by
  induction h with
  | nil => exact h'
  | member _ ih => exact .member (ih h')
  | padding hcount _ ih => exact .padding hcount (ih h')

/-! ### Packing -/

theorem Packing.pad_eq (parts : List (Ty × Const)) (pos : Nat) {stop : Nat} (hlt : stop < 2 ^ 63) :
    ∃ new, (Packing.pad ⟨parts, pos⟩ stop) = ⟨new.reverse ++ parts, (max stop pos : Nat)⟩ ∧
      Interleaved p pos [] [] new (max stop pos : Nat) := by
  rw [Packing.pad]
  split_ifs with hreached
  · have hle : stop ≤ pos := Int.ofNat_le.1 hreached
    rw [max_eq_right hle]
    exact ⟨[], rfl, .nil⟩
  · have hgt : pos < stop := Int.ofNat_lt.1 (not_le.1 hreached)
    dsimp only
    rw [max_eq_left hgt.le, wrap_eq_self (by omega) (by omega)]
    refine ⟨[(Ty.bytes (stop - pos), .zeroes)], rfl, .padding (by omega) ?_⟩
    rw [add_sub_cancel]
    exact .nil

theorem Packing.pad_add_eq (parts : List (Ty × Const)) {pos offset size : Nat} {value : Ty × Const} (hle : pos ≤ offset)
    (hvalue : value.1.size p = size) (hlt : offset + size < 2 ^ 63) :
    ∃ new, (Packing.pad ⟨parts, pos⟩ offset).add value size = ⟨new.reverse ++ parts, (offset + size : Nat)⟩ ∧
      Interleaved p pos [(offset : Int)] [value] new (offset + size : Nat) := by
  have hoffset : offset < 2 ^ 63 := by omega
  obtain ⟨padding, hpad, hinterleaved⟩ := Packing.pad_eq (p := p) parts pos hoffset
  rw [max_eq_left hle] at hpad hinterleaved
  refine ⟨padding ++ [value], ?_, hinterleaved.append (.member ?_)⟩
  · rw [hpad, Packing.add]
    dsimp only
    rw [wrap_eq_self (by omega) (by omega)]
    simp
  · rw [hvalue, Nat.cast_add]
    exact .nil

/-! ### Arrays -/

theorem sizeAll_eq_of_forall {types : List Ty} (size : Int) (h : ∀ type ∈ types, type.size p = size) :
    sizeAll p types = types.length * size := by
  induction types with
  | nil => rw [sizeAll, List.length_nil, Nat.cast_zero, zero_mul]
  | cons type types ih =>
    rw [List.forall_mem_cons] at h
    rw [sizeAll, h.1, ih h.2, List.length_cons]
    push_cast
    ring

/-- Elements of one size take it as often as there are elements, whether or not they have one type. -/
theorem size_arrayOf {elems : List (Ty × Const)} {size : Int} (h : ∀ elem ∈ elems, elem.1.size p = size) :
    (arrayOf elems).1.size p = elems.length * size := by
  cases elems with
  | nil => simp [arrayOf, Ty.size_bytes]
  | cons elem rest =>
    rw [arrayOf]
    split_ifs
    · rw [Ty.size, h elem List.mem_cons_self]
    · rw [size_packed, sizeAll_eq_of_forall size, List.length_map]
      intro type htype
      obtain ⟨elem', helem', rfl⟩ := List.mem_map.1 htype
      exact h elem' helem'

end ClassAbi.Module
