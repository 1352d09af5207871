import ClassAbi.Layout.Basic
import ClassAbi.Proofs.Layout.DataType

/-!
# Layouts in machine words

The layout of a data type is computed in words, which may wrap around. On a supported target it has the sizes and offsets
of the data type as natural numbers, if its size is below `2 ^ 63`. Alignments are never affected.
-/

namespace ClassAbi

mutual

def DataType.layout (target : Target) : DataType → TypeLayout
  | .scalar mode => Layout.scalar target mode
  | .struct members => (joinAll target .append .empty members).finish
  | .union members => (joinAll target .overlay .empty members).finish
  | .array elem length => Layout.array (elem.layout target) length

/-- A compound with further members, each of which `join` adds. -/
def joinAll (target : Target) (join : Layout.Partial → TypeLayout → Layout.Partial) (part : Layout.Partial) :
    List DataType → Layout.Partial
  | [] => part
  | d :: ds => joinAll target join (join part (d.layout target)) ds

end

/-- The places of the members of a compound, in natural numbers. -/
def DataType.places (p : Nat) : DataType → Option (List Place)
  | .struct members => some (List.zipWith (fun (offset : Nat) d => ⟨offset, d.align p⟩) (offsets p 0 members) members)
  | .union members => some (members.map fun d => ⟨0, d.align p⟩)
  | .scalar _ | .array _ _ => none

def DataType.exact (p : Nat) (d : DataType) : TypeLayout := ⟨d.size p, d.align p, d.places p⟩

/-- Whether references have `p` bytes on a target and are aligned to them. -/
structure Target.Regular (target : Target) (p : Nat) : Prop where
  size_eq : target.pointerSize = p
  align_eq : target.pointerAlign = p
  width : p = 4 ∨ p = 8

theorem Target.mem_supported {triple : Text} {target : Target} (h : Target.ofTriple triple = .ok target) :
    (triple.keyword, target) ∈ supported := by
  rw [ofTriple] at h
  split at h
  · cases h
    rename_i hlookup
    obtain ⟨l1, l2, heq, -⟩ := List.lookup_eq_some_iff.1 hlookup
    rw [heq]
    simp
  · cases h

theorem Target.regular_of_ofTriple {triple : Text} {target : Target} (h : Target.ofTriple triple = .ok target) :
    ∃ p, target.Regular p := by
  have hlinux64 : linux64.Regular 8 := ⟨rfl, rfl, .inr rfl⟩
  have hlinux32 : linux32.Regular 4 := ⟨rfl, rfl, .inl rfl⟩
  have hdarwin64 : darwin64.Regular 8 := ⟨rfl, rfl, .inr rfl⟩
  have hall : ∀ entry ∈ supported, ∃ p, entry.2.Regular p := by
    simp only [supported, List.forall_mem_cons, List.not_mem_nil, false_implies, implies_true, and_true]
    exact ⟨⟨8, hlinux64⟩, ⟨8, hlinux64⟩, ⟨8, hlinux64⟩, ⟨4, hlinux32⟩, ⟨4, hlinux32⟩, ⟨8, hdarwin64⟩, ⟨8, hdarwin64⟩⟩
  exact hall (triple.keyword, target) (mem_supported h)

theorem Target.Regular.eq_pow {target : Target} {p : Nat} (h : target.Regular p) : ∃ k, p = 2 ^ k := by
  rcases h.width with rfl | rfl
  · exact ⟨2, rfl⟩
  · exact ⟨3, rfl⟩

section

variable {target : Target} {p : Nat}
variable {ds : List DataType} {align : Nat} {places : List Place} {d : DataType}

theorem scalar_eq (hp : target.Regular p) (mode : Mode) :
    Layout.scalar target mode = ⟨mode.bytes p, (max (mode.bytes p) 1 : Nat), none⟩ := by
  have hpointer : Layout.pointer target = ⟨p, p, none⟩ := by
    rw [Layout.pointer, hp.size_eq, hp.align_eq]
    rcases hp.width with rfl | rfl <;> rfl
  rw [Layout.scalar, hpointer]
  rcases hp.width with rfl | rfl <;> cases mode <;> rfl

theorem modeSize_eq (hp : target.Regular p) (mode : Mode) : Layout.modeSize target mode = mode.bytes p := by
  have hpointer : (Layout.pointer target).size = p := congrArg TypeLayout.size (scalar_eq hp .pointer)
  rw [Layout.modeSize, hpointer]
  cases mode <;> rfl

theorem roundUp_eq {n a : Nat} (ha : 0 < a) (h : alignUp n a < 2 ^ 63) : Layout.roundUp n a = alignUp n a := by
  rw [Layout.roundUp]
  by_cases hone : a ≤ 1
  · obtain rfl : a = 1 := by omega
    rw [if_pos (by norm_num), alignUp_of_dvd (one_dvd n)]
  · rw [if_neg (by omega), ← Int.ofNat_tmod]
    by_cases hdvd : a ∣ n
    · rw [alignUp_of_dvd hdvd, Nat.mod_eq_zero_of_dvd hdvd]
      simp
    · rw [alignUp_of_not_dvd ha hdvd] at h ⊢
      have hlt : n % a < a := Nat.mod_lt n ha
      have hne : n % a ≠ 0 := fun h0 => hdvd (Nat.dvd_of_mod_eq_zero h0)
      dsimp only
      rw [if_neg (by exact_mod_cast hne), wrap_eq_self (by omega) (by omega)]
      omega

/-! ### Alignment -/

theorem align_joinAll {join : Layout.Partial → TypeLayout → Layout.Partial}
    (hjoin : ∀ part l, (join part l).align = max part.align (max l.align 1))
    (h : ∀ d ∈ ds, (d.layout target).align = d.align p) {part : Layout.Partial} (hpart : 1 ≤ part.align) :
    (joinAll target join part ds).align = max part.align (alignAll p ds) := by
  induction ds generalizing part with
  | nil => exact (max_eq_left hpart).symm
  | cons d ds ih =>
    rw [List.forall_mem_cons] at h
    have hpos := d.align_pos (p := p)
    have hnext : 1 ≤ (join part (d.layout target)).align := by
      rw [hjoin]
      exact hpart.trans (le_max_left _ _)
    rw [joinAll, ih h.2 hnext, hjoin, h.1, alignAll]
    omega

theorem align_layout (hp : target.Regular p) (d : DataType) : (d.layout target).align = d.align p := by
  induction d with
  | scalar mode =>
    rw [DataType.layout, scalar_eq hp]
    rfl
  | struct members ih =>
    have hpos := alignAll_pos (p := p) members
    show (joinAll target .append .empty members).align = _
    rw [align_joinAll (fun _ _ => rfl) ih le_rfl, DataType.align]
    show max 1 (alignAll p members : Int) = _
    omega
  | union members ih =>
    have hpos := alignAll_pos (p := p) members
    show (joinAll target .overlay .empty members).align = _
    rw [align_joinAll (fun _ _ => rfl) ih le_rfl, DataType.align]
    show max 1 (alignAll p members : Int) = _
    omega
  | array elem length ih =>
    have hpos := elem.align_pos (p := p)
    have hmax : max (elem.layout target).align 1 = elem.align p := by omega
    rw [DataType.layout, Layout.array, DataType.align, hmax]
    split_ifs <;> rfl

/-! ### Places -/

theorem places_joinAll {join : Layout.Partial → TypeLayout → Layout.Partial}
    (hjoin : ∀ part l, ∃ place, (join part l).places = place :: part.places) (ds : List DataType) (part : Layout.Partial) :
    ∃ places, (joinAll target join part ds).places = places ++ part.places ∧ places.length = ds.length := by
  induction ds generalizing part with
  | nil => exact ⟨[], rfl, rfl⟩
  | cons d ds ih =>
    obtain ⟨place, hplace⟩ := hjoin part (d.layout target)
    obtain ⟨places, hplaces, hlength⟩ := ih (join part (d.layout target))
    refine ⟨places ++ [place], ?_, by simp [hlength]⟩
    rw [joinAll, hplaces, hplace, List.append_assoc, List.singleton_append]

theorem length_places_struct (ds : List DataType) :
    (((DataType.struct ds).layout target).places.getD []).length = ds.length := by
  obtain ⟨places, hplaces, hlength⟩ :=
    @places_joinAll target .append (fun _ _ => ⟨_, rfl⟩) ds .empty
  rw [DataType.layout, Layout.Partial.finish, Option.getD_some, hplaces, List.length_reverse, List.length_append, hlength]
  rfl

theorem roundUp_zero (align : Int) : Layout.roundUp 0 align = 0 := by
  rw [Layout.roundUp, Int.zero_tmod]
  simp

theorem offsetAt_first (d : DataType) (ds : List DataType) : ((DataType.struct (d :: ds)).layout target).offsetAt 0 = 0 := by
  obtain ⟨places, hplaces, -⟩ := @places_joinAll target .append (fun _ _ => ⟨_, rfl⟩) ds
    (Layout.Partial.append .empty (d.layout target))
  rw [DataType.layout, joinAll, Layout.Partial.finish, TypeLayout.offsetAt, if_neg (by decide), hplaces, List.reverse_append]
  exact roundUp_zero _

/-! ### Size and offsets -/

theorem append_eq {pos : Nat} (h : alignUp pos (d.align p) + d.size p < 2 ^ 63) (hd : d.layout target = d.exact p) :
    Layout.Partial.append ⟨pos, align, places⟩ (d.layout target) =
      ⟨(alignUp pos (d.align p) + d.size p : Nat), (max align (d.align p) : Nat),
        ⟨(alignUp pos (d.align p) : Nat), d.align p⟩ :: places⟩ := by
  have hpos := d.align_pos (p := p)
  have hmax : max ((d.align p : Nat) : Int) 1 = d.align p := by omega
  rw [hd, DataType.exact, Layout.Partial.append]
  dsimp only
  rw [hmax, roundUp_eq hpos (by omega), wrap_eq_self (by omega) (by omega)]
  simp

theorem joinAll_append_eq (hds : ∀ d ∈ ds, d.size p < 2 ^ 63 → d.layout target = d.exact p) (pos : Nat)
    (halign : 1 ≤ align) (h : endAfter p pos ds < 2 ^ 63) :
    joinAll target .append ⟨pos, align, places⟩ ds = ⟨endAfter p pos ds, (max align (alignAll p ds) : Nat),
      (List.zipWith (fun (offset : Nat) d => ⟨offset, d.align p⟩) (offsets p pos ds) ds).reverse ++ places⟩ := by
  induction ds generalizing pos align places with
  | nil => simp [joinAll, endAfter, alignAll, offsets, halign]
  | cons d ds ih =>
    rw [List.forall_mem_cons] at hds
    rw [endAfter] at h
    have hend := le_endAfter (p := p) (alignUp pos (d.align p) + d.size p) ds
    have hd := hds.1 (by omega)
    rw [joinAll, append_eq (by omega) hd, ih hds.2 _ (halign.trans (le_max_left _ _)) h, endAfter, alignAll, offsets]
    simp [max_assoc]

theorem size_le_greatestSize (h : d ∈ ds) : d.size p ≤ greatestSize p ds := by
  induction ds with
  | nil => simp at h
  | cons d' ds ih =>
    rw [greatestSize]
    rcases List.mem_cons.1 h with rfl | h
    · exact le_max_left _ _
    · exact (ih h).trans (le_max_right _ _)

theorem overlay_eq {size : Nat} (hd : d.layout target = d.exact p) :
    Layout.Partial.overlay ⟨size, align, places⟩ (d.layout target) =
      ⟨(max size (d.size p) : Nat), (max align (d.align p) : Nat), ⟨0, d.align p⟩ :: places⟩ := by
  have hpos := d.align_pos (p := p)
  have hmax : max ((d.align p : Nat) : Int) 1 = d.align p := by omega
  rw [hd, DataType.exact, Layout.Partial.overlay]
  dsimp only
  rw [hmax]
  simp

theorem joinAll_overlay_eq (hds : ∀ d ∈ ds, d.layout target = d.exact p) (size : Nat) (halign : 1 ≤ align) :
    joinAll target .overlay ⟨size, align, places⟩ ds = ⟨(max size (greatestSize p ds) : Nat), (max align (alignAll p ds) : Nat),
      (ds.map fun d => (⟨0, d.align p⟩ : Place)).reverse ++ places⟩ := by
  induction ds generalizing size align places with
  | nil => simp [joinAll, greatestSize, alignAll, halign]
  | cons d ds ih =>
    rw [List.forall_mem_cons] at hds
    rw [joinAll, overlay_eq hds.1, ih hds.2 _ (halign.trans (le_max_left _ _)), greatestSize, alignAll]
    simp [max_assoc]

theorem offset_places (pos : Nat) (ds : List DataType) :
    (List.zipWith (fun (offset : Nat) d => (⟨offset, d.align p⟩ : Place)) (offsets p pos ds) ds).map Place.offset =
      (offsets p pos ds).map Nat.cast := by
  induction ds generalizing pos with
  | nil => rfl
  | cons d ds ih => simp [offsets, ih]

theorem offsetAt_exact {members : List DataType} {i offset : Nat} (h : (offsets p 0 members)[i]? = some offset) :
    ((DataType.struct members).exact p).offsetAt i = offset := by
  have hplace := congrArg (fun l => l[i]?) (offset_places (p := p) 0 members)
  simp only [List.getElem?_map, h, Option.map_some] at hplace
  rw [TypeLayout.offsetAt, if_neg (by omega), Int.toNat_natCast]
  show (Option.map _ _).getD 0 = _
  rw [DataType.exact, DataType.places, Option.getD_some, hplace, Option.getD_some]

theorem layout_eq_exact (hp : target.Regular p) (h : d.size p < 2 ^ 63) : d.layout target = d.exact p := by
  induction d with
  | scalar mode =>
    rw [DataType.layout, scalar_eq hp]
    rfl
  | struct members ih =>
    have hpos := alignAll_pos (p := p) members
    have hle : endAfter p 0 members ≤ (DataType.struct members).size p := le_alignUp _ _
    have hall : joinAll target .append .empty members = _ := joinAll_append_eq ih 0 le_rfl (hle.trans_lt h)
    rw [DataType.layout, hall, Layout.Partial.finish]
    dsimp only
    rw [max_eq_right hpos, roundUp_eq hpos h]
    simp [DataType.exact, DataType.size, DataType.align, DataType.places]
  | union members ih =>
    have hpos := alignAll_pos (p := p) members
    have hle : greatestSize p members ≤ (DataType.union members).size p := le_alignUp _ _
    have hmembers : ∀ d ∈ members, d.layout target = d.exact p := fun d hd =>
      ih d hd ((size_le_greatestSize hd).trans_lt (hle.trans_lt h))
    have hall : joinAll target .overlay .empty members = _ := joinAll_overlay_eq hmembers 0 le_rfl
    rw [DataType.layout, hall, Layout.Partial.finish]
    dsimp only
    rw [max_eq_right (Nat.zero_le _), max_eq_right hpos, roundUp_eq hpos h]
    simp [DataType.exact, DataType.size, DataType.align, DataType.places]
  | array elem length ih =>
    have hpos := elem.align_pos (p := p)
    have hmax : max (elem.layout target).align 1 = elem.align p := by
      rw [align_layout hp]
      omega
    rw [DataType.layout, Layout.array, hmax, DataType.exact, DataType.size, DataType.align, DataType.places]
    split_ifs with hneg
    · rw [Int.toNat_of_nonpos (by omega)]
      simp
    · obtain ⟨n, rfl⟩ := Int.eq_ofNat_of_zero_le (not_lt.1 hneg)
      rw [DataType.size, Int.toNat_natCast] at h
      rcases Nat.eq_zero_or_pos n with rfl | hn
      · simp [wrap]
      · have helem : elem.size p ≤ elem.size p * n := Nat.le_mul_of_pos_right _ hn
        have hround : alignUp (elem.size p) (elem.align p) = elem.size p := alignUp_of_dvd elem.align_dvd_size
        have hnonneg : (0 : Int) ≤ elem.size p * n := by positivity
        rw [ih (by omega), DataType.exact, roundUp_eq hpos (by omega), hround, Int.toNat_natCast,
          wrap_eq_self (by omega) (by exact_mod_cast h)]
        simp

end

end ClassAbi
