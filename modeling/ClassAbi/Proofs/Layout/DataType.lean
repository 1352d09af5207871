import ClassAbi.Mode
import Mathlib

/-!
# Data types and their extent

A data type is what a type of the table stands for once all references are followed. Its size, its alignment and the
offsets of its members are defined here as natural numbers, where references have `p` bytes. Every part of a struct then
lies inside it, at a multiple of its own alignment, and apart from the parts that it has no member in common with.
-/

namespace ClassAbi

variable {a : Nat}

/-- A type without references to other types. -/
inductive DataType where
  | scalar (mode : Mode)
  | struct (members : List DataType)
  | union (members : List DataType)
  /-- A negative length stands for an extent that the content gives. -/
  | array (elem : DataType) (length : Int)

@[elab_as_elim, induction_eliminator]
theorem DataType.induct {P : DataType → Prop} (scalar : ∀ mode, P (.scalar mode))
    (struct : ∀ members, (∀ d ∈ members, P d) → P (.struct members))
    (union : ∀ members, (∀ d ∈ members, P d) → P (.union members))
    (array : ∀ elem length, P elem → P (.array elem length)) : ∀ d, P d
  | .scalar mode => scalar mode
  | .struct members => struct members fun d _ => induct scalar struct union array d
  | .union members => union members fun d _ => induct scalar struct union array d
  | .array elem length => array elem length (induct scalar struct union array elem)

def Mode.bytes (p : Nat) (mode : Mode) : Nat := (mode.size p).toNat

/-! ### Rounding up -/

/-- The least multiple of `a` that is not below `n`. -/
def alignUp (n a : Nat) : Nat := n + (a - n % a) % a

theorem le_alignUp (n a : Nat) : n ≤ alignUp n a := Nat.le_add_right n _

theorem alignUp_of_dvd {n : Nat} (h : a ∣ n) : alignUp n a = n := by
  rw [alignUp, Nat.mod_eq_zero_of_dvd h, Nat.sub_zero, Nat.mod_self, Nat.add_zero]

theorem alignUp_of_not_dvd {n : Nat} (ha : 0 < a) (h : ¬a ∣ n) : alignUp n a = n + (a - n % a) := by
  have hpos : 0 < n % a := Nat.pos_of_ne_zero fun h0 => h (Nat.dvd_of_mod_eq_zero h0)
  rw [alignUp, Nat.mod_eq_of_lt (Nat.sub_lt ha hpos)]

theorem dvd_alignUp (n : Nat) (ha : 0 < a) : a ∣ alignUp n a := by
  by_cases h : a ∣ n
  · rwa [alignUp_of_dvd h]
  · rw [alignUp_of_not_dvd ha h]
    have hdiv : a * (n / a) + n % a = n := Nat.div_add_mod n a
    have hlt : n % a < a := Nat.mod_lt n ha
    have heq : n + (a - n % a) = a * (n / a) + a := by omega
    rw [heq]
    exact ⟨n / a + 1, by ring⟩

/-! ### Extent -/

mutual

/-- The alignment of a data type: the greatest among its scalars. -/
def DataType.align (p : Nat) : DataType → Nat
  | .scalar mode => max (mode.bytes p) 1
  | .struct members => alignAll p members
  | .union members => alignAll p members
  | .array elem _ => elem.align p

/-- The greatest alignment among data types, at least 1. -/
def alignAll (p : Nat) : List DataType → Nat
  | [] => 1
  | d :: ds => max (d.align p) (alignAll p ds)

end

mutual

/-- The bytes of a data type. An extent that the content gives takes none. -/
def DataType.size (p : Nat) : DataType → Nat
  | .scalar mode => mode.bytes p
  | .struct members => alignUp (endAfter p 0 members) (alignAll p members)
  | .union members => alignUp (greatestSize p members) (alignAll p members)
  | .array elem length => elem.size p * length.toNat

/-- Where the last of the members ends that are placed one after the other from `pos` on. -/
def endAfter (p : Nat) (pos : Nat) : List DataType → Nat
  | [] => pos
  | d :: ds => endAfter p (alignUp pos (d.align p) + d.size p) ds

def greatestSize (p : Nat) : List DataType → Nat
  | [] => 0
  | d :: ds => max (d.size p) (greatestSize p ds)

end

/-- The offsets of members that are placed one after the other from `pos` on. -/
def offsets (p : Nat) (pos : Nat) : List DataType → List Nat
  | [] => []
  | d :: ds => alignUp pos (d.align p) :: offsets p (alignUp pos (d.align p) + d.size p) ds

/-- A part of nested structs and where it is. The path has the position of a member in each of them. -/
def DataType.partAt? (p : Nat) : DataType → List Nat → Option (Nat × DataType)
  | d, [] => some (0, d)
  | .struct members, i :: path =>
    match (offsets p 0 members)[i]?, members[i]? with
    | some offset, some d => (d.partAt? p path).map fun (inner, part) => (offset + inner, part)
    | _, _ => none
  | _, _ :: _ => none

section

variable {p : Nat}
variable {d part : DataType} {ds : List DataType} {offset i : Nat} {path : List Nat}

theorem align_le_alignAll (h : d ∈ ds) : d.align p ≤ alignAll p ds := by
  induction ds with
  | nil => simp at h
  | cons d' ds ih =>
    rw [alignAll]
    rcases List.mem_cons.1 h with rfl | h
    · exact le_max_left _ _
    · exact (ih h).trans (le_max_right _ _)

theorem alignAll_pos (ds : List DataType) : 0 < alignAll p ds := by
  induction ds with
  | nil => exact Nat.one_pos
  | cons d ds ih => exact ih.trans_le (le_max_right _ _)

theorem DataType.align_pos (d : DataType) : 0 < d.align p := by
  induction d with
  | scalar mode => exact Nat.one_pos.trans_le (le_max_right _ _)
  | struct members _ => exact alignAll_pos members
  | union members _ => exact alignAll_pos members
  | array elem length ih => exact ih

theorem DataType.align_dvd_size (d : DataType) : d.align p ∣ d.size p := by
  induction d with
  | scalar mode =>
    rw [align, size]
    rcases Nat.eq_zero_or_pos (mode.bytes p) with h | h
    · rw [h]
      exact dvd_zero _
    · rw [max_eq_left h]
  | struct members _ => exact dvd_alignUp _ (alignAll_pos members)
  | union members _ => exact dvd_alignUp _ (alignAll_pos members)
  | array elem length ih => exact Dvd.dvd.mul_right ih _

/-! ### Members of structs -/

theorem length_offsets (pos : Nat) (ds : List DataType) : (offsets p pos ds).length = ds.length := by
  induction ds generalizing pos with
  | nil => rfl
  | cons d ds ih => rw [offsets, List.length_cons, List.length_cons, ih]

theorem le_endAfter (pos : Nat) (ds : List DataType) : pos ≤ endAfter p pos ds := by
  induction ds generalizing pos with
  | nil => exact le_rfl
  | cons d ds ih =>
    have hnext := ih (alignUp pos (d.align p) + d.size p)
    have hle := le_alignUp pos (d.align p)
    rw [endAfter]
    omega

theorem offsets_append (pos : Nat) (ds ds' : List DataType) :
    offsets p pos (ds ++ ds') = offsets p pos ds ++ offsets p (endAfter p pos ds) ds' := by
  induction ds generalizing pos with
  | nil => rfl
  | cons d ds ih =>
    rw [List.cons_append, offsets, ih]
    rfl

theorem offset_last (h : (offsets p 0 (ds ++ [d]))[ds.length]? = some offset) :
    offsets p 0 (ds ++ [d]) = offsets p 0 ds ++ [offset] ∧ endAfter p 0 ds ≤ offset := by
  rw [offsets_append] at h ⊢
  rw [List.getElem?_append_right (length_offsets 0 ds).le, length_offsets, Nat.sub_self] at h
  cases h
  exact ⟨rfl, le_alignUp _ _⟩

theorem member_bounds {pos : Nat} (hd : ds[i]? = some d) (hoffset : (offsets p pos ds)[i]? = some offset) :
    pos ≤ offset ∧ d.align p ∣ offset ∧ offset + d.size p ≤ endAfter p pos ds := by
  induction ds generalizing pos i with
  | nil => simp at hd
  | cons d' ds ih =>
    have hle := le_alignUp pos (d'.align p)
    rw [endAfter]
    cases i with
    | zero =>
      cases hd
      cases hoffset
      exact ⟨hle, dvd_alignUp pos d.align_pos, le_endAfter _ ds⟩
    | succ i =>
      obtain ⟨hpos, hdvd, hend⟩ := ih hd hoffset
      exact ⟨by omega, hdvd, hend⟩

theorem member_before {pos j oi oj : Nat} {di : DataType} (hij : i < j) (hdi : ds[i]? = some di)
    (hoi : (offsets p pos ds)[i]? = some oi) (hoj : (offsets p pos ds)[j]? = some oj) : oi + di.size p ≤ oj := by
  induction ds generalizing pos i j with
  | nil => simp at hdi
  | cons d ds ih =>
    obtain ⟨j, rfl⟩ : ∃ k, j = k + 1 := ⟨j - 1, by omega⟩
    have hoj' : (offsets p (alignUp pos (d.align p) + d.size p) ds)[j]? = some oj := hoj
    cases i with
    | zero =>
      cases hdi
      cases hoi
      have hlt : j < ds.length := by
        rw [← length_offsets (p := p) (alignUp pos (di.align p) + di.size p)]
        exact (List.getElem?_eq_some_iff.1 hoj').1
      exact (member_bounds (List.getElem?_eq_getElem hlt) hoj').1
    | succ i => exact ih (by omega) hdi hoi hoj'

theorem member_le_size {members : List DataType} (hd : members[i]? = some d)
    (hoffset : (offsets p 0 members)[i]? = some offset) : offset + d.size p ≤ (DataType.struct members).size p := by
  have hend := (member_bounds hd hoffset).2.2
  exact hend.trans (le_alignUp _ _)

/-! ### Nested parts -/

theorem DataType.partAt?_cons_iff :
    d.partAt? p (i :: path) = some (offset, part) ↔
      ∃ members member outer inner, d = .struct members ∧ members[i]? = some member ∧
        (offsets p 0 members)[i]? = some outer ∧ member.partAt? p path = some (inner, part) ∧ offset = outer + inner := by
  constructor
  · intro h
    cases d with
    | struct members =>
      rw [partAt?] at h
      split at h
      · obtain ⟨⟨inner, part'⟩, hinner, heq⟩ := Option.map_eq_some_iff.1 h
        cases heq
        exact ⟨members, _, _, inner, rfl, ‹_›, ‹_›, hinner, rfl⟩
      · cases h
    | scalar mode => cases h
    | union members => cases h
    | array elem length => cases h
  · rintro ⟨members, member, outer, inner, rfl, hmember, houter, hinner, rfl⟩
    simp only [partAt?, houter, hmember, hinner, Option.map_some]

theorem DataType.partAt?_first (d : DataType) (ds : List DataType) (path : List Nat) :
    (struct (d :: ds)).partAt? p (0 :: path) = d.partAt? p path := by
  have hzero : alignUp 0 (d.align p) = 0 := alignUp_of_dvd (dvd_zero _)
  simp [partAt?, offsets, hzero]

theorem DataType.partAt?_le (h : d.partAt? p path = some (offset, part)) : offset + part.size p ≤ d.size p := by
  induction path generalizing d offset with
  | nil =>
    cases h
    rw [Nat.zero_add]
  | cons i path ih =>
    obtain ⟨members, member, outer, inner, rfl, hmember, houter, hinner, rfl⟩ := partAt?_cons_iff.1 h
    have hinside := ih hinner
    have hmember_le := member_le_size hmember houter
    omega

theorem DataType.partAt?_disjoint {path' : List Nat} {offset' : Nat} {mode mode' : Mode}
    (h : d.partAt? p path = some (offset, .scalar mode)) (h' : d.partAt? p path' = some (offset', .scalar mode'))
    (hne : path ≠ path') : offset + mode.bytes p ≤ offset' ∨ offset' + mode'.bytes p ≤ offset := by
  induction path generalizing d path' offset offset' with
  | nil =>
    cases h
    cases path' with
    | nil => exact absurd rfl hne
    | cons i path' => cases h'
  | cons i path ih =>
    cases path' with
    | nil =>
      cases h'
      cases h
    | cons i' path' =>
      obtain ⟨members, member, outer, inner, rfl, hmember, houter, hinner, rfl⟩ := partAt?_cons_iff.1 h
      obtain ⟨members', member', outer', inner', heq, hmember', houter', hinner', rfl⟩ := partAt?_cons_iff.1 h'
      cases heq
      have hle : inner + mode.bytes p ≤ member.size p := partAt?_le hinner
      have hle' : inner' + mode'.bytes p ≤ member'.size p := partAt?_le hinner'
      -- Either both are in one member, or one member comes before the other.
      rcases Nat.lt_trichotomy i i' with hlt | rfl | hlt
      · have hbefore := member_before hlt hmember houter houter'
        omega
      · rw [hmember] at hmember'
        cases hmember'
        rw [houter] at houter'
        cases houter'
        have hrest := ih hinner hinner' fun hpath => hne (by rw [hpath])
        omega
      · have hbefore := member_before hlt hmember' houter' houter
        omega

/-! ### Alignment of nested parts -/

theorem dvd_of_le_of_pow {a b k l : Nat} (ha : a = 2 ^ k) (hb : b = 2 ^ l) (h : a ≤ b) : a ∣ b := by
  subst ha hb
  exact Nat.pow_dvd_pow 2 ((Nat.pow_le_pow_iff_right (by norm_num)).1 h)

theorem DataType.align_eq_pow (hp : ∃ k, p = 2 ^ k) (d : DataType) : ∃ k, d.align p = 2 ^ k := by
  have hall : ∀ ds : List DataType, (∀ d ∈ ds, ∃ k, d.align p = 2 ^ k) → ∃ k, alignAll p ds = 2 ^ k := by
    intro ds
    induction ds with
    | nil => exact fun _ => ⟨0, rfl⟩
    | cons d ds ih =>
      intro h
      rw [List.forall_mem_cons] at h
      rw [alignAll]
      rcases max_choice (d.align p) (alignAll p ds) with hmax | hmax
      · rw [hmax]
        exact h.1
      · rw [hmax]
        exact ih h.2
  induction d with
  | scalar mode =>
    obtain ⟨k, rfl⟩ := hp
    rw [align]
    cases mode
    case pointer => exact ⟨k, max_eq_left Nat.one_le_two_pow⟩
    case int16 => exact ⟨1, rfl⟩
    case uint16 => exact ⟨1, rfl⟩
    case int32 => exact ⟨2, rfl⟩
    case uint32 => exact ⟨2, rfl⟩
    case float32 => exact ⟨2, rfl⟩
    case int64 => exact ⟨3, rfl⟩
    case float64 => exact ⟨3, rfl⟩
    all_goals exact ⟨0, rfl⟩
  | struct members ih => exact hall members ih
  | union members ih => exact hall members ih
  | array elem length ih => exact ih

theorem DataType.partAt?_aligned (hp : ∃ k, p = 2 ^ k) (h : d.partAt? p path = some (offset, part)) :
    part.align p ∣ offset ∧ part.align p ∣ d.align p := by
  induction path generalizing d offset with
  | nil =>
    cases h
    exact ⟨dvd_zero _, dvd_rfl⟩
  | cons i path ih =>
    obtain ⟨members, member, outer, inner, rfl, hmember, houter, hinner, rfl⟩ := partAt?_cons_iff.1 h
    obtain ⟨hinner_dvd, hmember_dvd⟩ := ih hinner
    obtain ⟨k, hk⟩ := member.align_eq_pow hp
    obtain ⟨l, hl⟩ := (DataType.struct members).align_eq_pow hp
    have hle : member.align p ≤ (DataType.struct members).align p := align_le_alignAll (List.mem_of_getElem? hmember)
    have houter_dvd := (member_bounds hmember houter).2.1
    exact ⟨(hmember_dvd.trans houter_dvd).add hinner_dvd, hmember_dvd.trans (dvd_of_le_of_pow hk hl hle)⟩

end

end ClassAbi
