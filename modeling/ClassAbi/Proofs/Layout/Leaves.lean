import ClassAbi.Proofs.Layout.Queries

/-!
# The scalars inside of a type

A path of numbers leads through the members of structs and unions and through the elements of arrays, at the offsets and
strides that the layouts give. Whatever it leads to lies inside of the whole, at a multiple of its alignment, and before all
that a later member of a struct or a later element of an array holds (`leavesApart_of_describes`).
-/

namespace ClassAbi

namespace DataType

/-- The part with a number: a member, or an element of an array with a length. -/
def part? : DataType → Nat → Option DataType
  | .struct members, i | .union members, i => members[i]?
  | .array elem length, i => if i < length then some elem else none
  | .scalar _, _ => none

def start (p : Nat) : DataType → Nat → Nat
  | .struct members, i => (offsets p 0 members).getD i 0
  | .array elem _, i => i * elem.size p
  | .union _, _ | .scalar _, _ => 0

def at? : DataType → List Nat → Option DataType
  | d, [] => some d
  | d, i :: path => (d.part? i).bind fun e => e.at? path

def offset (p : Nat) : DataType → List Nat → Nat
  | _, [] => 0
  | d, i :: path => d.start p i + (d.part? i).elim 0 fun e => e.offset p path

variable {p i j : Nat} {d e e' : DataType} {path rest rest' common : List Nat}

/-! ### One step -/

theorem getElem?_offsets {members : List DataType} (h : members[i]? = some d) :
    (offsets p 0 members)[i]? = some ((struct members).start p i) := by
  have hlt : i < (offsets p 0 members).length := by
    rw [length_offsets]
    exact (List.getElem?_eq_some_iff.1 h).1
  rw [start, List.getD_eq_getElem?_getD, List.getElem?_eq_getElem hlt, Option.getD_some]

theorem start_add_size_le (h : d.part? i = some e) : d.start p i + e.size p ≤ d.size p := by
  cases d with
  | scalar mode => cases h
  | struct members => exact member_le_size h (getElem?_offsets h)
  | union members =>
    rw [start, Nat.zero_add]
    exact (size_le_greatestSize (List.mem_of_getElem? h)).trans (le_alignUp _ _)
  | array elem length =>
    rw [part?] at h
    split_ifs at h with hi
    cases h
    calc i * e.size p + e.size p = e.size p * (i + 1) := by ring
      _ ≤ e.size p * length.toNat := Nat.mul_le_mul_left _ (by omega)

theorem align_dvd_start (hp : ∃ k, p = 2 ^ k) (h : d.part? i = some e) : e.align p ∣ d.start p i ∧ e.align p ∣ d.align p := by
  -- Among powers of two the smaller one divides the greater one.
  have hdvd : ∀ {members : List DataType}, members[i]? = some e → e.align p ∣ alignAll p members := by
    intro members he
    obtain ⟨k, hk⟩ := e.align_eq_pow hp
    obtain ⟨l, hl⟩ := (struct members).align_eq_pow hp
    exact dvd_of_le_of_pow hk hl (align_le_alignAll (List.mem_of_getElem? he))
  cases d with
  | scalar mode => cases h
  | struct members => exact ⟨(member_bounds h (getElem?_offsets h)).2.1, hdvd h⟩
  | union members => exact ⟨dvd_zero _, hdvd h⟩
  | array elem length =>
    rw [part?] at h
    split_ifs at h
    cases h
    exact ⟨e.align_dvd_size.mul_left i, dvd_rfl⟩

theorem start_add_size_le_start (hij : i < j) (hd : ∀ members, d ≠ .union members) (h : d.part? i = some e)
    (h' : d.part? j = some e') : d.start p i + e.size p ≤ d.start p j := by
  cases d with
  | scalar mode => cases h
  | struct members => exact member_before hij h (getElem?_offsets h) (getElem?_offsets h')
  | union members => exact absurd rfl (hd members)
  | array elem length =>
    rw [part?] at h
    split_ifs at h
    cases h
    calc i * e.size p + e.size p = (i + 1) * e.size p := by ring
      _ ≤ j * e.size p := Nat.mul_le_mul_right _ hij

/-! ### Paths -/

theorem at?_cons_iff : d.at? (i :: path) = some e ↔ ∃ d', d.part? i = some d' ∧ d'.at? path = some e :=
  Option.bind_eq_some_iff

theorem offset_cons {d' : DataType} (h : d.part? i = some d') (path : List Nat) :
    d.offset p (i :: path) = d.start p i + d'.offset p path := by
  rw [offset, h, Option.elim_some]

theorem offset_add_size_le (h : d.at? path = some e) : d.offset p path + e.size p ≤ d.size p := by
  induction path generalizing d with
  | nil =>
    cases h
    rw [offset, Nat.zero_add]
  | cons i path ih =>
    obtain ⟨d', hd', he⟩ := at?_cons_iff.1 h
    have hinner := ih he
    have hstep := start_add_size_le (p := p) hd'
    rw [offset_cons hd']
    omega

/-- What a path leads to is at a multiple of its alignment, which divides that of the whole. -/
theorem align_dvd_offset (hp : ∃ k, p = 2 ^ k) (h : d.at? path = some e) :
    e.align p ∣ d.offset p path ∧ e.align p ∣ d.align p := by
  induction path generalizing d with
  | nil =>
    cases h
    exact ⟨dvd_zero _, dvd_rfl⟩
  | cons i path ih =>
    obtain ⟨d', hd', he⟩ := at?_cons_iff.1 h
    obtain ⟨hinner, halign⟩ := ih he
    obtain ⟨hstart, hstep⟩ := align_dvd_start hp hd'
    rw [offset_cons hd']
    exact ⟨(halign.trans hstart).add hinner, halign.trans hstep⟩

/-- Where two paths part in a struct or in an array, the lower number leads to the lower addresses. -/
theorem offset_add_size_le_offset (hij : i < j) {c : DataType} (hc : d.at? common = some c) (hunion : ∀ members, c ≠ .union members)
    (h : d.at? (common ++ i :: rest) = some e) (h' : d.at? (common ++ j :: rest') = some e') :
    d.offset p (common ++ i :: rest) + e.size p ≤ d.offset p (common ++ j :: rest') := by
  induction common generalizing d with
  | nil =>
    cases hc
    obtain ⟨di, hdi, he⟩ := at?_cons_iff.1 h
    obtain ⟨dj, hdj, -⟩ := at?_cons_iff.1 h'
    have hinner := offset_add_size_le (p := p) he
    have hbefore := start_add_size_le_start (p := p) hij hunion hdi hdj
    rw [List.nil_append, List.nil_append, offset_cons hdi, offset_cons hdj]
    omega
  | cons k common ih =>
    obtain ⟨dk, hdk, hc⟩ := at?_cons_iff.1 hc
    obtain ⟨_, heq, he⟩ := at?_cons_iff.1 h
    cases hdk.symm.trans heq
    obtain ⟨_, heq, he'⟩ := at?_cons_iff.1 h'
    cases hdk.symm.trans heq
    have hrest := ih hc he he'
    rw [List.cons_append, List.cons_append, offset_cons hdk, offset_cons hdk]
    omega

end DataType

/-! ### Types of a table -/

namespace TypeTable

/-- The type of the part with a number: of a member, or of an element of an array with a length. -/
def part? (types : TypeTable) (t : TypeId) (i : Nat) : Option TypeId :=
  match types.shape? t with
  | some (.struct _ members) | some (.union _ members) => members[i]?.bind Member.type
  | some (.array elem length) => if i < length then elem else none
  | _ => none

def at? (types : TypeTable) : TypeId → List Nat → Option TypeId
  | t, [] => some t
  | t, i :: path => (types.part? t i).bind fun u => types.at? u path

variable {types : TypeTable} {t u : TypeId} {d : DataType} {i : Nat} {path : List Nat}

theorem at?_cons_iff : types.at? t (i :: path) = some u ↔ ∃ t', types.part? t i = some t' ∧ types.at? t' path = some u :=
  Option.bind_eq_some_iff

theorem contains_of_part? (h : types.part? t i = some u) : types.Contains t u := by
  rw [part?] at h
  split at h
  · next hshape =>
    obtain ⟨m, hm, htype⟩ := Option.bind_eq_some_iff.1 h
    exact .struct hshape (List.mem_of_getElem? hm) htype
  · next hshape =>
    obtain ⟨m, hm, htype⟩ := Option.bind_eq_some_iff.1 h
    exact .union hshape (List.mem_of_getElem? hm) htype
  · next hshape =>
    split_ifs at h
    exact .array (h ▸ hshape)
  · cases h

theorem within_of_at? (h : types.at? t path = some u) : types.Within t u := by
  induction path generalizing t with
  | nil =>
    cases h
    exact .refl
  | cons i path ih =>
    obtain ⟨t', ht', hu⟩ := at?_cons_iff.1 h
    exact (ih hu).head (contains_of_part? ht')

theorem Describes.part? (h : types.Describes d t) (hu : types.part? t i = some u) :
    ∃ e, d.part? i = some e ∧ types.Describes e u := by
  have hmember : ∀ {ds : List DataType} {members : List Member}, types.DescribesAll ds members →
      members[i]?.bind Member.type = some u → ∃ e, ds[i]? = some e ∧ types.Describes e u := by
    intro ds members hall hu
    obtain ⟨m, hm, htype⟩ := Option.bind_eq_some_iff.1 hu
    have hlt : i < ds.length := hall.length_eq ▸ (List.getElem?_eq_some_iff.1 hm).1
    obtain ⟨m', t', hm', ht', hd⟩ := hall.getElem? (List.getElem?_eq_getElem hlt)
    cases hm.symm.trans hm'
    cases htype.symm.trans ht'
    exact ⟨_, List.getElem?_eq_getElem hlt, hd⟩
  rw [TypeTable.part?] at hu
  cases d with
  | scalar mode =>
    rw [show types.shape? t = some (.primitive mode) from h] at hu
    cases hu
  | struct ds =>
    obtain ⟨name, members, hshape, hall⟩ := h
    rw [hshape] at hu
    exact hmember hall hu
  | union ds =>
    obtain ⟨name, members, hshape, hall⟩ := h
    rw [hshape] at hu
    exact hmember hall hu
  | array d length =>
    obtain ⟨elem, hshape, helem⟩ := h
    rw [hshape] at hu
    dsimp only at hu
    split_ifs at hu with hi
    cases hu
    exact ⟨d, if_pos hi, helem⟩

theorem Describes.at? (h : types.Describes d t) (hu : types.at? t path = some u) :
    ∃ e, d.at? path = some e ∧ types.Describes e u := by
  induction path generalizing d t with
  | nil =>
    cases hu
    exact ⟨d, rfl, h⟩
  | cons i path ih =>
    obtain ⟨t', ht', hu⟩ := at?_cons_iff.1 hu
    obtain ⟨d', hd', hdesc⟩ := h.part? ht'
    obtain ⟨e, he, hdesc⟩ := ih hdesc hu
    exact ⟨e, DataType.at?_cons_iff.2 ⟨d', hd', he⟩, hdesc⟩

end TypeTable

namespace Layout

theorem RightIn.within {types : TypeTable} {target : Target} {known : Layouts} {t u : TypeId} (h : RightIn types target known t)
    (hwithin : types.Within t u) : RightIn types target known u :=
  fun t' d hrest => h t' d (hwithin.trans hrest)

def layout? (types : TypeTable) (target : Target) (known : Layouts) (t : TypeId) : Option TypeLayout :=
  (layoutOf types target t known).1.toOption

/-- Where the part of a type with a number begins: the offset of a member, or a multiple of the stride of an array. -/
def start? (types : TypeTable) (target : Target) (known : Layouts) (t : TypeId) (i : Nat) : Option Int :=
  match types.shape? t with
  | some (.array (some elem) _) => (layout? types target known elem).map fun l => i * roundUp l.size (max l.align 1)
  | _ => (layout? types target known t).map fun l => l.offsetAt i

def offset? (types : TypeTable) (target : Target) (known : Layouts) : TypeId → List Nat → Option Int
  | _, [] => some 0
  | t, i :: path => do
    let u ← types.part? t i
    return (← start? types target known t i) + (← offset? types target known u path)

/-- Whether a path leads to a scalar of a mode, at an offset. -/
structure Leaf (types : TypeTable) (target : Target) (known : Layouts) (t : TypeId) (path : List Nat) (offset : Int)
    (mode : Mode) : Prop where
  scalar : ∃ u, types.at? t path = some u ∧ types.shape? u = some (.primitive mode)
  offset : offset? types target known t path = some offset

/-- The alignment of the scalars of a mode: their size. -/
def modeAlign (target : Target) (mode : Mode) : Int := max (modeSize target mode) 1

/-- Whether the scalars inside of a type with a layout have the sizes of their modes and are where they should be: inside of
the type, at multiples of their alignments, which divide that of the type. Where two paths part in a struct or in an array,
the scalar under the lower number ends before the other one begins. -/
structure LeavesApart (types : TypeTable) (target : Target) (known : Layouts) (t : TypeId) (whole : TypeLayout) : Prop where
  align_dvd_size : whole.align ∣ whole.size
  exists_leaf : ∀ path u mode, types.at? t path = some u → types.shape? u = some (.primitive mode) →
    layout? types target known u = some ⟨modeSize target mode, modeAlign target mode, none⟩ ∧
      ∃ offset, Leaf types target known t path offset mode
  inside : ∀ path offset mode, Leaf types target known t path offset mode →
    modeAlign target mode ∣ offset ∧ 0 ≤ offset ∧ offset + modeSize target mode ≤ whole.size ∧
      modeAlign target mode ∣ whole.align
  before : ∀ common i j rest rest' u offset offset' mode mode', i < j → types.at? t common = some u →
    (∀ name members, types.shape? u ≠ some (.union name members)) →
    Leaf types target known t (common ++ i :: rest) offset mode →
    Leaf types target known t (common ++ j :: rest') offset' mode' → offset + modeSize target mode ≤ offset'

section

variable {types : TypeTable} {target : Target} {known : Layouts} {t u : TypeId} {d e : DataType} {p i : Nat} {path : List Nat}

/-- What is remembered after questions is right about a type that stands for a data type. -/
theorem rightIn_afterAll (hd : types.Describes d t) (questions : List Query) :
    RightIn types target (Query.afterAll types target questions) t := by
  have hempty : RightIn types target ∅ t := fun _ _ _ _ => .inl (by simp)
  rw [Query.afterAll]
  generalize (∅ : Layouts) = known at hempty
  induction questions generalizing known with
  | nil => exact hempty
  | cons q questions ih =>
    have hask : Keeps (RightIn types target · t) (q.ask types target) :=
      (keeps_rightIn_layoutOf hd q.type).bind fun _ => keeps_pure _
    exact ih _ (hask known hempty)

theorem layout?_eq (hknown : RightIn types target known t) (hd : types.Describes d t) :
    layout? types target known t = some (d.layout target) := by
  obtain ⟨known', hrun, -⟩ := finishes_layoutOf hd hknown
  rw [layout?, hrun]
  rfl

theorem start?_eq (hknown : RightIn types target known t) (hp : target.Regular p) (hd : types.Describes d t)
    (hfits : d.size p < 2 ^ 63) (he : d.part? i = some e) : start? types target known t i = some ((d.start p i : Nat) : Int) := by
  have hlayout := layout?_eq hknown hd
  rw [layout_eq_exact hp hfits] at hlayout
  rw [start?]
  cases d with
  | scalar mode => cases he
  | struct ds =>
    obtain ⟨name, members, hshape, -⟩ := hd
    rw [hshape, hlayout, Option.map_some, offsetAt_exact (DataType.getElem?_offsets he)]
  | union ds =>
    obtain ⟨name, members, hshape, -⟩ := hd
    have hmember : ds[i]? = some e := he
    have hzero : ((DataType.union ds).exact p).offsetAt i = 0 := by
      simp [TypeLayout.offsetAt, DataType.exact, DataType.places, hmember]
    rw [hshape, hlayout, Option.map_some, hzero]
    rfl
  | array d length =>
    obtain ⟨elem, hshape, helem⟩ := hd
    have hsize := DataType.start_add_size_le (p := p) he
    rw [DataType.part?] at he
    split_ifs at he with hi
    cases he
    have hround : alignUp (e.size p) (e.align p) = e.size p := alignUp_of_dvd e.align_dvd_size
    have hmax : max ((e.align p : Nat) : Int) 1 = e.align p := by
      have hpos := e.align_pos (p := p)
      omega
    have hstride : roundUp (e.exact p).size (max (e.exact p).align 1) = e.size p := by
      rw [DataType.exact]
      dsimp only
      rw [hmax, roundUp_eq e.align_pos (by omega), hround]
    rw [hshape]
    dsimp only
    rw [layout?_eq (hknown.contained (.array hshape)) helem, layout_eq_exact hp (by omega), Option.map_some, hstride, DataType.start, Nat.cast_mul]

theorem offset?_eq (hknown : RightIn types target known t) (hp : target.Regular p) (hd : types.Describes d t)
    (hfits : d.size p < 2 ^ 63) (hu : types.at? t path = some u) :
    offset? types target known t path = some ((d.offset p path : Nat) : Int) := by
  induction path generalizing d t with
  | nil => rfl
  | cons i path ih =>
    obtain ⟨t', ht', hu⟩ := TypeTable.at?_cons_iff.1 hu
    obtain ⟨e, he, hdesc⟩ := hd.part? ht'
    have hsize := DataType.start_add_size_le (p := p) he
    rw [offset?, ht', start?_eq hknown hp hd hfits he, DataType.offset_cons he]
    simp [ih (hknown.contained (TypeTable.contains_of_part? ht')) hdesc (by omega) hu]

theorem layout?_scalar (hknown : RightIn types target known u) (hp : target.Regular p) {mode : Mode}
    (hshape : types.shape? u = some (.primitive mode)) :
    layout? types target known u = some ⟨modeSize target mode, modeAlign target mode, none⟩ := by
  have hscalar : types.Describes (.scalar mode) u := hshape
  rw [layout?_eq hknown hscalar, DataType.layout, scalar_eq hp, modeAlign, modeSize_eq hp, Nat.cast_max, Nat.cast_one]

theorem Leaf.exists_scalar {offset : Int} {mode : Mode} (h : Leaf types target known t path offset mode)
    (hknown : RightIn types target known t) (hp : target.Regular p) (hd : types.Describes d t) (hfits : d.size p < 2 ^ 63) :
    ∃ e, d.at? path = some e ∧ offset = d.offset p path ∧ modeSize target mode = e.size p ∧ modeAlign target mode = e.align p := by
  obtain ⟨u, hu, hshape⟩ := h.scalar
  obtain ⟨e, he, hdesc⟩ := hd.at? hu
  have hsize := DataType.offset_add_size_le (p := p) he
  have hoffset := h.offset
  rw [offset?_eq hknown hp hd hfits hu] at hoffset
  have hwithin := hknown.within (TypeTable.within_of_at? hu)
  have hl := layout?_scalar hwithin hp hshape
  rw [layout?_eq hwithin hdesc, layout_eq_exact hp (by omega)] at hl
  obtain ⟨hsize', halign, -⟩ := TypeLayout.mk.inj (Option.some.inj hl)
  exact ⟨e, he, (Option.some.inj hoffset).symm, hsize'.symm, halign.symm⟩

/-- A type that stands for a data type of less than `2 ^ 63` bytes has a layout, whatever was asked before, and the scalars
inside of it are where they should be. -/
theorem leavesApart_of_describes {triple : Text} (htarget : Target.ofTriple triple = .ok target) (earlier : List Query)
    (hd : types.Describes d t) (hfits : d.size target.pointerSize.toNat < 2 ^ 63) :
    ∃ whole, layout? types target (Query.afterAll types target earlier) t = some whole ∧
      LeavesApart types target (Query.afterAll types target earlier) t whole := by
  have hknown := @rightIn_afterAll types target t d hd earlier
  generalize Query.afterAll types target earlier = known at hknown ⊢
  obtain ⟨p, hp⟩ := Target.regular_of_ofTriple htarget
  rw [hp.size_eq, Int.toNat_natCast] at hfits
  refine ⟨d.exact p, by rw [layout?_eq hknown hd, layout_eq_exact hp hfits], ?_, ?_, ?_, ?_⟩
  · exact Int.natCast_dvd_natCast.2 d.align_dvd_size
  · intro path u mode hu hshape
    exact ⟨layout?_scalar (hknown.within (TypeTable.within_of_at? hu)) hp hshape, _, ⟨u, hu, hshape⟩,
      offset?_eq hknown hp hd hfits hu⟩
  · intro path offset mode hleaf
    obtain ⟨e, he, rfl, hsize, halign⟩ := hleaf.exists_scalar hknown hp hd hfits
    obtain ⟨hdvd, hwhole⟩ := DataType.align_dvd_offset hp.eq_pow he
    have hinside := DataType.offset_add_size_le (p := p) he
    rw [hsize, halign]
    refine ⟨Int.natCast_dvd_natCast.2 hdvd, Int.natCast_nonneg _, ?_, Int.natCast_dvd_natCast.2 hwhole⟩
    show ((d.offset p path : Nat) : Int) + (e.size p : Nat) ≤ (d.size p : Nat)
    exact_mod_cast hinside
  · intro common i j rest rest' u offset offset' mode mode' hij hu hunion hleaf hleaf'
    obtain ⟨c, hc, hdesc⟩ := hd.at? hu
    have hc_union : ∀ members, c ≠ .union members := by
      rintro ds rfl
      obtain ⟨name, members, hshape, -⟩ := hdesc
      exact hunion name members hshape
    obtain ⟨e, he, rfl, hsize, -⟩ := hleaf.exists_scalar hknown hp hd hfits
    obtain ⟨e', he', rfl, -, -⟩ := hleaf'.exists_scalar hknown hp hd hfits
    have hbefore := DataType.offset_add_size_le_offset (p := p) hij hc hc_union he he'
    rw [hsize]
    exact_mod_cast hbefore

/-- A struct with an array of unions, asked for after the array and a type without a layout. -/
theorem leavesApart_of_describes_struct :
    let union : Shape := .union "u" [⟨"h", some Mode.int16.typeId⟩, ⟨"l", some Mode.int64.typeId⟩]
    let struct : Shape := .struct "s" [⟨"b", some Mode.int8.typeId⟩, ⟨"us", some 14⟩, ⟨"p", some Mode.pointer.typeId⟩]
    let types := (((TypeTable.initial.push union).2.push (.array (some 13) 2)).2.push struct).2
    let d : DataType := .struct [.scalar .int8, .array (.union [.scalar .int16, .scalar .int64]) 2, .scalar .pointer]
    Target.ofTriple "x86_64-linux-gnu" = .ok .linux64 ∧ types.Describes d 15 ∧
      d.size Target.linux64.pointerSize.toNat < 2 ^ 63 ∧
      ∃ whole, layout? types .linux64 (Query.afterAll types .linux64 [.size 14, .layout 12]) 15 = some whole ∧
        LeavesApart types .linux64 (Query.afterAll types .linux64 [.size 14, .layout 12]) 15 whole := by
  intro union struct types d
  have htarget : Target.ofTriple "x86_64-linux-gnu" = .ok .linux64 := by cbv
  have hunion : types.Describes (.union [.scalar .int16, .scalar .int64]) 13 :=
    ⟨_, _, rfl, ⟨_, rfl, rfl⟩, ⟨_, rfl, rfl⟩, trivial⟩
  have hd : types.Describes d 15 := ⟨_, _, rfl, ⟨_, rfl, rfl⟩, ⟨_, rfl, _, rfl, hunion⟩, ⟨_, rfl, rfl⟩, trivial⟩
  have hfits : d.size Target.linux64.pointerSize.toNat < 2 ^ 63 := by decide
  exact ⟨htarget, hd, hfits, leavesApart_of_describes htarget [.size 14, .layout 12] hd hfits⟩

end

end Layout

end ClassAbi
