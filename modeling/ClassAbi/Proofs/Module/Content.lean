import ClassAbi.Proofs.Layout.Engine
import ClassAbi.Proofs.Module.Packing

/-!
# The layout of the content of globals

Content that has the shape of its type is written without errors. What is written takes the bytes of the type, and in every
struct, however deep, the value of a member begins at the offset that the layout of the struct gives for it.
-/

namespace ClassAbi.Module

namespace Source

/-! ### Content of the shape of a type -/

/-- Whether constant code has all its operands, and only entities of the program occur in it. -/
def ProperCode (src : Source) : Code → Prop
  | .const _ _ => True
  | .address e => ∃ entity, src.program.entity? e = some entity
  | .add left right => src.ProperCode left ∧ src.ProperCode right
  | .bare _ _ => False

mutual

def Matches (src : Source) : DataType → Init → Prop
  | _, .null => True
  | .scalar _, .word _ _ => True
  | .scalar mode, .code c => mode = .pointer ∧ c.mode = .pointer ∧ src.ProperCode c
  | .struct ds, .compound values => src.MatchesAll ds values
  | .union ds, .compound values => ds ≠ [] ∧ src.MatchesAll ds values
  | .array d length, .compound values => length = values.length ∧ ∀ v ∈ values, src.Matches d v
  | .scalar _, .compound _ => False
  | .struct _, .word _ _ | .struct _, .code _ => False
  | .union _, .word _ _ | .union _, .code _ => False
  | .array _ _, .word _ _ | .array _ _, .code _ => False

/-- Whether there is one value for each member, of its shape. -/
def MatchesAll (src : Source) : List DataType → List Init → Prop
  | [], [] => True
  | d :: ds, v :: values => src.Matches d v ∧ src.MatchesAll ds values
  | [], _ :: _ | _ :: _, [] => False

end

/-- Whether content has the shape of the data type of a global and takes `n` bytes for it. At its end a struct may have an
array whose extent the content gives. -/
inductive Fits (src : Source) (p : Nat) : DataType → Init → (n : Nat) → Prop
  | whole {d : DataType} {v : Init} (hv : src.Matches d v) : src.Fits p d v (d.size p)
  | tail {ds : List DataType} {d : DataType} {length : Int} {values elems : List Init} {offset : Nat} (hlength : length < 0)
    (hvalues : src.MatchesAll ds values) (helems : ∀ v ∈ elems, src.Matches d v)
    (hoffset : (offsets p 0 (ds ++ [DataType.array d length]))[ds.length]? = some offset) :
    src.Fits p (.struct (ds ++ [DataType.array d length])) (.compound (values ++ [Init.compound elems]))
      (max ((DataType.struct (ds ++ [DataType.array d length])).size p) (offset + elems.length * d.size p))

/-! ### What is written -/

mutual

/-- Whether a typed constant is what stands for content of a type. The members of structs are at the offsets of the layouts
that the known ones lead to. -/
inductive Renders (src : Source) (p : Nat) (known : Layouts) : TypeId → Init → Ty × Const → Prop
  | zero {t : TypeId} {mode : Mode} (hshape : src.program.types.shape? t = some (.primitive mode)) :
    src.Renders p known t .null (Ty.ofMode mode, .zero mode)
  | zeroes {t : TypeId} {l : TypeLayout} {known' : Layouts}
    (hshape : ∀ mode, src.program.types.shape? t ≠ some (.primitive mode))
    (hlayout : Finishes (src.layoutOf t) known l known') : src.Renders p known t .null (Ty.bytes l.size, .zeroes)
  | word {t : TypeId} {mode mode' : Mode} {v : Int} (hshape : src.program.types.shape? t = some (.primitive mode)) :
    src.Renders p known t (.word mode' v) (Ty.ofMode mode, .word mode v src.pointerBits)
  | code {t : TypeId} {c : Code} {value : Const} (hshape : src.program.types.shape? t = some (.primitive .pointer))
    (hcode : Finishes (src.codeValue c) known (.ptr, value) known) : src.Renders p known t (.code c) (.ptr, value)
  | struct {t : TypeId} {name : Text} {members : List Member} {l : TypeLayout} {known' : Layouts} {values : List Init}
    {rendered parts : List (Ty × Const)} {stop : Int}
    (hshape : src.program.types.shape? t = some (.struct name members)) (hlayout : Finishes (src.layoutOf t) known l known')
    (hmembers : src.RendersAll p known (members.map Member.type) values rendered)
    (hparts : Interleaved p 0 ((l.places.getD []).map Place.offset) rendered parts stop) :
    src.Renders p known t (.compound values) (packed parts)
  | union {t t' : TypeId} {name : Text} {members : List Member} {m : Member} {values : List Init} {v : Init} {i : Nat}
    {value : Ty × Const} {parts : List (Ty × Const)} {stop : Int}
    (hshape : src.program.types.shape? t = some (.union name members)) (hchosen : chosenMember members values = some i)
    (hm : members[i]? = some m) (htype : m.type = some t') (hv : values[i]? = some v) (hvalue : src.Renders p known t' v value)
    (hparts : Interleaved p 0 [0] [value] parts stop) : src.Renders p known t (.compound values) (packed parts)
  | array {t elem : TypeId} {length : Int} {values : List Init} {rendered : List (Ty × Const)}
    (hshape : src.program.types.shape? t = some (.array (some elem) length))
    (helems : src.RendersAll p known (values.map fun _ => some elem) values rendered) :
    src.Renders p known t (.compound values) (arrayOf rendered)

/-- Whether typed constants are what stands for content of some types, one for each of them. -/
inductive RendersAll (src : Source) (p : Nat) (known : Layouts) : List (Option TypeId) → List Init → List (Ty × Const) → Prop
  | nil : src.RendersAll p known [] [] []
  | cons {t : TypeId} {ts : List (Option TypeId)} {v : Init} {values : List Init} {value : Ty × Const}
    {rendered : List (Ty × Const)} (h : src.Renders p known t v value) (hrest : src.RendersAll p known ts values rendered) :
    src.RendersAll p known (some t :: ts) (v :: values) (value :: rendered)

end

/-! ### Runs -/

variable {src : Source} {p : Nat}

theorem matchesAll_iff {ds : List DataType} {values : List Init} :
    src.MatchesAll ds values ↔ List.Forall₂ src.Matches ds values := by
  induction ds generalizing values with
  | nil => cases values <;> simp [MatchesAll]
  | cons d ds ih => cases values <;> simp [MatchesAll, ih]

theorem RendersAll.append {known : Layouts} {ts ts' : List (Option TypeId)} {values values' : List Init}
    {rendered rendered' : List (Ty × Const)} (h : src.RendersAll p known ts values rendered)
    (h' : src.RendersAll p known ts' values' rendered') :
    src.RendersAll p known (ts ++ ts') (values ++ values') (rendered ++ rendered') := by
  induction ts generalizing values rendered with
  | nil =>
    cases h
    exact h'
  | cons t ts ih =>
    cases h with
    | cons hfirst hrest => exact .cons hfirst (ih hrest)

/-- Whether the layouts that are known are right for a type and the types in it. -/
abbrev RightIn (src : Source) (known : Layouts) (t : TypeId) : Prop := Layout.RightIn src.program.types src.target known t

abbrev Grows (src : Source) (known known' : Layouts) : Prop := Layout.Grows src.program.types src.target known known'

theorem finishes_layoutOf_iff {t : TypeId} {known known' : Layouts} {l : TypeLayout} :
    Finishes (src.layoutOf t) known l known' ↔
      Finishes (Layout.layoutOf src.program.types src.target t) known l known' :=
  finishes_mapError_iff

theorem finishes_within_iff {α : Type} {wrap : EmitError → EmitError} {x : Emitter α} {known known' : Layouts} {a : α} :
    Finishes (Emitter.within wrap x) known a known' ↔ Finishes x known a known' :=
  finishes_mapError_iff

theorem finishes_sizeOf {t : TypeId} {d : DataType} {known : Layouts} (hd : src.program.types.Describes d t)
    (hright : src.RightIn known t) :
    ∃ known', Finishes (src.sizeOf t) known (d.layout src.target).size known' ∧
      src.Grows known known' := by
  obtain ⟨known', hrun, hgrows⟩ := Layout.finishes_layoutOf hd hright
  refine ⟨known', ?_, hgrows⟩
  exact finishes_bind_iff.2 ⟨_, known', finishes_layoutOf_iff.2 hrun, finishes_pure⟩

theorem finishes_layoutOf_exact (hp : src.target.Regular p) {t : TypeId} {d : DataType} {known : Layouts}
    (hd : src.program.types.Describes d t) (hright : src.RightIn known t)
    (hsize : d.size p < 2 ^ 63) :
    ∃ known', Finishes (src.layoutOf t) known (d.exact p) known' ∧
      src.Grows known known' := by
  obtain ⟨known', hrun, hgrows⟩ := Layout.finishes_layoutOf hd hright
  rw [layout_eq_exact hp hsize] at hrun
  exact ⟨known', finishes_layoutOf_iff.2 hrun, hgrows⟩

theorem finishes_codeValue {c : Code} (h : src.ProperCode c) :
    ∃ value, ∀ known, Finishes (src.codeValue c) known (Ty.ofMode c.mode, value) known := by
  induction c with
  | const mode v => exact ⟨_, fun known => finishes_pure⟩
  | address e =>
    obtain ⟨entity, hentity⟩ := h
    refine ⟨.symbol (symbol src.target entity), fun known => ?_⟩
    have hneed : Emitter.need ((some e).bind src.program.entity?) = pure entity := by rw [Option.bind_some, hentity]; rfl
    rw [codeValue, symbolOf, hneed]
    rfl
  | add left right ihl ihr =>
    obtain ⟨base, hbase⟩ := ihl h.1
    obtain ⟨offset, hoffset⟩ := ihr h.2
    by_cases hpointer : left.mode = .pointer
    · refine ⟨.shifted base (Ty.ofMode right.mode) offset, fun known => ?_⟩
      rw [codeValue, finishes_bind_iff]
      refine ⟨_, known, hbase known, finishes_bind_iff.2 ⟨_, known, hoffset known, ?_⟩⟩
      dsimp only
      rw [if_pos hpointer, Code.mode, hpointer]
      exact finishes_pure
    · refine ⟨.sum (Ty.ofMode right.mode) base offset, fun known => ?_⟩
      rw [codeValue, finishes_bind_iff]
      refine ⟨_, known, hbase known, finishes_bind_iff.2 ⟨_, known, hoffset known, ?_⟩⟩
      dsimp only
      rw [if_neg hpointer]
      exact finishes_pure
  | bare op mode => exact h.elim

/-! ### Values without parts -/

/-- Whether content is written for a type, with the bytes of a data type. -/
def Writes (src : Source) (p : Nat) (known0 known : Layouts) (d : DataType) (t : TypeId) (v : Init) : Prop :=
  ∃ value known', Finishes (src.content t v) known value known' ∧ Layout.Grows src.program.types src.target known known' ∧
    value.1.size p = d.size p ∧ src.Renders p known0 t v value

/-- Whether all content of the shape of a data type is written. -/
def WritesAll (src : Source) (p : Nat) (known0 : Layouts) (d : DataType) : Prop :=
  ∀ t v known, src.program.types.Describes d t → Layout.RightIn src.program.types src.target known0 t →
    Layout.RightIn src.program.types src.target known t → src.Matches d v → d.size p < 2 ^ 63 → src.Writes p known0 known d t v

variable {known0 known : Layouts} {d : DataType} {t : TypeId}

theorem writes_null (hp : src.target.Regular p) (hd : src.program.types.Describes d t)
    (hright0 : src.RightIn known0 t)
    (hright : src.RightIn known t) (hsize : d.size p < 2 ^ 63) :
    src.Writes p known0 known d t .null := by
  cases hmode : src.program.types.mode? t with
  | some mode =>
    have hshape : src.program.types.shape? t = some (.primitive mode) := TypeTable.shape?_of_mode? hmode
    have hscalar : src.program.types.Describes (.scalar mode) t := hshape
    obtain rfl := hd.unique hscalar
    refine ⟨(Ty.ofMode mode, .zero mode), known, ?_, .refl known, Ty.size_ofMode mode, .zero hshape⟩
    have hshape' : src.shape? t = some (.primitive mode) := hshape
    rw [content, zeroOf, hshape']
    exact finishes_pure
  | none =>
    have hshape : ∀ mode, src.program.types.shape? t ≠ some (.primitive mode) := TypeTable.shape?_of_mode?_none hmode
    obtain ⟨known', hrun, hgrows⟩ := finishes_sizeOf hd hright
    obtain ⟨known1, hlayout, -⟩ := finishes_layoutOf_exact hp hd hright0 hsize
    rw [layout_eq_exact hp hsize] at hrun
    refine ⟨(Ty.bytes (d.size p), .zeroes), known', ?_, hgrows, Ty.size_bytes _, .zeroes hshape hlayout⟩
    rw [content, zeroOf]
    split
    next mode heq => exact absurd heq (hshape mode)
    next => exact finishes_bind_iff.2 ⟨_, known', hrun, finishes_pure⟩

theorem writes_scalar {mode : Mode} (hd : src.program.types.Describes (.scalar mode) t) {v : Init}
    (hv : src.Matches (.scalar mode) v) (hne : v ≠ .null) : src.Writes p known0 known (.scalar mode) t v := by
  have hshape : src.program.types.shape? t = some (.primitive mode) := hd
  cases v with
  | null => exact absurd rfl hne
  | word mode' v =>
    refine ⟨(Ty.ofMode mode, .word mode v src.pointerBits), known, ?_, .refl known, Ty.size_ofMode mode, .word hshape⟩
    have hmode : (some t).bind src.program.types.mode? = some mode := by
      rw [Option.bind_some, TypeTable.mode?, hshape]
    rw [content, hmode]
    exact finishes_pure
  | code c =>
    obtain ⟨rfl, hpointer, hproper⟩ := hv
    obtain ⟨value, hvalue⟩ := finishes_codeValue hproper
    rw [hpointer] at hvalue
    refine ⟨(.ptr, value), known, ?_, .refl known, Ty.size_ofMode .pointer, .code hshape (hvalue known0)⟩
    rw [content]
    exact hvalue known
  | compound values => exact hv.elim

/-! ### Structs -/

theorem finishes_memberSize (hp : src.target.Regular p) (hd : src.program.types.Describes d t)
    (hright : src.RightIn known t) {v : Init} (hv : src.Matches d v)
    (hsize : d.size p < 2 ^ 63) :
    ∃ known', Finishes (src.memberSize t v) known (d.size p) known' ∧
      src.Grows known known' := by
  obtain ⟨known', hrun, hgrows⟩ := finishes_sizeOf hd hright
  rw [layout_eq_exact hp hsize] at hrun
  unfold memberSize
  split
  next elem length values hshape =>
    obtain ⟨d', t', rfl, rfl, -⟩ := hd.of_array hshape
    rw [if_neg (by have hlength := hv.1; omega)]
    exact ⟨known', hrun, hgrows⟩
  next elem length hshape _ =>
    obtain ⟨d', t', rfl, rfl, -⟩ := hd.of_array hshape
    split_ifs with hneg
    · refine ⟨known, finishes_pure_iff.2 ⟨?_, rfl⟩, .refl known⟩
      rw [DataType.size, Int.toNat_of_nonpos (by omega)]
      simp
    · exact ⟨known', hrun, hgrows⟩
  next => exact ⟨known', hrun, hgrows⟩

theorem structParts_cons {m : Member} {v : Init} {value : Ty × Const} {known1 known2 : Layouts} {size : Int}
    (hvalue : Finishes (src.content m.type v) known value known1) (hsize : Finishes (src.memberSize m.type v) known1 size known2)
    (members : List Member) (place : Place) (places : List Place) (packing : Packing) (values : List Init) :
    src.structParts (m :: members) (place :: places) packing (v :: values) known =
      src.structParts members places ((packing.pad place.offset).add value size) values known2 := by
  rw [structParts]
  rw [bind_apply_of_finishes (finishes_within_iff.2 hvalue), bind_apply_of_finishes hsize]

/-- The members of a struct are written one after the other, each at its offset; then it goes on with what comes after them. -/
theorem structParts_members (hp : src.target.Regular p) {ds : List DataType} {members : List Member} {values : List Init}
    (hall : src.program.types.DescribesAll ds members) (hvalues : src.MatchesAll ds values)
    (hds : ∀ d ∈ ds, src.WritesAll p known0 d)
    (hright0 : ∀ m ∈ members, ∀ t, m.type = some t → src.RightIn known0 t)
    (hright : ∀ m ∈ members, ∀ t, m.type = some t → src.RightIn known t)
    {pos : Nat} {places : List Place} (hplaces : places.map Place.offset = (offsets p pos ds).map Nat.cast)
    (hend : endAfter p pos ds < 2 ^ 63) (parts : List (Ty × Const)) :
    ∃ rendered new known', src.Grows known known' ∧
      src.RendersAll p known0 (members.map Member.type) values rendered ∧
      Interleaved p pos ((offsets p pos ds).map Nat.cast) rendered new (endAfter p pos ds) ∧
      ∀ members' places' values',
        src.structParts (members ++ members') (places ++ places') ⟨parts, pos⟩ (values ++ values') known =
          src.structParts members' places' ⟨new.reverse ++ parts, endAfter p pos ds⟩ values' known' := by
  replace hall := TypeTable.describesAll_iff.1 hall
  induction hall generalizing values known pos places parts with
  | nil =>
    obtain rfl := List.forall₂_nil_left_iff.1 (matchesAll_iff.1 hvalues)
    obtain rfl := List.map_eq_nil_iff.1 hplaces
    exact ⟨[], [], known, .refl known, .nil, .nil, fun _ _ _ => rfl⟩
  | @cons d m ds members hfirst _ ih =>
    cases values with
    | nil => exact hvalues.elim
    | cons v values =>
      obtain ⟨t, ht, hd⟩ := hfirst
      obtain ⟨hv, hvalues⟩ := hvalues
      obtain ⟨place, places, rfl, hplace, hplaces⟩ := List.map_eq_cons_iff.1 hplaces
      rw [List.forall_mem_cons] at hds hright0 hright
      rw [endAfter] at hend
      have hpos := le_alignUp pos (d.align p)
      have hnext := le_endAfter (p := p) (alignUp pos (d.align p) + d.size p) ds
      obtain ⟨value, known1, hrun, hgrows1, hsize, hrenders⟩ :=
        hds.1 t v known hd (hright0.1 t ht) (hright.1 t ht) hv (by omega)
      obtain ⟨known2, hrun', hgrows2⟩ := finishes_memberSize hp hd ((hright.1 t ht).grows hgrows1) hv (by omega)
      obtain ⟨new, hadd, hinterleaved⟩ := Packing.pad_add_eq parts hpos hsize (by omega)
      obtain ⟨rendered, new', known', hgrows', hrest, hinterleaved', heq⟩ := ih hvalues hds.2 hright0.2
        (fun m hm t ht => ((hright.2 m hm t ht).grows hgrows1).grows hgrows2) hplaces hend (new.reverse ++ parts)
      refine ⟨value :: rendered, new ++ new', known', (hgrows1.trans hgrows2).trans hgrows', ?_,
        hinterleaved.append hinterleaved', fun members' places' values' => ?_⟩
      · rw [List.map_cons, ht]
        exact .cons hrenders hrest
      · rw [← ht] at hrun hrun'
        rw [List.cons_append, List.cons_append, List.cons_append, structParts_cons hrun hrun', hplace, hadd, heq]
        simp [endAfter]

/-- A struct whose members are written up to `pos`, where padding up to its size comes after them. -/
theorem finishes_struct {ds : List DataType} {name : Text} {members : List Member} {values : List Init}
    {rendered new : List (Ty × Const)} {known1 known2 known' : Layouts} {pos : Nat}
    (hshape : src.program.types.shape? t = some (.struct name members))
    (hlayout0 : Finishes (src.layoutOf t) known0 ((DataType.struct ds).exact p) known2)
    (hlayout : Finishes (src.layoutOf t) known ((DataType.struct ds).exact p) known1)
    (hrun : Finishes (src.structParts members (((DataType.struct ds).exact p).places.getD []) ⟨[], 0⟩ values) known1
      ⟨new.reverse, pos⟩ known')
    (hrenders : src.RendersAll p known0 (members.map Member.type) values rendered)
    (hinterleaved : Interleaved p 0 ((offsets p 0 ds).map Nat.cast) rendered new pos)
    (hsize : (DataType.struct ds).size p < 2 ^ 63) :
    ∃ value, Finishes (src.content t (.compound values)) known value known' ∧
      value.1.size p = (max ((DataType.struct ds).size p) pos : Nat) ∧ src.Renders p known0 t (.compound values) value := by
  obtain ⟨padding, hpad, hpadding⟩ := Packing.pad_eq (p := p) new.reverse pos hsize
  have hparts := hinterleaved.append hpadding
  rw [List.append_nil, List.append_nil] at hparts
  refine ⟨packed (new ++ padding), ?_, hparts.size_packed_eq,
    .struct hshape hlayout0 hrenders ((offset_places (p := p) 0 ds).symm ▸ hparts)⟩
  have hshape' : src.shape? t = some (.struct name members) := hshape
  rw [content, hshape']
  refine finishes_bind_iff.2 ⟨_, known1, hlayout, finishes_bind_iff.2 ⟨_, known', hrun, finishes_pure_iff.2 ⟨?_, rfl⟩⟩⟩
  show packed (Packing.pad ⟨new.reverse, pos⟩ ((DataType.struct ds).size p : Nat)).parts.reverse = _
  rw [hpad]
  simp

theorem writes_struct (hp : src.target.Regular p) {ds : List DataType} {values : List Init}
    (hd : src.program.types.Describes (.struct ds) t) (hright0 : src.RightIn known0 t)
    (hright : src.RightIn known t) (hvalues : src.MatchesAll ds values)
    (hds : ∀ d ∈ ds, src.WritesAll p known0 d) (hsize : (DataType.struct ds).size p < 2 ^ 63) :
    src.Writes p known0 known (.struct ds) t (.compound values) := by
  obtain ⟨known1, hlayout, hgrows1⟩ := finishes_layoutOf_exact hp hd hright hsize
  obtain ⟨known2, hlayout0, -⟩ := finishes_layoutOf_exact hp hd hright0 hsize
  obtain ⟨name, members, hshape, hall⟩ := hd
  have hcontains : ∀ m ∈ members, ∀ t', m.type = some t' → src.program.types.Contains t t' :=
    fun m hm t' ht' => .struct hshape hm ht'
  have hend : endAfter p 0 ds ≤ (DataType.struct ds).size p := le_alignUp _ _
  obtain ⟨rendered, new, known', hgrows2, hrenders, hinterleaved, heq⟩ := structParts_members hp hall hvalues hds
    (fun m hm t' ht' => hright0.contained (hcontains m hm t' ht'))
    (fun m hm t' ht' => (hright.grows hgrows1).contained (hcontains m hm t' ht')) (offset_places 0 ds)
    (hend.trans_lt hsize) []
  have hrun : Finishes (src.structParts members (((DataType.struct ds).exact p).places.getD []) ⟨[], 0⟩ values) known1
      ⟨new.reverse, endAfter p 0 ds⟩ known' := by
    have heq' := heq [] [] []
    rw [List.append_nil, List.append_nil, List.append_nil, List.append_nil] at heq'
    exact heq'.trans (by rw [structParts]; rfl)
  obtain ⟨value, hvalue, hsize', hrenders'⟩ := finishes_struct hshape hlayout0 hlayout hrun hrenders hinterleaved hsize
  rw [max_eq_left hend] at hsize'
  exact ⟨value, known', hvalue, hgrows1.trans hgrows2, hsize', hrenders'⟩

/-! ### Arrays -/

/-- Elements are written one after the other, each with the bytes of the type of elements. -/
theorem finishes_elements (hright : src.RightIn known t) {values : List Init}
    (hvalues : ∀ v ∈ values, ∀ known, src.RightIn known t → src.Writes p known0 known d t v)
    (i : Nat) (before : List (Ty × Const)) :
    ∃ rendered known', Finishes (src.elements t i before values) known (before.reverse ++ rendered) known' ∧
      src.Grows known known' ∧ rendered.length = values.length ∧
      (∀ value ∈ rendered, value.1.size p = d.size p) ∧
      src.RendersAll p known0 (values.map fun _ => some t) values rendered := by
  induction values generalizing known i before with
  | nil =>
    refine ⟨[], known, ?_, .refl known, rfl, by simp, .nil⟩
    rw [elements, List.append_nil]
    exact finishes_pure
  | cons v values ih =>
    rw [List.forall_mem_cons] at hvalues
    obtain ⟨value, known1, hrun, hgrows1, hsize, hrenders⟩ := hvalues.1 known hright
    obtain ⟨rendered, known', hrest, hgrows', hlength, hsizes, hrenders'⟩ :=
      ih (hright.grows hgrows1) hvalues.2 (i + 1) (value :: before)
    refine ⟨value :: rendered, known', ?_, hgrows1.trans hgrows', ?_, List.forall_mem_cons.2 ⟨hsize, hsizes⟩,
      .cons hrenders hrenders'⟩
    · rw [elements, finishes_bind_iff]
      refine ⟨value, known1, finishes_within_iff.2 hrun, ?_⟩
      rwa [List.reverse_cons, List.append_assoc] at hrest
    · rw [List.length_cons, List.length_cons, hlength]

theorem size_le_of_mem {values : List Init} {v : Init} (hv : v ∈ values) : d.size p ≤ values.length * d.size p :=
  Nat.le_mul_of_pos_left _ (List.length_pos_of_mem hv)

theorem finishes_array {elem : TypeId} {length : Int} {values : List Init}
    (hshape : src.program.types.shape? t = some (.array (some elem) length)) (hd : src.program.types.Describes d elem)
    (hright0 : src.RightIn known0 t)
    (hright : src.RightIn known t) (hwrites : src.WritesAll p known0 d)
    (hvalues : ∀ v ∈ values, src.Matches d v) (hsize : ∀ v ∈ values, d.size p < 2 ^ 63) :
    ∃ value known', Finishes (src.content t (.compound values)) known value known' ∧
      src.Grows known known' ∧ value.1.size p = (values.length * d.size p : Nat) ∧
      src.Renders p known0 t (.compound values) value := by
  have hcontains : src.program.types.Contains t elem := .array hshape
  have helems : ∀ v ∈ values, ∀ known, src.RightIn known elem →
      src.Writes p known0 known d elem v := fun v hv known hright =>
    hwrites elem v known hd (hright0.contained hcontains) hright (hvalues v hv) (hsize v hv)
  obtain ⟨rendered, known', hrun, hgrows, hlength, hsizes, hrenders⟩ :=
    finishes_elements (hright.contained hcontains) helems 0 []
  refine ⟨arrayOf rendered, known', ?_, hgrows, ?_, .array hshape hrenders⟩
  · have hshape' : src.shape? t = some (.array (some elem) length) := hshape
    rw [content, hshape']
    exact finishes_bind_iff.2 ⟨rendered, known', hrun, finishes_pure⟩
  · rw [size_arrayOf hsizes, hlength, Nat.cast_mul]

/-! ### Unions -/

theorem search_spec {i : Nat} {members : List Member} {values : List Init} (hlength : members.length = values.length) :
    chosenMember.search i members values = some 0 ∨
      ∃ j < members.length, chosenMember.search i members values = some (i + j) := by
  induction members generalizing i values with
  | nil => exact .inl (by rw [chosenMember.search])
  | cons m members ih =>
    cases values with
    | nil => cases hlength
    | cons v values =>
      rw [chosenMember.search]
      split_ifs
      · rcases ih (i := i + 1) (Nat.succ.inj hlength) with hzero | ⟨j, hj, hsome⟩
        · exact .inl hzero
        · exact .inr ⟨j + 1, Nat.succ_lt_succ hj, by rw [hsome, Nat.add_assoc, Nat.add_comm 1 j]⟩
      · exact .inr ⟨0, Nat.succ_pos _, rfl⟩

theorem exists_chosenMember {members : List Member} {values : List Init} (hlength : members.length = values.length)
    (hne : members ≠ []) : ∃ i < members.length, chosenMember members values = some i := by
  rcases search_spec (i := 0) hlength with hzero | ⟨j, hj, hsome⟩
  · exact ⟨0, List.length_pos_of_ne_nil hne, hzero⟩
  · exact ⟨j, hj, by rw [chosenMember, hsome, Nat.zero_add]⟩

theorem memberValue_eq {m : Member} {i : Nat} {values : List Init} {v : Init} (h : values[i]? = some v) :
    src.memberValue m i values = Emitter.within (.inMember m.name) (src.content m.type v) := by
  induction values generalizing i with
  | nil => cases h
  | cons v' values ih =>
    cases i with
    | zero =>
      cases h
      rw [memberValue]
    | succ i =>
      rw [memberValue]
      exact ih h

theorem finishes_union {name : Text} {members : List Member} {values : List Init} {i : Nat} {m : Member} {v : Init}
    {value : Ty × Const} {size memberSize : Int} {known1 known2 known' : Layouts}
    (hshape : src.program.types.shape? t = some (.union name members)) (hsize : Finishes (src.sizeOf t) known size known1)
    (hchosen : chosenMember members values = some i) (hm : members[i]? = some m) (hv : values[i]? = some v)
    (hvalue : Finishes (src.content m.type v) known1 value known2)
    (hmember : Finishes (src.sizeOf m.type) known2 memberSize known') :
    Finishes (src.content t (.compound values)) known
      (packed ((Packing.add ⟨[], 0⟩ value memberSize).pad size).parts.reverse) known' := by
  have hshape' : src.shape? t = some (.union name members) := hshape
  rw [content, hshape']
  refine finishes_bind_iff.2 ⟨size, known1, hsize, ?_⟩
  rw [hchosen]
  refine finishes_bind_iff.2 ⟨i, known1, finishes_pure, ?_⟩
  rw [hm]
  refine finishes_bind_iff.2 ⟨m, known1, finishes_pure, ?_⟩
  rw [memberValue_eq hv]
  refine finishes_bind_iff.2 ⟨value, known2, finishes_within_iff.2 hvalue, ?_⟩
  exact finishes_bind_iff.2 ⟨memberSize, known', hmember, finishes_pure⟩

theorem writes_union (hp : src.target.Regular p) {ds : List DataType} {values : List Init}
    (hd : src.program.types.Describes (.union ds) t) (hright0 : src.RightIn known0 t)
    (hright : src.RightIn known t) (hne : ds ≠ []) (hvalues : src.MatchesAll ds values)
    (hds : ∀ d ∈ ds, src.WritesAll p known0 d)
    (hsize : (DataType.union ds).size p < 2 ^ 63) : src.Writes p known0 known (.union ds) t (.compound values) := by
  obtain ⟨known1, hrun1, hgrows1⟩ := finishes_sizeOf hd hright
  rw [layout_eq_exact hp hsize] at hrun1
  obtain ⟨name, members, hshape, hall⟩ := hd
  have hlength : ds.length = members.length := hall.length_eq
  obtain ⟨i, hi, hchosen⟩ := exists_chosenMember (hlength.symm.trans (matchesAll_iff.1 hvalues).length_eq)
    (List.ne_nil_of_length_pos (hlength ▸ List.length_pos_of_ne_nil hne))
  obtain ⟨d, hdi⟩ : ∃ d, ds[i]? = some d := ⟨_, List.getElem?_eq_getElem (hlength ▸ hi)⟩
  obtain ⟨m, t', hm, ht', hd'⟩ := hall.getElem? hdi
  obtain ⟨v, hvi, hv⟩ := exists_getElem?_of_forall₂ (matchesAll_iff.1 hvalues) hdi
  have hcontains : src.program.types.Contains t t' := .union hshape (List.mem_of_getElem? hm) ht'
  have hmember : d.size p ≤ (DataType.union ds).size p :=
    (size_le_greatestSize (List.mem_of_getElem? hdi)).trans (le_alignUp _ _)
  have hlt := hmember.trans_lt hsize
  obtain ⟨value, known2, hrun2, hgrows2, hvalue, hrenders⟩ := hds d (List.mem_of_getElem? hdi) t' v known1 hd'
    (hright0.contained hcontains) ((hright.grows hgrows1).contained hcontains) hv hlt
  obtain ⟨known3, hrun3, hgrows3⟩ :=
    finishes_sizeOf hd' (((hright.grows hgrows1).grows hgrows2).contained hcontains)
  rw [layout_eq_exact hp hlt] at hrun3
  have hadd : Packing.add ⟨[], 0⟩ value (d.size p) = ⟨[value], d.size p⟩ := by
    rw [Packing.add, zero_add, wrap_eq_self (by omega) (by omega)]
  -- The member begins at 0, and padding comes after it.
  obtain ⟨padding, hpad, hpadding⟩ := Packing.pad_eq (p := p) [value] (d.size p) hsize
  rw [max_eq_left hmember] at hpadding
  have hparts : Interleaved p 0 [0] [value] ([value] ++ padding) ((DataType.union ds).size p) := by
    refine .member ?_
    rw [hvalue, zero_add]
    exact hpadding
  refine ⟨packed ([value] ++ padding), known3, ?_, (hgrows1.trans hgrows2).trans hgrows3, hparts.size_packed_eq,
    .union hshape hchosen hm ht' hvi hrenders hparts⟩
  rw [← ht'] at hrun2 hrun3
  have hpacked : packed ([value] ++ padding) =
      packed ((Packing.add ⟨[], 0⟩ value (d.size p)).pad ((DataType.union ds).size p : Nat)).parts.reverse := by
    rw [hadd, hpad]
    simp
  rw [hpacked]
  exact finishes_union hshape hrun1 hchosen hm hvi hrun2 hrun3

/-! ### All data types -/

theorem writesAll (hp : src.target.Regular p) (d : DataType) : src.WritesAll p known0 d := by
  induction d with
  | scalar mode =>
    intro t v known hd hright0 hright hv hsize
    by_cases hnull : v = .null
    · subst hnull
      exact writes_null hp hd hright0 hright hsize
    · exact writes_scalar hd hv hnull
  | struct ds ih =>
    intro t v known hd hright0 hright hv hsize
    cases v with
    | null => exact writes_null hp hd hright0 hright hsize
    | compound values => exact writes_struct hp hd hright0 hright hv ih hsize
    | word _ _ | code _ => exact hv.elim
  | union ds ih =>
    intro t v known hd hright0 hright hv hsize
    cases v with
    | null => exact writes_null hp hd hright0 hright hsize
    | compound values => exact writes_union hp hd hright0 hright hv.1 hv.2 ih hsize
    | word _ _ | code _ => exact hv.elim
  | array d length ih =>
    intro t v known hd hright0 hright hv hsize
    cases v with
    | null => exact writes_null hp hd hright0 hright hsize
    | compound values =>
      obtain ⟨hlength, hvalues⟩ := hv
      have hbytes : (DataType.array d length).size p = values.length * d.size p := by
        rw [DataType.size, hlength, Int.toNat_natCast, Nat.mul_comm]
      obtain ⟨elem, hshape, helem⟩ := hd
      rw [hbytes] at hsize
      obtain ⟨value, known', hrun, hgrows, hvalue, hrenders⟩ := finishes_array hshape helem hright0 hright ih hvalues
        fun v hv => (size_le_of_mem hv).trans_lt hsize
      exact ⟨value, known', hrun, hgrows, by rw [hvalue, hbytes], hrenders⟩
    | word _ _ | code _ => exact hv.elim

/-! ### Structs that end with an open array -/

theorem finishes_memberSize_open {elem : TypeId} {length : Int} (hlength : length < 0)
    (hshape : src.program.types.shape? t = some (.array (some elem) length)) (hd : src.program.types.Describes d elem)
    (hright : src.RightIn known elem) (values : List Init) :
    ∃ known', Finishes (src.memberSize t (.compound values)) known (wrap ((d.layout src.target).size * values.length)) known' ∧
      src.Grows known known' := by
  obtain ⟨known', hrun, hgrows⟩ := finishes_sizeOf hd hright
  refine ⟨known', ?_, hgrows⟩
  have hshape' : src.shape? t = some (.array (some elem) length) := hshape
  unfold memberSize
  rw [hshape']
  dsimp only
  rw [if_pos hlength]
  exact finishes_bind_iff.2 ⟨_, known', hrun, finishes_pure⟩

theorem finishes_structParts_open (hp : src.target.Regular p) {ds : List DataType} {length : Int} {members : List Member}
    {values elems : List Init} {offset : Nat}
    (hall : src.program.types.DescribesAll (ds ++ [DataType.array d length]) members)
    (hright : ∀ m ∈ members, ∀ t, m.type = some t → src.RightIn known t)
    (hright0 : ∀ m ∈ members, ∀ t, m.type = some t → src.RightIn known0 t)
    (hlength : length < 0) (hvalues : src.MatchesAll ds values) (helems : ∀ v ∈ elems, src.Matches d v)
    (hoffsets : offsets p 0 (ds ++ [DataType.array d length]) = offsets p 0 ds ++ [offset]) (hend : endAfter p 0 ds < 2 ^ 63)
    (hsize : ∀ v ∈ elems, d.size p < 2 ^ 63) :
    ∃ (rendered new : List (Ty × Const)) (value : Ty × Const) (known' : Layouts),
      src.RendersAll p known0 (members.map Member.type) (values ++ [Init.compound elems]) (rendered ++ [value]) ∧
      Interleaved p 0 ((offsets p 0 ds).map Nat.cast) rendered new (endAfter p 0 ds) ∧
      value.1.size p = (elems.length * d.size p : Nat) ∧
      Finishes (src.structParts members (((DataType.struct (ds ++ [DataType.array d length])).exact p).places.getD []) ⟨[], 0⟩
        (values ++ [Init.compound elems])) known
        ((Packing.pad ⟨new.reverse, endAfter p 0 ds⟩ offset).add value
          (wrap ((d.layout src.target).size * elems.length))) known' := by
  obtain ⟨members, last, rfl, hmembers, hlast⟩ := hall.of_append
  obtain ⟨m, rfl, t, ht, harray⟩ := hlast.of_singleton
  obtain ⟨elem, hshape, helem⟩ := harray
  have hcontains : src.program.types.Contains t elem := .array hshape
  rw [List.forall_mem_append, List.forall_mem_singleton] at hright hright0
  have hplaces : (((DataType.struct (ds ++ [DataType.array d length])).exact p).places.getD []).map Place.offset =
      (offsets p 0 ds).map Nat.cast ++ [(offset : Int)] :=
    (offset_places 0 _).trans (by rw [hoffsets, List.map_append, List.map_singleton])
  obtain ⟨places, last, heq, hplaces, hlast⟩ := List.map_eq_append_iff.1 hplaces
  obtain ⟨place, rest, rfl, hplace, hrest⟩ := List.map_eq_cons_iff.1 hlast
  obtain rfl := List.map_eq_nil_iff.1 hrest
  rw [heq]
  -- The members before the array, the array, and its size.
  obtain ⟨rendered, new, known1, hgrows1, hrenders, hinterleaved, hparts⟩ := structParts_members hp hmembers hvalues
    (fun d _ => writesAll hp d) hright0.1 hright.1 hplaces hend []
  obtain ⟨value, known2, hvalue, hgrows2, hsize', hrenders'⟩ := finishes_array hshape helem (hright0.2 t ht)
    ((hright.2 t ht).grows hgrows1) (writesAll hp d) helems hsize
  obtain ⟨known', hextent, -⟩ := finishes_memberSize_open hlength hshape helem
    ((((hright.2 t ht).grows hgrows1).grows hgrows2).contained hcontains) elems
  refine ⟨rendered, new, value, known', ?_, hinterleaved, hsize', ?_⟩
  · rw [List.map_append, List.map_singleton, ht]
    exact hrenders.append (.cons hrenders' .nil)
  · rw [← ht] at hvalue hextent
    refine (hparts [m] [place] [Init.compound elems]).trans ?_
    rw [List.append_nil, structParts_cons hvalue hextent, structParts, hplace]
    rfl

/-- A struct that ends with an open array is written with the bytes of the array, if these are more than its own. -/
theorem finishes_open (hp : src.target.Regular p) {ds : List DataType} {length : Int} {values elems : List Init} {offset : Nat}
    (hd : src.program.types.Describes (.struct (ds ++ [DataType.array d length])) t)
    (hright : src.RightIn known t) (hlength : length < 0)
    (hvalues : src.MatchesAll ds values) (helems : ∀ v ∈ elems, src.Matches d v)
    (hoffset : (offsets p 0 (ds ++ [DataType.array d length]))[ds.length]? = some offset)
    (hsize : (DataType.struct (ds ++ [DataType.array d length])).size p < 2 ^ 63)
    (htail : offset + elems.length * d.size p < 2 ^ 63) :
    ∃ value known', Finishes (src.content t (.compound (values ++ [Init.compound elems]))) known value known' ∧
      value.1.size p =
        (max ((DataType.struct (ds ++ [DataType.array d length])).size p) (offset + elems.length * d.size p) : Nat) ∧
      src.Renders p known t (.compound (values ++ [Init.compound elems])) value := by
  obtain ⟨hoffsets, hpos⟩ := offset_last hoffset
  obtain ⟨known1, hlayout, hgrows1⟩ := finishes_layoutOf_exact hp hd hright hsize
  obtain ⟨name, members, hshape, hall⟩ := hd
  have hcontains : ∀ m ∈ members, ∀ t', m.type = some t' → src.program.types.Contains t t' :=
    fun m hm t' ht' => .struct hshape hm ht'
  have helem : ∀ v ∈ elems, d.size p < 2 ^ 63 := fun v hv => by
    have hle := size_le_of_mem (p := p) (d := d) hv
    omega
  obtain ⟨rendered, new, value, known', hrenders, hinterleaved, hvalue, hparts⟩ := finishes_structParts_open hp hall
    (fun m hm t' ht' => (hright.grows hgrows1).contained (hcontains m hm t' ht'))
    (fun m hm t' ht' => hright.contained (hcontains m hm t' ht')) hlength hvalues helems hoffsets (by omega) helem
  -- Without an overflow the extent of the array is that of its elements.
  have hextent : wrap ((d.layout src.target).size * elems.length) = (elems.length * d.size p : Nat) := by
    by_cases hne : elems = []
    · simp [hne, wrap]
    · obtain ⟨v, hv⟩ := List.exists_mem_of_ne_nil _ hne
      rw [layout_eq_exact hp (helem v hv), DataType.exact]
      dsimp only
      rw [← Nat.cast_mul, Nat.mul_comm, wrap_eq_self (by omega) (by omega)]
  obtain ⟨padding, hadd, hmember⟩ := Packing.pad_add_eq new.reverse hpos hvalue htail
  rw [hextent, hadd, ← List.reverse_append] at hparts
  obtain ⟨out, hrun, hout, hrenders'⟩ := finishes_struct hshape hlayout hlayout hparts hrenders
    (by rw [hoffsets, List.map_append]; exact hinterleaved.append hmember) hsize
  exact ⟨out, known', hrun, hout, hrenders'⟩

/-! ### A struct with a tail -/

/-- A program with a struct of a word, a byte and an open array of blocks of bytes. -/
def blocks (length : Nat) : Source where
  program :=
    let block := TypeTable.initial.push (.array (some Mode.uint8.typeId) length)
    let tail := block.2.push (.array (some block.1) (-1))
    { types := (tail.2.push (.struct "t"
        [⟨"a", some Mode.int64.typeId⟩, ⟨"b", some Mode.uint8.typeId⟩, ⟨"tail", some tail.1⟩])).2 }
  target := .linux64

def blocksType : TypeId := unknownType + 3

def blocksData (length : Nat) : DataType :=
  .struct ([.scalar .int64, .scalar .uint8] ++ [.array (.array (.scalar .uint8) length) (-1)])

def blocksContent (elems : List Init) : Init := .compound ([.word .int64 1, .word .uint8 2] ++ [Init.compound elems])

theorem describes_blocks (length : Nat) : (blocks length).program.types.Describes (blocksData length) blocksType :=
  ⟨_, _, rfl, ⟨_, rfl, rfl⟩, ⟨_, rfl, rfl⟩, ⟨_, rfl, _, rfl, _, rfl, rfl⟩, trivial⟩

theorem offsets_blocks (length : Nat) :
    offsets 8 0 ([.scalar .int64, .scalar .uint8] ++ [.array (.array (.scalar .uint8) length) (-1)]) = [0, 8, 9] := by
  simp [offsets, DataType.align, DataType.size, Mode.bytes, Mode.size, alignUp]

theorem size_blocksData (length : Nat) : (blocksData length).size 8 = 16 := by
  simp [blocksData, DataType.size, endAfter, DataType.align, alignAll, alignUp, Mode.bytes, Mode.size]

theorem size_block (length : Nat) : (DataType.array (.scalar .uint8) length).size 8 = length := by
  simp [DataType.size, Mode.bytes, Mode.size]

theorem matchesAll_blocks (length : Nat) :
    (blocks length).MatchesAll [.scalar .int64, .scalar .uint8] [.word .int64 1, .word .uint8 2] :=
  ⟨trivial, trivial, trivial⟩

theorem fits_blocks (length : Nat) {elems : List Init} (helems : ∀ v ∈ elems, v = .null) :
    (blocks length).Fits 8 (blocksData length) (blocksContent elems) (max 16 (9 + elems.length * length)) := by
  have hmatches : ∀ v ∈ elems, (blocks length).Matches (.array (.scalar .uint8) length) v := by
    intro v hv
    rw [helems v hv]
    trivial
  have hoffset := congrArg (fun l => l[2]?) (offsets_blocks length)
  have hfits := Fits.tail (by decide) (matchesAll_blocks length) hmatches hoffset
  rw [size_block] at hfits
  have hsize := size_blocksData length
  rw [blocksData] at hsize ⊢
  rw [← hsize]
  exact hfits

theorem rightIn_empty (types : TypeTable) (target : Target) (t : TypeId) : Layout.RightIn types target ∅ t :=
  fun _ _ _ _ => .inl (by simp)

/-- Content that fits a type is written without errors. It takes the bytes of the type, or those up to the end of an open
array, and the values of members are at the offsets of the layouts. -/
theorem content_lays_out {triple : Text} (htarget : Target.ofTriple triple = .ok src.target)
    (hp : src.target.pointerSize = p) (hd : src.program.types.Describes d t)
    (hright : Layout.RightIn src.program.types src.target known t) {v : Init} {n : Nat} (hv : src.Fits p d v n)
    (hn : n < 2 ^ 63) :
    (∃ known', Finishes (src.layoutOf t) known (d.exact p) known') ∧
      ∃ value known', Finishes (src.content t v) known value known' ∧ value.1.size p = n ∧ src.Renders p known t v value := by
  obtain ⟨q, hq⟩ := Target.regular_of_ofTriple htarget
  obtain rfl : p = q := by
    have heq := hp.symm.trans hq.size_eq
    exact_mod_cast heq
  cases hv with
  | whole hv =>
    obtain ⟨known', hlayout, -⟩ := finishes_layoutOf_exact hq hd hright hn
    obtain ⟨value, known'', hrun, -, hsize, hrenders⟩ := writesAll hq d t v known hd hright hright hv hn
    exact ⟨⟨known', hlayout⟩, value, known'', hrun, hsize, hrenders⟩
  | tail hlength hvalues helems hoffset =>
    obtain ⟨hsize, htail⟩ := max_lt_iff.1 hn
    obtain ⟨known', hlayout, -⟩ := finishes_layoutOf_exact hq hd hright hsize
    exact ⟨⟨known', hlayout⟩, finishes_open hq hd hright hlength hvalues helems hoffset hsize htail⟩

theorem content_lays_out_blocks :
    Target.ofTriple "x86_64-linux-gnu" = .ok (blocks 4).target ∧
      (blocks 4).Fits 8 (blocksData 4) (blocksContent [.null, .null]) 17 ∧
      (∃ known', Finishes ((blocks 4).layoutOf blocksType) ∅ ((blocksData 4).exact 8) known') ∧
      ∃ value known', Finishes ((blocks 4).content blocksType (blocksContent [.null, .null])) ∅ value known' ∧
        value.1.size 8 = 17 ∧ (blocks 4).Renders 8 ∅ blocksType (blocksContent [.null, .null]) value := by
  have htarget : Target.ofTriple "x86_64-linux-gnu" = .ok (blocks 4).target := by cbv
  have hfits : (blocks 4).Fits 8 (blocksData 4) (blocksContent [.null, .null]) 17 := fits_blocks 4 (by simp)
  exact ⟨htarget, hfits, content_lays_out htarget rfl (describes_blocks 4) (rightIn_empty _ _ _) hfits (by decide)⟩

/-- Where the extent of the array is not below `2 ^ 63`, padding up to the size of the struct can come after it. -/
theorem stray_padding_after_open_array :
    Target.ofTriple "x86_64-linux-gnu" = .ok (blocks (2 ^ 62)).target ∧
      (blocks (2 ^ 62)).program.types.Describes (blocksData (2 ^ 62)) blocksType ∧
      (blocks (2 ^ 62)).Fits 8 (blocksData (2 ^ 62)) (blocksContent [.null, .null, .null, .null]) (9 + 4 * 2 ^ 62) ∧
      ∃ value known',
        Finishes ((blocks (2 ^ 62)).content blocksType (blocksContent [.null, .null, .null, .null])) ∅ value known' ∧
        value.1.size 8 = 9 + 4 * 2 ^ 62 + 7 := by
  have htarget : Target.ofTriple "x86_64-linux-gnu" = .ok (blocks (2 ^ 62)).target := by cbv
  have hfits : (blocks (2 ^ 62)).Fits 8 (blocksData (2 ^ 62)) (blocksContent [.null, .null, .null, .null]) (9 + 4 * 2 ^ 62) :=
    fits_blocks (2 ^ 62) (by simp)
  have hp : (blocks (2 ^ 62)).target.Regular 8 := ⟨rfl, rfl, .inr rfl⟩
  have hblock : (DataType.array (.scalar .uint8) (2 ^ 62 : Nat)).size 8 < 2 ^ 63 := by
    rw [size_block]
    norm_num
  refine ⟨htarget, describes_blocks _, hfits, ?_⟩
  have hright := rightIn_empty (blocks (2 ^ 62)).program.types (blocks (2 ^ 62)).target blocksType
  obtain ⟨known1, hlayout, hgrows⟩ := finishes_layoutOf_exact hp (describes_blocks (2 ^ 62)) hright
    (by rw [size_blocksData]; norm_num)
  obtain ⟨name, members, hshape, hall⟩ := describes_blocks (2 ^ 62)
  have hright1 : ∀ m ∈ members, ∀ t, m.type = some t →
      Layout.RightIn (blocks (2 ^ 62)).program.types (blocks (2 ^ 62)).target known1 t :=
    fun m hm t ht => (hright.grows hgrows).contained (.struct hshape hm ht)
  have helems : ∀ v ∈ [Init.null, .null, .null, .null],
      (blocks (2 ^ 62)).Matches (.array (.scalar .uint8) (2 ^ 62 : Nat)) v := by simp [Matches]
  have hend : endAfter 8 0 [.scalar .int64, .scalar .uint8] = 9 := by decide
  obtain ⟨rendered, new, value, known', -, hinterleaved, hvalue, hparts⟩ := finishes_structParts_open hp hall hright1 hright1
    (by decide) (matchesAll_blocks (2 ^ 62)) helems (offsets_blocks (2 ^ 62)) (by rw [hend]; norm_num) fun _ _ => hblock
  -- The extent of the four blocks is 0 as a word, so the packing goes on as if they were not there.
  have hextent : wrap (((DataType.array (.scalar .uint8) (2 ^ 62 : Nat)).exact 8).size * (4 : Nat)) = 0 := by
    rw [DataType.exact, size_block]
    decide
  have hpack : ((Packing.pad ⟨new.reverse, (9 : Nat)⟩ (9 : Nat)).add value 0).pad 16 =
      ⟨(Ty.bytes 7, .zeroes) :: value :: new.reverse, 16⟩ := rfl
  rw [layout_eq_exact hp hblock, List.length_cons, List.length_cons, List.length_cons, List.length_singleton, hextent,
    hend] at hparts
  rw [hend] at hinterleaved
  have hrest : Interleaved 8 (9 : Nat) [((9 : Nat) : Int)] [value] [value, (Ty.bytes 7, .zeroes)]
      ((9 : Nat) + value.1.size 8 + 7) :=
    .member (.padding (by decide) .nil)
  refine ⟨packed (new ++ [value, (Ty.bytes 7, .zeroes)]), known', ?_, ?_⟩
  · have hshape' : (blocks (2 ^ 62)).shape? blocksType = some (.struct name members) := hshape
    rw [blocksContent, content, hshape']
    refine finishes_bind_iff.2 ⟨_, known1, hlayout, finishes_bind_iff.2 ⟨_, known', hparts, finishes_pure_iff.2 ⟨?_, rfl⟩⟩⟩
    have hsize : ((blocksData (2 ^ 62)).exact 8).size = 16 := by rw [DataType.exact, size_blocksData]; rfl
    rw [hsize, hpack]
    simp
  · rw [(hinterleaved.append hrest).size_packed_eq, hvalue, size_block]
    norm_num

end Source

end ClassAbi.Module
