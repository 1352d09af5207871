import ClassAbi.Proofs.Abi.Objects

/-!
# The header of arrays

Arrays of all element types have one header, which consists of an object of the root class and the length. Its size is rounded
up to the alignment of its own members. This is enough for references and for elements of at most four bytes. Elements of
eight bytes are aligned only if the root class needs that alignment itself, or has a size that makes up for the length.
-/

namespace ClassAbi

variable {target : Target} {d : DataType}

/-- The data type of the header, where the objects of the root class have the data type `d`. -/
def DataType.arrayHeader (d : DataType) : DataType := .struct [d, .scalar .int32]

section

variable {p : Nat} {d : DataType}

theorem DataType.align_arrayHeader (h : 4 ∣ d.align p) : d.arrayHeader.align p = d.align p := by
  have hle : 4 ≤ d.align p := Nat.le_of_dvd d.align_pos h
  have hlength : alignAll p [.scalar .int32] = 4 := rfl
  rw [arrayHeader, align, alignAll, hlength, max_eq_left hle]

theorem DataType.offsets_arrayHeader (h : 4 ∣ d.align p) : offsets p 0 [d, .scalar .int32] = [0, d.size p] := by
  have hlength : (DataType.scalar .int32).align p = 4 := rfl
  rw [offsets, offsets, offsets, hlength, alignUp_of_dvd (dvd_zero _), Nat.zero_add, alignUp_of_dvd (h.trans d.align_dvd_size)]

theorem DataType.size_arrayHeader (h : 4 ∣ d.align p) : d.arrayHeader.size p = alignUp (d.size p + 4) (d.align p) := by
  have hend : endAfter p 0 [d, .scalar .int32] = d.size p + 4 := by
    have hlength : (DataType.scalar .int32).align p = 4 := rfl
    rw [endAfter, endAfter, endAfter, hlength, alignUp_of_dvd (dvd_zero _), Nat.zero_add,
      alignUp_of_dvd (h.trans d.align_dvd_size)]
    rfl
  rw [← align_arrayHeader h, arrayHeader, size, hend]
  rfl

/-- Nothing but the objects of the root class can give the header a greater alignment than that of the length. -/
theorem DataType.eight_dvd_arrayHeader_iff (hpow : ∃ k, d.align p = 2 ^ k) (h : 4 ∣ d.align p) :
    8 ∣ d.arrayHeader.size p ↔ 8 ∣ d.align p ∨ d.size p % 8 = 4 := by
  rw [size_arrayHeader h]
  by_cases hwide : 8 ∣ d.align p
  · exact iff_of_true (hwide.trans (dvd_alignUp _ d.align_pos)) (.inl hwide)
  · obtain ⟨k, hk⟩ := hpow
    have hnarrow : d.align p = 4 := by
      have hle : 4 ≤ d.align p := Nat.le_of_dvd d.align_pos h
      have hlt : ¬8 ≤ d.align p := fun hle' => hwide (dvd_of_le_of_pow (show 8 = 2 ^ 3 from rfl) hk hle')
      omega
    have hdvd : 4 ∣ d.size p := h.trans d.align_dvd_size
    rw [hnarrow, alignUp_of_dvd (Nat.dvd_add hdvd (dvd_refl 4))]
    omega

end

theorem Target.Regular.four_dvd {p : Nat} (h : target.Regular p) : 4 ∣ p := by
  rcases h.width with rfl | rfl <;> decide

/-- What holds of the header of arrays, where `root` is the layout of the objects of the root class. -/
structure ArrayModel.Fits (a : ArrayModel) (target : Target) (root : TypeLayout) : Prop where
  length_after : root.size ≤ a.lengthOffset
  length_aligned : 4 ∣ a.lengthOffset
  length_inside : a.lengthOffset + 4 ≤ a.headerSize
  reference : ∀ i : Nat, (Layout.pointer target).align ∣ a.headerSize + i * (Layout.pointer target).size
  element : ∀ (mode : Mode) (i : Nat), (Layout.scalar target mode).align ∣ a.headerSize + i * (Layout.scalar target mode).size ↔
    (Layout.scalar target mode).align ≤ 4 ∨ 8 ∣ root.align ∨ root.size % 8 = 4

namespace Abi

variable {w w' : Workspace} {p : Nat}

theorem fits_arrayHeader (hp : target.Regular p) (hdvd : p ∣ d.align p) :
    ArrayModel.Fits ⟨d.arrayHeader.size p, 4, d.size p⟩ target (d.exact p) := by
  have hfour : 4 ∣ d.align p := hp.four_dvd.trans hdvd
  have hsize : 4 ∣ d.size p := hfour.trans d.align_dvd_size
  have halign : d.align p ∣ d.arrayHeader.size p := by
    rw [DataType.size_arrayHeader hfour]
    exact dvd_alignUp _ d.align_pos
  have hlength : d.size p + 4 ≤ d.arrayHeader.size p := by
    rw [DataType.size_arrayHeader hfour]
    exact le_alignUp _ _
  have hpointer : Layout.pointer target = Layout.scalar target .pointer := rfl
  have helement : ∀ (mode : Mode) (i : Nat), (Layout.scalar target mode).align ∣
      (d.arrayHeader.size p : Int) + i * (Layout.scalar target mode).size ↔ max (mode.bytes p) 1 ∣ d.arrayHeader.size p := by
    intro mode i
    have hdvd : max (mode.bytes p) 1 ∣ i * mode.bytes p := Dvd.dvd.mul_left (DataType.scalar mode).align_dvd_size i
    rw [scalar_eq hp]
    dsimp only
    rw [← Nat.cast_mul, ← Nat.cast_add, Int.natCast_dvd_natCast, Nat.dvd_add_left hdvd]
  refine ⟨le_rfl, Int.natCast_dvd_natCast.2 hsize, Int.ofNat_le.2 hlength, fun i => ?_, fun mode i => ?_⟩
  · have hbytes : max (Mode.pointer.bytes p) 1 ∣ p := by rcases hp.width with rfl | rfl <;> decide
    exact (helement .pointer i).2 (hbytes.trans (hdvd.trans halign))
  · have hmode : max (mode.bytes p) 1 ∣ 4 ∨ max (mode.bytes p) 1 = 8 := by
      rcases hp.width with rfl | rfl <;> cases mode <;> decide
    rw [helement, scalar_eq hp]
    show _ ↔ ((max (mode.bytes p) 1 : Nat) : Int) ≤ 4 ∨ (8 : Int) ∣ (d.align p : Int) ∨ (d.size p : Int) % 8 = 4
    rcases hmode with hnarrow | hwide
    · exact iff_of_true (hnarrow.trans (hfour.trans halign)) (.inl (Int.ofNat_le.2 (Nat.le_of_dvd (by decide) hnarrow)))
    · rw [hwide, DataType.eight_dvd_arrayHeader_iff (d.align_eq_pow hp.eq_pow) hfour]
      omega

theorem arrayModel_eq (sound : w.TypesSound) (hp : w.target.Regular p) {t : TypeId} (hd : w.program.types.Describes d t)
    (hright : Layout.RightIn w.program.types w.target w.layouts t) (hfour : 4 ∣ d.align p)
    (hsize : d.arrayHeader.size p < 2 ^ 63) {a : ArrayModel} (hrun : Finishes (arrayModel (some t)) w a w') :
    a = ⟨d.arrayHeader.size p, 4, d.size p⟩ := by
  rw [arrayModel, finishes_bind_iff] at hrun
  obtain ⟨_, _, htype, hrun⟩ := hrun
  obtain ⟨rfl, rfl⟩ := Action.finishes_newType_iff.1 htype
  obtain ⟨l, w2, hlayout, hrest⟩ := finishes_bind_iff.1 hrun
  obtain ⟨known, hknown, rfl⟩ := Action.finishes_layoutOf_iff.1 hlayout
  have hint := sound.shared .int32
  have hall : w.program.types.DescribesAll [d, .scalar .int32] [⟨baseMember, some t⟩, ⟨"length", some Mode.int32.typeId⟩] :=
    ⟨⟨t, rfl, hd⟩, ⟨_, rfl, hint⟩, trivial⟩
  have hparts : ∀ m ∈ [(⟨baseMember, some t⟩ : Member), ⟨"length", some Mode.int32.typeId⟩], ∀ t', m.type = some t' →
      Layout.RightIn w.program.types w.target w.layouts t' := by
    simp only [List.forall_mem_cons, List.not_mem_nil, false_implies, implies_true, and_true, Option.some.injEq, forall_eq']
    exact ⟨hright, sound.layouts.rightIn hint⟩
  obtain ⟨hheader, hright'⟩ := sound.describes_struct hall hparts rfl
  obtain ⟨known', hknown', -⟩ := Layout.finishes_layoutOf hheader hright'
  cases hknown.symm.trans hknown'
  have hexact : (DataType.struct [d, .scalar .int32]).layout w.target = d.arrayHeader.exact p := layout_eq_exact hp hsize
  have hplaces : d.arrayHeader.places p = some [⟨0, d.align p⟩, ⟨d.size p, 4⟩] := by
    rw [DataType.arrayHeader, DataType.places, DataType.offsets_arrayHeader hfour]
    rfl
  rw [hexact, DataType.exact, hplaces] at hrest
  exact (finishes_pure_iff.1 hrest).1.symm

theorem pointer_dvd_align (hp : target.Regular p) {r : Registry} {c : ClassId} (h : r.ObjectType c d) : p ∣ d.align p := by
  have hbytes : (DataType.scalar .pointer).align p = p := by rcases hp.width with rfl | rfl <;> rfl
  obtain ⟨n, hvptr⟩ := h.vptr (p := p)
  have hpart := (DataType.partAt?_aligned hp.eq_pow hvptr).2
  rwa [hbytes] at hpart

theorem keepsLayouts_of_start {registers : Bool} (hrun : Finishes (start registers) w () w') :
    w.KeepsLayouts w' ∧ Registry.AgreeUpTo Class.unlinked w.registry w'.registry := by
  obtain ⟨v, s, ⟨hpath, -⟩, rfl, -⟩ := makes_of_start hrun
  have hsession : v.KeepsLayouts { v with session := some s } := Workspace.keepsLayouts_of_eq rfl (fun _ _ h => h) rfl
  exact ⟨(Workspace.keepsLayouts_of_makings hpath).trans hsession, (Workspace.grown_of_makings hpath).registry⟩

/-- The header fits the layout of the objects of the root class, which a start leaves as it is. -/
theorem fits_of_start (hp : w.target.Regular p) (built : w.Built) (hobjects : w.HasObjects)
    (hsize : ∀ c d, w.registry.find? rootClass = some c → w.registry.ObjectType c d → d.arrayHeader.size p < 2 ^ 63)
    {registers : Bool} (hrun : Finishes (start registers) w () w') :
    ∃ s object l w'', w'.session = some s ∧ w'.registry.find? rootClass = some s.root ∧
      w'.registry.class? s.root = some object ∧ Finishes (Action.layoutOf object.instance) w' l w'' ∧ s.array.Fits w.target l := by
  obtain ⟨hkeeps, hsame⟩ := keepsLayouts_of_start hrun
  obtain ⟨root, object, types, w1, array, w2, _, _, _, _, w5, hroot, hobject, htypes, harray, -, -, -, hw'⟩ := exists_of_start hrun
  obtain ⟨d, t, hdata, hat⟩ := hobjects root object hobject
  have hdvd := pointer_dvd_align hp hdata
  have hlt := hsize root d hroot hdata
  have harray_eq : array = ⟨d.arrayHeader.size p, 4, d.size p⟩ := by
    rw [hat.instance_eq] at htypes harray
    have hpath := (recordShapes_of_recordTypes (O := fun _ => True) htypes).1
    have hkeeps1 := Workspace.keepsLayouts_of_makings hpath
    have hbuilt1 := built.makings hpath
    exact arrayModel_eq hbuilt1.typesSound (hkeeps1.target_eq ▸ hp) (hat.describes.extends hkeeps1.types)
      (hkeeps1.right d t hat.describes hat.right) (hp.four_dvd.trans hdvd) hlt harray
  have hfits : array.Fits w.target (d.exact p) := harray_eq ▸ fits_arrayHeader hp hdvd
  have hle : d.size p ≤ d.arrayHeader.size p := by
    rw [DataType.size_arrayHeader (hp.four_dvd.trans hdvd)]
    exact (Nat.le_add_right _ 4).trans (le_alignUp _ _)
  obtain ⟨known, hlayout, -⟩ := Layout.finishes_layoutOf (hat.describes.extends hkeeps.types)
    (hkeeps.right d t hat.describes hat.right)
  rw [layout_eq_exact (hkeeps.target_eq ▸ hp) (hle.trans_lt hlt)] at hlayout
  obtain ⟨object', hobject', heq⟩ := hsame.symm.exists_class hobject
  have hinstance : object'.instance = some t := (congrArg Class.instance heq).symm.trans hat.instance_eq
  refine ⟨_, object', d.exact p, { w' with layouts := known }, by rw [hw'], ?_, hobject', ?_, hfits⟩
  · rw [Registry.find?, hsame.byName_eq]
    exact hroot
  · rw [hinstance]
    exact Action.finishes_layoutOf_iff.2 ⟨known, hlayout, rfl⟩

/-- What precedes the start of a session leaves the objects of a class as they are declared. -/
theorem declared_of_layOutAll (built : w.Built) (hrun : Finishes Class.layOutAll w () w') :
    w'.target = w.target ∧ w'.registry.byName = w.registry.byName ∧
      ∀ c d, w'.registry.ObjectType c d → w.registry.ObjectType c d := by
  obtain ⟨before, hdone, -⟩ := objectsDone built hrun
  exact ⟨hdone.target_eq, hdone.same.byName_eq, fun c d h => h.congr Class.withoutLayout (fun _ => rfl) Class.fieldTypes_withoutLayout hdone.same⟩

theorem declared_of_members (built : w.Built) (hrun : Finishes (do Class.assignAllSlots; Class.createAllMembers) w () w')
    (h : w.HasObjects) :
    w'.Built ∧ w'.HasObjects ∧ w'.target = w.target ∧ w'.registry.byName = w.registry.byName ∧
      ∀ c d, w'.registry.ObjectType c d → w.registry.ObjectType c d := by
  obtain ⟨_, w1, hslots, hmembers⟩ := finishes_bind_iff.1 hrun
  have hassigned := slotsAssigned built.declared hslots
  have hpath := (Workspace.makes_of_createAllMembers hmembers).path
  have hgrown := Workspace.grown_of_makings hpath
  have hbuilt : w1.Built := by
    have hnext := built.assignAllSlots
    rwa [hslots] at hnext
  refine ⟨hbuilt.makings hpath, (h.slotsAssigned hassigned).makings hpath, ?_,
    hgrown.registry.byName_eq.trans hassigned.same.byName_eq, fun c d hd => ?_⟩
  · rw [hgrown.target_eq, hassigned.rest]
  · exact (hd.congr Class.unlinked (fun _ => rfl) Class.fieldTypes_unlinked hgrown.registry).congr Class.withoutSlots
      (fun _ => rfl) (fun _ => rfl) hassigned.same

/-- In a session that is started after the objects have been laid out, also with the slots and the members in between, the
length comes after the object and references and elements of up to four bytes are aligned. All elements are aligned if and
only if the root class has an alignment of eight bytes, or its size is four more than a multiple of eight. -/
theorem array_fits_of_start {triple : Text} (htarget : Target.ofTriple triple = .ok w.target) (built : w.Built)
    (hsize : ∀ c d, w.registry.find? rootClass = some c → w.registry.ObjectType c d →
      d.arrayHeader.size w.target.pointerSize.toNat < 2 ^ 63) {between : Action Unit}
    (hbetween : between ∈ [pure (), do Class.assignAllSlots; Class.createAllMembers]) {registers : Bool}
    (hrun : Finishes (do Class.layOutAll; between; start registers) w () w') :
    ∃ s object l w'', w'.session = some s ∧ w'.registry.find? rootClass = some s.root ∧
      w'.registry.class? s.root = some object ∧ Finishes (Action.layoutOf object.instance) w' l w'' ∧ s.array.Fits w.target l := by
  obtain ⟨p, hp⟩ := Target.regular_of_ofTriple htarget
  rw [hp.size_eq, Int.toNat_natCast] at hsize
  simp only [finishes_bind_iff] at hrun
  obtain ⟨_, w1, hlayout, _, w2, hbetween', hstart⟩ := hrun
  have hobjects := Workspace.hasObjects_of_layOutAll built hlayout
  have hbuilt : w1.Built := by
    have hnext := built.layOutAll
    rwa [hlayout] at hnext
  obtain ⟨htarget1, hnames1, htypes1⟩ := declared_of_layOutAll built hlayout
  obtain ⟨hbuilt2, hobjects2, htarget2, hnames2, htypes2⟩ : w2.Built ∧ w2.HasObjects ∧ w2.target = w1.target ∧
      w2.registry.byName = w1.registry.byName ∧ ∀ c d, w2.registry.ObjectType c d → w1.registry.ObjectType c d := by
    simp only [List.mem_cons, List.not_mem_nil, or_false] at hbetween
    rcases hbetween with rfl | rfl
    · obtain ⟨-, rfl⟩ := finishes_pure_iff.1 hbetween'
      exact ⟨hbuilt, hobjects, rfl, rfl, fun _ _ h => h⟩
    · exact declared_of_members hbuilt hbetween' hobjects
  have htarget0 := htarget2.trans htarget1
  rw [← htarget0]
  refine fits_of_start (htarget0 ▸ hp) hbuilt2 hobjects2 (fun c d hroot hd => ?_) hstart
  rw [Registry.find?, hnames2, hnames1] at hroot
  exact hsize c d hroot (htypes1 c d (htypes2 c d hd))

/-- The root class with a field, where references have four bytes. -/
def rootWithField : Workspace :=
  (Class.addField 0 "x" "I" ⟨0⟩ (Class.declare rootClass ⟨1⟩ false { target := .linux32 }).2).2

theorem built_rootWithField : rootWithField.Built := .addField 0 "x" "I" ⟨0⟩ (.declare rootClass ⟨1⟩ false (.start .linux32))

theorem target_rootWithField : Target.ofTriple "i686-linux-gnu" = .ok rootWithField.target := by cbv

theorem objectType_rootWithField {c : ClassId} (hroot : rootWithField.registry.find? rootClass = some c)
    (h : rootWithField.registry.ObjectType c d) : d = .struct [.scalar .pointer, .scalar .int32] := by
  have hzero : rootWithField.registry.find? rootClass = some 0 := by cbv
  have hdeclared : (rootWithField.registry.class? 0).map (fun cls => (cls.super, cls.fieldTypes)) =
      some (none, [.scalar .int32]) := by cbv
  cases hroot.symm.trans hzero
  cases h with
  | root hcls _ =>
    rw [hcls] at hdeclared
    rw [(Prod.mk.inj (Option.some.inj hdeclared)).2]
  | extend hcls hs _ =>
    rw [hcls] at hdeclared
    cases hs.symm.trans (Prod.mk.inj (Option.some.inj hdeclared)).1

theorem array_fits_of_start_field :
    Target.ofTriple "i686-linux-gnu" = .ok rootWithField.target ∧ rootWithField.Built ∧
      (∀ c d, rootWithField.registry.find? rootClass = some c → rootWithField.registry.ObjectType c d →
        d.arrayHeader.size rootWithField.target.pointerSize.toNat < 2 ^ 63) ∧
      ∃ w', Finishes (do Class.layOutAll; (do Class.assignAllSlots; Class.createAllMembers); start true) rootWithField () w' ∧
        ∃ s object l w'', w'.session = some s ∧ w'.registry.find? rootClass = some s.root ∧
          w'.registry.class? s.root = some object ∧ Finishes (Action.layoutOf object.instance) w' l w'' ∧
          s.array.Fits rootWithField.target l := by
  have hsize : ∀ c d, rootWithField.registry.find? rootClass = some c → rootWithField.registry.ObjectType c d →
      d.arrayHeader.size rootWithField.target.pointerSize.toNat < 2 ^ 63 := by
    intro c d hroot h
    rw [objectType_rootWithField hroot h]
    cbv
  have hrun : Finishes (do Class.layOutAll; (do Class.assignAllSlots; Class.createAllMembers); start true) rootWithField () _ :=
    finishes_of_isOk (by cbv)
  exact ⟨target_rootWithField, built_rootWithField, hsize, _, hrun,
    array_fits_of_start target_rootWithField built_rootWithField hsize (.tail _ (.head _)) hrun⟩

/-- With four bytes for the reference to the vtable, four for the field and four for the length, the elements begin at a place
where no `long` or `double` may be. -/
theorem long_elements_not_aligned : Target.ofTriple "i686-linux-gnu" = .ok rootWithField.target ∧ rootWithField.Built ∧
    ∃ w' s, Finishes (do Class.layOutAll; start false) rootWithField () w' ∧ w'.session = some s ∧ s.array = ⟨12, 4, 8⟩ ∧
      ¬(Layout.scalar w'.target .int64).align ∣ s.array.headerSize := by
  have harray : ((do Class.layOutAll; start false : Action Unit) rootWithField).2.session.map Session.array = some ⟨12, 4, 8⟩ := by
    cbv
  have halign : (Layout.scalar ((do Class.layOutAll; start false : Action Unit) rootWithField).2.target .int64).align = 8 := by cbv
  obtain ⟨s, hs, harray⟩ := Option.map_eq_some_iff.1 harray
  refine ⟨target_rootWithField, built_rootWithField, _, s, finishes_of_isOk (by cbv), hs, harray, ?_⟩
  rw [halign, harray]
  decide

end Abi

end ClassAbi
