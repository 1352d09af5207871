import ClassAbi.Abi.Dynamic
import ClassAbi.Proofs.Abi.Built
import ClassAbi.Proofs.Abi.Inventory
import ClassAbi.Proofs.Class.Instance

/-!
# The objects of a session

The types of objects get their layouts before a session is started. What is known of such a type stays right whatever is done
afterwards: types are only added, and computing a layout does not spoil others, even if it fails. So the reference to the
vtable is found at the beginning of all objects at any time, however large they are.
-/

namespace ClassAbi

variable {root c : ClassId} {n : Nat} {O : Class.Part → Prop} {registers : Bool}

/-- Whether the superclasses of a class end with another one, after `n` steps. -/
inductive Registry.EndsAt (r : Registry) (root : ClassId) : ClassId → Nat → Prop
  | root {cls : Class} (hcls : r.class? root = some cls) (hs : cls.super = none) : r.EndsAt root root 0
  | step {c s : ClassId} {cls : Class} {n : Nat} (hcls : r.class? c = some cls) (hs : cls.super = some s)
    (h : r.EndsAt root s n) : r.EndsAt root c (n + 1)

theorem Registry.EndsAt.root_super {r : Registry} (h : r.EndsAt root c n) :
    ∃ cls, r.class? root = some cls ∧ cls.super = none := by
  induction h with
  | root hcls hs => exact ⟨_, hcls, hs⟩
  | step _ _ _ ih => exact ih

theorem Class.fieldTypes_unlinked (cls : Class) : cls.unlinked.fieldTypes = cls.fieldTypes := by
  simp only [Class.fieldTypes, Class.instanceFields, Class.unlinked, Array.toList_map, List.filter_map, List.map_map]
  rfl

namespace Workspace

variable {w w' w'' : Workspace}

/-! ### What stays right -/

/-- Whether what is known of types that stand for data types is as right in `w'` as it is in `w`. -/
structure KeepsLayouts (w w' : Workspace) : Prop where
  target_eq : w'.target = w.target
  types : w.program.types.Extends w'.program.types
  right : ∀ d t, w.program.types.Describes d t → Layout.RightIn w.program.types w.target w.layouts t →
    Layout.RightIn w'.program.types w'.target w'.layouts t

theorem KeepsLayouts.trans (h : w.KeepsLayouts w') (h' : w'.KeepsLayouts w'') : w.KeepsLayouts w'' where
  target_eq := h'.target_eq.trans h.target_eq
  types t shape ht := h'.types t shape (h.types t shape ht)
  right d t hd hright := h'.right d t (hd.extends h.types) (h.right d t hd hright)

theorem keepsLayouts_of_eq (htarget : w'.target = w.target) (htypes : w.program.types.Extends w'.program.types)
    (hlayouts : w'.layouts = w.layouts) : w.KeepsLayouts w' := by
  refine ⟨htarget, htypes, fun d t hd hright => ?_⟩
  rw [htarget, hlayouts]
  exact hright.extends hd htypes

theorem keepsLayouts_layoutOf (w : Workspace) (t : TypeId) :
    w.KeepsLayouts { w with layouts := (Layout.layoutOf w.program.types w.target t w.layouts).2 } :=
  ⟨rfl, fun _ _ h => h, fun _ _ hd hright => Layout.keeps_rightIn_layoutOf hd t w.layouts hright⟩

theorem Making.keepsLayouts (h : Making O w w') : w.KeepsLayouts w' := by
  have hgrown := h.grown
  cases h with
  | layouts t => exact w.keepsLayouts_layoutOf t
  | type _ | runtime _ _ _ | part _ _ _ _ _ _ _ _ => exact keepsLayouts_of_eq hgrown.target_eq hgrown.types rfl

theorem keepsLayouts_of_makings (h : Relation.ReflTransGen (Making O) w w') : w.KeepsLayouts w' :=
  keep_along (P := fun v => w.KeepsLayouts v) (fun _ _ h hstep => h.trans hstep.keepsLayouts) h
    (keepsLayouts_of_eq rfl (fun _ _ h => h) rfl)

theorem keepsLayouts_of_change (h : Abi.Change w w') : w.KeepsLayouts w' := by
  have hfollows := h.follows
  have hsame : w'.layouts = w.layouts → w.KeepsLayouts w' := keepsLayouts_of_eq hfollows.target_eq hfollows.types
  cases h with
  | close => exact hsame rfl
  | progress h =>
    cases h with
    | graphs _ | body _ _ => exact hsame rfl
    | fill h =>
      cases h with
      | vtableType _ _ _ _ _ | vtable _ _ _ _ _ _ _ _ _ | descriptor _ _ _ _ _ _ => exact hsame rfl
      | add h =>
        cases h with
        | layouts t => exact w.keepsLayouts_layoutOf t
        | trace _ | type _ | name _ _ | constant _ _ _ _ _ | table _ _ _ _ | registration _ _ => exact hsame rfl

theorem keepsLayouts_operate (w : Workspace) (ops : List Abi.Operation) : w.KeepsLayouts (Abi.operate w ops) :=
  keep_along (P := fun v => w.KeepsLayouts v) (fun _ _ h hstep => h.trans (keepsLayouts_of_change hstep))
    (Abi.changes_of_operate w ops) (keepsLayouts_of_eq rfl (fun _ _ h => h) rfl)

/-! ### The types of objects -/

/-- Whether the objects of a class are of a type that stands for a data type, of which no wrong layout is known. -/
structure ObjectsAt (w : Workspace) (cls : Class) (d : DataType) (t : TypeId) : Prop where
  instance_eq : cls.instance = some t
  shape : ∃ m members, w.program.types.shape? t = some (.struct cls.name (m :: members)) ∧
    (cls.super = none → m.name = vptrMember)
  describes : w.program.types.Describes d t
  right : Layout.RightIn w.program.types w.target w.layouts t

def HasObjects (w : Workspace) : Prop :=
  ∀ c cls, w.registry.class? c = some cls → ∃ d t, w.registry.ObjectType c d ∧ w.ObjectsAt cls d t

theorem HasObjects.congr (forget : Class → Class) (hname : ∀ cls, (forget cls).name = cls.name)
    (hsuper : ∀ cls, (forget cls).super = cls.super) (hfields : ∀ cls, (forget cls).fieldTypes = cls.fieldTypes)
    (hinstance : ∀ cls, (forget cls).instance = cls.instance) (h : w.HasObjects) (hkeeps : w.KeepsLayouts w')
    (hsame : Registry.AgreeUpTo forget w.registry w'.registry) : w'.HasObjects := by
  intro c cls' hcls'
  obtain ⟨cls, hcls, heq⟩ := hsame.exists_class hcls'
  obtain ⟨d, t, hobject, hat⟩ := h c cls hcls
  obtain ⟨m, members, hshape, hvptr⟩ := hat.shape
  refine ⟨d, t, hobject.congr forget hsuper hfields hsame.symm, ?_, ⟨m, members, ?_, ?_⟩, hat.describes.extends hkeeps.types,
    hkeeps.right d t hat.describes hat.right⟩
  · rw [← hinstance, heq, hinstance, hat.instance_eq]
  · rw [← hname, heq, hname]
    exact hkeeps.types t _ hshape
  · rw [← hsuper, heq, hsuper]
    exact hvptr

theorem hasObjects_of_layOutAll (built : w.Built) (hrun : Finishes Class.layOutAll w () w') : w'.HasObjects := by
  obtain ⟨before, hdone, hmem⟩ := objectsDone built hrun
  intro c cls hcls
  obtain ⟨first, t, hobject, hlaid⟩ := hdone.laidOut c (hmem c cls hcls) cls hcls
  exact ⟨_, t, hobject.congr Class.withoutLayout (fun _ => rfl) Class.fieldTypes_withoutLayout hdone.same.symm, hlaid.instance_eq, hlaid.shape,
    hlaid.describes, hlaid.right⟩

theorem HasObjects.makings (h : w.HasObjects) (hpath : Relation.ReflTransGen (Making O) w w') : w'.HasObjects :=
  h.congr Class.unlinked (fun _ => rfl) (fun _ => rfl) Class.fieldTypes_unlinked (fun _ => rfl) (keepsLayouts_of_makings hpath)
    (grown_of_makings hpath).registry

theorem exists_of_prepare (built : w.Built) (hprepare : Finishes (Abi.prepare registers) w () w') :
    ∃ w1 w2 w3 v s, Finishes Class.layOutAll w () w1 ∧ SlotsAssigned w1 w2 ∧
      Relation.ReflTransGen (Making (·.IsMember)) w2 w3 ∧ Relation.ReflTransGen (Making (¬·.IsMember)) w3 v ∧
      w' = { v with session := some s } := by
  simp only [Abi.prepare, finishes_bind_iff] at hprepare
  obtain ⟨_, w1, hlayout, _, w2, hslots, _, w3, hmembers, hsession⟩ := hprepare
  have hbuilt1 : w1.Built := by
    have hnext := built.layOutAll
    rwa [hlayout] at hnext
  obtain ⟨v, s, ⟨hpath, -⟩, hw', -⟩ := Abi.makes_of_start hsession
  exact ⟨w1, w2, w3, v, s, hlayout, slotsAssigned hbuilt1.declared hslots, (makes_of_createAllMembers hmembers).path, hpath, hw'⟩

theorem target_eq_of_prepare (built : w.Built) (hprepare : Finishes (Abi.prepare registers) w () w') :
    w'.target = w.target := by
  obtain ⟨w1, w2, w3, v, s, hlayout, hassigned, hmembers, hsession, rfl⟩ := exists_of_prepare built hprepare
  obtain ⟨before, hdone, -⟩ := objectsDone built hlayout
  calc v.target
    _ = w2.target := ((grown_of_makings hmembers).trans (grown_of_makings hsession)).target_eq
    _ = w1.target := by rw [hassigned.rest]
    _ = w.target := hdone.target_eq

theorem HasObjects.slotsAssigned (h : w.HasObjects) (hassigned : SlotsAssigned w w') : w'.HasObjects := by
  refine h.congr Class.withoutSlots (fun _ => rfl) (fun _ => rfl) (fun _ => rfl) (fun _ => rfl) ?_ hassigned.same
  rw [hassigned.rest]
  exact keepsLayouts_of_eq rfl (fun _ _ h => h) rfl

theorem hasObjects_of_prepare (built : w.Built) (hprepare : Finishes (Abi.prepare registers) w () w') : w'.HasObjects := by
  obtain ⟨w1, w2, w3, v, s, hlayout, hassigned, hmembers, hsession, rfl⟩ := exists_of_prepare built hprepare
  have hobjects2 := (hasObjects_of_layOutAll built hlayout).slotsAssigned hassigned
  exact ((hobjects2.makings hmembers).makings hsession).congr id (fun _ => rfl) (fun _ => rfl) (fun _ => rfl) (fun _ => rfl)
    (keepsLayouts_of_eq rfl (fun _ _ h => h) rfl) (.refl _)

theorem HasObjects.operate (h : w.HasObjects) (ops : List Abi.Operation) : (Abi.operate w ops).HasObjects := by
  have hfollows : w.Follows (Abi.operate w ops) :=
    keep_along (P := fun v => w.Follows v) (fun _ _ h hstep => h.trans hstep.follows) (Abi.changes_of_operate w ops) (.refl w)
  refine h.congr id (fun _ => rfl) (fun _ => rfl) (fun _ => rfl) (fun _ => rfl) (w.keepsLayouts_operate ops) ?_
  rw [hfollows.registry_eq]
  exact .refl _

/-! ### The reference to the vtable -/

theorem ScalarAt.first {d : DataType} {ds : List DataType} {t : TypeId} {path : List Nat} {mode : Mode}
    (hd : w.program.types.Describes (.struct (d :: ds)) t) (hright : Layout.RightIn w.program.types w.target w.layouts t)
    (h : ∀ t', w.program.types.Describes d t' → Layout.RightIn w.program.types w.target w.layouts t' → w.ScalarAt t' path 0 mode) :
    w.ScalarAt t (0 :: path) 0 mode := by
  obtain ⟨known, hrun, -⟩ := Layout.finishes_layoutOf hd hright
  obtain ⟨name, members, hshape, hall⟩ := hd
  obtain ⟨m, t', hm, htype, hdesc⟩ := hall.getElem? (i := 0) rfl
  have hcontains : w.program.types.Contains t t' := .struct hshape (List.mem_of_getElem? hm) htype
  have hmember := ScalarAt.member hshape hm htype (Action.finishes_layoutOf_iff.2 ⟨known, hrun, rfl⟩)
    (h t' hdesc (hright.contained hcontains))
  rwa [Nat.cast_zero, offsetAt_first, Int.add_zero] at hmember

theorem scalarAt_vptr (hends : w.registry.EndsAt root c n) {d : DataType} {t : TypeId}
    (hobject : w.registry.ObjectType c d) (hd : w.program.types.Describes d t)
    (hright : Layout.RightIn w.program.types w.target w.layouts t) :
    w.ScalarAt t (List.replicate (n + 1) 0) 0 .pointer := by
  induction hends generalizing d t with
  | root hcls hs =>
    cases hobject with
    | root _ _ => exact .first hd hright fun t' hd' _ => .scalar hd'
    | extend hcls' hs' _ =>
      cases hcls.symm.trans hcls'
      cases hs.symm.trans hs'
  | step hcls hs _ ih =>
    cases hobject with
    | root hcls' hs' =>
      cases hcls.symm.trans hcls'
      cases hs.symm.trans hs'
    | extend hcls' hs' hsuper =>
      cases hcls.symm.trans hcls'
      cases hs.symm.trans hs'
      exact .first hd hright fun t' hd' hright' => ih hsuper hd' hright'

theorem HasObjects.vptr (h : w.HasObjects) (hends : w.registry.EndsAt root c n) {cls : Class}
    (hcls : w.registry.class? c = some cls) :
    ∃ t, cls.instance = some t ∧ w.ScalarAt t (List.replicate (n + 1) 0) 0 .pointer := by
  obtain ⟨d, t, hobject, hat⟩ := h c cls hcls
  exact ⟨t, hat.instance_eq, scalarAt_vptr hends hobject hat.describes hat.right⟩

theorem HasObjects.exists_vptrPlace (h : w.HasObjects) {s : Session} (hs : w.session = some s) {root : Class}
    (hroot : w.registry.class? s.root = some root) (hsuper : root.super = none) : ∃ w', Finishes Abi.vptrPlace w 0 w' := by
  obtain ⟨d, t, hobject, hat⟩ := h s.root root hroot
  obtain ⟨m, members, hshape, hname⟩ := hat.shape
  obtain ⟨known, hrun, -⟩ := Layout.finishes_layoutOf hat.describes hat.right
  have hoffset : (d.layout w.target).offsetAt 0 = 0 := by
    cases hobject <;> exact offsetAt_first _ _
  have hindex : (m :: members).findIdx? (fun x => x.name == vptrMember) = some 0 := by
    simp [List.findIdx?_cons, hname hsuper]
  refine ⟨{ w with layouts := known }, ?_⟩
  rw [Abi.vptrPlace]
  simp only [finishes_bind_iff, Action.finishes_class'_iff, finishes_get_iff, finishes_pure_iff, Action.finishes_need_iff]
  refine ⟨s, w, Abi.finishes_session hs, root, w, ⟨hroot, rfl⟩, w, w, ⟨rfl, rfl⟩, t, w, ⟨hat.instance_eq, rfl⟩, d.layout w.target,
    _, ?_, ?_, rfl⟩
  · rw [hat.instance_eq]
    exact Action.finishes_layoutOf_iff.2 ⟨known, hrun, rfl⟩
  · rw [hshape]
    dsimp only
    rw [hindex]
    exact hoffset

end Workspace

end ClassAbi
