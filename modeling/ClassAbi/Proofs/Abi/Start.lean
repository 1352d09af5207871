import ClassAbi.Abi.Start
import ClassAbi.Proofs.Class.Members

/-!
# Started sessions

A session that has been started knows the declarations of all helpers and primitive types, and every class has a descriptor,
and a vtable unless it is an interface. These are entities of their own, which have no content yet.
-/

open Relation

namespace ClassAbi

variable {e : EntityId} {t : TypeId} {ld : Text} {header : Option TypeId} {c : ClassId}
  {done : Set (ClassId × Class.Part)} {registers : Bool}

def Registry.parts (r : Registry) : Set (ClassId × Class.Part) := { h | ∃ cls, r.class? h.1 = some cls ∧ cls.Has h.2 }

theorem lookup_of_forall₂ {α β : Type} [BEq α] [LawfulBEq α] {Q : α → β → Prop} {as : List α} {bs : List (α × β)}
    (h : List.Forall₂ (fun a b => b.1 = a ∧ Q a b.2) as bs) {a : α} (ha : a ∈ as) : ∃ b, bs.lookup a = some b ∧ Q a b := by
  induction h with
  | nil => cases ha
  | @cons a' b as bs hfirst _ ih =>
    obtain ⟨key, value⟩ := b
    obtain ⟨rfl, hvalue⟩ := hfirst
    by_cases heq : a = key
    · subst heq
      exact ⟨value, by simp [List.lookup], hvalue⟩
    · obtain ⟨b, hb, hQ⟩ := ih ((List.mem_cons.1 ha).resolve_left heq)
      refine ⟨b, ?_, hQ⟩
      rw [List.lookup, beq_false_of_ne heq]
      exact hb

instance : LawfulBEq Helper where
  eq_of_beq {a b} := by cases a <;> cases b <;> decide
  rfl {a} := by cases a <;> rfl

instance : LawfulBEq Primitive where
  eq_of_beq {a b} := by cases a <;> cases b <;> decide
  rfl {a} := by cases a <;> rfl

theorem Helper.mem_all (h : Helper) : h ∈ Helper.all := by cases h <;> simp [Helper.all]

theorem Primitive.mem_all (p : Primitive) : p ∈ Primitive.all := by cases p <;> simp [Primitive.all]

namespace Workspace

variable {w w' : Workspace}

/-- Whether an entity of the runtime is declared under a name, with the type `t`. -/
def Declares (w : Workspace) (e : EntityId) (name : Text) (t : TypeId) : Prop :=
  ∃ ent, w.program.entity? e = some ent ∧ ent.ld = w.target.decorate name ∧ ent.type = t ∧ ent.visibility = .external

theorem Declares.grown {name : Text} (h : w.Declares e name t) (hgrown : w.Grown w') : w'.Declares e name t := by
  obtain ⟨ent, hent, hld, htype, hvisibility⟩ := h
  exact ⟨ent, hgrown.entities e ent hent, by rw [hgrown.target_eq, hld], htype, hvisibility⟩

end Workspace

namespace Abi

open Workspace

variable {w w' : Workspace} {O : Class.Part → Prop}

theorem finishes_declareExternal_iff :
    Finishes (declareExternal ld t) w e w' ↔
      w.program.Unused (w.target.decorate ld) ∧ w.program.entities.size = e ∧
        { w with program := w.program.push (externalEntity w.target ld t) } = w' := by
  rw [declareExternal]
  simp only [finishes_bind_iff, finishes_get_iff, Action.finishes_newEntity_iff, Action.finishes_modifyEntity_iff,
    finishes_pure_iff]
  constructor
  · rintro ⟨_, _, ⟨rfl, rfl⟩, _, _, ⟨hfree, rfl, rfl⟩, _, _, rfl, rfl, rfl⟩
    refine ⟨hfree, rfl, ?_⟩
    dsimp only
    rw [Program.modifyEntity_push _ _ rfl]
    rfl
  · rintro ⟨hfree, rfl, rfl⟩
    refine ⟨_, _, ⟨rfl, rfl⟩, _, _, ⟨hfree, rfl, rfl⟩, (), _, rfl, rfl, ?_⟩
    dsimp only
    rw [Program.modifyEntity_push _ _ rfl]
    rfl

theorem declares_of_declareExternal (hname : IsRuntimeName ld) (h : Finishes (declareExternal ld t) w e w') :
    ReflTransGen (Making O) w w' ∧ w'.Declares e ld t := by
  obtain ⟨hfree, rfl, rfl⟩ := finishes_declareExternal_iff.1 h
  exact ⟨.single (.runtime t hname hfree), _, w.program.entity?_push_new _, rfl, rfl, rfl⟩

theorem shape_of_newType {shape : Shape} (h : Finishes (Action.newType shape) w t w') :
    ReflTransGen (Making O) w w' ∧ w'.program.types.shape? t = some shape := by
  obtain ⟨rfl, rfl⟩ := Action.finishes_newType_iff.1 h
  exact ⟨.single (.type shape), w.program.types.shape?_push shape⟩

def DeclaresHelper (w : Workspace) (h : Helper) (d : DeclaredHelper) : Prop :=
  w.Declares d.entity h.ld d.type ∧ w.program.types.signature? d.type = some h.signature

theorem DeclaresHelper.grown {h : Helper} {d : DeclaredHelper} (hd : DeclaresHelper w h d) (hgrown : w.Grown w') :
    DeclaresHelper w' h d :=
  ⟨hd.1.grown hgrown, signature?_of_extends hgrown.types hd.2⟩

theorem declares_of_declareHelper {h : Helper} {d : Helper × DeclaredHelper} (hrun : Finishes (declareHelper h) w d w') :
    ReflTransGen (Making O) w w' ∧ d.1 = h ∧ DeclaresHelper w' h d.2 := by
  rw [declareHelper, finishes_bind_iff] at hrun
  obtain ⟨t, w1, htype, hrun⟩ := hrun
  obtain ⟨e, w2, hexternal, hpure⟩ := finishes_bind_iff.1 hrun
  obtain ⟨rfl, rfl⟩ := finishes_pure_iff.1 hpure
  obtain ⟨hpath1, hshape⟩ := shape_of_newType htype
  obtain ⟨hpath2, hdeclares⟩ := declares_of_declareExternal (O := O) (.inl ⟨h, rfl⟩) hexternal
  refine ⟨hpath1.trans hpath2, rfl, hdeclares, signature?_of_extends (grown_of_makings hpath2).types ?_⟩
  rw [TypeTable.signature?, hshape]

theorem declares_of_declarePrimitive {p : Primitive} {d : Primitive × EntityId}
    (hrun : Finishes (declarePrimitive p) w d w') :
    ReflTransGen (Making O) w w' ∧ d.1 = p ∧ w'.Declares d.2 (primitiveClass p) Mode.pointer.typeId := by
  rw [declarePrimitive, finishes_bind_iff] at hrun
  obtain ⟨e, w1, hexternal, hpure⟩ := hrun
  obtain ⟨rfl, rfl⟩ := finishes_pure_iff.1 hpure
  obtain ⟨hpath, hdeclares⟩ := declares_of_declareExternal (.inr ⟨p, rfl⟩) hexternal
  exact ⟨hpath, rfl, hdeclares⟩

/-! ### Types of records -/

/-- Whether types have the shapes of the runtime's records, where objects begin with the header of type `header`. -/
structure RecordShapes (types : TypeTable) (header : Option TypeId) (t : RecordTypes) : Prop where
  utf8 : ∃ data, types.shape? data = some (.array (some Mode.uint8.typeId) (-1)) ∧
    types.shape? t.utf8 = some (.struct "utf8_const"
      [⟨"hash", some Mode.uint16.typeId⟩, ⟨"len", some Mode.uint16.typeId⟩, ⟨"data", some data⟩])
  method : types.shape? t.method = some (.struct "method_desc"
    [⟨"name", some Mode.pointer.typeId⟩, ⟨"sig", some Mode.pointer.typeId⟩, ⟨"accflags", some Mode.uint16.typeId⟩,
      ⟨"index", some Mode.uint16.typeId⟩, ⟨"ncode", some Mode.pointer.typeId⟩, ⟨"throws", some Mode.pointer.typeId⟩])
  field : ∃ place, types.shape? place = some (.union "offset/address"
      [⟨"boffset", some Mode.int32.typeId⟩, ⟨"addr", some Mode.pointer.typeId⟩]) ∧
    types.shape? t.field = some (.struct "field_desc"
      [⟨"name", some Mode.pointer.typeId⟩, ⟨"type", some Mode.pointer.typeId⟩, ⟨"accflags", some Mode.uint16.typeId⟩,
        ⟨"bsize", some Mode.uint16.typeId⟩, ⟨"boffset/address", some place⟩])
  cls : types.shape? t.cls = some (.struct classClass (ClassMember.all.map fun m =>
    ⟨m.label, if m = .base then header else some m.mode.typeId⟩))

theorem RecordShapes.extends {types types' : TypeTable} {t : RecordTypes} (h : RecordShapes types header t)
    (hext : types.Extends types') : RecordShapes types' header t where
  utf8 := by
    obtain ⟨data, hdata, hutf8⟩ := h.utf8
    exact ⟨data, hext _ _ hdata, hext _ _ hutf8⟩
  method := hext _ _ h.method
  field := by
    obtain ⟨place, hplace, hfield⟩ := h.field
    exact ⟨place, hext _ _ hplace, hext _ _ hfield⟩
  cls := hext _ _ h.cls

theorem recordShapes_of_recordTypes {t : RecordTypes} (h : Finishes (recordTypes header) w t w') :
    ReflTransGen (Making O) w w' ∧ RecordShapes w'.program.types header t := by
  rw [recordTypes] at h
  simp only [finishes_bind_iff, finishes_pure_iff] at h
  obtain ⟨data, w1, hdata, utf8, w2, hutf8, method, w3, hmethod, place, w4, hplace, field, w5, hfield, cls, w6, hcls, rfl, rfl⟩ := h
  obtain ⟨hpath1, hdata⟩ := shape_of_newType (O := O) hdata
  obtain ⟨hpath2, hutf8⟩ := shape_of_newType (O := O) hutf8
  obtain ⟨hpath3, hmethod⟩ := shape_of_newType (O := O) hmethod
  obtain ⟨hpath4, hplace⟩ := shape_of_newType (O := O) hplace
  obtain ⟨hpath5, hfield⟩ := shape_of_newType (O := O) hfield
  obtain ⟨hpath6, hcls⟩ := shape_of_newType (O := O) hcls
  have hafter4 := hpath5.trans hpath6
  have hafter3 := hpath4.trans hafter4
  have hafter2 := hpath3.trans hafter3
  have hafter1 := hpath2.trans hafter2
  exact ⟨hpath1.trans hafter1,
    ⟨data, (grown_of_makings hafter1).types _ _ hdata, (grown_of_makings hafter2).types _ _ hutf8⟩,
    (grown_of_makings hafter3).types _ _ hmethod,
    ⟨place, (grown_of_makings hafter4).types _ _ hplace, (grown_of_makings hpath6).types _ _ hfield⟩, hcls⟩

theorem makings_of_arrayModel {a : ArrayModel} (hrun : Finishes (arrayModel header) w a w') :
    ReflTransGen (Making O) w w' := by
  rw [arrayModel, finishes_bind_iff] at hrun
  obtain ⟨t, w1, htype, hrun⟩ := hrun
  obtain ⟨l, w2, hlayout, hrest⟩ := finishes_bind_iff.1 hrun
  obtain ⟨known, hknown, rfl⟩ := Action.finishes_layoutOf_iff.1 hlayout
  obtain rfl : (Layout.layoutOf w1.program.types w1.target t w1.layouts).2 = known := congrArg Prod.snd hknown
  split at hrest
  · obtain ⟨-, rfl⟩ := finishes_pure_iff.1 hrest
    exact (shape_of_newType htype).1.tail (.layouts t)
  · exact absurd hrest (not_finishes_throw _)

/-! ### Classes -/

/-- The entity of a descriptor or a vtable before it has its content. -/
def bareEntity (cls : Class) (name ld : Text) : Entity :=
  { name, ld, type := unknownType, visibility := if cls.external then .external else .exported }

theorem finishes_declareClass_iff :
    Finishes (declareClass c) w () w' ↔
      ∃ cls ld, w.registry.class? c = some cls ∧ LinkerName.ofDescriptor cls.name = .ok ld ∧
        w.program.Unused (w.target.decorate ld) ∧
        ∃ w1, w.linkNew c .descriptor (bareEntity cls (cls.name ++ ".class$") (w.target.decorate ld)) = w1 ∧
          (cls.needsVtable = false ∧ w1 = w' ∨
            cls.needsVtable = true ∧ ∃ ld', LinkerName.ofVtable cls.name = .ok ld' ∧
              w1.program.Unused (w.target.decorate ld') ∧
              w1.linkNew c .vtable (bareEntity cls (cls.name ++ ".vtable") (w.target.decorate ld')) = w') := by
  simp only [declareClass, finishes_bind_iff, Action.finishes_class'_iff, and_assoc, exists_eq_left', exists_and_left]
  refine exists_congr fun cls => and_congr_right fun hcls => ?_
  cases hneeds : cls.needsVtable <;> simp [bareEntity, Program.modifyEntity_push] <;> rfl

theorem makes_bare {cls cls0 : Class} {part : Class.Part} (name : Text)
    (hcls : w.registry.class? c = some cls0) (hsame : cls0.unlinked = cls.unlinked)
    (hpart : part = .descriptor ∨ part = .vtable) (hhas : cls.Has part) (hld : cls.LinkerNameOf part ld)
    (hfree : w.program.Unused (w.target.decorate ld)) :
    Makes (¬·.IsMember) w {(c, part)} (w.linkNew c part (bareEntity cls name (w.target.decorate ld))) := by
  have hne : w.target.decorate ld ≠ [] := List.append_ne_nil_of_right_ne_nil _ hld.ne_nil
  have hown : ¬part.IsMember := by rcases hpart with rfl | rfl <;> exact id
  refine makes_part part hown hcls (hhas.congr hsame) hfree ?_ ⟨rfl, rfl, rfl⟩
  refine ⟨w.program.entity?_push_new _, w.program.lookup_push_new hne, ⟨ld, hld.congr hsame, rfl⟩, ?_, ?_, ?_, fun _ => ⟨rfl, rfl⟩⟩
  · rw [Class.isDeclared_congr hsame]
    rcases hpart with rfl | rfl <;> rfl
  · rintro i m rfl
    exact absurd trivial hown
  · rintro i f rfl
    exact absurd trivial hown

theorem makes_of_declareClass {cls : Class} (hcls : w.registry.class? c = some cls) (hrun : Finishes (declareClass c) w () w') :
    Makes (¬·.IsMember) w { h | h.1 = c ∧ cls.Has h.2 ∧ ¬h.2.IsMember } w' := by
  obtain ⟨cls', ld, hcls', hld, hfree, w1, rfl, hrest⟩ := finishes_declareClass_iff.1 hrun
  cases hcls.symm.trans hcls'
  have hdescriptor := makes_bare (cls.name ++ ".class$") hcls rfl (.inl rfl) trivial hld hfree
  rcases hrest with ⟨hneeds, rfl⟩ | ⟨hneeds, ld', hld', hfree', rfl⟩
  · refine hdescriptor.mono ?_
    rintro ⟨d, part⟩ ⟨rfl, hhas, hmember⟩
    cases part with
    | routine i | storage i => exact absurd trivial hmember
    | descriptor => rfl
    | vtable => exact absurd (hneeds.symm.trans hhas) (by simp)
  · obtain ⟨cls1, hcls1, hsame⟩ := (grown_of_makings hdescriptor.path).registry.symm.exists_class hcls
    refine (hdescriptor.trans (makes_bare (cls.name ++ ".vtable") hcls1 hsame.symm (.inr rfl) hneeds hld' hfree')).mono ?_
    rintro ⟨d, part⟩ ⟨rfl, hhas, hmember⟩
    cases part with
    | routine i | storage i => exact absurd trivial hmember
    | descriptor => exact .inl rfl
    | vtable => exact .inr rfl

/-! ### The whole start -/

/-- What a session that has just been started knows. -/
structure Begun (w : Workspace) (s : Session) : Prop where
  session : w.session = some s
  root : w.registry.find? rootClass = some s.root
  helper : ∀ h, ∃ d, s.helper? h = some d ∧ DeclaresHelper w h d
  primitive : ∀ p, ∃ e, s.primitives.lookup p = some e ∧ w.Declares e (primitiveClass p) Mode.pointer.typeId
  types : ∃ object, w.registry.class? s.root = some object ∧ RecordShapes w.program.types object.instance s.types
  opened : s.closed = false
  pool : s.pool = ∅
  constants : s.constants = #[]
  built : s.built = ∅
  vtables : s.vtables = ∅

/-- What holds of a workspace in which a session has just been started, if the members of classes had their entities. -/
structure Started (w : Workspace) (s : Session) : Prop extends Begun w s where
  linked : w.Linked w.registry.parts

/-- The parts of classes for which a start makes entities. -/
def ownParts (r : Registry) : Set (ClassId × Class.Part) := { h | ∃ cls, r.class? h.1 = some cls ∧ cls.Has h.2 ∧ ¬h.2.IsMember }

theorem exists_of_start (hrun : Finishes (start registers) w () w') :
    ∃ root object types w1 array w2 helpers w3 primitives w4 w5, w.registry.find? rootClass = some root ∧
      w.registry.class? root = some object ∧ Finishes (recordTypes object.instance) w types w1 ∧
      Finishes (arrayModel object.instance) w1 array w2 ∧ Finishes (Helper.all.mapM declareHelper) w2 helpers w3 ∧
      Finishes (Primitive.all.mapM declarePrimitive) w3 primitives w4 ∧
      Finishes ((List.range w4.registry.classes.size).forM declareClass) w4 () w5 ∧
      w' = { w5 with session := some { registers, root, types, array, helpers, primitives } } := by
  rw [start, finishes_bind_iff] at hrun
  obtain ⟨r, w0, hread, hrun⟩ := hrun
  obtain ⟨rfl, rfl⟩ := Action.finishes_registry_iff.1 hread
  split at hrun
  · exact absurd hrun (not_finishes_throw _)
  rename_i root hroot
  simp only [finishes_bind_iff, Action.finishes_class'_iff] at hrun
  obtain ⟨object, _, ⟨hobject, rfl⟩, hrun⟩ := hrun
  split_ifs at hrun with hfinal
  · simp only [finishes_bind_iff] at hrun
    obtain ⟨_, _, hthrow, -⟩ := hrun
    exact absurd hthrow (not_finishes_throw _)
  simp only [finishes_bind_iff, Action.finishes_within_iff, Action.finishes_registry_iff] at hrun
  obtain ⟨types, w1, htypes, array, w2, harray, helpers, w3, hhelpers, primitives, w4, hprimitives, _, _, ⟨rfl, rfl⟩, _, w5,
    hclasses, hsession⟩ := hrun
  exact ⟨root, object, types, w1, array, w2, helpers, w3, primitives, w4, w5, hroot, hobject, htypes, harray, hhelpers, hprimitives,
    hclasses, (finishes_modify_iff.1 hsession).symm⟩

/-- A start finishes where the layout of the root class is final, and where all that it declares can be declared. -/
theorem finishes_start {root : ClassId} {header : Option TypeId} {types : RecordTypes} {array : ArrayModel}
    {helpers : List (Helper × DeclaredHelper)} {primitives : List (Primitive × EntityId)} {w1 w2 : Workspace}
    (hroot : w.registry.find? rootClass = some root)
    (hobject : (w.registry.class? root).map (fun cls => (cls.layoutFinal, cls.instance)) = some (true, header))
    (hdeclared : Finishes (do
      let types ← recordTypes header
      let array ← Action.within .arrayHeader (arrayModel header)
      let helpers ← Helper.all.mapM declareHelper
      let primitives ← Primitive.all.mapM declarePrimitive
      return (types, array, helpers, primitives)) w (types, array, helpers, primitives) w1)
    (hclasses : Finishes ((List.range w1.registry.classes.size).forM declareClass) w1 () w2) :
    Finishes (start registers) w () { w2 with session := some { registers, root, types, array, helpers, primitives } } := by
  obtain ⟨object, hclass, hread⟩ := Option.map_eq_some_iff.1 hobject
  obtain ⟨hfinal, rfl⟩ := Prod.mk.inj hread
  simp only [finishes_bind_iff] at hdeclared
  obtain ⟨_, _, htypes, _, _, harray, _, _, hhelpers, _, _, hprimitives, hpure⟩ := hdeclared
  obtain ⟨h, rfl⟩ := finishes_pure_iff.1 hpure
  cases h
  rw [Finishes, start, bind_apply_of_finishes Action.finishes_registry, hroot]
  dsimp only
  rw [bind_apply_of_finishes (Action.finishes_class'_iff.2 ⟨hclass, rfl⟩), hfinal]
  simp only [Bool.not_true, Bool.false_eq_true, ↓reduceIte]
  rw [bind_apply_of_finishes htypes, bind_apply_of_finishes harray, bind_apply_of_finishes hhelpers,
    bind_apply_of_finishes hprimitives, bind_apply_of_finishes Action.finishes_registry, bind_apply_of_finishes hclasses]
  rfl

theorem makes_of_start (hrun : Finishes (start registers) w () w') :
    ∃ v s, Makes (¬·.IsMember) w (ownParts w'.registry) v ∧ w' = { v with session := some s } ∧ Begun w' s := by
  obtain ⟨root, object, types, w1, array, w2, helpers, w3, primitives, w4, w5, hroot, hobject, htypes, harray, hhelpers,
    hprimitives, hclasses, rfl⟩ := exists_of_start hrun
  obtain ⟨hpath1, hshapes⟩ := recordShapes_of_recordTypes (O := (¬·.IsMember)) htypes
  have hpath2 := makings_of_arrayModel (O := (¬·.IsMember)) harray
  obtain ⟨hpath3, hhelpers⟩ := forall₂_of_finishes_mapM (G := ReflTransGen (Making (¬·.IsMember)))
    (R := fun h (d : Helper × DeclaredHelper) w => d.1 = h ∧ DeclaresHelper w h d.2) (fun _ => .refl) ReflTransGen.trans
    (fun _ _ _ _ hR hG => ⟨hR.1, hR.2.grown (grown_of_makings hG)⟩) (fun _ _ _ _ _ => declares_of_declareHelper) hhelpers
  obtain ⟨hpath4, hprimitives⟩ := forall₂_of_finishes_mapM (G := ReflTransGen (Making (¬·.IsMember)))
    (R := fun p (d : Primitive × EntityId) w => d.1 = p ∧ w.Declares d.2 (primitiveClass p) Mode.pointer.typeId) (fun _ => .refl)
    ReflTransGen.trans (fun _ _ _ _ hR hG => ⟨hR.1, hR.2.grown (grown_of_makings hG)⟩)
    (fun _ _ _ _ _ => declares_of_declarePrimitive) hprimitives
  have hmakes := makes_forM_classes (P := (¬·.IsMember)) (fun _ _ _ _ hcls hstep => makes_of_declareClass hcls hstep) hclasses
  have hbefore := hpath1.trans (hpath2.trans (hpath3.trans hpath4))
  have hgrown := grown_of_makings (hbefore.trans hmakes.path)
  have hafter := grown_of_makings hmakes.path
  refine ⟨w5, _, ((makes_of_path hbefore).trans hmakes).mono Set.subset_union_right, rfl, rfl, ?_, fun h => ?_, fun p => ?_, ?_,
    rfl, rfl, rfl, rfl, rfl⟩
  · rw [Registry.find?, hgrown.registry.byName_eq]
    exact hroot
  · obtain ⟨d, hd, hdeclares⟩ := lookup_of_forall₂ hhelpers h.mem_all
    have hlast := (hdeclares.grown (grown_of_makings hpath4)).grown hafter
    exact ⟨d, hd, hlast⟩
  · obtain ⟨e, he, hdeclares⟩ := lookup_of_forall₂
      (Q := fun p e => w4.Declares e (primitiveClass p) Mode.pointer.typeId) hprimitives p.mem_all
    have hlast := hdeclares.grown hafter
    exact ⟨e, he, hlast⟩
  · obtain ⟨object', hobject', hsame⟩ := hgrown.registry.symm.exists_class hobject
    have hinstance : object.instance = object'.instance := by simpa [Class.unlinked] using congrArg Class.instance hsame
    refine ⟨object', hobject', ?_⟩
    rw [← hinstance]
    exact hshapes.extends (grown_of_makings ((hpath2.trans (hpath3.trans hpath4)).trans hmakes.path)).types

theorem begun_of_start (hlinked : w.Linked done) (hrun : Finishes (start registers) w () w') :
    w.Grown w' ∧ w'.Linked (ownParts w'.registry ∪ done) ∧ ∃ s, Begun w' s := by
  obtain ⟨v, s, hmakes, rfl, hbegun⟩ := makes_of_start hrun
  have hnone : v.Grown { v with session := some s } := ⟨rfl, fun _ _ h => h, fun _ _ h => h, fun _ _ h => h, .refl _⟩
  exact ⟨(grown_of_makings hmakes.path).trans hnone, (hmakes.linked hlinked).grown hnone rfl, s, hbegun⟩

theorem started_of_start (hlinked : w.Linked w.registry.members) (hrun : Finishes (start registers) w () w') :
    w.Grown w' ∧ ∃ s, Started w' s := by
  obtain ⟨hgrown, hown, s, hbegun⟩ := begun_of_start hlinked hrun
  refine ⟨hgrown, s, hbegun, hown.mono ?_⟩
  rintro ⟨c, part⟩ ⟨cls, hcls, hhas⟩
  by_cases hmember : part.IsMember
  · obtain ⟨cls0, hcls0, hsame⟩ := hgrown.registry.exists_class hcls
    exact .inr ⟨cls0, hcls0, hhas.congr hsame.symm, hmember⟩
  · exact .inl ⟨cls, hcls, hhas, hmember⟩

end Abi

end ClassAbi
