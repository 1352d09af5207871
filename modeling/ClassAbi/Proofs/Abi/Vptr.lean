import ClassAbi.Proofs.Abi.Objects
import ClassAbi.Proofs.Abi.Vtable
import ClassAbi.Proofs.Lowering.Operation

/-!
# From an object to its class

An object holds an address in the vtable of its class, and the slot at that address refers to the class descriptor. So two
loads lead from an object to the descriptor: the first one at the offset at which all objects have the reference to their
vtable, the second one at the address that is found there. The code of methods lies behind that address, in the order of
their slots. Addresses are computed from layouts: the elements of an array are a stride apart, which the layout of its
element type gives.
-/

namespace ClassAbi

variable {i : Nat} {m : Method}

/-- A place in memory: in an entity, or in the object that is looked at. -/
inductive Address where
  | entity (e : EntityId) (offset : Int)
  | object (offset : Int)
  deriving Repr, DecidableEq

def Address.shift : Address → Int → Address
  | entity e offset, n => entity e (offset + n)
  | object offset, n => object (offset + n)

def Code.address? : Code → Option Address
  | .address e => some (.entity e 0)
  | .add left (.const _ n) => left.address?.map (·.shift n)
  | _ => none

/-- How far the elements of an array are apart, by the layout of an element. -/
def TypeLayout.stride (elem : TypeLayout) : Int := Layout.roundUp elem.size (max elem.align 1)

namespace Workspace

/-- Whether an entity is an array whose content has a value at an offset. -/
inductive ElementAt (w : Workspace) (e : EntityId) (offset : Int) (v : Init) : Prop
  | intro {ent : Entity} {elem : TypeId} {length : Int} {l : TypeLayout} {w' : Workspace} {values : List Init} {i : Nat}
    (hent : w.program.entity? e = some ent) (hshape : w.program.types.shape? ent.type = some (.array (some elem) length))
    (hlayout : Finishes (Action.layoutOf elem) w l w') (hinit : ent.init = some (.compound values))
    (hvalue : values[i]? = some v) (hoffset : offset = l.stride * i)

/-- What a load of a reference gives, where the object that is looked at is of type `t` and holds `vptr` as the reference to
its vtable. -/
inductive Loads (w : Workspace) (t : TypeId) (vptr : Code) : Address → Address → Prop
  | vptr {n : Nat} {offset : Int} {a : Address} (hplace : w.ScalarAt t (List.replicate (n + 1) 0) offset .pointer)
    (ha : vptr.address? = some a) : w.Loads t vptr (.object offset) a
  | element {e : EntityId} {offset : Int} {code : Code} {a : Address} (h : w.ElementAt e offset (.code code))
    (ha : code.address? = some a) : w.Loads t vptr (.entity e offset) a

end Workspace

/-- The places to which the nodes of a graph lead from the node that stands for the object. -/
inductive Graph.Evaluates (g : Graph) (Loads : Address → Address → Prop) (object : NodeId) : NodeId → Address → Prop
  | object : g.Evaluates Loads object object (.object 0)
  | member {id arg : NodeId} {n : Node} {a : Address} (hn : g.node? id = some n) (hop : n.op = .member) (hargs : n.args = [arg])
    (h : g.Evaluates Loads object arg a) : g.Evaluates Loads object id (a.shift n.value)
  | load {id arg : NodeId} {n : Node} {a b : Address} (hn : g.node? id = some n) (hop : n.op = .load) (hmode : n.mode = .pointer)
    (hargs : n.args = [arg]) (h : g.Evaluates Loads object arg a) (hload : Loads a b) : g.Evaluates Loads object id b

namespace Abi

open Workspace

variable {w w' w0 w1 w2 : Workspace} {s0 : Session} {c : ClassId} {cls : Class} {p : Nat}

/-! ### The types of vtables -/

/-- Whether every vtable that has content is an array of references of the size that its class gives. -/
def VtablesTyped (w : Workspace) : Prop :=
  ∀ c cls vt ent, w.registry.class? c = some cls → cls.needsVtable = true → cls.vtableEntity = some vt →
    w.program.entity? vt = some ent → ent.init ≠ none →
    w.program.types.shape? ent.type = some (.array (some Mode.pointer.typeId) cls.vtableSize)

theorem vtablesTyped_of_started (hstart : Started w0 s0) : VtablesTyped w0 := by
  intro c cls vt ent hcls hneeds hvt hent hinit
  have hbare := (sound_of_started hstart).bare s0 c cls .vtable vt hstart.session hstart.opened hcls hneeds hvt (by simp [IsDue, hstart.vtables])
  rw [Program.content?, hent, Option.bind_some] at hbare
  exact absurd hbare hinit

/-- An entity that is changed in a way that leaves types and content alone, or that is no vtable. -/
theorem VtablesTyped.modify (hsound : Sound w0 w) (h : VtablesTyped w) (e : EntityId) {f : Entity → Entity}
    (he : ∀ c cls ent, w.registry.class? c = some cls → cls.needsVtable = true → cls.vtableEntity = some e →
      w.program.entity? e = some ent → (f ent).init ≠ none →
      w.program.types.shape? (f ent).type = some (.array (some Mode.pointer.typeId) cls.vtableSize)) {s : Option Session} :
    VtablesTyped { w with program := w.program.modifyEntity e f, session := s } := by
  intro c cls vt ent hcls hneeds hvt hent hinit
  obtain ⟨ent0, hent0⟩ := hsound.exists_entity .vtable hcls hneeds hvt
  rw [Program.entity?_modifyEntity, hent0] at hent
  split_ifs at hent with heq
  · subst heq
    cases hent
    exact he c cls ent0 hcls hneeds hvt hent0 hinit
  · cases hent
    exact h c cls vt _ hcls hneeds hvt hent0 hinit

theorem VtablesTyped.change (hsound : Sound w0 w) (h : VtablesTyped w) (hstep : Change w w') : VtablesTyped w' := by
  have hfollows := hstep.follows
  cases hstep with
  | close => exact h
  | progress hstep =>
    cases hstep with
    | graphs _ => exact h
    | body e g =>
      refine h.modify hsound e ?_
      exact fun c cls ent hcls hneeds hvt hent hinit => h c cls e ent hcls hneeds hvt hent hinit
    | fill hstep =>
      cases hstep with
      | add hadd =>
        intro c cls vt ent hcls hneeds hvt hent hinit
        rw [hfollows.registry_eq] at hcls
        obtain ⟨ent0, hent0⟩ := hsound.exists_entity .vtable hcls hneeds hvt
        obtain rfl := Option.some.inj ((hadd.entity?_eq hent0).symm.trans hent)
        exact hfollows.types _ _ (h c cls vt ent0 hcls hneeds hvt hent0 hinit)
      | @vtableType c1 cls1 vt t alignment hcls1 hneeds1 hvt1 ht =>
        refine h.modify hsound vt fun c cls ent hcls hneeds hvt hent hinit => ?_
        obtain ⟨rfl, -⟩ := Prod.mk.inj (hsound.part_unique .vtable .vtable hcls hcls1 hneeds hneeds1 hvt hvt1)
        cases hcls.symm.trans hcls1
        exact ht
      | @vtable s c1 cls1 vt slots hs hopen hcls1 hneeds1 hvt1 hexternal hnew htype hslots =>
        refine h.modify hsound vt fun c cls ent hcls hneeds hvt hent hinit => ?_
        obtain ⟨rfl, -⟩ := Prod.mk.inj (hsound.part_unique .vtable .vtable hcls hcls1 hneeds hneeds1 hvt hvt1)
        cases hcls.symm.trans hcls1
        exact htype ent hent
      | @descriptor s c1 cls1 b hs hopen hcls1 hexternal hnew hdescription =>
        refine h.modify hsound b.entity fun c cls ent hcls hneeds hvt hent hinit => ?_
        cases (Prod.mk.inj (hsound.part_unique .vtable .descriptor hcls hcls1 hneeds trivial hvt hdescription.entity)).2

theorem vtablesTyped_operate (hstart : Started w0 s0) (ops : List Operation) : VtablesTyped (operate w0 ops) := by
  have hboth : Sound w0 (operate w0 ops) ∧ VtablesTyped (operate w0 ops) :=
    keep_along (P := fun v => Sound w0 v ∧ VtablesTyped v)
      (fun _ _ h hstep => ⟨h.1.change hstep, h.2.change h.1 hstep⟩) (changes_of_operate w0 ops)
      ⟨sound_of_started hstart, vtablesTyped_of_started hstart⟩
  exact hboth.2

/-! ### Addresses in a vtable -/

theorem finishes_pointerSize (hp : w.target.Regular p) : Finishes pointerSize w p w := by
  refine finishes_bind_iff.2 ⟨w, w, finishes_get, finishes_pure_iff.2 ⟨?_, rfl⟩⟩
  rw [hp.size_eq, if_pos]
  rcases hp.width with rfl | rfl <;> decide

/-- The objects of a class hold the address of the third slot, which is computed in the width of addresses. -/
theorem exists_vptrValue (hp : w.target.Regular p) {vt : EntityId} (hvt : cls.vtableEntity = some vt) :
    ∃ mode, Finishes (vptrValue cls) w (some (.add (.address vt) (.const mode (vptrSlot * p)))) w ∧
      Layout.modeSize w.target mode = Layout.modeSize w.target .pointer := by
  have hmode : Finishes offsetMode w (if (p : Int) = 4 then .int32 else .int64) w :=
    finishes_bind_iff.2 ⟨_, w, finishes_pointerSize hp, finishes_pure⟩
  have hoffset : Finishes vptrOffset w (vptrSlot * p) w := by
    refine finishes_bind_iff.2 ⟨_, w, finishes_pointerSize hp, finishes_pure_iff.2 ⟨?_, rfl⟩⟩
    rcases hp.width with rfl | rfl <;> decide
  refine ⟨if (p : Int) = 4 then .int32 else .int64, ?_, ?_⟩
  · rw [vptrValue, hvt]
    exact finishes_bind_iff.2 ⟨_, w, hmode, finishes_bind_iff.2 ⟨_, w, hoffset, finishes_pure⟩⟩
  · rw [modeSize_eq hp, modeSize_eq hp]
    rcases hp.width with rfl | rfl <;> rfl

theorem stride_pointer (hp : w.target.Regular p) : (Layout.scalar w.target .pointer).stride = p := by
  rw [scalar_eq hp, TypeLayout.stride]
  rcases hp.width with rfl | rfl <;> rfl

theorem exists_layoutOf_pointer (h : w.TypesSound) :
    ∃ w', Finishes (Action.layoutOf (some Mode.pointer.typeId)) w (Layout.scalar w.target .pointer) w' := by
  have hdescribes : w.program.types.Describes (.scalar .pointer) Mode.pointer.typeId := h.shared .pointer
  obtain ⟨known, hrun, -⟩ := Layout.finishes_layoutOf hdescribes (h.layouts.rightIn (h.shared .pointer))
  exact ⟨_, Action.finishes_layoutOf_iff.2 ⟨known, hrun, rfl⟩⟩

theorem elementAt_iff (hp : w.target.Regular p) (h : w.TypesSound) {e : EntityId} {ent : Entity} {length : Int}
    {values : List Init} (hent : w.program.entity? e = some ent)
    (hshape : w.program.types.shape? ent.type = some (.array (some Mode.pointer.typeId) length))
    (hinit : ent.init = some (.compound values)) {offset : Int} {v : Init} :
    w.ElementAt e offset v ↔ ∃ i : Nat, values[i]? = some v ∧ offset = p * i := by
  obtain ⟨w', hlayout⟩ := exists_layoutOf_pointer h
  constructor
  · rintro ⟨hent', hshape', hlayout', hinit', hvalue, rfl⟩
    cases hent.symm.trans hent'
    cases hshape.symm.trans hshape'
    cases hinit.symm.trans hinit'
    rw [(hlayout'.unique hlayout).1, stride_pointer hp]
    exact ⟨_, hvalue, rfl⟩
  · rintro ⟨i, hvalue, rfl⟩
    exact .intro hent hshape hlayout hinit hvalue (by rw [stride_pointer hp])

/-! ### Slots of inherited methods -/

theorem slot_of_own {r : Registry} (h : SlotsOf r c cls) (hcls : r.class? c = some cls) {k : Nat}
    (href : cls.vtable[i]? = some ⟨c, k⟩) (hm : cls.methods.toList[k]? = some m) (hin : m.inVtable = true) :
    ∃ m, r.method? ⟨c, k⟩ = some m ∧ m.slot = headerSlots + i := by
  have hkey := key?_of_getElem? hcls hm
  rw [Array.getElem?_toList] at hm
  obtain ⟨j, ref, hslot, href', hkey', -⟩ := h.included k m hm hin
  obtain ⟨key, hkey1, hunique⟩ := h.distinct i _ href
  cases hkey.symm.trans hkey1
  rw [hunique j ref href' hkey'] at hslot
  exact ⟨m, method?_mk hcls hm, hslot⟩

theorem slot_of_entry {r : Registry} (hslots : ∀ c cls, r.class? c = some cls → cls.isInterface = false → SlotsOf r c cls)
    (hinterfaces : ∀ c cls, r.class? c = some cls → cls.isInterface = true → cls.vtable = #[]) {d : DataType}
    (hobject : r.ObjectType c d) (hcls : r.class? c = some cls) (hclass : cls.isInterface = false) {ref : MethodRef}
    (href : cls.vtable[i]? = some ref) : ∃ m, r.method? ref = some m ∧ m.slot = headerSlots + i := by
  -- The chain of superclasses ends, since the data type of the objects is finite.
  induction hobject generalizing cls with
  | root hcls' hs =>
    cases hcls.symm.trans hcls'
    obtain ⟨key, hkey, ⟨k, rfl, ⟨m, hm, hin, rfl⟩, -⟩ | ⟨s, super, hs', -⟩⟩ := (hslots _ _ hcls hclass).entry i ref href
    · exact slot_of_own (hslots _ _ hcls hclass) hcls href hm hin
    · cases hs.symm.trans hs'
  | extend hcls' hs _ ih =>
    cases hcls.symm.trans hcls'
    obtain ⟨key, hkey, ⟨k, rfl, ⟨m, hm, hin, rfl⟩, -⟩ | ⟨s, super, hs', hsuper, href', -⟩⟩ :=
      (hslots _ _ hcls hclass).entry i ref href
    · exact slot_of_own (hslots _ _ hcls hclass) hcls href hm hin
    · cases hs.symm.trans hs'
      cases hinterface : super.isInterface with
      | true => simp [hinterfaces _ super hsuper hinterface] at href'
      | false => exact ih hsuper hinterface href'

theorem slot_eq_of_prepare {registers : Bool} (built : w.Built) (hprepare : Finishes (prepare registers) w () w0)
    (hcls : w0.registry.class? c = some cls) (hclass : cls.isInterface = false) {ref : MethodRef}
    (href : cls.vtable[i]? = some ref) (hm : w0.registry.method? ref = some m) : m.slot = headerSlots + i := by
  obtain ⟨w1, w2, s0, -, hassigned, hgrown, -, -⟩ := started_of_prepare built hprepare
  have hdeclared := (built_of_prepare built hprepare).declared
  obtain ⟨cls2, hcls2, hsame⟩ := hgrown.registry.exists_class hcls
  obtain ⟨d, t, hobject, -⟩ := hasObjects_of_prepare built hprepare c cls hcls
  have hinterface_eq : ∀ {a b : Class}, a.unlinked = b.unlinked → a.isInterface = b.isInterface := by
    intro a b h
    rw [Class.isInterface, Class.isInterface, Class.access_eq_of_unlinked h]
  have hinterfaces : ∀ e ecls, w2.registry.class? e = some ecls → ecls.isInterface = true → ecls.vtable = #[] := by
    intro e ecls hecls hinterface
    obtain ⟨ecls0, hecls0, hesame⟩ := hgrown.registry.symm.exists_class hecls
    rw [(vtable_eq_of_unlinked hesame).1]
    exact (hdeclared e ecls0 hecls0).vtable_of_interface (hinterface_eq hesame ▸ hinterface)
  obtain ⟨m2, hm2, hslot⟩ := slot_of_entry hassigned.slots hinterfaces
    (hobject.congr Class.unlinked (fun _ => rfl) Class.fieldTypes_unlinked hgrown.registry) hcls2
    (hinterface_eq hsame ▸ hclass) ((vtable_eq_of_unlinked hsame).1 ▸ href)
  obtain ⟨owner, howner, hmethod⟩ := Option.bind_eq_some_iff.1 hm
  obtain ⟨owner2, howner2, hosame⟩ := hgrown.registry.exists_class howner
  obtain ⟨m', hm', heq⟩ := Class.exists_method_of_unlinked hosame hmethod
  cases hm2.symm.trans (method?_mk howner2 hm')
  have hslot_eq : m.slot = m2.slot := by simpa [Method.unlinked] using congrArg Method.slot heq
  exact hslot_eq.trans hslot

/-! ### Two loads -/

/-- Where the vtable of a class has the descriptor and the code of methods, from the address that its objects hold, which is
`offset` bytes behind its beginning. -/
structure VtableAround (w : Workspace) (c : ClassId) (cls : Class) (vt d : EntityId) (offset : Int) : Prop where
  descriptor : w.ElementAt vt offset (.ofEntity (some d))
  -- The methods that the class has or inherits, each with its own slot number.
  entry : ∀ (i : Nat) (ref : MethodRef) (m : Method), cls.vtable[i]? = some ref → w.registry.method? ref = some m →
    ∃ e, w.codeEntity m = some e ∧ w.ElementAt vt (offset + (m.slot - vptrSlot) * Layout.modeSize w.target .pointer)
      (.ofEntity (some e))
  own : ∀ (k : Nat) (m : Method), cls.methods[k]? = some m → m.inVtable = true →
    ∃ i : Nat, m.slot = headerSlots + i ∧ cls.vtable[i]? = some ⟨c, k⟩

theorem vtableAround_of_slots {registers : Bool} (hp : w0.target.Regular p) (built : w.Built)
    (hprepare : Finishes (prepare registers) w () w0) {ops : List Operation} (hcls : w0.registry.class? c = some cls)
    (hexternal : cls.external = false) (hname : cls.name.contains 0x24 = false)
    (hvtable : Answered w0 ops (.buildVtable c)) :
    ∃ vt d, cls.vtableEntity = some vt ∧ cls.descriptor = some d ∧
      VtableAround (operate w0 ops) c cls vt d (vptrSlot * p) ∧
      ∀ v, (operate w0 ops).ElementAt vt (vptrSlot * p) v → v = .ofEntity (some d) := by
  obtain ⟨w1, w2, s0, -, hassigned, hgrown, hstart, -⟩ := started_of_prepare built hprepare
  have hsound := sound_operate hstart ops
  have htyped := vtablesTyped_operate hstart ops
  have hsizes := (built_operate (built_of_prepare built hprepare) ops).typesSound
  have hp' : (operate w0 ops).target.Regular p := hsound.follows.target_eq ▸ hp
  have hregistry := hsound.follows.registry_eq
  generalize hW : operate w0 ops = W at *
  obtain ⟨cls', vt, hcls', hneeds, hvt, hfilled⟩ := vtable_of_answered hstart hvtable
  rw [hW] at hcls' hfilled
  rw [hregistry, hcls] at hcls'
  cases hcls'
  obtain ⟨slots, hcontent, hslots⟩ := hfilled hexternal
  obtain ⟨ent, hent, hinit⟩ := Option.bind_eq_some_iff.1 hcontent
  have hshape := htyped c cls vt ent (hregistry ▸ hcls) hneeds hvt hent (by rw [hinit]; simp)
  have hclass : cls.isInterface = false := by simpa [Class.needsVtable] using hneeds
  obtain ⟨cls2, hcls2, hsame, hof⟩ := slotsOf_of_grown hassigned hgrown hcls hclass
  obtain ⟨hvtable_eq, hsize_eq⟩ := vtable_eq_of_unlinked hsame
  obtain ⟨codes, hcodes, rfl⟩ := hslots.eq_codes (by rw [hsize_eq, hvtable_eq, hof.size_eq])
  obtain ⟨cls', d, -, hcls', hd, -⟩ := hstart.linked.made c .descriptor ⟨cls, hcls, trivial⟩
  cases hcls.symm.trans hcls'
  have helement := @elementAt_iff W p hp' hsizes vt ent cls.vtableSize _ hent hshape hinit
  have hsecond : ([.null, .null, descriptorSlot cls, .null] ++ codes)[vptrSlot]? = some (.ofEntity (some d)) := by
    have hslot : descriptorSlot cls = .ofEntity (some d) := by
      rw [descriptorSlot, hname]
      exact congrArg Init.ofEntity hd
    rw [hslot]
    rfl
  refine ⟨vt, d, hvt, hd, ⟨helement.2 ⟨vptrSlot, hsecond, by ring⟩, ?_, ?_⟩, ?_⟩
  · intro i ref m href hm
    obtain ⟨v, hv, m', hm', rfl⟩ := exists_getElem?_of_forall₂ hcodes (Array.getElem?_toList.trans href)
    cases hm.symm.trans hm'
    obtain ⟨e, he, -⟩ := exists_codeEntity hstart hsound hm
    rw [he] at hv
    refine ⟨e, he, helement.2 ⟨headerSlots + i, ?_, ?_⟩⟩
    · rw [List.getElem?_append_right (by simp [headerSlots])]
      simpa [headerSlots] using hv
    · have hslot := slot_eq_of_prepare built hprepare hcls hclass href (hregistry ▸ hm)
      rw [hslot, modeSize_eq hp']
      show (vptrSlot * p + (headerSlots + i - vptrSlot) * p : Int) = _
      push_cast
      ring
  · exact fun k m hm hin => exists_slot hassigned hgrown hstart hcls hclass hm hin
  · intro v hv
    obtain ⟨i, hi, heq⟩ := helement.1 hv
    have hpos : (0 : Int) < p := by rcases hp.width with rfl | rfl <;> decide
    have hindex : vptrSlot = i := by
      have hmul : (p : Int) * vptrSlot = p * i := by rw [← heq]; ring
      exact_mod_cast mul_left_cancel₀ hpos.ne' hmul
    subst hindex
    exact Option.some.inj (hi.symm.trans hsecond)

/-- The helper that looks up a method of an interface is given what two loads from the object lead to. -/
theorem evaluates_of_lookupInterface (hsound : Sound w0 w) {g : GraphId} {graph : Graph}
    {object call : Node} {iface : Class} (hgraph : w.program.graphs[g]? = some graph)
    (hdrawn : Graph.Drawn w.program graph) (hobject : graph.Offers object)
    (hrun : Finishes (lookupInterface g object iface m) w call w') {place : Int} (hplace : Finishes vptrPlace w place w1)
    {Loads : Address → Address → Prop} {a b : Address} (hfirst : Loads (.object place) a) (hsecond : Loads a b) :
    ∃ graph' descriptor, w'.program.graphs[g]? = some graph' ∧ (Graph.callArgs call).head? = some descriptor ∧
      graph'.Evaluates Loads object.id descriptor b := by
  have hready : Lowering.Ready w0 g w := ⟨hsound, graph, hgraph, hdrawn⟩
  have hlowers : Lowering.Lowers w0 ⟨fun _ _ _ => True, fun _ => True⟩ g (lookupInterface g object iface m) w _ :=
    Lowering.lowers_lookupInterface (by exact fun _ _ _ _ _ _ => trivial) ⟨graph, hgraph, hobject⟩ iface m
  replace hlowers := hlowers hready
  obtain ⟨-, hop, offset, w2, descriptor, callee, rest, hoffset, hfollows, hargs⟩ := hlowers.2 call w' hrun
  have hpath := hlowers.1
  rw [hrun] at hpath
  obtain ⟨graph', hgraph', hdrawn'⟩ := (hready.path hpath).graph
  obtain rfl := (hoffset.unique hplace).1
  obtain ⟨member, vptr, ⟨hmember, hop1, hargs1, rfl⟩, ⟨hvptr, hmode2, hop2, hargs2⟩, hlast, hmode3, hop3, hargs3⟩ := hfollows
  have hnode : ∀ {n}, Lowering.Offered g w' n → graph'.node? n.id = some n := fun hn =>
    hdrawn'.node?_eq (Lowering.offers_of_offered hn hgraph').1
  refine ⟨graph', descriptor.id, hgraph', by rw [Graph.callArgs, if_pos hop, hargs]; rfl, ?_⟩
  refine .load (hnode hlast) hop3 hmode3 hargs3 (.load (hnode hvptr) hop2 hmode2 hargs2 ?_ hfirst) hsecond
  have hevaluates : graph'.Evaluates Loads object.id member.id (.object (0 + member.value)) :=
    .member (hnode hmember) hop1 hargs1 .object
  rwa [Int.zero_add] at hevaluates

/-- Whether two loads lead from the objects of a type, `n` levels below the root class, to a class descriptor, if they hold
`vptr`, the address `offset` bytes behind the beginning of a vtable. -/
structure LeadsToClass (w : Workspace) (t : TypeId) (n : Nat) (vptr : Code) (vt : EntityId) (offset : Int) (d : EntityId) :
    Prop where
  -- The first load is from the place that the layout of the objects gives.
  vtable : ∃ place w', w.ScalarAt t (List.replicate (n + 1) 0) place .pointer ∧ Finishes vptrPlace w place w' ∧
    ∀ a, w.Loads t vptr (.object place) a ↔ a = .entity vt offset
  descriptor : ∀ a, w.Loads t vptr (.entity vt offset) a ↔ a = .entity d 0
  -- In a body, this is the first argument of the helper that looks up a method of an interface.
  lookup : ∀ g graph object iface m call w', w.program.graphs[g]? = some graph → Graph.Drawn w.program graph →
    graph.Offers object → Finishes (lookupInterface g object iface m) w call w' →
    ∃ graph' arg, w'.program.graphs[g]? = some graph' ∧ (Graph.callArgs call).head? = some arg ∧
      graph'.Evaluates (w.Loads t vptr) object.id arg (.entity d 0)

/-- Two loads lead from an object that refers to the vtable of a class to the descriptor of the class, and the code of methods
lies at their slots behind the address that is loaded first. -/
theorem vptr_leads_to_class {registers : Bool} {triple : Text} (htarget : Target.ofTriple triple = .ok w.target)
    (built : w.Built) (hprepare : Finishes (prepare registers) w () w0) {ops : List Operation}
    (hcls : w0.registry.class? c = some cls) (hexternal : cls.external = false) (hname : cls.name.contains 0x24 = false)
    (hvtable : Answered w0 ops (.buildVtable c)) :
    ∃ vt d mode offset, cls.vtableEntity = some vt ∧ cls.descriptor = some d ∧
      Finishes (vptrValue cls) (operate w0 ops) (some (.add (.address vt) (.const mode offset))) (operate w0 ops) ∧
      Layout.modeSize w0.target mode = Layout.modeSize w0.target .pointer ∧
      VtableAround (operate w0 ops) c cls vt d offset ∧
      ∀ root o ocls n, w0.registry.find? rootClass = some root → w0.registry.EndsAt root o n →
        w0.registry.class? o = some ocls → ∃ t, ocls.instance = some t ∧
          LeadsToClass (operate w0 ops) t n (.add (.address vt) (.const mode offset)) vt offset d := by
  obtain ⟨p, hp⟩ := Target.regular_of_ofTriple htarget
  obtain ⟨w1, w2, s0, -, -, -, hstart, -⟩ := started_of_prepare built hprepare
  have hp0 : w0.target.Regular p := target_eq_of_prepare built hprepare ▸ hp
  have hsound := sound_operate hstart ops
  have hfollows := hsound.follows
  obtain ⟨vt, d, hvt, hd, haround, hunique⟩ := vtableAround_of_slots hp0 built hprepare hcls hexternal hname hvtable
  have hobjects := (hasObjects_of_prepare built hprepare).operate ops
  generalize operate w0 ops = W at *
  obtain ⟨mode, hvalue, hmode⟩ := exists_vptrValue (hfollows.target_eq ▸ hp0 : W.target.Regular p) hvt
  refine ⟨vt, d, mode, vptrSlot * p, hvt, hd, hvalue, hfollows.target_eq ▸ hmode, haround, ?_⟩
  intro root o ocls n hroot hends hocls
  rw [← hfollows.registry_eq] at hends hocls
  obtain ⟨t, ht, hplace⟩ := hobjects.vptr hends hocls
  obtain ⟨rcls, hrcls, hsuper⟩ := hends.root_super
  obtain ⟨s, hs, hclose⟩ := hfollows.session hstart.session
  have hroot_eq : s.root = root := by
    have hsame : s.close.root = s0.close.root := congrArg Session.root hclose
    exact hsame.trans (Option.some.inj (hstart.root.symm.trans hroot))
  obtain ⟨w', hrun⟩ := hobjects.exists_vptrPlace hs (hroot_eq ▸ hrcls) hsuper
  have hfirst : ∀ a, W.Loads t (.add (.address vt) (.const mode (vptrSlot * p))) (.object 0) a ↔ a = .entity vt (vptrSlot * p) := by
    have haddress : (Code.add (.address vt) (.const mode (vptrSlot * p))).address? = some (.entity vt (vptrSlot * p)) := by
      simp [Code.address?, Address.shift]
    intro a
    constructor
    · rintro ⟨-, ha⟩
      exact Option.some.inj (ha.symm.trans haddress)
    · rintro rfl
      exact .vptr hplace haddress
  have hsecond : ∀ a, W.Loads t (.add (.address vt) (.const mode (vptrSlot * p))) (.entity vt (vptrSlot * p)) a ↔
      a = .entity d 0 := by
    intro a
    constructor
    · rintro (_ | ⟨helement, ha⟩)
      cases hunique _ helement
      exact (Option.some.inj ha).symm
    · rintro rfl
      exact .element haround.descriptor rfl
  refine ⟨t, ht, ⟨0, w', hplace, hrun, hfirst⟩, hsecond, ?_⟩
  intro g graph object iface m call w'' hgraph hdrawn hobject hcall
  exact evaluates_of_lookupInterface hsound hgraph hdrawn hobject hcall hrun ((hfirst _).2 rfl) ((hsecond _).2 rfl)

theorem vptr_leads_to_class_members :
    Target.ofTriple "x86_64-linux-gnu" = .ok classesWithMembers.target ∧ classesWithMembers.Built ∧
      ∃ w0 cls, Finishes (prepare false) classesWithMembers () w0 ∧ w0.registry.class? 1 = some cls ∧ cls.external = false ∧
        cls.name.contains 0x24 = false ∧ Answered w0 [.buildVtable 1, .buildDescriptor 1] (.buildVtable 1) ∧
        w0.registry.find? rootClass = some 0 ∧ w0.registry.EndsAt 0 1 1 ∧
        ∃ vt d t vptr offset, cls.vtableEntity = some vt ∧ cls.descriptor = some d ∧ cls.instance = some t ∧
          LeadsToClass (operate w0 [.buildVtable 1, .buildDescriptor 1]) t 1 vptr vt offset d := by
  have htarget : Target.ofTriple "x86_64-linux-gnu" = .ok classesWithMembers.target := by
    rw [show classesWithMembers.target = .linux64 from by cbv]
    cbv
  obtain ⟨w0, hprepare, hmap, hvtable, -, hroot, hclasses⟩ := exists_classesWithMembers
  have hclass : ∀ c entry, [(rootClass, none), (classClass, some 0)][c]? = some entry →
      ∃ cls, w0.registry.class? c = some cls ∧ cls.name = entry.1 ∧ cls.super = entry.2 := by
    intro c entry hentry
    rw [← hclasses, List.getElem?_map, Array.getElem?_toList] at hentry
    obtain ⟨cls, hcls, rfl⟩ := Option.map_eq_some_iff.1 hentry
    exact ⟨cls, hcls, rfl, rfl⟩
  obtain ⟨object, hobject, -, hobject_super⟩ := hclass 0 _ rfl
  obtain ⟨cls, hcls, hname, hsuper⟩ := hclass 1 _ rfl
  have hexternal : cls.external = false := by simpa [hcls] using hmap
  have hdollar : cls.name.contains 0x24 = false := by
    rw [hname]
    decide
  have hends : w0.registry.EndsAt 0 1 1 := .step hcls hsuper (.root hobject hobject_super)
  obtain ⟨vt, d, mode, offset, hvt, hd, -, -, -, hobjects⟩ :=
    vptr_leads_to_class htarget built_classesWithMembers hprepare hcls hexternal hdollar hvtable
  obtain ⟨t, ht, hleads⟩ := hobjects 0 1 cls 1 hroot hends hcls
  exact ⟨htarget, built_classesWithMembers, w0, cls, hprepare, hcls, hexternal, hdollar, hvtable, hroot, hends, vt, d, t, _,
    offset, hvt, hd, ht, hleads⟩

end Abi

end ClassAbi
