import ClassAbi.Proofs.Abi.Session
import ClassAbi.Proofs.Class.Known
import ClassAbi.Proofs.Lowering.Graph

/-!
# Operations in a body

Building a body adds to the workspace and draws its graph. `Lowers` is about steps that do nothing else, from a workspace of
a session in which the graph is well formed, and whose calls keep to a rule. `Calls` says what is called and with arguments of
which modes: an operation calls helpers, and at most one method of an interface. Only the operation that runs an initializer
calls the init-class helper.
-/

open Relation

namespace ClassAbi

variable {types : TypeTable} {n object : Node} {graph : Graph} {e : EntityId}

theorem JavaType.mode_eq_void_iff {t : JavaType} : t.mode = .void ↔ t = .void := by
  cases t with
  | primitive p => cases p <;> simp [mode, Primitive.mode]
  | _ => simp [mode]

theorem Method.gives_signature (m : Method) : m.signature.Gives m.result.mode := by
  simp [Signature.Gives, signature, JavaType.mode_eq_void_iff]

theorem Method.exists_mode {m : Method} {k : Nat} {t : Option TypeId} (h : m.signature.params[k]? = some t) :
    ∃ mode : Mode, t = some mode.typeId := by
  have hmem := List.mem_of_getElem? h
  rw [signature] at hmem
  rcases List.mem_append.1 hmem with hmem | hmem
  · split_ifs at hmem
    · simp at hmem
    · exact ⟨.pointer, List.mem_singleton.1 hmem⟩
  · obtain ⟨p, -, rfl⟩ := List.mem_map.1 hmem
    exact ⟨p.mode, rfl⟩

/-- Whether a number is that of a parameter of the routine of a method that is a reference. -/
def Method.IsReference (m : Method) (i : Int) : Prop :=
  ∃ k : Nat, i = k ∧ m.signature.params[k]? = some (some Mode.pointer.typeId)

namespace Lowering

open ClassAbi.Action Workspace Abi

/-- What a body calls: a helper, or the code that is looked up for a method of an interface. -/
inductive Callee where
  | helper (x : Helper)
  | method (m : Method)

/-- Whether a node calls something in the session that was started in `w0`. A method is always given an object first. -/
def Calls (w0 : Workspace) : Callee → Graph.CallRule
  | .helper x, types, before, n => ∃ d callee, w0.helper? x = some d ∧ types.signature? d.type = some x.signature ∧
      n.type = some d.type ∧ callee.op = .address ∧ callee.entity = some d.entity ∧ Graph.Passes before callee x.params n
  | .method m, types, before, n => ∃ t callee, types.signature? t = some m.signature ∧ n.type = some t ∧ callee.op = .call ∧
      Graph.Passes before callee (.pointer :: m.params.map JavaType.mode) n

theorem Calls.mono {w0 : Workspace} {k : Callee} {types' : TypeTable} {before after : List Node}
    (h : Calls w0 k types before n) (htypes : types.Extends types') (hnodes : ∀ a ∈ before, a ∈ after) :
    Calls w0 k types' after n := by
  cases k with
  | helper x =>
    obtain ⟨d, callee, hd, hsig, htype, hop, hentity, hpasses⟩ := h
    exact ⟨d, callee, hd, signature?_of_extends htypes hsig, htype, hop, hentity, hpasses.mono hnodes⟩
  | method m =>
    obtain ⟨t, callee, hsig, htype, hop, hpasses⟩ := h
    exact ⟨t, callee, signature?_of_extends htypes hsig, htype, hop, hpasses.mono hnodes⟩

/-- A change in building the body `g`: the workspace is added to, or the graph grows. -/
inductive Draw (rule : Graph.Rule) (g : GraphId) (w : Workspace) : Workspace → Prop
  | add {w' : Workspace} (h : Addition w w') : Draw rule g w w'
  | grow {graph graph' : Graph} (hgraph : w.program.graphs[g]? = some graph) (h : graph.Grows w.program rule graph') :
    Draw rule g w { w with program := { w.program with graphs := w.program.graphs.setIfInBounds g graph' } }

/-- Whether `w` is a workspace of the session that was started in `w0`, and the body `g` is well formed. -/
structure Ready (w0 : Workspace) (g : GraphId) (w : Workspace) : Prop where
  sound : Sound w0 w
  graph : ∃ graph, w.program.graphs[g]? = some graph ∧ Graph.Drawn w.program graph

def Offered (g : GraphId) (w : Workspace) (n : Node) : Prop := ∃ graph, w.program.graphs[g]? = some graph ∧ graph.Offers n

variable {w0 w w' : Workspace} {rule rule' : Graph.Rule} {g : GraphId} {α β : Type}

/-! ### Changes -/

theorem Draw.change (h : Draw rule g w w') : Change w w' := by
  cases h with
  | add h => exact .progress (.fill (.add h))
  | grow _ _ => exact .progress (.graphs _)

theorem Draw.lift (h : Draw rule g w w') (hrule : rule.Within rule') : Draw rule' g w w' := by
  cases h with
  | add h => exact .add h
  | grow hgraph h => exact .grow hgraph (h.mono (w.program.within_graphs _) rfl hrule)

theorem within_of_follows (h : w.Follows w') : w.program.Within w'.program where
  entities e ent he := by
    obtain ⟨ent', he', -⟩ := h.entities e ent he
    exact ⟨ent', he'⟩
  types := h.types

theorem getElem?_setIfInBounds_of_some {graph' : Graph} (h : w.program.graphs[g]? = some graph) :
    (w.program.graphs.setIfInBounds g graph')[g]? = some graph' :=
  Array.getElem?_setIfInBounds_self_of_lt (Array.getElem?_eq_some_iff.1 h).1

theorem Ready.draw (h : Ready w0 g w) (hstep : Draw rule g w w') :
    Ready w0 g w' := by
  refine ⟨h.sound.change hstep.change, ?_⟩
  obtain ⟨graph, hgraph, hdrawn⟩ := h.graph
  cases hstep with
  | add hadd =>
    exact ⟨graph, by rw [hadd.graphs_eq, hgraph], hdrawn.mono (within_of_follows hadd.follows)⟩
  | @grow graph1 graph2 hgraph1 hgrows =>
    cases hgraph.symm.trans hgraph1
    refine ⟨graph2, getElem?_setIfInBounds_of_some hgraph, ?_⟩
    exact (hdrawn.grows hgrows).mono (w.program.within_graphs _)

theorem Ready.path (h : Ready w0 g w) (hpath : ReflTransGen (Draw rule g) w w') :
    Ready w0 g w' :=
  keep_along (fun _ _ h hstep => h.draw hstep) hpath h

theorem follows_of_draws (hpath : ReflTransGen (Draw rule g) w w') : w.Follows w' :=
  keep_along (P := fun v => w.Follows v) (fun _ _ h hstep => h.trans hstep.change.follows) hpath (.refl w)

theorem Offered.path (h : Offered g w n) (hpath : ReflTransGen (Draw rule g) w w') : Offered g w' n := by
  refine keep_along (P := fun v => Offered g v n) (fun u v hu hstep => ?_) hpath h
  obtain ⟨graph, hgraph, hn⟩ := hu
  cases hstep with
  | add hadd => exact ⟨graph, by rw [hadd.graphs_eq, hgraph], hn⟩
  | @grow graph1 graph2 hgraph1 hgrows =>
    cases hgraph.symm.trans hgraph1
    exact ⟨graph2, getElem?_setIfInBounds_of_some hgraph, hn.path (.single hgrows)⟩

theorem pooled_of_draws (hpath : ReflTransGen (Draw rule g) w w') {text : Text} (h : w.Pooled text e) :
    w'.Pooled text e := by
  refine keep_along (P := fun v => v.Pooled text e) (fun u v hu hstep => ?_) hpath h
  cases hstep with
  | add hadd => exact hadd.pooled text e hu
  | grow _ _ => exact hu

theorem offers_of_offered (h : Offered g w n) (hgraph : w.program.graphs[g]? = some graph) : graph.Offers n := by
  obtain ⟨graph', hgraph', hn⟩ := h
  cases hgraph.symm.trans hgraph'
  exact hn

theorem draws_of_grows {graph' : Graph} (hgraph : w.program.graphs[g]? = some graph)
    (hpath : ReflTransGen (Graph.Grows w.program rule) graph graph') :
    ReflTransGen (Draw rule g) w
      { w with program := { w.program with graphs := w.program.graphs.setIfInBounds g graph' } } := by
  induction hpath with
  | refl =>
    have hsame : w.program.graphs.setIfInBounds g graph = w.program.graphs := by
      apply Array.ext_getElem?
      intro i
      rw [Array.getElem?_setIfInBounds]
      split_ifs with hi hlt
      · rw [← hi, hgraph]
      · rw [← hi, Array.getElem?_eq_none (by omega)]
      · rfl
    rw [hsame]
  | @tail graph1 graph2 _ hlast ih =>
    have hstep : Draw rule g { w with program := { w.program with graphs := w.program.graphs.setIfInBounds g graph1 } } _ :=
      .grow (getElem?_setIfInBounds_of_some hgraph) (hlast.mono (w.program.within_graphs _) rfl ⟨fun _ _ _ h => h, fun _ h => h⟩)
    rw [Array.setIfInBounds_setIfInBounds] at hstep
    exact ih.tail hstep

/-! ### Steps -/

/-- Whether a step only draws the body `g`, and `Q` holds of its result. -/
def Lowers (w0 : Workspace) (rule : Graph.Rule) (g : GraphId) (x : Action α) (w : Workspace) (Q : α → Workspace → Prop) :
    Prop :=
  Ready w0 g w → Leads (Draw rule g) x w Q

theorem Lowers.of_additions {x : Action α} {Q : α → Workspace → Prop} (h : Leads Addition x w Q) : Lowers w0 rule g x w Q :=
  fun _ => h.lift fun _ _ hadd => .add hadd

theorem Lowers.imp {x : Action α} {Q Q' : α → Workspace → Prop} (h : Lowers w0 rule g x w Q) (hQ : ∀ a t, Q a t → Q' a t) :
    Lowers w0 rule g x w Q' := fun hready => (h hready).imp hQ

theorem lowers_onGraph {step : Graph.Builder α} {Q : α → Graph → Prop}
    (h : ∀ graph, w.program.graphs[g]? = some graph → Graph.Draws w.program rule step graph Q) :
    Lowers w0 rule g (onGraph g step) w fun a w' => ∃ graph, w'.program.graphs[g]? = some graph ∧ Q a graph := by
  intro hready
  obtain ⟨graph, hgraph, hdrawn⟩ := hready.graph
  obtain ⟨a, graph', hrun, hpath, hQ⟩ := h graph hgraph hdrawn
  have hbuild : w.program.build g step = (a, { w.program with graphs := w.program.graphs.setIfInBounds g graph' }) := by
    simp only [Program.build, hgraph, Option.getD_some, hrun, Array.setIfInBounds_setIfInBounds]
  refine leads_of_finishes (finishes_onProgram_iff.2 ⟨rfl, rfl⟩) ?_ ⟨graph', ?_, ?_⟩
  · rw [hbuild]
    exact draws_of_grows hgraph hpath
  · rw [hbuild]
    exact getElem?_setIfInBounds_of_some hgraph
  · rw [hbuild]
    exact hQ

theorem lowers_address (he : Ready w0 g w → ∃ ent, w.program.entity? e = some ent) :
    Lowers w0 rule g (onGraph g (Graph.address e)) w fun n w' =>
      Offered g w' n ∧ n.mode = .pointer ∧ n.op = .address ∧ n.entity = some e := by
  intro hready
  obtain ⟨ent, hent⟩ := he hready
  refine (lowers_onGraph fun graph _ => Graph.draws_address hent).imp ?_ hready
  rintro n w' ⟨graph, hgraph, hoffers, hn⟩
  exact ⟨⟨graph, hgraph, hoffers⟩, hn⟩

theorem lowers_const {mode : Mode} (hmode : mode ≠ .void) (v : Int) :
    Lowers w0 rule g (onGraph g (Graph.const mode v)) w fun n w' => Offered g w' n ∧ n.mode = mode := by
  refine (lowers_onGraph fun graph _ => Graph.draws_const hmode v).imp ?_
  rintro n w' ⟨graph, hgraph, hoffers, hn⟩
  exact ⟨⟨graph, hgraph, hoffers⟩, hn⟩

theorem Lowers.bind {x : Action α} {f : α → Action β} {Q : α → Workspace → Prop} {R : β → Workspace → Prop}
    (hx : Lowers w0 rule g x w Q)
    (hf : ∀ a w', ReflTransGen (Draw rule g) w w' → Q a w' → Lowers w0 rule g (f a) w' R) :
    Lowers w0 rule g (x >>= f) w R :=
  fun hready => (hx hready).bind fun a w' hpath hQ => hf a w' hpath hQ (hready.path hpath)

theorem Ready.helper (h : Ready w0 g w) {x : Helper} {d : DeclaredHelper} (hd : w.helper? x = some d) :
    (∃ ent, w.program.entity? d.entity = some ent) ∧ w.program.types.signature? d.type = some x.signature := by
  have hfollows := h.sound.follows
  obtain ⟨s0, hstart⟩ := h.sound.started
  rw [hfollows.helper?_eq] at hd
  obtain ⟨d', hd', ⟨ent, hent, -⟩, hsig⟩ := hstart.helper x
  rw [helper?, hstart.session, Option.bind_some, hd'] at hd
  cases hd
  obtain ⟨ent', hent', -⟩ := hfollows.entities _ _ hent
  exact ⟨⟨ent', hent'⟩, signature?_of_extends hfollows.types hsig⟩

theorem Ready.descriptor (h : Ready w0 g w) {t : JavaType} (he : w.descriptorEntity t = some e) :
    ∃ ent, w.program.entity? e = some ent := by
  unfold descriptorEntity at he
  split at he
  · obtain ⟨cls, hcls, hd⟩ := Option.bind_eq_some_iff.1 he
    exact h.sound.exists_entity .descriptor hcls trivial hd
  · obtain ⟨cls, hcls, hd⟩ := Option.bind_eq_some_iff.1 he
    exact h.sound.exists_entity .descriptor hcls trivial hd
  · rename_i p
    obtain ⟨s0, hstart⟩ := h.sound.started
    obtain ⟨s, hs, hclose⟩ := h.sound.follows.session hstart.session
    have hprimitives : s.close.primitives = s0.close.primitives := congrArg Session.primitives hclose
    rw [hs, Option.bind_some] at he
    obtain ⟨e', he', ent, hent, -⟩ := hstart.primitive p
    have hsame : s.primitives.lookup p = some e' := (congrArg (List.lookup p) hprimitives).trans he'
    cases he.symm.trans hsame
    obtain ⟨ent', hent', -⟩ := h.sound.follows.entities _ _ hent
    exact ⟨ent', hent'⟩
  · cases he

theorem Ready.pooled (h : Ready w0 g w) {text : Text} (he : w.Pooled text e) : ∃ ent, w.program.entity? e = some ent := by
  obtain ⟨ent, hent, -⟩ := Option.bind_eq_some_iff.1 (h.sound.pool text e he)
  exact ⟨ent, hent⟩

theorem lowers_callHelper {x : Helper} {args : List Node} (hargs : ∀ a ∈ args, Offered g w a) (hmodes : args.map Node.mode = x.params)
    (hrule : ∀ types before n, Calls w0 (.helper x) types before n → rule.call types before n) :
    Lowers w0 rule g (callHelper g x args) w fun n w' => (x.result ≠ .void → Offered g w' n) ∧ n.mode = x.result ∧ n.op = .call ∧
      ∃ callee, n.args = callee :: args.map Node.id := by
  intro hready
  refine (leads_helper x).bind ?_
  rintro d _ - ⟨rfl, hd⟩
  obtain ⟨⟨ent, hent⟩, hsig⟩ := hready.helper hd
  rw [hready.sound.follows.helper?_eq] at hd
  refine (lowers_onGraph (Q := fun n g' => n ∈ g'.nodes ∧ n.mode = x.result ∧ n.op = .call ∧
    ∃ callee, n.args = callee :: args.map Node.id) fun graph hgraph => ?_).imp ?_ hready
  · refine (Graph.draws_address hent).bind ?_
    rintro callee graph' hkept ⟨hcallee, -, hop, hentity⟩
    refine (Graph.draws_call hcallee (fun a ha => ?_) hsig rfl fun n htype hpasses => ?_).imp
      fun n g' hn => ⟨hn.1, hn.2.1, hn.2.2.1, callee.id, hn.2.2.2.2.1⟩
    · obtain ⟨graph1, hgraph1, hoffers⟩ := hargs a ha
      cases hgraph.symm.trans hgraph1
      exact hkept a hoffers
    · exact hrule _ _ _ ⟨d, callee, hd, hsig, htype, hop, hentity, hmodes ▸ hpasses⟩
  · rintro n w' ⟨graph, hgraph, hmem, hmode, hrest⟩
    exact ⟨fun hresult => ⟨graph, hgraph, hmem, hmode ▸ hresult⟩, hmode, hrest⟩

/-! ### Operations of the runtime -/

section

variable (hrule : ∀ x, x ≠ .initClass → ∀ types before n, Calls w0 (.helper x) types before n → rule.call types before n)

include hrule

theorem lowers_arrayClass (levels : Nat) {cls : Node} (hcls : Offered g w cls) (hmode : cls.mode = .pointer) :
    Lowers w0 rule g (arrayClass g levels cls) w fun n w' => Offered g w' n ∧ n.mode = .pointer := by
  induction levels generalizing cls w with
  | zero => exact fun _ => leads_pure ⟨hcls, hmode⟩
  | succ levels ih =>
    refine (lowers_const (by decide) 0).bind fun loader w1 hpath1 hloader => ?_
    refine (lowers_callHelper (by simp [hcls.path hpath1, hloader.1]) (by simp [hmode, hloader.2, Helper.params])
      (hrule _ (by decide))).bind ?_
    intro n w2 _ hn
    exact ih (hn.1 (by decide)) hn.2.1

theorem lowers_classObject (t : JavaType) :
    Lowers w0 rule g (classObject g t) w fun n w' => Offered g w' n ∧ n.mode = .pointer ∧
      ∀ c, t = .cls c → n.op = .address ∧ n.entity = w0.descriptorEntity t ∧ n.entity ≠ none := by
  intro hready
  refine (leads_descriptorOf t).bind ?_
  rintro known _ - ⟨rfl, rfl⟩
  split
  · rename_i e he
    refine (lowers_address fun hready => hready.descriptor he).imp ?_ hready
    rintro n w' ⟨hoffered, hmode, hop, hentity⟩
    exact ⟨hoffered, hmode, fun c _ => ⟨hop, by rw [hentity, ← he, hready.sound.follows.descriptorEntity_eq], by simp [hentity]⟩⟩
  · dsimp only
    split_ifs with hlevels
    · exact leads_registry_bind (leads_throw _)
    · refine (leads_descriptorOf t.leaf).bind ?_
      rintro leaf _ - ⟨rfl, rfl⟩
      split
      · exact leads_registry_bind (leads_throw _)
      · rename_i e he
        refine ((lowers_address fun hready => hready.descriptor he).bind fun n w' _ hn => ?_) hready
        refine (lowers_arrayClass hrule t.dimensions hn.1 hn.2.1).imp fun n' w'' hn' => ⟨hn'.1, hn'.2, ?_⟩
        rintro c rfl
        exact absurd rfl hlevels

omit hrule in
theorem lowers_vptrNode {c : ClassId} {cls : Class} (hcls : w.registry.class? c = some cls) (hneeds : cls.needsVtable = true) :
    Lowers w0 rule g (vptrNode g cls) w fun v w' => ∀ n ∈ v, Offered g w' n := by
  rw [vptrNode]
  intro hready
  split
  · exact leads_pure (by simp)
  rename_i vt hvt
  obtain ⟨ent, hent⟩ := hready.sound.exists_entity .vtable hcls hneeds hvt
  have hmode : Leads (Draw rule g) offsetMode w fun mode w' => w = w' ∧ mode ≠ .void := by
    refine leads_pointerSize.bind ?_
    rintro size _ - rfl
    refine leads_pure ⟨rfl, ?_⟩
    split_ifs <;> decide
  refine hmode.bind ?_
  rintro mode _ - ⟨rfl, hmode⟩
  refine Leads.bind (Q := fun _ w' => w = w') (leads_pointerSize.bind ?_) ?_
  · rintro size _ - rfl
    exact leads_pure rfl
  rintro offset _ - rfl
  refine (lowers_onGraph (Q := fun v g' => ∀ n ∈ v, g'.Offers n) fun graph _ => ?_).imp ?_ hready
  · refine (Graph.draws_address hent).bind fun table g1 _ htable => ?_
    refine (Graph.draws_const hmode offset).bind fun offset g2 hkept hoffset => ?_
    refine (Graph.draws_sum (hkept _ htable.1) hoffset.1).bind fun sum g3 _ hsum => Graph.draws_pure ?_
    simpa using hsum.1
  · rintro v w' ⟨graph, hgraph, hv⟩ n hn
    exact ⟨graph, hgraph, hv n hn⟩

theorem lowers_allocateObject {c : ClassId} (hname : ∀ cls, w0.registry.class? c = some cls → Ascii.newline ∉ cls.name) :
    Lowers w0 rule g (allocateObject g c) w fun n w' => Offered g w' n := by
  intro hready
  refine leads_class'_bind fun cls hcls => ?_
  dsimp only
  split_ifs with hrefused
  · exact leads_throw _
  have hneeds : cls.needsVtable = true := by
    by_contra hnot
    simp [hnot] at hrefused
  refine ((lowers_classObject hrule (.cls c)).bind fun jclass w1 hpath1 hjclass => ?_) hready
  refine (lowers_callHelper (by simpa using hjclass.1) (by simp [hjclass.2.1, Helper.params])
    (hrule _ (by decide))).bind fun object w2 hpath2 hobject => ?_
  have hcls2 : w2.registry.class? c = some cls := by
    rw [(follows_of_draws (hpath1.trans hpath2)).registry_eq, hcls]
  refine (lowers_vptrNode hcls2 hneeds).bind fun vptr w3 hpath3 hvptr => ?_
  refine (lowers_onGraph (Q := fun n g' => g'.Offers n) fun graph hgraph => ?_).imp fun n w' h => h
  refine (Graph.draws_vptrIsSet ?_ hobject.2.1 ?_ (hname cls (hready.sound.follows.registry_eq ▸ hcls))).imp fun n g' hn => hn.1
  · exact offers_of_offered ((hobject.1 (by decide)).path hpath3) hgraph
  · exact fun n hn => offers_of_offered (hvptr n hn) hgraph

theorem lowers_allocateArray (elem : JavaType) {count : Node} (hcount : Offered g w count) (hmode : count.mode.isInt = true) :
    Lowers w0 rule g (allocateArray g elem count) w fun n w' => Offered g w' n := by
  refine (lowers_classObject hrule elem).bind fun jclass w1 hpath1 hjclass => ?_
  have hconv : Lowers w0 rule g (onGraph g (Graph.conv count .uint32)) w1 fun n w' => Offered g w' n ∧ n.mode = .uint32 := by
    refine (lowers_onGraph fun graph hgraph => Graph.draws_conv (offers_of_offered (hcount.path hpath1) hgraph) (.inr hmode)
      (by decide)).imp ?_
    rintro n w' ⟨graph, hgraph, hoffers, hn⟩
    exact ⟨⟨graph, hgraph, hoffers⟩, hn⟩
  refine hconv.bind fun count' w2 hpath2 hcount' => ?_
  have hjclass2 := hjclass.1.path hpath2
  have hlast : ∀ v array, Offered g v array → array.mode = .pointer →
      Lowers w0 rule g (onGraph g (Graph.vptrIsSet array arrayName none)) v fun n w' => Offered g w' n := by
    intro v array harray hpointer
    refine (lowers_onGraph (Q := fun n g' => g'.Offers n) fun graph hgraph => ?_).imp fun n w' h => h
    exact (Graph.draws_vptrIsSet (offers_of_offered harray hgraph) hpointer (by simp) (by decide)).imp fun n g' hn => hn.1
  dsimp only
  split_ifs
  · refine (lowers_callHelper (by simp [hjclass2, hcount'.1]) (by simp [hjclass.2.1, hcount'.2, Helper.params])
      (hrule _ (by decide))).bind ?_
    exact fun array w3 _ harray => hlast w3 array (harray.1 (by decide)) harray.2.1
  · refine (lowers_const (by decide) 0).bind fun null w3 hpath3 hnull => ?_
    refine (lowers_callHelper (by simp [hjclass2.path hpath3, hcount'.1.path hpath3, hnull.1])
      (by simp [hjclass.2.1, hcount'.2, hnull.2, Helper.params]) (hrule _ (by decide))).bind ?_
    exact fun array w4 _ harray => hlast w4 array (harray.1 (by decide)) harray.2.1

omit hrule in
theorem lowers_storeSizes {buffer : Node} (i : Nat) {sizes : List Node} (hbuffer : Offered g w buffer)
    (hsizes : ∀ n ∈ sizes, Offered g w n ∧ n.mode.isInt = true) :
    Lowers w0 rule g (storeSizes g buffer i sizes) w fun _ _ => True := by
  induction sizes generalizing i w with
  | nil => exact fun _ => leads_pure trivial
  | cons size sizes ih =>
    rw [List.forall_mem_cons] at hsizes
    refine (lowers_onGraph (Q := fun _ _ => True) fun graph hgraph => ?_).bind fun _ w1 hpath _ => ?_
    · refine (Graph.draws_const (by decide) i).bind fun index g1 hkept1 hindex => ?_
      refine (Graph.draws_sel (hkept1 _ (offers_of_offered hbuffer hgraph)) hindex.1).bind fun place g2 hkept2 hplace => ?_
      refine (Graph.draws_conv (hkept2 _ (hkept1 _ (offers_of_offered hsizes.1.1 hgraph))) (.inr hsizes.1.2) (by decide)).bind
        fun size' g3 hkept3 hsize => ?_
      exact (Graph.draws_store (hkept3 _ hplace.1) hsize.1).bind fun _ _ _ _ => Graph.draws_pure trivial
    · exact ih (i + 1) (hbuffer.path hpath) fun n hn => ⟨(hsizes.2 n hn).1.path hpath, (hsizes.2 n hn).2⟩

theorem lowers_newMultiArray (t : JavaType) {sizes : List Node} (hsizes : ∀ n ∈ sizes, Offered g w n ∧ n.mode.isInt = true) :
    Lowers w0 rule g (newMultiArray g t sizes) w fun n w' => Offered g w' n := by
  rw [newMultiArray]
  split_ifs
  · exact fun _ => leads_throw _
  refine (lowers_classObject hrule t).bind fun jclass w1 hpath1 hjclass => ?_
  refine (Lowers.of_additions (leads_newType _)).bind fun type w2 hpath2 htype => ?_
  refine (lowers_onGraph fun graph _ => Graph.draws_alloc htype.2 _).bind ?_
  rintro buffer w3 hpath3 ⟨graph, hgraph, hoffers, hmode⟩
  have hbuffer : Offered g w3 buffer := ⟨graph, hgraph, hoffers⟩
  have hpath := hpath1.trans (hpath2.trans hpath3)
  refine (lowers_storeSizes 0 hbuffer fun n hn => ⟨(hsizes n hn).1.path hpath, (hsizes n hn).2⟩).bind
    fun _ w4 hpath4 _ => ?_
  refine (lowers_const (by decide) _).bind fun count w5 hpath5 hcount => ?_
  have hjclass5 := hjclass.1.path (hpath2.trans (hpath3.trans (hpath4.trans hpath5)))
  refine (lowers_callHelper (by simp [hjclass5, hbuffer.path (hpath4.trans hpath5), hcount.1])
    (by simp [hjclass.2.1, hcount.2, hmode, Helper.params]) (hrule _ (by decide))).imp ?_
  exact fun n w' hn => hn.1 (by decide)

theorem lowers_instanceOf (hobject : Offered g w object) (hmode : object.mode = .pointer) (t : JavaType) :
    Lowers w0 rule g (Abi.instanceOf g object t) w fun n w' => Offered g w' n := by
  refine (lowers_classObject hrule t).bind fun jclass w1 hpath1 hjclass => ?_
  refine (lowers_callHelper (by simp [hjclass.1, hobject.path hpath1]) (by simp [hjclass.2.1, hmode, Helper.params])
    (hrule _ (by decide))).bind fun result w2 hpath2 hresult => ?_
  refine (lowers_onGraph (Q := fun n g' => g'.Offers n) fun graph hgraph => ?_).imp fun n w' h => h
  refine (Graph.draws_const (by decide) 0).bind fun zero g1 hkept hzero => ?_
  exact (Graph.draws_cmp (hkept _ (offers_of_offered (hresult.1 (by decide)) hgraph)) hzero.1).imp fun n g' hn => hn.1

theorem lowers_checkCast (t : JavaType) (hobject : Offered g w object) (hmode : object.mode = .pointer) :
    Lowers w0 rule g (Abi.checkCast g t object) w fun _ _ => True := by
  refine (lowers_classObject hrule t).bind fun jclass w1 hpath1 hjclass => ?_
  refine (lowers_callHelper (by simp [hjclass.1, hobject.path hpath1]) (by simp [hjclass.2.1, hmode, Helper.params])
    (hrule _ (by decide))).bind fun _ _ _ _ => fun _ => leads_pure trivial

theorem lowers_newString (text : Text) : Lowers w0 rule g (newString g text) w fun n w' => Offered g w' n := by
  refine (Lowers.of_additions (leads_intern text)).bind fun k w1 _ hk => ?_
  refine (lowers_address fun hready => hready.pooled hk).bind fun literal w2 _ hliteral => ?_
  refine (lowers_callHelper (by simpa using hliteral.1) (by simp [hliteral.2.1, Helper.params])
    (hrule _ (by decide))).imp ?_
  exact fun n w' hn => hn.1 (by decide)

omit hrule in
theorem lowers_arrayLength {array : Node} (harray : Offered g w array) :
    Lowers w0 rule g (Abi.arrayLength g array) w fun n w' => Offered g w' n := by
  intro hready
  refine leads_session_bind fun s _ => ?_
  refine (lowers_onGraph (Q := fun n g' => g'.Offers n) fun graph hgraph => ?_).imp (fun n w' h => h) hready
  refine (Graph.draws_member (offers_of_offered harray hgraph) (by decide) _).bind fun place g1 _ hplace => ?_
  exact (Graph.draws_load hplace.1 (by decide)).imp fun n g' hn => hn.1

omit hrule in
theorem lowers_vptrPlace : Lowers w0 rule g vptrPlace w fun _ _ => True := by
  intro hready
  refine leads_session_bind fun s _ => leads_class'_bind fun object _ => leads_get_bind (leads_need_bind fun t _ => ?_)
  exact ((leads_layoutOf _).lift fun _ _ hadd => .add hadd).bind fun l w1 _ _ => leads_pure trivial

/-- Whether a node of the body `g` is what the reference at an offset in an object refers to, read as a reference. -/
def FollowsVptr (g : GraphId) (w : Workspace) (object : Node) (offset : Int) (n : Node) : Prop :=
  ∃ place vptr, (Offered g w place ∧ place.op = .member ∧ place.args = [object.id] ∧ place.value = offset) ∧
    (Offered g w vptr ∧ vptr.mode = .pointer ∧ vptr.op = .load ∧ vptr.args = [place.id]) ∧
    Offered g w n ∧ n.mode = .pointer ∧ n.op = .load ∧ n.args = [vptr.id]

omit hrule in
theorem FollowsVptr.path {offset : Int} (h : FollowsVptr g w object offset n)
    (hpath : ReflTransGen (Draw rule g) w w') : FollowsVptr g w' object offset n := by
  obtain ⟨place, vptr, ⟨hplace, hplace'⟩, ⟨hvptr, hvptr'⟩, hn, hn'⟩ := h
  exact ⟨place, vptr, ⟨hplace.path hpath, hplace'⟩, ⟨hvptr.path hpath, hvptr'⟩, hn.path hpath, hn'⟩

omit hrule in
theorem lowers_followVptr (hobject : Offered g w object) (offset : Int) :
    Lowers w0 rule g (onGraph g do
      let place ← Graph.member object vptrMember offset
      let vptr ← Graph.load place .pointer
      Graph.load vptr .pointer) w fun n w' => FollowsVptr g w' object offset n := by
  refine (lowers_onGraph (Q := fun n g' => ∃ place vptr,
    (g'.Offers place ∧ place.op = .member ∧ place.args = [object.id] ∧ place.value = offset) ∧
    (g'.Offers vptr ∧ vptr.mode = .pointer ∧ vptr.op = .load ∧ vptr.args = [place.id]) ∧
    g'.Offers n ∧ n.mode = .pointer ∧ n.op = .load ∧ n.args = [vptr.id]) fun graph hgraph => ?_).imp ?_
  · refine (Graph.draws_member (offers_of_offered hobject hgraph) (by decide) _).bind fun place g1 _ hplace => ?_
    refine (Graph.draws_load hplace.1 (by decide)).bind fun vptr g2 hkept hvptr => ?_
    intro hg
    have hload : Graph.Draws w.program rule (Graph.load vptr .pointer) g2 _ := Graph.draws_load hvptr.1 (by decide)
    obtain ⟨n, g3, hrun, hpath, hn⟩ := hload hg
    exact ⟨n, g3, hrun, hpath, place, vptr, ⟨(hkept _ hplace.1).path hpath, hplace.2.2⟩, ⟨hvptr.1.path hpath, hvptr.2⟩, hn⟩
  · rintro n w' ⟨graph, hgraph, place, vptr, ⟨hplace, hplace'⟩, ⟨hvptr, hvptr'⟩, hn, hn'⟩
    exact ⟨place, vptr, ⟨⟨graph, hgraph, hplace⟩, hplace'⟩, ⟨⟨graph, hgraph, hvptr⟩, hvptr'⟩, ⟨graph, hgraph, hn⟩, hn'⟩

/-- The helper that looks a method up is given the descriptor of the object first, which is found through its vtable. -/
theorem lowers_lookupInterface (hobject : Offered g w object) (iface : Class) (m : Method) :
    Lowers w0 rule g (lookupInterface g object iface m) w fun n w' => Offered g w' n ∧ n.op = .call ∧
      ∃ offset w1 descriptor callee rest, Finishes vptrPlace w offset w1 ∧ FollowsVptr g w' object offset descriptor ∧
        n.args = callee :: descriptor.id :: rest := by
  rw [lookupInterface]
  split_ifs
  · exact fun _ => leads_throw _
  have hplace : Lowers w0 rule g vptrPlace w fun offset w' => Finishes vptrPlace w offset w' := fun hready =>
    ⟨(lowers_vptrPlace hready).1, fun _ _ hrun => hrun⟩
  refine hplace.bind fun offset w1 hpath1 hoffset => ?_
  refine (lowers_followVptr (hobject.path hpath1) offset).bind fun descriptor w2 hpath2 hdescriptor => ?_
  refine (Lowers.of_additions (leads_internDotted m.name)).bind fun name w3 hpath3 hname => ?_
  refine (Lowers.of_additions (leads_internDotted m.descriptor)).bind fun sig w4 hpath4 hsig => ?_
  have haddresses : Lowers w0 rule g (onGraph g do
      let name ← Graph.address name.entity
      let sig ← Graph.address sig.entity
      return (name, sig)) w4 fun ns w' =>
        (Offered g w' ns.1 ∧ ns.1.mode = .pointer) ∧ Offered g w' ns.2 ∧ ns.2.mode = .pointer := by
    intro hready
    obtain ⟨ent, hent⟩ := hready.pooled hsig
    obtain ⟨ent', hent'⟩ := hready.pooled (pooled_of_draws hpath4 hname)
    refine (lowers_onGraph (Q := fun ns g' => (g'.Offers ns.1 ∧ ns.1.mode = .pointer) ∧ g'.Offers ns.2 ∧ ns.2.mode = .pointer)
      fun graph _ => ?_).imp ?_ hready
    · refine (Graph.draws_address hent').bind fun name' g1 _ hname' => ?_
      refine (Graph.draws_address hent).bind fun sig' g2 hkept hsig' => Graph.draws_pure ?_
      exact ⟨⟨hkept _ hname'.1, hname'.2.1⟩, hsig'.1, hsig'.2.1⟩
    · rintro ns w' ⟨graph, hgraph, ⟨hfirst, hmode⟩, hsecond, hmode'⟩
      exact ⟨⟨⟨graph, hgraph, hfirst⟩, hmode⟩, ⟨graph, hgraph, hsecond⟩, hmode'⟩
  refine haddresses.bind fun ns w5 hpath5 hns => ?_
  have hdescriptor5 := hdescriptor.path (hpath3.trans (hpath4.trans hpath5))
  obtain ⟨_, _, -, -, hoffered, hmode, -⟩ := id hdescriptor5
  intro hready
  refine (lowers_callHelper (by simp [hoffered, hns.1.1, hns.2.1]) (by simp [hmode, hns.1.2, hns.2.2, Helper.params])
    (hrule _ (by decide)) hready).and_changes.imp ?_
  rintro n w' ⟨hpath6, hn, -, hop, callee, hargs⟩
  exact ⟨hn (by decide), hop, offset, w1, descriptor, callee, _, hoffset, hdescriptor5.path hpath6, hargs⟩

/-! ### Operations of bodies -/

omit hrule in
/-- A parameter that is taken is a reference among the parameters of the routine. -/
theorem lowers_referenceParam {ref : MethodRef} {m : Method} (hbuilt : w0.Built) (hm : w0.registry.method? ref = some m)
    (he : m.entity = some e) (hparam : ∀ i, m.IsReference i → rule.param i) :
    Lowers w0 rule g (referenceParam g e) w fun n w' => Offered g w' n ∧ n.mode = .pointer := by
  intro hready
  obtain ⟨cls, hcls, hmethod⟩ := Option.bind_eq_some_iff.1 hm
  obtain ⟨e', -, ent', he', -, hent', hsig⟩ := hready.sound.exists_routine hcls hmethod
  cases he.symm.trans he'
  refine leads_get_bind (leads_need_bind fun ent hent => ?_)
  cases hent.symm.trans hent'
  rw [hsig]
  dsimp only
  split
  · exact leads_throw _
  · rename_i k hk
    obtain ⟨hlt, hpointer, -⟩ := List.findIdx?_eq_some_iff_getElem.1 hk
    obtain ⟨mode, hmode⟩ := Method.exists_mode (List.getElem?_eq_getElem hlt)
    have hreference : m.IsReference k := by
      refine ⟨k, rfl, ?_⟩
      have hshared := hready.sound.follows.types _ _ (hbuilt.typesSound.shared mode)
      rw [hmode, Option.bind_some, TypeTable.mode?, hshared] at hpointer
      obtain rfl : mode = .pointer := by cases mode <;> first | rfl | cases hpointer
      rw [List.getElem?_eq_getElem hlt, hmode]
    refine (lowers_onGraph fun graph _ => Graph.draws_param (hparam _ hreference)).imp ?_ hready
    rintro n w' ⟨graph, hgraph, hoffers, hmode⟩
    exact ⟨⟨graph, hgraph, hoffers⟩, hmode⟩

omit hrule in
theorem interfaceMethod_spec {S : Workspace → Workspace → Prop} (c : ClassId) (name descriptor : Text) :
    Leads S (interfaceMethod c name descriptor) w fun m w' =>
      w = w' ∧ (w.registry.lookupMethod c name descriptor).bind w.registry.method? = some m := by
  refine leads_registry_bind ?_
  split
  · exact leads_throw _
  · rename_i ref href
    exact leads_need fun m hm => ⟨rfl, by rw [href, Option.bind_some, hm]⟩

def HasCall (w0 : Workspace) (g : GraphId) (k : Callee) (w : Workspace) : Prop :=
  ∃ graph n, w.program.graphs[g]? = some graph ∧ n ∈ graph.nodes ∧ n.op = .call ∧
    Calls w0 k w.program.types graph.nodes.toList n

omit hrule in
theorem HasCall.path {k : Callee} (h : HasCall w0 g k w) (hpath : ReflTransGen (Draw rule g) w w') : HasCall w0 g k w' := by
  refine keep_along (fun u v hu hstep => ?_) hpath h
  obtain ⟨graph, n, hgraph, hn, hop, hcalls⟩ := hu
  cases hstep with
  | add hadd => exact ⟨graph, n, by rw [hadd.graphs_eq, hgraph], hn, hop, hcalls.mono hadd.follows.types fun _ ha => ha⟩
  | @grow graph1 graph2 hgraph1 hgrows =>
    cases hgraph.symm.trans hgraph1
    have hnodes := Graph.grows_nodes hgrows
    refine ⟨graph2, n, getElem?_setIfInBounds_of_some hgraph, hnodes n hn, hop, hcalls.mono (fun _ _ h => h) fun a ha => ?_⟩
    exact Array.mem_toList_iff.2 (hnodes a (Array.mem_toList_iff.1 ha))

omit hrule in
theorem lowers_invokeInterface {code : Node} {m : Method} (hobject : Offered g w object) (hmode : object.mode = .pointer)
    (hcode : Offered g w code) (hop : code.op = .call)
    (hmodes : ∀ mode : Mode, w.program.types.shape? mode.typeId = some (.primitive mode))
    (hparams : ∀ p ∈ m.params, p ≠ .void)
    (hrule : ∀ types before n, Calls w0 (.method m) types before n → rule.call types before n) :
    Lowers w0 rule g (do
      let type ← newType (.routine m.signature)
      let mode := (← get).program.types.resultMode m.signature
      onGraph g do
        let args ← m.params.mapM fun p => Graph.const p.mode 0
        return some (← Graph.call code type mode (object :: args))) w fun v w' =>
      (∀ n ∈ v, n.mode ≠ .void → Offered g w' n) ∧ HasCall w0 g (.method m) w' := by
  refine (Lowers.of_additions (leads_newType _)).bind ?_
  rintro type w1 hpath ⟨-, hshape⟩
  have hsig : w1.program.types.signature? type = some m.signature := by rw [TypeTable.signature?, hshape]
  intro hready
  refine leads_get_bind ?_
  refine ((lowers_onGraph (Q := fun v g' => ∃ n, v = some n ∧ n ∈ g'.nodes ∧ n.op = .call ∧ n.type = some type ∧
    Graph.Passes g'.nodes.toList code (.pointer :: m.params.map JavaType.mode) n) fun graph hgraph => ?_) hready).and_changes.imp ?_
  · refine (Graph.draws_consts fun p hp => mt JavaType.mode_eq_void_iff.1 (hparams p hp)).bind fun args g1 hkept hargs => ?_
    have harguments : (object :: args).map Node.mode = .pointer :: m.params.map JavaType.mode := by
      rw [List.map_cons, hmode, hargs.2]
    refine (Graph.draws_call (hkept _ (offers_of_offered (hcode.path hpath) hgraph)) ?_ hsig ?_ fun n htype hpasses => ?_).bind
      fun n g2 _ hn => Graph.draws_pure ⟨n, rfl, hn.1, hn.2.2.1, hn.2.2.2.1, harguments ▸ hn.2.2.2.2.2⟩
    · rw [List.forall_mem_cons]
      exact ⟨hkept _ (offers_of_offered (hobject.path hpath) hgraph), hargs.1⟩
    · rw [m.gives_signature.resultMode_eq fun mode => (follows_of_draws hpath).types _ _ (hmodes mode)]
      exact m.gives_signature
    · exact hrule _ _ _ ⟨type, code, hsig, htype, hop, harguments ▸ hpasses⟩
  · rintro v w' ⟨hpath', graph, hgraph, n, rfl, hmem, hcall, htype, hpasses⟩
    refine ⟨?_, graph, n, hgraph, hmem, hcall, type, code, ?_, htype, hop, hpasses⟩
    · rintro _ ⟨⟩ hmode
      exact ⟨graph, hgraph, hmem, hmode⟩
    · exact signature?_of_extends (follows_of_draws hpath').types hsig

omit hrule in
theorem Lowers.map {x : Action Node} (hx : Lowers w0 rule g x w fun n w' => Offered g w' n) :
    Lowers w0 rule g (some <$> x) w fun v w' => ∀ n ∈ v, n.mode ≠ .void → Offered g w' n := by
  rw [map_eq_pure_bind]
  refine hx.bind fun n w' _ hn _ => leads_pure ?_
  simpa using fun _ => hn

omit hrule in
theorem lowers_sizes (sizes : List Int) :
    Lowers w0 rule g (sizes.mapM fun n => onGraph g (Graph.const .int32 n)) w fun ns w' =>
      ∀ n ∈ ns, Offered g w' n ∧ n.mode.isInt = true := by
  intro hready
  refine (leads_mapM (T := fun _ n w => Offered g w n ∧ n.mode.isInt = true) ?_ ?_).imp fun ns w' h n hn => ?_
  · exact fun _ n u v hn hstep => ⟨hn.1.path (.single hstep), hn.2⟩
  · intro size _ v hpath
    refine (lowers_const (by decide) size).imp (fun n w' hn => ⟨hn.1, ?_⟩) (hready.path hpath)
    rw [hn.2]
    rfl
  · obtain ⟨i, hlt, rfl⟩ := List.getElem_of_mem hn
    exact (List.forall₂_iff_get.1 h).2 i (by rw [h.length_eq]; exact hlt) hlt

/-- The method that an operation calls through an interface. -/
def Operation.invoked? (r : Registry) : Operation → Option Method
  | .invokeInterface cls name descriptor =>
    (r.find? cls).bind fun c => (r.lookupMethod c name descriptor).bind r.method?
  | _ => none

def Operation.initialized? : Operation → Option Text
  | .initClass cls => some cls
  | _ => none

def Operation.MayCall (r : Registry) (op : Operation) : Callee → Prop
  | .helper x => x = .initClass → op.initialized? ≠ none
  | .method m => op.invoked? r = some m

def CallsOf (w0 : Workspace) (ops : List Operation) : Graph.CallRule := fun types before n =>
  ∃ op ∈ ops, ∃ k, op.MayCall w0.registry k ∧ Calls w0 k types before n

omit hrule in
theorem CallsOf.mono {ops : List Operation} {types' : TypeTable} {before after : List Node}
    (h : CallsOf w0 ops types before n) (htypes : types.Extends types') (hnodes : ∀ a ∈ before, a ∈ after) :
    CallsOf w0 ops types' after n := by
  obtain ⟨op, hop, k, hmay, hcalls⟩ := h
  exact ⟨op, hop, k, hmay, hcalls.mono htypes hnodes⟩

/-- What is allowed in the body of the method `m`: the calls of operations, and its own parameters. -/
def ruleOf (w0 : Workspace) (m : Method) (ops : List Operation) : Graph.Rule := ⟨CallsOf w0 ops, m.IsReference⟩

/-- Whether the calls and the parameters in the body `g` are those of operations of the method `m`. -/
def OnlyCalls (w0 : Workspace) (g : GraphId) (m : Method) (ops : List Operation) (w : Workspace) : Prop :=
  ∀ graph n, w.program.graphs[g]? = some graph → n ∈ graph.nodes →
    (n.op = .call → CallsOf w0 ops w.program.types graph.nodes.toList n) ∧ (n.op = .param → m.IsReference n.value)

omit hrule in
theorem OnlyCalls.path {m : Method} {ops : List Operation} (h : OnlyCalls w0 g m ops w)
    (hpath : ReflTransGen (Draw (ruleOf w0 m ops) g) w w') : OnlyCalls w0 g m ops w' := by
  refine keep_along (fun u v hu hstep => ?_) hpath h
  intro graph n hgraph hn
  cases hstep with
  | add hadd =>
    rw [hadd.graphs_eq] at hgraph
    exact (hu graph n hgraph hn).imp_left fun hcall hop => (hcall hop).mono hadd.follows.types fun _ ha => ha
  | @grow graph1 graph2 hgraph1 hgrows =>
    cases (getElem?_setIfInBounds_of_some hgraph1).symm.trans hgraph
    cases hgrows with
    | result _ => exact hu graph1 n hgraph1 hn
    | @node new params mem _ hrule hplace _ =>
      have hnodes : ∀ a ∈ graph1.nodes.toList, a ∈ (graph1.nodes.push new).toList := by simp_all
      rcases Array.mem_push.1 hn with hold | rfl
      · exact (hu graph1 n hgraph1 hold).imp_left fun hcall hop => (hcall hop).mono (fun _ _ h => h) hnodes
      · exact ⟨fun hop => CallsOf.mono (hrule hop) (fun _ _ h => h) hnodes, hplace⟩

omit hrule in
theorem find?_of_resolve {r : Registry} {name : Text} {c : ClassId} (h : r.resolve name = .ok c) : r.find? name = some c := by
  rw [Registry.resolve] at h
  split at h
  · cases h
    assumption
  · cases h

omit hrule in
theorem Operation.unary_eq_ok_iff {mnemonic : Text} {f : Text → Operation} {args : List Text} {op : Operation} :
    unary mnemonic f args = .ok op ↔ ∃ t, args = [t] ∧ f t = op := by
  unfold unary
  split <;> simp_all

omit hrule in
/-- The class of a new object is named by a word, in which there is no line break. -/
theorem Operation.not_mem_of_ofText_new {source cls : Text} (h : ofText source = .ok (.new cls)) : Ascii.newline ∉ cls := by
  unfold ofText at h
  dsimp only at h
  split_ifs at h
  · split at h <;> cases h
  unfold ofOperands at h
  split_ifs at h
  · obtain ⟨t, hargs, heq⟩ := unary_eq_ok_iff.1 h
    obtain rfl := Operation.new.inj heq
    exact Text.not_mem_of_mem_words (by decide) (by decide) (hargs ▸ List.mem_singleton_self t)
  · obtain ⟨t, -, heq⟩ := unary_eq_ok_iff.1 h
    cases heq
  · obtain ⟨t, -, heq⟩ := unary_eq_ok_iff.1 h
    cases heq
  · obtain ⟨t, -, heq⟩ := unary_eq_ok_iff.1 h
    cases heq
  · split at h
    · rename_i count _
      rcases hsize : size count with e | n <;> rw [hsize] at h <;> cases h
    · cases h
  · split at h
    · rename_i first rest _
      rcases hsizes : (first :: rest).mapM size with e | ns <;> rw [hsizes] at h <;> cases h
    · cases h
  · split at h <;> cases h
  · split at h <;> cases h

omit hrule in
/-- What an operation that runs no initializer calls: helpers, and the method that it finds. -/
theorem lowers_lower {ref : MethodRef} {m : Method} {op : Operation} {source : Text} (hbuilt : w0.Built)
    (hm : w0.registry.method? ref = some m) (he : m.entity = some e) (hsource : Operation.ofText source = .ok op)
    (hop : op.initialized? = none) :
    Lowers w0 (ruleOf w0 m [op]) g (lower g e op) w fun v w' =>
      (∀ n ∈ v, n.mode ≠ .void → Offered g w' n) ∧ ∀ m ∈ op.invoked? w0.registry, HasCall w0 g (.method m) w' := by
  have hrule : ∀ x, x ≠ .initClass → ∀ types before n, Calls w0 (.helper x) types before n → CallsOf w0 [op] types before n :=
    fun x hx types before n h => ⟨op, List.mem_singleton_self op, .helper x, fun heq => absurd heq hx, h⟩
  have hplain : ∀ {x : Action (Option Node)} {v : Workspace}, op.invoked? w0.registry = none →
      Lowers w0 (ruleOf w0 m [op]) g x v (fun v w' => ∀ n ∈ v, n.mode ≠ .void → Offered g w' n) →
      Lowers w0 (ruleOf w0 m [op]) g x v fun v w' =>
        (∀ n ∈ v, n.mode ≠ .void → Offered g w' n) ∧ ∀ m ∈ op.invoked? w0.registry, HasCall w0 g (.method m) w' :=
    fun hnone h => h.imp fun _ _ hv => ⟨hv, by simp [hnone]⟩
  have hparam : ∀ v, Lowers w0 (ruleOf w0 m [op]) g (referenceParam g e) v _ := fun v =>
    lowers_referenceParam hbuilt hm he fun _ h => h
  intro hready
  refine leads_registry_bind ?_
  cases op with
  | new cls =>
    refine leads_ofExcept_bind fun c hc => ?_
    refine hplain rfl ((lowers_allocateObject hrule fun cls' hcls' => ?_).map) hready
    -- The class that was found has the name that was looked for, which is a word of the operation.
    rw [hready.sound.follows.registry_eq] at hc
    obtain ⟨_, hcls, rfl⟩ := hbuilt.known.named cls c (find?_of_resolve hc)
    cases hcls.symm.trans hcls'
    exact Operation.not_mem_of_ofText_new hsource
  | newArray elem count =>
    refine leads_ofExcept_bind fun t _ => ?_
    refine ((lowers_const (by decide) count).bind fun n w' _ hn => hplain rfl ?_) hready
    exact (lowers_allocateArray hrule t hn.1 (by rw [hn.2]; rfl)).map
  | multiNewArray type sizes =>
    refine leads_ofExcept_bind fun t _ => ?_
    dsimp only
    split_ifs
    · exact leads_throw _
    refine ((lowers_sizes sizes).bind fun ns w' _ hns => hplain rfl ?_) hready
    exact (lowers_newMultiArray hrule t hns).map
  | instanceOf type =>
    refine leads_ofExcept_bind fun t _ => ?_
    refine ((hparam _).bind fun object w' _ hobject => hplain rfl ?_) hready
    exact (lowers_instanceOf hrule hobject.1 hobject.2 t).map
  | checkCast type =>
    refine leads_ofExcept_bind fun t _ => ?_
    refine ((hparam _).bind fun object w1 _ hobject => hplain rfl ?_) hready
    refine (lowers_checkCast hrule t hobject.1 hobject.2).bind fun _ w2 hpath _ _ => leads_pure ?_
    simpa using fun _ => hobject.1.path hpath
  | invokeInterface cls name descriptor =>
    refine (leads_ofExcept (Q := fun c w' => w.registry.resolve cls = .ok c ∧ w = w') fun c hc => ⟨hc, rfl⟩).bind ?_
    rintro c _ - ⟨hc, rfl⟩
    refine (interfaceMethod_spec c name descriptor).bind ?_
    rintro m' _ - ⟨rfl, hm'⟩
    rw [hready.sound.follows.registry_eq] at hc hm'
    have hinvoked : (Operation.invokeInterface cls name descriptor).invoked? w0.registry = some m' := by
      rw [Operation.invoked?, find?_of_resolve hc, Option.bind_some, hm']
    obtain ⟨ref, -, hmethod⟩ := Option.bind_eq_some_iff.1 hm'
    have hcalls : ∀ types before n, Calls w0 (.method m') types before n → CallsOf w0 [_] types before n :=
      fun types before n h => ⟨_, List.mem_singleton_self _, .method m', hinvoked, h⟩
    refine ((hparam _).bind fun object w1 hpath1 hobject hready1 => ?_) hready
    refine leads_class'_bind fun iface _ => ?_
    refine ((lowers_lookupInterface hrule hobject.1 iface m').bind fun code w2 hpath2 hcode hready2 => ?_) hready1
    refine (lowers_invokeInterface (hobject.1.path hpath2) hobject.2 hcode.1 hcode.2.1 (fun mode => ?_)
      (hbuilt.params hmethod) hcalls hready2).imp ?_
    · exact hready2.sound.follows.types _ _ (hbuilt.typesSound.shared mode)
    · rintro v w' ⟨hv, hcall⟩
      refine ⟨hv, fun m'' hm'' => ?_⟩
      cases hinvoked.symm.trans hm''
      exact hcall
  | initClass cls => cases hop
  | literal text => exact hplain rfl ((lowers_newString hrule text).map) hready
  | arrayLength =>
    refine ((hparam _).bind fun object w' _ hobject => hplain rfl ?_) hready
    exact (lowers_arrayLength hobject.1).map

end

end Lowering

end ClassAbi
