import ClassAbi.Abi.Dynamic
import ClassAbi.Proofs.Abi.Record
import ClassAbi.Proofs.Program

/-!
# The nodes that a step adds

`AddsTo` says which nodes a step adds to a body, and that it changes neither classes nor the session. The object of a class is
the address of a descriptor, and that of an array class comes from one call of the runtime for each dimension, on the object
before it (`ClassNodes`).
-/

namespace ClassAbi

variable {x : Helper} {d : DeclaredHelper} {e : EntityId} {t : JavaType}

namespace Graph

/-- Whether a graph has further nodes, which have the next numbers. -/
structure Adds (g g' : Graph) (ns : List Node) : Prop where
  nodes : g'.nodes.toList = g.nodes.toList ++ ns
  ids : ns.map Node.id = List.range' (g.numbered + 1) ns.length
  numbered : g'.numbered = g.numbered + ns.length

variable {g g1 g2 : Graph} {ns ms : List Node}

theorem Adds.refl (g : Graph) : g.Adds g [] := ⟨by simp, rfl, rfl⟩

theorem Adds.trans (h : g.Adds g1 ns) (h' : g1.Adds g2 ms) : g.Adds g2 (ns ++ ms) where
  nodes := by rw [h'.nodes, h.nodes, List.append_assoc]
  ids := by
    rw [List.map_append, h.ids, h'.ids, h.numbered, List.length_append, Nat.add_right_comm g.numbered, List.range'_append_1]
  numbered := by rw [h'.numbered, h.numbered, List.length_append, Nat.add_assoc]

theorem adds_add (g : Graph) (n : Node) : g.Adds (add n g).2 [(add n g).1] := ⟨Array.toList_push, rfl, rfl⟩

theorem adds_effect (g : Graph) (n : Node) : g.Adds (effect n g).2 [(effect n g).1] := ⟨Array.toList_push, rfl, rfl⟩

end Graph

namespace Abi

open ClassAbi.Action Workspace

/-- Whether `w'` is `w` with further nodes in the body `g`, and perhaps with further types. -/
structure AddsTo (g : GraphId) (w w' : Workspace) (ns : List Node) : Prop where
  registry : w'.registry = w.registry
  session : w'.session = w.session
  types : w.program.types.Extends w'.program.types
  graph : ∃ graph graph', w.program.graphs[g]? = some graph ∧ w'.program.graphs[g]? = some graph' ∧ graph.Adds graph' ns

variable {g : GraphId} {w w' w1 w2 : Workspace} {graph : Graph} {ns ms : List Node} {α : Type}

theorem AddsTo.refl (hgraph : w.program.graphs[g]? = some graph) : AddsTo g w w [] :=
  ⟨rfl, rfl, fun _ _ h => h, graph, graph, hgraph, hgraph, .refl graph⟩

theorem AddsTo.trans (h : AddsTo g w w1 ns) (h' : AddsTo g w1 w2 ms) : AddsTo g w w2 (ns ++ ms) := by
  obtain ⟨graph, graph1, hgraph, hgraph1, hadds⟩ := h.graph
  obtain ⟨_, graph2, hsame, hgraph2, hadds'⟩ := h'.graph
  cases hgraph1.symm.trans hsame
  exact ⟨h'.registry.trans h.registry, h'.session.trans h.session, fun t shape ht => h'.types t shape (h.types t shape ht),
    graph, graph2, hgraph, hgraph2, hadds.trans hadds'⟩

theorem AddsTo.exists_graph (h : AddsTo g w w' ns) : ∃ graph, w'.program.graphs[g]? = some graph := by
  obtain ⟨-, graph', -, hgraph', -⟩ := h.graph
  exact ⟨graph', hgraph'⟩

theorem AddsTo.helper?_eq (h : AddsTo g w w' ns) (x : Helper) : w'.helper? x = w.helper? x := by
  rw [helper?, helper?, h.session]

theorem AddsTo.descriptorEntity_eq (h : AddsTo g w w' ns) (t : JavaType) : w'.descriptorEntity t = w.descriptorEntity t := by
  unfold descriptorEntity
  rw [h.registry, h.session]

theorem finishes_onGraph {step : Graph.Builder α} (hgraph : w.program.graphs[g]? = some graph) :
    Finishes (onGraph g step) w (step graph).1
      { w with program := { w.program with graphs := w.program.graphs.setIfInBounds g (step graph).2 } } := by
  rcases hrun : step graph with ⟨a, graph'⟩
  refine finishes_onProgram_iff.2 ?_
  simp [Program.build, hgraph, hrun]

theorem adds_onGraph {step : Graph.Builder α} {a : α} (hgraph : w.program.graphs[g]? = some graph)
    (hstep : graph.Adds (step graph).2 ns) (h : Finishes (onGraph g step) w a w') : a = (step graph).1 ∧ AddsTo g w w' ns := by
  obtain ⟨rfl, rfl⟩ := (finishes_onGraph hgraph).unique h
  have hlt := (Array.getElem?_eq_some_iff.1 hgraph).1
  exact ⟨rfl, rfl, rfl, fun _ _ ht => ht, graph, _, hgraph, Array.getElem?_setIfInBounds_self_of_lt hlt, hstep⟩

/-! ### Calls of helpers -/

/-- Whether a node calls a declared helper, whose address is `callee`, with arguments. -/
structure CallsHelper (d : DeclaredHelper) (args : List Node) (callee call : Node) : Prop where
  callee_op : callee.op = .address
  callee_entity : callee.entity = some d.entity
  op : call.op = .call
  type : call.type = some d.type
  args : call.args = callee.id :: args.map Node.id

theorem finishes_helper_iff : Finishes (helper x) w d w' ↔ w.helper? x = some d ∧ w = w' := by
  simp only [helper, session, finishes_bind_iff, finishes_get_iff, finishes_need_iff, helper?, Option.bind_eq_some_iff]
  constructor
  · rintro ⟨s, _, ⟨_, _, ⟨rfl, rfl⟩, hs, rfl⟩, hd, rfl⟩
    exact ⟨⟨s, hs, hd⟩, rfl⟩
  · rintro ⟨⟨s, hs, hd⟩, rfl⟩
    exact ⟨s, w, ⟨w, w, ⟨rfl, rfl⟩, hs, rfl⟩, hd, rfl⟩

theorem adds_callHelper {args : List Node} {call : Node} (hgraph : w.program.graphs[g]? = some graph)
    (h : Finishes (callHelper g x args) w call w') :
    ∃ d callee, w.helper? x = some d ∧ AddsTo g w w' [callee, call] ∧ CallsHelper d args callee call := by
  obtain ⟨d, _, hhelper, h⟩ := finishes_bind_iff.1 h
  obtain ⟨hd, rfl⟩ := finishes_helper_iff.1 hhelper
  have hadds := (graph.adds_add { op := .address, mode := .pointer, entity := d.entity }).trans (Graph.adds_effect _
    { op := .call, mode := x.result, type := some d.type, args := (graph.numbered + 1) :: args.map Node.id })
  obtain ⟨rfl, hadds⟩ := adds_onGraph hgraph hadds h
  exact ⟨d, _, hd, hadds, ⟨rfl, rfl, rfl, rfl, rfl⟩⟩

/-! ### Class objects -/

/-- Whether nodes make the object of an array class of `k` dimensions, which is the last one of them. It begins with the
address of the descriptor `e`, and each dimension takes a call of the helper on the object before it and a null reference. -/
inductive ClassNodes (helper : Option DeclaredHelper) (e : EntityId) : Nat → List Node → Node → Prop
  | descriptor {n : Node} (hop : n.op = .address) (hentity : n.entity = some e) : ClassNodes helper e 0 [n] n
  | array {k : Nat} {ns : List Node} {cls null callee call : Node} {d : DeclaredHelper} (h : ClassNodes helper e k ns cls)
    (hnull : null.op = .const ∧ null.mode = .pointer ∧ null.value = 0) (hd : helper = some d)
    (hcall : CallsHelper d [cls, null] callee call) : ClassNodes helper e (k + 1) (ns ++ [null, callee, call]) call

/-- Where `ns` makes an object of `j` dimensions, the nodes that are added make one of `k` more. -/
theorem adds_arrayClass {j k : Nat} {cls n : Node} (hgraph : w.program.graphs[g]? = some graph)
    (hcls : ClassNodes (w.helper? .getArrayClass) e j ns cls) (h : Finishes (arrayClass g k cls) w n w') :
    ∃ ms, AddsTo g w w' ms ∧ ClassNodes (w.helper? .getArrayClass) e (j + k) (ns ++ ms) n := by
  induction k generalizing w graph j cls ns with
  | zero =>
    obtain ⟨rfl, rfl⟩ := finishes_pure_iff.1 h
    exact ⟨[], .refl hgraph, by simpa using hcls⟩
  | succ k ih =>
    obtain ⟨null, w1, hnull, h⟩ := finishes_bind_iff.1 h
    obtain ⟨rfl, hadds1⟩ := adds_onGraph hgraph (graph.adds_add _) hnull
    obtain ⟨graph1, hgraph1⟩ := hadds1.exists_graph
    obtain ⟨call, w2, hcall, h⟩ := finishes_bind_iff.1 h
    obtain ⟨d, callee, hd, hadds2, hcall⟩ := adds_callHelper hgraph1 hcall
    obtain ⟨graph2, hgraph2⟩ := hadds2.exists_graph
    have hadds := hadds1.trans hadds2
    rw [hadds1.helper?_eq] at hd
    have hobject := hcls.array ⟨rfl, rfl, rfl⟩ hd hcall
    rw [← hadds.helper?_eq] at hobject ⊢
    obtain ⟨ms, hms, hnodes⟩ := ih hgraph2 hobject h
    refine ⟨_, hadds.trans hms, ?_⟩
    have hdimensions : j + 1 + k = j + (k + 1) := by omega
    simpa [hdimensions] using hnodes

/-- The descriptor that is known for a type is that of the innermost type, and the type is none of an array. -/
theorem descriptorEntity_leaf (h : w.descriptorEntity t = some e) :
    w.descriptorEntity t.leaf = some e ∧ t.dimensions = 0 := by
  unfold descriptorEntity at h
  split at h
  · exact ⟨h, rfl⟩
  · exact ⟨h, rfl⟩
  · exact ⟨h, rfl⟩
  · cases h

theorem adds_classObject {n : Node} (hgraph : w.program.graphs[g]? = some graph) (h : Finishes (classObject g t) w n w') :
    ∃ e ns, w.descriptorEntity t.leaf = some e ∧ AddsTo g w w' ns ∧ ClassNodes (w.helper? .getArrayClass) e t.dimensions ns n := by
  have haddress : ∀ {e : EntityId} {n : Node} {w' : Workspace}, Finishes (onGraph g (Graph.address e)) w n w' →
      AddsTo g w w' [n] ∧ ClassNodes (w.helper? .getArrayClass) e 0 [n] n := by
    intro e n w' hn
    obtain ⟨rfl, hadds⟩ := adds_onGraph hgraph (graph.adds_add _) hn
    exact ⟨hadds, .descriptor rfl rfl⟩
  obtain ⟨known, _, hknown, h⟩ := finishes_bind_iff.1 h
  obtain ⟨rfl, rfl⟩ := (leads_descriptorOf (S := Addition) t).2 _ _ hknown
  split at h
  · next e he =>
    obtain ⟨hleaf, hdimensions⟩ := descriptorEntity_leaf he
    obtain ⟨hadds, hnodes⟩ := haddress h
    exact ⟨e, [n], hleaf, hadds, hdimensions ▸ hnodes⟩
  · dsimp only at h
    split_ifs at h with hlevels
    · obtain ⟨_, _, -, h⟩ := finishes_bind_iff.1 h
      exact absurd h (not_finishes_throw _)
    obtain ⟨leaf, _, hleaf, h⟩ := finishes_bind_iff.1 h
    obtain ⟨rfl, rfl⟩ := (leads_descriptorOf (S := Addition) t.leaf).2 _ _ hleaf
    split at h
    · obtain ⟨_, _, -, h⟩ := finishes_bind_iff.1 h
      exact absurd h (not_finishes_throw _)
    · next e he =>
      obtain ⟨cls, w1, hcls, h⟩ := finishes_bind_iff.1 h
      obtain ⟨hadds, hnodes⟩ := haddress hcls
      obtain ⟨graph1, hgraph1⟩ := hadds.exists_graph
      rw [← hadds.helper?_eq] at hnodes ⊢
      obtain ⟨ms, hms, hrest⟩ := adds_arrayClass hgraph1 hnodes h
      exact ⟨e, _, he, hadds.trans hms, Nat.zero_add t.dimensions ▸ hrest⟩

/-! ### Steps that succeed -/

/-- Whether a workspace has the given classes and session, and the body `g`. -/
def Offering (r : Registry) (s : Session) (g : GraphId) (w : Workspace) : Prop :=
  w.registry = r ∧ w.session = some s ∧ ∃ graph, w.program.graphs[g]? = some graph

/-- Whether a step succeeds in all such workspaces, and leads to such a one. -/
def Succeeds (r : Registry) (s : Session) (g : GraphId) (x : Action α) : Prop :=
  ∀ w, Offering r s g w → ∃ a w', Finishes x w a w' ∧ Offering r s g w'

variable {r : Registry} {s : Session} {β : Type}

theorem succeeds_pure (a : α) : Succeeds r s g (pure a) := fun w hw => ⟨a, w, finishes_pure, hw⟩

theorem Succeeds.bind {x : Action α} {f : α → Action β} (hx : Succeeds r s g x) (hf : ∀ a, Succeeds r s g (f a)) :
    Succeeds r s g (x >>= f) := by
  intro w hw
  obtain ⟨a, w1, ha, hw1⟩ := hx w hw
  obtain ⟨b, w2, hb, hw2⟩ := hf a w1 hw1
  exact ⟨b, w2, finishes_bind_iff.2 ⟨a, w1, ha, hb⟩, hw2⟩

theorem Succeeds.read {x : Action α} {f : α → Action β} {a : α} (hx : ∀ w, Offering r s g w → Finishes x w a w)
    (hf : Succeeds r s g (f a)) : Succeeds r s g (x >>= f) := by
  intro w hw
  obtain ⟨b, w', hb, hw'⟩ := hf w hw
  exact ⟨b, w', finishes_bind_iff.2 ⟨a, w, hx w hw, hb⟩, hw'⟩

theorem succeeds_onGraph (step : Graph.Builder α) : Succeeds r s g (onGraph g step) := by
  rintro w ⟨hr, hs, graph, hgraph⟩
  have hlt := (Array.getElem?_eq_some_iff.1 hgraph).1
  exact ⟨_, _, finishes_onGraph hgraph, hr, hs, _, Array.getElem?_setIfInBounds_self_of_lt hlt⟩

theorem succeeds_callHelper (hd : s.helper? x = some d) (args : List Node) : Succeeds r s g (callHelper g x args) := by
  have hread (w : Workspace) (hw : Offering r s g w) : Finishes (helper x) w d w :=
    finishes_helper_iff.2 ⟨by rw [helper?, hw.2.1, Option.bind_some, hd], rfl⟩
  exact .read hread (succeeds_onGraph _)

theorem succeeds_arrayClass (hd : s.helper? .getArrayClass = some d) (k : Nat) (cls : Node) :
    Succeeds r s g (arrayClass g k cls) := by
  induction k generalizing cls with
  | zero => exact succeeds_pure cls
  | succ k ih => exact (succeeds_onGraph _).bind fun _ => (succeeds_callHelper hd _).bind ih

theorem finishes_descriptorOf (hs : w.session = some s) (t : JavaType) :
    Finishes (descriptorOf t) w (w.descriptorEntity t) w := by
  match t with
  | .cls c | .pointer (.cls c) => exact finishes_bind_iff.2 ⟨_, w, finishes_registry, finishes_pure⟩
  | .primitive p =>
    refine finishes_bind_iff.2 ⟨s, w, finishes_session hs, finishes_pure_iff.2 ⟨?_, rfl⟩⟩
    rw [descriptorEntity, hs]
    rfl
  | .void | .pointer .void | .pointer (.primitive _) | .pointer (.pointer _) => exact finishes_pure

theorem succeeds_classObject (hd : s.helper? .getArrayClass = some d) (hw : Offering r s g w)
    (he : w.descriptorEntity t.leaf = some e) : Succeeds r s g (classObject g t) := by
  have hread (t : JavaType) (v : Workspace) (hv : Offering r s g v) : Finishes (descriptorOf t) v (w.descriptorEntity t) v := by
    have hsame : v.descriptorEntity t = w.descriptorEntity t := by
      unfold descriptorEntity
      rw [hv.1, hv.2.1, hw.1, hw.2.1]
    exact hsame ▸ finishes_descriptorOf hv.2.1 t
  refine .read (hread t) ?_
  cases hknown : w.descriptorEntity t with
  | some e' => exact succeeds_onGraph _
  | none =>
    have hlevels : t.levels ≠ 0 := by
      intro hlevels
      cases t <;> simp_all [JavaType.levels, JavaType.leaf]
    dsimp only
    rw [if_neg hlevels]
    refine .read (hread t.leaf) ?_
    rw [he]
    exact (succeeds_onGraph _).bind fun _ => succeeds_arrayClass hd t.dimensions _

end Abi

end ClassAbi
