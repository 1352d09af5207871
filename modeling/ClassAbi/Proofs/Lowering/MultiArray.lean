import ClassAbi.Lowering.Body
import ClassAbi.Proofs.Abi.Pool
import ClassAbi.Proofs.Lowering.Added

/-!
# The sizes of arrays of arrays

The runtime takes the sizes of an array of arrays from a buffer of 16-bit numbers. `writes` reads back from the nodes of a body
what is written to a buffer, and `sizes_of_multiNewArray` says that these are the given sizes, in order, reduced to 16 bits. So
sizes from 65536 on, which can be given, arrive changed.
-/

namespace ClassAbi

variable {e : EntityId} {type : Text}

namespace Lowering

def constant? (ns : List Node) (id : NodeId) : Option Int :=
  (ns.find? (·.id == id)).bind fun n => if n.op = .const then some n.value else none

/-- The number that is left of a constant after its conversion to 16 bits. -/
def shortened? (ns : List Node) (id : NodeId) : Option Int :=
  (ns.find? (·.id == id)).bind fun n =>
    if n.op = .conv ∧ n.mode = .uint16 then (n.args.head?.bind (constant? ns)).map (· % 0x10000) else none

/-- The position in a buffer to which a node writes, and the number that it writes there. -/
def write? (ns : List Node) (buffer : NodeId) (n : Node) : Option (Option Int × Option Int) :=
  match n.op, n.args with
  | .store, [addr, val] => (ns.find? (·.id == addr)).bind fun place =>
    if place.op = .sel ∧ place.args.head? = some buffer then some (place.args[1]?.bind (constant? ns), shortened? ns val) else none
  | _, _ => none

/-- All that the nodes write to a buffer, in their order. -/
def writes (ns : List Node) (buffer : NodeId) : List (Option Int × Option Int) := ns.filterMap (write? ns buffer)

/-- Whether nodes write the values of `sizes` to a buffer, from the position `i` on. -/
inductive Fills (buffer : Node) : Nat → List Node → List Node → Prop
  | nil (i : Nat) : Fills buffer i [] []
  | cons {i : Nat} {sizes ns : List Node} {size index place short store : Node} (hindex : index.op = .const ∧ index.value = i)
    (hplace : place.op = .sel ∧ place.args = [buffer.id, index.id])
    (hshort : short.op = .conv ∧ short.mode = .uint16 ∧ short.args = [size.id])
    (hstore : store.op = .store ∧ store.args = [place.id, short.id]) (h : Fills buffer (i + 1) sizes ns) :
    Fills buffer i (size :: sizes) (index :: place :: short :: store :: ns)

def IsSize (n : Int) (node : Node) : Prop := node.op = .const ∧ node.mode = .int32 ∧ node.value = n

variable {all ns sizes : List Node} {numbers : List Int} {buffer n : Node} {i : Nat}

theorem find?_id (hids : (all.map Node.id).Nodup) (hn : n ∈ all) : all.find? (·.id == n.id) = some n := by
  rw [List.find?_eq_some_iff_getElem]
  obtain ⟨i, hi, rfl⟩ := List.getElem_of_mem hn
  refine ⟨by simp, i, hi, rfl, fun j hj => ?_⟩
  have hne := List.pairwise_iff_getElem.1 hids j i (by simpa using hj.trans hi) (by simpa using hi) hj
  simpa using hne

theorem write?_eq_none (hop : n.op ≠ .store) (b : NodeId) : write? all b n = none := by
  unfold write?
  split
  · next h _ => exact absurd h hop
  · rfl

theorem Fills.filterMap_write? (h : Fills buffer i sizes ns) (hids : (all.map Node.id).Nodup) (hns : ∀ n ∈ ns, n ∈ all)
    (hsizes : ∀ n ∈ sizes, n ∈ all) (hnumbers : List.Forall₂ IsSize numbers sizes) :
    ns.filterMap (write? all buffer.id) = (numbers.zipIdx i).map fun x => (some (x.2 : Int), some (x.1 % 0x10000)) := by
  induction h generalizing numbers with
  | nil i =>
    cases hnumbers
    rfl
  | @cons i sizes ns size index place short store hindex hplace hshort hstore _ ih =>
    cases hnumbers with
    | @cons number _ numbers _ hnumber hnumbers =>
    simp only [List.forall_mem_cons] at hns hsizes
    obtain ⟨hindexMem, hplaceMem, hshortMem, -, hns⟩ := hns
    have hleft : write? all buffer.id store = some (some (i : Int), some (number % 0x10000)) := by
      simp [write?, constant?, shortened?, hstore, hplace, hshort, hindex, hnumber.1, hnumber.2.2, find?_id hids hindexMem,
        find?_id hids hplaceMem, find?_id hids hshortMem, find?_id hids hsizes.1]
    rw [List.filterMap_cons_none (write?_eq_none (by simp [hindex]) _), List.filterMap_cons_none (write?_eq_none (by simp [hplace]) _),
      List.filterMap_cons_none (write?_eq_none (by simp [hshort]) _), List.filterMap_cons_some hleft, ih hns hsizes.2 hnumbers]
    rfl

theorem IsSize.of_mem (h : List.Forall₂ IsSize numbers sizes) (hn : n ∈ sizes) : ∃ number, IsSize number n := by
  obtain ⟨i, hi, rfl⟩ := List.getElem_of_mem hn
  exact ⟨_, (List.forall₂_iff_get.1 h).2 i (h.length_eq ▸ hi) hi⟩

theorem writes_of_fills {before after : List Node} (h : Fills buffer 0 sizes ns) (hnumbers : List.Forall₂ IsSize numbers sizes)
    (hbefore : ∀ n ∈ before, n.op ≠ .store) (hafter : ∀ n ∈ after, n.op ≠ .store)
    (hids : ((sizes ++ (before ++ (ns ++ after))).map Node.id).Nodup) :
    writes (sizes ++ (before ++ (ns ++ after))) buffer.id =
      numbers.zipIdx.map fun x => (some (x.2 : Int), some (x.1 % 0x10000)) := by
  have hnil : ∀ {ms : List Node}, (∀ n ∈ ms, n.op ≠ .store) →
      ms.filterMap (write? (sizes ++ (before ++ (ns ++ after))) buffer.id) = [] := fun hms =>
    List.filterMap_eq_nil_iff.2 fun n hn => write?_eq_none (hms n hn) _
  have hsizes : ∀ n ∈ sizes, n.op ≠ .store := by
    intro n hn
    obtain ⟨_, hop, -⟩ := IsSize.of_mem hnumbers hn
    simp [hop]
  rw [writes, List.filterMap_append, List.filterMap_append, List.filterMap_append, hnil hsizes, hnil hbefore, hnil hafter,
    List.nil_append, List.nil_append, List.append_nil]
  exact h.filterMap_write? hids (by simp +contextual) (by simp +contextual) hnumbers

/-! ### The nodes of the operation -/

section

open ClassAbi.Abi ClassAbi.Action

variable {g : GraphId} {w w' : Workspace} {graph : Graph}

theorem adds_sizes (hgraph : w.program.graphs[g]? = some graph)
    (h : Finishes (numbers.mapM fun n => onGraph g (Graph.const .int32 n)) w sizes w') :
    AddsTo g w w' sizes ∧ List.Forall₂ IsSize numbers sizes := by
  induction numbers generalizing w graph sizes with
  | nil =>
    obtain ⟨rfl, rfl⟩ := finishes_mapM_nil_iff.1 h
    exact ⟨.refl hgraph, .nil⟩
  | cons number numbers ih =>
    obtain ⟨size, w1, rest, hsize, hrest, rfl⟩ := finishes_mapM_cons_iff.1 h
    obtain ⟨rfl, hadds⟩ := adds_onGraph hgraph (graph.adds_add _) hsize
    obtain ⟨graph1, hgraph1⟩ := hadds.exists_graph
    obtain ⟨hadds', hnumbers⟩ := ih hgraph1 hrest
    exact ⟨hadds.trans hadds', .cons ⟨rfl, rfl, rfl⟩ hnumbers⟩

theorem adds_storeSizes (hgraph : w.program.graphs[g]? = some graph) (hsizes : ∀ n ∈ sizes, n.mode = .int32)
    (h : Finishes (storeSizes g buffer i sizes) w () w') : ∃ ns, AddsTo g w w' ns ∧ Fills buffer i sizes ns := by
  induction sizes generalizing i w graph with
  | nil =>
    obtain ⟨-, rfl⟩ := finishes_pure_iff.1 h
    exact ⟨[], .refl hgraph, .nil i⟩
  | cons size sizes ih =>
    rw [List.forall_mem_cons] at hsizes
    obtain ⟨_, w1, hstep, h⟩ := finishes_bind_iff.1 h
    -- The size has 32 bits, so that its conversion is a node.
    have hmode : size.mode ≠ .uint16 := by rw [hsizes.1]; decide
    simp only [Graph.conv, if_neg hmode] at hstep
    have hadds := (graph.adds_add { op := .const, mode := .int32, value := i }).trans ((Graph.adds_add _
      { op := .sel, mode := .pointer, type := some Mode.uint16.typeId, args := [buffer.id, graph.numbered + 1] }).trans
      ((Graph.adds_add _ { op := .conv, mode := .uint16, args := [size.id] }).trans (Graph.adds_effect _
        { op := .store, mode := .void, type := some Mode.uint16.typeId, args := [graph.numbered + 2, graph.numbered + 3] })))
    obtain ⟨-, hadds⟩ := adds_onGraph hgraph hadds hstep
    obtain ⟨graph1, hgraph1⟩ := hadds.exists_graph
    obtain ⟨ns, hns, hfills⟩ := ih hgraph1 hsizes.2 h
    exact ⟨_, hadds.trans hns, .cons ⟨rfl, rfl⟩ ⟨rfl, rfl⟩ ⟨rfl, rfl, rfl⟩ ⟨rfl, rfl⟩ hfills⟩

theorem adds_newType {shape : Shape} {t : TypeId} (hgraph : w.program.graphs[g]? = some graph)
    (h : Finishes (newType shape) w t w') : AddsTo g w w' [] ∧ w'.program.types.shape? t = some shape := by
  obtain ⟨rfl, rfl⟩ := finishes_newType_iff.1 h
  exact ⟨⟨rfl, rfl, (w.grown_addType shape).types, graph, graph, hgraph, hgraph, .refl graph⟩, w.program.types.shape?_push shape⟩

theorem nodup_ids (h : AddsTo g w w' ns) : (ns.map Node.id).Nodup := by
  obtain ⟨graph, _, -, -, hadds⟩ := h.graph
  rw [hadds.ids]
  exact List.nodup_range'

theorem op_ne_store_of_classNodes {helper : Option DeclaredHelper} {k : Nat} {cls : Node}
    (h : ClassNodes helper e k ns cls) : ∀ n ∈ ns, n.op ≠ .store := by
  induction h with
  | descriptor hop _ => simp [hop]
  | array _ hnull _ hcall ih => simpa [or_imp, forall_and, hnull, hcall.callee_op, hcall.op] using ih

/-- Whether nodes pass sizes to the runtime: they make the object of the class of `t` and write what is left of the sizes to a
buffer, and `call` gets this object, the number of sizes and the buffer. -/
structure PassesSizes (w w' : Workspace) (t : JavaType) (numbers : List Int) (ns : List Node) (buffer call : Node) : Prop where
  buffer_mem : buffer ∈ ns
  buffer_op : buffer.op = .alloc
  buffer_value : buffer.value = numbers.length
  buffer_type : ∃ array, buffer.type = some array ∧
    w'.program.types.shape? array = some (.array (some Mode.uint16.typeId) numbers.length)
  writes_eq : writes ns buffer.id = numbers.zipIdx.map fun x => (some (x.2 : Int), some (x.1 % 0x10000))
  call : ∃ e ks cls count d callee, w.descriptorEntity t.leaf = some e ∧ ks <:+: ns ∧
    ClassNodes (w.helper? .getArrayClass) e t.dimensions ks cls ∧ IsSize numbers.length count ∧ count ∈ ns ∧
    w.helper? .newMultiArray = some d ∧ CallsHelper d [cls, count, buffer] callee call ∧ [callee, call] <:+ ns

theorem passesSizes_of_newMultiArray {w0 : Workspace} {t : JavaType} {call : Node} (hbefore : AddsTo g w0 w sizes)
    (hnumbers : List.Forall₂ IsSize numbers sizes) (h : Finishes (newMultiArray g t sizes) w call w') :
    ∃ ns buffer, AddsTo g w0 w' ns ∧ PassesSizes w0 w' t numbers ns buffer call := by
  obtain ⟨graph, hgraph⟩ := hbefore.exists_graph
  have hlength : sizes.length = numbers.length := hnumbers.length_eq.symm
  rw [newMultiArray] at h
  split_ifs at h
  · exact absurd h (not_finishes_throw _)
  simp only [finishes_bind_iff] at h
  obtain ⟨cls, w1, hcls, array, w2, harray, buffer, w3, hbuffer, _, w4, hfill, count, w5, hcount, hcall⟩ := h
  obtain ⟨e, ks, he, hadds1, hks⟩ := adds_classObject hgraph hcls
  obtain ⟨graph1, hgraph1⟩ := hadds1.exists_graph
  obtain ⟨hadds2, hshape⟩ := adds_newType hgraph1 harray
  obtain ⟨graph2, hgraph2⟩ := hadds2.exists_graph
  obtain ⟨hbufferEq, hadds3⟩ := adds_onGraph hgraph2 (graph2.adds_effect _) hbuffer
  rw [← hbufferEq] at hadds3
  obtain ⟨graph3, hgraph3⟩ := hadds3.exists_graph
  have hmodes : ∀ n ∈ sizes, n.mode = .int32 := fun n hn => (IsSize.of_mem hnumbers hn).elim fun _ h => h.2.1
  obtain ⟨fs, hadds4, hfills⟩ := adds_storeSizes hgraph3 hmodes hfill
  obtain ⟨graph4, hgraph4⟩ := hadds4.exists_graph
  obtain ⟨hcountEq, hadds5⟩ := adds_onGraph hgraph4 (graph4.adds_add _) hcount
  rw [← hcountEq] at hadds5
  obtain ⟨graph5, hgraph5⟩ := hadds5.exists_graph
  obtain ⟨d, callee, hd, hadds6, hcalls⟩ := adds_callHelper hgraph5 hcall
  have hafter := hadds3.trans (hadds4.trans hadds5)
  have hadds : AddsTo g w0 w' (sizes ++ ((ks ++ [buffer]) ++ (fs ++ [count, callee, call]))) := by
    simpa using hbefore.trans (hadds1.trans (hadds2.trans (hafter.trans hadds6)))
  rw [hafter.helper?_eq, hadds2.helper?_eq, hadds1.helper?_eq, hbefore.helper?_eq] at hd
  rw [hbefore.helper?_eq] at hks
  rw [hbefore.descriptorEntity_eq] at he
  have hcountOp : count.op = .const := by rw [hcountEq]; rfl
  have hbufferOp : buffer.op = .alloc := by rw [hbufferEq]; rfl
  refine ⟨_, buffer, hadds, by simp, hbufferOp, ?_, ⟨array, ?_, ?_⟩, ?_, ?_⟩
  · rw [hbufferEq, ← hlength]
    rfl
  · rw [hbufferEq]
    rfl
  · rw [← hlength]
    exact hadds6.types _ _ (hafter.types _ _ hshape)
  · refine writes_of_fills hfills hnumbers ?_ ?_ (nodup_ids hadds)
    · simpa [or_imp, forall_and, hbufferOp] using op_ne_store_of_classNodes hks
    · simp [hcountOp, hcalls.callee_op, hcalls.op]
  · refine ⟨e, ks, cls, count, d, callee, he, ⟨sizes, [buffer] ++ (fs ++ [count, callee, call]), by simp⟩, hks,
      ⟨hcountOp, ?_, ?_⟩, by simp, hd, hcalls, ⟨sizes ++ ((ks ++ [buffer]) ++ (fs ++ [count])), by simp⟩⟩
    · rw [hcountEq]
      rfl
    · rw [hcountEq, ← hlength]
      rfl

theorem passesSizes_of_lower {r : Option Node} (hgraph : w.program.graphs[g]? = some graph)
    (h : Finishes (lower g e (.multiNewArray type numbers)) w r w') :
    ∃ t ns buffer call, w.registry.typeNamed type = .ok t ∧ r = some call ∧ AddsTo g w w' ns ∧
      PassesSizes w w' t numbers ns buffer call := by
  obtain ⟨_, _, hregistry, h⟩ := finishes_bind_iff.1 h
  obtain ⟨rfl, rfl⟩ := finishes_registry_iff.1 hregistry
  obtain ⟨t, _, hread, h⟩ := finishes_bind_iff.1 h
  obtain ⟨ht, rfl⟩ := finishes_ofExcept_iff.1 hread
  dsimp only at h
  split_ifs at h
  · exact absurd h (not_finishes_throw _)
  obtain ⟨sizes, w1, hsizes, h⟩ := finishes_bind_iff.1 h
  obtain ⟨hadds, hnumbers⟩ := adds_sizes hgraph hsizes
  rw [map_eq_pure_bind, finishes_bind_iff] at h
  obtain ⟨call, _, hcall, h⟩ := h
  obtain ⟨rfl, rfl⟩ := finishes_pure_iff.1 h
  obtain ⟨ns, buffer, hns, hpasses⟩ := passesSizes_of_newMultiArray hadds hnumbers hcall
  exact ⟨t, ns, buffer, call, ht, rfl, hns, hpasses⟩

end

/-! ### The sizes that can be given -/

theorem Operation.size_nonneg {word : Text} {n : Int} (h : size word = .ok n) : 0 ≤ n := by
  unfold size at h
  split at h
  · split_ifs at h with hneg
    cases h
    exact Int.not_lt.1 hneg
  · cases h

theorem Operation.sizes_nonneg {text : Text} (h : ofText text = .ok (.multiNewArray type numbers)) :
    ∀ n ∈ numbers, 0 ≤ n := by
  have hunary : ∀ {mnemonic : Text} {f : Text → Operation} {args : List Text}, (∀ t, f t ≠ .multiNewArray type numbers) →
      unary mnemonic f args ≠ .ok (.multiNewArray type numbers) := by
    intro mnemonic f args hf hunary
    unfold unary at hunary
    split at hunary
    · exact hf _ (Except.ok.inj hunary)
    · cases hunary
  unfold ofText at h
  dsimp only at h
  split_ifs at h
  · split at h <;> cases h
  · unfold ofOperands at h
    split_ifs at h
    iterate 4 · exact absurd h (hunary fun _ hop => by cases hop)
    · split at h
      · obtain ⟨_, -, h⟩ := bind_eq_ok_iff.1 h
        cases h
      · cases h
    · split at h
      · obtain ⟨_, hsizes, h⟩ := bind_eq_ok_iff.1 h
        cases h
        intro n hn
        obtain ⟨i, hi, rfl⟩ := List.getElem_of_mem hn
        have hread := mapM_eq_ok_iff.1 hsizes
        exact size_nonneg ((List.forall₂_iff_get.1 hread).2 i (hread.length_eq ▸ hi) hi)
      · cases h
    · split at h <;> cases h
    · split at h <;> cases h

/-! ### Bodies with such an operation -/

section

open ClassAbi.Abi ClassAbi.Action

variable {r : Registry} {s : Session} {g : GraphId} {w : Workspace} {graph : Graph}

theorem succeeds_storeSizes (buffer : Node) (i : Nat) (sizes : List Node) : Succeeds r s g (storeSizes g buffer i sizes) := by
  induction sizes generalizing i with
  | nil => exact succeeds_pure ()
  | cons size sizes ih => exact (succeeds_onGraph _).bind fun _ => ih (i + 1)

theorem succeeds_newType (shape : Shape) : Succeeds r s g (newType shape) :=
  fun _ hw => ⟨_, _, finishes_newType_iff.2 ⟨rfl, rfl⟩, hw⟩

theorem succeeds_sizes (numbers : List Int) : Succeeds r s g (numbers.mapM fun n => onGraph g (Graph.const .int32 n)) := by
  induction numbers with
  | nil => exact succeeds_pure []
  | cons n numbers ih =>
    rw [List.mapM_cons]
    exact (succeeds_onGraph _).bind fun _ => ih.bind fun _ => succeeds_pure _

theorem exists_lower_multiNewArray {t : JavaType} {d d' : DeclaredHelper} (e' : EntityId) (hs : w.session = some s)
    (hd : s.helper? .getArrayClass = some d) (hd' : s.helper? .newMultiArray = some d')
    (hgraph : w.program.graphs[g]? = some graph) (ht : w.registry.typeNamed type = .ok t) (hne : numbers ≠ [])
    (hdimensions : numbers.length ≤ t.dimensions) (he : w.descriptorEntity t.leaf = some e) :
    ∃ r w', Finishes (lower g e' (.multiNewArray type numbers)) w r w' := by
  have hw : Offering w.registry s g w := ⟨rfl, hs, graph, hgraph⟩
  have hnew (sizes : List Node) (hsizes : sizes ≠ []) : Succeeds w.registry s g (newMultiArray g t sizes) := by
    rw [newMultiArray, if_neg (by simpa using hsizes)]
    refine (succeeds_classObject hd hw he).bind fun _ => (succeeds_newType _).bind fun _ => (succeeds_onGraph _).bind fun _ => ?_
    exact (succeeds_storeSizes _ _ _).bind fun _ => (succeeds_onGraph _).bind fun _ => succeeds_callHelper hd' _
  obtain ⟨sizes, w1, hsizes, hw1⟩ := succeeds_sizes numbers w hw
  obtain ⟨-, hnumbers⟩ := adds_sizes hgraph hsizes
  have hsizesNe : sizes ≠ [] := by
    rintro rfl
    exact hne (List.forall₂_nil_right_iff.1 hnumbers)
  obtain ⟨call, w', hcall, -⟩ := hnew sizes hsizesNe w1 hw1
  refine ⟨some call, w', finishes_bind_iff.2 ⟨_, w, finishes_registry, ?_⟩⟩
  refine finishes_bind_iff.2 ⟨t, w, finishes_ofExcept_iff.2 ⟨ht, rfl⟩, ?_⟩
  dsimp only
  rw [if_neg (Nat.not_lt.2 hdimensions)]
  refine finishes_bind_iff.2 ⟨sizes, w1, hsizes, ?_⟩
  rw [map_eq_pure_bind]
  exact finishes_bind_iff.2 ⟨call, w', hcall, finishes_pure⟩

/-- In a session in which only the root class is known, an empty body can be given arrays of arrays of integers. -/
theorem exists_lower_root (hne : numbers ≠ []) (hlength : numbers.length ≤ 2) : ∃ w0 w g graph r w',
    Finishes (start false) rootWithName () w0 ∧ Finishes (onProgram (·.addGraph none)) w0 g w ∧
    w.program.graphs[g]? = some graph ∧ Finishes (lower g 0 (.multiNewArray "[[I" numbers)) w r w' := by
  obtain ⟨-, -, w0, hstart⟩ := exists_start_rootWithName
  obtain ⟨-, -, s, hbegun⟩ := begun_of_start (Workspace.linked_empty _) hstart
  obtain ⟨d, hd, -⟩ := hbegun.helper .getArrayClass
  obtain ⟨d', hd', -⟩ := hbegun.helper .newMultiArray
  obtain ⟨e, he, -⟩ := hbegun.primitive .int
  have hgraph : (w0.program.addGraph none).2.graphs[w0.program.graphs.size]? = some { entity := none } := Array.getElem?_push_size
  have ht : w0.registry.typeNamed "[[I" = .ok (.pointer (.pointer (.primitive .int))) := by cbv
  have hentity : w0.descriptorEntity (.primitive .int) = some e := by
    rw [Workspace.descriptorEntity, hbegun.session, Option.bind_some, he]
  obtain ⟨r, w', hrun⟩ := exists_lower_multiNewArray (w := { w0 with program := (w0.program.addGraph none).2 }) 0
    hbegun.session hd hd' hgraph ht hne hlength hentity
  exact ⟨w0, _, _, _, r, w', hstart, finishes_onProgram_iff.2 ⟨rfl, rfl⟩, hgraph, hrun⟩

/-- An array of arrays whose type and sizes can be read is made from the sizes in 16 bits, which are the given ones if and only
if these are below 65536. -/
theorem sizes_of_multiNewArray {w' : Workspace} {text type : Text} {e : EntityId} {r : Option Node}
    (hread : Operation.ofText text = .ok (.multiNewArray type numbers))
    (hgraph : w.program.graphs[g]? = some graph) (h : Finishes (lower g e (.multiNewArray type numbers)) w r w') :
    ∃ t ns buffer call, w.registry.typeNamed type = .ok t ∧ r = some call ∧ AddsTo g w w' ns ∧
      PassesSizes w w' t numbers ns buffer call ∧
      (writes ns buffer.id = numbers.zipIdx.map (fun x => (some (x.2 : Int), some x.1)) ↔ ∀ n ∈ numbers, n < 0x10000) := by
  obtain ⟨t, ns, buffer, call, ht, hr, hns, hpasses⟩ := passesSizes_of_lower hgraph h
  refine ⟨t, ns, buffer, call, ht, hr, hns, hpasses, ?_⟩
  have hnonneg := Operation.sizes_nonneg hread
  rw [hpasses.writes_eq, List.map_inj_left]
  constructor
  · intro hsame n hn
    obtain ⟨i, hi, rfl⟩ := List.getElem_of_mem hn
    have hleft : numbers[i] % 0x10000 = numbers[i] := by
      simpa using hsame (numbers[i], i) (List.mem_zipIdx_iff_getElem?.2 (List.getElem?_eq_getElem hi))
    omega
  · rintro hsmall ⟨n, i⟩ hn
    have hmem : n ∈ numbers := List.mem_of_getElem? (List.mem_zipIdx_iff_getElem?.1 hn)
    have hleft : n % 0x10000 = n := Int.emod_eq_of_lt (hnonneg n hmem) (hsmall n hmem)
    simp [hleft]

theorem sizes_of_multiNewArray_two : Operation.ofText "multianewarray [[I 65535 2" = .ok (.multiNewArray "[[I" [65535, 2]) ∧
    ∃ w g graph r w' t ns buffer call, w.program.graphs[g]? = some graph ∧
      Finishes (lower g 0 (.multiNewArray "[[I" [65535, 2])) w r w' ∧ AddsTo g w w' ns ∧
      PassesSizes w w' t [65535, 2] ns buffer call ∧ writes ns buffer.id = [(some 0, some 65535), (some 1, some 2)] := by
  have hread : Operation.ofText "multianewarray [[I 65535 2" = .ok (.multiNewArray "[[I" [65535, 2]) := by cbv
  obtain ⟨_, w, g, graph, r, w', -, -, hgraph, hrun⟩ := exists_lower_root (List.cons_ne_nil 65535 [2]) le_rfl
  obtain ⟨t, ns, buffer, call, -, -, hns, hpasses, hwrites⟩ := sizes_of_multiNewArray hread hgraph hrun
  exact ⟨hread, w, g, graph, r, w', t, ns, buffer, call, hgraph, hrun, hns, hpasses, hwrites.2 (by simp)⟩

/-- A size of 70000 can be given, but another one is passed to the runtime. -/
theorem size_passed_changed : Operation.ofText "multianewarray [[I 70000" = .ok (.multiNewArray "[[I" [70000]) ∧
    ∃ w0 w g r w' t ns buffer call, Finishes (start false) rootWithName () w0 ∧ Finishes (onProgram (·.addGraph none)) w0 g w ∧
      Finishes (lower g 0 (.multiNewArray "[[I" [70000])) w r w' ∧ AddsTo g w w' ns ∧
      PassesSizes w w' t [70000] ns buffer call ∧ writes ns buffer.id = [(some 0, some 4464)] := by
  obtain ⟨w0, w, g, graph, r, w', hstart, hbody, hgraph, hrun⟩ := exists_lower_root (List.cons_ne_nil 70000 []) (by decide)
  obtain ⟨t, ns, buffer, call, -, -, hns, hpasses⟩ := passesSizes_of_lower hgraph hrun
  exact ⟨by cbv, w0, w, g, r, w', t, ns, buffer, call, hstart, hbody, hrun, hns, hpasses, hpasses.writes_eq⟩

end

end Lowering

end ClassAbi
