import ClassAbi.Graph.Basic
import Mathlib.Data.List.Chain

/-!
# The memory chain

The nodes of a graph stand in the order in which they were made, while the memory chain is followed backwards, from each node
with an effect to the one before it. The operations that build graphs keep both in agreement (`threaded_of_drafts`): `Drafted`
says what one of them does, and every invariant is kept by such steps.
-/

namespace ClassAbi.Graph

/-- A request for one of the operations that build graphs. -/
inductive Draft where
  | param (i : Int) (mode : Mode)
  | const (mode : Mode) (v : Int)
  | null
  | address (e : Option EntityId)
  | sum (left right : Node)
  | call (callee : Node) (type : TypeId) (mode : Mode) (args : List Node)
  | load (addr : Node) (mode : Mode)
  | store (addr val : Node)
  | alloc (type : TypeId) (count : Int)
  | member (ptr : Node) (name : Text) (offset : Int)
  | sel (ptr index : Node) (elem : Option TypeId)
  | conv (v : Node) (mode : Mode)
  | cmp (left right : Node) (relation : Relation)
  | vptrIsSet (ptr : Node) (cls : Text) (vptr : Option Node)
  | ret (v : Option Node)

namespace Draft

/-- Runs the operation. The one that sets the result gives no node. -/
def draw : Draft → Builder (Option Node)
  | param i mode => some <$> Graph.param i mode
  | const mode v => some <$> Graph.const mode v
  | null => some <$> Graph.null
  | address e => some <$> Graph.address e
  | sum left right => some <$> Graph.sum left right
  | call callee type mode args => some <$> Graph.call callee type mode args
  | load addr mode => some <$> Graph.load addr mode
  | store addr val => some <$> Graph.store addr val
  | alloc type count => some <$> Graph.alloc type count
  | member ptr name offset => some <$> Graph.member ptr name offset
  | sel ptr index elem => some <$> Graph.sel ptr index elem
  | conv v mode => some <$> Graph.conv v mode
  | cmp left right relation => some <$> Graph.cmp left right relation
  | vptrIsSet ptr cls vptr => some <$> Graph.vptrIsSet ptr cls vptr
  | ret v => (fun _ => none) <$> Graph.ret v

def operands : Draft → List Node
  | param .. | const .. | null | address _ | alloc .. => []
  | load a _ | member a .. | conv a _ => [a]
  | sum a b | store a b | sel a b _ | cmp a b _ => [a, b]
  | call callee _ _ args => callee :: args
  | vptrIsSet ptr _ vptr => ptr :: vptr.toList
  | ret v => v.toList

end Draft

/-- The nodes that operations on a fresh graph give, one after the other, and the graph that they leave. -/
def after (e : Option EntityId) (ds : List Draft) : List Node × Graph :=
  ds.foldl (fun s d => (s.1 ++ (d.draw s.2).1.toList, (d.draw s.2).2)) ([], { entity := e })

/-- Whether every operation is given nodes only that earlier ones gave. -/
inductive OwnOperands (e : Option EntityId) : List Draft → Prop
  | nil : OwnOperands e []
  | snoc {ds : List Draft} {d : Draft} (h : OwnOperands e ds) (hd : ∀ n ∈ d.operands, n ∈ (after e ds).1) :
    OwnOperands e (ds ++ [d])

/-- The nodes with an effect, in the order in which they were made. -/
def effects (g : Graph) : List Node := g.nodes.toList.filter (·.op.hasEffect)

/-- Whether a graph is numbered in order, has each parameter once, and its memory chain is the sequence of its effects. -/
structure Threaded (g : Graph) : Prop where
  id_eq : ∀ i n, g.nodes[i]? = some n → n.id = i + 1
  param_unique : ∀ m ∈ g.nodes, ∀ n ∈ g.nodes, m.op = .param → n.op = .param → m.value = n.value → m = n
  mem_eq : g.mem = g.effects.getLast?.map Node.id
  chain_eq : g.memoryChain = g.effects.map Node.id

/-- Whether the arguments of every node stand before it. -/
def ArgsPrecede (g : Graph) : Prop :=
  ∀ (i : Nat) (n : Node), g.nodes[i]? = some n → ∀ id ∈ n.args, ∃ j < i, ∃ a : Node, g.nodes[j]? = some a ∧ a.id = id

/-! ### One operation -/

/-- What an operation on `operands` does to a graph, and the node that it gives. -/
inductive Drafted (g : Graph) (operands : List Node) : Option Node → Graph → Prop
  | known {r : Option Node} (result : Option NodeId) (returns : Bool) (hr : ∀ n ∈ r, n ∈ operands ∨ ∃ i, (i, n) ∈ g.params) :
    Drafted g operands r { g with result, returns }
  | plain {n : Node} (hid : n.id = g.numbered + 1) (hargs : n.args ⊆ operands.map Node.id) (heffect : n.op.hasEffect = false)
    (hparam : n.op ≠ .param) : Drafted g operands (some n) { g with nodes := g.nodes.push n, numbered := g.numbered + 1 }
  | param {n : Node} (hid : n.id = g.numbered + 1) (hargs : n.args = []) (hop : n.op = .param)
    (hnew : g.params.lookup n.value = none) :
    Drafted g operands (some n)
      { g with nodes := g.nodes.push n, numbered := g.numbered + 1, params := (n.value, n) :: g.params }
  | effect {n : Node} (hid : n.id = g.numbered + 1) (hargs : n.args ⊆ operands.map Node.id) (heffect : n.op.hasEffect = true)
    (hmem : n.mem = g.mem) :
    Drafted g operands (some n) { g with nodes := g.nodes.push n, numbered := g.numbered + 1, mem := some n.id }

variable {g g' : Graph} {operands : List Node} {r : Option Node}

theorem param_of_known {g : Graph} {i : Int} {n : Node} (mode : Mode) (h : g.params.lookup i = some n) :
    param i mode g = (n, g) := by
  simp only [param, bind, StateT.bind, get, getThe, MonadStateOf.get, StateT.get, pure, h]
  rfl

theorem param_of_new {g : Graph} {i : Int} (mode : Mode) (h : g.params.lookup i = none) :
    param i mode g = ((add { op := .param, mode, value := i } g).1,
      { (add { op := .param, mode, value := i } g).2 with
        params := (i, (add { op := .param, mode, value := i } g).1) :: g.params }) := by
  simp only [param, bind, StateT.bind, get, getThe, MonadStateOf.get, StateT.get, pure, h]
  rfl

theorem drafted_param (g : Graph) (i : Int) (mode : Mode) :
    Drafted g [] (some (param i mode g).1) (param i mode g).2 := by
  cases hlookup : g.params.lookup i with
  | some n =>
    rw [param_of_known mode hlookup]
    obtain ⟨before, after, heq, -⟩ := List.lookup_eq_some_iff.1 hlookup
    exact .known g.result g.returns fun m hm => .inr ⟨i, by simp_all⟩
  | none =>
    rw [param_of_new mode hlookup]
    exact .param (n := { id := g.numbered + 1, op := .param, mode, value := i }) rfl rfl rfl hlookup

theorem drafted_conv (g : Graph) (v : Node) (mode : Mode) : Drafted g [v] (some (conv v mode g).1) (conv v mode g).2 := by
  rw [conv]
  split_ifs
  · exact .known g.result g.returns fun n hn => .inl (List.mem_singleton.2 (Option.some.inj hn).symm)
  · exact .plain rfl (List.Subset.refl _) rfl (by simp [add])

theorem drafted_draw (d : Draft) (g : Graph) : Drafted g d.operands (d.draw g).1 (d.draw g).2 := by
  cases d with
  | param i mode => exact drafted_param g i mode
  | conv v mode => exact drafted_conv g v mode
  | ret v => exact .known (v.map Node.id) true fun n hn => by cases hn
  | const | null | address | sum | member | sel | cmp => exact .plain rfl (List.Subset.refl _) rfl (by simp)
  | call | load | store | alloc => exact .effect rfl (List.Subset.refl _) rfl rfl
  | vptrIsSet ptr cls vptr => exact .effect rfl (by cases vptr <;> exact List.Subset.refl _) rfl rfl

/-! ### All operations -/

/-- Whether each node takes the one before it as its memory state. -/
inductive Chained : List Node → Prop
  | nil : Chained []
  | snoc {ns : List Node} {n : Node} (h : Chained ns) (hn : n.mem = ns.getLast?.map Node.id) : Chained (ns ++ [n])

/-- What every operation keeps. -/
structure Ready (g : Graph) : Prop where
  numbered : g.numbered = g.nodes.size
  id_eq : ∀ i n, g.nodes[i]? = some n → n.id = i + 1
  lookup_eq : ∀ n ∈ g.nodes, n.op = .param → g.params.lookup n.value = some n
  param_mem : ∀ x ∈ g.params, x.2 ∈ g.nodes
  chained : Chained g.effects
  mem_eq : g.mem = g.effects.getLast?.map Node.id

theorem ready_empty (e : Option EntityId) : Ready { entity := e } where
  numbered := rfl
  id_eq := by simp
  lookup_eq := by simp
  param_mem := by simp
  chained := .nil
  mem_eq := rfl

theorem effects_push (g : Graph) (n : Node) (numbered : Nat) (mem : Option NodeId) (params : List (Int × Node)) :
    effects { g with nodes := g.nodes.push n, numbered, mem, params } =
      g.effects ++ if n.op.hasEffect then [n] else [] := by
  simp [effects, List.filter_append, List.filter_cons]

theorem Ready.id_push (h : g.Ready) {n : Node} (hid : n.id = g.numbered + 1) :
    ∀ i m, (g.nodes.push n)[i]? = some m → m.id = i + 1 := by
  intro i m hm
  rw [Array.getElem?_push] at hm
  split_ifs at hm with hi
  · cases hm
    rw [hid, h.numbered, hi]
  · exact h.id_eq i m hm

theorem Ready.step (h : g.Ready) (hstep : Drafted g operands r g') : g'.Ready := by
  cases hstep with
  | known result returns hr => exact ⟨h.numbered, h.id_eq, h.lookup_eq, h.param_mem, h.chained, h.mem_eq⟩
  | @plain n hid _ heffect hparam =>
    refine ⟨by simp [h.numbered], h.id_push hid, fun m hm hop => ?_, fun x hx => Array.mem_push_of_mem n (h.param_mem x hx), ?_, ?_⟩
    · rcases Array.mem_push.1 hm with hm | rfl
      · exact h.lookup_eq m hm hop
      · exact absurd hop hparam
    all_goals rw [effects_push, if_neg (by simp [heffect]), List.append_nil]
    · exact h.chained
    · exact h.mem_eq
  | @param n hid _ hop hnew =>
    refine ⟨by simp [h.numbered], h.id_push hid, fun m hm hm' => ?_, fun x hx => ?_, ?_, ?_⟩
    · rcases Array.mem_push.1 hm with hm | rfl
      · -- The position of the new parameter was not in use.
        have hne : m.value ≠ n.value := by
          intro heq
          have hm := h.lookup_eq m hm hm'
          rw [heq, hnew] at hm
          cases hm
        rw [List.lookup_cons, beq_eq_false_iff_ne.2 hne]
        exact h.lookup_eq m hm hm'
      · simp
    · rcases List.mem_cons.1 hx with rfl | hx
      · exact Array.mem_push_self
      · exact Array.mem_push_of_mem n (h.param_mem x hx)
    all_goals rw [effects_push, if_neg (by simp [hop, Op.hasEffect]), List.append_nil]
    · exact h.chained
    · exact h.mem_eq
  | @effect n hid _ heffect hmem =>
    refine ⟨by simp [h.numbered], h.id_push hid, fun m hm hop => ?_, fun x hx => Array.mem_push_of_mem n (h.param_mem x hx), ?_, ?_⟩
    · rcases Array.mem_push.1 hm with hm | rfl
      · exact h.lookup_eq m hm hop
      · rw [hop] at heffect
        cases heffect
    all_goals rw [effects_push, if_pos heffect]
    · exact .snoc h.chained (hmem.trans h.mem_eq)
    · simp

theorem after_concat (e : Option EntityId) (ds : List Draft) (d : Draft) :
    after e (ds ++ [d]) = ((after e ds).1 ++ (d.draw (after e ds).2).1.toList, (d.draw (after e ds).2).2) := by
  rw [after, List.foldl_concat]
  rfl

theorem ready_after (e : Option EntityId) (ds : List Draft) : (after e ds).2.Ready := by
  induction ds using List.reverseRecOn with
  | nil => exact ready_empty e
  | append_singleton ds d ih =>
    rw [after_concat]
    exact ih.step (drafted_draw d _)

/-! ### The chain -/

theorem node?_of_ids (h : ∀ i n, g.nodes[i]? = some n → n.id = i + 1) {n : Node} (hn : n ∈ g.nodes) : g.node? n.id = some n := by
  obtain ⟨i, hi⟩ := Array.mem_iff_getElem?.1 hn
  have hid := h i n hi
  rw [node?, hid, Nat.add_sub_cancel, hi]
  simp [hid]

theorem Ready.statesFrom_eq (h : g.Ready) {ns : List Node} (hns : Chained ns) (hmem : ∀ n ∈ ns, n ∈ g.nodes) {limit : Nat}
    (hlimit : ns.length ≤ limit) : g.statesFrom limit (ns.getLast?.map Node.id) = (ns.map Node.id).reverse := by
  induction hns generalizing limit with
  | nil => cases limit <;> rfl
  | @snoc ns n _ hn ih =>
    rw [List.length_append, List.length_singleton] at hlimit
    obtain ⟨limit, rfl⟩ := Nat.exists_eq_add_of_le' (Nat.le_of_add_left_le hlimit)
    rw [List.getLast?_concat, Option.map_some, statesFrom, node?_of_ids h.id_eq (hmem n (by simp)), Option.bind_some, hn,
      ih (fun m hm => hmem m (List.mem_append_left _ hm)) (by omega)]
    simp

theorem Ready.threaded (h : g.Ready) : g.Threaded where
  id_eq := h.id_eq
  param_unique m hm n hn hop hop' hvalue := by
    have heq := h.lookup_eq n hn hop'
    rw [← hvalue, h.lookup_eq m hm hop] at heq
    exact Option.some.inj heq
  mem_eq := h.mem_eq
  chain_eq := by
    have hmem : ∀ n ∈ g.effects, n ∈ g.nodes := fun n hn => Array.mem_toList_iff.1 (List.mem_filter.1 hn).1
    have hlimit : g.effects.length ≤ g.nodes.size := List.length_filter_le ..
    rw [memoryChain, h.mem_eq, h.statesFrom_eq h.chained hmem hlimit, List.reverse_reverse]

/-! ### Arguments -/

theorem ArgsPrecede.push (h : g.ArgsPrecede) {n : Node} (hargs : n.args ⊆ operands.map Node.id)
    (hown : ∀ a ∈ operands, a ∈ g.nodes) (i : Nat) (m : Node) (hm : (g.nodes.push n)[i]? = some m) :
    ∀ id ∈ m.args, ∃ j < i, ∃ a : Node, (g.nodes.push n)[j]? = some a ∧ a.id = id := by
  have hold : ∀ j a, g.nodes[j]? = some a → j < g.nodes.size ∧ (g.nodes.push n)[j]? = some a := by
    intro j a ha
    have hj := (Array.getElem?_eq_some_iff.1 ha).1
    exact ⟨hj, by rw [Array.getElem?_push, if_neg (Nat.ne_of_lt hj), ha]⟩
  intro id hid
  rw [Array.getElem?_push] at hm
  split_ifs at hm with hi
  · cases hm
    obtain ⟨a, ha, rfl⟩ := List.mem_map.1 (hargs hid)
    obtain ⟨j, hj⟩ := Array.mem_iff_getElem?.1 (hown a ha)
    exact ⟨j, hi ▸ (hold j a hj).1, a, (hold j a hj).2, rfl⟩
  · obtain ⟨j, hj, a, ha, heq⟩ := h i m hm id hid
    exact ⟨j, hj, a, (hold j a ha).2, heq⟩

theorem ArgsPrecede.step (h : g.ArgsPrecede) (hready : g.Ready) (hown : ∀ a ∈ operands, a ∈ g.nodes)
    (hstep : Drafted g operands r g') : g'.ArgsPrecede ∧ (∀ n ∈ g.nodes, n ∈ g'.nodes) ∧ ∀ n ∈ r, n ∈ g'.nodes := by
  have hadded : ∀ m n, m ∈ some n → m ∈ g.nodes.push n := by
    rintro m n ⟨⟩
    exact Array.mem_push_self
  cases hstep with
  | known result returns hr =>
    refine ⟨h, fun _ hn => hn, fun n hn => ?_⟩
    rcases hr n hn with hn | ⟨i, hn⟩
    · exact hown n hn
    · exact hready.param_mem _ hn
  | plain _ hargs => exact ⟨h.push hargs hown, fun _ => Array.mem_push_of_mem _, fun m => hadded m _⟩
  | param _ hargs => exact ⟨h.push (by simp [hargs]) hown, fun _ => Array.mem_push_of_mem _, fun m => hadded m _⟩
  | effect _ hargs => exact ⟨h.push hargs hown, fun _ => Array.mem_push_of_mem _, fun m => hadded m _⟩

theorem argsPrecede_after {e : Option EntityId} {ds : List Draft} (h : OwnOperands e ds) :
    (after e ds).2.ArgsPrecede ∧ ∀ n ∈ (after e ds).1, n ∈ (after e ds).2.nodes := by
  induction h with
  | nil => exact ⟨by simp [ArgsPrecede, after], by simp [after]⟩
  | @snoc ds d _ hd ih =>
    obtain ⟨hargs, hgiven⟩ := ih
    have hown : ∀ n ∈ d.operands, n ∈ (after e ds).2.nodes := fun n hn => hgiven n (hd n hn)
    obtain ⟨hnext, hkept, hnew⟩ := hargs.step (ready_after e ds) hown (drafted_draw d _)
    rw [after_concat]
    refine ⟨hnext, fun n hn => ?_⟩
    rcases List.mem_append.1 hn with hn | hn
    · exact hkept n (hgiven n hn)
    · exact hnew n (Option.mem_toList.1 hn)

/-- Whatever operations build a graph, its nodes are numbered in order, each parameter is there once, and following the memory
states back from the current one leads through exactly the nodes with an effect. Operations that are given nodes of their own
graph only make nodes that stand after their arguments. -/
theorem threaded_of_drafts (e : Option EntityId) (ds : List Draft) :
    (after e ds).2.Threaded ∧ (OwnOperands e ds → (after e ds).2.ArgsPrecede) :=
  ⟨(ready_after e ds).threaded, fun h => (argsPrecede_after h).1⟩

/-- A parameter that is read, asked for again in another mode, and read again. -/
def rereads : List Draft :=
  [.param 0 .pointer, .load { id := 1, op := .param, mode := .pointer } .int32, .param 0 .int32,
    .load { id := 1, op := .param, mode := .pointer } .int32]

theorem threaded_of_drafts_rereads : OwnOperands none rereads ∧ (after none rereads).2.ArgsPrecede := by
  have hparam : OwnOperands none (rereads.take 1) := .snoc .nil (by simp [Draft.operands])
  have hload : OwnOperands none (rereads.take 2) := .snoc hparam (List.forall_mem_singleton.2 (.head _))
  have hagain : OwnOperands none (rereads.take 3) := .snoc hload (by simp [Draft.operands])
  have hown : OwnOperands none rereads := .snoc hagain (List.forall_mem_singleton.2 (.head _))
  exact ⟨hown, (threaded_of_drafts none rereads).2 hown⟩

end ClassAbi.Graph
