import ClassAbi.Module.Emit
import ClassAbi.Proofs.Abi.Label
import ClassAbi.Proofs.Lowering.Arguments

/-!
# Bodies in single-assignment form

The graph of a method is written without an error and without a layout. Each of its instructions uses only what the ones before
it define, and no temporary is defined twice. The proof follows the nodes: `Covers` says what is known after some of them, and
`Written` what one node adds.
-/

namespace ClassAbi.Module

variable {params : List Ty} {f f' : Frame} {n : Node}

theorem Ty.ofMode_eq_void_iff {mode : Mode} : Ty.ofMode mode = .void ↔ mode = .void := by
  cases mode <;> simp [ofMode]

/-! ### What instructions define and use -/

namespace Instruction

/-- The type of the temporary that an instruction defines. -/
def type? : Instruction → Option Ty
  | shift .. | alloc .. | member .. | element .. => some .ptr
  | add _ type .. | load _ type _ => some type
  | call (some _) result .. => some result
  | compare .. => some (.int 1)
  | convert _ _ _ _ result => some result
  | call none .. | store .. | remark .. | ret .. => none

end Instruction

/-- Whether an operand stands for a value of a type, in a routine with the given parameters in which the given instructions have
been carried out. -/
inductive Operand.HasType (src : Source) (params : List Ty) (before : List Instruction) : Operand → Ty → Prop
  | word (mode : Mode) (v bits : Int) : HasType src params before (.const (.word mode v bits)) (Ty.ofMode mode)
  | zero (mode : Mode) : HasType src params before (.const (.zero mode)) (Ty.ofMode mode)
  | symbol {e : EntityId} {ent : Entity} (h : src.program.entity? e = some ent) :
    HasType src params before (.const (.symbol (symbol src.target ent))) .ptr
  | param {i : Nat} {type : Ty} (h : params[i]? = some type) : HasType src params before (.param i) type
  | temp {i : Instruction} {t : Nat} {type : Ty} (hi : i ∈ before) (hdest : i.dest? = some t) (htype : i.type? = some type) :
    HasType src params before (.temp t) type

theorem Operand.HasType.mono {src : Source} {before before' : List Instruction} {v : Operand} {type : Ty}
    (h : v.HasType src params before type) (hbefore : ∀ i ∈ before, i ∈ before') : v.HasType src params before' type := by
  cases h with
  | word mode v bits => exact .word mode v bits
  | zero mode => exact .zero mode
  | symbol h => exact .symbol h
  | param h => exact .param h
  | temp hi hdest htype => exact .temp (hbefore _ hi) hdest htype

theorem Operand.HasType.isPlain {src : Source} {before : List Instruction} {v : Operand} {type : Ty}
    (h : v.HasType src params before type) (hlabels : src.program.Labelled) : v.isPlain = true := by
  cases h with
  | word mode v bits => exact Const.isQuiet_wordText mode v bits
  | zero mode => exact Const.isQuiet_zeroText mode
  | symbol h => exact isQuiet_symbol src.target (hlabels _ _ h)
  | param h => rfl
  | temp hi hdest htype => rfl

namespace Instruction

/-- Whether what an instruction takes is there after the instructions `before`. -/
structure Uses (src : Source) (params : List Ty) (before : List Instruction) (i : Instruction) : Prop where
  written : ∀ v ∈ i.written, ∃ type, v.HasType src params before type
  tidy : i.Tidy
  /-- A call without a result defines nothing. -/
  call : ∀ dest result callee args, i = .call dest result callee args → (dest = none ↔ result = .void)

/-- Whether an instruction can stand after others: it uses what is there, and what it defines is new. -/
structure Proper (src : Source) (params : List Ty) (before : List Instruction) (i : Instruction) : Prop extends
    i.Uses src params before where
  fresh : ∀ t ∈ i.dest?, ∀ j ∈ before, j.dest? ≠ some t

theorem Uses.mono {src : Source} {before before' : List Instruction} {i : Instruction} (h : i.Uses src params before)
    (hbefore : ∀ j ∈ before, j ∈ before') : i.Uses src params before' :=
  ⟨fun v hv => (h.written v hv).imp fun _ htype => htype.mono hbefore, h.tidy, h.call⟩

end Instruction

/-- Whether each instruction of a body can stand after those before it. -/
def Straight (src : Source) (params : List Ty) (body : List Instruction) : Prop :=
  ∀ before i, before ++ [i] <+: body → i.Proper src params before

theorem Straight.snoc {src : Source} {body : List Instruction} {i : Instruction} (h : Straight src params body)
    (hi : i.Proper src params body) : Straight src params (body ++ [i]) := by
  intro before j hbegins
  rcases List.prefix_concat_iff.1 hbegins with heq | hbegins
  · obtain ⟨rfl, hsame⟩ := List.append_inj' heq rfl
    obtain rfl := List.singleton_inj.1 hsame
    exact hi
  · exact h before j hbegins

theorem Straight.names_line {src : Source} {body : List Instruction} {i : Instruction} (h : Straight src params body)
    (hlabels : src.program.Labelled) (hi : i ∈ body) :
    Names i.line (i.assigns ++ i.uses) ∧ assigned i.line = i.assigns ∧ used i.line = i.uses := by
  obtain ⟨before, after, heq⟩ := List.append_of_mem hi
  have hproper := h before i ⟨after, by simp [heq]⟩
  have hplain : ∀ v ∈ i.written, v.isPlain = true := by
    intro v hv
    obtain ⟨type, htype⟩ := hproper.written v hv
    exact htype.isPlain hlabels
  exact ⟨Instruction.names_line hplain hproper.tidy, Instruction.assigned_line hplain hproper.tidy,
    Instruction.used_line hplain hproper.tidy⟩

/-- A line that stands after others is that of an instruction that can stand after theirs. -/
theorem Straight.exists_instruction {src : Source} {body : List Instruction} (h : Straight src params body)
    (hlabels : src.program.Labelled) {before : List Text} {line : Text} (hbegins : before ++ [line] <+: body.map Instruction.line) :
    ∃ (done : List Instruction) (i : Instruction), i.Proper src params done ∧ assigned line = i.assigns ∧ used line = i.uses ∧
      before.flatMap assigned = done.flatMap Instruction.assigns := by
  obtain ⟨body', hbody, heq⟩ := List.prefix_map_iff.1 hbegins
  obtain ⟨done, last, rfl, rfl, hlast⟩ := List.append_eq_map_iff.1 heq
  obtain ⟨i, rfl, rfl⟩ := List.map_eq_singleton_iff.1 hlast
  have hnames : ∀ j ∈ done ++ [i], assigned j.line = j.assigns ∧ used j.line = j.uses := fun j hj =>
    (h.names_line hlabels (hbody.subset hj)).2
  obtain ⟨hassigned, hused⟩ := hnames i (by simp)
  refine ⟨done, i, h done i hbody, hassigned, hused, ?_⟩
  rw [List.flatMap_map]
  exact List.flatMap_congr fun j hj => (hnames j (List.mem_append_left _ hj)).1

/-! ### Steps of a frame -/

/-- Whether the value of a node needs no instruction. -/
def isOperand (n : Node) : Bool := n.op = .const || n.op = .address || n.op = .param

namespace BodySource

variable {src : BodySource} {nodes : List Node}

/-- Whether a node is written as a line. A conversion between integers of one size is not. -/
def writes (src : BodySource) (n : Node) : Bool :=
  match n.op, n.args with
  | .const, _ | .address, _ | .param, _ => false
  | .conv, id :: _ =>
    match src.graph.node? id with
    | some source => source.mode = .bit || source.mode.size src.target.pointerSize != n.mode.size src.target.pointerSize
    | none => true
  | _, _ => true

/-- What is known of a frame after some nodes have been written. -/
structure Covers (src : BodySource) (params : List Ty) (nodes : List Node) (f : Frame) : Prop where
  straight : Straight src.toSource params f.lines.reverse
  unended : ∀ i ∈ f.lines, ∀ r, i ≠ .ret r
  bound : ∀ i ∈ f.lines, ∀ t ∈ i.dest?, t ≤ f.temps
  values : ∀ n ∈ nodes, n.mode ≠ .void → isOperand n = false →
    ∃ v, f.values[n.id]? = some v ∧ v.HasType src.toSource params f.lines (Ty.ofMode n.mode)
  count : f.lines.length = nodes.countP src.writes

/-- What writing a node does to a frame. -/
structure Written (src : BodySource) (params : List Ty) (f : Frame) (n : Node) (f' : Frame) : Prop where
  temps : f.temps ≤ f'.temps
  lines : src.writes n = false ∧ f'.lines = f.lines ∨
    src.writes n = true ∧ ∃ i, f'.lines = i :: f.lines ∧ i.Uses src.toSource params f.lines ∧ (∀ r, i ≠ .ret r) ∧
      ∀ t ∈ i.dest?, f.temps < t ∧ t ≤ f'.temps
  values : (isOperand n = true ∨ n.mode = .void) ∧ f'.values = f.values ∨
    ∃ v, f'.values = f.values.insert n.id v ∧ v.HasType src.toSource params f'.lines (Ty.ofMode n.mode)

theorem written_skip (hop : isOperand n = true) : src.Written params f n f := by
  refine ⟨le_rfl, .inl ⟨?_, rfl⟩, .inl ⟨.inl hop, rfl⟩⟩
  unfold isOperand at hop
  unfold writes
  cases hop' : n.op <;> simp_all

theorem written_define {i : Nat → Instruction} (hwrites : src.writes n = true)
    (hdest : (i (f.temps + 1)).dest? = some (f.temps + 1)) (htype : (i (f.temps + 1)).type? = some (Ty.ofMode n.mode))
    (huses : (i (f.temps + 1)).Uses src.toSource params f.lines) : src.Written params f n (f.define n i) := by
  refine ⟨Nat.le_succ _, .inr ⟨hwrites, _, rfl, huses, fun r hr => ?_, fun t ht => ?_⟩,
    .inr ⟨_, rfl, .temp List.mem_cons_self hdest htype⟩⟩
  · rw [hr] at hdest
    cases hdest
  · obtain rfl := Option.some.inj (hdest.symm.trans ht)
    exact ⟨Nat.lt_succ_self _, le_rfl⟩

theorem written_line {i : Instruction} (hwrites : src.writes n = true) (hvoid : n.mode = .void) (hdest : i.dest? = none)
    (hi : ∀ r, i ≠ .ret r) (huses : i.Uses src.toSource params f.lines) : src.Written params f n (f.line i) :=
  ⟨le_rfl, .inr ⟨hwrites, i, rfl, huses, hi, by simp [hdest]⟩, .inl ⟨.inr hvoid, rfl⟩⟩

theorem Written.subset (h : src.Written params f n f') : ∀ i ∈ f.lines, i ∈ f'.lines := by
  rcases h.lines with ⟨-, heq⟩ | ⟨-, i, heq, -⟩ <;> simp +contextual [heq]

/-- A node that is written takes what is known one node further. -/
theorem Covers.snoc (h : src.Covers params nodes f) (hid : ∀ a ∈ nodes, a.id ≠ n.id) (hstep : src.Written params f n f') :
    src.Covers params (nodes ++ [n]) f' := by
  have hvalues : ∀ a ∈ nodes ++ [n], a.mode ≠ .void → isOperand a = false →
      ∃ v, f'.values[a.id]? = some v ∧ v.HasType src.toSource params f'.lines (Ty.ofMode a.mode) := by
    intro a ha hmode hoperand
    rcases List.mem_append.1 ha with ha | ha
    · obtain ⟨v, hv, htype⟩ := h.values a ha hmode hoperand
      refine ⟨v, ?_, htype.mono hstep.subset⟩
      rcases hstep.values with ⟨-, heq⟩ | ⟨u, heq, -⟩
      · rw [heq, hv]
      · rw [heq, Std.HashMap.getElem?_insert, if_neg (by simpa using (hid a ha).symm), hv]
    · obtain rfl := List.mem_singleton.1 ha
      rcases hstep.values with ⟨hnone | hnone, -⟩ | ⟨v, heq, hv⟩
      · cases hoperand.symm.trans hnone
      · exact absurd hnone hmode
      · exact ⟨v, by rw [heq, Std.HashMap.getElem?_insert_self], hv⟩
  have hbound : ∀ i ∈ f.lines, ∀ t ∈ i.dest?, t ≤ f'.temps := fun i hi t ht => (h.bound i hi t ht).trans hstep.temps
  rcases hstep.lines with ⟨hwrites, heq⟩ | ⟨hwrites, i, heq, huses, hi, hdest⟩
  · refine ⟨?_, ?_, ?_, hvalues, ?_⟩
    · rw [heq]
      exact h.straight
    · rw [heq]
      exact h.unended
    · rw [heq]
      exact hbound
    · rw [heq, h.count, List.countP_append, List.countP_singleton, if_neg (by simp [hwrites]), Nat.add_zero]
  · refine ⟨?_, ?_, ?_, hvalues, ?_⟩
    · rw [heq, List.reverse_cons]
      refine h.straight.snoc ⟨huses.mono fun _ hj => List.mem_reverse.2 hj, fun t ht j hj hsame => ?_⟩
      have := h.bound j (List.mem_reverse.1 hj) t hsame
      have := (hdest t ht).1
      omega
    · rw [heq, List.forall_mem_cons]
      exact ⟨hi, h.unended⟩
    · rw [heq, List.forall_mem_cons]
      exact ⟨fun t ht => (hdest t ht).2, hbound⟩
    · rw [heq, List.length_cons, h.count, List.countP_append, List.countP_singleton, if_pos hwrites]

end BodySource

/-! ### Writing nodes -/

attribute [local simp] Instruction.written Instruction.operands Instruction.Tidy Instruction.dest?

/-- The results of steps that change nothing. -/
theorem mapM_eq_pure {α β : Type} {g : α → Emitter β} {R : α → β → Prop} {as : List α}
    (h : ∀ a ∈ as, ∃ b, g a = pure b ∧ R a b) : ∃ bs, as.mapM g = pure bs ∧ List.Forall₂ R as bs := by
  induction as with
  | nil => exact ⟨[], List.mapM_nil, .nil⟩
  | cons a as ih =>
    rw [List.forall_mem_cons] at h
    obtain ⟨b, hb, hR⟩ := h.1
    obtain ⟨bs, hbs, hrest⟩ := ih h.2
    exact ⟨b :: bs, by rw [List.mapM_cons, hb, hbs, pure_bind, pure_bind], .cons hR hrest⟩

theorem need_eq {α : Type} {a : Option α} {b : α} (h : a = some b) : Emitter.need a = pure b := by
  rw [h]
  rfl

/-- Whether the graph can be the body of a routine of the signature `sig`. -/
structure BodySource.Writable (src : BodySource) (sig : Signature) : Prop where
  drawn : Graph.Drawn src.program src.graph
  params : ∀ n ∈ src.graph.nodes, n.op = .param → ∃ k : Nat, n.value = k ∧ sig.params[k]? = some (some Mode.pointer.typeId)
  result : ∀ id ∈ src.graph.result, ∃ n ∈ src.graph.nodes, n.id = id ∧ n.mode = src.program.types.resultMode sig
  modes : ∀ mode : Mode, src.program.types.shape? mode.typeId = some (.primitive mode)

/-- The types of the parameters. -/
abbrev Source.paramTypes (src : Source) (sig : Signature) : List Ty := sig.params.map src.valueType

namespace BodySource

variable {src : BodySource} {nodes : List Node} {sig : Signature}

theorem Writable.valueType_mode (h : src.Writable sig) (mode : Mode) : src.valueType (some mode.typeId) = Ty.ofMode mode := by
  simp only [Source.valueType, TypeTable.valueMode, Option.bind_some, TypeTable.mode?, h.modes, Option.getD_some]

theorem Writable.node_eq (h : src.Writable sig) (hn : n ∈ src.graph.nodes) : src.node n.id = pure n :=
  need_eq (h.drawn.node?_eq hn)

section

variable (hgraph : src.Writable sig) (hcovers : src.Covers (src.paramTypes sig) nodes f) (hnodes : ∀ a ∈ nodes, a ∈ src.graph.nodes)

include hgraph hcovers hnodes

theorem operand_eq (hn : n ∈ nodes) (hmode : n.mode ≠ .void) :
    ∃ v, src.operand f n = pure v ∧ v.HasType src.toSource (src.paramTypes sig) f.lines (Ty.ofMode n.mode) := by
  have hmem := hnodes n hn
  obtain ⟨before, -, hsane⟩ := hgraph.drawn.formed.sane (Array.mem_toList_iff.2 hmem)
  have hshaped := hsane.shaped
  cases hop : n.op
  case const => exact ⟨_, by rw [operand, hop], .word _ _ _⟩
  case address =>
    simp only [Graph.Shaped, hop] at hshaped
    obtain ⟨hpointer, e, ent, he, hent⟩ := hshaped
    refine ⟨.const (.symbol (symbol src.target ent)), ?_, ?_⟩
    · have hneed : Emitter.need (n.entity.bind src.program.entity?) = pure ent := need_eq (by rw [he, Option.bind_some, hent])
      rw [operand, hop]
      simp only [Source.symbolOf, hneed, pure_bind]
    · rw [hpointer]
      exact .symbol hent
  case param =>
    simp only [Graph.Shaped, hop] at hshaped
    obtain ⟨k, hk, hparam⟩ := hgraph.params n hmem hop
    refine ⟨.param n.value, by rw [operand, hop], ?_⟩
    rw [hk, hshaped]
    exact .param (by rw [List.getElem?_map, hparam, Option.map_some, hgraph.valueType_mode])
  all_goals
    obtain ⟨v, hv, htype⟩ := hcovers.values n hn hmode (by simp [isOperand, hop])
    exact ⟨v, by simp only [operand, hop, hv], htype⟩

/-- The arguments of a node are all known. -/
theorem operands_eq {ids : List NodeId} (hids : ∀ id ∈ ids, ∃ a ∈ nodes, a.id = id ∧ a.mode ≠ .void) :
    ∃ ops : List (Node × Operand),
      (ids.mapM fun id => do
        let arg ← src.node id
        return (arg, ← src.operand f arg)) = pure ops ∧
      List.Forall₂ (fun id op => src.graph.node? id = some op.1 ∧
        op.2.HasType src.toSource (src.paramTypes sig) f.lines (Ty.ofMode op.1.mode)) ids ops := by
  refine mapM_eq_pure fun id hid => ?_
  obtain ⟨a, ha, rfl, hmode⟩ := hids id hid
  obtain ⟨v, hv, htype⟩ := operand_eq hgraph hcovers hnodes ha hmode
  refine ⟨(a, v), ?_, hgraph.drawn.node?_eq (hnodes a ha), htype⟩
  rw [hgraph.node_eq (hnodes a ha), pure_bind, hv, pure_bind]

end

/-- Conversions are from bits and integers to integers. -/
theorem emitConv_eq {a : Node} {v : Operand} (hv : v.HasType src.toSource params f.lines (Ty.ofMode a.mode))
    (hwrites : src.writes n =
      (a.mode = .bit || a.mode.size src.target.pointerSize != n.mode.size src.target.pointerSize : Bool))
    (hsource : a.mode = .bit ∨ a.mode.isInt = true) (hmode : n.mode.isInt = true) :
    ∃ f', src.emitConv f n a v = pure f' ∧ src.Written params f n f' := by
  have hconvert : ∀ c : Conversion, src.writes n = true → src.Written params f n
      (f.define n fun dest => .convert dest c (Ty.ofMode a.mode) v (Ty.ofMode n.mode)) := fun c hwrites =>
    written_define hwrites rfl rfl
      ⟨by simpa using ⟨_, hv⟩, by simp, by simp⟩
  have hbit : n.mode ≠ .bit := by
    intro h
    rw [h] at hmode
    cases hmode
  unfold emitConv
  rw [if_neg hbit]
  rcases hsource with hsource | hsource
  · rw [if_pos hsource]
    exact ⟨_, rfl, hconvert _ (by simp [hwrites, hsource])⟩
  · have hnot : a.mode ≠ .bit ∧ (a.mode = .pointer && n.mode.isInt) = false ∧ (n.mode = .pointer && a.mode.isInt) = false := by
      cases ha : a.mode <;> cases hn : n.mode <;> simp_all [Mode.isInt]
    rw [if_neg hnot.1, hnot.2.1, hnot.2.2, hsource, hmode]
    simp only [Bool.false_eq_true, if_false, Bool.and_self, if_true]
    split_ifs with hsize hsmaller hsigned
    · refine ⟨_, rfl, Nat.le_succ _, .inl ⟨by simp [hwrites, hnot.1, hsize], rfl⟩, .inr ⟨v, rfl, ?_⟩⟩
      -- Integers of one size have one type.
      have htype : Ty.ofMode a.mode = Ty.ofMode n.mode := by
        cases ha : a.mode <;> cases hn : n.mode <;> simp_all [Mode.isInt, Mode.size, Ty.ofMode]
      exact htype ▸ hv
    all_goals exact ⟨_, rfl, hconvert _ (by simp [hwrites, hsize])⟩

theorem emitCall_eq {ops : List (Node × Operand)} {t : TypeId} {sig : Signature} (hops : ops ≠ [])
    (htypes : ∀ op ∈ ops, ∃ type, op.2.HasType src.toSource params f.lines type) (hwrites : src.writes n = true)
    (ht : n.type = some t) (hsig : src.program.types.signature? t = some sig) (hgives : sig.Gives n.mode)
    (hmode : src.program.types.resultMode sig = n.mode) :
    ∃ f', src.emitCall f n ops = pure f' ∧ src.Written params f n f' := by
  obtain ⟨⟨x, callee⟩, ops, rfl⟩ := List.exists_cons_of_ne_nil hops
  rw [List.forall_mem_cons] at htypes
  have hresult : src.resultType sig = Ty.ofMode n.mode := by rw [Source.resultType, hmode]
  have huses : ∀ (args : List (Ty × Operand)) dest, args.map Prod.snd = ops.map Prod.snd → (dest = none ↔ n.mode = .void) →
      (Instruction.call dest (src.resultType sig) callee args).Uses src.toSource params f.lines := by
    intro args dest hargs hdest
    refine ⟨List.forall_mem_cons.2 ⟨htypes.1, ?_⟩, by simp, ?_⟩
    · rw [hargs, List.forall_mem_map]
      exact htypes.2
    · rintro _ _ _ _ ⟨⟩
      rw [hdest, hresult, Ty.ofMode_eq_void_iff]
  have hargs : ∀ g : (Node × Operand) × Nat → Ty, (ops.zipIdx.map fun x => (g x, x.1.2)).map Prod.snd = ops.map Prod.snd := by
    intro g
    rw [List.map_map, show (Prod.snd ∘ fun x => (g x, x.1.2)) = Prod.snd ∘ Prod.fst from rfl, ← List.map_map,
      List.zipIdx_map_fst]
  unfold emitCall
  rw [ht, Option.bind_some, hsig]
  refine ⟨_, rfl, ?_⟩
  rw [hgives]
  by_cases hvoid : n.mode = .void
  · rw [if_pos hvoid]
    exact written_line hwrites hvoid rfl (by simp) (huses _ _ (hargs _) (by simp [hvoid]))
  · rw [if_neg hvoid]
    refine written_define (i := fun dest => .call (some dest) _ _ _) hwrites rfl (congrArg some hresult) ?_
    exact huses _ _ (hargs _) (by simp [hvoid])

theorem exists_two {α : Type} {as : List α} (h : 2 ≤ as.length) : ∃ a b rest, as = a :: b :: rest := by
  obtain ⟨a, as, rfl⟩ := List.exists_cons_of_length_pos (Nat.lt_of_lt_of_le Nat.two_pos h)
  obtain ⟨b, as, rfl⟩ := List.exists_cons_of_length_pos (Nat.lt_of_succ_le (Nat.le_of_succ_le_succ h))
  exact ⟨a, b, as, rfl⟩

/-- One node is written. -/
theorem emitNode_eq (hgraph : src.Writable sig) (hcovers : src.Covers (src.paramTypes sig) nodes f)
    (hnodes : ∀ a ∈ nodes, a ∈ src.graph.nodes) (hsane : Graph.Sane src.program nodes n) :
    ∃ f', src.emitNode f n = pure f' ∧ src.Written (src.paramTypes sig) f n f' := by
  have hshaped := hsane.shaped
  obtain ⟨ops, hops, hargs⟩ := operands_eq hgraph hcovers hnodes hsane.args
  have hlength := hargs.length_eq
  have htypes : ∀ op ∈ ops, ∃ type, op.2.HasType src.toSource (src.paramTypes sig) f.lines type := by
    intro op hop
    obtain ⟨i, hi, rfl⟩ := List.getElem_of_mem hop
    exact ⟨_, ((List.forall₂_iff_get.1 hargs).2 i (by omega) hi).2⟩
  -- The first argument, where the shape says what it is.
  have hfirst : ∀ a ∈ nodes, ∀ ids, n.args = a.id :: ids → ∃ v rest, ops = (a, v) :: rest ∧
      v.HasType src.toSource (src.paramTypes sig) f.lines (Ty.ofMode a.mode) := by
    intro a ha ids heq
    rw [heq] at hargs
    obtain ⟨⟨x, v⟩, rest, ⟨hx, htype⟩, -, rfl⟩ := List.forall₂_cons_left_iff.1 hargs
    obtain rfl := Option.some.inj ((hgraph.drawn.node?_eq (hnodes a ha)).symm.trans hx)
    exact ⟨v, rest, rfl, htype⟩
  have hstorage : src.storageType (some Mode.uint16.typeId) = pure (Ty.ofMode .uint16) := by
    simp only [storageType, Option.bind_some, TypeTable.mode?, hgraph.modes]
  unfold emitNode
  cases hop : n.op <;> simp only [Graph.Shaped, hop] at hshaped
  case const | address | param => exact ⟨f, rfl, written_skip (by simp [isOperand, hop])⟩
  all_goals
    simp only [reduceCtorEq, decide_false, Bool.or_self, Bool.false_eq_true, if_false, hops, pure_bind]
  case conv =>
    obtain ⟨a, ha, heq, hsource, hmode⟩ := hshaped
    obtain ⟨v, rest, rfl, htype⟩ := hfirst a ha [] heq
    refine emitConv_eq htype ?_ hsource hmode
    rw [writes, hop, heq]
    dsimp only
    rw [hgraph.drawn.node?_eq (hnodes a ha)]
  all_goals have hwrites : src.writes n = true := by simp [writes, hop]
  case add =>
    obtain ⟨⟨x, a⟩, ⟨y, b⟩, rest, rfl⟩ := exists_two (hlength ▸ hshaped)
    simp only [List.forall_mem_cons] at htypes
    refine ⟨_, rfl, ?_⟩
    split_ifs with hpointer
    · exact written_define hwrites rfl (by rw [hpointer]; rfl) ⟨by simpa using ⟨htypes.1, htypes.2.1⟩, by simp, by simp⟩
    · exact written_define hwrites rfl rfl ⟨by simpa using ⟨htypes.1, htypes.2.1⟩, by simp, by simp⟩
  case call =>
    obtain ⟨hne, t, sig', ht, hsig, hgives⟩ := hshaped
    refine emitCall_eq (fun h => hne ?_) htypes hwrites ht hsig hgives (hgives.resultMode_eq hgraph.modes)
    rwa [← List.length_eq_zero_iff, hlength, List.length_eq_zero_iff]
  case load =>
    obtain ⟨⟨x, addr⟩, rest, rfl⟩ := List.exists_cons_of_length_pos (hlength ▸ List.length_pos_iff.2 hshaped)
    exact ⟨_, rfl, written_define hwrites rfl rfl ⟨by simpa using htypes _ List.mem_cons_self, by simp, by simp⟩⟩
  case store =>
    obtain ⟨⟨x, addr⟩, ⟨y, v⟩, rest, rfl⟩ := exists_two (hlength ▸ hshaped.1)
    simp only [List.forall_mem_cons] at htypes
    exact ⟨_, rfl, written_line hwrites hshaped.2 rfl (by simp) ⟨by simpa using ⟨htypes.2.1, htypes.1⟩, by simp, by simp⟩⟩
  case alloc =>
    obtain ⟨hpointer, t, length, ht, hshape⟩ := hshaped
    rw [Source.shape?, ht, Option.bind_some, hshape]
    dsimp only
    rw [hstorage, pure_bind]
    exact ⟨_, rfl, written_define hwrites rfl (by rw [hpointer]; rfl) ⟨by simp, by simp, by simp⟩⟩
  case member =>
    obtain ⟨hne, hpointer, hname⟩ := hshaped
    obtain ⟨⟨x, base⟩, rest, rfl⟩ := List.exists_cons_of_length_pos (hlength ▸ List.length_pos_iff.2 hne)
    exact ⟨_, rfl, written_define hwrites rfl (by rw [hpointer]; rfl)
      ⟨by simpa using htypes _ List.mem_cons_self, by simpa using hname, by simp⟩⟩
  case sel =>
    obtain ⟨⟨x, base⟩, ⟨y, i⟩, rest, rfl⟩ := exists_two (hlength ▸ hshaped.1)
    simp only [List.forall_mem_cons] at htypes
    rw [hshaped.2.2, hstorage, pure_bind]
    exact ⟨_, rfl, written_define hwrites rfl (by rw [hshaped.2.1]; rfl)
      ⟨by simpa using ⟨htypes.1, htypes.2.1⟩, by simp, by simp⟩⟩
  case cmp =>
    obtain ⟨⟨x, a⟩, ⟨y, b⟩, rest, rfl⟩ := exists_two (hlength ▸ hshaped.1)
    simp only [List.forall_mem_cons] at htypes
    rw [hshaped.2.2]
    exact ⟨_, rfl, written_define hwrites rfl (by rw [hshaped.2.1]; rfl)
      ⟨by simpa using ⟨htypes.1, htypes.2.1⟩, by simpa using by decide, by simp⟩⟩
  case vptrIsSet =>
    obtain ⟨hpointer, hname, a, ha, hhead, hmode⟩ := hshaped
    obtain ⟨ids, heq⟩ := List.head?_eq_some_iff.1 hhead
    obtain ⟨v, rest, rfl, htype⟩ := hfirst a ha ids heq
    refine ⟨_, rfl, le_rfl, .inr ⟨hwrites, _, rfl, ⟨?_, ?_, by simp⟩, by simp, by simp⟩,
      .inr ⟨v, rfl, ?_⟩⟩
    · simpa using ⟨_, htype⟩
    · simpa using hname
    · rw [hpointer, ← hmode]
      exact htype.mono fun _ hi => List.mem_cons_of_mem _ hi

/-- The nodes are written one after the other. -/
theorem emitNodes_eq (hgraph : src.Writable sig) :
    ∃ f, src.emitNodes = pure f ∧ src.Covers (src.paramTypes sig) src.graph.nodes.toList f := by
  have hsome : ∀ ns : List Node, Graph.Formed src.program ns → (∀ a ∈ ns, a ∈ src.graph.nodes) →
      ∃ f, ns.foldlM (fun f n => Emitter.within (.inNode (src.program.nodeText n)) (src.emitNode f n)) {} = pure f ∧
        src.Covers (src.paramTypes sig) ns f := by
    intro ns hformed hnodes
    induction hformed with
    | nil => exact ⟨{}, rfl, by simp [Straight], by simp, by simp, by simp, rfl⟩
    | @snoc before n hbefore hn ih =>
      obtain ⟨hmem, -⟩ := List.forall_mem_append.1 hnodes
      obtain ⟨f, hrun, hcovers⟩ := ih hmem
      obtain ⟨f', hstep, hwritten⟩ := emitNode_eq hgraph hcovers hmem hn
      have hid : ∀ a ∈ before, a.id ≠ n.id := by
        intro a ha
        obtain ⟨i, hi, rfl⟩ := List.getElem_of_mem ha
        rw [hn.id, hbefore.id_eq (List.getElem?_eq_getElem hi)]
        exact fun h => hi.ne (Nat.succ.inj h)
      refine ⟨f', ?_, hcovers.snoc hid hwritten⟩
      rw [List.foldlM_append, hrun, pure_bind, List.foldlM_cons, hstep]
      rfl
  exact hsome _ hgraph.drawn.formed fun a ha => Array.mem_toList_iff.1 ha

end BodySource

/-! ### Whole routines -/

namespace Definition

/-- Whether the body of a routine is in single-assignment form: each instruction can stand after those before it, and only the
last one ends the body, with a value of the type of the result if there is one. -/
structure InSsa (src : Source) (d : Definition) : Prop where
  straight : Straight src d.params d.body
  ends : ∃ init last, d.body = init ++ [.ret last] ∧ (∀ i ∈ init, ∀ r, i ≠ .ret r) ∧ (last = none ↔ d.result = .void) ∧
    ∀ type v, last = some (type, v) → type = d.result ∧ v.HasType src d.params init type

/-- Whether the text of a routine is in single-assignment form, as its bytes show. The head names the parameters. A line assigns a
register that is new, or none, and uses parameters and what lines before it assign. Stores and calls without a result assign
nothing. Only the last line returns, and it returns a value of the type of the result if there is one. -/
structure ReadsSsa (src : Source) (d : Definition) (head : Text) (lines : List Text) (last : Text) : Prop where
  text : Text.split Ascii.newline d.text = head :: "entry:" :: (lines ++ [last, "\x7d", [], []])
  begins : head.startsWith "define " = true
  params : registers head = (List.range d.params.length).map fun i => "p" ++ Text.ofNat i
  assigns : ∀ before line, before ++ [line] <+: lines ++ [last] → ∀ r ∈ assigned line,
    (∃ n, r = "t" ++ Text.ofNat n) ∧ r ∉ before.flatMap assigned
  uses : ∀ before line, before ++ [line] <+: lines ++ [last] → ∀ r ∈ used line, r ∈ registers head ++ before.flatMap assigned
  values : ∀ line ∈ lines, ∀ r ∈ assigned line, ∃ action, line = "  %" ++ r ++ " = " ++ action ∧
    action.startsWith "store " = false ∧ action.startsWith "call void " = false
  unended : ∀ line ∈ lines, line.startsWith "  ret " = false
  ends : d.result = .void ∧ last = "  ret void" ∨
    d.result ≠ .void ∧ ∃ v : Operand, v.HasType src d.params d.body d.result ∧ last = "  ret " ++ d.result.text ++ " " ++ v.text

theorem InSsa.readsSsa {src : Source} {d : Definition} (h : d.InSsa src) (hlabels : src.program.Labelled)
    (hsymbol : isQuiet d.symbol = true) : ∃ head lines last, d.ReadsSsa src head lines last := by
  obtain ⟨init, result, hbody, hinit, hvoid, hvalue⟩ := h.ends
  have hhead := names_head hsymbol
  have hlines : init.map Instruction.line ++ [(Instruction.ret result).line] = d.body.map Instruction.line := by simp [hbody]
  refine ⟨d.head, init.map Instruction.line, (Instruction.ret result).line, ?_, rfl, hhead.registers, ?_, ?_, ?_, ?_, ?_⟩
  · rw [split_text hhead.newline fun i hi => (h.straight.names_line hlabels hi).1.newline, ← hlines]
    simp
  · rw [hlines]
    intro before line hbegins r hr
    obtain ⟨done, i, hproper, hassigned, -, hbefore⟩ := h.straight.exists_instruction hlabels hbegins
    rw [hassigned] at hr
    rw [hbefore]
    obtain ⟨t, ht, rfl⟩ := List.mem_map.1 hr
    refine ⟨⟨t, rfl⟩, fun hold => ?_⟩
    obtain ⟨j, hj, hold⟩ := List.mem_flatMap.1 hold
    obtain ⟨t', ht', heq⟩ := List.mem_map.1 hold
    obtain rfl : t' = t := Text.ofNat_injective (List.append_cancel_left heq)
    exact hproper.fresh t' (Option.mem_toList.1 ht) j hj (Option.mem_toList.1 ht')
  · rw [hlines, hhead.registers]
    intro before line hbegins r hr
    obtain ⟨done, i, hproper, -, hused, hbefore⟩ := h.straight.exists_instruction hlabels hbegins
    rw [hused] at hr
    rw [hbefore, List.mem_append]
    obtain ⟨v, hv, hr⟩ := List.mem_flatMap.1 hr
    obtain ⟨type, htype⟩ := hproper.written v (Instruction.mem_written hv)
    cases htype with
    | word _ _ _ | zero _ | symbol _ => cases hr
    | @param k _ hk =>
      obtain rfl := List.mem_singleton.1 hr
      exact .inl (List.mem_map.2 ⟨k, List.mem_range.2 (List.getElem?_eq_some_iff.1 hk).1, rfl⟩)
    | @temp j t _ hj hdest _ =>
      obtain rfl := List.mem_singleton.1 hr
      exact .inr (List.mem_flatMap.2 ⟨j, hj, List.mem_map.2 ⟨t, Option.mem_toList.2 hdest, rfl⟩⟩)
  · intro line hline r hr
    obtain ⟨i, hi, rfl⟩ := List.mem_map.1 hline
    have hmem : i ∈ d.body := hbody ▸ List.mem_append_left _ hi
    obtain ⟨before, after, heq⟩ := List.append_of_mem hmem
    rw [(h.straight.names_line hlabels hmem).2.1] at hr
    exact Instruction.exists_action (h.straight before i ⟨after, by simp [heq]⟩).call hr
  · intro line hline
    obtain ⟨i, hi, rfl⟩ := List.mem_map.1 hline
    exact Instruction.startsWith_ret (hinit i hi)
  · rcases result with _ | ⟨type, v⟩
    · exact .inl ⟨hvoid.1 rfl, rfl⟩
    · obtain ⟨rfl, htype⟩ := hvalue type v rfl
      refine .inr ⟨fun hnone => ?_, v, htype.mono fun i hi => hbody ▸ List.mem_append_left _ hi, ?_⟩
      · cases hvoid.2 hnone
      · rw [Instruction.line, Instruction.dest?, Instruction.action, Instruction.typed, List.append_assoc, List.append_assoc]
        rfl

end Definition

/-- A routine whose graph can be its body is written, in single-assignment form, with a line for each node that has one and a line
that ends it. -/
theorem Source.definition_eq {src : Source} {sig : Signature} {e : Entity} {g : GraphId} {graph : Graph}
    (hbody : e.body = some g) (hfound : src.program.graphs[g]? = some graph)
    (hgraph : BodySource.Writable { src with graph } sig) :
    ∃ d, src.definition e sig = pure d ∧ d.symbol = symbol src.target e ∧ d.result = src.resultType sig ∧
      d.params = src.paramTypes sig ∧ d.InSsa src ∧
      d.body.length = graph.nodes.toList.countP (BodySource.writes { src with graph }) + 1 := by
  obtain ⟨f, hrun, hcovers⟩ := BodySource.emitNodes_eq hgraph
  obtain ⟨last, hlast, hvoid, hvalue⟩ : ∃ last, src.body sig (some g) = pure (f.lines.reverse ++ [.ret last]) ∧
      (last = none ↔ src.resultType sig = .void) ∧ ∀ type v, last = some (type, v) →
        type = src.resultType sig ∧ v.HasType src (src.paramTypes sig) f.lines type := by
    unfold Source.body
    simp only [need_eq hfound, map_pure, pure_bind, Option.getD_some, hrun, List.reverse_cons]
    by_cases hvoid : src.resultType sig = .void
    · exact ⟨none, by simp only [hvoid], by simp [hvoid], by simp⟩
    cases hresult : graph.result with
    | none =>
      refine ⟨some (src.resultType sig, .const (.zero (src.program.types.resultMode sig))), by simp only, by simp [hvoid], ?_⟩
      rintro _ _ ⟨⟩
      exact ⟨rfl, .zero _⟩
    | some id =>
      obtain ⟨n, hn, rfl, hmode⟩ := hgraph.result id hresult
      have hne : n.mode ≠ .void := fun h => hvoid (by rw [Source.resultType, ← hmode, Ty.ofMode_eq_void_iff, h])
      obtain ⟨v, hv, htype⟩ := BodySource.operand_eq hgraph hcovers (fun a ha => Array.mem_toList_iff.1 ha)
        (Array.mem_toList_iff.2 hn) hne
      refine ⟨some (src.resultType sig, v), by simp only [hgraph.node_eq hn, hv, pure_bind], by simp [hvoid], ?_⟩
      rintro _ _ ⟨⟩
      rw [Source.resultType, ← hmode]
      exact ⟨rfl, htype⟩
  have hreverse : ∀ i ∈ f.lines, i ∈ f.lines.reverse := fun i hi => List.mem_reverse.2 hi
  refine ⟨⟨symbol src.target e, e.visibility = .hidden, src.resultType sig, src.paramTypes sig, f.lines.reverse ++ [.ret last]⟩,
    by rw [definition, hbody, hlast, pure_bind], rfl, rfl, rfl, ⟨hcovers.straight.snoc ⟨⟨?_, ?_, by simp⟩, ?_⟩, ?_⟩, ?_⟩
  · rcases last with _ | ⟨type, v⟩
    · simp
    · simpa using ⟨type, (hvalue type v rfl).2.mono hreverse⟩
  · simp
  · simp
  · refine ⟨_, last, rfl, fun i hi => hcovers.unended i (List.mem_reverse.1 hi), hvoid, fun type v heq => ?_⟩
    exact ⟨(hvalue type v heq).1, (hvalue type v heq).2.mono hreverse⟩
  · simp [hcovers.count]

end ClassAbi.Module

namespace ClassAbi.Lowering

open ClassAbi.Action ClassAbi.Module Workspace Abi

variable {w w0 w' : Workspace} {s0 : Session}

theorem IsBody.writable {target : Target} {routine : EntityId} {m : Method} {graph : Graph} {p : Program}
    (h : IsBody w0 routine p m graph) (hmodes : ∀ mode : Mode, p.types.shape? mode.typeId = some (.primitive mode)) :
    BodySource.Writable ⟨⟨p, target⟩, graph⟩ m.signature where
  drawn := h.drawn
  params := h.params
  result id hid := by
    rw [m.gives_signature.resultMode_eq hmodes]
    exact h.result id hid
  modes := hmodes

/-- Whether the routine `e` of a method has the body `g`, and its text is in single-assignment form. No argument of a node in the
body is a store or a call without a result. -/
def WritesBody (p : Program) (target : Target) (m : Method) (e : EntityId) (g : GraphId) : Prop :=
  ∃ ent graph d, p.entity? e = some ent ∧ ent.body = some g ∧ p.graphs[g]? = some graph ∧
    p.types.signature? ent.type = some m.signature ∧ Source.definition ⟨p, target⟩ ent m.signature = pure d ∧
    (∃ head lines last, d.ReadsSsa ⟨p, target⟩ head lines last) ∧ d.InSsa ⟨p, target⟩ ∧
    d.params = Source.paramTypes ⟨p, target⟩ m.signature ∧ d.result = Ty.ofMode m.result.mode ∧
    (d.result = .void ↔ m.signature.results = []) ∧
    ∀ n ∈ graph.nodes, ∀ id ∈ n.args, ∃ a, graph.node? id = some a ∧ a.op ≠ .store ∧
      (a.op = .call → ∃ t sig, a.type = some t ∧ p.types.signature? t = some sig ∧ sig.results ≠ [])

/-- The body of a method is written for every target, and its text is in single-assignment form. -/
theorem writesBody_of_lowerMethod {registers : Bool} {triple : Text} (htarget : Target.ofTriple triple = .ok w.target) (built : w.Built)
    (hempty : w.program.entities = #[]) (hprepare : Finishes (prepare registers) w () w0) (ops : List Abi.Operation)
    {ref : MethodRef} {parent : Option Nat} {g : GraphId} (hrun : Finishes (lowerMethod ref parent) (operate w0 ops) g w')
    (target : Target) : ∃ m e, w0.registry.method? ref = some m ∧ m.entity = some e ∧ WritesBody w'.program target m e g := by
  obtain ⟨s0, m, e, routine, hstart, hm, he, ⟨ent, graph, hent, hentity, hgraph, -, hbody⟩, hsound, hmodes⟩ :=
    hasBody_of_lowerMethod built hprepare ops hrun
  obtain ⟨cls, hcls, hmethod⟩ := Option.bind_eq_some_iff.1 hm
  obtain ⟨e', -, ent', he', -, hent', hsig⟩ := hsound.exists_routine hcls hmethod
  cases he.symm.trans he'
  cases hent.symm.trans hent'
  have hlabels : w'.program.Labelled := by
    have hstarted := (inventory_of_prepare built hempty hprepare).labelled
      (target_eq_of_prepare built hprepare ▸ Target.isWord_decoration htarget)
    have hworks : Works Abi.Progress (lowerMethod ref parent) := inferInstance
    have hpath := hworks.changes (operate w0 ops)
    rw [hrun] at hpath
    exact labelled_of_changes ((changes_of_operate w0 ops).trans (Relation.ReflTransGen.mono (fun _ _ h => .progress h) _ _ hpath)) hstarted
  obtain ⟨d, hd, hsymbol, hresult, hparams, hssa, -⟩ :=
    @Source.definition_eq ⟨w'.program, target⟩ _ _ _ _ hentity hgraph (hbody.writable hmodes)
  have hreads := hssa.readsSsa hlabels (hsymbol ▸ isQuiet_symbol target (hlabels e ent hent))
  rw [Source.resultType, m.gives_signature.resultMode_eq hmodes] at hresult
  refine ⟨m, e, hm, he, ent, graph, d, hent, hentity, hgraph, hsig, hd, hreads, hssa, hparams, hresult, ?_, fun n hn id hid => ?_⟩
  · rw [hresult, Ty.ofMode_eq_void_iff, m.gives_signature]
    split_ifs with h <;> simp [h]
  · obtain ⟨a, ha, rfl, hmode⟩ := hbody.drawn.exists_arg hn hid
    obtain ⟨before, -, hsane⟩ := hbody.drawn.formed.sane (Array.mem_toList_iff.2 ha)
    have hshaped := hsane.shaped
    refine ⟨a, hbody.drawn.node?_eq ha, fun hop => ?_, fun hop => ?_⟩
    · simp only [Graph.Shaped, hop] at hshaped
      exact hmode hshaped.2
    · simp only [Graph.Shaped, hop] at hshaped
      obtain ⟨-, t, sig, ht, hsig, hgives⟩ := hshaped
      refine ⟨t, sig, ht, hsig, ?_⟩
      rw [hgives, if_neg hmode]
      exact List.cons_ne_nil _ _

theorem writesBody_of_lowerMethod_interface : Target.ofTriple "x86_64-linux-gnu" = .ok classesWithInterface.target ∧
    classesWithInterface.Built ∧ classesWithInterface.program.entities = #[] ∧ ∃ w0 g w',
    Finishes (prepare false) classesWithInterface () w0 ∧ Finishes (lowerMethod ⟨0, 1⟩ none) (operate w0 []) g w' ∧
    ∃ m e, w0.registry.method? ⟨0, 1⟩ = some m ∧ m.entity = some e ∧ WritesBody w'.program .linux64 m e g := by
  obtain ⟨w0, hprepare, -, ⟨g, w', hlower⟩, -⟩ := exists_classesWithInterface
  have htarget : Target.ofTriple "x86_64-linux-gnu" = .ok classesWithInterface.target := by cbv
  have hempty : classesWithInterface.program.entities = #[] := by cbv
  exact ⟨htarget, built_classesWithInterface, hempty, w0, g, w', hprepare, hlower,
    writesBody_of_lowerMethod htarget built_classesWithInterface hempty hprepare [] hlower .linux64⟩

end ClassAbi.Lowering
