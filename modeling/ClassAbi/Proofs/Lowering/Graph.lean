import ClassAbi.Proofs.Class.Entities
import ClassAbi.Proofs.Graph.Memory

/-!
# Well-formed graphs

The nodes of a body stand in the order of their numbers, and each refers to nodes before it that have values. `Grows` is one
step in building such a graph: it adds a node, or sets the result. The builders of nodes only take such steps, so that what
these keep holds of every body. Which calls and parameters are allowed is said by a rule, which may differ from step to step.
-/

open Relation

namespace ClassAbi

variable {ns : List Node} {mode : Mode} {e routine : EntityId} {t : TypeId} {ptr callee : Node}

/-- Whether the entities and types of a program are still there in another one. -/
structure Program.Within (p p' : Program) : Prop where
  entities : ∀ e ent, p.entity? e = some ent → ∃ ent', p'.entity? e = some ent'
  types : p.types.Extends p'.types

theorem Program.within_graphs (p : Program) (graphs : Array Graph) : p.Within { p with graphs } :=
  ⟨fun _ ent h => ⟨ent, h⟩, fun _ _ h => h⟩

/-- Whether a routine of a signature gives values of a mode. -/
def Signature.Gives (sig : Signature) (mode : Mode) : Prop :=
  sig.results = if mode = .void then [] else [some mode.typeId]

theorem Signature.Gives.resultMode_eq {sig : Signature} {types : TypeTable} (h : sig.Gives mode)
    (hmodes : ∀ mode : Mode, types.shape? mode.typeId = some (.primitive mode)) : types.resultMode sig = mode := by
  rw [TypeTable.resultMode, h]
  split_ifs with hvoid
  · exact hvoid.symm
  · simp [TypeTable.valueMode, TypeTable.mode?, hmodes]

namespace Graph

/-- What a node needs, apart from values for its arguments, to stand after the nodes `before`. -/
def Shaped (p : Program) (before : List Node) (n : Node) : Prop :=
  match n.op with
  | .const => True
  | .param => n.mode = .pointer
  | .address => n.mode = .pointer ∧ ∃ e ent, n.entity = some e ∧ p.entity? e = some ent
  | .load => n.args ≠ []
  | .member => n.args ≠ [] ∧ n.mode = .pointer ∧ Ascii.newline ∉ n.name
  | .vptrIsSet => n.mode = .pointer ∧ Ascii.newline ∉ n.name ∧ ∃ a ∈ before, n.args.head? = some a.id ∧ a.mode = .pointer
  | .add => 2 ≤ n.args.length
  | .store => 2 ≤ n.args.length ∧ n.mode = .void
  | .call => n.args ≠ [] ∧ ∃ t sig, n.type = some t ∧ p.types.signature? t = some sig ∧ sig.Gives n.mode
  | .alloc => n.mode = .pointer ∧
    ∃ t length, n.type = some t ∧ p.types.shape? t = some (.array (some Mode.uint16.typeId) length)
  | .sel => 2 ≤ n.args.length ∧ n.mode = .pointer ∧ n.type = some Mode.uint16.typeId
  | .cmp => 2 ≤ n.args.length ∧ n.mode = .bit ∧ n.relation = .unequal
  | .conv => ∃ a ∈ before, n.args = [a.id] ∧ (a.mode = .bit ∨ a.mode.isInt = true) ∧ n.mode.isInt = true
  | .other _ => False

/-- Whether a node can stand after the nodes `before`. -/
structure Sane (p : Program) (before : List Node) (n : Node) : Prop where
  id : n.id = before.length + 1
  args : ∀ id ∈ n.args, ∃ a ∈ before, a.id = id ∧ a.mode ≠ .void
  shaped : Shaped p before n

/-- Whether each node can stand after those before it. -/
inductive Formed (p : Program) : List Node → Prop
  | nil : Formed p []
  | snoc {before : List Node} {n : Node} (h : Formed p before) (hn : Sane p before n) :
    Formed p (before ++ [n])

/-- What is asked of calls: the types of the program, the nodes before the call, and the call. -/
abbrev CallRule := TypeTable → List Node → Node → Prop

/-- What is asked of the calls and of the numbers of the parameters in a body. -/
structure Rule where
  call : CallRule
  param : Int → Prop

structure Rule.Within (rule rule' : Rule) : Prop where
  call : ∀ types before n, rule.call types before n → rule'.call types before n
  param : ∀ i, rule.param i → rule'.param i

/-- The rule that allows neither calls nor parameters. -/
def Rule.nothing : Rule := ⟨fun _ _ _ => False, fun _ => False⟩

theorem Rule.nothing_within (rule : Rule) : nothing.Within rule := ⟨fun _ _ _ h => h.elim, fun _ h => h.elim⟩

/-- A step in building a graph in which a new node keeps to a rule. -/
inductive Grows (p : Program) (rule : Rule) (g : Graph) : Graph → Prop
  | node {n : Node} {params : List (Int × Node)} (mem : Option NodeId) (hn : Sane p g.nodes.toList n)
    (hrule : n.op = .call → rule.call p.types g.nodes.toList n) (hplace : n.op = .param → rule.param n.value)
    (hparams : ∀ x ∈ params, x ∈ g.params ∨ x.2 = n ∧ n.mode = .pointer) :
    Grows p rule g { g with nodes := g.nodes.push n, numbered := g.numbered + 1, mem, params }
  | result {v : Option NodeId} (hv : ∀ id ∈ v, ∃ a ∈ g.nodes, a.id = id ∧ a.mode ≠ .void) :
    Grows p rule g { g with result := v, returns := true }

/-- Whether a graph is the result of such steps. -/
structure Drawn (p : Program) (g : Graph) : Prop where
  numbered : g.numbered = g.nodes.size
  formed : Formed p g.nodes.toList
  params : ∀ x ∈ g.params, x.2 ∈ g.nodes ∧ x.2.mode = .pointer
  result : ∀ id ∈ g.result, ∃ a ∈ g.nodes, a.id = id ∧ a.mode ≠ .void

variable {p p' : Program} {rule rule' : Rule} {g g' : Graph} {before : List Node} {n : Node}

/-! ### More entities, types and calls -/

theorem Shaped.mono (h : Shaped p before n) (hp : p.Within p') : Shaped p' before n := by
  cases hop : n.op <;> simp only [Shaped, hop] at h ⊢
  case address =>
    obtain ⟨hmode, e, ent, he, hent⟩ := h
    obtain ⟨ent', hent'⟩ := hp.entities e ent hent
    exact ⟨hmode, e, ent', he, hent'⟩
  case call =>
    obtain ⟨hne, t, sig, ht, hsig, hgives⟩ := h
    exact ⟨hne, t, sig, ht, Workspace.signature?_of_extends hp.types hsig, hgives⟩
  case alloc =>
    obtain ⟨hmode, t, length, ht, hshape⟩ := h
    exact ⟨hmode, t, length, ht, hp.types _ _ hshape⟩
  all_goals exact h

theorem Sane.mono (h : Sane p before n) (hp : p.Within p') : Sane p' before n := ⟨h.id, h.args, h.shaped.mono hp⟩

theorem Formed.mono (h : Formed p ns) (hp : p.Within p') : Formed p' ns := by
  induction h with
  | nil => exact .nil
  | snoc _ hn ih => exact .snoc ih (hn.mono hp)

theorem Drawn.mono (h : Drawn p g) (hp : p.Within p') : Drawn p' g := ⟨h.numbered, h.formed.mono hp, h.params, h.result⟩

theorem Grows.mono (h : Grows p rule g g') (hp : p.Within p') (htypes : p'.types = p.types) (hrule : rule.Within rule') :
    Grows p' rule' g g' := by
  cases h with
  | node mem hn hcall hplace hparams =>
    exact .node mem (hn.mono hp) (fun hop => htypes ▸ hrule.call _ _ _ (hcall hop)) (fun hop => hrule.param _ (hplace hop)) hparams
  | result hv => exact .result hv

/-! ### Nodes by number -/

theorem Formed.id_eq (h : Formed p ns) {i : Nat} (hi : ns[i]? = some n) : n.id = i + 1 := by
  induction h with
  | nil => simp at hi
  | @snoc before last _ hlast ih =>
    rw [List.getElem?_append] at hi
    split_ifs at hi with hlt
    · exact ih hi
    · have hbound := (List.getElem?_eq_some_iff.1 hi).1
      have hlength : i = before.length := by
        simp only [List.length_singleton] at hbound
        omega
      subst hlength
      simp only [Nat.sub_self, List.getElem?_cons_zero, Option.some.injEq] at hi
      rw [← hi]
      exact hlast.id

theorem Formed.sane (h : Formed p ns) (hn : n ∈ ns) : ∃ before, (∀ a ∈ before, a ∈ ns) ∧ Sane p before n := by
  induction h with
  | nil => simp at hn
  | @snoc before last _ hlast ih =>
    rcases List.mem_append.1 hn with hn | hn
    · obtain ⟨before', hsub, hsane⟩ := ih hn
      exact ⟨before', fun a ha => List.mem_append_left _ (hsub a ha), hsane⟩
    · obtain rfl := List.mem_singleton.1 hn
      exact ⟨before, fun a ha => List.mem_append_left _ ha, hlast⟩

theorem Drawn.node?_eq (h : Drawn p g) (hn : n ∈ g.nodes) : g.node? n.id = some n :=
  node?_of_ids (fun _ _ hi => h.formed.id_eq (Array.getElem?_toList.trans hi)) hn

theorem grows_nodes (h : Grows p rule g g') : ∀ n ∈ g.nodes, n ∈ g'.nodes := by
  intro n hn
  cases h with
  | node mem _ _ _ _ => exact Array.mem_push_of_mem _ hn
  | result _ => exact hn

theorem grows_entity (h : Grows p rule g g') : g'.entity = g.entity := by
  cases h <;> rfl

theorem Drawn.grows (h : Drawn p g) (hstep : Grows p rule g g') : Drawn p g' := by
  cases hstep with
  | @node n params mem hn _ _ hparams =>
    refine ⟨by simp [h.numbered], ?_, ?_, ?_⟩
    · rw [Array.toList_push]
      exact .snoc h.formed hn
    · intro x hx
      rcases hparams x hx with hold | ⟨heq, hmode⟩
      · exact ⟨Array.mem_push_of_mem _ (h.params x hold).1, (h.params x hold).2⟩
      · rw [heq]
        exact ⟨Array.mem_push_self, hmode⟩
    · intro id hid
      obtain ⟨a, ha, hrest⟩ := h.result id hid
      exact ⟨a, Array.mem_push_of_mem _ ha, hrest⟩
  | result hv => exact ⟨h.numbered, h.formed, h.params, hv⟩

theorem drawn_empty (e : Option EntityId) : Drawn p { entity := e } :=
  ⟨rfl, .nil, by simp, by simp⟩

/-! ### Builders -/

theorem nodes_of_path (h : ReflTransGen (Grows p rule) g g') : ∀ n ∈ g.nodes, n ∈ g'.nodes :=
  fun n => keep_along (P := fun g => n ∈ g.nodes) (fun _ _ hn hstep => grows_nodes hstep n hn) h

theorem Drawn.path (h : Drawn p g) (hpath : ReflTransGen (Grows p rule) g g') : Drawn p g' :=
  keep_along (fun _ _ h hstep => h.grows hstep) hpath h

def Offers (g : Graph) (n : Node) : Prop := n ∈ g.nodes ∧ n.mode ≠ .void

theorem Offers.path (h : g.Offers n) (hpath : ReflTransGen (Grows p rule) g g') : g'.Offers n :=
  ⟨nodes_of_path hpath n h.1, h.2⟩

variable {α β : Type} {step : Builder α} {f : α → Builder β} {Q : α → Graph → Prop} {R : β → Graph → Prop}

/-- Whether a builder that is given the graph `g`, if that is well formed, only takes such steps and gives a result for which
`Q` holds. -/
def Draws (p : Program) (rule : Rule) (step : Builder α) (g : Graph) (Q : α → Graph → Prop) : Prop :=
  Drawn p g → ∃ a g', step g = (a, g') ∧ ReflTransGen (Grows p rule) g g' ∧ Q a g'

theorem draws_pure {a : α} (h : Q a g) : Draws p rule (pure a) g Q := fun _ => ⟨a, g, rfl, .refl, h⟩

theorem Draws.bind (hstep : Draws p rule step g Q)
    (hf : ∀ a g', (∀ n, g.Offers n → g'.Offers n) → Q a g' → Draws p rule (f a) g' R) :
    Draws p rule (step >>= f) g R := by
  intro hg
  obtain ⟨a, g1, hrun, hpath, hQ⟩ := hstep hg
  obtain ⟨b, g2, hrun', hpath', hR⟩ := hf a g1 (fun _ hn => hn.path hpath) hQ (hg.path hpath)
  refine ⟨b, g2, ?_, hpath.trans hpath', hR⟩
  show (let r := step g; f r.1 r.2) = (b, g2)
  rw [hrun]
  exact hrun'

theorem Draws.imp {Q' : α → Graph → Prop} (h : Draws p rule step g Q) (hQ : ∀ a g', Q a g' → Q' a g') :
    Draws p rule step g Q' := by
  intro hg
  obtain ⟨a, g', hrun, hpath, h⟩ := h hg
  exact ⟨a, g', hrun, hpath, hQ a g' h⟩

def numberedNode (g : Graph) (n : Node) : Node := { n with id := g.numbered + 1 }

theorem sane_numberedNode (hg : Drawn p g) (hargs : ∀ id ∈ n.args, ∃ a, g.Offers a ∧ a.id = id)
    (hshaped : Shaped p g.nodes.toList (g.numberedNode n)) : Sane p g.nodes.toList (g.numberedNode n) := by
  refine ⟨by simp [numberedNode, hg.numbered], fun id hid => ?_, hshaped⟩
  obtain ⟨a, ⟨ha, hmode⟩, heq⟩ := hargs id hid
  exact ⟨a, Array.mem_toList_iff.2 ha, heq, hmode⟩

theorem draws_add (hop : n.op ≠ .call ∧ n.op ≠ .param) (hargs : ∀ id ∈ n.args, ∃ a, g.Offers a ∧ a.id = id)
    (hshaped : Drawn p g → Shaped p g.nodes.toList (g.numberedNode n)) :
    Draws p rule (add n) g fun n' g' => n' = g.numberedNode n ∧ n' ∈ g'.nodes := by
  intro hg
  refine ⟨_, _, rfl, .single (.node g.mem (sane_numberedNode hg hargs (hshaped hg)) (fun h => absurd h hop.1)
    (fun h => absurd h hop.2) fun x hx => .inl hx), rfl, ?_⟩
  exact Array.mem_push_self

theorem draws_effect (hrule : n.op = .call → rule.call p.types g.nodes.toList (g.numberedNode { n with mem := g.mem }))
    (hop : n.op ≠ .param)
    (hargs : ∀ id ∈ n.args, ∃ a, g.Offers a ∧ a.id = id)
    (hshaped : Drawn p g → Shaped p g.nodes.toList (g.numberedNode { n with mem := g.mem })) :
    Draws p rule (effect n) g fun n' g' => n' = g.numberedNode { n with mem := g.mem } ∧ n' ∈ g'.nodes := by
  intro hg
  refine ⟨_, _, rfl, .single (.node (some (g.numbered + 1)) (sane_numberedNode hg ?_ (hshaped hg)) hrule
    (fun h => absurd h hop) fun x hx => .inl hx), rfl, ?_⟩
  · exact hargs
  · exact Array.mem_push_self

theorem draws_const (hmode : mode ≠ .void) (v : Int) :
    Draws p rule (const mode v) g fun n g' => g'.Offers n ∧ n.mode = mode := by
  refine (draws_add (n := { op := .const, mode, value := v }) (by simp) (by simp) fun _ => trivial).imp ?_
  rintro _ g' ⟨rfl, hmem⟩
  exact ⟨⟨hmem, hmode⟩, rfl⟩

theorem draws_consts {ts : List JavaType} (hts : ∀ t ∈ ts, t.mode ≠ .void) :
    Draws p rule (ts.mapM fun t => const t.mode 0) g fun ns g' =>
      (∀ n ∈ ns, g'.Offers n) ∧ ns.map Node.mode = ts.map JavaType.mode := by
  induction ts generalizing g with
  | nil =>
    rw [List.mapM_nil]
    exact draws_pure ⟨by simp, rfl⟩
  | cons t ts ih =>
    rw [List.forall_mem_cons] at hts
    rw [List.mapM_cons]
    refine (draws_const hts.1 0).bind fun n g1 _ hn => (ih hts.2).bind fun ns g2 hkept hns => draws_pure ?_
    rw [List.forall_mem_cons, List.map_cons, List.map_cons, hn.2, hns.2]
    exact ⟨⟨hkept n hn.1, hns.1⟩, rfl⟩

theorem draws_address {ent : Entity} (he : p.entity? e = some ent) :
    Draws p rule (address e) g fun n g' =>
      g'.Offers n ∧ n.mode = .pointer ∧ n.op = .address ∧ n.entity = some e := by
  refine (draws_add (n := { op := .address, mode := .pointer, entity := some e }) (by simp) (by simp)
    fun _ => ⟨rfl, e, ent, rfl, he⟩).imp ?_
  rintro _ g' ⟨rfl, hmem⟩
  exact ⟨⟨hmem, by simp [numberedNode]⟩, rfl, rfl, rfl⟩

theorem draws_param {i : Int} (hi : rule.param i) : Draws p rule (param i .pointer) g fun n g' => g'.Offers n ∧ n.mode = .pointer := by
  intro hg
  cases hlookup : g.params.lookup i with
  | some n =>
    obtain ⟨before, after, heq, -⟩ := List.lookup_eq_some_iff.1 hlookup
    obtain ⟨hmem, hmode⟩ := hg.params (i, n) (by simp [heq])
    exact ⟨n, g, param_of_known .pointer hlookup, .refl, ⟨hmem, by simp_all⟩, hmode⟩
  | none =>
    obtain ⟨n, hn⟩ : ∃ n, n = g.numberedNode { op := .param, mode := .pointer, value := i } := ⟨_, rfl⟩
    have hsane : Sane p g.nodes.toList n := by
      rw [hn]
      exact sane_numberedNode hg (by simp) rfl
    have hstep : Grows p rule g
        { g with nodes := g.nodes.push n, numbered := g.numbered + 1, params := (i, n) :: g.params } := by
      refine .node g.mem hsane (fun h => by simp [hn, numberedNode] at h) (fun _ => by rw [hn]; exact hi) fun x hx => ?_
      rcases List.mem_cons.1 hx with rfl | hx
      · exact .inr ⟨rfl, by rw [hn]; rfl⟩
      · exact .inl hx
    refine ⟨n, _, ?_, .single hstep, ⟨Array.mem_push_self, by simp [hn, numberedNode]⟩, by rw [hn]; rfl⟩
    rw [param_of_new .pointer hlookup, hn]
    rfl

theorem offered_of_args {args : List Node} (h : ∀ a ∈ args, g.Offers a) : ∀ id ∈ args.map Node.id, ∃ a, g.Offers a ∧ a.id = id := by
  intro id hid
  obtain ⟨a, ha, rfl⟩ := List.mem_map.1 hid
  exact ⟨a, h a ha, rfl⟩

theorem draws_sum {left right : Node} (hleft : g.Offers left) (hright : g.Offers right) :
    Draws p rule (sum left right) g fun n g' => g'.Offers n ∧ n.mode = left.mode := by
  refine (draws_add (n := { op := .add, mode := left.mode, args := [left, right].map Node.id }) (by simp)
    (offered_of_args (by simp [hleft, hright])) fun _ => le_rfl).imp ?_
  rintro _ g' ⟨rfl, hmem⟩
  exact ⟨⟨hmem, hleft.2⟩, rfl⟩

theorem draws_load {addr : Node} (haddr : g.Offers addr) (hmode : mode ≠ .void) :
    Draws p rule (load addr mode) g fun n g' => g'.Offers n ∧ n.mode = mode ∧ n.op = .load ∧ n.args = [addr.id] := by
  refine (draws_effect (n := { op := .load, mode, args := [addr].map Node.id }) (by simp) (by simp)
    (offered_of_args (by simp [haddr])) fun _ => List.cons_ne_nil _ _).imp ?_
  rintro _ g' ⟨rfl, hmem⟩
  exact ⟨⟨hmem, hmode⟩, rfl, rfl, rfl⟩

theorem draws_store {addr val : Node} (haddr : g.Offers addr) (hval : g.Offers val) :
    Draws p rule (store addr val) g fun _ _ => True :=
  (draws_effect (n := { op := .store, mode := .void, type := some val.mode.typeId, args := [addr, val].map Node.id }) (by simp)
    (by simp)
    (offered_of_args (by simp [haddr, hval])) fun _ => ⟨le_rfl, rfl⟩).imp fun _ _ _ => trivial

theorem draws_alloc {length : Int} (ht : p.types.shape? t = some (.array (some Mode.uint16.typeId) length)) (count : Int) :
    Draws p rule (alloc t count) g fun n g' => g'.Offers n ∧ n.mode = .pointer := by
  refine (draws_effect (n := { op := .alloc, mode := .pointer, type := some t, value := count }) (by simp) (by simp)
    (by simp) fun _ => ⟨rfl, t, length, rfl, ht⟩).imp ?_
  rintro _ g' ⟨rfl, hmem⟩
  exact ⟨⟨hmem, by simp [numberedNode]⟩, rfl⟩

theorem draws_member {name : Text} (hptr : g.Offers ptr) (hname : Ascii.newline ∉ name) (offset : Int) :
    Draws p rule (member ptr name offset) g fun n g' =>
      g'.Offers n ∧ n.mode = .pointer ∧ n.op = .member ∧ n.args = [ptr.id] ∧ n.value = offset := by
  refine (draws_add (n := { op := .member, mode := .pointer, name, value := offset, args := [ptr].map Node.id }) (by simp)
    (offered_of_args (by simp [hptr])) fun _ => ⟨List.cons_ne_nil _ _, rfl, hname⟩).imp ?_
  rintro _ g' ⟨rfl, hmem⟩
  exact ⟨⟨hmem, by simp [numberedNode]⟩, rfl, rfl, rfl, rfl⟩

theorem draws_sel {index : Node} (hptr : g.Offers ptr) (hindex : g.Offers index) :
    Draws p rule (sel ptr index (some Mode.uint16.typeId)) g fun n g' => g'.Offers n ∧ n.mode = .pointer := by
  refine (draws_add (n := { op := .sel, mode := .pointer, type := some Mode.uint16.typeId, args := [ptr, index].map Node.id }) (by simp)
    (offered_of_args (by simp [hptr, hindex])) fun _ => ⟨le_rfl, rfl, rfl⟩).imp ?_
  rintro _ g' ⟨rfl, hmem⟩
  exact ⟨⟨hmem, by simp [numberedNode]⟩, rfl⟩

theorem draws_conv {v : Node} (hv : g.Offers v) (hsource : v.mode = .bit ∨ v.mode.isInt = true)
    (hmode : mode.isInt = true) : Draws p rule (conv v mode) g fun n g' => g'.Offers n ∧ n.mode = mode := by
  rw [conv]
  split_ifs with heq
  · exact draws_pure ⟨hv, heq⟩
  · refine (draws_add (n := { op := .conv, mode, args := [v].map Node.id }) (by simp) (offered_of_args (by simp [hv]))
      fun _ => ⟨v, Array.mem_toList_iff.2 hv.1, rfl, hsource, hmode⟩).imp ?_
    rintro _ g' ⟨rfl, hmem⟩
    refine ⟨⟨hmem, ?_⟩, rfl⟩
    rintro hvoid
    rw [show mode = .void from hvoid] at hmode
    cases hmode

theorem draws_cmp {left right : Node} (hleft : g.Offers left) (hright : g.Offers right) :
    Draws p rule (cmp left right .unequal) g fun n g' => g'.Offers n ∧ n.mode = .bit := by
  refine (draws_add (n := { op := .cmp, mode := .bit, relation := .unequal, args := [left, right].map Node.id }) (by simp)
    (offered_of_args (by simp [hleft, hright])) fun _ => ⟨le_rfl, rfl, rfl⟩).imp ?_
  rintro _ g' ⟨rfl, hmem⟩
  exact ⟨⟨hmem, by simp [numberedNode]⟩, rfl⟩

theorem draws_vptrIsSet {vptr : Option Node} {cls : Text} (hptr : g.Offers ptr) (hmode : ptr.mode = .pointer)
    (hvptr : ∀ n ∈ vptr, g.Offers n) (hcls : Ascii.newline ∉ cls) :
    Draws p rule (vptrIsSet ptr cls vptr) g fun n g' => g'.Offers n ∧ n.mode = .pointer := by
  have hargs : ∀ id ∈ ptr.id :: (vptr.map Node.id).toList, ∃ a, g.Offers a ∧ a.id = id := by
    intro id hid
    rcases List.mem_cons.1 hid with rfl | hid
    · exact ⟨ptr, hptr, rfl⟩
    · obtain ⟨v, hv, rfl⟩ := Option.map_eq_some_iff.1 (Option.mem_toList.1 hid)
      exact ⟨v, hvptr v hv, rfl⟩
  refine (draws_effect (n := { op := .vptrIsSet, mode := .pointer, name := cls, args := ptr.id :: (vptr.map Node.id).toList }) (by simp)
    (by simp) hargs fun _ => ⟨rfl, hcls, ptr, Array.mem_toList_iff.2 hptr.1, rfl, hmode⟩).imp ?_
  rintro _ g' ⟨rfl, hmem⟩
  exact ⟨⟨hmem, by simp [numberedNode]⟩, rfl⟩

/-- Whether a node after the nodes `before` has a callee and then arguments of the given modes. -/
def Passes (before : List Node) (callee : Node) (modes : List Mode) (n : Node) : Prop :=
  callee ∈ before ∧ ∃ args, (∀ a ∈ args, a ∈ before) ∧ n.args = (callee :: args).map Node.id ∧ args.map Node.mode = modes

theorem Passes.mono {after : List Node} {modes : List Mode} (h : Passes before callee modes n)
    (hnodes : ∀ a ∈ before, a ∈ after) : Passes after callee modes n := by
  obtain ⟨hcallee, args, hargs, hn⟩ := h
  exact ⟨hnodes callee hcallee, args, fun a ha => hnodes a (hargs a ha), hn⟩

theorem draws_call {sig : Signature} {args : List Node} (hcallee : g.Offers callee) (hargs : ∀ a ∈ args, g.Offers a)
    (hsig : p.types.signature? t = some sig) (hgives : sig.Gives mode)
    (hrule : ∀ n, n.type = some t → Passes g.nodes.toList callee (args.map Node.mode) n → rule.call p.types g.nodes.toList n) :
    Draws p rule (call callee t mode args) g fun n g' => n ∈ g'.nodes ∧ n.mode = mode ∧ n.op = .call ∧ n.type = some t ∧
      n.args = callee.id :: args.map Node.id ∧ Passes g'.nodes.toList callee (args.map Node.mode) n := by
  have hpasses : ∀ n : Node, n.args = (callee :: args).map Node.id → Passes g.nodes.toList callee (args.map Node.mode) n :=
    fun n hn => ⟨Array.mem_toList_iff.2 hcallee.1, args, fun a ha => Array.mem_toList_iff.2 (hargs a ha).1, hn, rfl⟩
  intro hg
  have heffect : Draws p rule (effect { op := .call, mode, type := some t, args := (callee :: args).map Node.id }) g _ :=
    draws_effect (fun _ => hrule _ rfl (hpasses _ rfl)) (by simp) (offered_of_args (by simpa [hcallee] using hargs))
      fun _ => ⟨List.cons_ne_nil _ _, t, sig, rfl, hsig, hgives⟩
  obtain ⟨n, g', hrun, hpath, rfl, hmem⟩ := heffect hg
  refine ⟨_, g', hrun, hpath, hmem, rfl, rfl, rfl, rfl, (hpasses _ rfl).mono fun a ha => ?_⟩
  exact Array.mem_toList_iff.2 (nodes_of_path hpath a (Array.mem_toList_iff.1 ha))

theorem draws_ret {v : Option Node} (hv : ∀ n ∈ v, g.Offers n) :
    Draws p rule (ret v) g fun _ g' => g'.result = v.map Node.id ∧ ∀ n ∈ v, g'.Offers n := by
  refine fun _ => ⟨_, _, rfl, .single (.result fun id hid => ?_), rfl, hv⟩
  obtain ⟨n, hn, rfl⟩ := Option.map_eq_some_iff.1 hid
  exact ⟨n, (hv n hn).1, rfl, (hv n hn).2⟩

/-! ### Calls of one routine -/

/-- The entity whose address is the first argument of a call. -/
def argument? (g : Graph) (call : Node) : Option EntityId := do
  let arg ← g.node? (← (callArgs call).head?)
  guard (arg.op = .address)
  arg.entity

/-- The first arguments of the calls that name a routine, in order. -/
def targets (g : Graph) (routine : EntityId) : List (Option EntityId) :=
  (g.calls.filter fun call => g.callee? call == some routine).map g.argument?

theorem Drawn.exists_arg (h : Drawn p g) (hn : n ∈ g.nodes) {id : NodeId} (hid : id ∈ n.args) :
    ∃ a ∈ g.nodes, a.id = id ∧ a.mode ≠ .void := by
  obtain ⟨before, hsub, hsane⟩ := h.formed.sane (Array.mem_toList_iff.2 hn)
  obtain ⟨a, ha, hrest⟩ := hsane.args id hid
  exact ⟨a, Array.mem_toList_iff.1 (hsub a ha), hrest⟩

theorem Drawn.node?_of_arg (hg : Drawn p g) (hg' : Drawn p g') (hnodes : ∀ n ∈ g.nodes, n ∈ g'.nodes)
    (hn : n ∈ g.nodes) {id : NodeId} (hid : id ∈ n.args) : g'.node? id = g.node? id := by
  obtain ⟨a, ha, rfl, -⟩ := hg.exists_arg hn hid
  rw [hg.node?_eq ha, hg'.node?_eq (hnodes a ha)]

theorem Drawn.callee?_eq (hg : Drawn p g) (hg' : Drawn p g') (hnodes : ∀ n ∈ g.nodes, n ∈ g'.nodes)
    (hn : n ∈ g.nodes) : g'.callee? n = g.callee? n := by
  unfold callee?
  cases hhead : n.args.head? with
  | none => rfl
  | some id =>
    simp only [Option.bind_eq_bind, Option.bind_some]
    rw [hg.node?_of_arg hg' hnodes hn (List.mem_of_head? hhead)]

theorem Drawn.argument?_eq (hg : Drawn p g) (hg' : Drawn p g') (hnodes : ∀ n ∈ g.nodes, n ∈ g'.nodes)
    (hn : n ∈ g.nodes) : g'.argument? n = g.argument? n := by
  unfold argument?
  cases hhead : (callArgs n).head? with
  | none => rfl
  | some id =>
    have hid : id ∈ n.args := by
      have hmem := List.mem_of_head? hhead
      rw [callArgs] at hmem
      split_ifs at hmem
      · exact List.mem_of_mem_tail hmem
      · simp at hmem
    simp only [Option.bind_eq_bind, Option.bind_some]
    rw [hg.node?_of_arg hg' hnodes hn hid]

theorem op_beq_call_iff (op : Op) : (op == .call) = true ↔ op = .call := by
  cases op <;> simp <;> rfl

theorem targets_push (hg : Drawn p g) (hg' : Drawn p g') (hnodes : g'.nodes = g.nodes.push n) :
    g'.targets routine = g.targets routine ++
      if g'.callee? n = some routine then [g'.argument? n] else [] := by
  have hkept : ∀ a ∈ g.nodes, a ∈ g'.nodes := fun a ha => hnodes ▸ Array.mem_push_of_mem n ha
  have hmem : ∀ a ∈ g.calls, a ∈ g.nodes := fun a ha => Array.mem_toList_iff.1 (List.mem_filter.1 ha).1
  have hcalls : g'.calls = g.calls ++ if n.op = .call then [n] else [] := by
    simp only [calls, hnodes, Array.toList_push, List.filter_append, List.filter_cons, List.filter_nil, op_beq_call_iff]
  have hnew : g'.callee? n = some routine → n.op = .call := by
    intro h
    by_contra hop
    simp [callee?, hop] at h
  have hold : (g.calls.filter fun call => g'.callee? call == some routine).map g'.argument? = g.targets routine := by
    have hfilter : g.calls.filter (fun call => g'.callee? call == some routine) =
        g.calls.filter fun call => g.callee? call == some routine :=
      List.filter_congr fun a ha => by rw [hg.callee?_eq hg' hkept (hmem a ha)]
    rw [hfilter, targets]
    exact List.map_congr_left fun a ha => hg.argument?_eq hg' hkept (hmem a (List.mem_filter.1 ha).1)
  rw [targets, hcalls, List.filter_append, List.map_append, hold]
  by_cases hcall : g'.callee? n = some routine
  · simp [hcall, hnew hcall]
  · by_cases hop : n.op = .call <;> simp [hcall, hop]

/-- Whether a rule allows no direct calls of a routine. -/
def Avoids (rule : Rule) (routine : EntityId) : Prop :=
  ∀ types before n, rule.call types before n →
    ∃ callee modes, Passes before callee modes n ∧ (callee.op = .address → callee.entity ≠ some routine)

theorem targets_grows (hg : Drawn p g) (h : Grows p rule g g') (hroutine : Avoids rule routine) :
    g'.targets routine = g.targets routine := by
  have hg' := hg.grows h
  cases h with
  | result hv => rfl
  | @node n params mem hn hrule _ hparams =>
    rw [targets_push hg hg' rfl, if_neg, List.append_nil]
    intro hcallee
    simp only [callee?, Option.bind_eq_bind, Option.bind_eq_some_iff, Option.guard_eq_some'] at hcallee
    obtain ⟨-, hop, id, hid, callee, hcallee, -, haddress, hentity⟩ := hcallee
    obtain ⟨callee', modes, ⟨hmem, args, -, hargs, -⟩, hne⟩ := hroutine _ _ _ (hrule hop)
    -- The number of a node determines it.
    have hsame : callee'.id = id := by simpa [hargs] using hid
    rw [← hsame, hg'.node?_eq (Array.mem_push_of_mem n (Array.mem_toList_iff.1 hmem))] at hcallee
    cases hcallee
    exact hne haddress hentity

theorem targets_call {arg : Node} (hg : Drawn p g) (hg' : Drawn p (call callee t mode [arg] g).2)
    (hcallee : callee ∈ g.nodes) (hop : callee.op = .address) (hroutine : callee.entity = some routine)
    (harg : arg ∈ g.nodes) (hargOp : arg.op = .address) (he : arg.entity = some e) :
    (call callee t mode [arg] g).2.targets routine = g.targets routine ++ [some e] := by
  have hkept : ∀ a ∈ g.nodes, a ∈ (call callee t mode [arg] g).2.nodes := fun a ha => Array.mem_push_of_mem _ ha
  have hfound := hg'.node?_eq (hkept callee hcallee)
  have hfound' := hg'.node?_eq (hkept arg harg)
  rw [targets_push hg hg' rfl, if_pos]
  · congr 2
    simp [argument?, callArgs, hfound', hargOp, he]
  · simp [callee?, hfound, hop, hroutine]

theorem targets_path (hg : Drawn p g) (hpath : ReflTransGen (Grows p rule) g g') (hroutine : Avoids rule routine) :
    g'.targets routine = g.targets routine := by
  have hboth := keep_along (P := fun v => Drawn p v ∧ v.targets routine = g.targets routine)
    (fun u v ⟨hu, heq⟩ hstep => ⟨hu.grows hstep, (targets_grows hu hstep hroutine).trans heq⟩) hpath ⟨hg, rfl⟩
  exact hboth.2

theorem draws_directCall {ent : Entity} {arg : Node} {sig : Signature} (hroutine : p.entity? routine = some ent)
    (harg : g.Offers arg) (hop : arg.op = .address) (he : arg.entity = some e) (hsig : p.types.signature? t = some sig)
    (hgives : sig.Gives mode)
    (hrule : ∀ callee before n, callee.op = .address → callee.entity = some routine → n.type = some t →
      Passes before callee [arg.mode] n → rule.call p.types before n) :
    Draws p rule (do call (← address routine) t mode [arg]) g fun _ g' =>
      g'.targets routine = g.targets routine ++ [some e] := by
  intro hg
  -- The address alone is drawn without any call.
  have haddress : Draws p .nothing (address routine) g _ := draws_address hroutine
  obtain ⟨callee, g1, hrun1, hpath1, hcallee, -, hcalleeOp, hentity⟩ := haddress hg
  have hg1 := hg.path hpath1
  have hpath : ReflTransGen (Grows p rule) g g1 := ReflTransGen.mono
    (fun _ _ h => Grows.mono h (p.within_graphs p.graphs) rfl (Rule.nothing_within rule)) _ _ hpath1
  have harg1 := harg.path hpath1
  have hcall : Draws p rule (call callee t mode [arg]) g1 _ :=
    draws_call hcallee (by simpa using harg1) hsig hgives fun n => hrule callee _ n hcalleeOp hentity
  obtain ⟨n, g2, hrun2, hpath2, -⟩ := hcall hg1
  have hg2 : Drawn p (call callee t mode [arg] g1).2 := by
    rw [hrun2]
    exact hg1.path hpath2
  have htargets := targets_call hg1 hg2 hcallee.1 hcalleeOp hentity harg1.1 hop he
  rw [hrun2, targets_path hg hpath1 fun _ _ _ h => h.elim] at htargets
  refine ⟨n, g2, ?_, hpath.trans hpath2, htargets⟩
  show (let r := address routine g; call r.1 t mode [arg] r.2) = (n, g2)
  rw [hrun1]
  exact hrun2

end Graph

end ClassAbi
