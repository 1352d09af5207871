import ClassAbi.Proofs.Lowering.Operation

/-!
# Bodies of methods

What is known of a body once it has been built: its graph is well formed, its calls are those of its operations, and it calls
the init-class helper once for each operation that runs an initializer, in the order of the operations. Building a body leaves
other bodies as they are.
-/

open Relation

namespace ClassAbi

variable {graph : Graph} {routine e : EntityId} {p : Program} {last : Option Node} {m : Method} {ref : MethodRef}
  {parent : Option Nat}

def Lowering.operations (ops : List Text) : List Lowering.Operation :=
  ops.filterMap fun source => (Lowering.Operation.ofText source).toOption

/-- The classes whose initializers the operations of a body run, in order. -/
def Lowering.initialized (ops : List Text) : List Text := (Lowering.operations ops).filterMap Lowering.Operation.initialized?

/-- The methods that the operations of a body call through interfaces, in order. -/
def Lowering.invoked (r : Registry) (ops : List Text) : List Method :=
  (Lowering.operations ops).filterMap (Lowering.Operation.invoked? r)

def Registry.descriptorNamed? (r : Registry) (name : Text) : Option EntityId :=
  ((r.find? name).bind r.class?).bind Class.descriptor

namespace Lowering

open ClassAbi.Action Workspace Abi

/-- The first arguments of the calls of a routine in the body `g`. -/
def targetsOf (w : Workspace) (g : GraphId) (routine : EntityId) : List (Option EntityId) :=
  ((w.program.graphs[g]?).map fun graph => graph.targets routine).getD []

variable {w0 w w' : Workspace} {s0 : Session} {rule rule' : Graph.Rule} {g : GraphId} {α : Type}

theorem targetsOf_eq (h : w.program.graphs[g]? = some graph) (routine : EntityId) :
    targetsOf w g routine = graph.targets routine := by rw [targetsOf, h, Option.map_some, Option.getD_some]

theorem targetsOf_path (hready : Ready w0 g w) (hpath : ReflTransGen (Draw rule g) w w')
    (hroutine : Graph.Avoids rule routine) : targetsOf w' g routine = targetsOf w g routine := by
  have hboth := keep_along (P := fun v => Ready w0 g v ∧ targetsOf v g routine = targetsOf w g routine) ?_ hpath ⟨hready, rfl⟩
  · exact hboth.2
  rintro u v ⟨hu, heq⟩ hstep
  refine ⟨hu.draw hstep, ?_⟩
  rw [← heq]
  cases hstep with
  | add hadd => rw [targetsOf, targetsOf, hadd.graphs_eq]
  | @grow graph graph' hgraph hgrows =>
    obtain ⟨graph1, hgraph1, hdrawn⟩ := hu.graph
    cases hgraph.symm.trans hgraph1
    rw [targetsOf_eq hgraph, targetsOf_eq (getElem?_setIfInBounds_of_some hgraph)]
    exact Graph.targets_grows hdrawn hgrows hroutine

theorem Lowers.lift {x : Action α} {Q : α → Workspace → Prop} (h : Lowers w0 rule g x w Q)
    (hrule : rule.Within rule') : Lowers w0 rule' g x w Q :=
  fun hready => (h hready).lift fun _ _ h => h.lift hrule

theorem Lowers.silent {x : Action α} {Q : α → Workspace → Prop} (h : Lowers w0 rule g x w Q)
    (hroutine : Graph.Avoids rule routine) :
    Lowers w0 rule g x w fun a w' => Q a w' ∧ targetsOf w' g routine = targetsOf w g routine := by
  intro hready
  refine (h hready).and_changes.imp ?_
  rintro a w' ⟨hpath, hQ⟩
  exact ⟨hQ, targetsOf_path hready hpath hroutine⟩

theorem draws_finish (result : JavaType) (hlast : ∀ n ∈ last, n.mode ≠ .void → graph.Offers n) :
    Graph.Draws p rule (finish result last) graph fun _ g' =>
      ∀ id ∈ g'.result, ∃ n ∈ g'.nodes, n.id = id ∧ n.mode = result.mode := by
  rw [finish]
  split_ifs with hvoid
  · exact (Graph.draws_ret (by simp)).imp fun _ g' h => by simp [h.1]
  have hmode : result.mode ≠ .void := mt JavaType.mode_eq_void_iff.1 hvoid
  have hret : ∀ (n : Node) (g' : Graph), g'.Offers n → n.mode = result.mode →
      Graph.Draws p rule (Graph.ret (some n)) g' fun _ g'' =>
        ∀ id ∈ g''.result, ∃ n ∈ g''.nodes, n.id = id ∧ n.mode = result.mode := by
    intro n g' hn hmode
    refine (Graph.draws_ret (by simpa using hn)).imp fun _ g'' h => ?_
    simpa [h.1] using ⟨n, (h.2 n rfl).1, rfl, hmode⟩
  have hzero : Graph.Draws p rule (Graph.const result.mode 0) graph _ := Graph.draws_const hmode 0
  dsimp only
  split
  · rename_i v
    split_ifs with hsame hbit
    · exact hret v graph (hlast v rfl (hsame ▸ hmode)) hsame
    · simp only [Bool.and_eq_true, decide_eq_true_eq] at hbit
      have hv := hlast v rfl (by simp [hbit.1])
      exact (Graph.draws_conv hv (.inl hbit.1) hbit.2).bind fun n g' _ hn => hret n g' hn.1 hn.2
    · exact hzero.bind fun n g' _ hn => hret n g' hn.1 hn.2
  · exact hzero.bind fun n g' _ hn => hret n g' hn.1 hn.2

section

variable {d : DeclaredHelper} (hd : w0.helper? .initClass = some d)

include hd

theorem helper_entity_ne (hstart : Started w0 s0) {x : Helper} {d' : DeclaredHelper} (hx : x ≠ .initClass) (hd' : w0.helper? x = some d') :
    d'.entity ≠ d.entity := by
  have hld : ∀ {y : Helper} {k : DeclaredHelper}, w0.helper? y = some k →
      ∃ ent, w0.program.entity? k.entity = some ent ∧ ent.ld = w0.target.decorate y.ld := by
    intro y k hk
    obtain ⟨k', hk', ⟨ent, hent, hent_ld, -⟩, -⟩ := hstart.helper y
    rw [helper?, hstart.session, Option.bind_some, hk'] at hk
    cases hk
    exact ⟨ent, hent, hent_ld⟩
  intro heq
  obtain ⟨ent, hent, hent_ld⟩ := hld hd
  obtain ⟨ent', hent', hent_ld'⟩ := hld hd'
  rw [heq, hent] at hent'
  cases hent'
  have hsame : x.ld = Helper.initClass.ld := List.append_cancel_left (hent_ld'.symm.trans hent_ld)
  revert hsame hx
  cases x <;> decide

theorem avoids_initClass (hready : Ready w0 g w)
    (hrule : ∀ types before n, rule.call types before n → ∃ k, k ≠ .helper .initClass ∧ Calls w0 k types before n) :
    Graph.Avoids rule d.entity := by
  intro types before n hn
  obtain ⟨s0, hstart⟩ := hready.sound.started
  obtain ⟨k, hk, hcalls⟩ := hrule types before n hn
  cases k with
  | helper x =>
    obtain ⟨d', callee, hd', -, -, -, hentity, hpasses⟩ := hcalls
    refine ⟨callee, _, hpasses, fun _ heq => ?_⟩
    exact helper_entity_ne hd hstart (fun hx => hk (hx ▸ rfl)) hd' (Option.some.inj (hentity.symm.trans heq))
  | method m =>
    obtain ⟨t, callee, -, -, hcall, hpasses⟩ := hcalls
    exact ⟨callee, _, hpasses, by simp [hcall]⟩

theorem lowers_initClass {c : ClassId}
    (hrule : ∀ x types before n, Calls w0 (.helper x) types before n → rule.call types before n) :
    Lowers w0 rule g (Abi.initClass g c) w fun _ w' =>
      ∃ e, w0.descriptorEntity (.cls c) = some e ∧ targetsOf w' g d.entity = targetsOf w g d.entity ++ [some e] := by
  intro hready
  have hclass : Lowers w0 ⟨fun types before n => ∃ x, x ≠ .initClass ∧ Calls w0 (.helper x) types before n, fun _ => False⟩ g
      (classObject g (.cls c)) w _ := lowers_classObject (by exact fun x hx _ _ _ h => ⟨x, hx, h⟩) (.cls c)
  have hsilent := hclass.silent (avoids_initClass hd hready fun _ _ _ ⟨x, hx, h⟩ => ⟨.helper x, by simpa using hx, h⟩)
  refine (hsilent.lift ⟨fun _ _ _ ⟨x, _, h⟩ => hrule x _ _ _ h, fun _ h => h.elim⟩).bind ?_ hready
  rintro jclass w1 hpath ⟨⟨hjclass, hmode, hdescriptor⟩, htargets⟩
  obtain ⟨hop, hentity, hsome⟩ := hdescriptor c rfl
  obtain ⟨e, he⟩ := Option.ne_none_iff_exists'.1 hsome
  have hcall : Lowers w0 rule g (callHelper g .initClass [jclass]) w1 fun _ w' =>
      targetsOf w' g d.entity = targetsOf w g d.entity ++ [some e] := by
    intro hready
    refine (leads_helper .initClass).bind ?_
    rintro d' _ - ⟨rfl, hd'⟩
    rw [hready.sound.follows.helper?_eq] at hd'
    cases hd.symm.trans hd'
    obtain ⟨⟨ent, hent⟩, hsig⟩ := hready.helper ((hready.sound.follows.helper?_eq _).trans hd)
    refine (lowers_onGraph (Q := fun _ g' => g'.targets d.entity = targetsOf w g d.entity ++ [some e]) ?_).imp ?_ hready
    · intro graph hgraph
      rw [← htargets, targetsOf_eq hgraph]
      refine Graph.draws_directCall hent (offers_of_offered hjclass hgraph) hop he hsig rfl ?_
      intro callee before n hcallee hentity htype hpasses
      exact hrule .initClass _ _ _ ⟨d, callee, hd, hsig, htype, hcallee, hentity, by rwa [hmode] at hpasses⟩
    · rintro n w' ⟨graph', hgraph', htargets'⟩
      rw [targetsOf_eq hgraph', htargets']
  exact hcall.bind fun _ w' _ htargets' _ => leads_pure ⟨e, by rw [← hentity, he], htargets'⟩

/-- What an operation does to the body: it calls the init-class helper if it runs an initializer, and only then. -/
theorem lowers_operation {op : Operation} {source : Text} (hbuilt : w0.Built) (hm : w0.registry.method? ref = some m)
    (he : m.entity = some e) (hsource : Operation.ofText source = .ok op) :
    Lowers w0 (ruleOf w0 m [op]) g (lower g e op) w fun v w' => (∀ n ∈ v, n.mode ≠ .void → Offered g w' n) ∧
      (∀ m ∈ op.invoked? w0.registry, HasCall w0 g (.method m) w') ∧
      targetsOf w' g d.entity = targetsOf w g d.entity ++ op.initialized?.toList.map w0.registry.descriptorNamed? ∧
      ∀ name ∈ op.initialized?, w0.registry.descriptorNamed? name ≠ none := by
  by_cases hop : ∃ cls, op = .initClass cls
  · obtain ⟨cls, rfl⟩ := hop
    intro hready
    refine leads_registry_bind ?_
    refine (leads_ofExcept (Q := fun c w' => w.registry.resolve cls = .ok c ∧ w = w') fun c hc => ⟨hc, rfl⟩).bind ?_
    rintro c _ - ⟨hc, rfl⟩
    rw [hready.sound.follows.registry_eq] at hc
    have hcalls : ∀ x types before n, Calls w0 (.helper x) types before n → CallsOf w0 [.initClass cls] types before n :=
      fun x _ _ _ h => ⟨_, List.mem_singleton_self _, .helper x, fun _ => by simp [Operation.initialized?], h⟩
    refine (lowers_initClass hd hcalls).bind ?_ hready
    rintro _ w' _ ⟨e, he, htargets⟩ -
    have hnamed : w0.registry.descriptorNamed? cls = some e := by
      rw [Registry.descriptorNamed?, find?_of_resolve hc, Option.bind_some]
      exact he
    refine leads_pure ⟨by simp, by simp [Operation.invoked?], ?_, ?_⟩
    · simp [htargets, Operation.initialized?, hnamed]
    · simp [Operation.initialized?, hnamed]
  · have hnone : op.initialized? = none := by
      cases op <;> first | rfl | exact absurd ⟨_, rfl⟩ hop
    intro hready
    refine ((lowers_lower hbuilt hm he hsource hnone).silent (avoids_initClass hd hready ?_)).imp ?_ hready
    · rintro types before n ⟨op', hop', k, hmay, hcalls⟩
      obtain rfl := List.mem_singleton.1 hop'
      refine ⟨k, ?_, hcalls⟩
      rintro rfl
      exact hmay rfl hnone
    · rintro v w' ⟨⟨hv, hcalled⟩, htargets⟩
      exact ⟨hv, hcalled, by simp [hnone, htargets], by simp [hnone]⟩

omit hd in
theorem ruleOf_subset {ops ops' : List Operation} (h : ops ⊆ ops') : (ruleOf w0 m ops).Within (ruleOf w0 m ops') where
  call types before n hn := by
    obtain ⟨op, hop, hrest⟩ := hn
    exact ⟨op, h hop, hrest⟩
  param _ hi := hi

theorem lowers_lowerAll (hbuilt : w0.Built) (hm : w0.registry.method? ref = some m) (he : m.entity = some e) (method : Text) (traced : Bool) (span i : Nat) {ops : List Text}
    (hlast : ∀ n ∈ last, n.mode ≠ .void → Offered g w n) :
    Lowers w0 (ruleOf w0 m (operations ops)) g (lowerAll g e method traced span i last ops) w fun v w' =>
      (∀ n ∈ v, n.mode ≠ .void → Offered g w' n) ∧
      (∀ m ∈ invoked w0.registry ops, HasCall w0 g (.method m) w') ∧
      targetsOf w' g d.entity = targetsOf w g d.entity ++ (initialized ops).map w0.registry.descriptorNamed? ∧
      ∀ name ∈ initialized ops, w0.registry.descriptorNamed? name ≠ none := by
  induction ops generalizing i last w with
  | nil => exact fun _ => leads_pure ⟨hlast, by simp [invoked, operations], by simp [initialized, operations], by simp [initialized, operations]⟩
  | cons source sources ih =>
    intro hready
    refine (leads_ofExcept (Q := fun op w' => Operation.ofText source = .ok op ∧ w = w') fun op hop => ⟨hop, rfl⟩).bind ?_
    rintro op _ - ⟨hop, rfl⟩
    have hoperations : operations (source :: sources) = op :: operations sources := by
      rw [operations, List.filterMap_cons, hop]
      rfl
    have hfirst : [op] ⊆ operations (source :: sources) := by simp [hoperations]
    have hlater : operations sources ⊆ operations (source :: sources) := hoperations ▸ List.subset_cons_self op _
    have hlower := (lowers_operation hd hbuilt hm he hop).lift (ruleOf_subset hfirst) hready
    refine (leads_mapError hlower).bind fun value w1 hpath hvalue => ?_
    obtain ⟨hoffered, hcalled, htargets, hnamed⟩ := hvalue
    have hready1 := hready.path hpath
    have hlast1 : ∀ n ∈ value <|> last, n.mode ≠ .void → Offered g w1 n := by
      intro n hn hmode
      cases value with
      | none => exact (hlast n hn hmode).path hpath
      | some v => exact hoffered n hn hmode
    have hrest : ∀ w2, ReflTransGen (Draw (ruleOf w0 m (operations (source :: sources))) g) w1 w2 → w2.program = w1.program →
        Leads (Draw (ruleOf w0 m (operations (source :: sources))) g)
          (lowerAll g e method traced span (i + 1) (value <|> last) sources) w2 fun v w' =>
          (∀ n ∈ v, n.mode ≠ .void → Offered g w' n) ∧
          (∀ m ∈ invoked w0.registry (source :: sources), HasCall w0 g (.method m) w') ∧ targetsOf w' g d.entity =
            targetsOf w g d.entity ++ (initialized (source :: sources)).map w0.registry.descriptorNamed? ∧
          ∀ name ∈ initialized (source :: sources), w0.registry.descriptorNamed? name ≠ none := by
      intro w2 hpath2 hprogram
      refine ((ih (i + 1) fun n hn hmode => (hlast1 n hn hmode).path hpath2).lift (ruleOf_subset hlater)
        (hready1.path hpath2)).and_changes.imp ?_
      rintro v w' ⟨hpath', hv, hcalled', htargets', hnamed'⟩
      have hsame : targetsOf w2 g d.entity = targetsOf w1 g d.entity := by rw [targetsOf, hprogram, targetsOf]
      have hinitialized : initialized (source :: sources) = op.initialized?.toList ++ initialized sources := by
        rw [initialized, hoperations, List.filterMap_cons]
        cases op.initialized? <;> rfl
      refine ⟨hv, fun m hm => ?_, ?_, fun name hname => ?_⟩
      · rw [invoked, hoperations, List.mem_filterMap] at hm
        obtain ⟨op', hop', hm⟩ := hm
        rcases List.mem_cons.1 hop' with rfl | hop'
        · exact (hcalled m hm).path (hpath2.trans hpath')
        · exact hcalled' m (List.mem_filterMap.2 ⟨op', hop', hm⟩)
      · rw [htargets', hsame, htargets, hinitialized, List.map_append, List.append_assoc]
      · rw [hinitialized] at hname
        rcases List.mem_append.1 hname with hname | hname
        · exact hnamed name (Option.mem_toList.1 hname)
        · exact hnamed' name hname
    dsimp only
    split_ifs
    · refine ((leads_onTrace _).lift fun _ _ h => Draw.add h).bind ?_
      rintro _ w2 hpath2 rfl
      exact hrest _ hpath2 rfl
    · exact hrest w1 .refl rfl

omit hd in
theorem lowers_finish (routine : EntityId) (result : JavaType) (hlast : ∀ n ∈ last, n.mode ≠ .void → Offered g w n) :
    Lowers w0 rule g (onGraph g (finish result last)) w fun _ w' =>
      (∃ graph, w'.program.graphs[g]? = some graph ∧ ∀ id ∈ graph.result, ∃ n ∈ graph.nodes, n.id = id ∧ n.mode = result.mode) ∧
      targetsOf w' g routine = targetsOf w g routine := by
  have hfinish : Lowers w0 .nothing g (onGraph g (finish result last)) w _ :=
    lowers_onGraph fun graph hgraph => draws_finish result fun n hn hmode => offers_of_offered (hlast n hn hmode) hgraph
  exact (hfinish.silent fun _ _ _ h => h.elim).lift (Graph.Rule.nothing_within rule)

end

/-! ### Whole bodies -/

/-- Whether only the routine `e` gets a body between two programs, and other bodies stay as they are. -/
structure Embodied (e : EntityId) (p p' : Program) : Prop where
  entities : ∀ e' ent, e' ≠ e → p.entity? e' = some ent → p'.entity? e' = some ent
  fresh : ∀ e' ent, p.entity? e' = none → p'.entity? e' = some ent → ent.body = none
  graphs : ∀ i, i < p.graphs.size → p'.graphs[i]? = p.graphs[i]?

/-- Whether a graph is the body of the method `m`, in which `routine` is called to run initializers. -/
structure IsBody (w0 : Workspace) (routine : EntityId) (p : Program) (m : Method) (graph : Graph) : Prop where
  drawn : Graph.Drawn p graph
  targets : graph.targets routine = (initialized m.ops).map w0.registry.descriptorNamed?
  named : ∀ name ∈ initialized m.ops, w0.registry.descriptorNamed? name ≠ none
  calls : ∀ n ∈ graph.nodes, n.op = .call → CallsOf w0 (operations m.ops) p.types graph.nodes.toList n
  params : ∀ n ∈ graph.nodes, n.op = .param → m.IsReference n.value
  invokes : ∀ m' ∈ invoked w0.registry m.ops, ∃ n ∈ graph.nodes, n.op = .call ∧
    Calls w0 (.method m') p.types graph.nodes.toList n
  result : ∀ id ∈ graph.result, ∃ n ∈ graph.nodes, n.id = id ∧ n.mode = m.result.mode

/-- Whether the routine `e` has the body `g`, which is one of the method `m`. -/
def HasBody (w0 : Workspace) (routine : EntityId) (p : Program) (m : Method) (e : EntityId) (g : GraphId) : Prop :=
  ∃ ent graph, p.entity? e = some ent ∧ ent.body = some g ∧ p.graphs[g]? = some graph ∧ graph.entity = some e ∧
    IsBody w0 routine p m graph

theorem IsBody.mono {p' : Program} (h : IsBody w0 routine p m graph) (hp : p.Within p') : IsBody w0 routine p' m graph where
  drawn := h.drawn.mono hp
  targets := h.targets
  named := h.named
  calls n hn hop := (h.calls n hn hop).mono hp.types fun _ ha => ha
  params := h.params
  invokes m' hm' := by
    obtain ⟨n, hn, hop, hcalls⟩ := h.invokes m' hm'
    exact ⟨n, hn, hop, hcalls.mono hp.types fun _ ha => ha⟩
  result := h.result

/-- The workspace with an empty body for a routine. -/
def withBody (w : Workspace) (e : EntityId) : Workspace := { w with program := (w.program.addGraph (some e)).2 }

theorem entity?_withBody (w : Workspace) (e e' : EntityId) :
    (withBody w e).program.entity? e' =
      if e = e' then (w.program.entity? e').map fun ent => { ent with body := some w.program.graphs.size }
      else w.program.entity? e' :=
  Program.entity?_modifyEntity { w.program with graphs := w.program.graphs.push { entity := some e } } e e' _

theorem changes_withBody (w : Workspace) (e : EntityId) : ReflTransGen Change w (withBody w e) := by
  have hgraph : Change w { w with program := { w.program with graphs := w.program.graphs.push { entity := some e } } } :=
    .progress (.graphs _)
  exact (ReflTransGen.single hgraph).tail (.progress (.body e _))

theorem Draw.kept (h : Draw rule g w w') :
    (∀ e ent, w.program.entity? e = some ent → w'.program.entity? e = some ent) ∧
      (∀ e ent, w.program.entity? e = none → w'.program.entity? e = some ent → ent.body = none) ∧
      (∀ i, i ≠ g → w'.program.graphs[i]? = w.program.graphs[i]?) ∧
      (w'.program.graphs[g]?).map Graph.entity = (w.program.graphs[g]?).map Graph.entity := by
  cases h with
  | add hadd =>
    refine ⟨fun e ent he => hadd.entity?_eq he, fun e ent hnew he => hadd.body_eq hnew he, fun i _ => ?_, ?_⟩
    · rw [hadd.graphs_eq]
    · rw [hadd.graphs_eq]
  | @grow graph graph' hgraph hgrows =>
    refine ⟨fun e ent he => he, fun e ent hnew he => ?_, fun i hi => ?_, ?_⟩
    · cases hnew.symm.trans he
    · exact Array.getElem?_setIfInBounds_ne hi.symm
    · rw [getElem?_setIfInBounds_of_some hgraph, hgraph, Option.map_some, Option.map_some, Graph.grows_entity hgrows]

theorem kept_of_draws (hpath : ReflTransGen (Draw rule g) w w') :
    (∀ e ent, w.program.entity? e = some ent → w'.program.entity? e = some ent) ∧
      (∀ e ent, w.program.entity? e = none → w'.program.entity? e = some ent → ent.body = none) ∧
      (∀ i, i ≠ g → w'.program.graphs[i]? = w.program.graphs[i]?) ∧
      (w'.program.graphs[g]?).map Graph.entity = (w.program.graphs[g]?).map Graph.entity := by
  induction hpath with
  | refl => exact ⟨fun _ _ h => h, fun _ _ hnew he => (by cases hnew.symm.trans he), fun _ _ => rfl, rfl⟩
  | @tail u v _ hlast ih =>
    obtain ⟨hentities, hfresh, hgraphs, hentity⟩ := ih
    obtain ⟨hentities', hfresh', hgraphs', hentity'⟩ := hlast.kept
    refine ⟨fun e ent he => hentities' e ent (hentities e ent he), fun e ent hnew he => ?_, fun i hi => ?_, hentity'.trans hentity⟩
    · cases hu : u.program.entity? e with
      | none => exact hfresh' e ent hu he
      | some ent' =>
        obtain rfl := Option.some.inj ((hentities' e ent' hu).symm.trans he)
        exact hfresh e ent' hnew hu
    · rw [hgraphs' i hi, hgraphs i hi]

section

variable {d : DeclaredHelper} (hd : w0.helper? .initClass = some d) (hbuilt : w0.Built)

include hd hbuilt

theorem leads_lowerBody (hsound : Sound w0 w) {ent : Entity} (hm : w0.registry.method? ref = some m) (hentity : m.entity = some e)
    (he : w.program.entity? e = some ent) (method : Text) (traced : Bool) (span : Nat) :
    Leads Change (lowerBody m e method traced span) w fun g w' =>
      HasBody w0 d.entity w'.program m e g ∧ Embodied e w.program w'.program := by
  have hadd : Leads Change (onProgram (·.addGraph (some e))) w fun g w' => w.program.graphs.size = g ∧ withBody w e = w' :=
    leads_of_finishes (finishes_onProgram_iff.2 ⟨rfl, rfl⟩) (changes_withBody w e) ⟨rfl, rfl⟩
  refine hadd.bind ?_
  rintro _ _ - ⟨rfl, rfl⟩
  have hgraph : (withBody w e).program.graphs[w.program.graphs.size]? = some { entity := some e } := Array.getElem?_push_size
  have hready : Ready w0 w.program.graphs.size (withBody w e) :=
    ⟨(hsound.changes (changes_withBody w e)).1, _, hgraph, Graph.drawn_empty _⟩
  refine Leads.bind_of_le (lowers_lowerAll hd hbuilt hm hentity method traced span 0 (by simp) hready) (fun _ _ h => h.change) ?_
  rintro last w1 hpath1 ⟨hlast, hcalled, htargets, hnamed⟩
  refine Leads.bind_of_le (S := Draw (ruleOf w0 m (operations m.ops)) w.program.graphs.size)
    (lowers_finish d.entity m.result hlast (hready.path hpath1)) (fun _ _ h => h.change) ?_
  rintro _ w2 hpath2 ⟨⟨graph, hgraph2, hresult⟩, htargets2⟩
  have hpath := hpath1.trans hpath2
  obtain ⟨hentities, hfresh, hgraphs, hentity⟩ := kept_of_draws hpath
  obtain ⟨graph', hgraph', hdrawn⟩ := (hready.path hpath).graph
  cases hgraph2.symm.trans hgraph'
  have honly : OnlyCalls w0 w.program.graphs.size m (operations m.ops) (withBody w e) := by
    intro graph n hgraph' hn
    cases hgraph.symm.trans hgraph'
    simp at hn
  refine leads_pure ⟨⟨{ ent with body := some w.program.graphs.size }, graph, ?_, rfl, hgraph2, ?_, ?_⟩, ?_⟩
  · apply hentities
    rw [entity?_withBody, if_pos rfl, he, Option.map_some]
  · rw [hgraph2, hgraph, Option.map_some, Option.map_some] at hentity
    exact Option.some.inj hentity
  · refine ⟨hdrawn, ?_, hnamed, fun n hn => (honly.path hpath graph n hgraph2 hn).1,
      fun n hn => (honly.path hpath graph n hgraph2 hn).2, fun m' hm' => ?_, hresult⟩
    · rw [← targetsOf_eq hgraph2, htargets2, htargets, targetsOf_eq hgraph]
      rfl
    · obtain ⟨graph', n, hgraph', hn⟩ := (hcalled m' hm').path hpath2
      cases hgraph2.symm.trans hgraph'
      exact ⟨n, hn⟩
  · refine ⟨fun e' ent' hne he' => ?_, fun e' ent' hnew he' => ?_, fun i hi => ?_⟩
    · apply hentities
      rw [entity?_withBody, if_neg hne.symm, he']
    · refine hfresh e' ent' ?_ he'
      rw [entity?_withBody, hnew]
      simp
    · rw [hgraphs i hi.ne]
      show (w.program.graphs.push _)[i]? = _
      rw [Array.getElem?_push, if_neg hi.ne]

theorem leads_lowerMethod (hsound : Sound w0 w) (ref : MethodRef) (parent : Option Nat) :
    Leads Change (lowerMethod ref parent) w fun g w' => ∃ m e, w0.registry.method? ref = some m ∧ m.entity = some e ∧
      HasBody w0 d.entity w'.program m e g ∧ Embodied e w.program w'.program := by
  refine leads_class'_bind fun cls hcls => ?_
  refine leads_need_bind fun m hm => ?_
  have hmethod : w0.registry.method? ref = some m := by
    rw [← hsound.follows.registry_eq, Registry.method?, hcls, Option.bind_some, hm]
  split
  · exact leads_throw _
  rename_i e he
  obtain ⟨ent, hent⟩ := hsound.exists_entity (.routine ref.index) hcls ⟨m, hm⟩ (Option.bind_eq_some_iff.2 ⟨m, hm, he⟩)
  dsimp only
  split
  · refine (leads_lowerBody hd hbuilt hsound hmethod he hent _ false 0).imp fun _ w' h => ?_
    exact ⟨m, e, hmethod, he, h⟩
  · refine leads_withSpan (fun _ _ h => .progress (.fill (.add h))) (fun _ _ _ h => h) fun span => ?_
    have hsound' := fun trace => hsound.change (.progress (.fill (.add (.trace trace))))
    apply (leads_lowerBody hd hbuilt (hsound' _) hmethod he (by exact hent) _ true span.id).imp
    exact fun _ w' h => ⟨m, e, hmethod, he, h⟩

/-! ### All bodies -/

/-- Whether the bodies of the methods in `done` have been built, and no others. -/
structure Lowered (w0 : Workspace) (routine : EntityId) (done : List MethodRef) (w : Workspace) : Prop where
  sound : Sound w0 w
  bodies : ∀ ref ∈ done, ∃ m e g, w0.registry.method? ref = some m ∧ m.entity = some e ∧ HasBody w0 routine w.program m e g
  only : ∀ e ent g, w.program.entity? e = some ent → ent.body = some g →
    ∃ ref ∈ done, ∃ m, w0.registry.method? ref = some m ∧ m.entity = some e

omit hd hbuilt in
theorem HasBody.later {p' : Program} {e' : EntityId} (h : HasBody w0 routine p m e g) (hembodied : Embodied e' p p')
    (hne : e ≠ e') (hwithin : p.Within p') : HasBody w0 routine p' m e g := by
  obtain ⟨ent, graph, he, hbody, hgraph, hentity, hisBody⟩ := h
  refine ⟨ent, graph, hembodied.entities e ent hne he, hbody, ?_, hentity, hisBody.mono hwithin⟩
  rw [hembodied.graphs g (Array.getElem?_eq_some_iff.1 hgraph).1, hgraph]

omit hd hbuilt in
theorem method_unique (hsound : Sound w0 w) {ref' : MethodRef} {m' : Method} (hm : w0.registry.method? ref = some m) (he : m.entity = some e)
    (hm' : w0.registry.method? ref' = some m') (he' : m'.entity = some e) : ref = ref' := by
  obtain ⟨cls, hcls, hmethod⟩ := Option.bind_eq_some_iff.1 hm
  obtain ⟨cls', hcls', hmethod'⟩ := Option.bind_eq_some_iff.1 hm'
  have hsame := hsound.start.part_unique (.routine ref.index) (.routine ref'.index) hcls hcls' ⟨m, hmethod⟩
    ⟨m', hmethod'⟩ (Option.bind_eq_some_iff.2 ⟨m, hmethod, he⟩) (Option.bind_eq_some_iff.2 ⟨m', hmethod', he'⟩)
  obtain ⟨howner, hindex⟩ := Prod.mk.inj hsame
  cases ref
  cases ref'
  simp_all

theorem Lowered.lowerMethod {done : List MethodRef} (h : Lowered w0 d.entity done w)
    (hrun : Finishes (lowerMethod ref parent) w g w') : Lowered w0 d.entity (ref :: done) w' := by
  have hleads := leads_lowerMethod hd hbuilt h.sound ref parent
  obtain ⟨m, e, hm, he, hbody, hembodied⟩ := hleads.2 g w' hrun
  have hchanges := hleads.1
  rw [hrun] at hchanges
  obtain ⟨hsound, hfollows, -⟩ := h.sound.changes hchanges
  refine ⟨hsound, ?_, ?_⟩
  · rw [List.forall_mem_cons]
    refine ⟨⟨m, e, g, hm, he, hbody⟩, fun ref' href' => ?_⟩
    obtain ⟨m', e', g', hm', he', hbody'⟩ := h.bodies ref' href'
    by_cases hsame : e' = e
    · subst hsame
      obtain rfl := method_unique h.sound hm he hm' he'
      exact ⟨m, e', g, hm, he, hbody⟩
    · exact ⟨m', e', g', hm', he', hbody'.later hembodied hsame (within_of_follows hfollows)⟩
  · intro e' ent' g' hent' hg'
    by_cases hsame : e' = e
    · exact ⟨ref, List.mem_cons_self, m, hm, hsame ▸ he⟩
    cases hold : w.program.entity? e' with
    | none =>
      rw [hembodied.fresh e' ent' hold hent'] at hg'
      cases hg'
    | some ent0 =>
      obtain rfl := Option.some.inj ((hembodied.entities e' ent0 hsame hold).symm.trans hent')
      obtain ⟨ref', href', hrest⟩ := h.only e' ent0 g' hold hg'
      exact ⟨ref', List.mem_cons_of_mem _ href', hrest⟩

omit hd hbuilt in
theorem visibility_beq_iff (v : Visibility) : (v == .external) = true ↔ v = .external := by
  cases v <;> simp <;> rfl

omit hd hbuilt in
theorem visibility_of_method (hsound : Sound w0 w) {ent : Entity} (hm : w0.registry.method? ref = some m)
    (he : m.entity = some e) (hent : w.program.entity? e = some ent) :
    ∃ ent0, w0.program.entity? e = some ent0 ∧ ent.visibility = ent0.visibility := by
  obtain ⟨cls, hcls, hmethod⟩ := Option.bind_eq_some_iff.1 hm
  obtain ⟨ent0, hent0⟩ := hsound.start.exists_entity (.routine ref.index) hcls ⟨m, hmethod⟩
    (Option.bind_eq_some_iff.2 ⟨m, hmethod, he⟩)
  obtain ⟨ent', hent', -, -, hvisibility, -⟩ := hsound.follows.entities e ent0 hent0
  cases hent.symm.trans hent'
  exact ⟨ent0, hent0, hvisibility⟩

/-- Whether a method is not only declared. -/
def Defined (w0 : Workspace) (ref : MethodRef) : Prop :=
  ∃ m e ent, w0.registry.method? ref = some m ∧ m.entity = some e ∧ w0.program.entity? e = some ent ∧
    ent.visibility ≠ .external

theorem lowered_of_lowerMethods {cancelled : Bool} {count n : Nat} {refs done : List MethodRef}
    (h : Lowered w0 d.entity done w) (hdone : ∀ ref ∈ done, Defined w0 ref)
    (hrun : Finishes (lowerMethods cancelled parent count refs) w (n, none) w') :
    ∃ done', Lowered w0 d.entity done' w' ∧ (∀ ref ∈ done', Defined w0 ref) ∧
      ∀ ref, Defined w0 ref → ref ∈ done ∨ ref ∈ refs → ref ∈ done' := by
  induction refs generalizing w done count with
  | nil =>
    rw [lowerMethods, finishes_pure_iff] at hrun
    obtain ⟨-, rfl⟩ := hrun
    exact ⟨done, h, hdone, by simp⟩
  | cons ref refs ih =>
    rw [lowerMethods] at hrun
    split_ifs at hrun
    · rw [finishes_pure_iff] at hrun
      simp at hrun
    simp only [finishes_bind_iff, finishes_registry_iff, finishes_need_iff] at hrun
    obtain ⟨_, _, ⟨rfl, rfl⟩, m, _, ⟨hm, rfl⟩, hrun⟩ := hrun
    rw [h.sound.follows.registry_eq] at hm
    have hskip : ¬Defined w0 ref → Finishes (lowerMethods cancelled parent count refs) w (n, none) w' →
        ∃ done', Lowered w0 d.entity done' w' ∧ (∀ ref ∈ done', Defined w0 ref) ∧
          ∀ ref', Defined w0 ref' → ref' ∈ done ∨ ref' ∈ ref :: refs → ref' ∈ done' := by
      intro hdeclared hrest
      obtain ⟨done', hlowered, hdefined, hall⟩ := ih h hdone hrest
      refine ⟨done', hlowered, hdefined, fun ref' href' hmem => hall ref' href' ?_⟩
      refine hmem.imp_right fun hmem => (List.mem_cons.1 hmem).resolve_left ?_
      rintro rfl
      exact hdeclared href'
    split at hrun
    · rename_i hnone
      refine hskip ?_ hrun
      rintro ⟨m', e, -, hm', he, -⟩
      cases hm.symm.trans hm'
      cases hnone.symm.trans he
    rename_i e he
    simp only [finishes_bind_iff, finishes_get_iff, finishes_need_iff, finishes_pure_iff] at hrun
    obtain ⟨_, _, ⟨rfl, rfl⟩, ent, _, ⟨hent, rfl⟩, _, _, ⟨rfl, rfl⟩, hrun⟩ := hrun
    obtain ⟨ent0, hent0, hvisibility⟩ := visibility_of_method h.sound hm he hent
    split_ifs at hrun with hexternal
    · refine hskip ?_ hrun
      rintro ⟨m', e', ent', hm', he', hent', hne⟩
      cases hm.symm.trans hm'
      cases he.symm.trans he'
      cases hent0.symm.trans hent'
      exact hne (hvisibility ▸ (visibility_beq_iff ent.visibility).1 hexternal)
    obtain ⟨result, w1, hresult, hrun⟩ := finishes_bind_iff.1 hrun
    have hresult' : (Except.ok (lowerMethod ref parent w).1, (lowerMethod ref parent w).2) = (Except.ok result, w1) := hresult
    obtain ⟨hok, rfl⟩ := Prod.mk.inj hresult'
    cases result with
    | error failure =>
      rw [finishes_pure_iff] at hrun
      simp at hrun
    | ok g =>
      have hlowered := h.lowerMethod hd hbuilt (Prod.ext (Except.ok.inj hok) rfl)
      have hdefined : Defined w0 ref :=
        ⟨m, e, ent0, hm, he, hent0, fun h => hexternal ((visibility_beq_iff ent.visibility).2 (hvisibility.trans h))⟩
      obtain ⟨done', hlowered', hdefined', hall⟩ := ih hlowered (by simpa [hdefined] using hdone) hrun
      refine ⟨done', hlowered', hdefined', fun ref' href' hmem => hall ref' href' ?_⟩
      rcases hmem with hmem | hmem
      · exact .inl (List.mem_cons_of_mem _ hmem)
      · rcases List.mem_cons.1 hmem with rfl | hmem
        · exact .inl List.mem_cons_self
        · exact .inr hmem

omit hd hbuilt in
theorem external_of_defined (hsound : Sound w0 w) {cls : Class} (h : Defined w0 ref) (hcls : w0.registry.class? ref.owner = some cls) :
    cls.external = false := by
  obtain ⟨m, e, ent, hm, he, hent, hvisibility⟩ := h
  rw [Registry.method?, hcls, Option.bind_some] at hm
  obtain ⟨s0, hstart⟩ := hsound.started
  obtain ⟨ent', hmade⟩ := hstart.linked.exists_madeFor (.routine ref.index) hcls ⟨cls, hcls, m, hm⟩
    (Option.bind_eq_some_iff.2 ⟨m, hm, he⟩)
  cases hent.symm.trans hmade.entity
  by_contra hexternal
  exact hvisibility (by rw [hmade.visibility, Class.isDeclared]; simp [hexternal])

/-- After all bodies have been built, exactly the methods that are not only declared have one. -/
theorem lowered_of_lowerProgram {cancelled : Bool} {n : Nat} (h : Lowered w0 d.entity [] w)
    (hrun : Finishes (lowerProgram cancelled parent) w (n, none) w') :
    ∃ done, Lowered w0 d.entity done w' ∧ ∀ ref, ref ∈ done ↔ Defined w0 ref := by
  rw [lowerProgram, finishes_bind_iff] at hrun
  obtain ⟨_, _, hread, hrun⟩ := hrun
  obtain ⟨rfl, rfl⟩ := finishes_registry_iff.1 hread
  obtain ⟨done, hlowered, hdefined, hall⟩ := lowered_of_lowerMethods hd hbuilt h (by simp) hrun
  refine ⟨done, hlowered, fun ref => ⟨hdefined ref, fun href => hall ref href (.inr ?_)⟩⟩
  have hm := href
  obtain ⟨m, -, -, hm, -⟩ := hm
  obtain ⟨cls, hcls, hmethod⟩ := Option.bind_eq_some_iff.1 hm
  have hexternal := external_of_defined h.sound href hcls
  rw [h.sound.follows.registry_eq, List.mem_flatMap]
  refine ⟨(cls, ref.owner), ?_, ?_⟩
  · rw [List.mem_filter, List.mk_mem_zipIdx_iff_getElem?, Array.getElem?_toList]
    exact ⟨hcls, by simp [hexternal]⟩
  · rw [List.mem_map]
    exact ⟨ref.index, List.mem_range.2 (Array.getElem?_eq_some_iff.1 hmethod).1, rfl⟩

end

end Lowering

end ClassAbi
