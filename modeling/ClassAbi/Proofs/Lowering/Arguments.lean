import ClassAbi.Proofs.Abi.Built
import ClassAbi.Proofs.Lowering.Body

/-!
# Arguments of calls

A call is given the callee and then the arguments, which should have the modes of the parameters of its routine type. Calls of
helpers do, and so do calls of instance methods of interfaces. A static method of an interface is also given the object, for
which its type has no parameter, so that the calls of a body fit their types exactly if no operation finds such a method.
-/

namespace ClassAbi

variable {m : Method}

def TypeTable.paramModes (types : TypeTable) (sig : Signature) : List Mode := sig.params.map types.valueMode

namespace Graph

/-- The modes of the arguments of a call, its callee apart. -/
def argModes (g : Graph) (call : Node) : List (Option Mode) := (callArgs call).map fun id => (g.node? id).map Node.mode

/-- Whether the arguments of a call have the modes of the parameters of its routine type, one for one. -/
def Fits (types : TypeTable) (g : Graph) (call : Node) : Prop :=
  ∃ t sig, call.type = some t ∧ types.signature? t = some sig ∧ g.argModes call = (types.paramModes sig).map some

/-- Whether a call has a reference too many in front of its other arguments. -/
def Exceeds (types : TypeTable) (g : Graph) (call : Node) : Prop :=
  ∃ t sig, call.type = some t ∧ types.signature? t = some sig ∧
    g.argModes call = some .pointer :: (types.paramModes sig).map some

variable {p : Program} {types : TypeTable} {g : Graph} {n callee : Node} {modes : List Mode}

theorem not_fits_of_exceeds (h : g.Exceeds types n) : ¬g.Fits types n := by
  rintro ⟨t, sig, ht, hsig, hmodes⟩
  obtain ⟨t', sig', ht', hsig', hmodes'⟩ := h
  cases ht.symm.trans ht'
  cases hsig.symm.trans hsig'
  have hlength := congrArg List.length (hmodes.symm.trans hmodes')
  simp at hlength

theorem Drawn.argModes_eq (h : Drawn p g) (hop : n.op = .call) (hpasses : Passes g.nodes.toList callee modes n) :
    g.argModes n = modes.map some := by
  obtain ⟨-, args, hargs, hn, rfl⟩ := hpasses
  rw [argModes, callArgs, if_pos hop, hn, List.map_cons, List.tail_cons, List.map_map, List.map_map]
  refine List.map_congr_left fun a ha => ?_
  show (g.node? a.id).map Node.mode = some a.mode
  rw [h.node?_eq (Array.mem_toList_iff.1 (hargs a ha)), Option.map_some]

end Graph

section

variable {types : TypeTable} (hmodes : ∀ mode : Mode, types.shape? mode.typeId = some (.primitive mode))

include hmodes

theorem TypeTable.valueMode_typeId (mode : Mode) : types.valueMode (some mode.typeId) = mode := by
  rw [valueMode, Option.bind_some, mode?, hmodes]
  rfl

theorem Helper.paramModes_signature (x : Helper) : types.paramModes x.signature = x.params := by
  rw [TypeTable.paramModes, signature, List.map_map]
  exact List.map_id'' (fun mode => TypeTable.valueMode_typeId hmodes mode) x.params

theorem Method.paramModes_signature (m : Method) : types.paramModes m.signature =
    (if m.access.isStatic = true then [] else [.pointer]) ++ m.params.map JavaType.mode := by
  rw [TypeTable.paramModes, signature, List.map_append, List.map_map]
  congr 1
  · split_ifs
    · rfl
    · rw [List.map_singleton, TypeTable.valueMode_typeId hmodes]
  · exact List.map_congr_left fun p _ => TypeTable.valueMode_typeId hmodes p.mode

end

namespace Lowering

open ClassAbi.Action Workspace Abi

variable {w w0 w' : Workspace} {p : Program} {graph : Graph} {n : Node}

section

variable (hmodes : ∀ mode : Mode, p.types.shape? mode.typeId = some (.primitive mode)) (hdrawn : Graph.Drawn p graph)
  (hop : n.op = .call)

include hmodes hdrawn hop

theorem fits_of_calls_helper {x : Helper} (h : Calls w0 (.helper x) p.types graph.nodes.toList n) : graph.Fits p.types n := by
  obtain ⟨d, callee, -, hsig, htype, -, -, hpasses⟩ := h
  refine ⟨d.type, x.signature, htype, hsig, ?_⟩
  rw [hdrawn.argModes_eq hop hpasses, x.paramModes_signature hmodes]

theorem fits_of_calls_instance (h : Calls w0 (.method m) p.types graph.nodes.toList n)
    (hinstance : m.access.isStatic = false) : graph.Fits p.types n := by
  obtain ⟨t, callee, hsig, htype, -, hpasses⟩ := h
  refine ⟨t, m.signature, htype, hsig, ?_⟩
  rw [hdrawn.argModes_eq hop hpasses, m.paramModes_signature hmodes, hinstance]
  rfl

theorem exceeds_of_calls_static (h : Calls w0 (.method m) p.types graph.nodes.toList n)
    (hstatic : m.access.isStatic = true) : graph.Exceeds p.types n := by
  obtain ⟨t, callee, hsig, htype, -, hpasses⟩ := h
  refine ⟨t, m.signature, htype, hsig, ?_⟩
  rw [hdrawn.argModes_eq hop hpasses, m.paramModes_signature hmodes, if_pos hstatic]
  rfl

end

theorem mem_calls_iff {g : Graph} : n ∈ g.calls ↔ n ∈ g.nodes ∧ n.op = .call := by
  rw [Graph.calls, List.mem_filter, Array.mem_toList_iff, Graph.op_beq_call_iff]

theorem IsBody.fits_iff {routine : EntityId} (h : IsBody w0 routine p m graph)
    (hmodes : ∀ mode : Mode, p.types.shape? mode.typeId = some (.primitive mode)) :
    (∀ call ∈ graph.calls, graph.Fits p.types call) ↔ ∀ m' ∈ invoked w0.registry m.ops, m'.access.isStatic = false := by
  constructor
  · intro hfits m' hm'
    obtain ⟨n, hn, hop, hcalls⟩ := h.invokes m' hm'
    by_contra hstatic
    have hexceeds := exceeds_of_calls_static hmodes h.drawn hop hcalls (by simpa using hstatic)
    exact Graph.not_fits_of_exceeds hexceeds (hfits n (mem_calls_iff.2 ⟨hn, hop⟩))
  · intro hinstance call hcall
    obtain ⟨hmem, hop⟩ := mem_calls_iff.1 hcall
    obtain ⟨op, hop', k, hmay, hcalls⟩ := h.calls call hmem hop
    cases k with
    | helper x => exact fits_of_calls_helper hmodes h.drawn hop hcalls
    | method m' =>
      exact fits_of_calls_instance hmodes h.drawn hop hcalls (hinstance m' (List.mem_filterMap.2 ⟨op, hop', hmay⟩))

theorem IsBody.fits_or_exceeds {routine : EntityId} (h : IsBody w0 routine p m graph)
    (hmodes : ∀ mode : Mode, p.types.shape? mode.typeId = some (.primitive mode)) {call : Node}
    (hcall : call ∈ graph.calls) : graph.Fits p.types call ∨ graph.Exceeds p.types call := by
  obtain ⟨hmem, hop⟩ := mem_calls_iff.1 hcall
  obtain ⟨-, -, k, -, hcalls⟩ := h.calls call hmem hop
  cases k with
  | helper x => exact .inl (fits_of_calls_helper hmodes h.drawn hop hcalls)
  | method m' =>
    cases hstatic : m'.access.isStatic with
    | false => exact .inl (fits_of_calls_instance hmodes h.drawn hop hcalls hstatic)
    | true => exact .inr (exceeds_of_calls_static hmodes h.drawn hop hcalls hstatic)

/-! ### Bodies in sessions -/

theorem hasBody_of_lowerMethod {registers : Bool} (built : w.Built) (hprepare : Finishes (prepare registers) w () w0)
    (ops : List Abi.Operation) {ref : MethodRef} {parent : Option Nat} {g : GraphId}
    (hrun : Finishes (lowerMethod ref parent) (operate w0 ops) g w') :
    ∃ s0 m e routine, Started w0 s0 ∧ w0.registry.method? ref = some m ∧ m.entity = some e ∧
      HasBody w0 routine w'.program m e g ∧ Sound w0 w' ∧
      ∀ mode : Mode, w'.program.types.shape? mode.typeId = some (.primitive mode) := by
  obtain ⟨-, -, s0, -, -, -, hstart, -⟩ := started_of_prepare built hprepare
  have hbuilt := built_of_prepare built hprepare
  obtain ⟨d, hd, -⟩ := hstart.helper .initClass
  have hinit : w0.helper? .initClass = some d := by rw [helper?, hstart.session, Option.bind_some, hd]
  have hsound := sound_operate hstart ops
  have hleads := leads_lowerMethod hinit hbuilt hsound ref parent
  obtain ⟨m, e, hm, he, hbody, -⟩ := hleads.2 g w' hrun
  have hchanges := hleads.1
  rw [hrun] at hchanges
  have hbuilt' : w'.Built := keep_along (fun _ _ hw h => h.built hw) hchanges (built_operate hbuilt ops)
  exact ⟨s0, m, e, d.entity, hstart, hm, he, hbody, (hsound.changes hchanges).1, hbuilt'.typesSound.shared⟩

theorem isBody_of_lowerMethod {registers : Bool} (built : w.Built) (hprepare : Finishes (prepare registers) w () w0)
    (ops : List Abi.Operation) {ref : MethodRef} {parent : Option Nat} {g : GraphId}
    (hrun : Finishes (lowerMethod ref parent) (operate w0 ops) g w') :
    ∃ m graph routine, w0.registry.method? ref = some m ∧ w'.program.graphs[g]? = some graph ∧
      IsBody w0 routine w'.program m graph ∧
      ∀ mode : Mode, w'.program.types.shape? mode.typeId = some (.primitive mode) := by
  obtain ⟨-, m, -, routine, -, hm, -, ⟨-, graph, -, -, hgraph, -, hbody⟩, -, hmodes⟩ :=
    hasBody_of_lowerMethod built hprepare ops hrun
  exact ⟨m, graph, routine, hm, hgraph, hbody, hmodes⟩

/-- In the body of a method, all calls fit their types if and only if no operation finds a static method through an interface.
A call that does not fit has one reference too many. The result has the mode of the method's result. -/
theorem fits_iff_of_lowerMethod {registers : Bool} (built : w.Built) (hprepare : Finishes (prepare registers) w () w0)
    (ops : List Abi.Operation) {ref : MethodRef} {parent : Option Nat} {g : GraphId}
    (hrun : Finishes (lowerMethod ref parent) (operate w0 ops) g w') :
    ∃ m graph, w0.registry.method? ref = some m ∧ w'.program.graphs[g]? = some graph ∧
      ((∀ call ∈ graph.calls, graph.Fits w'.program.types call) ↔
        ∀ m' ∈ invoked w0.registry m.ops, m'.access.isStatic = false) ∧
      (∀ call ∈ graph.calls, graph.Fits w'.program.types call ∨ graph.Exceeds w'.program.types call) ∧
      ∀ id ∈ graph.result, ∃ n, graph.node? id = some n ∧ n.mode = m.result.mode := by
  obtain ⟨m, graph, routine, hm, hgraph, hbody, hmodes⟩ := isBody_of_lowerMethod built hprepare ops hrun
  refine ⟨m, graph, hm, hgraph, hbody.fits_iff hmodes, fun call hcall => hbody.fits_or_exceeds hmodes hcall, fun id hid => ?_⟩
  obtain ⟨n, hn, rfl, hmode⟩ := hbody.result id hid
  exact ⟨n, hbody.drawn.node?_eq hn, hmode⟩

/-- An interface with a static method and an instance method, both of which are called by methods of the root class. -/
def classesWithInterface : Workspace :=
  let declared := (Class.declare "I" ⟨0x601⟩ false (Class.declare rootClass ⟨1⟩ false { target := .linux64 }).2).2
  let interface := (Class.addMethod 1 "n" "(I)I" ⟨0x401⟩ [] (Class.addMethod 1 "m" "()V" ⟨9⟩ [] declared).2).2
  (Class.addMethod 0 "g" "()I" ⟨1⟩ ["invokeinterface I n (I)I"]
    (Class.addMethod 0 "f" "()V" ⟨1⟩ ["invokeinterface I m ()V"] interface).2).2

theorem built_classesWithInterface : classesWithInterface.Built :=
  .addMethod 0 "g" "()I" ⟨1⟩ ["invokeinterface I n (I)I"] (.addMethod 0 "f" "()V" ⟨1⟩ ["invokeinterface I m ()V"]
    (.addMethod 1 "n" "(I)I" ⟨0x401⟩ [] (.addMethod 1 "m" "()V" ⟨9⟩ [] (.declare "I" ⟨0x601⟩ false
      (.declare rootClass ⟨1⟩ false (.start .linux64))))))

/-- The bodies of both methods can be built. The first finds the static method, and the second the other one. -/
theorem exists_classesWithInterface : ∃ w0, Finishes (prepare false) classesWithInterface () w0 ∧
    (∃ g w', Finishes (lowerMethod ⟨0, 0⟩ none) w0 g w') ∧ (∃ g w', Finishes (lowerMethod ⟨0, 1⟩ none) w0 g w') ∧
    (w0.registry.method? ⟨0, 0⟩).map (fun m => (invoked w0.registry m.ops).map (·.access.isStatic)) = some [true] := by
  have hok : (prepare false classesWithInterface).1.isOk = true ∧
      (lowerMethod ⟨0, 0⟩ none (prepare false classesWithInterface).2).1.isOk = true ∧
      (lowerMethod ⟨0, 1⟩ none (prepare false classesWithInterface).2).1.isOk = true ∧
      ((prepare false classesWithInterface).2.registry.method? ⟨0, 0⟩).map
        (fun m => (invoked (prepare false classesWithInterface).2.registry m.ops).map (·.access.isStatic)) = some [true] := by
    generalize hprepare : prepare false classesWithInterface = r
    cbv at hprepare
    subst hprepare
    exact ⟨rfl, by cbv, by cbv, by cbv⟩
  have hfinishes : ∀ {x : Action GraphId} {w : Workspace}, (x w).1.isOk = true → ∃ g w', Finishes x w g w' := by
    intro x w h
    rcases hx : x w with ⟨e | g, w'⟩
    · rw [hx] at h
      cases h
    · exact ⟨g, w', hx⟩
  obtain ⟨hprepare, hfirst, hsecond, hinvoked⟩ := hok
  exact ⟨_, finishes_of_isOk hprepare, hfinishes hfirst, hfinishes hsecond, hinvoked⟩

theorem fits_iff_of_lowerMethod_interface : classesWithInterface.Built ∧ ∃ w0 g w',
    Finishes (prepare false) classesWithInterface () w0 ∧ Finishes (lowerMethod ⟨0, 1⟩ none) (operate w0 []) g w' ∧
    ∃ m graph, w0.registry.method? ⟨0, 1⟩ = some m ∧ w'.program.graphs[g]? = some graph ∧
      ((∀ call ∈ graph.calls, graph.Fits w'.program.types call) ↔
        ∀ m' ∈ invoked w0.registry m.ops, m'.access.isStatic = false) ∧
      (∀ call ∈ graph.calls, graph.Fits w'.program.types call ∨ graph.Exceeds w'.program.types call) ∧
      ∀ id ∈ graph.result, ∃ n, graph.node? id = some n ∧ n.mode = m.result.mode := by
  obtain ⟨w0, hprepare, -, ⟨g, w', hlower⟩, -⟩ := exists_classesWithInterface
  exact ⟨built_classesWithInterface, w0, g, w', hprepare, hlower,
    fits_iff_of_lowerMethod built_classesWithInterface hprepare [] hlower⟩

/-- A static method of an interface is called with an object, for which its type has no parameter. -/
theorem static_call_exceeds : classesWithInterface.Built ∧ ∃ w0 g w' graph,
    Finishes (prepare false) classesWithInterface () w0 ∧ Finishes (lowerMethod ⟨0, 0⟩ none) w0 g w' ∧
    w'.program.graphs[g]? = some graph ∧ ∃ call ∈ graph.calls, ¬graph.Fits w'.program.types call := by
  obtain ⟨w0, hprepare, ⟨g, w', hlower⟩, -, hinvoked⟩ := exists_classesWithInterface
  obtain ⟨m, graph, routine, hm, hgraph, hbody, hmodes⟩ := isBody_of_lowerMethod built_classesWithInterface hprepare [] hlower
  refine ⟨built_classesWithInterface, w0, g, w', graph, hprepare, hlower, hgraph, ?_⟩
  rw [hm, Option.map_some, Option.some.injEq] at hinvoked
  obtain ⟨m', hm', hstatic⟩ := List.mem_map.1 (hinvoked ▸ List.mem_singleton_self true)
  have hnot : ¬∀ call ∈ graph.calls, graph.Fits w'.program.types call := by
    rw [hbody.fits_iff hmodes]
    intro hinstance
    cases hstatic.symm.trans (hinstance m' hm')
  push Not at hnot
  exact hnot

end Lowering

end ClassAbi
