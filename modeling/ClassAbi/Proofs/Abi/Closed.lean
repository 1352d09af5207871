import ClassAbi.Class.Declare
import ClassAbi.Class.Instance
import ClassAbi.Proofs.Abi.Operation

/-!
# Closed sessions

A closed session makes no constants, and fills no vtable and no class descriptor. What can still be added to the program are
tables that take no constants: the table of the methods of a class that has none, and tables of interfaces.
-/

namespace ClassAbi.Abi

open ClassAbi.Action Workspace

variable {op : Operation}

/-- Whether an operation asks for a table that takes no constants. -/
def Operation.asksBareTable : Operation → Bool
  | methodTable cls => cls.methods.isEmpty
  | interfaceTable cls => !cls.interfaces.isEmpty
  | _ => false

/-- The operations that are answered with a table that takes no constants. -/
def bareTables (w : Workspace) : List Operation → List Operation
  | [] => []
  | op :: ops =>
    let rest := bareTables (op.answer w).2 ops
    if op.asksBareTable && (op.answer w).1.isOk then op :: rest else rest

/-- Whether an entity is the table that an operation asks for, if it takes no constants. -/
def IsBareTable (w : Workspace) : Operation → Entity → Prop
  | .methodTable _, ent => ∃ n t, ent = tableEntity ("_MT" ++ "." ++ Text.ofNat n) t []
  | .interfaceTable cls, ent => ∃ n t values, List.Forall₂ (IsReference w) cls.interfaces values ∧
      ent = tableEntity ("_IF" ++ "." ++ Text.ofNat n) t values
  | _, _ => False

def bodiless (ent : Entity) : Entity := { ent with body := none }

def Closed (w : Workspace) : Prop := ∃ s, w.session = some s ∧ s.closed = true

/-- Whether a closed session stays closed, and the program gets some entities and is otherwise left alone, bodies apart. -/
structure Adds (tables : List Entity) (w w' : Workspace) : Prop where
  closed : Closed w'
  registry_eq : w'.registry = w.registry
  entities : w'.program.entities.toList.map bodiless = w.program.entities.toList.map bodiless ++ tables

variable {w w1 w2 : Workspace} {α β : Type}

theorem adds_nil (h : Closed w) : Adds [] w w := ⟨h, rfl, (List.append_nil _).symm⟩

theorem Adds.trans {new new' : List Entity} (h : Adds new w w1) (h' : Adds new' w1 w2) : Adds (new ++ new') w w2 where
  closed := h'.closed
  registry_eq := h'.registry_eq.trans h.registry_eq
  entities := by rw [h'.entities, h.entities, List.append_assoc]

/-! ### What a closed session refuses -/

/-- Whether a step fails and leaves the workspace as it is. -/
def Refuses (x : Action α) (w : Workspace) : Prop := ∃ e, x w = (.error e, w)

theorem Refuses.bind {x : Action α} {f : α → Action β} (h : Refuses x w) : Refuses (x >>= f) w := by
  obtain ⟨e, he⟩ := h
  exact ⟨e, bind_apply_of_error he⟩

theorem refuses_bind_of_finishes {x : Action α} {f : α → Action β} {a : α} (hx : Finishes x w a w) (h : Refuses (f a) w) :
    Refuses (x >>= f) w := by
  obtain ⟨e, he⟩ := h
  exact ⟨e, (bind_apply_of_finishes hx).trans he⟩

theorem refuses_checkOpen (h : Closed w) (cls : Text) : Refuses (checkOpen cls) w := by
  obtain ⟨s, hs, hclosed⟩ := h
  refine refuses_bind_of_finishes (finishes_session hs) ?_
  rw [if_pos hclosed]
  exact ⟨_, rfl⟩

theorem refuses_intern (h : Closed w) (text : Text) : Refuses (intern text) w := (refuses_checkOpen h _).bind

theorem refuses_of_checkOpen (h : Closed w) (c : ClassId) {f : Class → Action β} :
    Refuses (do let cls ← class' c; checkOpen cls.name; f cls) w := by
  cases hcls : w.registry.class? c with
  | none =>
    have hfault : Refuses (class' c) w := ⟨.fault, by rw [class', bind_apply_of_finishes finishes_get, hcls]; rfl⟩
    exact hfault.bind
  | some cls => exact refuses_bind_of_finishes (finishes_class'_iff.2 ⟨hcls, rfl⟩) (refuses_checkOpen h _).bind

theorem refuses_methodRecord (h : Closed w) (cls : Text) (m : Method) : Refuses (methodRecord cls m) w :=
  (refuses_intern h _).bind

theorem refuses_fieldRecord (h : Closed w) (cls : Text) (f : Field) : Refuses (fieldRecord cls f) w :=
  (refuses_intern h _).bind

theorem refuses_mapM {f : α → Action β} {as : List α} (hne : as ≠ []) (h : ∀ a, Refuses (f a) w) : Refuses (as.mapM f) w := by
  cases as with
  | nil => exact absurd rfl hne
  | cons a as =>
    rw [List.mapM_cons]
    exact (h a).bind

/-! ### What leaves the entities alone -/

/-- A change after which a closed session is still closed, and its entities are the same, bodies apart. -/
def Rests (w w' : Workspace) : Prop := Closed w → Adds [] w w'

theorem rests_of_steps (h : Relation.ReflTransGen Rests w w1) : Rests w w1 := by
  induction h with
  | refl => exact adds_nil
  | tail _ hstep ih => exact fun hclosed => (ih hclosed).trans (hstep (ih hclosed).closed)

theorem rests_of_works {x : Action α} [hx : Works Rests x] : Rests w (x w).2 := rests_of_steps (hx.changes w)

theorem works_of_refuses {x : Action α} (h : ∀ w, Closed w → Refuses x w) : Works Rests x := by
  refine .of_step fun w hclosed => ?_
  obtain ⟨e, he⟩ := h w hclosed
  rw [he]
  exact adds_nil hclosed

theorem map_bodiless_modify (p : Program) (e : EntityId) (g : GraphId) :
    (p.modifyEntity e fun ent => { ent with body := some g }).entities.toList.map bodiless =
      p.entities.toList.map bodiless := by
  refine List.ext_getElem? fun i => ?_
  rw [List.getElem?_map, List.getElem?_map, Array.getElem?_toList, Array.getElem?_toList, Program.modifyEntity,
    Array.getElem?_modify]
  split_ifs
  · rw [Option.map_map]
    rfl
  · rfl

instance : Answers Rests where
  graphs _ _ h := ⟨h, rfl, (List.append_nil _).symm⟩
  body w e g h := ⟨h, rfl, (map_bodiless_modify w.program e g).trans (List.append_nil _).symm⟩
  point _ _ _ _ := .of_step fun _ h => ⟨h, rfl, (List.append_nil _).symm⟩
  span := works_withSpan fun _ _ h => ⟨h, rfl, (List.append_nil _).symm⟩
  layouts _ _ h := ⟨h, rfl, (List.append_nil _).symm⟩
  type _ _ h := ⟨h, rfl, (List.append_nil _).symm⟩
  intern text := works_of_refuses fun _ h => refuses_intern h text
  vtable c := works_of_refuses fun _ h => refuses_of_checkOpen h c
  descriptor c := works_of_refuses fun _ h => refuses_of_checkOpen h c

theorem closed_close (w : Workspace) {s : Session} (hs : w.session = some s) :
    Closed { w with session := w.session.map Session.close } := ⟨s.close, by rw [hs]; rfl, rfl⟩

/-! ### Tables -/

theorem newTable_cases (h : Closed w) (tag : Text) (elem : TypeId) (n : Nat) (values : List Init) :
    (∃ e w', newTable tag elem n values w = (.ok e, w') ∧
      ∃ k t, Adds [tableEntity (tag ++ "." ++ Text.ofNat k) t values] w w') ∨
    ∃ f w', newTable tag elem n values w = (.error f, w') ∧ Adds [] w w' := by
  let t := (w.program.types.push (.array elem n)).1
  let w1 : Workspace := { w with program := (w.program.addType (.array elem n)).2 }
  let name := (w1.program.uniqueName tag).1
  let w2 : Workspace := { w1 with program := (w1.program.uniqueName tag).2 }
  have htype : Finishes (newType (.array elem n)) w t w1 := finishes_newType_iff.2 ⟨rfl, rfl⟩
  have hname : Finishes (onProgram (·.uniqueName tag)) w1 name w2 := finishes_onProgram_iff.2 ⟨rfl, rfl⟩
  rw [newTable, bind_apply_of_finishes htype, bind_apply_of_finishes hname]
  by_cases hfree : w2.program.Unused name
  · refine .inl ⟨w2.program.entities.size, { w2 with program := w2.program.push (tableEntity name t values) }, ?_,
      w1.program.made.getD tag 0, t, h, rfl, ?_⟩
    · rw [bind_apply_of_finishes (finishes_newEntity_iff.2 ⟨hfree, rfl, rfl⟩),
        bind_apply_of_finishes (finishes_modifyEntity_iff (u := ()).2 rfl), Program.modifyEntity_push _ _ rfl]
      rfl
    · show (w.program.entities.push _).toList.map bodiless = _
      rw [Array.toList_push, List.map_append]
      rfl
  · exact .inr ⟨_, _, bind_apply_of_error (newEntity_of_used hfree), h, rfl, (List.append_nil _).symm⟩

def Answer (op : Operation) (w : Workspace) : Prop :=
  ∃ tables, Adds tables w (op.answer w).2 ∧ List.Forall₂ (IsBareTable w) (bareTables w [op]) tables

theorem discard_apply (x : Action α) (w : Workspace) : discard x w = ((x w).1.map fun _ => (), (x w).2) := by
  show ((fun _ => ()) <$> x) w = _
  rw [map_eq_pure_bind]
  rcases hx : x w with ⟨e | a, w'⟩
  · exact bind_apply_of_error hx
  · exact bind_apply_of_finishes hx

theorem discard_of_refuses {x : Action α} (h : Refuses x w) : Refuses (discard x) w := by
  obtain ⟨e, he⟩ := h
  exact ⟨e, by rw [discard_apply, he]; rfl⟩

theorem discard_bind_of_finishes {x : Action α} {f : α → Action β} {a : α} (h : Finishes x w a w1) :
    discard (x >>= f) w = discard (f a) w1 := by
  rw [discard_apply, discard_apply, bind_apply_of_finishes h]

theorem discard_bind_pure {x : Action α} {f : α → β} : discard (x >>= fun a => pure (f a)) w = discard x w := by
  rw [discard_apply, discard_apply]
  rcases hx : x w with ⟨e | a, w'⟩
  · rw [bind_apply_of_error hx]
    rfl
  · rw [bind_apply_of_finishes hx]
    rfl

theorem bareTables_single (op : Operation) (w : Workspace) :
    bareTables w [op] = if op.asksBareTable && (op.answer w).1.isOk then [op] else [] := rfl

theorem answer_of_rests (h : Rests w (op.answer w).2) (hclosed : Closed w)
    (hnone : (op.asksBareTable && (op.answer w).1.isOk) = false) : Answer op w := by
  refine ⟨[], h hclosed, ?_⟩
  rw [bareTables_single, hnone]
  exact .nil

theorem answer_of_refuses (h : Refuses op.answer w) (hclosed : Closed w) : Answer op w := by
  obtain ⟨e, he⟩ := h
  refine answer_of_rests ?_ hclosed ?_
  · rw [he]
    exact adds_nil
  · rw [he]
    exact Bool.and_false _

theorem answer_of_newTable {tag : Text} {elem : TypeId} {n : Nat} {values : List Init} (hclosed : Closed w)
    (hasks : op.asksBareTable = true) (hop : op.answer w = discard (newTable tag elem n values) w)
    (htable : ∀ k t, IsBareTable w op (tableEntity (tag ++ "." ++ Text.ofNat k) t values)) : Answer op w := by
  rw [discard_apply] at hop
  rcases newTable_cases hclosed tag elem n values with ⟨e, w', hrun, k, t, hadds⟩ | ⟨e, w', hrun, hadds⟩
  · rw [hrun] at hop
    refine ⟨_, by rw [hop]; exact hadds, ?_⟩
    rw [bareTables_single, hop, hasks]
    exact .cons (htable k t) .nil
  · rw [hrun] at hop
    refine ⟨[], by rw [hop]; exact hadds, ?_⟩
    rw [bareTables_single, hop, hasks]
    exact .nil

theorem answer_methodTable (hclosed : Closed w) (cls : Class) : Answer (.methodTable cls) w := by
  by_cases hempty : cls.methods.isEmpty = true
  · obtain ⟨s, hs, -⟩ := id hclosed
    have hmethods : cls.methods = #[] := by simpa using hempty
    have hrecords : Finishes (cls.methods.toList.mapM (methodRecord cls.name)) w [] w := by
      rw [hmethods]
      exact finishes_pure
    have hop : discard (methodTable cls) w = discard (newTable "_MT" s.types.method cls.methods.size []) w :=
      (discard_bind_of_finishes hrecords).trans (discard_bind_of_finishes (finishes_session hs))
    exact answer_of_newTable hclosed hempty hop fun k t => ⟨k, t, rfl⟩
  · have hne : cls.methods.toList ≠ [] := by simpa using hempty
    exact answer_of_refuses (discard_of_refuses (refuses_mapM hne fun m => refuses_methodRecord hclosed cls.name m).bind) hclosed

theorem answer_fieldTable (hclosed : Closed w) (cls : Class) : Answer (.fieldTable cls) w := by
  have hanswer : (Operation.fieldTable cls).answer w = discard (fieldTable cls) w := rfl
  rw [fieldTable] at hanswer
  by_cases hempty : cls.fields.isEmpty = true
  · refine answer_of_rests ?_ hclosed rfl
    rw [hanswer, if_pos hempty, discard_apply]
    exact adds_nil
  · have hne : cls.fields.toList ≠ [] := by simpa using hempty
    rw [if_neg hempty] at hanswer
    obtain ⟨e, he⟩ := discard_of_refuses (refuses_mapM hne fun f => refuses_fieldRecord hclosed cls.name f).bind
    exact answer_of_refuses ⟨e, hanswer.trans he⟩ hclosed

theorem references_cases (cls : Text) (is : List ClassId) (w : Workspace) :
    let x : Action (List Init) := is.mapM fun i => do
      let iface ← class' i
      match iface.descriptor with
      | none => refuse cls (.interfaceWithoutDescriptor iface.name)
      | some e => return Init.ofEntity e
    Refuses x w ∨ ∃ values, Finishes x w values w ∧ List.Forall₂ (IsReference w) is values := by
  intro x
  have hreads : Leads (fun _ _ => False) x w fun values w' => List.Forall₂ (fun i v => IsReference w' i v) is values := by
    refine leads_mapM (T := fun i v w => IsReference w i v) (fun _ _ _ _ _ => False.elim) fun i _ t _ => ?_
    refine leads_class'_bind fun iface hiface => ?_
    split
    · exact leads_throw _
    · rename_i e he
      exact leads_pure ⟨iface, e, hiface, he, rfl⟩
  have hsame : (x w).2 = w := by
    rcases hreads.1.cases_tail with h | ⟨_, -, h⟩
    · exact h
    · exact h.elim
  rcases hrun : x w with ⟨e | values, w'⟩
  · rw [hrun] at hsame
    exact .inl ⟨e, hsame ▸ hrun⟩
  · rw [hrun] at hsame
    obtain rfl : w' = w := hsame
    exact .inr ⟨values, hrun, hreads.2 values w' hrun⟩

theorem answer_interfaceTable (hclosed : Closed w) (cls : Class) : Answer (.interfaceTable cls) w := by
  have hanswer : (Operation.interfaceTable cls).answer w = discard (interfaceTable cls) w := rfl
  rw [interfaceTable] at hanswer
  by_cases hempty : cls.interfaces.isEmpty = true
  · refine answer_of_rests ?_ hclosed (by simp [Operation.asksBareTable, hempty])
    rw [hanswer, if_pos hempty, discard_apply]
    exact adds_nil
  rw [if_neg hempty] at hanswer
  rcases references_cases cls.name cls.interfaces w with hrefuses | ⟨values, hrun, hvalues⟩
  · obtain ⟨e, he⟩ := discard_of_refuses hrefuses.bind
    exact answer_of_refuses ⟨e, hanswer.trans he⟩ hclosed
  · have hop := hanswer.trans ((discard_bind_of_finishes hrun).trans discard_bind_pure)
    exact answer_of_newTable hclosed (by simpa [Operation.asksBareTable] using hempty) hop fun k t => ⟨k, t, values, hvalues, rfl⟩

/-! ### All operations -/

theorem answer_operation (hclosed : Closed w) (op : Operation) : Answer op w := by
  cases op with
  | close =>
    refine answer_of_rests ?_ hclosed rfl
    rintro ⟨s, hs, -⟩
    exact ⟨closed_close w hs, rfl, (List.append_nil _).symm⟩
  | methodRecord cls m => exact answer_of_refuses (discard_of_refuses (refuses_methodRecord hclosed cls m)) hclosed
  | fieldRecord cls f => exact answer_of_refuses (discard_of_refuses (refuses_fieldRecord hclosed cls f)) hclosed
  | methodTable cls => exact answer_methodTable hclosed cls
  | fieldTable cls => exact answer_fieldTable hclosed cls
  | interfaceTable cls => exact answer_interfaceTable hclosed cls
  | _ =>
    refine answer_of_rests ?_ hclosed rfl
    dsimp only [Operation.answer]
    exact rests_of_works

theorem IsBareTable.of_registry_eq {ent : Entity} (hregistry : w1.registry = w.registry) (h : IsBareTable w1 op ent) :
    IsBareTable w op ent := by
  cases op with
  | methodTable cls => exact h
  | interfaceTable cls =>
    obtain ⟨n, t, values, hvalues, hent⟩ := h
    refine ⟨n, t, values, hvalues.imp fun i v hv => ?_, hent⟩
    rwa [IsReference, hregistry] at hv
  | _ => exact h

theorem bareTables_cons (op : Operation) (ops : List Operation) (w : Workspace) :
    bareTables w (op :: ops) = bareTables w [op] ++ bareTables (op.answer w).2 ops := by
  rw [bareTables_single, bareTables]
  split_ifs <;> rfl

theorem adds_operate (hclosed : Closed w) (ops : List Operation) :
    ∃ tables, Adds tables w (operate w ops) ∧ List.Forall₂ (IsBareTable w) (bareTables w ops) tables := by
  induction ops generalizing w with
  | nil => exact ⟨[], adds_nil hclosed, .nil⟩
  | cons op ops ih =>
    obtain ⟨first, hfirst, htables⟩ := answer_operation hclosed op
    obtain ⟨rest, hrest, htables'⟩ := ih hfirst.closed
    refine ⟨first ++ rest, hfirst.trans hrest, ?_⟩
    rw [bareTables_cons]
    exact List.rel_append htables (htables'.imp fun _ _ h => h.of_registry_eq hfirst.registry_eq)

theorem Adds.kept {tables : List Entity} (h : Adds tables w w1) {e : EntityId} {ent : Entity} (he : w.program.entity? e = some ent) :
    ∃ ent', w1.program.entity? e = some ent' ∧ bodiless ent' = bodiless ent := by
  have hmapped : (w1.program.entities.toList.map bodiless)[e]? = some (bodiless ent) := by
    have hlt : e < (w.program.entities.toList.map bodiless).length := by
      simpa using Program.lt_size_of_entity? he
    rw [h.entities, List.getElem?_append_left hlt, List.getElem?_map, Array.getElem?_toList]
    exact congrArg (Option.map bodiless) he
  rw [List.getElem?_map, Array.getElem?_toList] at hmapped
  exact Option.map_eq_some_iff.1 hmapped

/-- After the end of a session, whatever is asked of it, the entities of the program keep their types, contents and
alignments, and those that are added are the tables that take no constants. -/
theorem tables_after_close {s : Session} (hs : w.session = some s) (ops : List Operation) :
    (∀ e ent, w.program.entity? e = some ent → ∃ ent', (operate (operate w [.close]) ops).program.entity? e = some ent' ∧
      ent'.type = ent.type ∧ ent'.init = ent.init ∧ ent'.alignment = ent.alignment) ∧
    ∃ tables, List.Forall₂ (IsBareTable w) (bareTables (operate w [.close]) ops) tables ∧
      (operate (operate w [.close]) ops).program.entities.toList.map bodiless =
        w.program.entities.toList.map bodiless ++ tables := by
  have hclosed : Closed (operate w [.close]) := closed_close w hs
  obtain ⟨tables, hadds, htables⟩ := adds_operate hclosed ops
  refine ⟨fun e ent he => ?_, tables, htables.imp fun _ _ h => h.of_registry_eq rfl, hadds.entities⟩
  obtain ⟨ent', he', hsame⟩ := hadds.kept (w := operate w [.close]) he
  simp only [bodiless, Entity.mk.injEq] at hsame
  exact ⟨ent', he', hsame.2.2.1, hsame.2.2.2.2.2.2.2.1, hsame.2.2.2.2.2.2.1⟩

/-- A session in which only the root class is known. -/
def rootSession : Workspace := (start false (Class.layOutAll (Class.declare rootClass ⟨1⟩ false { target := .linux64 }).2).2).2

theorem exists_rootSession : ∃ s cls, rootSession.session = some s ∧ rootSession.registry.class? 0 = some cls ∧
    bareTables (operate rootSession [.close]) [.methodTable cls] = [.methodTable cls] := by
  generalize hw : rootSession = w
  cbv at hw
  subst hw
  refine ⟨_, _, rfl, rfl, ?_⟩
  rw [bareTables_single, if_pos (by cbv)]

theorem tables_after_close_root : ∃ s cls, rootSession.session = some s ∧ rootSession.registry.class? 0 = some cls ∧
    ∃ table, IsBareTable rootSession (.methodTable cls) table ∧
      (operate (operate rootSession [.close]) [.methodTable cls, .intern "a"]).program.entities.toList.map bodiless =
        rootSession.program.entities.toList.map bodiless ++ [table] := by
  obtain ⟨s, cls, hs, hcls, hbare⟩ := exists_rootSession
  obtain ⟨-, tables, htables, hentities⟩ := tables_after_close hs [.methodTable cls, .intern "a"]
  have hops : bareTables (operate rootSession [.close]) [.methodTable cls, .intern "a"] = [.methodTable cls] := by
    rw [bareTables_cons, hbare]
    rfl
  rw [hops] at htables
  cases htables with
  | cons htable hnil =>
    cases hnil
    exact ⟨s, cls, hs, hcls, _, htable, hentities⟩

/-- The table of the methods of a class without methods is added after the end of the session. -/
theorem table_added_after_close : ∃ s cls, rootSession.session = some s ∧ rootSession.registry.class? 0 = some cls ∧
    (operate (operate rootSession [.close]) [.methodTable cls]).program.entities.size = rootSession.program.entities.size + 1 := by
  obtain ⟨s, cls, hs, hcls, hbare⟩ := exists_rootSession
  obtain ⟨tables, hadds, htables⟩ := adds_operate (closed_close rootSession hs) [.methodTable cls]
  have hlength : tables.length = 1 := htables.length_eq.symm.trans (congrArg List.length hbare)
  have hsize := congrArg List.length hadds.entities
  simp only [List.length_map, Array.length_toList, List.length_append, hlength] at hsize
  exact ⟨s, cls, hs, hcls, hsize⟩

end ClassAbi.Abi
