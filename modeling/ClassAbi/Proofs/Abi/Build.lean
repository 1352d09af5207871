import ClassAbi.Proofs.Abi.Record

/-!
# Building vtables and class descriptors

The two steps that give content to entities which were declared before. Both leave a note in the session, by which later
calls know that it is done.
-/

namespace ClassAbi.Abi

variable {s : Session} {c : ClassId} {cls : Class} {d : EntityId}

open ClassAbi.Action Workspace

variable {w w' : Workspace} {α : Type} {S : Workspace → Workspace → Prop}

theorem eq_of_no_change (h : Relation.ReflTransGen (fun _ _ : Workspace => False) w w') : w = w' := by
  induction h with
  | refl => rfl
  | tail _ hlast _ => exact hlast.elim

theorem leads_of_reads {x : Action α} {Q : α → Workspace → Prop} (h : Leads (fun _ _ => False) x w Q) :
    Leads S x w fun a w' => w = w' ∧ Q a w' := by
  refine ⟨?_, fun a w' hrun => ⟨?_, h.2 a w' hrun⟩⟩
  · rw [← eq_of_no_change h.1]
  · have hstate := eq_of_no_change h.1
    rwa [hrun] at hstate

theorem leads_pointerSize : Leads S pointerSize w fun _ w' => w = w' := by
  refine leads_get_bind ?_
  exact leads_pure rfl

theorem leads_modifyEntity {e : EntityId} {f : Entity → Entity}
    (hstep : S w { w with program := w.program.modifyEntity e f }) :
    Leads S (modifyEntity e f) w fun _ w' => { w with program := w.program.modifyEntity e f } = w' :=
  leads_of_finishes (a := ()) (finishes_modifyEntity_iff.2 rfl) (.single hstep) rfl

/-! ### Vtables -/

theorem leads_vtableSlots (cls : Class) :
    Leads S (vtableSlots cls (descriptorSlot cls)) w fun slots w' => w = w' ∧ IsVtable w cls slots := by
  refine leads_of_reads ?_
  refine leads_registry_bind ?_
  refine (leads_mapM (T := fun ref v _ => IsMethodCode w ref v) (fun _ _ _ _ h _ => h) fun ref _ t hsteps => ?_).bind
    fun codes w1 hsteps hcodes => ?_
  · obtain rfl := eq_of_no_change hsteps
    refine leads_need_bind fun m hm => ?_
    refine (leads_codeOf m).bind ?_
    rintro code _ - ⟨rfl, rfl⟩
    exact leads_pure ⟨m, hm, rfl⟩
  · dsimp only
    split_ifs with hroom
    · exact leads_throw _
    · exact leads_pure ⟨codes, hcodes, by omega, rfl⟩

/-- Once a vtable has its type, its slots are filled in and the session notes the class. -/
theorem leads_fillVtable {vt : EntityId} (hs : w.session = some s) (hopen : s.closed = false)
    (hcls : w.registry.class? c = some cls) (hneeds : cls.needsVtable = true) (hvt : cls.vtableEntity = some vt)
    (hexternal : cls.external = false) (hnew : c ∉ s.vtables)
    (htype : ∀ ent, w.program.entity? vt = some ent →
      w.program.types.shape? ent.type = some (.array (some Mode.pointer.typeId) cls.vtableSize)) :
    Leads Filling (do
        let slots ← vtableSlots cls (descriptorSlot cls)
        modifyEntity vt fun e => { e with init := some (.compound slots) }
        modifySession fun s => { s with vtables := s.vtables.insert c }
        return vt) w
      fun vt w' => ∃ cls s, w'.registry.class? c = some cls ∧ cls.needsVtable = true ∧ cls.vtableEntity = some vt ∧
        w'.session = some s ∧ (cls.external = false → c ∈ s.vtables) := by
  refine (leads_vtableSlots cls).bind ?_
  rintro slots _ - ⟨rfl, hslots⟩
  refine leads_of_finishes (a := vt) ?_ (.single (.vtable hs hopen hcls hneeds hvt hexternal hnew htype hslots))
    ⟨cls, _, hcls, hneeds, hvt, rfl, by simp⟩
  simp only [finishes_bind_iff, finishes_modifyEntity_iff, finishes_pure_iff]
  refine ⟨(), _, rfl, (), _, finishes_modify_iff.2 rfl, trivial, ?_⟩
  dsimp only
  rw [hs, Option.map_some]

theorem leads_buildVtable (c : ClassId) :
    Leads Filling (buildVtable c) w fun vt w' => ∃ cls s, w'.registry.class? c = some cls ∧ cls.needsVtable = true ∧
      cls.vtableEntity = some vt ∧ w'.session = some s ∧ (cls.external = false → c ∈ s.vtables) := by
  have hlift : ∀ s t, Addition s t → Filling s t := fun _ _ h => .add h
  refine leads_class'_bind fun cls hcls => ?_
  refine (leads_checkOpen _).bind ?_
  rintro _ _ - ⟨rfl, s, hs, hopen⟩
  dsimp only
  by_cases hneeds : cls.needsVtable = true
  swap
  · rw [if_pos (by simp [hneeds])]
    exact leads_throw _
  rw [if_neg (by simp [hneeds])]
  by_cases hfinal : cls.dispatchFinal = true
  swap
  · rw [if_pos (by simp [hfinal])]
    exact leads_throw _
  rw [if_neg (by simp [hfinal])]
  by_cases hfew : cls.vtableSize < headerSlots
  · rw [if_pos hfew]
    exact leads_throw _
  rw [if_neg hfew]
  split
  · exact leads_throw _
  rename_i vt hvt
  refine ((leads_newType _).lift hlift).bind ?_
  rintro t w1 - ⟨hw1, ht⟩
  have hcls1 : w1.registry.class? c = some cls := hw1 ▸ hcls
  have hs1 : w1.session = some s := hw1 ▸ hs
  refine leads_pointerSize.bind ?_
  rintro alignment _ - rfl
  refine (leads_modifyEntity (.vtableType alignment hcls1 hneeds hvt ht)).bind ?_
  rintro _ w2 - hw2
  have hcls2 : w2.registry.class? c = some cls := hw2 ▸ hcls1
  have hs2 : w2.session = some s := hw2 ▸ hs1
  have htype2 : ∀ ent, w2.program.entity? vt = some ent →
      w2.program.types.shape? ent.type = some (.array (some Mode.pointer.typeId) cls.vtableSize) := by
    rw [← hw2]
    intro ent hent
    rw [Program.entity?_modifyEntity, if_pos rfl] at hent
    obtain ⟨ent0, -, rfl⟩ := Option.map_eq_some_iff.1 hent
    exact ht
  refine leads_session_bind fun s' hs' => ?_
  cases hs2.symm.trans hs'
  by_cases hdone : (cls.external || s.vtables.contains c) = true
  · rw [if_pos hdone]
    refine leads_pure ⟨cls, s, hcls2, hneeds, hvt, hs2, fun hexternal => ?_⟩
    simpa [hexternal] using hdone
  rw [if_neg hdone]
  simp only [Bool.or_eq_true, not_or, Bool.not_eq_true] at hdone
  have hnew : c ∉ s.vtables := by simpa using hdone.2
  by_cases hdescriptor : cls.descriptor.isNone = true
  · rw [if_pos hdescriptor]
    exact leads_throw _
  rw [if_neg hdescriptor]
  by_cases hmax : (Init.maxValues : Int) < cls.vtableSize
  · rw [if_pos hmax]
    exact leads_throw _
  rw [if_neg hmax]
  by_cases hdollar : cls.name.contains 0x24 = true
  · rw [if_pos hdollar]
    refine ((leads_onTrace _).lift hlift).bind ?_
    rintro _ w3 - hw3
    have hcls3 : w3.registry.class? c = some cls := hw3 ▸ hcls2
    have hs3 : w3.session = some s := hw3 ▸ hs2
    have htype3 : ∀ ent, w3.program.entity? vt = some ent →
        w3.program.types.shape? ent.type = some (.array (some Mode.pointer.typeId) cls.vtableSize) := hw3 ▸ htype2
    have hslot : descriptorSlot cls = .null := by rw [descriptorSlot, if_pos hdollar]
    have hfill := leads_fillVtable hs3 hopen hcls3 hneeds hvt hdone.1 hnew htype3
    rw [hslot] at hfill
    exact hfill
  · rw [if_neg hdollar]
    have hslot : descriptorSlot cls = .ofEntity cls.descriptor := by rw [descriptorSlot, if_neg hdollar]
    have hfill := leads_fillVtable hs2 hopen hcls2 hneeds hvt hdone.1 hnew htype2
    rw [hslot] at hfill
    exact hfill

/-! ### Descriptors -/

theorem leads_superDescriptor (cls : Class) :
    Leads Addition (superDescriptor cls) w fun super w' => w = w' ∧ IsSuper w cls super := by
  rw [superDescriptor]
  split
  · rename_i hnone
    exact leads_pure ⟨rfl, .inl ⟨hnone, rfl⟩⟩
  rename_i k rest hsupers
  refine leads_class'_bind fun super hsuper => ?_
  by_cases hinterface : super.isInterface = true
  · rw [if_pos hinterface]
    exact (leads_onTrace _).bind fun _ _ _ _ => leads_throw _
  rw [if_neg hinterface]
  split
  · exact leads_throw _
  · rename_i e he
    exact leads_pure ⟨rfl, .inr ⟨k, rest, super, e, hsupers, hsuper, Bool.eq_false_iff.2 hinterface, he, rfl⟩⟩

theorem leads_checkSigned (bits : Nat) (cls : Text) (v : Int) (cause : AbiCause) :
    Leads S (checkSigned bits cls v cause) w fun _ w' => w = w' := by
  rw [checkSigned]
  split_ifs
  · exact leads_throw _
  · exact leads_pure rfl

theorem leads_vptrValue (cls : Class) :
    Leads S (vptrValue cls) w fun v w' => w = w' ∧ IsVptr cls ((v.map Init.code).getD .null) := by
  rw [vptrValue]
  split
  · rename_i hnone
    exact leads_pure ⟨rfl, .inl ⟨hnone, rfl⟩⟩
  rename_i vt hvt
  have hmode : Leads S offsetMode w fun mode w' => w = w' ∧ (mode = .int32 ∨ mode = .int64) := by
    refine leads_pointerSize.bind ?_
    rintro size _ - rfl
    refine leads_pure ⟨rfl, ?_⟩
    split_ifs <;> simp
  refine hmode.bind ?_
  rintro mode _ - ⟨rfl, hmode⟩
  refine Leads.bind (Q := fun _ w' => w = w') (leads_pointerSize.bind ?_) ?_
  · rintro size _ - rfl
    exact leads_pure rfl
  · rintro offset _ - rfl
    exact leads_pure ⟨rfl, .inr ⟨vt, mode, offset, hvt, hmode, rfl⟩⟩

theorem leads_headerMembers :
    Leads S headerMembers w fun n w' => w = w' ∧ ∃ (s : Session) (object : Class) (t : TypeId) (name : Text) (members : List Member),
      w.session = some s ∧ w.registry.class? s.root = some object ∧ object.instance = some t ∧
        w.program.types.shape? t = some (.struct name members) ∧ members.length = n := by
  refine leads_session_bind fun s hs => ?_
  refine leads_class'_bind fun object hobject => ?_
  refine leads_get_bind ?_
  refine leads_need_bind fun t ht => ?_
  split
  · rename_i name members hshape
    exact leads_pure ⟨rfl, s, object, t, name, members, hs, hobject, ht, hshape, rfl⟩
  · exact leads_throw _

theorem finishes_register_iff {e : EntityId} :
    Finishes (register d) w e w' ↔ w.program.entities.size = e ∧
      { w with program := (w.program.uniqueName "jcr_ptr").2.push (registrationEntity (w.program.uniqueName "jcr_ptr").1 d) } = w' := by
  rw [register]
  simp only [finishes_bind_iff, finishes_onProgram_iff, finishes_newEntity_iff, finishes_modifyEntity_iff, finishes_pure_iff]
  constructor
  · rintro ⟨_, _, ⟨rfl, rfl⟩, _, _, ⟨hfree, rfl, rfl⟩, _, _, rfl, rfl, rfl⟩
    refine ⟨rfl, ?_⟩
    rw [Program.modifyEntity_push _ _ rfl]
    rfl
  · rintro ⟨rfl, rfl⟩
    refine ⟨_, _, ⟨rfl, rfl⟩, _, _, ⟨.inl rfl, rfl, rfl⟩, (), _, rfl, rfl, ?_⟩
    rw [Program.modifyEntity_push _ _ rfl]
    rfl

/-- The end of a description: the descriptor gets its content, the class is registered if the session does that, and the
session notes what was built. -/
theorem leads_fillDescriptor {methods : EntityId} {members : List Init} {fields interfaces : Option EntityId}
    (hs : w.session = some s) (hopen : s.closed = false) (hcls : w.registry.class? c = some cls)
    (hexternal : cls.external = false) (hnew : s.built[c]? = none)
    (hdescription : ∀ registration, IsDescription w w.Pooled cls ⟨d, members, methods, fields, interfaces, registration⟩) :
    Leads Filling (do
        let type := (← session).types.cls
        modifyEntity d fun e => { e with type, init := some (.compound members), alignment := descriptorAlignment }
        let registration ← if (← session).registers then some <$> register d else pure none
        let built : BuiltClass := ⟨d, members, methods, fields, interfaces, registration⟩
        modifySession fun s => { s with built := s.built.insert c built }
        return built) w
      fun b w' => ∃ s, w'.session = some s ∧ s.built[c]? = some b := by
  have hread : ∀ v : Workspace, v.session = some s → Finishes session v s v := fun v hv =>
    finishes_bind_iff.2 ⟨v, v, finishes_get, finishes_need_iff.2 ⟨hv, rfl⟩⟩
  by_cases hregisters : s.registers = true
  · have hfill := Filling.descriptor hs hopen hcls hexternal hnew (hdescription (some w.program.entities.size))
    have hsize : (w.program.entities.modify d fun ent =>
        { ent with type := s.types.cls, init := some (.compound members), alignment := descriptorAlignment }).size =
        w.program.entities.size := Array.size_modify
    refine leads_of_finishes (a := ⟨d, members, methods, fields, interfaces, some w.program.entities.size⟩) ?_
      ((Relation.ReflTransGen.single hfill).tail (.add (.registration hcls (hdescription none).entity))) ⟨_, rfl, by simp⟩
    simp only [finishes_bind_iff]
    refine ⟨s, w, hread w hs, (), _, finishes_modifyEntity_iff.2 rfl, s, _, hread _ hs, ?_⟩
    simp only [if_pos hregisters, map_eq_pure_bind, finishes_bind_iff, finishes_register_iff, finishes_pure_iff]
    refine ⟨_, _, ⟨_, _, ⟨hsize, rfl⟩, rfl, rfl⟩, (), _, finishes_modify_iff.2 rfl, rfl, ?_⟩
    dsimp only
    rw [hs, Option.map_some]
  · have hfill := Filling.descriptor hs hopen hcls hexternal hnew (hdescription none)
    refine leads_of_finishes (a := ⟨d, members, methods, fields, interfaces, none⟩) ?_ (.single hfill) ⟨_, rfl, by simp⟩
    simp only [finishes_bind_iff]
    refine ⟨s, w, hread w hs, (), _, finishes_modifyEntity_iff.2 rfl, s, _, hread _ hs, ?_⟩
    simp only [if_neg hregisters, finishes_bind_iff, finishes_pure_iff]
    refine ⟨_, _, ⟨rfl, rfl⟩, (), _, finishes_modify_iff.2 rfl, rfl, ?_⟩
    dsimp only
    rw [hs, Option.map_some]

theorem leads_describe (hs : w.session = some s) (hopen : s.closed = false) (hcls : w.registry.class? c = some cls)
    (hexternal : cls.external = false) (hnew : s.built[c]? = none) (hd : cls.descriptor = some d) :
    Leads Filling (describe c cls d) w fun b w' => ∃ s, w'.session = some s ∧ s.built[c]? = some b := by
  have hlift : ∀ s t, Addition s t → Filling s t := fun _ _ h => .add h
  rw [describe]
  refine leads_registry_bind ?_
  dsimp only
  split
  · exact leads_throw _
  rename_i k hk
  refine leads_class'_bind fun classCls hclassCls => ?_
  by_cases hvtable : classCls.vtableEntity.isNone = true
  · rw [if_pos hvtable]
    exact leads_throw _
  rw [if_neg hvtable]
  refine (leads_internDotted cls.name).bind_of_le hlift fun name w1 hsteps1 hname => ?_
  refine (leads_methodTable cls).bind_of_le hlift fun methods w2 hsteps2 hmethods => ?_
  refine (leads_fieldTable cls).bind_of_le hlift fun fields w3 hsteps3 hfields => ?_
  refine (leads_interfaceTable cls).bind_of_le hlift fun interfaces w4 hsteps4 hinterfaces => ?_
  refine ((leads_superDescriptor cls).lift hlift).bind ?_
  rintro super _ - ⟨rfl, hsuper⟩
  -- The counts are only checked.
  iterate 6
    refine (leads_checkSigned _ _ _ _).bind ?_
    rintro _ _ - rfl
  refine (leads_vptrValue classCls).bind ?_
  rintro classVptr _ - ⟨rfl, hclassVptr⟩
  refine (leads_vptrValue cls).bind ?_
  rintro vptr _ - ⟨rfl, hvptr⟩
  refine leads_headerMembers.bind ?_
  rintro n _ - ⟨rfl, s', object, t, tname, tmembers, hs', hobject, ht, hshape, rfl⟩
  have hsteps : Relation.ReflTransGen Addition w w4 := hsteps1.trans (hsteps2.trans (hsteps3.trans hsteps4))
  have hfollows := follows_of_additions hsteps
  obtain ⟨s4, hs4, hclosed, hbuilt, -⟩ := session_of_additions hsteps hs
  have hfollows34 := follows_of_additions (hsteps3.trans hsteps4)
  have hfollows4 := follows_of_additions hsteps4
  refine leads_fillDescriptor hs4 (hclosed.trans hopen) (by rw [hfollows.registry_eq, hcls]) hexternal (by rw [hbuilt, hnew]) ?_
  intro registration
  refine ⟨hd, ?_, ?_, ?_, hinterfaces⟩
  · refine ⟨.compound ((classVptr.map Init.code).getD .null :: List.replicate (tmembers.length - 1) .null),
      (vptr.map Init.code).getD .null, name.entity, super, List.map_congr_left fun m _ => ?_, ?_, hvptr, ?_, hsuper⟩
    · cases m <;> rfl
    · refine ⟨s', object, t, tname, tmembers, k, classCls, _, hs', hobject, ht, hshape, ?_, ?_, hclassVptr, rfl⟩
      · rw [hfollows.registry_eq, hk]
      · rw [hfollows.registry_eq, hclassCls]
    · exact pooled_of_additions (hsteps2.trans (hsteps3.trans hsteps4)) _ _ hname
  · exact hmethods.later (fun _ _ hrow => hrow.later hfollows34 (pooled_of_additions (hsteps3.trans hsteps4)))
      (content?_of_additions (hsteps3.trans hsteps4))
  · exact hfields.later (fun _ _ hrow => hrow.later hfollows4 (pooled_of_additions hsteps4)) (content?_of_additions hsteps4)

theorem leads_withSpan (hS : ∀ s t, Addition s t → S s t) {scope : Trace.Scope} {name : Text} {parent : Nat}
    {extra : List (Text × Text)} {action : Trace.Span → Action α} {Q : α → Workspace → Prop}
    (hkeep : ∀ a v trace, Q a v → Q a { v with trace })
    (h : ∀ span, Leads S (action span) { w with trace := (w.trace.begin scope name parent).2 } Q) :
    Leads S (withSpan scope name parent extra action) w Q := by
  refine ((leads_onTrace _).lift hS).bind ?_
  rintro span _ - rfl
  obtain ⟨hsteps, hresult⟩ := h span
  refine ⟨hsteps.tail (hS _ _ (.trace _)), fun a w' hrun => ?_⟩
  have hrun' : ((action span { w with trace := (w.trace.begin scope name parent).2 }).1, _) = (Except.ok a, w') := hrun
  obtain ⟨hok, rfl⟩ := Prod.mk.inj hrun'
  exact hkeep a _ _ (hresult a _ (Prod.ext hok rfl))

theorem leads_buildDescriptor (c : ClassId) :
    Leads Filling (buildDescriptor c) w fun b w' => ∃ s, w'.session = some s ∧ s.built[c]? = some b := by
  refine leads_class'_bind fun cls hcls => ?_
  refine (leads_checkOpen _).bind ?_
  rintro _ _ - ⟨rfl, s, hs, hopen⟩
  refine leads_session_bind fun s' hs' => ?_
  cases hs.symm.trans hs'
  split
  · rename_i b hb
    exact leads_pure ⟨s, hs, hb⟩
  rename_i hnew
  dsimp only
  by_cases hexternal : cls.external = true
  · rw [if_pos hexternal]
    exact leads_throw _
  rw [if_neg hexternal]
  by_cases hfinal : (!cls.layoutFinal || !cls.dispatchFinal) = true
  · rw [if_pos hfinal]
    exact leads_throw _
  rw [if_neg hfinal]
  split
  · exact leads_throw _
  rename_i d hd
  exact leads_withSpan (fun _ _ h => .add h) (fun _ _ _ h => h) fun span => leads_describe hs hopen hcls (Bool.eq_false_iff.2 hexternal) hnew hd

end ClassAbi.Abi
