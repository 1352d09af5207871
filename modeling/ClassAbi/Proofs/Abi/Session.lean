import ClassAbi.Proofs.Abi.Operation

/-!
# What holds in every session

`Abi.Sound` is the invariant of the workspaces that a session started in `w0` goes through. Pool constants spell their texts,
and what the session has noted as built has its content, while what it has not noted has none. Content is never replaced,
so what a class descriptor says stays true when the session goes on, and also after its end.
-/

namespace ClassAbi.Abi

variable {c : ClassId} {cls : Class} {e : EntityId} {s : Session}

open Workspace

def Spells (w : Workspace) (text : Text) (e : EntityId) : Prop := w.program.content? e = some (poolInit text)

/-- Whether an entity is the descriptor or the vtable of a class, which get their content from the session. -/
def IsFilled (r : Registry) (e : EntityId) : Prop :=
  ∃ c cls, r.class? c = some cls ∧ (cls.descriptor = some e ∨ cls.needsVtable = true ∧ cls.vtableEntity = some e)

/-- Whether all content of a workspace is still there in another one. -/
def Retains (w w' : Workspace) : Prop := ∀ e v, w.program.content? e = some v → w'.program.content? e = some v

/-- Whether a class has a vtable with content. -/
def HasVtable (w : Workspace) (c : ClassId) : Prop :=
  ∃ cls vt slots, w.registry.class? c = some cls ∧ cls.vtableEntity = some vt ∧
    w.program.content? vt = some (.compound slots) ∧ IsVtable w cls slots

/-- Whether the descriptor of a class has been built, with content that describes the class. -/
def HasDescriptor (w : Workspace) (c : ClassId) (b : BuiltClass) : Prop :=
  ∃ cls, w.registry.class? c = some cls ∧ w.program.content? b.entity = some (.compound b.members) ∧
    IsDescription w (Spells w) cls b

/-- Whether a part of a class that gets its content from the session has not got it yet. -/
def IsDue (s : Session) (c : ClassId) : Class.Part → Prop
  | .vtable => c ∉ s.vtables
  | .descriptor => s.built[c]? = none
  | _ => False

/-- Whether `w` is a workspace of the session that was started in `w0`. -/
structure Sound (w0 w : Workspace) : Prop where
  started : ∃ s, Started w0 s
  follows : w0.Follows w
  retains : Retains w0 w
  plain : ∀ e ent, w0.program.entity? e = some ent → ¬IsFilled w0.registry e →
    ∃ ent', w.program.entity? e = some ent' ∧ ent'.type = ent.type ∧ ent'.init = ent.init
  pool : ∀ text e, w.Pooled text e → Spells w text e
  vtable : ∀ s c, w.session = some s → c ∈ s.vtables → HasVtable w c
  built : ∀ s c b, w.session = some s → s.built[c]? = some b → HasDescriptor w c b
  bare : ∀ s c cls part e, w.session = some s → s.closed = false → w.registry.class? c = some cls → cls.Has part →
    cls.entityOf part = some e → IsDue s c part → w.program.content? e = none

theorem content?_modifyEntity (p : Program) (e e' : EntityId) (f : Entity → Entity) :
    (p.modifyEntity e f).content? e' = if e = e' then (p.entity? e').bind fun ent => (f ent).init else p.content? e' := by
  rw [Program.content?, Program.entity?_modifyEntity]
  split_ifs with h
  · rw [Option.bind_map]
    rfl
  · rfl

variable {w0 w w' : Workspace} {s0 : Session}

/-! ### The start -/

theorem content?_of_due (hstart : Started w0 s0) {part : Class.Part} (hcls : w0.registry.class? c = some cls) (hhas : cls.Has part)
    (he : cls.entityOf part = some e) (hdue : IsDue s c part) : w0.program.content? e = none := by
  have hpart : part = .descriptor ∨ part = .vtable := by
    cases part with
    | descriptor => exact .inl rfl
    | vtable => exact .inr rfl
    | _ => exact hdue.elim
  obtain ⟨ent, hmade⟩ := hstart.linked.exists_madeFor part hcls ⟨cls, hcls, hhas⟩ he
  rw [Program.content?, hmade.entity, Option.bind_some, (hmade.bare hpart).2]

theorem sound_of_started (hstart : Started w0 s0) : Sound w0 w0 where
  started := ⟨s0, hstart⟩
  follows := .refl w0
  retains _ _ h := h
  plain e ent he _ := ⟨ent, he, rfl, rfl⟩
  pool text e hpooled := by
    obtain ⟨s, c, hs, hc, -⟩ := hpooled
    cases hstart.session.symm.trans hs
    simp [hstart.pool] at hc
  vtable s c hs hc := by
    cases hstart.session.symm.trans hs
    simp [hstart.vtables] at hc
  built s c b hs hb := by
    cases hstart.session.symm.trans hs
    simp [hstart.built] at hb
  bare s c cls part e _ _ hcls hhas he hdue := content?_of_due hstart hcls hhas he hdue

theorem Sound.start (hsound : Sound w0 w) : Sound w0 w0 := hsound.started.elim fun _ => sound_of_started

theorem Sound.session (hsound : Sound w0 w) : ∃ s, w.session = some s := by
  obtain ⟨s0, hstart⟩ := hsound.started
  obtain ⟨s, hs, -⟩ := hsound.follows.session hstart.session
  exact ⟨s, hs⟩

theorem Sound.part_unique (hsound : Sound w0 w) {c' : ClassId} {cls' : Class} (part part' : Class.Part)
    (hcls : w.registry.class? c = some cls) (hcls' : w.registry.class? c' = some cls') (hhas : cls.Has part)
    (hhas' : cls'.Has part') (he : cls.entityOf part = some e) (he' : cls'.entityOf part' = some e) :
    (c, part) = (c', part') := by
  obtain ⟨s0, hstart⟩ := hsound.started
  rw [hsound.follows.registry_eq] at hcls hcls'
  exact hstart.linked.distinct c part c' part' cls cls' e ⟨cls, hcls, hhas⟩ ⟨cls', hcls', hhas'⟩ hcls hcls' he he'

theorem Sound.exists_entity (hsound : Sound w0 w) (part : Class.Part) (hcls : w.registry.class? c = some cls)
    (hhas : cls.Has part) (he : cls.entityOf part = some e) : ∃ ent, w.program.entity? e = some ent := by
  obtain ⟨s0, hstart⟩ := hsound.started
  rw [hsound.follows.registry_eq] at hcls
  obtain ⟨ent, hmade⟩ := hstart.linked.exists_madeFor part hcls ⟨cls, hcls, hhas⟩ he
  obtain ⟨ent', hent', -⟩ := hsound.follows.entities _ _ hmade.entity
  exact ⟨ent', hent'⟩

/-- The routine of a method is neither a descriptor nor a vtable, so its type has stayed as it was made. -/
theorem Sound.exists_routine (hsound : Sound w0 w) {i : Nat} {m : Method} (hcls : w0.registry.class? c = some cls)
    (hm : cls.methods[i]? = some m) :
    ∃ e ent0 ent, m.entity = some e ∧ w0.MadeFor cls (.routine i) e ent0 ∧ w.program.entity? e = some ent ∧
      w.program.types.signature? ent.type = some m.signature := by
  have hhas : cls.Has (.routine i) := ⟨m, hm⟩
  obtain ⟨s0, hstart⟩ := hsound.started
  obtain ⟨e, ent0, he, hmade⟩ := hstart.linked.exists_made (.routine i) hcls ⟨cls, hcls, hhas⟩
  have hcls' : w.registry.class? c = some cls := by rw [hsound.follows.registry_eq, hcls]
  have hplain : ¬IsFilled w0.registry e := by
    rw [← hsound.follows.registry_eq]
    rintro ⟨k, kcls, hkcls, hk | ⟨hneeds, hk⟩⟩
    · cases hsound.part_unique (.routine i) .descriptor hcls' hkcls hhas trivial he hk
    · cases hsound.part_unique (.routine i) .vtable hcls' hkcls hhas hneeds he hk
  obtain ⟨ent, hent, htype, -⟩ := hsound.plain e ent0 hmade.entity hplain
  refine ⟨e, ent0, ent, ?_, hmade, hent, ?_⟩
  · rw [Class.entityOf, hm, Option.bind_some] at he
    exact he
  · rw [htype]
    exact signature?_of_extends hsound.follows.types (hmade.routine i m rfl hm)

/-! ### One change

What is known stays true when content is retained. -/

theorem HasVtable.later (h : HasVtable w c) (hfollows : w.Follows w') (hretains : Retains w w') : HasVtable w' c := by
  obtain ⟨cls, vt, slots, hcls, hvt, hcontent, hslots⟩ := h
  exact ⟨cls, vt, slots, by rw [hfollows.registry_eq, hcls], hvt, hretains _ _ hcontent, hslots.later hfollows⟩

theorem HasDescriptor.later {b : BuiltClass} (h : HasDescriptor w c b) (hfollows : w.Follows w') (hretains : Retains w w') :
    HasDescriptor w' c b := by
  obtain ⟨cls, hcls, hcontent, hdescription⟩ := h
  refine ⟨cls, by rw [hfollows.registry_eq, hcls], hretains _ _ hcontent, ?_⟩
  exact hdescription.later hfollows (fun _ _ h => hretains _ _ h) hretains

/-- A change that retains content and leaves what the session does not fill as it was keeps a session sound, if what the session
notes then is there. -/
theorem Sound.later (hsound : Sound w0 w) (hs : w.session = some s) {s' : Session} (hs' : w'.session = some s')
    (hfollows : w.Follows w') (hretains : Retains w w')
    (hplain : ∀ e ent, w.program.entity? e = some ent → ¬IsFilled w.registry e →
      ∃ ent', w'.program.entity? e = some ent' ∧ ent'.type = ent.type ∧ ent'.init = ent.init)
    (hpool : ∀ text e, w'.Pooled text e → w.Pooled text e ∨ Spells w' text e)
    (hvtable : ∀ c ∈ s'.vtables, c ∈ s.vtables ∨ HasVtable w' c)
    (hbuilt : ∀ c b, s'.built[c]? = some b → s.built[c]? = some b ∨ HasDescriptor w' c b)
    (hbare : s'.closed = false → ∀ c cls part e, w.registry.class? c = some cls → cls.Has part → cls.entityOf part = some e →
      IsDue s' c part → s.closed = false ∧ IsDue s c part ∧ (w.program.content? e = none → w'.program.content? e = none)) :
    Sound w0 w' where
  started := hsound.started
  follows := hsound.follows.trans hfollows
  retains e v h := hretains e v (hsound.retains e v h)
  plain e ent he hfilled := by
    obtain ⟨ent1, he1, htype1, hinit1⟩ := hsound.plain e ent he hfilled
    obtain ⟨ent2, he2, htype2, hinit2⟩ := hplain e ent1 he1 (by rwa [hsound.follows.registry_eq])
    exact ⟨ent2, he2, htype2.trans htype1, hinit2.trans hinit1⟩
  pool text e hpooled := (hpool text e hpooled).elim (fun hold => hretains _ _ (hsound.pool text e hold)) id
  vtable s1 c hs1 hc := by
    cases hs'.symm.trans hs1
    exact (hvtable c hc).elim (fun hold => (hsound.vtable s c hs hold).later hfollows hretains) id
  built s1 c b hs1 hb := by
    cases hs'.symm.trans hs1
    exact (hbuilt c b hb).elim (fun hold => (hsound.built s c b hs hold).later hfollows hretains) id
  bare s1 c cls part e hs1 hopen hcls hhas he hdue := by
    cases hs'.symm.trans hs1
    rw [hfollows.registry_eq] at hcls
    obtain ⟨hopen, hdue, hbare⟩ := hbare hopen c cls part e hcls hhas he hdue
    exact hbare (hsound.bare s c cls part e hs hopen hcls hhas he hdue)

theorem spells_of_addition (hadd : Addition w w') (hpool : ∀ text e, w.Pooled text e → Spells w text e) :
    ∀ text e, w'.Pooled text e → Spells w' text e := by
  intro text e hpooled
  obtain ⟨s, k, hs, hk, rfl⟩ := hpooled
  cases hadd with
  | @constant s1 text' hs1 _ _ _ _ =>
    cases hs
    rw [addConstant, Std.HashMap.getElem?_insert] at hk
    split_ifs at hk with heq
    · cases hk
      have htext : text' = text := by simpa using heq
      subst htext
      exact Option.bind_eq_some_iff.2 ⟨_, (w.program.uniqueName "_Utf8").2.entity?_push_new _, rfl⟩
    · obtain ⟨ent, hent, hinit⟩ := Option.bind_eq_some_iff.1 (hpool text k.entity ⟨s1, k, hs1, hk, rfl⟩)
      exact Option.bind_eq_some_iff.2 ⟨ent, Program.entity?_push_of_some hent _, hinit⟩
  | trace _ | layouts _ | type _ | name _ _ => exact hpool text k.entity ⟨s, k, hs, hk, rfl⟩
  | table _ _ _ _ | registration _ _ =>
    obtain ⟨ent, hent, hinit⟩ := Option.bind_eq_some_iff.1 (hpool text k.entity ⟨s, k, hs, hk, rfl⟩)
    exact Option.bind_eq_some_iff.2 ⟨ent, Program.entity?_push_of_some hent _, hinit⟩

/-- An addition leaves the content of entities as it was, and a new constant spells its text. -/
theorem Sound.add (hsound : Sound w0 w) (hadd : Addition w w') : Sound w0 w' := by
  obtain ⟨s, hs⟩ := hsound.session
  obtain ⟨s', hs', hclosed, hbuilt, hvtables, -⟩ := hadd.session hs
  refine hsound.later hs hs' hadd.follows hadd.content?_eq (fun e ent he _ => ⟨ent, hadd.entity?_eq he, rfl, rfl⟩)
    (fun text e hpooled => .inr (spells_of_addition hadd hsound.pool text e hpooled)) (fun c hc => .inl (hvtables ▸ hc))
    (fun c b hb => .inl (hbuilt ▸ hb)) fun hopen c cls part e hcls hhas he hdue => ⟨hclosed ▸ hopen, ?_, fun hnone => ?_⟩
  · cases part <;> simp_all [IsDue]
  · obtain ⟨ent, hent⟩ := hsound.exists_entity part hcls hhas he
    rw [Program.content?, hent] at hnone
    rw [Program.content?, hadd.entity?_eq hent]
    exact hnone

theorem content?_modifyEntity_of_init {p : Program} {x : EntityId} {f : Entity → Entity} (hf : ∀ ent, (f ent).init = ent.init) :
    (p.modifyEntity x f).content? e = p.content? e := by
  rw [content?_modifyEntity]
  split_ifs
  · simp only [hf]
    rfl
  · rfl

/-- A change of an entity that leaves its content alone, and its type too unless the session fills it. -/
theorem Sound.modify (hsound : Sound w0 w) (e : EntityId) {f : Entity → Entity}
    (hf : ∀ ent, (f ent).name = ent.name ∧ (f ent).ld = ent.ld ∧ (f ent).visibility = ent.visibility ∧
      (f ent).linkage = ent.linkage ∧ (f ent).segment = ent.segment)
    (hinit : ∀ ent, (f ent).init = ent.init) (htype : ¬IsFilled w.registry e → ∀ ent, (f ent).type = ent.type) :
    Sound w0 { w with program := w.program.modifyEntity e f } := by
  obtain ⟨s, hs⟩ := hsound.session
  refine hsound.later hs hs (follows_modifyEntity w e hf) (fun _ _ h => (content?_modifyEntity_of_init hinit).trans h)
    (fun e' ent he' hfilled => ?_) (fun _ _ h => .inl h) (fun _ h => .inl h) (fun _ _ h => .inl h)
    fun hopen c cls part e hcls hhas he hdue => ⟨hopen, hdue, (content?_modifyEntity_of_init hinit).trans⟩
  by_cases heq : e = e'
  · subst heq
    exact ⟨f ent, by rw [Program.entity?_modifyEntity, if_pos rfl, he', Option.map_some], htype hfilled ent, hinit ent⟩
  · exact ⟨ent, by rw [Program.entity?_modifyEntity, if_neg heq, he'], rfl, rfl⟩

/-! Filling an entity that has no content yet -/

section

variable {p : Program} {x e : EntityId} {f : Entity → Entity} {v : Init}

theorem content?_fill_of_ne (h : x ≠ e) : (p.modifyEntity x f).content? e = p.content? e := by
  rw [content?_modifyEntity, if_neg h]

theorem content?_fill_of_some (hbare : p.content? x = none) (h : p.content? e = some v) :
    (p.modifyEntity x f).content? e = some v := by
  have hne : x ≠ e := by
    rintro rfl
    cases hbare.symm.trans h
  rw [content?_fill_of_ne hne, h]

theorem content?_fill_self {ent : Entity} (hent : p.entity? x = some ent) (hf : ∀ ent, (f ent).init = some v) :
    (p.modifyEntity x f).content? x = some v := by
  rw [content?_modifyEntity, if_pos rfl, hent, Option.bind_some, hf]

end

/-- A part that is due gets its content, and no other entity does. -/
theorem Sound.fillPart (hsound : Sound w0 w) (hs : w.session = some s) (hopen : s.closed = false)
    (hcls : w.registry.class? c = some cls) (part : Class.Part) (hhas : cls.Has part) (he : cls.entityOf part = some e)
    (hdue : IsDue s c part) (hfilled : IsFilled w.registry e) {f : Entity → Entity} {s' : Session}
    (hw' : w' = { w with program := w.program.modifyEntity e f, session := some s' }) (hfollows : w.Follows w')
    (hpool : s'.pool = s.pool) (hdue' : ∀ c' part', IsDue s' c' part' → (c', part') ≠ (c, part) ∧ IsDue s c' part')
    (hvtable : Retains w w' → ∀ c ∈ s'.vtables, c ∈ s.vtables ∨ HasVtable w' c)
    (hbuilt : Retains w w' → ∀ c b, s'.built[c]? = some b → s.built[c]? = some b ∨ HasDescriptor w' c b) : Sound w0 w' := by
  subst hw'
  have hretains : Retains w { w with program := w.program.modifyEntity e f, session := some s' } :=
    fun _ _ => content?_fill_of_some (hsound.bare s c cls part e hs hopen hcls hhas he hdue)
  refine hsound.later hs rfl hfollows hretains (fun e' ent he' hplain => ⟨ent, ?_, rfl, rfl⟩) ?_ (hvtable hretains) (hbuilt hretains)
    fun _ c' cls' part' e' hcls' hhas' he' hdue1 => ?_
  · have hne : e ≠ e' := fun heq => hplain (heq ▸ hfilled)
    rw [Program.entity?_modifyEntity, if_neg hne, he']
  · rintro text e' ⟨_, k, ⟨⟩, hk, rfl⟩
    exact .inl ⟨s, k, hs, hpool ▸ hk, rfl⟩
  · obtain ⟨hne, hdue⟩ := hdue' c' part' hdue1
    refine ⟨hopen, hdue, fun hnone => (content?_fill_of_ne ?_).trans hnone⟩
    rintro rfl
    exact hne (hsound.part_unique part' part hcls' hcls hhas' hhas he' he)

theorem Sound.close (hsound : Sound w0 w) : Sound w0 { w with session := w.session.map Session.close } := by
  obtain ⟨s, hs⟩ := hsound.session
  have hclosed : w.session.map Session.close = some s.close := by rw [hs, Option.map_some]
  refine hsound.later hs hclosed Change.close.follows (fun _ _ h => h) (fun _ ent he _ => ⟨ent, he, rfl, rfl⟩)
    ?_ (by simp [Session.close]) (by simp [Session.close]) (fun h => by cases h)
  rintro text e ⟨s1, k, hs1, hk, -⟩
  rw [hs] at hs1
  cases hs1
  simp [Session.close] at hk

theorem Sound.fill (hsound : Sound w0 w) (h : Filling w w') : Sound w0 w' := by
  have hfollows := h.follows
  cases h with
  | add h => exact hsound.add h
  | @vtableType c cls vt t alignment hcls hneeds hvt _ =>
    refine hsound.modify vt (fun _ => ⟨rfl, rfl, rfl, rfl, rfl⟩) (fun _ => rfl) fun hfilled => ?_
    exact absurd ⟨c, cls, hcls, .inr ⟨hneeds, hvt⟩⟩ hfilled
  | @vtable s c cls vt slots hs hopen hcls hneeds hvt _ hnew _ hslots =>
    obtain ⟨ent, hent⟩ := hsound.exists_entity .vtable hcls hneeds hvt
    refine hsound.fillPart hs hopen hcls .vtable hneeds hvt hnew ⟨c, cls, hcls, .inr ⟨hneeds, hvt⟩⟩ rfl hfollows rfl ?_ ?_
      fun _ _ _ h => .inl h
    · rintro c' (_ | _ | _ | _) hdue
      all_goals simp_all [IsDue]
      exact fun heq => hdue.1 heq.symm
    · intro hretains c' hc'
      rcases Std.HashSet.mem_insert.1 hc' with heq | hold
      · obtain rfl : c = c' := by simpa using heq
        exact .inr ⟨cls, vt, slots, hcls, hvt, content?_fill_self hent fun _ => rfl, hslots.later hfollows⟩
      · exact .inl hold
  | @descriptor s c cls b hs hopen hcls _ hnew hdescription =>
    have hd := hdescription.entity
    obtain ⟨ent, hent⟩ := hsound.exists_entity .descriptor hcls trivial hd
    refine hsound.fillPart hs hopen hcls .descriptor trivial hd hnew ⟨c, cls, hcls, .inl hd⟩ rfl hfollows rfl ?_
      (fun _ _ h => .inl h) ?_
    · rintro c' (_ | _ | _ | _) hdue
      all_goals simp_all [IsDue, Std.HashMap.getElem?_insert]
      grind
    · intro hretains c' b' hb'
      rw [Std.HashMap.getElem?_insert] at hb'
      split_ifs at hb' with heq
      · cases hb'
        obtain rfl : c = c' := by simpa using heq
        refine .inr ⟨cls, hcls, content?_fill_self hent fun _ => rfl, ?_⟩
        exact hdescription.later hfollows (fun text e hpooled => hretains _ _ (hsound.pool text e hpooled)) hretains
      · exact .inl hb'

theorem Sound.change (hsound : Sound w0 w) (h : Change w w') : Sound w0 w' := by
  cases h with
  | progress h =>
    cases h with
    | fill h => exact hsound.fill h
    | graphs graphs =>
      obtain ⟨s, hs⟩ := hsound.session
      exact hsound.later hs hs (Progress.graphs graphs).follows (fun _ _ h => h) (fun _ ent he _ => ⟨ent, he, rfl, rfl⟩)
        (fun _ _ h => .inl h) (fun _ h => .inl h) (fun _ _ h => .inl h) fun hopen _ _ _ _ _ _ _ hdue => ⟨hopen, hdue, id⟩
    | body e g => exact hsound.modify e (fun _ => ⟨rfl, rfl, rfl, rfl, rfl⟩) (fun _ => rfl) fun _ _ => rfl
  | close => exact hsound.close

theorem Sound.retains_change (hsound : Sound w0 w) (h : Change w w') : Retains w w' := by
  cases h with
  | progress h =>
    cases h with
    | fill h =>
      cases h with
      | add h => exact h.content?_eq
      | vtableType alignment _ _ _ _ => exact fun _ _ => (content?_modifyEntity_of_init (by intro; rfl)).trans
      | vtable hs hopen hcls hneeds hvt _ hnew _ _ =>
        exact fun e v => content?_fill_of_some (hsound.bare _ _ _ .vtable _ hs hopen hcls hneeds hvt hnew)
      | descriptor hs hopen hcls _ hnew hdescription =>
        exact fun e v => content?_fill_of_some (hsound.bare _ _ _ .descriptor _ hs hopen hcls trivial hdescription.entity hnew)
    | graphs graphs => exact fun e v h => h
    | body e g => exact fun _ _ => (content?_modifyEntity_of_init (by intro; rfl)).trans
  | close => exact fun e v h => h

/-! ### Any number of changes -/

theorem Sound.changes (hsound : Sound w0 w) (h : Relation.ReflTransGen Change w w') :
    Sound w0 w' ∧ w.Follows w' ∧ Retains w w' := by
  refine keep_along (P := fun v => Sound w0 v ∧ w.Follows v ∧ Retains w v) (fun u v hu huv => ?_) h
    ⟨hsound, .refl w, fun _ _ h => h⟩
  obtain ⟨hsound, hfollows, hretains⟩ := hu
  exact ⟨hsound.change huv, hfollows.trans huv.follows, fun e v h => hsound.retains_change huv e v (hretains e v h)⟩

theorem sound_operate (hstart : Started w0 s0) (ops : List Operation) : Sound w0 (operate w0 ops) :=
  ((sound_of_started hstart).changes (changes_of_operate w0 ops)).1

theorem finishes_discard_iff {α : Type} {x : Action α} {u : Unit} :
    Finishes (discard x) w u w' ↔ ∃ a, Finishes x w a w' := by
  have hdiscard : discard x = x >>= fun _ => pure () := (map_eq_pure_bind _ x)
  rw [hdiscard, finishes_bind_iff]
  simp only [finishes_pure_iff]
  constructor
  · rintro ⟨a, t, hx, -, rfl⟩
    exact ⟨a, hx⟩
  · rintro ⟨a, hx⟩
    exact ⟨a, w', hx, trivial, rfl⟩

/-- The workspaces before and after an answered operation belong to the session, and to what follows it. -/
theorem sound_of_answered (hstart : Started w0 s0) {before : List Operation} (after : List Operation) {q : Operation}
    (hrun : Finishes q.answer (operate w0 before) () w) :
    Sound w0 w ∧ w.Follows (operate w0 (before ++ q :: after)) ∧ Retains w (operate w0 (before ++ q :: after)) := by
  have hsteps := changes_of_answer q (operate w0 before)
  rw [hrun] at hsteps
  have hafter : operate w0 (before ++ q :: after) = operate w after := by
    rw [operate_append]
    show operate (q.answer (operate w0 before)).2 after = _
    rw [hrun]
  rw [hafter]
  have hsound := ((sound_operate hstart before).changes hsteps).1
  exact ⟨hsound, (hsound.changes (changes_of_operate w after)).2⟩

/-- If a vtable was built among the ops, it has its content when all of them are answered. -/
theorem vtable_of_answered (hstart : Started w0 s0) {ops : List Operation} (h : Answered w0 ops (.buildVtable c)) :
    ∃ cls vt, (operate w0 ops).registry.class? c = some cls ∧ cls.needsVtable = true ∧ cls.vtableEntity = some vt ∧
      (cls.external = false → ∃ slots, (operate w0 ops).program.content? vt = some (.compound slots) ∧
        IsVtable (operate w0 ops) cls slots) := by
  obtain ⟨before, after, w, rfl, hrun⟩ := h
  obtain ⟨hsound, hfollows, hretains⟩ := sound_of_answered hstart after hrun
  obtain ⟨vt, hbuild⟩ := finishes_discard_iff.1 hrun
  obtain ⟨cls, s, hcls, hneeds, hvt, hs, hnoted⟩ := (leads_buildVtable c).2 vt w hbuild
  refine ⟨cls, vt, by rw [hfollows.registry_eq, hcls], hneeds, hvt, fun hexternal => ?_⟩
  obtain ⟨cls', vt', slots, hcls', hvt', hcontent, hslots⟩ := (hsound.vtable s c hs (hnoted hexternal)).later hfollows hretains
  rw [hfollows.registry_eq, hcls] at hcls'
  cases hcls'
  cases hvt.symm.trans hvt'
  exact ⟨slots, hcontent, hslots⟩

/-- If a class descriptor was built among the ops, it describes the class when all of them are answered. -/
theorem description_of_answered (hstart : Started w0 s0) {ops : List Operation}
    (h : Answered w0 ops (.buildDescriptor c)) :
    ∃ b, HasDescriptor (operate w0 ops) c b := by
  obtain ⟨before, after, w, rfl, hrun⟩ := h
  obtain ⟨hsound, hfollows, hretains⟩ := sound_of_answered hstart after hrun
  obtain ⟨b, hbuild⟩ := finishes_discard_iff.1 hrun
  obtain ⟨s, hs, hb⟩ := (leads_buildDescriptor c).2 b w hbuild
  exact ⟨b, (hsound.built s c b hs hb).later hfollows hretains⟩

end ClassAbi.Abi
