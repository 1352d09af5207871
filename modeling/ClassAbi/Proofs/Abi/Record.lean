import ClassAbi.Proofs.Abi.Change
import ClassAbi.Proofs.Class.Descriptor

/-!
# Making constants, records and tables

These steps only add to the workspace. What they give back is right for the pool as it is when they are done.
-/

open Relation

namespace ClassAbi.Abi

variable {tag : Text} {elem : TypeId} {values : List Init}

open ClassAbi.Action Workspace

variable {w w' : Workspace} {α : Type}

theorem follows_of_additions (h : ReflTransGen Addition w w') : w.Follows w' :=
  keep_along (P := fun v => w.Follows v) (fun _ _ hfollows hadd => hfollows.trans hadd.follows) h (.refl w)

theorem pooled_of_additions (h : ReflTransGen Addition w w') (text : Text) (e : EntityId)
    (hpooled : w.Pooled text e) : w'.Pooled text e :=
  keep_along (P := fun v => v.Pooled text e) (fun _ _ hp hadd => hadd.pooled text e hp) h hpooled

theorem content?_of_additions (h : ReflTransGen Addition w w') (e : EntityId) (v : Init)
    (he : w.program.content? e = some v) : w'.program.content? e = some v :=
  keep_along (P := fun u => u.program.content? e = some v) (fun _ _ hp hadd => hadd.content?_eq e v hp) h he

theorem session_of_additions (h : ReflTransGen Addition w w') {s : Session} (hs : w.session = some s) :
    ∃ s', w'.session = some s' ∧ s'.closed = s.closed ∧ s'.built = s.built ∧ s'.vtables = s.vtables ∧ s'.close = s.close := by
  refine keep_along (P := fun v => ∃ s', v.session = some s' ∧ s'.closed = s.closed ∧ s'.built = s.built ∧
    s'.vtables = s.vtables ∧ s'.close = s.close) (fun u v hp hadd => ?_) h ⟨s, hs, rfl, rfl, rfl, rfl⟩
  obtain ⟨s1, hs1, hclosed1, hbuilt1, hvtables1, hclose1⟩ := hp
  obtain ⟨s2, hs2, hclosed2, hbuilt2, hvtables2, hclose2⟩ := hadd.session hs1
  exact ⟨s2, hs2, hclosed2.trans hclosed1, hbuilt2.trans hbuilt1, hvtables2.trans hvtables1, hclose2.trans hclose1⟩

/-! ### Single steps -/

section

variable {S : Workspace → Workspace → Prop}

theorem leads_session_bind {β : Type} {f : Session → Action β} {R : β → Workspace → Prop}
    (h : ∀ s, w.session = some s → Leads S (f s) w R) : Leads S (session >>= f) w R := by
  rw [session, bind_assoc]
  exact leads_get_bind (leads_need_bind h)

theorem leads_checkOpen (cls : Text) :
    Leads S (checkOpen cls) w fun _ w' => w = w' ∧ ∃ s, w.session = some s ∧ s.closed = false := by
  refine leads_session_bind fun s hs => ?_
  split_ifs with hclosed
  · exact leads_throw _
  · exact leads_pure ⟨rfl, s, hs, Bool.eq_false_iff.2 hclosed⟩

theorem leads_helper (h : Helper) : Leads S (helper h) w fun d w' => w = w' ∧ w.helper? h = some d := by
  refine leads_session_bind fun s hs => ?_
  refine leads_need fun d hd => ⟨rfl, ?_⟩
  rw [helper?, hs, Option.bind_some, hd]

theorem leads_codeOf (m : Method) : Leads S (codeOf m) w fun code w' => w = w' ∧ code = w.codeEntity m := by
  rw [codeOf, codeEntity]
  split_ifs with habstract
  · refine (leads_helper .abstractTrap).bind ?_
    rintro d _ - ⟨rfl, hd⟩
    exact leads_pure ⟨rfl, by rw [hd, Option.map_some]⟩
  · exact leads_pure ⟨rfl, rfl⟩

theorem leads_descriptorOf (t : JavaType) :
    Leads S (descriptorOf t) w fun e w' => w = w' ∧ e = w.descriptorEntity t := by
  unfold descriptorOf
  split
  · refine leads_registry_bind ?_
    exact leads_pure ⟨rfl, rfl⟩
  · refine leads_registry_bind ?_
    exact leads_pure ⟨rfl, rfl⟩
  · refine leads_session_bind fun s hs => ?_
    exact leads_pure ⟨rfl, by rw [descriptorEntity, hs, Option.bind_some]⟩
  · refine leads_pure ⟨rfl, ?_⟩
    unfold descriptorEntity
    split <;> simp_all

end

theorem leads_onTrace (f : Trace.Recorder → α × Trace.Recorder) :
    Leads Addition (onTrace f) w fun _ w' => { w with trace := (f w.trace).2 } = w' :=
  leads_of_finishes (finishes_onTrace_iff.2 ⟨rfl, rfl⟩) (.single (.trace _)) rfl

theorem leads_newType (shape : Shape) :
    Leads Addition (newType shape) w fun t w' =>
      { w with program := (w.program.addType shape).2 } = w' ∧ w'.program.types.shape? t = some shape :=
  leads_of_finishes (finishes_newType_iff.2 ⟨rfl, rfl⟩) (.single (.type shape)) ⟨rfl, w.program.types.shape?_push shape⟩

theorem leads_layoutOf (t : Option TypeId) : Leads Addition (layoutOf t) w fun _ _ => True := by
  refine leads_need_bind fun t _ => ?_
  exact ⟨.single (.layouts t), fun _ _ _ => trivial⟩

theorem leads_uniqueName (htag : tag ≠ "_Utf8") :
    Leads Addition (onProgram (·.uniqueName tag)) w fun name w' =>
      (∃ n, name = tag ++ "." ++ Text.ofNat n) ∧ { w with program := (w.program.uniqueName tag).2 } = w' :=
  leads_of_finishes (finishes_onProgram_iff.2 ⟨rfl, rfl⟩) (.single (.name tag fun h => absurd h htag)) ⟨⟨_, rfl⟩, rfl⟩

/-! ### The pool -/

section

variable {s : Session} (hs : w.session = some s)

include hs

theorem finishes_session : Finishes session w s w :=
  finishes_bind_iff.2 ⟨w, w, finishes_get, finishes_need_iff.2 ⟨hs, rfl⟩⟩

variable (hopen : s.closed = false)

include hopen

theorem finishes_checkOpen (cls : Text) : Finishes (checkOpen cls) w () w := by
  rw [checkOpen, finishes_bind_iff]
  refine ⟨s, w, finishes_session hs, ?_⟩
  rw [if_neg (by simp [hopen])]
  exact finishes_pure

variable {text : Text}

theorem intern_of_pooled {c : PoolConstant} (hc : s.pool[text]? = some c) : Finishes (intern text) w c w := by
  rw [intern, finishes_bind_iff]
  refine ⟨(), w, finishes_checkOpen hs hopen [], finishes_bind_iff.2 ⟨s, w, finishes_session hs, ?_⟩⟩
  simp only [hc]
  exact finishes_pure

variable (hnew : s.pool[text]? = none)

include hnew

theorem intern_of_long (hlong : 0xFFFF < text.length) :
    intern text w = (.error (.error (.abi ⟨[], .longConstant text.length⟩)), w) := by
  rw [intern, bind_apply_of_finishes (finishes_checkOpen hs hopen []), bind_apply_of_finishes (finishes_session hs)]
  simp only [hnew]
  rw [if_pos hlong]
  rfl

/-- What the step does for a text that is not in the pool, and has a length that can be stored. -/
theorem intern_of_short (hshort : text.length ≤ 0xFFFF) :
    intern text w = (do
      let id ← onProgram (·.uniqueName "_Utf8")
      let entity ← newEntity id id s.types.utf8
      modifyEntity entity fun e =>
        { e with init := some (poolInit text), visibility := .hidden, linkage := { e.linkage with constant := true } }
      let c : PoolConstant := ⟨text, nameHash text, entity⟩
      modifySession fun s => { s with pool := s.pool.insert text c, constants := s.constants.push c }
      return c : Action PoolConstant) w := by
  rw [intern, bind_apply_of_finishes (finishes_checkOpen hs hopen []), bind_apply_of_finishes (finishes_session hs)]
  simp only [hnew]
  rw [if_neg (by omega), bind_apply_of_finishes (finishes_session hs)]

theorem intern_of_new (hshort : text.length ≤ 0xFFFF) (hfree : w.program.Unused (w.program.uniqueName "_Utf8").1) :
    Finishes (intern text) w ⟨text, nameHash text, w.program.entities.size⟩
      { w with
        program := (w.program.uniqueName "_Utf8").2.push
          (constantEntity (w.program.uniqueName "_Utf8").1 s.types.utf8 text)
        session := some (addConstant s text w.program.entities.size) } := by
  rw [Finishes, intern_of_short hs hopen hnew hshort]
  refine finishes_bind_iff.2 ⟨_, _, finishes_onProgram_iff.2 ⟨rfl, rfl⟩, ?_⟩
  simp only [finishes_bind_iff, finishes_newEntity_iff, finishes_modifyEntity_iff, finishes_pure_iff]
  refine ⟨_, _, ⟨hfree, rfl, rfl⟩, (), _, rfl, (), _, finishes_modify_iff.2 rfl, rfl, ?_⟩
  rw [Program.modifyEntity_push _ _ rfl]
  dsimp only
  rw [hs, Option.map_some]
  rfl

theorem intern_of_used (hshort : text.length ≤ 0xFFFF) (hused : ¬w.program.Unused (w.program.uniqueName "_Utf8").1) :
    intern text w = (.error (.error (.duplicateName ⟨(w.program.uniqueName "_Utf8").1⟩)),
      { w with program := (w.program.uniqueName "_Utf8").2 }) := by
  have hname : Finishes (onProgram (·.uniqueName "_Utf8")) w (w.program.uniqueName "_Utf8").1
      { w with program := (w.program.uniqueName "_Utf8").2 } := finishes_onProgram_iff.2 ⟨rfl, rfl⟩
  rw [intern_of_short hs hopen hnew hshort, bind_apply_of_finishes hname]
  exact bind_apply_of_error (newEntity_of_used hused)

end

theorem leads_intern (text : Text) : Leads Addition (intern text) w fun c w' => w'.Pooled text c.entity := by
  by_cases hsession : ∃ s, w.session = some s ∧ s.closed = false
  · obtain ⟨s, hs, hopen⟩ := hsession
    rcases hpool : s.pool[text]? with _ | c
    · by_cases hlong : 0xFFFF < text.length
      · exact leads_of_error (intern_of_long hs hopen hpool hlong)
      by_cases hfree : w.program.Unused (w.program.uniqueName "_Utf8").1
      · refine leads_of_finishes (intern_of_new hs hopen hpool (by omega) hfree)
          (.single (.constant hs hopen hpool (by omega) hfree)) ⟨_, _, rfl, ?_, rfl⟩
        rw [addConstant, Std.HashMap.getElem?_insert_self]
      · have hrun := intern_of_used hs hopen hpool (by omega) hfree
        refine ⟨?_, fun _ _ h => absurd h (not_finishes_of_error hrun)⟩
        rw [hrun]
        exact .single (.name _ fun _ => hfree)
    · exact leads_of_finishes (intern_of_pooled hs hopen hpool) .refl ⟨s, c, hs, hpool, rfl⟩
  · rw [intern]
    refine (leads_checkOpen _).bind ?_
    rintro _ _ - ⟨-, hopen⟩
    exact absurd hopen hsession

theorem leads_internDotted (name : Text) :
    Leads Addition (internDotted name) w fun c w' => w'.Pooled (dotted name) c.entity :=
  leads_intern _

theorem leads_typeSignature (t : JavaType) :
    Leads Addition (typeSignature t) w fun c w' => w'.Pooled (w.registry.descriptorOf t) c.entity := by
  refine leads_registry_bind ?_
  split
  · next text htext =>
    rw [Registry.eq_descriptorOf_of_signature? htext]
    exact leads_intern _
  · refine leads_registry_bind ?_
    exact leads_throw _

/-! ### Records -/

theorem leads_methodRecord (cls : Text) (m : Method) :
    Leads Addition (methodRecord cls m) w fun v w' => IsMethodRecord w' w'.Pooled m v := by
  refine (leads_internDotted m.name).bind fun name w1 _ hname => ?_
  refine (leads_internDotted m.descriptor).bind fun sig w2 hsteps hsig => ?_
  by_cases hslot : 0xFFFF < m.slot
  · rw [if_pos hslot]
    exact leads_throw _
  rw [if_neg hslot]
  refine (leads_codeOf m).bind ?_
  rintro code _ - ⟨rfl, rfl⟩
  exact leads_pure ⟨name.entity, sig.entity, pooled_of_additions hsteps _ _ hname, hsig, by omega, rfl⟩

theorem leads_fieldPlace (cls : Text) (f : Field) : Leads Addition (fieldPlace cls f) w fun v w' => w = w' ∧ IsPlace f v := by
  rw [fieldPlace]
  split_ifs with hstatic hoffset
  · split
    · exact leads_throw _
    · rename_i e he
      refine leads_pure ⟨rfl, ?_⟩
      rw [IsPlace, if_pos hstatic]
      exact ⟨e, he, rfl⟩
  · exact leads_throw _
  · refine leads_pure ⟨rfl, ?_⟩
    rw [IsPlace, if_neg hstatic]
    exact ⟨by omega, rfl⟩

theorem leads_fieldRecord (cls : Text) (f : Field) :
    Leads Addition (fieldRecord cls f) w fun v w' => IsFieldRecord w' w'.Pooled f v := by
  refine (leads_internDotted f.name).bind fun name w1 _ hname => ?_
  refine (leads_descriptorOf f.type).bind ?_
  rintro known _ - ⟨rfl, rfl⟩
  extract_lets rest
  -- What follows is the same whichever entity stands for the type.
  have hrest : ∀ type w2, ReflTransGen Addition w1 w2 → IsTypeEntity w2 w2.Pooled f.type type →
      Leads Addition (rest type) w2 fun v w' => IsFieldRecord w' w'.Pooled f v := by
    intro type w2 hsteps htype
    refine leads_registry_bind ?_
    refine (leads_layoutOf _).bind fun l w3 hsteps' _ => ?_
    dsimp only
    split_ifs with hsize
    · exact leads_throw _
    refine (leads_fieldPlace cls f).bind ?_
    rintro place _ - ⟨rfl, hplace⟩
    have hfollows := follows_of_additions hsteps'
    simp only [Bool.or_eq_true, decide_eq_true_eq, not_or, not_lt] at hsize
    refine leads_pure ⟨name.entity, type, l.size, place, ?_, ?_, hsize.1, hsize.2, hplace, rfl⟩
    · exact pooled_of_additions (hsteps.trans hsteps') _ _ hname
    · rw [IsTypeEntity, hfollows.descriptorEntity_eq, hfollows.registry_eq]
      exact htype.imp_right (And.imp_right (pooled_of_additions hsteps' _ _))
  split
  · rename_i e he
    exact hrest e w1 .refl (.inl he)
  · rename_i hnone
    refine (leads_typeSignature f.type).bind fun c w2 hsteps hc => hrest c.entity w2 hsteps (.inr ⟨?_, ?_⟩)
    · rw [(follows_of_additions hsteps).descriptorEntity_eq, hnone]
    · rw [(follows_of_additions hsteps).registry_eq]
      exact hc

/-! ### Tables -/

theorem IsTable.later {Spelled Spelled' : Text → EntityId → Prop} (hfollows : w.Follows w')
    (hspelled : ∀ text e, Spelled text e → Spelled' text e) (h : IsTable w Spelled tag elem values) :
    IsTable w' Spelled' tag elem values := by
  cases h with
  | @methods s _ _ hs h =>
    obtain ⟨s', hs', hclose⟩ := hfollows.session hs
    have htypes : s.types = s'.types := (congrArg Session.types hclose).symm
    rw [htypes]
    exact .methods hs' (h.imp fun _ _ hrow => hrow.later hfollows hspelled)
  | @fields s _ _ hs h =>
    obtain ⟨s', hs', hclose⟩ := hfollows.session hs
    have htypes : s.types = s'.types := (congrArg Session.types hclose).symm
    rw [htypes]
    exact .fields hs' (h.imp fun _ _ hrow => hrow.later hfollows hspelled)
  | interfaces h => exact .interfaces (h.imp fun _ _ hrow => hrow.later hfollows)

theorem IsTable.tag_ne {Spelled : Text → EntityId → Prop} (h : IsTable w Spelled tag elem values) : tag ≠ "_Utf8" := by
  cases h <;> decide

/-- A table is made of rows of one kind, which changes keep. -/
theorem leads_newTable {α : Type} {R : α → Init → Workspace → Prop} {rows : List α} {n : Nat} (hn : rows.length = n)
    (hkeep : ∀ a v s t, R a v s → Addition s t → R a v t) (hrows : List.Forall₂ (fun a v => R a v w) rows values)
    (htable : IsTable w w.Pooled tag elem values) :
    Leads Addition (newTable tag elem n values) w fun e w' => HoldsTable w' (fun a v => R a v w') rows e := by
  obtain rfl : values.length = n := hrows.length_eq.symm.trans hn
  refine (leads_newType _).bind fun t w1 hsteps ⟨_, ht⟩ => ?_
  have htable1 : IsTable w1 w1.Pooled tag elem values :=
    htable.later (follows_of_additions hsteps) (pooled_of_additions hsteps)
  refine (leads_uniqueName htable.tag_ne).bind ?_
  rintro name _ hsteps' ⟨hname, rfl⟩
  by_cases hfree : w1.program.Unused name
  · have htable2 := htable1.later (follows_of_additions hsteps') (pooled_of_additions hsteps')
    have hadd := @Addition.table _ tag name _ _ _ htable2 ht hname hfree
    refine leads_of_finishes (a := w1.program.entities.size) ?_ (.single hadd) ⟨values, ?_, ?_⟩
    · simp only [finishes_bind_iff, finishes_newEntity_iff, finishes_modifyEntity_iff, finishes_pure_iff]
      refine ⟨_, _, ⟨hfree, rfl, rfl⟩, (), _, rfl, rfl, ?_⟩
      rw [Program.modifyEntity_push _ _ rfl]
      rfl
    · have hnew := Program.entity?_push_new (w1.program.uniqueName tag).2 (tableEntity name t values)
      exact Option.bind_eq_some_iff.2 ⟨_, hnew, rfl⟩
    · exact hrows.imp fun a v hrow => keep_along (hkeep a v) ((hsteps.trans hsteps').tail hadd) hrow
  · exact leads_of_error (bind_apply_of_error (newEntity_of_used hfree))

variable (cls : Class)

theorem leads_methodTable :
    Leads Addition (methodTable cls) w fun e w' => HoldsTable w' (IsMethodRecord w' w'.Pooled) cls.methods.toList e := by
  have hkeep : ∀ m v s t, IsMethodRecord s s.Pooled m v → Addition s t → IsMethodRecord t t.Pooled m v :=
    fun m v s t hrow hadd => hrow.later hadd.follows hadd.pooled
  refine (leads_mapM hkeep fun m _ t _ => leads_methodRecord cls.name m).bind fun records w1 _ hrecords => ?_
  refine leads_session_bind fun s hs => ?_
  exact leads_newTable Array.length_toList hkeep hrecords (.methods hs hrecords)

theorem leads_fieldTable :
    Leads Addition (fieldTable cls) w fun table w' =>
      HoldsTable? w' (IsFieldRecord w' w'.Pooled) cls.fields.toList table := by
  have hkeep : ∀ f v s t, IsFieldRecord s s.Pooled f v → Addition s t → IsFieldRecord t t.Pooled f v :=
    fun f v s t hrow hadd => hrow.later hadd.follows hadd.pooled
  rw [fieldTable]
  by_cases hempty : cls.fields.isEmpty = true
  · rw [if_pos hempty]
    exact leads_pure (.inl ⟨by simpa using hempty, rfl⟩)
  rw [if_neg hempty]
  refine (leads_mapM hkeep fun f _ t _ => leads_fieldRecord cls.name f).bind fun records w1 _ hrecords => ?_
  refine leads_session_bind fun s hs => ?_
  refine (leads_newTable Array.length_toList hkeep hrecords (.fields hs hrecords)).bind fun e w2 _ htable => ?_
  exact leads_pure (.inr ⟨by simpa using hempty, e, rfl, htable⟩)

theorem leads_interfaceTable :
    Leads Addition (interfaceTable cls) w fun table w' => HoldsTable? w' (IsReference w') cls.interfaces table := by
  have hkeep : ∀ i v s t, IsReference s i v → Addition s t → IsReference t i v := fun i v s t href hadd => href.later hadd.follows
  rw [interfaceTable]
  by_cases hempty : cls.interfaces.isEmpty = true
  · rw [if_pos hempty]
    exact leads_pure (.inl ⟨by simpa using hempty, rfl⟩)
  rw [if_neg hempty]
  refine (leads_mapM hkeep fun i _ t _ => ?_).bind fun values w1 _ hvalues => ?_
  · refine leads_class'_bind fun iface hiface => ?_
    split
    · exact leads_throw _
    · rename_i e he
      exact leads_pure ⟨iface, e, hiface, he, rfl⟩
  · refine (leads_newTable rfl hkeep hvalues (.interfaces hvalues)).bind fun e w2 _ htable => ?_
    exact leads_pure (.inr ⟨by simpa using hempty, e, rfl, htable⟩)

end ClassAbi.Abi
