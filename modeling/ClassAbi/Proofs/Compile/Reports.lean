import ClassAbi.Proofs.Compile.Stage

/-!
# The reports of a compilation

A compilation reports the start and the end of its stages in their order, and stops at the first one that fails. What it has
made and noted matches its reports. The one exception is a stage that ends with an access outside its data: its start is
reported, and its end is not.
-/

namespace ClassAbi

variable {k started k' : Nat} {s : Stage} {rest : List (Stage × Status)}

def Progress.key (p : Progress) : Stage × Status := (p.stage, p.status)

/-- The reports of the first `k` stages, all of which ended well. -/
def Stage.completed (k : Nat) : List (Stage × Status) := (all.take k).flatMap fun s => [(s, .working), (s, .done)]

def Stage.startedIn (keys : List (Stage × Status)) : List Stage := (keys.filter fun key => key.2 = .working).map Prod.fst

/-- Whether these can be the reports after those of `k` completed stages: none, or those of a stage that failed. -/
def Stage.Ending (k : Nat) (rest : List (Stage × Status)) : Prop :=
  rest = [] ∨ ∃ s, all[k]? = some s ∧ rest = [(s, .working), (s, .failed)]

namespace Stage

theorem take_succ_of_getElem? (hs : all[k]? = some s) : all.take (k + 1) = all.take k ++ [s] := by
  rw [List.take_add_one, hs]
  rfl

theorem completed_succ (hs : all[k]? = some s) : completed (k + 1) = completed k ++ [(s, .working), (s, .done)] := by
  unfold completed
  rw [take_succ_of_getElem? hs, List.flatMap_append, List.flatMap_singleton]

theorem startedIn_append (keys rest : List (Stage × Status)) : startedIn (keys ++ rest) = startedIn keys ++ startedIn rest := by
  simp [startedIn]

theorem startedIn_completed (k : Nat) : startedIn (completed k) = all.take k := by
  unfold completed
  induction all.take k with
  | nil => rfl
  | cons s stages ih =>
    rw [List.flatMap_cons, startedIn_append, ih]
    rfl

theorem lt_of_getElem?_all (hs : all[k]? = some s) : k < 7 := by
  obtain ⟨hlt, -⟩ := List.getElem?_eq_some_iff.1 hs
  exact hlt

end Stage

namespace Timings

theorem has_set (t : Timings) (stage : Text) (elapsed : Int) (name : Text) :
    (t.set stage elapsed).has name = (name == stage || t.has name) := by
  unfold has set
  rw [List.lookup_cons]
  cases hname : name == stage with
  | true => rfl
  | false =>
    have hfilter : (t.filter (·.1 != stage)).lookup name = t.lookup name := by
      induction t with
      | nil => rfl
      | cons entry t ih =>
        obtain ⟨key, value⟩ := entry
        by_cases hkey : key = stage
        · rw [List.lookup_cons, hkey, hname]
          simpa using ih
        · simp [hkey, List.lookup_cons, ih]
    simp [hfilter]

end Timings

namespace Compile

variable {α β : Type} {c c' : Compilation} {w w' : Watch} {k : Nat}

/-! ### Standing -/

/-- Whether `k` stages are completed and `started` stages noted, the reports after those of the completed ones being `rest`. -/
structure Standing (k started : Nat) (rest : List (Stage × Status)) (c : Compilation) (w : Watch) : Prop where
  reports : w.reports.reverse.map Progress.key = Stage.completed k ++ rest
  phases : c.phases.map Phase.stage = Stage.all.take started
  timed : ∀ name, c.timings.has name = true ↔ name ∈ (Stage.all.take started).map Stage.name
  index : c.index.isSome = true ↔ 6 ≤ k
  module : c.module ≠ [] ↔ 7 ≤ k

theorem standing_start (cancelled : Bool) : Standing 0 0 [] {} { cancelled } where
  reports := rfl
  phases := rfl
  timed name := by simp [Timings.has]
  index := by simp
  module := by simp

/-- What a compilation has made when `k` stages are completed. -/
def Made (k : Nat) (c : Compilation) : Prop := (c.index.isSome = true ↔ 6 ≤ k) ∧ (c.module ≠ [] ↔ 7 ≤ k)

/-- Whether nothing is noted or reported between two moments. -/
structure Quiet (c : Compilation) (w : Watch) (c' : Compilation) (w' : Watch) : Prop where
  phases : c'.phases = c.phases
  timings : c'.timings = c.timings
  reports : w'.reports = w.reports

theorem Quiet.trans {c'' : Compilation} {w'' : Watch} (h : Quiet c w c' w') (h' : Quiet c' w' c'' w'') : Quiet c w c'' w'' :=
  ⟨h'.phases.trans h.phases, h'.timings.trans h.timings, h'.reports.trans h.reports⟩

/-- Whether what has been completed is noted and reported as the work of a stage goes on. -/
theorem Standing.later (h : Standing k started rest c w) (hquiet : Quiet c w c' w') (hmade : Made k' c')
    {rest' : List (Stage × Status)} (hreports : Stage.completed k ++ rest = Stage.completed k' ++ rest') :
    Standing k' started rest' c' w' where
  reports := by rw [hquiet.reports, h.reports, hreports]
  phases := by rw [hquiet.phases, h.phases]
  timed := by rw [hquiet.timings]; exact h.timed
  index := hmade.1
  module := hmade.2

theorem Standing.made (h : Standing k started rest c w) : Made k c :=
  ⟨h.index, h.module⟩

theorem Standing.report (h : Standing k started rest c w) (cancel : Cancellation) (p : Progress) :
    Standing k started (rest ++ [p.key]) c (w.report true cancel p) where
  reports := by
    show (p :: w.reports).reverse.map Progress.key = _
    rw [List.reverse_cons, List.map_append, h.reports, List.append_assoc]
    rfl
  phases := h.phases
  timed := h.timed
  index := h.index
  module := h.module

theorem Standing.ended (hs : Stage.all[k]? = some s) (h : Standing k k [(s, .working)] c w) (hquiet : Quiet c w c' w')
    (hmade : Made k' c') {status : Status}
    (hreports : Stage.completed k ++ [(s, .working), (s, status)] = Stage.completed k' ++ rest) (span : Trace.Span)
    (note detail : Text) (cancel : Cancellation) :
    Standing k' (k + 1) rest (endStage c' s span note detail) (w'.report true cancel { stage := s, status }) where
  reports := by
    show (({ stage := s, status } : Progress) :: w'.reports).reverse.map Progress.key = _
    rw [List.reverse_cons, List.map_append, hquiet.reports, h.reports, ← hreports, List.append_assoc]
    rfl
  phases := by
    show (c'.phases ++ [_]).map Phase.stage = _
    rw [List.map_append, hquiet.phases, h.phases, Stage.take_succ_of_getElem? hs]
    rfl
  timed name := by
    show (c'.timings.set s.name 0).has name = true ↔ _
    rw [Timings.has_set, hquiet.timings, Stage.take_succ_of_getElem? hs, List.map_append, List.mem_append, ← h.timed,
      Bool.or_eq_true, or_comm]
    simp
  index := hmade.1
  module := hmade.2

/-! ### The work of stages -/

/-- Whether a step neither notes nor reports anything, and makes no index and no module. -/
def IsQuiet (x : Compile (StateM Watch) α) : Prop :=
  ∀ c w, Ends x c w fun _ c' w' => Quiet c w c' w' ∧ c'.index = c.index ∧ c'.module = c.module

theorem isQuiet_pure (a : α) : IsQuiet (pure a) := fun _ _ => ⟨⟨rfl, rfl, rfl⟩, rfl, rfl⟩

theorem isQuiet_throw (e : Failure Error) : IsQuiet (throw e : Compile (StateM Watch) α) := fun _ _ => ⟨⟨rfl, rfl, rfl⟩, rfl, rfl⟩

theorem IsQuiet.bind {x : Compile (StateM Watch) α} {f : α → Compile (StateM Watch) β} (hx : IsQuiet x) (hf : ∀ a, IsQuiet (f a)) :
    IsQuiet (x >>= f) := by
  intro c w
  refine ends_bind (hx c w) ?_ ?_
  · intro a c' w' hfirst
    apply (hf a c' w').imp
    intro r c'' w'' hsecond
    exact ⟨hfirst.1.trans hsecond.1, hsecond.2.1.trans hfirst.2.1, hsecond.2.2.trans hfirst.2.2⟩
  · intro e c' w' h
    exact h

theorem isQuiet_act (action : Action α) : IsQuiet (act action) := fun _ _ => ⟨⟨rfl, rfl, rfl⟩, rfl, rfl⟩

theorem isQuiet_get : IsQuiet get := fun _ _ => ⟨⟨rfl, rfl, rfl⟩, rfl, rfl⟩

/-- What the work of the stage at position `k` may do: report whether the stage has failed, or access something outside its
data. -/
def WorksAt (k : Nat) (work : Compile (StateM Watch) Report) : Prop :=
  ∀ c w, Made k c → Ends work c w fun r c' w' => Quiet c w c' w' ∧ match r with
    | .ok report => Made (if report.failure.isNone then k + 1 else k) c'
    | .error e => e = .fault

theorem made_of_eq (hmade : Made k c) (hindex : c'.index = c.index) (hmodule : c'.module = c.module)
    (hk : k' = k ∨ k' ≤ 5 ∧ k ≤ 5) : Made k' c' := by
  obtain ⟨hi, hm⟩ := hmade
  unfold Made
  rw [hindex, hmodule, hi, hm]
  omega

theorem made_of_isQuiet (hmade : Made k c) (hk : k < 5) (hindex : c'.index = c.index) (hmodule : c'.module = c.module)
    (report : Report) : Made (if report.failure.isNone then k + 1 else k) c' := by
  apply made_of_eq hmade hindex hmodule
  split_ifs <;> omega

theorem IsQuiet.worksAt_reported {step : Compile (StateM Watch) Text} (h : IsQuiet step) (hk : k < 5) : WorksAt k (reported step) := by
  intro c w hmade
  apply ends_reported
  apply (h c w).imp
  rintro r c' w' ⟨hquiet, hindex, hmodule⟩
  exact ⟨hquiet, made_of_isQuiet hmade hk hindex hmodule _⟩

variable {load : Text → Except ManifestError Manifest} {cancel : Cancellation}

theorem isQuiet_readAll (paths : List Text) : IsQuiet (readAll (Surroundings.watched load true cancel) paths) := by
  induction paths with
  | nil => exact isQuiet_pure _
  | cons path paths ih =>
    intro c w
    refine ends_bind_ok (load path) c w rfl ?_
    cases load path with
    | error e => exact isQuiet_throw _ c w
    | ok manifest => exact ih.bind (fun manifests => isQuiet_pure (manifest :: manifests)) c w

theorem isQuiet_cancelled : IsQuiet (liftM (Surroundings.watched load true cancel).cancelled) :=
  fun _ _ => ⟨⟨rfl, rfl, rfl⟩, rfl, rfl⟩

theorem isQuiet_handOn : IsQuiet (handOn (Surroundings.watched load true cancel)) := fun _ _ => ⟨⟨rfl, rfl, rfl⟩, rfl, rfl⟩

theorem isQuiet_load (req : Request) : IsQuiet (Compile.load (Surroundings.watched load true cancel) req) := by
  refine isQuiet_cancelled.bind fun cancelled => ?_
  dsimp only
  by_cases hcancelled : cancelled = true
  · rw [if_pos hcancelled]
    exact fun c w => isQuiet_throw _ c w
  rw [if_neg hcancelled]
  refine isQuiet_handOn.bind fun _ => (isQuiet_readAll _).bind fun manifests => (isQuiet_act _).bind fun build => ?_
  refine IsQuiet.bind (fun _ _ => ⟨⟨rfl, rfl, rfl⟩, rfl, rfl⟩) fun _ => (isQuiet_act _).bind fun target => ?_
  refine IsQuiet.bind (fun _ _ => ⟨⟨rfl, rfl, rfl⟩, rfl, rfl⟩) fun _ => (isQuiet_act _).bind fun _ => ?_
  exact isQuiet_get.bind fun _ => isQuiet_pure _

theorem worksAt_layOut (hk : k < 5) : WorksAt k layOut := by
  intro c w hmade
  exact ⟨⟨rfl, rfl, rfl⟩, made_of_isQuiet hmade hk rfl rfl _⟩

/-- Whether the only failure of a step is an access outside its data. -/
def FaultsOnly (x : Action α) : Prop := ∀ ws e, (x ws).1 ≠ .error (.error e)

theorem faultsOnly_pure (a : α) : FaultsOnly (pure a) := fun _ _ h => by cases h

theorem faultsOnly_need (o : Option α) : FaultsOnly (Action.need o) := by
  intro ws e h
  cases o <;> cases h

theorem FaultsOnly.bind {x : Action α} {f : α → Action β} (hx : FaultsOnly x) (hf : ∀ a, FaultsOnly (f a)) :
    FaultsOnly (x >>= f) := by
  intro ws e h
  rcases hrun : x ws with ⟨e' | a, ws'⟩
  · rw [bind_apply_of_error hrun] at h
    exact hx ws e (by rw [hrun, Except.error.inj h])
  · rw [bind_apply_of_finishes hrun] at h
    exact hf a ws' e h

theorem faultsOnly_registry : FaultsOnly Action.registry := fun _ _ h => by cases h

theorem faultsOnly_lowerMethods (cancelled : Bool) (parent : Option Nat) (count : Nat) (ms : List MethodRef) :
    FaultsOnly (Lowering.lowerMethods cancelled parent count ms) := by
  induction ms generalizing count with
  | nil => exact faultsOnly_pure _
  | cons m ms ih =>
    unfold Lowering.lowerMethods
    split_ifs
    · exact faultsOnly_pure _
    refine faultsOnly_registry.bind fun r => (faultsOnly_need _).bind fun method => ?_
    cases method.entity with
    | none => exact ih _
    | some e =>
      refine FaultsOnly.bind (fun _ _ h => by cases h) fun _ => (faultsOnly_need _).bind fun ent => ?_
      refine (faultsOnly_pure _).bind fun declared => ?_
      beta_reduce
      split_ifs
      · exact ih _
      · refine FaultsOnly.bind (fun _ _ h => by cases h) fun result => ?_
        cases result with
        | ok g => exact ih _
        | error failure => exact faultsOnly_pure _

theorem faultsOnly_lowerProgram (cancelled : Bool) (parent : Option Nat) : FaultsOnly (Lowering.lowerProgram cancelled parent) :=
  faultsOnly_registry.bind fun _ => faultsOnly_lowerMethods cancelled parent 0 _

theorem worksAt_lower (span : Nat) (hk : k < 5) : WorksAt k (Compile.lower (Surroundings.watched load true cancel) span) := by
  intro c w hmade
  refine ends_bind_ok w.cancelled c w rfl ?_
  refine ends_bind (Q := fun r c' w' => (Quiet c w c' w' ∧ c'.index = c.index ∧ c'.module = c.module) ∧ ∀ e, r ≠ .error (.error e))
    ⟨⟨⟨rfl, rfl, rfl⟩, rfl, rfl⟩, faultsOnly_lowerProgram _ _ _⟩ ?_ ?_
  · rintro ⟨count, failure⟩ c' w' ⟨⟨hquiet, hindex, hmodule⟩, -⟩
    refine ⟨⟨hquiet.phases, hquiet.timings, hquiet.reports⟩, ?_⟩
    exact made_of_isQuiet hmade hk hindex hmodule { note := Text.ofNat count ++ " methods", failure }
  · rintro (_ | e) c' w' ⟨⟨hquiet, -⟩, hne⟩
    · exact ⟨hquiet, rfl⟩
    · exact absurd rfl (hne e)

theorem worksAt_reach : WorksAt 5 (reported reach) := by
  intro c w hmade
  apply ends_reported
  have hfail : ∀ failure c', c'.index = c.index → c'.module = c.module → Quiet c w c' w →
      Quiet c w c' w ∧ Made (if ({ failure := some failure } : Report).failure.isNone then 6 else 5) c' :=
    fun failure c' hindex hmodule hquiet => ⟨hquiet, made_of_eq hmade hindex hmodule (.inl rfl)⟩
  refine ends_bind_ok c c w rfl ?_
  refine ends_bind (Q := fun _ c' w' => w' = w ∧ Quiet c w c' w ∧ c'.index = c.index ∧ c'.module = c.module)
    ⟨rfl, ⟨rfl, rfl, rfl⟩, rfl, rfl⟩ ?_ ?_
  · rintro index c1 _ ⟨rfl, hquiet1, hindex1, hmodule1⟩
    refine ends_bind (Q := fun _ c' w' => w' = _ ∧ Quiet c _ c' _ ∧ c'.index = c.index ∧ c'.module = c.module)
      ⟨rfl, hquiet1.trans ⟨rfl, rfl, rfl⟩, hindex1, hmodule1⟩ ?_ ?_
    · rintro helper c2 _ ⟨rfl, hquiet2, -, hmodule2⟩
      refine ⟨⟨hquiet2.phases, hquiet2.timings, rfl⟩, ?_, ?_⟩
      · show (some index).isSome = true ↔ 6 ≤ 6
        simp
      · show c2.module ≠ [] ↔ 7 ≤ 6
        rw [hmodule2, hmade.2]
        omega
    · rintro e c2 _ ⟨rfl, hquiet2, hindex2, hmodule2⟩
      exact hfail e c2 hindex2 hmodule2 hquiet2
  · rintro e c1 _ ⟨rfl, hquiet1, hindex1, hmodule1⟩
    exact hfail e c1 hindex1 hmodule1 hquiet1

theorem emitModule_ne_nil {ws : Workspace} {text : Text} (h : (emitModule ws).1 = .ok text) : text ≠ [] := by
  obtain ⟨contents, known, -, rfl⟩ := exists_contents_of_emitModule h
  unfold Module.Contents.text
  simp only [List.append_assoc]
  exact List.append_ne_nil_of_left_ne_nil (by decide) _

theorem worksAt_emit : WorksAt 6 Compile.emit := by
  intro c w hmade
  refine ends_bind (Q := fun r c' w' => r = .ok (emitModule c.workspace).1 ∧ w' = w ∧ Quiet c w c' w ∧
    c'.index = c.index ∧ c'.module = c.module) ⟨rfl, rfl, ⟨rfl, rfl, rfl⟩, rfl, rfl⟩ ?_ ?_
  · rintro r c' _ ⟨hr, rfl, hquiet, hindex, hmodule⟩
    have hr := Except.ok.inj hr
    cases r with
    | ok text =>
      refine ⟨⟨hquiet.phases, hquiet.timings, rfl⟩, ?_, ?_⟩
      · show c'.index.isSome = true ↔ 6 ≤ 7
        rw [hindex, hmade.1]
        omega
      · show text ≠ [] ↔ 7 ≤ 7
        exact ⟨fun _ => le_refl 7, fun _ => emitModule_ne_nil hr.symm⟩
    | error failure => exact ⟨hquiet, made_of_eq hmade hindex hmodule (.inl rfl)⟩
  · rintro e c' w' ⟨he, -⟩
    cases he

/-! ### Stages, one after the other -/

/-- How a compilation stands that has stopped with a failure. -/
def Stopped (e : Failure Error) (c : Compilation) (w : Watch) : Prop :=
  (∃ k < 7, Standing k k [] c w) ∨
    (∃ k s, Stage.all[k]? = some s ∧ Standing k (k + 1) [(s, .working), (s, .failed)] c w) ∨
    e = .fault ∧ ∃ k s, Stage.all[k]? = some s ∧
      w.reports.reverse.map Progress.key = Stage.completed k ++ [(s, .working)]

/-- Whether a step takes a compilation from `k` completed stages to `k'`, unless it stops it. -/
def Advances (k k' : Nat) (x : Compile (StateM Watch) α) : Prop :=
  ∀ c w, Standing k k [] c w → Ends x c w fun r c' w' => match r with
    | .ok _ => Standing k' k' [] c' w'
    | .error e => Stopped e c' w'

theorem Advances.bind {k1 k2 : Nat} {x : Compile (StateM Watch) α} {f : α → Compile (StateM Watch) β} (hx : Advances k k1 x)
    (hf : ∀ a, Advances k1 k2 (f a)) : Advances k k2 (x >>= f) := by
  intro c w h
  refine ends_bind (hx c w h) ?_ ?_
  · intro a c' w' hmiddle
    exact hf a c' w' hmiddle
  · intro e c' w' hstopped
    exact hstopped

theorem IsQuiet.advances {x : Compile (StateM Watch) α} (hx : IsQuiet x) (hk : k < 7) : Advances k k x := by
  intro c w h
  apply (hx c w).imp
  rintro r c' w' ⟨hquiet, hindex, hmodule⟩
  have hlater := h.later hquiet (made_of_eq h.made hindex hmodule (.inl rfl)) rfl
  cases r with
  | ok a => exact hlater
  | error e => exact .inl ⟨k, hk, hlater⟩

theorem advances_stage (hs : Stage.all[k]? = some s) (parent : Nat) {work : Nat → Compile (StateM Watch) Report}
    (hwork : ∀ span, WorksAt k (work span)) :
    Advances k (k + 1) (stage (Surroundings.watched load true cancel) parent s work) := by
  intro c w h
  have hk := Stage.lt_of_getElem?_all hs
  apply ends_stage
  · intro _
    exact .inl ⟨k, hk, h⟩
  · intro _
    have hopened : Standing k k [] (beginStage c parent s).2 w := ⟨h.reports, h.phases, h.timed, h.index, h.module⟩
    have hbegun := hopened.report cancel { stage := s, status := .working }
    apply (hwork _ _ _ hbegun.made).imp
    rintro (e | ⟨note, failure⟩) c' w' ⟨hquiet, hresult⟩
    · refine .inr (.inr ⟨hresult, k, s, hs, ?_⟩)
      rw [hquiet.reports, hbegun.reports]
      rfl
    · rcases failure with _ | _ | e
      · have hreports : Stage.completed k ++ [(s, .working), (s, .done)] = Stage.completed (k + 1) ++ [] := by
          rw [Stage.completed_succ hs, List.append_nil]
        exact hbegun.ended hs hquiet hresult hreports _ note note cancel
      · refine .inr (.inr ⟨rfl, k, s, hs, ?_⟩)
        rw [hquiet.reports, hbegun.reports]
        rfl
      · exact .inr (.inl ⟨k, s, hs, hbegun.ended hs hquiet hresult rfl _ note e.message cancel⟩)

theorem advances_stages (req : Request) (parent : Nat) :
    Advances 0 7 (stages (Surroundings.watched load true cancel) req parent) := by
  refine (advances_stage rfl parent fun _ => (isQuiet_load req).worksAt_reported (by omega)).bind fun _ => ?_
  refine Advances.bind (IsQuiet.advances (fun _ _ => ⟨⟨rfl, rfl, rfl⟩, rfl, rfl⟩) (by omega)) fun _ => ?_
  refine (advances_stage rfl parent fun _ => worksAt_layOut (by omega)).bind fun _ => ?_
  refine (advances_stage rfl parent fun _ => (isQuiet_act _).worksAt_reported (by omega)).bind fun _ => ?_
  refine (isQuiet_get.advances (by omega)).bind fun _ => ((isQuiet_act _).advances (by omega)).bind fun _ => ?_
  refine (advances_stage rfl parent fun _ => (isQuiet_act _).worksAt_reported (by omega)).bind fun _ => ?_
  refine (advances_stage rfl parent fun span => worksAt_lower span (by omega)).bind fun _ => ?_
  refine (advances_stage rfl parent fun _ => worksAt_reach).bind fun _ => ?_
  exact advances_stage rfl parent fun _ => worksAt_emit

def Ended : Outcome Error Unit → Compilation → Watch → Prop
  | .ok _, c, w => Standing 7 7 [] c w
  | .error e, c, w => Stopped e c w

theorem Ended.later {r : Outcome Error Unit} (h : Ended r c w) (hquiet : Quiet c w c' w') (hindex : c'.index = c.index)
    (hmodule : c'.module = c.module) : Ended r c' w' := by
  have hstanding : ∀ {k started rest}, Standing k started rest c w → Standing k started rest c' w' :=
    fun h => h.later hquiet (made_of_eq h.made hindex hmodule (.inl rfl)) rfl
  cases r with
  | ok _ => exact hstanding h
  | error e =>
    obtain ⟨k, hk, hnext⟩ | ⟨k, s, hs, hfailed⟩ | ⟨he, k, s, hs, hreports⟩ := h
    · exact .inl ⟨k, hk, hstanding hnext⟩
    · exact .inr (.inl ⟨k, s, hs, hstanding hfailed⟩)
    · exact .inr (.inr ⟨he, k, s, hs, by rw [hquiet.reports, hreports]⟩)

theorem ended_steps (req : Option Request) (cancelled : Bool) :
    Ends (steps (Surroundings.watched load true cancel) req) {} { cancelled } Ended := by
  have hstart := standing_start cancelled
  apply ends_steps
  · intro _ _
    exact .inl ⟨0, by omega, hstart⟩
  · intro req _
    have hbegun : Standing 0 0 [] (beginAll req.trace).2 { cancelled } :=
      ⟨hstart.reports, hstart.phases, hstart.timed, hstart.index, hstart.module⟩
    apply (advances_stages req _ _ _ hbegun).imp
    rintro (e | ⟨⟩) c w h
    · exact Ended.later (r := .error e) h ⟨rfl, rfl, rfl⟩ rfl rfl
    · exact Ended.later (r := .ok ()) h ⟨rfl, rfl, rfl⟩ rfl rfl

theorem Standing.noted (h : Standing k started rest c w) (hle : started ≤ 7)
    (hstarted : Stage.startedIn (Stage.completed k ++ rest) = Stage.all.take started) :
    c.phases.map Phase.stage = Stage.startedIn (w.reports.reverse.map Progress.key) ∧
      Stage.all.filter (fun s => c.timings.has s.name) = Stage.startedIn (w.reports.reverse.map Progress.key) := by
  rw [h.reports, hstarted]
  refine ⟨h.phases, ?_⟩
  have hhas : ∀ s : Stage, c.timings.has s.name = decide (s.name ∈ (Stage.all.take started).map Stage.name) := by
    intro s
    rw [Bool.eq_iff_iff, h.timed, decide_eq_true_iff]
  simp only [hhas]
  interval_cases started <;> decide

/-- The reports of a compilation, whatever is asked for and whenever it is cancelled: `k` stages are completed, and then there
is nothing or a stage that failed. The stages noted are those of the reports, and what has been made tells which were completed.
Only an access outside the data leaves a stage without a report of its end. -/
theorem reports_follow_stages (load : Text → Except ManifestError Manifest) (cancel : Cancellation) (req : Option Request) :
    let (result, c, reports) := Compile.watch load true cancel req
    ∃ k rest, reports.map Progress.key = Stage.completed k ++ rest ∧
      (k ≤ 7 ∧ Stage.Ending k rest ∧
          c.phases.map Phase.stage = Stage.startedIn (reports.map Progress.key) ∧
          Stage.all.filter (fun s => c.timings.has s.name) = Stage.startedIn (reports.map Progress.key) ∧
          (result = .ok () ↔ k = 7) ∧ (c.module ≠ [] ↔ k = 7) ∧ (c.snapshot.isSome = true ↔ 6 ≤ k) ∨
        result = .error .fault ∧ ∃ s, Stage.all[k]? = some s ∧ rest = [(s, .working)]) := by
  have hended : Ended (watch load true cancel req).1 (watch load true cancel req).2.1 (observe load true cancel req).2 :=
    ended_steps req _
  have hreports : (watch load true cancel req).2.2 = (observe load true cancel req).2.reports.reverse := rfl
  revert hended hreports
  generalize watch load true cancel req = outcome
  generalize (observe load true cancel req).2 = w
  obtain ⟨result, c, reports⟩ := outcome
  rintro hended rfl
  have hsnapshot : c.snapshot.isSome = c.index.isSome := Option.isSome_map
  have hcompleted : ∀ k, Stage.startedIn (Stage.completed k ++ []) = Stage.all.take k := by
    intro k
    rw [List.append_nil, Stage.startedIn_completed]
  cases result with
  | ok _ =>
    have hstanding : Standing 7 7 [] c w := hended
    obtain ⟨hphases, htimed⟩ := hstanding.noted (le_refl 7) (hcompleted 7)
    refine ⟨7, [], hstanding.reports, .inl ⟨le_refl 7, .inl rfl, hphases, htimed, by simp, ?_, ?_⟩⟩
    · rw [hstanding.module]
      omega
    · rw [hsnapshot, hstanding.index]
  | error e =>
    have hfailed : ∀ k < 7, (.error e : Outcome Error Unit) = .ok () ↔ k = 7 := by
      intro k hk
      simp [hk.ne]
    obtain ⟨k, hk, hstanding⟩ | ⟨k, s, hs, hstanding⟩ | ⟨he, k, s, hs, hreports⟩ := hended
    · obtain ⟨hphases, htimed⟩ := hstanding.noted hk.le (hcompleted k)
      refine ⟨k, [], hstanding.reports, .inl ⟨hk.le, .inl rfl, hphases, htimed, hfailed k hk, ?_, ?_⟩⟩
      · rw [hstanding.module]
        omega
      · rw [hsnapshot, hstanding.index]
    · have hk := Stage.lt_of_getElem?_all hs
      have hstarted : Stage.startedIn (Stage.completed k ++ [(s, .working), (s, .failed)]) = Stage.all.take (k + 1) := by
        rw [Stage.startedIn_append, Stage.startedIn_completed, Stage.take_succ_of_getElem? hs]
        rfl
      obtain ⟨hphases, htimed⟩ := hstanding.noted hk hstarted
      refine ⟨k, _, hstanding.reports, .inl ⟨hk.le, .inr ⟨s, hs, rfl⟩, hphases, htimed, hfailed k hk, ?_, ?_⟩⟩
      · rw [hstanding.module]
        omega
      · rw [hsnapshot, hstanding.index]
    · exact ⟨k, [(s, .working)], hreports, .inr ⟨congrArg _ he, s, hs, rfl⟩⟩

/-- A stage may be reported as begun and neither as done nor as failed. -/
theorem reach_reported_begun_only :
    ∃ c reports, watch (fun _ => .ok overlong) true .never (some { manifests := ["a.toml"], trace := .phase }) =
        (.error .fault, c, reports) ∧
      reports.map Progress.key = Stage.completed 5 ++ [(.reach, .working)] := by
  obtain ⟨_, c, w, hobserve, rfl, hreports, -⟩ := ends_overlong.exists_observe
  refine ⟨c, w.reports.reverse, ?_, ?_⟩
  · rw [watch, hobserve]
  · rw [hreports]
    rfl

end Compile

end ClassAbi
