import ClassAbi.Proofs.Compile.Reports
import ClassAbi.Proofs.Trace.Actions

/-!
# The trace of a compilation

A watcher is handed the events of the trace in their order, and at the end of a compilation it has all of them. Since the work of
every stage records whole spans and points only, so does the compilation: what remains open is at most the span of a stage whose
work accesses something outside its data.
-/

namespace ClassAbi.Compile

open Trace Trace.Recorder

variable {α β : Type} {c c' : Compilation} {w w' : Watch} {load : Text → Except ManifestError Manifest} {receiver : Bool}
  {cancel : Cancellation}

/-- Whether a watcher has the first events of the trace, as many as the compilation has handed on. -/
structure Handed (c : Compilation) (w : Watch) : Prop where
  traced_eq : c.traced = w.events.length
  events : w.events <+: c.workspace.trace.toList
  count_eq : c.workspace.trace.count = c.workspace.trace.toList.length

theorem Handed.extend {new : List Event} (h : Handed c w) (hnew : c'.workspace.trace.toList = c.workspace.trace.toList ++ new)
    (hcount : c'.workspace.trace.count = c.workspace.trace.count + new.length) (htraced : c'.traced = c.traced)
    (hevents : w'.events = w.events) : Handed c' w' where
  traced_eq := by rw [htraced, hevents, h.traced_eq]
  events := by
    rw [hevents, hnew]
    exact h.events.trans (List.prefix_append _ _)
  count_eq := by rw [hcount, hnew, List.length_append, h.count_eq]

theorem Handed.nests (h : Handed c w) (hnests : Nests c.workspace.trace c'.workspace.trace) (htraced : c'.traced = c.traced)
    (hevents : w'.events = w.events) : Handed c' w' := by
  obtain ⟨new, hadds, -⟩ := hnests
  exact h.extend hadds.events_eq hadds.count_eq htraced hevents

theorem Handed.handed_events (h : Handed c w) : (w.handed c).events = c.workspace.trace.toList := by
  obtain ⟨rest, hrest⟩ := h.events
  show w.events ++ c.workspace.trace.toList.drop c.traced = c.workspace.trace.toList
  rw [h.traced_eq, ← hrest, List.drop_left]

theorem Handed.handed (h : Handed c w) : Handed c.handed (w.handed c) where
  traced_eq := h.count_eq.trans (congrArg List.length h.handed_events.symm)
  events := by
    rw [h.handed_events]
    exact List.prefix_refl _
  count_eq := h.count_eq

theorem events_report (p : Progress) (w : Watch) : (w.report receiver cancel p).events = w.events := by
  unfold Watch.report
  split_ifs <;> rfl

theorem nests_atStart (t : Recorder) : Nests t t.atStart := t.nests_now _

/-! ### Steps -/

/-- Steps that record only whole spans and points, and hand on only what has been recorded. -/
class Traces (x : Compile (StateM Watch) α) : Prop where
  ends : ∀ c w, Handed c w → Ends x c w fun _ c' w' => Handed c' w' ∧ Nests c.workspace.trace c'.workspace.trace

section

variable {x y : Compile (StateM Watch) α} {f : α → Compile (StateM Watch) β}

theorem Traces.of_eq (h : ∀ c w, Ends x c w fun _ c' w' =>
    c'.workspace.trace = c.workspace.trace ∧ c'.traced = c.traced ∧ w'.events = w.events) : Traces x where
  ends c w hc := by
    apply (h c w).imp
    rintro r c' w' ⟨htrace, htraced, hevents⟩
    have hnests : Nests c.workspace.trace c'.workspace.trace := by
      rw [htrace]
      exact .refl _
    exact ⟨hc.nests hnests htraced hevents, hnests⟩

instance (a : α) : Traces (pure a) := .of_eq fun _ _ => ⟨rfl, rfl, rfl⟩

instance (e : Failure Error) : Traces (throw e : Compile (StateM Watch) α) := .of_eq fun _ _ => ⟨rfl, rfl, rfl⟩

instance : Traces get := .of_eq fun _ _ => ⟨rfl, rfl, rfl⟩

theorem Traces.bind (hx : Traces x) (hf : ∀ a, Traces (f a)) : Traces (x >>= f) where
  ends c w hc := by
    refine ends_bind (hx.ends c w hc) ?_ ?_
    · intro a c' w' hfirst
      apply ((hf a).ends c' w' hfirst.1).imp
      intro r c'' w'' hsecond
      exact ⟨hsecond.1, hfirst.2.trans hsecond.2⟩
    · intro e c' w' h
      exact h

instance [hx : Traces x] [hf : ∀ a, Traces (f a)] : Traces (x >>= f) := hx.bind hf

instance (action : Action α) [h : action.Nested] : Traces (act action : Compile (StateM Watch) α) where
  ends c w hc := by
    have hnests := h.nests c.workspace
    exact ⟨hc.nests hnests rfl rfl, hnests⟩

instance [h : Traces x] : Traces (attempt x) := ⟨fun c w hc => ends_attempt (h.ends c w hc)⟩

instance : Traces (liftM (Surroundings.watched load receiver cancel).cancelled) := .of_eq fun _ _ => ⟨rfl, rfl, rfl⟩

instance (path : Text) : Traces (liftM ((Surroundings.watched load receiver cancel).load path)) := .of_eq fun _ _ => ⟨rfl, rfl, rfl⟩

instance : Traces (handOn (Surroundings.watched load receiver cancel)) where
  ends _ _ hc := ⟨hc.handed, .refl _⟩

theorem Traces.modify {g : Compilation → Compilation}
    (h : ∀ c, (g c).workspace.trace = c.workspace.trace ∧ (g c).traced = c.traced) : Traces (modify g) :=
  .of_eq fun c _ => ⟨(h c).1, (h c).2, rfl⟩

end

/-! ### The work of stages -/

instance (paths : List Text) : Traces (readAll (Surroundings.watched load receiver cancel) paths) := by
  induction paths with
  | nil => exact inferInstanceAs (Traces (pure []))
  | cons path paths ih =>
    refine .bind inferInstance fun manifest => ?_
    split <;> infer_instance

instance (req : Request) : Traces (Compile.load (Surroundings.watched load receiver cancel) req) := by
  refine .bind inferInstance fun cancelled => ?_
  dsimp only
  by_cases hcancelled : cancelled = true
  · rw [if_pos hcancelled]
    exact .of_eq fun _ _ => ⟨rfl, rfl, rfl⟩
  · rw [if_neg hcancelled]
    refine .bind inferInstance fun _ => .bind inferInstance fun manifests => .bind inferInstance fun build => ?_
    refine .bind (.modify fun _ => ⟨rfl, rfl⟩) fun _ => .bind inferInstance fun target => ?_
    exact .bind (.modify fun _ => ⟨rfl, rfl⟩) fun _ => inferInstance

instance : Traces dispatch := by
  unfold dispatch
  infer_instance

instance : Traces describe := by
  unfold describe
  infer_instance

instance : Traces reach := by
  refine .bind inferInstance fun c => .bind inferInstance fun index => .bind inferInstance fun helper => ?_
  exact .bind inferInstance fun c => .bind (.modify fun _ => ⟨rfl, rfl⟩) fun _ => inferInstance

/-- What the work of a stage may do: record whole spans and points, and report its errors instead of failing with them. -/
def Contained (work : Compile (StateM Watch) Report) : Prop :=
  ∀ c w, Handed c w → Ends work c w fun r c' w' =>
    (Handed c' w' ∧ Nests c.workspace.trace c'.workspace.trace) ∧ ∀ e, r ≠ .error (.error e)

theorem contained_reported (step : Compile (StateM Watch) Text) [h : Traces step] : Contained (reported step) := by
  intro c w hc
  apply ends_reported
  apply (h.ends c w hc).imp
  intro r c' w' hstep
  exact ⟨hstep, by simp⟩

theorem contained_layOut : Contained layOut := by
  intro c w hc
  have hlayOut : Traces (layOut : Compile (StateM Watch) Report) := by
    unfold layOut
    infer_instance
  exact ⟨hlayOut.ends c w hc, fun e he => by cases he⟩

theorem contained_lower (span : Nat) : Contained (lower (Surroundings.watched load receiver cancel) span) := by
  intro c w hc
  refine ends_bind_ok w.cancelled c w rfl ?_
  let program := Lowering.lowerProgram w.cancelled (some span)
  have hprogram : Traces (act program) := inferInstance
  refine ends_bind (Q := fun r c' w' =>
    (Handed c' w' ∧ Nests c.workspace.trace c'.workspace.trace) ∧ ∀ e, r ≠ .error (.error e))
    ⟨hprogram.ends c w hc, faultsOnly_lowerProgram _ _ _⟩ ?_ ?_
  · rintro built c' w' ⟨⟨hc', hnests⟩, -⟩
    exact ⟨⟨hc'.nests (.refl _) rfl rfl, hnests⟩, fun e he => by cases he⟩
  · rintro e c' w' ⟨hstep, hfault⟩
    refine ⟨hstep, fun e' he => ?_⟩
    cases he
    exact hfault e' rfl

theorem contained_emit : Contained emit := by
  intro c w hc
  have hmodule : Traces (act emitModule) := inferInstance
  refine ends_bind (Q := fun r c' w' =>
    (Handed c' w' ∧ Nests c.workspace.trace c'.workspace.trace) ∧ ∃ module, r = .ok module)
    ⟨hmodule.ends c w hc, _, rfl⟩ ?_ ?_
  · rintro result c' w' ⟨⟨hc', hnests⟩, -⟩
    cases result with
    | ok module => exact ⟨⟨hc'.nests (.refl _) rfl rfl, hnests⟩, fun e he => by cases he⟩
    | error failure => exact ⟨⟨hc', hnests⟩, fun e he => by cases he⟩
  · rintro e c' w' ⟨-, module, he⟩
    cases he

/-! ### Stages, one after the other -/

/-- Whether a step records only whole spans and points, but for the span of a stage in which it accesses something outside its
data. -/
def Leaving (x : Compile (StateM Watch) α) : Prop :=
  ∀ c w, Handed c w → Ends x c w fun r c' w' => Handed c' w' ∧
    (Nests c.workspace.trace c'.workspace.trace ∨ r = .error .fault ∧ Leaves c.workspace.trace c'.workspace.trace)

theorem Leaving.bind {x : Compile (StateM Watch) α} {f : α → Compile (StateM Watch) β} (hx : Leaving x) (hf : ∀ a, Leaving (f a)) :
    Leaving (x >>= f) := by
  intro c w hc
  refine ends_bind (hx c w hc) ?_ ?_
  · rintro a c' w' ⟨hc', hnests | ⟨hfault, -⟩⟩
    · apply (hf a c' w' hc').imp
      rintro r c'' w'' ⟨hc'', hnests' | ⟨hfault, hleaves⟩⟩
      · exact ⟨hc'', .inl (hnests.trans hnests')⟩
      · exact ⟨hc'', .inr ⟨hfault, hnests.trans_leaves hleaves⟩⟩
    · cases hfault
  · rintro e c' w' ⟨hc', hnests | ⟨hfault, hleaves⟩⟩
    · exact ⟨hc', .inl hnests⟩
    · cases hfault
      exact ⟨hc', .inr ⟨rfl, hleaves⟩⟩

theorem leaving_of_traces (x : Compile (StateM Watch) α) [h : Traces x] : Leaving x := by
  intro c w hc
  apply (h.ends c w hc).imp
  rintro r c' w' ⟨hc', hnests⟩
  exact ⟨hc', .inl hnests⟩

theorem leaving_stage {parent : Nat} {s : Stage} {work : Nat → Compile (StateM Watch) Report} (hwork : ∀ span, Contained (work span)) :
    Leaving (stage (Surroundings.watched load receiver cancel) parent s work) := by
  intro c w hc
  apply ends_stage
  · intro _
    exact ⟨hc, .inl (.refl _)⟩
  · intro _
    have hclock := nests_atStart c.workspace.trace
    have hopened : Handed (beginStage c parent s).2 (w.report receiver cancel { stage := s, status := .working }) := by
      obtain ⟨new, hnew⟩ := c.workspace.trace.atStart.exists_adds_begin .pass s.name parent
      exact hc.extend hnew.events_eq hnew.count_eq rfl (events_report _ _)
    apply (hwork _ _ _ hopened).imp
    rintro r c' w' ⟨⟨hc', hnests⟩, hfault⟩
    have hclock' := nests_atStart c'.workspace.trace
    have hclosed : ∀ note detail p, Handed (endStage c' s (beginStage c parent s).1 note detail) (w'.report receiver cancel p) ∧
        Nests c.workspace.trace (endStage c' s (beginStage c parent s).1 note detail).workspace.trace := by
      intro note detail p
      obtain ⟨new, hnew, hcount⟩ := c'.workspace.trace.atStart.exists_finish (beginStage c parent s).1 detail
      refine ⟨hc'.extend hnew hcount rfl (events_report _ _), hclock.trans ?_⟩
      exact .enclose ⟨rfl, rfl, rfl, rfl⟩ (hnests.trans hclock') detail
    have hleft : ∀ t, Nests (beginStage c parent s).2.workspace.trace t → Nests c.workspace.trace t ∨ Leaves c.workspace.trace t := by
      intro t ht
      exact ht.leave.imp hclock.trans hclock.trans_leaves
    rcases r with e | ⟨note, _ | _ | e⟩
    · obtain rfl : e = .fault := by
        cases e with
        | fault => rfl
        | error e => exact absurd rfl (hfault e)
      exact ⟨hc', (hleft _ hnests).imp_right fun h => ⟨rfl, h⟩⟩
    · obtain ⟨hdone, hnests⟩ := hclosed note note { stage := s, status := .done }
      exact ⟨hdone, .inl hnests⟩
    · exact ⟨hc'.nests hclock' rfl rfl, (hleft _ (hnests.trans hclock')).imp_right fun h => ⟨rfl, h⟩⟩
    · obtain ⟨hdone, hnests⟩ := hclosed note e.message { stage := s, status := .failed }
      exact ⟨hdone, .inl hnests⟩

theorem leaving_stages (req : Request) (parent : Nat) : Leaving (stages (Surroundings.watched load receiver cancel) req parent) := by
  unfold stages
  refine (leaving_stage fun _ => contained_reported _).bind fun _ => ?_
  refine Leaving.bind (x := modify _) (@leaving_of_traces _ _ (.modify fun _ => ⟨rfl, rfl⟩)) fun _ => ?_
  refine (leaving_stage fun _ => contained_layOut).bind fun _ => (leaving_stage fun _ => contained_reported _).bind fun _ => ?_
  refine (leaving_of_traces get).bind fun c => (leaving_of_traces (act _)).bind fun _ => ?_
  refine (leaving_stage fun _ => contained_reported _).bind fun _ => (leaving_stage contained_lower).bind fun _ => ?_
  exact (leaving_stage fun _ => contained_reported _).bind fun _ => leaving_stage fun _ => contained_emit

/-! ### Whole compilations -/

/-- How the events of a compilation at a level are bracketed: all of them, or all but the beginning of the span of a stage in which
the compilation has accessed something outside its data. -/
structure Traced (level : Level) (result : Outcome Error Unit) (events : List Event) : Prop where
  admitted : ∀ e ∈ events, (level.isOn && level.admits e.scope) = true
  distinct : (begun events).Nodup
  bracketed : Bracketed events ∨ result = .error .fault ∧ ∃ before b after,
    events = before ++ b :: after ∧ b.kind = .begin ∧ b.scope = .pass ∧ Bracketed (before ++ after)

theorem traced_nil (level : Level) (result : Outcome Error Unit) : Traced level result [] :=
  ⟨fun _ h => absurd h List.not_mem_nil, List.nodup_nil, .inl neutral_nil.bracketed⟩

theorem traced_of_ended {t t' : Recorder} {result : Outcome Error Unit} (ht : t.toList = [])
    (h : Nests t t' ∨ result = .error .fault ∧ Leaves t t') : Traced t.level result t'.toList := by
  have hdistinct : ∀ new, Adds t t' new → (begun new).Nodup := by
    intro new hadds
    rw [hadds.begun_eq]
    exact List.nodup_range'
  rcases h with ⟨new, hadds, hneutral⟩ | ⟨hfault, before, b, after, hadds, hb, hpass, hneutral⟩
  · rw [hadds.events_eq, ht]
    exact ⟨hadds.admitted, hdistinct _ hadds, .inl hneutral.bracketed⟩
  · rw [hadds.events_eq, ht]
    exact ⟨hadds.admitted, hdistinct _ hadds, .inr ⟨hfault, before, b, after, rfl, hb, hpass, hneutral.bracketed⟩⟩

/-- The events that a compilation hands on, whatever is asked for, whenever it is cancelled and however it ends: they are of scopes
that the level admits, every end closes the span that was begun last with the same data, and no span is left open. Only an access
outside the data leaves the span of a stage open. -/
theorem trace_bracketed (load : Text → Except ManifestError Manifest) (receiver : Bool) (cancel : Cancellation) (req : Option Request) :
    let ((result, _), w) := Compile.observe load receiver cancel req
    Traced ((req.map Request.trace).getD .off) result w.events := by
  have hsteps : Ends (steps (Surroundings.watched load receiver cancel) req) {} { cancelled := cancel == .beforehand }
      fun result _ w => Traced ((req.map Request.trace).getD .off) result w.events := by
    apply ends_steps
    · intro e _
      exact traced_nil _ _
    · rintro asked rfl
      let t : Recorder := ({ level := asked.trace } : Recorder).atStart
      have hstart : Handed (beginAll asked.trace).2 { cancelled := cancel == .beforehand } := by
        obtain ⟨new, hnew⟩ := t.exists_adds_begin .driver "compile" 0
        have hempty : Handed (Compilation.onTrace {} fun _ => t) { cancelled := cancel == .beforehand } :=
          ⟨rfl, List.nil_prefix, rfl⟩
        exact hempty.extend hnew.events_eq hnew.count_eq rfl rfl
      apply (leaving_stages asked _ _ _ hstart).imp
      rintro result c w ⟨hc, hended⟩
      let root := (beginAll asked.trace).1
      have hclosed : Handed (endAll c root) w := by
        obtain ⟨new, hnew, hcount⟩ := c.workspace.trace.exists_finish root []
        exact hc.extend hnew hcount rfl rfl
      rw [hclosed.handed_events]
      apply traced_of_ended (t := t) rfl
      rcases hended with hnests | ⟨hfault, hleaves⟩
      · exact .inl (hnests.enclose ⟨rfl, rfl, rfl, rfl⟩ [])
      · exact .inr ⟨hfault, hleaves.enclose ⟨rfl, rfl, rfl, rfl⟩ []⟩
  exact hsteps

/-- The span of a stage may stay open. -/
theorem reach_span_left_open :
    ∃ c w, observe (fun _ => .ok overlong) true .never (some { manifests := ["a.toml"], trace := .phase }) = ((.error .fault, c), w) ∧
      ¬Bracketed w.events := by
  obtain ⟨_, c, w, hobserve, rfl, -, hopen⟩ := ends_overlong.exists_observe
  exact ⟨c, w, hobserve, hopen⟩

end ClassAbi.Compile
