import ClassAbi.Compile.Watch
import ClassAbi.Proofs.Abi.Start
import ClassAbi.Proofs.Reach.Index
import ClassAbi.Proofs.Trace.Nesting

/-!
# Stages of a watched compilation

`Compile.Ends` says how a step of a watched compilation ends, whether it fails or not. What a stage does follows from what its
work does: `Compile.ends_stage` has one case for each way in which a stage can end. In one of them the stage is neither done nor
failed, and `Compile.ends_overlong` is a compilation that comes to that.
-/

namespace ClassAbi

open Trace

/-! ### What a stage changes -/

def Compilation.onTrace (c : Compilation) (f : Recorder → Recorder) : Compilation :=
  { c with workspace := { c.workspace with trace := f c.workspace.trace } }

def Compilation.note (c : Compilation) (stage : Stage) (note : Text) : Compilation :=
  { c with phases := c.phases ++ [⟨stage, 0, note⟩], timings := c.timings.set stage.name 0 }

/-- The compilation after its trace events have been handed on. -/
def Compilation.handed (c : Compilation) : Compilation := { c with traced := c.workspace.trace.count }

/-- The watcher after the trace events of a compilation have been handed on. -/
def Watch.handed (w : Watch) (c : Compilation) : Watch := { w with events := w.events ++ c.workspace.trace.toList.drop c.traced }

def Watch.report (w : Watch) (receiver : Bool) (cancel : Cancellation) (p : Progress) : Watch :=
  if receiver then
    { w with cancelled := w.cancelled || cancel == .during p.stage p.status, reports := p :: w.reports }
  else w

/-- The trace at a moment, where the clock stands still. -/
def Trace.Recorder.atStart (r : Recorder) : Recorder := { r with now := { r.now with micros := 0 } }

/-- The span of a stage, and the workspace in which it has been begun. -/
def Workspace.beginStage (w : Workspace) (parent : Nat) (s : Stage) : Span × Workspace :=
  ((w.trace.atStart.begin .pass s.name parent).1, { w with trace := (w.trace.atStart.begin .pass s.name parent).2 })

/-- The workspace in which the span of a stage has ended. -/
def Workspace.endStage (w : Workspace) (span : Span) (detail : Text) : Workspace :=
  { w with trace := w.trace.atStart.finish span detail }

namespace Compile

variable {α β : Type} {c : Compilation} {w : Watch}

/-- Whether a step from `c`, seen by the watcher `w`, ends with a result, a compilation and a watcher that satisfy `Q`. -/
def Ends (x : Compile (StateM Watch) α) (c : Compilation) (w : Watch) (Q : Outcome Error α → Compilation → Watch → Prop) : Prop :=
  Q (x c w).1.1 (x c w).1.2 (x c w).2

variable {x : Compile (StateM Watch) α} {f : α → Compile (StateM Watch) β} {Q : Outcome Error α → Compilation → Watch → Prop}
  {R : Outcome Error β → Compilation → Watch → Prop}

theorem Ends.imp {Q' : Outcome Error α → Compilation → Watch → Prop} (h : Ends x c w Q) (hQ : ∀ r c w, Q r c w → Q' r c w) :
    Ends x c w Q' := hQ _ _ _ h

theorem bind_apply_of_ok {σ : Type} {x : Compile (StateM σ) α} {f : α → Compile (StateM σ) β} {s s' : σ} {a : α} {c' : Compilation}
    (h : x c s = ((.ok a, c'), s')) : (x >>= f) c s = f a c' s' := by
  simp only [bind, ExceptT.bind, ExceptT.mk, StateT.bind, ExceptT.bindCont]
  rw [h]

theorem bind_apply_of_failure {σ : Type} {x : Compile (StateM σ) α} {f : α → Compile (StateM σ) β} {s s' : σ} {e : Failure Error}
    {c' : Compilation} (h : x c s = ((.error e, c'), s')) : (x >>= f) c s = ((.error e, c'), s') := by
  simp only [bind, ExceptT.bind, ExceptT.mk, StateT.bind, ExceptT.bindCont]
  rw [h]
  rfl

theorem ends_bind (hx : Ends x c w Q) (hok : ∀ a c' w', Q (.ok a) c' w' → Ends (f a) c' w' R)
    (herror : ∀ e c' w', Q (.error e) c' w' → R (.error e) c' w') : Ends (x >>= f) c w R := by
  rcases hrun : x c w with ⟨⟨e | a, c'⟩, w'⟩
  · rw [Ends, hrun] at hx
    rw [Ends, bind_apply_of_failure hrun]
    exact herror e c' w' hx
  · rw [Ends, hrun] at hx
    rw [Ends, bind_apply_of_ok hrun]
    exact hok a c' w' hx

theorem ends_bind_ok (a : α) (c' : Compilation) (w' : Watch) (hx : x c w = ((.ok a, c'), w')) (h : Ends (f a) c' w' R) :
    Ends (x >>= f) c w R := by
  rw [Ends, bind_apply_of_ok hx]
  exact h

theorem ends_bind_error (hx : Ends x c w fun r c' w' => ∃ e, r = .error e ∧ R (.error e) c' w') : Ends (x >>= f) c w R := by
  refine ends_bind hx ?_ ?_
  · rintro a c' w' ⟨e, he, -⟩
    cases he
  · rintro e c' w' ⟨_, ⟨⟩, h⟩
    exact h

theorem ends_act {action : Action α}
    (h : Q (action c.workspace).1 { c with workspace := (action c.workspace).2 } w) : Ends (act action) c w Q := h

theorem ends_attempt {Q : Outcome Error (Outcome Error α) → Compilation → Watch → Prop}
    (h : Ends x c w fun r => Q (.ok r)) : Ends (attempt x) c w Q := h

theorem attempt_apply {σ : Type} {x : Compile (StateM σ) α} {s s' : σ} {r : Outcome Error α} {c' : Compilation}
    (hrun : x c s = ((r, c'), s')) : attempt x c s = ((.ok r, c'), s') := by
  unfold attempt
  simp only [bind, StateT.bind]
  rw [hrun]
  rfl

theorem act_apply {σ : Type} {action : Action α} {a : α} {v : Workspace} {s : σ} (h : Finishes action c.workspace a v) :
    (act action : Compile (StateM σ) α) c s = ((.ok a, { c with workspace := v }), s) := by
  unfold act
  rw [h]
  rfl

theorem ends_reported {step : Compile (StateM Watch) Text} {Q : Outcome Error Report → Compilation → Watch → Prop}
    (h : Ends step c w fun r c' w' => Q (.ok (match r with
      | .ok note => { note }
      | .error failure => { failure := some failure })) c' w') : Ends (reported step) c w Q := by
  rcases hrun : step c w with ⟨⟨e | note, c'⟩, w'⟩
  · rw [Ends, hrun] at h
    exact ends_bind_ok (.error e) c' w' (attempt_apply hrun) h
  · rw [Ends, hrun] at h
    exact ends_bind_ok (.ok note) c' w' (attempt_apply hrun) h

/-! ### Stages -/

section

variable {load : Text → Except ManifestError Manifest} {receiver : Bool} {cancel : Cancellation} {parent : Nat} {s : Stage}
  {work : Nat → Compile (StateM Watch) Report} {Q : Outcome Error Unit → Compilation → Watch → Prop}

/-- The span of a stage, and the compilation in which it has been begun. -/
def beginStage (c : Compilation) (parent : Nat) (s : Stage) : Span × Compilation :=
  ((c.workspace.beginStage parent s).1, { c with workspace := (c.workspace.beginStage parent s).2 })

/-- The compilation after the work of a stage, with the end of its span. -/
def endStage (c : Compilation) (s : Stage) (span : Span) (note detail : Text) : Compilation :=
  { c.note s note with workspace := c.workspace.endStage span detail }

def AfterWork (receiver : Bool) (cancel : Cancellation) (s : Stage) (span : Span) (Q : Outcome Error Unit → Compilation → Watch → Prop) :
    Outcome Error Report → Compilation → Watch → Prop
  | .error e, c, w => Q (.error e) c w
  | .ok ⟨note, none⟩, c, w => Q (.ok ()) (endStage c s span note note) (w.report receiver cancel { stage := s, status := .done })
  | .ok ⟨note, some .fault⟩, c, w => Q (.error .fault) ((c.onTrace Recorder.atStart).note s note) w
  | .ok ⟨note, some (.error e)⟩, c, w =>
    Q (.error (.error (.within (.stage s.name) e))) (endStage c s span note e.message)
      (w.report receiver cancel { stage := s, status := .failed })

theorem ends_stage (hcancelled : w.cancelled = true → Q (.error (.error .cancelled)) c w)
    (hwork : w.cancelled = false → Ends (work (beginStage c parent s).1.id) (beginStage c parent s).2
      (w.report receiver cancel { stage := s, status := .working }) (AfterWork receiver cancel s (beginStage c parent s).1 Q)) :
    Ends (stage (Surroundings.watched load receiver cancel) parent s work) c w Q := by
  cases hw : w.cancelled with
  | true =>
    refine ends_bind_ok true c w (by rw [← hw]; rfl) ?_
    exact hcancelled hw
  | false =>
    refine ends_bind_ok false c w (by rw [← hw]; rfl) ?_
    refine ends_bind_ok 0 (c.onTrace Recorder.atStart) w rfl ?_
    refine ends_bind_ok (beginStage c parent s).1 (beginStage c parent s).2 w rfl ?_
    refine ends_bind_ok () (beginStage c parent s).2
      (w.report receiver cancel { stage := s, status := .working }) (by cases receiver <;> rfl) ?_
    refine ends_bind (hwork hw) ?_ ?_
    · intro report c' w' hafter
      obtain ⟨note, failure⟩ := report
      refine ends_bind_ok 0 (c'.onTrace Recorder.atStart) w' rfl ?_
      refine ends_bind_ok ⟨⟩ ((c'.onTrace Recorder.atStart).note s note) w' rfl ?_
      rcases failure with _ | _ | e
      · cases receiver <;> exact hafter
      · exact hafter
      · cases receiver <;> exact hafter
    · intro e c' w' hafter
      exact hafter

/-! ### Whole compilations -/

/-- The span of a compilation, and the compilation in which it has been begun. -/
def beginAll (level : Level) : Span × Compilation :=
  ((({ level } : Recorder).atStart.begin .driver "compile" 0).1,
    Compilation.onTrace {} fun t => ({ t with level }.atStart.begin .driver "compile" 0).2)

def endAll (c : Compilation) (root : Span) : Compilation := c.onTrace fun t => t.finish root []

theorem ends_steps {req : Option Request}
    (habsent : ∀ e, (∀ asked, req = some asked → asked.manifests = []) → Q (.error (.error e)) {} w)
    (hstages : ∀ asked, req = some asked →
      Ends (stages (Surroundings.watched load receiver cancel) asked (beginAll asked.trace).1.id) (beginAll asked.trace).2 w
        fun r c' w' => Q r (endAll c' (beginAll asked.trace).1).handed (w'.handed (endAll c' (beginAll asked.trace).1))) :
    Ends (steps (Surroundings.watched load receiver cancel) req) {} w Q := by
  cases req with
  | none => exact habsent _ nofun
  | some req =>
    have hrest := hstages req rfl
    unfold steps
    dsimp only
    by_cases hempty : req.manifests.isEmpty = true
    · rw [if_pos hempty]
      exact habsent _ fun _ h => Option.some.inj h ▸ List.isEmpty_iff.1 hempty
    · rw [if_neg hempty]
      refine ends_bind_ok () (Compilation.onTrace {} fun t => { t with level := req.trace }) w rfl ?_
      refine ends_bind_ok () (Compilation.onTrace {} fun t => { t with level := req.trace }.atStart) w rfl ?_
      refine ends_bind_ok (beginAll req.trace).1 (beginAll req.trace).2 w rfl ?_
      revert hrest
      generalize (beginAll req.trace).1 = root
      generalize (beginAll req.trace).2 = c
      intro hrest
      rcases hrun : stages (Surroundings.watched load receiver cancel) req root.id c w with ⟨⟨result, c'⟩, w'⟩
      rw [Ends, hrun] at hrest
      refine ends_bind_ok result c' w' (attempt_apply hrun) ?_
      refine ends_bind_ok () (endAll c' root) w' rfl ?_
      exact ends_bind_ok () (endAll c' root).handed (w'.handed (endAll c' root)) rfl hrest

theorem Ends.exists_observe {req : Option Request}
    (h : Ends (steps (Surroundings.watched load receiver cancel) req) {} { cancelled := cancel == .beforehand } Q) :
    ∃ result c w, observe load receiver cancel req = ((result, c), w) ∧ Q result c w := ⟨_, _, _, rfl, h⟩

theorem exists_contents_of_emitModule {v : Workspace} {text : Text} (h : (emitModule v).1 = .ok text) :
    ∃ contents known, Finishes (Module.Source.contents ⟨v.program, v.target⟩) v.layouts contents known ∧ text = contents.text := by
  have hemit : Finishes (v.program.emit v.target) v.layouts text (v.program.emit v.target v.layouts).2 :=
    Prod.ext (mapError_eq_ok_iff.1 h) rfl
  obtain ⟨contents, known, hcontents, hpure⟩ := finishes_bind_iff.1 hemit
  exact ⟨contents, known, hcontents, (finishes_pure_iff.1 hpure).1.symm⟩

/-! ### A stage that does not end -/

theorem ends_reach_of_fault (h : Reach.build c.workspace.target.decoration c.workspace = (.error .fault, c.workspace)) :
    Ends (reported reach) c w fun r c' w' => r = .ok { failure := some .fault } ∧ c' = c ∧ w' = w := by
  apply ends_reported
  refine ends_bind_ok c c w rfl ?_
  apply ends_bind_error
  apply ends_act
  rw [h]
  exact ⟨.fault, rfl, rfl, rfl, rfl⟩

/-- The classes of the runtime, with nothing in them and only declared. -/
def bareRuntime : Manifest where
  classes := { name := Abi.rootClass, external := true } ::
    ["java/lang/Class", "java/lang/String", "java/lang/CharSequence", "java/lang/Comparable", "java/lang/Runnable"].map
      fun name => { name, super := Abi.rootClass, external := true }

/-- A class with an initializer whose name is read past its end. -/
def overlong : Manifest where
  classes := bareRuntime.classes ++
    [{ name := Reach.overlongName, super := Abi.rootClass
       methods := [{ name := "<clinit>", descriptor := "()V", access := ["static"] }] }]

set_option maxRecDepth 10000 in
/-- The stage of the index is reported as begun only, and its span stays open. -/
theorem ends_overlong :
    Ends (steps (Surroundings.watched (fun _ => .ok overlong) true .never) (some { manifests := ["a.toml"], trace := .phase })) {}
      { cancelled := Cancellation.never == .beforehand } fun result _ w => result = .error .fault ∧
        w.reports.reverse = (Stage.all.take 5).flatMap (fun stage => [{ stage, status := .working }, { stage, status := .done }]) ++
          [{ stage := .reach, status := .working }] ∧ ¬Bracketed w.events := by
  apply ends_steps
  · intro e h
    cases h _ rfl
  rintro _ ⟨⟩
  -- Each stage is run by itself, and a start in two parts.
  refine ends_bind_ok () _ _ (by conv_lhs => cbv) ?_
  refine ends_bind_ok _ _ _ rfl ?_
  refine ends_bind_ok () _ _ (by conv_lhs => cbv) ?_
  refine ends_bind_ok () _ _ (by conv_lhs => cbv) ?_
  refine ends_bind_ok _ _ _ rfl ?_
  refine ends_bind_ok () _ _ (act_apply (Abi.finishes_start (by cbv) (by cbv) (by unfold Finishes; conv_lhs => cbv)
    (by unfold Finishes; conv_lhs => cbv))) ?_
  refine ends_bind_ok () _ _ (by conv_lhs => cbv) ?_
  refine ends_bind_ok () _ _ (by conv_lhs => cbv) ?_
  refine ends_bind_error (ends_stage (fun h => absurd h Bool.false_ne_true) fun _ => (ends_reach_of_fault ?build).imp ?_)
  case build =>
    refine @Reach.build_of_fault _ _ _ (by conv_lhs => cbv) ?descriptors [] _ _ (by (conv_lhs => cbv); rfl) (by simp) ?recognized
      ?fault
    case descriptors =>
      intro c hc
      fin_cases hc <;> exact ⟨_, _, rfl, rfl⟩
    case recognized => exact ⟨by decide, by decide +kernel⟩
    case fault => exact (congrArg (LinkerName.initializerClass · []) (by cbv)).trans Reach.initializerClass_overlong
  rintro _ _ _ ⟨rfl, rfl, rfl⟩
  exact ⟨.fault, rfl, rfl, rfl, by decide⟩

end

end Compile

end ClassAbi
