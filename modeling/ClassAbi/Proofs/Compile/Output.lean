import ClassAbi.Compile.Output
import ClassAbi.Files.World
import ClassAbi.Proofs.Compile.Stage
import ClassAbi.Proofs.Files.Seen

/-!
# Output files of failed builds

A build that fails leaves the module of an earlier build alone, and its index too, with one exception: if the module cannot be
put in its place after the index has been, then there is no index afterwards, whether there was one before or not.
-/

namespace ClassAbi

open FilePlace ClassAbi.Path FileTree

/-! ### Putting a file in its place -/

/-- Whether what is seen at the paths of a directory stays the same, except for some names and those of temporary files. -/
structure FileTree.Spares (dir : FilePlace) (changed : Text → Prop) (t t' : FileTree) : Prop where
  sound : t.Sound → t'.Sound
  see_eq : t.Sound → ∀ {path parts name}, LeadsTo path parts name → Path.place path = name :: dir → name.getLast? ≠ some star →
    ¬changed name → t'.see path = t.see path

variable {t t' t'' : FileTree} {dir : FilePlace} {changed : Text → Prop} {path name content : Text} {parts : List Text}

theorem FileTree.Spares.trans (h : Spares dir changed t t') (h' : Spares dir changed t' t'') : Spares dir changed t t'' where
  sound hsound := h'.sound (h.sound hsound)
  see_eq hsound _ _ _ hleads hplace hstar hname :=
    (h'.see_eq (h.sound hsound) hleads hplace hstar hname).trans (h.see_eq hsound hleads hplace hstar hname)

theorem FileTree.Grown.spares (h : Grown (· <:+ dir) t t') : Spares dir changed t t' where
  sound := h.sound
  see_eq _ _ _ _ hleads hplace _ _ := h.see_eq hleads hplace

theorem FileTree.Swaps.spares {names : Text → Prop} (h : Swaps dir names t t')
    (hnames : ∀ name, names name → name.getLast? = some star ∨ changed name) : Spares dir changed t t' where
  sound := h.sound
  see_eq hsound _ _ _ hleads hplace hstar hname :=
    h.see_eq hsound hleads hplace fun hnamed => (hnames _ hnamed).elim hstar hname

theorem state_bind_apply {σ α β : Type} {x : StateM σ α} {f : α → StateM σ β} {s s' : σ} {a : α} (h : x s = (a, s')) :
    (x >>= f) s = f a s' := by
  show f (x s).1 (x s).2 = _
  rw [h]

theorem onFiles_of_ok {α : Type} {f : FileTree → Except FileError (α × FileTree)} {w : World} {a : α} (h : f w.files = .ok (a, t)) :
    World.onFiles f w = (.ok a, { w with files := t }) := by
  simp only [World.onFiles, modifyGet, MonadStateOf.modifyGet, StateT.modifyGet, h]
  rfl

theorem onFiles_of_error {α : Type} {f : FileTree → Except FileError (α × FileTree)} {w : World} {e : FileError}
    (h : f w.files = .error e) : World.onFiles f w = (.error e, w) := by
  simp only [World.onFiles, modifyGet, MonadStateOf.modifyGet, StateT.modifyGet, h]
  rfl

theorem writeAtomically_apply (path content : Text) (w : World) :
    (writeAtomically path content : StateM World (Except FileError Unit)) w =
      match w.files.makeDirectory (directory path) with
      | (.error e, t1) => (.error e, { w with files := t1 })
      | (.ok _, t1) =>
        match t1.makeTemporary (directory path) content with
        | .error e => (.error e, { w with files := t1 })
        | .ok (temporary, t2) =>
          match t2.rename temporary path with
          | .ok t3 => (.ok (), { w with files := t3 })
          | .error e => (.error e, { w with files := t2.remove temporary }) := by
  have hdirectory : (Host.makeDirectory (directory path) : StateM World (Except FileError Unit)) w =
    ((w.files.makeDirectory (directory path)).1, { w with files := (w.files.makeDirectory (directory path)).2 }) := rfl
  rw [writeAtomically, state_bind_apply hdirectory]
  rcases w.files.makeDirectory (directory path) with ⟨e | _, t1⟩
  · rfl
  dsimp only
  rcases hmade : t1.makeTemporary (directory path) content with e | ⟨temporary, t2⟩
  · exact state_bind_apply (onFiles_of_error (f := fun t => t.makeTemporary (directory path) content) (w := { w with files := t1 }) hmade)
  refine (state_bind_apply
    (onFiles_of_ok (f := fun t => t.makeTemporary (directory path) content) (w := { w with files := t1 }) hmade)).trans ?_
  dsimp only
  rcases hrenamed : t2.rename temporary path with e | t3
  · exact state_bind_apply (onFiles_of_error (f := fun t => (t.rename temporary path).map ((), ·)) (w := { w with files := t2 })
      (by rw [hrenamed]; rfl))
  · exact state_bind_apply (onFiles_of_ok (f := fun t => (t.rename temporary path).map ((), ·)) (w := { w with files := t2 })
      (by rw [hrenamed]; rfl))

/-- A file whose name is not that of a temporary file is seen with its content once it could be put in its place, and otherwise
nothing but temporary files has changed in its directory. -/
theorem writeAtomically_cases (hleads : LeadsTo path parts name) (hplace : Path.place path = name :: Path.place (directory path))
    (content : Text) (w : World) :
    ∃ r t', (writeAtomically path content : StateM World (Except FileError Unit)) w = (r, { w with files := t' }) ∧
      match r with
      | .ok _ => t'.see path = .file content ∧ Spares (Path.place (directory path)) (· = name) w.files t'
      | .error _ => Spares (Path.place (directory path)) (fun _ => False) w.files t' := by
  have hgrown : Grown (· <:+ Path.place (directory path)) w.files (w.files.makeDirectory (directory path)).2 :=
    grown_makeDirectory_clean w.files (front path)
  have hd : directory path ≠ [] := clean_ne_nil _
  rw [writeAtomically_apply]
  rcases hmade : w.files.makeDirectory (directory path) with ⟨e | _, t1⟩
  · rw [hmade] at hgrown
    exact ⟨.error e, t1, rfl, hgrown.spares⟩
  rw [hmade] at hgrown
  dsimp only at hgrown ⊢
  rcases makeTemporary_cases hd t1 content with ⟨e, htemporary⟩ | ⟨new, hnew, hnewStar, htemporary, hdir, hnone⟩
  · exact ⟨.error e, t1, by rw [htemporary], hgrown.spares⟩
  have hnewLeads : LeadsTo (inDirectory (directory path) new) (trail (directory path)) new := by
    refine leadsTo_inDirectory hnew ?_
    rintro rfl
    cases hnewStar
  have hnewPlace : Path.place (inDirectory (directory path) new) = new :: Path.place (directory path) := by
    refine place_inDirectory hd hnew.noSlash ?_ hnew.notDots
    rintro rfl
    cases hnewStar
  obtain ⟨hadded, hkind⟩ := swaps_addFile hnew hdir hnone content
  have hlt : t1.contents.size < (t1.addFile (new :: Path.place (directory path)) content).contents.size := by
    show _ < (t1.contents.push content).size
    simp
  rcases rename_cases hnewLeads hleads hnewPlace hplace hkind hlt with ⟨e, hrename⟩ | ⟨t3, hrename, hswaps, hsee⟩
  · refine ⟨.error e, _, by rw [htemporary]; dsimp only; rw [hrename], ?_⟩
    have hremoved := swaps_remove hnewLeads hnewPlace (t1.addFile (new :: Path.place (directory path)) content)
    exact hgrown.spares.trans ((hadded.trans hremoved).spares fun y hy => .inl (hy ▸ hnewStar))
  · refine ⟨.ok (), t3, by rw [htemporary]; dsimp only; rw [hrename], ?_, ?_⟩
    · rw [hsee]
      show Seen.file ((t1.contents.push content)[t1.contents.size]?.getD []) = _
      simp
    · refine hgrown.spares.trans (((hadded.mono fun y hy => .inl hy).trans hswaps).spares ?_)
      rintro y (rfl | rfl)
      · exact .inl hnewStar
      · exact .inr rfl

/-! ### Both files -/

theorem leadsTo_output {base ext : Text} (hslash : slash ∉ ext) (hdots : isDots (lastPart base ++ ext) = false) (hne : ext ≠ []) :
    LeadsTo (base ++ ext) (trail (front base)) (lastPart base ++ ext) ∧
      Path.place (base ++ ext) = (lastPart base ++ ext) :: Path.place (directory (base ++ ext)) ∧
      directory (base ++ ext) = clean (front base) := by
  have hlast := lastPart_append hslash base
  have hlastNe : lastPart (base ++ ext) ≠ [] := by simp [hlast, hne]
  have hname : Text.IsName (lastPart base ++ ext) := ⟨hdots, hlast ▸ not_mem_lastPart (base ++ ext)⟩
  refine ⟨⟨?_, hname, fun hend => ?_⟩, ?_, directory_append hslash base⟩
  · rw [trail_eq_front hlastNe, hlast, front_append hslash]
  · rw [List.getLast?_append_of_ne_nil _ hne] at hend
    exact hslash (List.mem_of_getLast? hend)
  · rw [place_eq_cons hlastNe (by rw [hlast]; exact hdots), hlast]

theorem isDots_of_getLast? {b : UInt8} (h : name.getLast? = some b) (hb : b ≠ 0x2E) : isDots name = false := by
  rw [isDots, Bool.or_eq_false_iff, beq_eq_false_iff_ne, beq_eq_false_iff_ne]
  constructor
  · rintro rfl
    exact hb (Option.some.inj h).symm
  · rintro rfl
    exact hb (Option.some.inj h).symm

/-- What is seen of the output files after an error while they were written. -/
def Outputs.Left (o : Outputs) (e : OutputError) (t t' : FileTree) : Prop :=
  t'.see o.modulePath = t.see o.modulePath ∧
    match e with
    | .index _ => t'.see o.indexPath = t.see o.indexPath
    | .module _ => t'.see o.indexPath = if o.index then .nothing else t.see o.indexPath

/-- What is known of the path of an output file: the name in the directory of all of them, which no temporary file has. -/
structure Outputs.IsPathOf (o : Outputs) (path name : Text) : Prop where
  leadsTo : LeadsTo path (trail (front o.base)) name
  directory_eq : directory path = clean (front o.base)
  place_eq : Path.place path = name :: Path.place (clean (front o.base))
  notTemporary : name.getLast? ≠ some star

theorem Outputs.isPathOf {o : Outputs} {ext : Text} {b : UInt8} (hslash : slash ∉ ext) (hlast : ext.getLast? = some b)
    (hdot : b ≠ 0x2E) (hstar : b ≠ star) : o.IsPathOf (o.base ++ ext) (lastPart o.base ++ ext) := by
  have hne : ext ≠ [] := by
    rintro rfl
    cases hlast
  have hend : (lastPart o.base ++ ext).getLast? = some b := (List.getLast?_append_of_ne_nil _ hne).trans hlast
  obtain ⟨hleads, hplace, hdir⟩ := leadsTo_output hslash (isDots_of_getLast? hend hdot) hne
  exact ⟨hleads, hdir, hdir ▸ hplace, by rw [hend]; simpa using hstar⟩

theorem Outputs.isPathOf_module (o : Outputs) : o.IsPathOf o.modulePath (lastPart o.base ++ ".ll") :=
  isPathOf (by decide) rfl (by decide) (by decide)

theorem Outputs.isPathOf_index (o : Outputs) : o.IsPathOf o.indexPath (lastPart o.base ++ ".rta") :=
  isPathOf (by decide) rfl (by decide) (by decide)

theorem Outputs.IsPathOf.write {o : Outputs} (h : o.IsPathOf path name) (content : Text) (w : World) :
    ∃ r t', (writeAtomically path content : StateM World (Except FileError Unit)) w = (r, { w with files := t' }) ∧
      match r with
      | .ok _ => t'.see path = .file content ∧ Spares (Path.place (clean (front o.base))) (· = name) w.files t'
      | .error _ => Spares (Path.place (clean (front o.base))) (fun _ => False) w.files t' := by
  have hcases := writeAtomically_cases h.leadsTo (by rw [h.place_eq, h.directory_eq]) content w
  rwa [h.directory_eq] at hcases

theorem Outputs.IsPathOf.see_eq {o : Outputs} (h : o.IsPathOf path name)
    (hspares : Spares (Path.place (clean (front o.base))) changed t t') (hsound : t.Sound) (hname : ¬changed name) :
    t'.see path = t.see path := hspares.see_eq hsound h.leadsTo h.place_eq h.notTemporary hname

/-- Writing the output files changes nothing but files, and after an error the module is seen as before. An index that was
written before the module could not be is gone, with the one that it had replaced. -/
theorem writeOutputs_cases (o : Outputs) (c : Compilation) {w : World} (hsound : w.files.Sound) :
    ∃ r t', (writeOutputs o c : StateM World (Except OutputError Unit)) w = (r, { w with files := t' }) ∧
      ∀ e, r = .error e → o.Left e w.files t' := by
  have hmodule := o.isPathOf_module
  have hindex := o.isPathOf_index
  have hne : lastPart o.base ++ Text.ofString ".ll" ≠ lastPart o.base ++ Text.ofString ".rta" :=
    fun h => absurd (List.append_cancel_left h) (by decide)
  rw [writeOutputs]
  by_cases hasked : o.index = true
  swap
  · simp only [if_neg hasked]
    obtain ⟨e | _, t', hrun, hr⟩ := hmodule.write c.module w
    · refine ⟨.error (.module e), t', state_bind_apply hrun, ?_⟩
      rintro _ ⟨⟩
      refine ⟨hmodule.see_eq hr hsound id, ?_⟩
      rw [if_neg hasked]
      exact hindex.see_eq hr hsound id
    · exact ⟨.ok (), t', state_bind_apply hrun, nofun⟩
  simp only [if_pos hasked]
  obtain ⟨e | _, t1, hrun1, h1⟩ := hindex.write ((c.snapshot.map Reach.Snapshot.encode).getD []) w
  · refine ⟨.error (.index e), t1, state_bind_apply hrun1, ?_⟩
    rintro _ ⟨⟩
    exact ⟨hmodule.see_eq h1 hsound id, hindex.see_eq h1 hsound id⟩
  obtain ⟨hwritten, hspares1⟩ := h1
  have hsound1 : t1.Sound := hspares1.sound hsound
  obtain ⟨e | _, t2, hrun2, h2⟩ := hmodule.write c.module { w with files := t1 }
  swap
  · exact ⟨.ok (), t2, (state_bind_apply hrun1).trans (state_bind_apply hrun2), nofun⟩
  have hsound2 : t2.Sound := h2.sound hsound1
  have hseen : t2.see o.indexPath = .file ((c.snapshot.map Reach.Snapshot.encode).getD []) :=
    (hindex.see_eq h2 hsound1 id).trans hwritten
  have hremoved : Spares (Path.place (clean (front o.base))) (· = lastPart o.base ++ Text.ofString ".rta") t2
      (t2.remove o.indexPath) := (swaps_remove hindex.leadsTo hindex.place_eq t2).spares fun _ => .inr
  refine ⟨.error (.module e), t2.remove o.indexPath, (state_bind_apply hrun1).trans (state_bind_apply hrun2), ?_⟩
  rintro _ ⟨⟩
  constructor
  · calc (t2.remove o.indexPath).see o.modulePath
      _ = t2.see o.modulePath := hmodule.see_eq hremoved hsound2 hne
      _ = t1.see o.modulePath := hmodule.see_eq h2 hsound1 id
      _ = w.files.see o.modulePath := hmodule.see_eq hspares1 hsound hne
  · rw [if_pos hasked]
    exact see_remove hindex.leadsTo hseen

/-! ### The compilation before -/

/-- Whether surroundings leave the files alone. -/
structure Surroundings.SparesFiles (s : Surroundings (StateM World)) : Prop where
  load : ∀ path w, (s.load path w).2.files = w.files
  now : ∀ w, (s.now w).2.files = w.files
  notify : ∀ p w, (s.notify p w).2.files = w.files
  trace : ∀ events w, (s.trace events w).2.files = w.files
  cancelled : ∀ w, (s.cancelled w).2.files = w.files

theorem sparesFiles_ofHost {notify : Progress → StateM World Unit} {trace : List Trace.Event → StateM World Unit}
    (hnotify : ∀ p w, (notify p w).2.files = w.files) (htrace : ∀ events w, (trace events w).2.files = w.files) :
    (Surroundings.ofHost notify trace).SparesFiles where
  load path w := by
    show ((loadManifest path : StateM World (Except ManifestError Manifest)) w).2.files = _
    have hread : (Host.readFile path : StateM World (Except FileError Text)) w = (w.files.read path, w) := rfl
    rw [loadManifest, state_bind_apply hread]
    cases w.files.read path <;> rfl
  now _ := rfl
  notify := hnotify
  trace := htrace
  cancelled _ := rfl

namespace Compile

variable {α β : Type} {s : Surroundings (StateM World)} {x y : Compile (StateM World) α} {f : α → Compile (StateM World) β}

/-- Steps that leave the files alone. -/
class Leaves (x : Compile (StateM World) α) : Prop where
  files_eq : ∀ c w, (x c w).2.files = w.files

instance (a : α) : Leaves (pure a) := ⟨fun _ _ => rfl⟩

instance (e : Failure Error) : Leaves (throw e : Compile (StateM World) α) := ⟨fun _ _ => rfl⟩

instance : Leaves get := ⟨fun _ _ => rfl⟩

instance (g : Compilation → Compilation) : Leaves (modify g) := ⟨fun _ _ => rfl⟩

instance (action : Action α) : Leaves (act action) := ⟨fun _ _ => rfl⟩

instance (g : Trace.Recorder → α × Trace.Recorder) : Leaves (onTrace g) := inferInstanceAs (Leaves (act _))

theorem Leaves.bind [hx : Leaves x] (hf : ∀ a, Leaves (f a)) : Leaves (x >>= f) where
  files_eq c w := by
    have hfiles := hx.files_eq c w
    rcases hrun : x c w with ⟨⟨e | a, c'⟩, w'⟩ <;> rw [hrun] at hfiles
    · rw [bind_apply_of_failure hrun]
      exact hfiles
    · rw [bind_apply_of_ok hrun, (hf a).files_eq]
      exact hfiles

instance [Leaves x] [hf : ∀ a, Leaves (f a)] : Leaves (x >>= f) := .bind hf

instance {p : Prop} [Decidable p] [Leaves x] [Leaves y] : Leaves (if p then x else y) := by split <;> infer_instance

instance [hx : Leaves x] : Leaves (attempt x) := ⟨hx.files_eq⟩

instance {x : Compile (StateM World) Text} [Leaves x] : Leaves (reported x) :=
  .bind fun r => by cases r <;> infer_instance

section

variable [hs : Fact s.SparesFiles]

instance (path : Text) : Leaves (liftM (s.load path)) := ⟨fun _ => hs.out.load path⟩

instance : Leaves (liftM s.now) := ⟨fun _ => hs.out.now⟩

instance (p : Progress) : Leaves (liftM (s.notify p)) := ⟨fun _ => hs.out.notify p⟩

instance (events : List Trace.Event) : Leaves (liftM (s.trace events)) := ⟨fun _ => hs.out.trace events⟩

instance : Leaves (liftM s.cancelled) := ⟨fun _ => hs.out.cancelled⟩

instance : Leaves (readClock s) := by
  unfold readClock
  infer_instance

instance : Leaves (discard (readClock s)) := inferInstanceAs (Leaves (readClock s >>= fun _ => pure ()))

instance : Leaves (handOn s) := by
  unfold handOn
  infer_instance

instance (parent : Nat) (stage : Stage) (work : Nat → Compile (StateM World) Report) [∀ span, Leaves (work span)] :
    Leaves (Compile.stage s parent stage work) := .bind fun _ => by
  dsimp only
  split
  · refine .bind fun _ => ?_
    iterate 6 refine .bind fun _ => ?_
    split <;> infer_instance
  · iterate 6 refine .bind fun _ => ?_
    split <;> infer_instance

instance (paths : List Text) : Leaves (readAll s paths) := by
  induction paths with
  | nil => exact inferInstanceAs (Leaves (pure []))
  | cons path paths ih => exact .bind fun r => by cases r <;> infer_instance

instance (req : Request) : Leaves (load s req) := .bind fun _ => by
  dsimp only
  split <;> iterate 7 refine .bind fun _ => ?_
  all_goals infer_instance

instance : Leaves emit := .bind fun r => by cases r <;> infer_instance

instance (span : Nat) : Leaves (lower s span) := by
  unfold lower
  infer_instance

instance (req : Request) (parent : Nat) : Leaves (stages s req parent) := by
  unfold stages layOut dispatch describe reach
  iterate 7 refine .bind fun _ => ?_
  infer_instance

end

theorem run_files (hs : s.SparesFiles) (req : Option Request) (w : World) : (run s req w).2.files = w.files := by
  have := Fact.mk hs
  have hresult : ∀ r, Leaves (ExceptT.mk (pure r) : Compile (StateM World) Unit) := fun _ => ⟨fun _ _ => rfl⟩
  suffices Leaves (steps s req) from this.files_eq {} w
  cases req with
  | none => exact inferInstanceAs (Leaves (throw _))
  | some req =>
    unfold steps
    dsimp only
    split <;> iterate 4 refine .bind fun _ => ?_
    all_goals infer_instance

end Compile

/-! ### Failed builds -/

/-- Whether a build failed as the module could not be written. -/
def BuildError.isModule : Failure BuildError → Bool
  | .error (.output (.module _)) => true
  | _ => false

/-- A build that fails leaves what is seen at the paths of its output files as it was, whatever was there, with one exception:
if the index was asked for and the module could not be written, there is no index. If it did not come to writing them, no file
has changed. -/
theorem files_of_failed_build {s : Surroundings (StateM World)} (hs : s.SparesFiles) (req : BuildRequest) {w : World}
    (hsound : w.files.Sound) :
    match Compile.build s req w with
    | ((.ok _, _), _) => True
    | ((.error e, c, outputs), w') =>
      let o : Outputs := ⟨outputBase req.output c.build.output req.manifests, req.index⟩
      w'.files.see o.modulePath = w.files.see o.modulePath ∧
        w'.files.see o.indexPath = (if req.index && BuildError.isModule e then .nothing else w.files.see o.indexPath) ∧
        (outputs = none → w'.files = w.files) := by
  have hrunFiles := Compile.run_files hs (some req.toRequest) w
  rcases hrun : Compile.run s (some req.toRequest) w with ⟨⟨r, c⟩, w1⟩
  rw [hrun] at hrunFiles
  rw [Compile.build, state_bind_apply hrun]
  have hsee (path : Text) : w1.files.see path = w.files.see path := congrArg (·.see path) hrunFiles
  rcases r with (_ | e) | _
  · refine ⟨hsee _, (hsee _).trans ?_, fun _ => hrunFiles⟩
    simp [BuildError.isModule]
  · refine ⟨hsee _, (hsee _).trans ?_, fun _ => hrunFiles⟩
    simp [BuildError.isModule]
  dsimp only
  obtain ⟨r, t', hwrite, hleft⟩ :=
    writeOutputs_cases ⟨outputBase req.output c.build.output req.manifests, req.index⟩ c (hrunFiles ▸ hsound : w1.files.Sound)
  rw [state_bind_apply hwrite]
  cases r with
  | ok _ => trivial
  | error e =>
    obtain ⟨hmodule, hindex⟩ := hleft e rfl
    refine ⟨hmodule.trans (hsee _), ?_, nofun⟩
    cases e with
    | index cause => exact (hindex.trans (hsee _)).trans (by simp [BuildError.isModule])
    | module cause =>
      refine Eq.trans hindex ?_
      rw [hsee]
      simp [BuildError.isModule]

/-! ### A build that fails while it writes -/

open Compile

/-- A machine with an index of an earlier build, and with a directory that stands in the way of the module. -/
def obstructed : World where
  files := { root := [("out.rta", .file 0), ("out.ll", .directory [("x", .file 1)])], contents := #["old", "y"] }

theorem sound_obstructed : obstructed.files.Sound := sound_of_files (by decide)

/-- Surroundings in which every manifest has the classes of the runtime only, and in which nobody is told anything. -/
def unheard : Surroundings (StateM World) :=
  { Surroundings.ofHost (fun _ => pure ()) fun _ => pure () with load := fun _ => pure (.ok bareRuntime) }

theorem sparesFiles_unheard : unheard.SparesFiles :=
  { sparesFiles_ofHost (fun _ _ => rfl) fun _ _ => rfl with load := fun _ _ => rfl }

set_option maxRecDepth 10000 in
theorem exists_stages_unheard :
    ∃ c', Compile.stages unheard { manifests := ["a.toml"] } 0 {} obstructed = ((.ok (), c'), obstructed) := by
  refine ⟨?_, ?run⟩
  case run =>
    refine (bind_apply_of_ok (by conv_lhs => cbv)).trans ?_
    refine (bind_apply_of_ok rfl).trans ?_
    refine (bind_apply_of_ok (by conv_lhs => cbv)).trans ?_
    refine (bind_apply_of_ok (by conv_lhs => cbv)).trans ?_
    refine (bind_apply_of_ok rfl).trans ?_
    refine (bind_apply_of_ok (act_apply (Abi.finishes_start (by cbv) (by cbv) (by unfold Finishes; conv_lhs => cbv)
      (by unfold Finishes; conv_lhs => cbv)))).trans ?_
    iterate 3 refine (bind_apply_of_ok (by conv_lhs => cbv)).trans ?_
    conv_lhs => cbv
    rfl

theorem exists_run_unheard :
    ∃ c, Compile.run unheard (some { manifests := ["a.toml"] }) obstructed = ((.ok (), c), obstructed) := by
  obtain ⟨c, hstages⟩ := exists_stages_unheard
  refine ⟨?_, ?run⟩
  case run =>
    unfold Compile.run Compile.steps
    dsimp only
    rw [if_neg (by decide)]
    iterate 3 refine (bind_apply_of_ok rfl).trans ?_
    refine (bind_apply_of_ok (attempt_apply hstages)).trans ?_
    refine (bind_apply_of_ok rfl).trans ?_
    refine (bind_apply_of_ok rfl).trans ?_
    rfl

/-- A build whose compilation succeeds, and whose module cannot be put in its place. -/
theorem exists_build_unheard :
    ∃ c cause w', Compile.build unheard { manifests := ["a.toml"], output := "out", index := true } obstructed =
        ((.error (.error (.output (.module cause))), c, some ⟨"out", true⟩), w') ∧
      Outputs.Left ⟨"out", true⟩ (.module cause) obstructed.files w'.files := by
  obtain ⟨c, hrun⟩ := exists_run_unheard
  obtain ⟨r, t', hwrite, hleft⟩ := writeOutputs_cases ⟨"out", true⟩ c sound_obstructed
  have hresult : ((writeOutputs ⟨"out", true⟩ c : StateM World (Except OutputError Unit)) obstructed).1 =
      .error (.module ⟨"rename", ["./tmp-*", "out.ll"], .alreadyExists⟩) := by cbv
  rw [hwrite] at hresult
  obtain rfl : r = _ := hresult
  have hbase : outputBase "out" c.build.output ["a.toml"] = "out" := by cbv
  refine ⟨c, _, { obstructed with files := t' }, ?_, hleft _ rfl⟩
  rw [Compile.build, state_bind_apply hrun]
  dsimp only
  rw [hbase, state_bind_apply hwrite]
  rfl

theorem files_of_failed_build_obstructed :
    ∃ c cause w', Compile.build unheard { manifests := ["a.toml"], output := "out", index := true } obstructed =
        ((.error (.error (.output (.module cause))), c, some ⟨"out", true⟩), w') ∧
      w'.files.see "out.ll" = .directory ∧ w'.files.see "out.rta" = .nothing := by
  obtain ⟨c, cause, w', hbuild, -⟩ := exists_build_unheard
  refine ⟨c, cause, w', hbuild, ?_⟩
  have hbase : outputBase "out" c.build.output ["a.toml"] = "out" := by cbv
  -- With the request held abstract, nothing tries to evaluate the build.
  generalize hreq : ({ manifests := ["a.toml"], output := "out", index := true } : BuildRequest) = req at hbuild
  have hfiles := files_of_failed_build sparesFiles_unheard req sound_obstructed
  rw [hbuild] at hfiles
  subst hreq
  simp only [hbase] at hfiles
  obtain ⟨hmodule, hindex, -⟩ := hfiles
  exact ⟨hmodule.trans (by cbv), hindex⟩

/-- An earlier index is lost if the module cannot be written. -/
theorem earlier_index_lost :
    ∃ c cause w', Compile.build unheard { manifests := ["a.toml"], output := "out", index := true } obstructed =
        ((.error (.error (.output (.module cause))), c, some ⟨"out", true⟩), w') ∧
      obstructed.files.see "out.rta" = .file "old" ∧ w'.files.see "out.rta" = .nothing := by
  obtain ⟨c, cause, w', hbuild, -, hindex⟩ := exists_build_unheard
  exact ⟨c, cause, w', hbuild, by cbv, hindex⟩

end ClassAbi
