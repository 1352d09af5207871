import ClassAbi.Proofs.Abi.Works
import ClassAbi.Proofs.LinkerName.Outside
import ClassAbi.Reach.Index

/-!
# Building the reachability index

Every routine whose linker name has the parts of a static initializer's name is taken for one, and its class is read from that
name. The index can be built if each of these names gives a class (`finishes_build`), and ends at the first name that is read
past its end (`build_of_fault`).
-/

namespace ClassAbi.Reach

open ClassAbi.Action

/-- Whether an entity is taken for a static initializer. -/
def IsRecognized (ent : Entity) : Prop := ent.visibility ≠ .external ∧ LinkerName.isInitializer ent.ld = true

instance (ent : Entity) : Decidable (IsRecognized ent) :=
  inferInstanceAs (Decidable (ent.visibility ≠ .external ∧ LinkerName.isInitializer ent.ld = true))

/-- The class whose static initializer an entity is taken for. -/
def ownerOf? (r : Registry) (decoration : Text) (ent : Entity) : Option ClassId :=
  (LinkerName.initializerClass ent.ld decoration).toOption.bind r.find?

def descriptorEntry (r : Registry) (c : ClassId) : Option (EntityId × ClassId) :=
  ((r.class? c).bind Class.descriptor).map (·, c)

def initializerEntry (r : Registry) (decoration : Text) (p : EntityId × Entity) : Option (ClassId × EntityId) :=
  if IsRecognized p.2 then (ownerOf? r decoration p.2).map (·, p.1) else none

variable {w : Workspace} {r : Registry} {decoration : Text}

/-! ### Maps that are filled step by step -/

section

variable {α κ ν : Type} [BEq κ] [Hashable κ] {step : Std.HashMap κ ν → α → Action (Std.HashMap κ ν)} {entry : α → Option (κ × ν)}

theorem finishes_foldlM_insert {as : List α} {found : Std.HashMap κ ν}
    (hstep : ∀ a ∈ as, ∀ found, Finishes (step found a) w (found.insertMany (entry a).toList) w) :
    Finishes (as.foldlM step found) w (found.insertMany (as.filterMap entry)) w := by
  induction as generalizing found with
  | nil => exact finishes_pure
  | cons a as ih =>
    rw [List.forall_mem_cons] at hstep
    rw [List.foldlM_cons, finishes_bind_iff]
    refine ⟨_, w, hstep.1 found, ?_⟩
    have hrest : Finishes (as.foldlM step (found.insertMany (entry a).toList)) w _ w := ih hstep.2
    cases hentry : entry a with
    | none =>
      rw [hentry] at hrest
      rwa [List.filterMap_cons_none hentry]
    | some kv =>
      rw [hentry] at hrest
      rwa [List.filterMap_cons_some hentry, Std.HashMap.insertMany_cons]

end

/-! ### Descriptors -/

theorem finishes_descriptorStep {c : ClassId} {cls : Class} {e : EntityId} (hcls : w.registry.class? c = some cls)
    (he : cls.descriptor = some e) (found : Std.HashMap EntityId ClassId) :
    Finishes (do
      let cls ← class' c
      match cls.descriptor with
      | none => fail (.within .reachability (.noDescriptor cls.name))
      | some e => return found.insert e c) w (found.insertMany (descriptorEntry w.registry c).toList) w := by
  rw [finishes_bind_iff]
  refine ⟨cls, w, finishes_class'_iff.2 ⟨hcls, rfl⟩, ?_⟩
  rw [he, descriptorEntry, hcls, Option.bind_some, he]
  exact finishes_pure

/-! ### Initializers -/

theorem isRecognized_iff {ent : Entity} :
    IsRecognized ent ↔ ¬(ent.visibility = .external || !LinkerName.isInitializer ent.ld) = true := by
  rw [Bool.or_eq_true, not_or, decide_eq_true_eq, Bool.not_eq_true', Bool.not_eq_false]
  rfl

theorem finishes_addInitializer {p : EntityId × Entity} (h : IsRecognized p.2 → ownerOf? r decoration p.2 ≠ none)
    (found : Std.HashMap ClassId EntityId) :
    Finishes (addInitializer r decoration found p.1 p.2) w (found.insertMany (initializerEntry r decoration p).toList) w := by
  by_cases hrecognized : IsRecognized p.2
  · obtain ⟨c, hc⟩ := Option.ne_none_iff_exists'.1 (h hrecognized)
    rw [addInitializer, if_neg (isRecognized_iff.1 hrecognized), initializerEntry, if_pos hrecognized, hc]
    obtain ⟨name, hname, hfind⟩ := Option.bind_eq_some_iff.1 hc
    cases hread : LinkerName.initializerClass p.2.ld decoration with
    | error e =>
      rw [hread] at hname
      cases hname
    | ok name' =>
      rw [hread] at hname
      obtain rfl := Option.some.inj hname
      rw [finishes_bind_iff]
      refine ⟨name', w, finishes_pure, ?_⟩
      dsimp only
      rw [hfind]
      exact finishes_pure
  · have hskip := Classical.not_not.1 (mt isRecognized_iff.2 hrecognized)
    rw [addInitializer, if_pos hskip, initializerEntry, if_neg hrecognized]
    exact finishes_pure

theorem addInitializer_of_fault {ent : Entity} (h : IsRecognized ent)
    (hfault : LinkerName.initializerClass ent.ld decoration = .fault) (found : Std.HashMap ClassId EntityId) (id : EntityId) :
    addInitializer r decoration found id ent w = (.error .fault, w) := by
  rw [addInitializer, if_neg (isRecognized_iff.1 h), hfault]
  exact bind_apply_of_error rfl

/-! ### The index -/

section

variable {classes : List ClassId} (horder : w.registry.superToSub = .ok classes)
  (hdescriptors : ∀ c ∈ classes, ∃ cls e, w.registry.class? c = some cls ∧ cls.descriptor = some e)

include horder hdescriptors

theorem build_apply :
    build decoration w = (do
      let initializers ← w.program.routines.foldlM
        (fun found (p : EntityId × Entity) => addInitializer w.registry decoration found p.1 p.2) ∅
      return ⟨classes, Std.HashMap.ofList (classes.filterMap (descriptorEntry w.registry)), initializers⟩ : Action Index) w := by
  have hstep : ∀ c ∈ classes, ∀ found : Std.HashMap EntityId ClassId, Finishes _ w _ w := fun c hc found => by
    obtain ⟨cls, e, hcls, he⟩ := hdescriptors c hc
    exact finishes_descriptorStep hcls he found
  have hfold : Finishes (classes.foldlM _ ∅) w _ w := finishes_foldlM_insert hstep
  have hclasses : Finishes (ofExcept Error.cls w.registry.superToSub) w classes w := finishes_ofExcept_iff.2 ⟨horder, rfl⟩
  rw [build, bind_apply_of_finishes finishes_registry, bind_apply_of_finishes hclasses]
  exact bind_apply_of_finishes hfold

/-- The index notes every class under its descriptor, and every routine that is taken for an initializer under its class. -/
theorem finishes_build (hinit : ∀ p ∈ w.program.routines, IsRecognized p.2 → ownerOf? w.registry decoration p.2 ≠ none) :
    Finishes (build decoration) w
      { classes
        byDescriptor := .ofList (classes.filterMap (descriptorEntry w.registry))
        initializers := .ofList (w.program.routines.filterMap (initializerEntry w.registry decoration)) } w := by
  rw [Finishes, build_apply horder hdescriptors, ← Finishes, finishes_bind_iff]
  refine ⟨_, w, finishes_foldlM_insert fun p hp found => finishes_addInitializer (hinit p hp) found, ?_⟩
  exact finishes_pure

/-- The index cannot be built if a name that is taken for an initializer's is read past its end. -/
theorem build_of_fault {before after : List (EntityId × Entity)} {p : EntityId × Entity}
    (hroutines : w.program.routines = before ++ p :: after)
    (hbefore : ∀ q ∈ before, IsRecognized q.2 → ownerOf? w.registry decoration q.2 ≠ none) (hp : IsRecognized p.2)
    (hfault : LinkerName.initializerClass p.2.ld decoration = .fault) : build decoration w = (.error .fault, w) := by
  rw [build_apply horder hdescriptors, hroutines, List.foldlM_append]
  apply bind_apply_of_error
  rw [bind_apply_of_finishes (finishes_foldlM_insert fun q hq found => finishes_addInitializer (hbefore q hq) found),
    List.foldlM_cons]
  exact bind_apply_of_error (addInitializer_of_fault hp hfault _ _)

end

/-- Nothing changes while the index is built. -/
instance {S : Workspace → Workspace → Prop} (decoration : Text) : Works S (build decoration) := by
  have hinitializer : ∀ r found id e, Works S (addInitializer r decoration found id e) := by
    intro r found id e
    unfold addInitializer
    refine .ite inferInstance ?_
    dsimp only
    split
    · refine .bind fun name => ?_
      split <;> infer_instance
    · infer_instance
    · infer_instance
  have hdescriptor : ∀ (found : Std.HashMap EntityId ClassId) (c : ClassId) (cls : Class), Works S (match cls.descriptor with
      | none => fail (.within .reachability (.noDescriptor cls.name))
      | some e => return found.insert e c) := by
    intro found c cls
    split <;> infer_instance
  unfold build
  infer_instance

/-! ### A class whose index cannot be built -/

/-- A name that begins with a digit. In a linker name its own digits continue its length, which becomes the largest word. -/
def overlongName : Text := ("23372036854775807" : Text) ++ List.replicate 75 0x61

def overlongInitializer : Text := ("_ZN92" : Text) ++ overlongName ++ ("18__U3c_clinit__U3e_Ev" : Text)

theorem initializerClass_overlong : LinkerName.initializerClass overlongInitializer [] = .fault := by
  apply LinkerName.initializerClass_of_outside
  have hwhole : Text.dropStart [] overlongInitializer =
      LinkerName.nestedStart ++ (List.flatten [] ++ (("92" : Text) ++ overlongName ++ ("18__U3c_clinit__U3e_Ev" : Text))) := by
    decide
  rw [hwhole]
  exact .segments .nil (by simp) ⟨by decide, by decide +kernel, by decide +kernel, by decide +kernel⟩

end ClassAbi.Reach
