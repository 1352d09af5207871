import ClassAbi.Proofs.Abi.Descriptor

/-!
# Workspaces of a session

The steps before a session, its start and all its changes lead from built workspaces to built workspaces, so that what holds
of classes and types in every workspace also holds during a session.
-/

namespace ClassAbi

namespace Workspace

variable {w w' : Workspace} {O : Class.Part → Prop}

/-! ### Entities of classes -/

theorem Built.linkOwn (hw : w.Built) {c : ClassId} {f : Class → Class}
    (hf : ∀ cls, f cls = { cls with descriptor := (f cls).descriptor, vtableEntity := (f cls).vtableEntity }) :
    Built { w with registry := w.registry.modifyClass c f } := by
  have hsame : w.registry.modifyClass c f = w.registry.modifyClass c fun cls =>
      { cls with
        descriptor := (w.registry.class? c).bind fun cls => (f cls).descriptor
        vtableEntity := (w.registry.class? c).bind fun cls => (f cls).vtableEntity } :=
    Registry.modifyClass_congr fun cls hcls => by
      rw [hf cls, hcls]
      rfl
  rw [hsame]
  exact hw.linkClass c _ _

theorem Making.built (h : Making O w w') (hw : w.Built) : w'.Built := by
  cases h with
  | type shape => exact hw.newType shape
  | layouts t => exact hw.layoutOf (some t)
  | runtime _ _ _ => exact .elsewhere (w := w) rfl rfl rfl rfl hw
  | @part c _ part ent _ _ _ _ _ _ _ _ =>
    have hpush : Built { w with program := w.program.push ent } := .elsewhere (w := w) rfl rfl rfl rfl hw
    cases part with
    | routine i => exact hpush.linkMethod ⟨c, i⟩ (some w.program.entities.size)
    | storage i => exact hpush.linkField c i (some w.program.entities.size)
    | descriptor | vtable => exact hpush.linkOwn fun _ => rfl

theorem Built.makings (hw : w.Built) (hpath : Relation.ReflTransGen (Making O) w w') : w'.Built :=
  keep_along (fun _ _ hw hstep => hstep.built hw) hpath hw

end Workspace

namespace Abi

open ClassAbi.Action Workspace

variable {w w' : Workspace} {registers : Bool}

theorem built_of_start (hw : w.Built) (hrun : Finishes (start registers) w () w') : w'.Built := by
  obtain ⟨v, s, hmakes, rfl, -⟩ := makes_of_start hrun
  exact .elsewhere (w := v) rfl rfl rfl rfl (hw.makings hmakes.path)

/-- After all steps before a session and its start, the workspace is still a built one. -/
theorem built_of_prepare (built : w.Built) (hprepare : Finishes (prepare registers) w () w') : w'.Built := by
  simp only [prepare, finishes_bind_iff] at hprepare
  obtain ⟨_, w1, hlayout, _, w2, hslots, _, w3, hmembers, hsession⟩ := hprepare
  have hlaid : Keeps Built Class.layOutAll := fun _ hw => hw.layOutAll
  have hassigned : Keeps Built Class.assignAllSlots := fun _ hw => hw.assignAllSlots
  have hbuilt := hassigned.of_finishes (hlaid.of_finishes built hlayout) hslots
  exact built_of_start (hbuilt.makings (makes_of_createAllMembers hmembers).path) hsession

/-! ### Changes -/

theorem Addition.built (h : Addition w w') (hw : w.Built) : w'.Built := by
  cases h with
  | layouts t => exact hw.layoutOf (some t)
  | type shape => exact hw.newType shape
  | trace _ | name _ _ | constant _ _ _ _ _ | table _ _ _ _ | registration _ _ => exact .elsewhere (w := w) rfl rfl rfl rfl hw

theorem Progress.built (h : Progress w w') (hw : w.Built) : w'.Built := by
  cases h with
  | fill h =>
    cases h with
    | add h => exact h.built hw
    | vtableType _ _ _ _ _ | vtable _ _ _ _ _ _ _ _ _ | descriptor _ _ _ _ _ _ => exact .elsewhere (w := w) rfl rfl rfl rfl hw
  | graphs _ | body _ _ => exact .elsewhere (w := w) rfl rfl rfl rfl hw

theorem Change.built (h : Change w w') (hw : w.Built) : w'.Built := by
  cases h with
  | progress h => exact h.built hw
  | close => exact .elsewhere (w := w) rfl rfl rfl rfl hw

theorem built_operate (hw : w.Built) (ops : List Operation) : (operate w ops).Built :=
  keep_along (fun _ _ hw h => h.built hw) (changes_of_operate w ops) hw

end Abi

end ClassAbi
