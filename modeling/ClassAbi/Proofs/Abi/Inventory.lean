import ClassAbi.Proofs.Abi.Session

/-!
# Where entities come from

When a session starts, every entity is declared for the runtime or stands for a part of a class. A session adds constants,
tables and registrations, so that the entities of a program are known at any time.
-/

namespace ClassAbi

namespace Workspace

/-- Whether every entity is known to be for the runtime or for a part of a class. -/
structure Inventory (w : Workspace) : Prop where
  owned : ∀ e ent, w.program.entity? e = some ent →
    (∃ name, Abi.IsRuntimeName name ∧ ent.ld = w.target.decorate name ∧ ent.visibility = .external) ∨
      ∃ c cls part ld, w.registry.class? c = some cls ∧ cls.Has part ∧ cls.LinkerNameOf part ld ∧ ent.ld = w.target.decorate ld
  found : ∀ e ent, w.program.entity? e = some ent → w.program.lookup ent.ld = some e
  bodiless : ∀ e ent, w.program.entity? e = some ent → ent.body = none

variable {w w' : Workspace} {O : Class.Part → Prop}

theorem inventory_empty (hempty : w.program.entities = #[]) : w.Inventory := by
  have hnone : ∀ e ent, w.program.entity? e ≠ some ent := by
    intro e ent h
    simp [Program.entity?, hempty] at h
  exact ⟨fun e ent h => absurd h (hnone e ent), fun e ent h => absurd h (hnone e ent), fun e ent h => absurd h (hnone e ent)⟩

theorem Inventory.push (h : w.Inventory) {ent : Entity} (hgrown : w.Grown w') (hprogram : w'.program = w.program.push ent)
    (hne : ent.ld ≠ [])
    (howned : (∃ name, Abi.IsRuntimeName name ∧ ent.ld = w'.target.decorate name ∧ ent.visibility = .external) ∨
      ∃ c cls part ld, w'.registry.class? c = some cls ∧ cls.Has part ∧ cls.LinkerNameOf part ld ∧ ent.ld = w'.target.decorate ld)
    (hbody : ent.body = none) : w'.Inventory := by
  have hcases : ∀ e ent', w'.program.entity? e = some ent' → w.program.entity? e = some ent' ∨ e = w.program.entities.size ∧ ent' = ent := by
    intro e ent' he
    rw [hprogram, Program.entity?_push] at he
    split_ifs at he with heq
    · exact .inr ⟨heq, (Option.some.inj he).symm⟩
    · exact .inl he
  refine ⟨fun e ent' he => ?_, fun e ent' he => ?_, fun e ent' he => ?_⟩
  · rcases hcases e ent' he with hold | ⟨-, rfl⟩
    · rw [hgrown.target_eq]
      refine (h.owned e ent' hold).imp_right ?_
      rintro ⟨c, cls, part, ld, hcls, hhas, hname, hld⟩
      obtain ⟨cls', hcls', hsame⟩ := hgrown.registry.symm.exists_class hcls
      exact ⟨c, cls', part, ld, hcls', hhas.congr hsame.symm, hname.congr hsame.symm, hld⟩
    · exact howned
  · rcases hcases e ent' he with hold | ⟨rfl, rfl⟩
    · exact hgrown.lookup _ _ (h.found e ent' hold)
    · rw [hprogram]
      exact w.program.lookup_push_new hne
  · rcases hcases e ent' he with hold | ⟨-, rfl⟩
    · exact h.bodiless e ent' hold
    · exact hbody

theorem Inventory.congr (h : w.Inventory) (htarget : w'.target = w.target) (hregistry : w'.registry = w.registry)
    (hentities : w'.program.entities = w.program.entities) (hnames : w'.program.byName = w.program.byName) : w'.Inventory := by
  have hentity : w'.program.entity? = w.program.entity? := by
    funext e
    rw [Program.entity?, hentities, Program.entity?]
  have hlookup : w'.program.lookup = w.program.lookup := by
    funext ld
    rw [Program.lookup, hnames, Program.lookup]
  refine ⟨?_, ?_, ?_⟩
  · rw [htarget, hregistry, hentity]
    exact h.owned
  · rw [hentity, hlookup]
    exact h.found
  · rw [hentity]
    exact h.bodiless

theorem Making.inventory (hmaking : Making O w w') (h : w.Inventory) : w'.Inventory := by
  have hgrown := hmaking.grown
  cases hmaking with
  | type _ | layouts _ => exact h.congr rfl rfl rfl rfl
  | runtime t hname hfree =>
    exact h.push hgrown rfl (List.append_ne_nil_of_right_ne_nil _ hname.ne_nil) (.inl ⟨_, hname, rfl, rfl⟩) rfl
  | @part c cls part ent _ hcls hhas _ hmade hbody hlinkage hsegment =>
    obtain ⟨ld, hname, hld⟩ := hmade.ld
    have hne : ent.ld ≠ [] := hld ▸ List.append_ne_nil_of_right_ne_nil _ hname.ne_nil
    obtain ⟨cls', hcls', hsame⟩ := hgrown.registry.symm.exists_class hcls
    exact h.push hgrown rfl hne (.inr ⟨c, cls', part, ld, hcls', hhas.congr hsame.symm, hname.congr hsame.symm, hld⟩) hbody

theorem Inventory.makings (h : w.Inventory) (hpath : Relation.ReflTransGen (Making O) w w') : w'.Inventory :=
  keep_along (fun _ _ h hstep => hstep.inventory h) hpath h

end Workspace

namespace Abi

open Workspace

variable {w0 : Workspace} {s0 : Session} {e : EntityId} {ent : Entity}

/-- An entity that is there at the start is for the runtime, or it is the entity of a part of a class. -/
theorem part_of_entity (hstart : Started w0 s0) (hinventory : w0.Inventory) (he : w0.program.entity? e = some ent) :
    (∃ name, IsRuntimeName name ∧ ent.ld = w0.target.decorate name ∧ ent.visibility = .external) ∨
      ∃ c cls part, w0.registry.class? c = some cls ∧ cls.Has part ∧ cls.entityOf part = some e ∧ w0.MadeFor cls part e ent := by
  refine (hinventory.owned e ent he).imp_right ?_
  rintro ⟨c, cls, part, ld, hcls, hhas, hname, hld⟩
  obtain ⟨cls', e', ent', hcls', he', hmade⟩ := hstart.linked.made c part ⟨cls, hcls, hhas⟩
  cases hcls.symm.trans hcls'
  -- Both have the linker name of the part, under which only one can be found.
  obtain ⟨ld', hname', hld'⟩ := hmade.ld
  have hsame : ent.ld = ent'.ld := by rw [hld, hld', hname.unique hname']
  have hfound := hmade.found
  rw [← hsame, hinventory.found e ent he] at hfound
  cases hfound
  cases he.symm.trans hmade.entity
  exact ⟨c, cls, part, hcls, hhas, he', hmade⟩

end Abi

end ClassAbi
