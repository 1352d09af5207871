import ClassAbi.Proofs.Action
import ClassAbi.Proofs.Layout.Engine

/-!
# Entities of a program

A new entity takes the next number, and its linker name, if it has one, must not be in use. What a step does to the program
is said by `Program.push`, which adds an entity with all its properties, and by `Program.modifyEntity`.
-/

namespace ClassAbi

variable {ld : Text}

namespace Program

def push (p : Program) (ent : Entity) : Program :=
  { p with
    entities := p.entities.push ent
    byName := if ent.ld.isEmpty then p.byName else p.byName.insert ent.ld p.entities.size }

def Unused (p : Program) (ld : Text) : Prop := ld = [] ∨ p.lookup ld = none

variable {p : Program} {e e' : EntityId} {ent : Entity} {f : Entity → Entity}

theorem entity?_push (p : Program) (ent : Entity) (e : EntityId) :
    (p.push ent).entity? e = if e = p.entities.size then some ent else p.entity? e := by
  rw [entity?, push, Array.getElem?_push]
  rfl

theorem entity?_modifyEntity (p : Program) (e e' : EntityId) (f : Entity → Entity) :
    (p.modifyEntity e f).entity? e' = if e = e' then (p.entity? e').map f else p.entity? e' := by
  rw [entity?, modifyEntity, Array.getElem?_modify]
  rfl

theorem lt_size_of_entity? (h : p.entity? e = some ent) : e < p.entities.size := (Array.getElem?_eq_some_iff.1 h).1

theorem entity?_push_of_some (h : p.entity? e = some ent) (new : Entity) : (p.push new).entity? e = some ent := by
  rw [entity?_push, if_neg (lt_size_of_entity? h).ne, h]

theorem entity?_push_new (p : Program) (ent : Entity) : (p.push ent).entity? p.entities.size = some ent := by
  rw [entity?_push, if_pos rfl]

theorem lookup_push_of_some {new : Entity} (hnew : p.Unused new.ld) (h : p.lookup ld = some e) :
    (p.push new).lookup ld = some e := by
  rw [lookup, push]
  dsimp only
  split_ifs with hempty
  · exact h
  · rw [Std.HashMap.getElem?_insert]
    split_ifs with heq
    · have hld : new.ld = ld := by simpa using heq
      rcases hnew with hnil | hnone
      · simp [hnil] at hempty
      · rw [hld, h] at hnone
        cases hnone
    · exact h

theorem lookup_push_new (p : Program) (h : ent.ld ≠ []) : (p.push ent).lookup ent.ld = some p.entities.size := by
  rw [lookup, push]
  dsimp only
  rw [if_neg (by simpa using h), Std.HashMap.getElem?_insert_self]

theorem lookup_push_of_ne (h : ent.ld ≠ ld) : (p.push ent).lookup ld = p.lookup ld := by
  rw [lookup, push]
  dsimp only
  split_ifs
  · rfl
  · rw [Std.HashMap.getElem?_insert, if_neg (by simpa using h)]
    rfl

theorem modifyEntity_push (p : Program) (ent : Entity) (hf : (f ent).ld = ent.ld) :
    (p.push ent).modifyEntity p.entities.size f = p.push (f ent) := by
  have hentities : (p.entities.push ent).modify p.entities.size f = p.entities.push (f ent) := by
    apply Array.ext_getElem?
    intro i
    rw [Array.getElem?_modify, Array.getElem?_push, Array.getElem?_push]
    split_ifs with h h' <;> simp_all
  rw [modifyEntity, push, push, hf]
  dsimp only
  rw [hentities]

end Program

/-! ### Steps on programs -/

namespace Action

variable {α : Type} {w w' : Workspace}

@[simp]
theorem finishes_onProgram_iff {f : Program → α × Program} {a : α} :
    Finishes (onProgram f) w a w' ↔ (f w.program).1 = a ∧ { w with program := (f w.program).2 } = w' := by
  show ((Except.ok (f w.program).1, { w with program := (f w.program).2 }) : Except (Failure Error) α × Workspace) =
    (.ok a, w') ↔ _
  rw [Prod.mk.injEq, Except.ok.injEq]

@[simp]
theorem finishes_onTrace_iff {f : Trace.Recorder → α × Trace.Recorder} {a : α} :
    Finishes (onTrace f) w a w' ↔ (f w.trace).1 = a ∧ { w with trace := (f w.trace).2 } = w' := by
  show ((Except.ok (f w.trace).1, { w with trace := (f w.trace).2 }) : Except (Failure Error) α × Workspace) =
    (.ok a, w') ↔ _
  rw [Prod.mk.injEq, Except.ok.injEq]

@[simp]
theorem finishes_modifyEntity_iff {e : EntityId} {f : Entity → Entity} {u : Unit} :
    Finishes (modifyEntity e f) w u w' ↔ { w with program := w.program.modifyEntity e f } = w' := by
  rw [modifyEntity, finishes_onProgram_iff]
  simp

@[simp]
theorem finishes_newEntity_iff {name : Text} {type : Option TypeId} {e : EntityId} :
    Finishes (newEntity name ld type) w e w' ↔
      w.program.Unused ld ∧ w.program.entities.size = e ∧
        { w with program := w.program.push { name, ld, type := type.getD unknownType } } = w' := by
  rw [newEntity, finishes_bind_iff]
  simp only [finishes_onProgram_iff, finishes_ofExcept_iff]
  have hused : (!ld.isEmpty && w.program.byName.contains ld) = true ↔ ¬w.program.Unused ld := by
    simp [Program.Unused, Program.lookup]
  constructor
  · rintro ⟨result, w1, ⟨rfl, rfl⟩, hok, rfl⟩
    by_cases hdup : (!ld.isEmpty && w.program.byName.contains ld) = true
    · rw [Program.addEntity, if_pos hdup] at hok
      cases hok
    · rw [Program.addEntity, if_neg hdup] at hok ⊢
      cases hok
      exact ⟨not_not.1 (mt hused.2 hdup), rfl, rfl⟩
  · rintro ⟨hfree, rfl, rfl⟩
    have hdup : ¬(!ld.isEmpty && w.program.byName.contains ld) = true := fun h => hused.1 h hfree
    refine ⟨_, _, ⟨rfl, rfl⟩, ?_, ?_⟩ <;> rw [Program.addEntity, if_neg hdup]
    rfl

theorem newEntity_of_used {name : Text} {type : Option TypeId} (h : ¬w.program.Unused ld) :
    newEntity name ld type w = (.error (.error (.duplicateName ⟨ld⟩)), w) := by
  have hdup : (!ld.isEmpty && w.program.byName.contains ld) = true := by
    simpa [Program.Unused, Program.lookup] using h
  have hadd : Finishes (onProgram (·.addEntity name ld type)) w (.error ⟨ld⟩) w :=
    finishes_onProgram_iff.2 ⟨by rw [Program.addEntity, if_pos hdup], by rw [Program.addEntity, if_pos hdup]⟩
  rw [newEntity, bind_apply_of_finishes hadd]
  rfl

end Action

end ClassAbi
