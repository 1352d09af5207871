import ClassAbi.Proofs.Abi.Objects
import ClassAbi.Proofs.Abi.Operation
import ClassAbi.Proofs.LinkerName.Inverse
import ClassAbi.Proofs.Module.Line

/-!
# Labels

The linker names of classes and members are escaped, and a session names what it adds by a tag and a number. So the label of an
entity is a word, whatever the names of classes and members are.
-/

namespace ClassAbi

open Ascii ClassAbi.Module ClassAbi.Action Workspace

/-! ### Linker names -/

namespace LinkerName

variable {t name : Text}

theorem isWord_segmentOf (ident : Text) : IsWord (segmentOf ident) := by
  refine isWord_append.2 ⟨isWord_ofNat _, fun b hb => ?_⟩
  have hplain := isPlainByte_escapeChars false _ b hb
  simp only [IsPlainByte] at hplain
  simp only [isNameByte, UInt8.le_iff_toNat_le, Bool.or_eq_true, Bool.and_eq_true, decide_eq_true_eq, beq_iff_eq]
  rcases hplain with rfl | rfl | h | h | h <;> simp_all

theorem isWord_pathOf (cls : Text) : IsWord (pathOf cls) := by
  intro b hb
  obtain ⟨ident, -, hb⟩ := List.mem_flatMap.1 hb
  exact isWord_segmentOf ident b hb

theorem isWord_of_member (h : member name = .ok t) : IsWord t := by
  unfold member at h
  split at h
  · rename_i token htoken
    cases h
    have hwords : ∀ x ∈ substitutions, IsWord x.2 := by decide
    exact hwords _ (mem_of_lookup htoken)
  · obtain ⟨-, rfl⟩ := segment_eq_ok_iff.1 h
    exact isWord_segmentOf name

theorem isWord_code (ty : ParameterType) : IsWord ty.code := by
  induction ty with
  | primitive p => cases p <;> decide
  | cls name => exact isWord_append.2 ⟨by decide, isWord_append.2 ⟨isWord_pathOf name, by decide⟩⟩
  | array elem ih => exact isWord_append.2 ⟨by decide, isWord_append.2 ⟨ih, by decide⟩⟩

theorem isWord_codes (types : List ParameterType) : IsWord (codes types) := by
  rw [codes]
  split_ifs
  · decide
  · intro b hb
    obtain ⟨ty, -, hb⟩ := List.mem_flatMap.1 hb
    exact isWord_code ty b hb

end LinkerName

open LinkerName in
theorem Class.LinkerNameOf.isWord {cls : Class} {part : Class.Part} {ld : Text} (h : cls.LinkerNameOf part ld) : IsWord ld := by
  have hstart : IsWord nestedStart ∧ IsWord vtableStart ∧ IsWord (descriptorSegment ++ [upperE]) ∧ IsWord [upperE] :=
    ⟨by decide, by decide, by decide, by decide⟩
  have hpath := isWord_pathOf cls.name
  cases part with
  | routine i =>
    obtain ⟨m, -, h⟩ := h
    obtain ⟨written, params, -, hmember, hparams, rfl⟩ := ofMethod_eq_ok h
    obtain ⟨types, -, rfl, -⟩ := lists_of_parameters hparams
    have hparams : IsWord ([upperE] ++ codes types) := isWord_append.2 ⟨hstart.2.2.2, isWord_codes types⟩
    exact isWord_append.2 ⟨hstart.1, isWord_append.2 ⟨hpath, isWord_append.2 ⟨isWord_of_member hmember, hparams⟩⟩⟩
  | storage i =>
    obtain ⟨f, -, h⟩ := h
    obtain ⟨written, -, hmember, rfl⟩ := ofField_eq_ok h
    exact isWord_append.2 ⟨hstart.1, isWord_append.2 ⟨hpath, isWord_append.2 ⟨isWord_of_member hmember, hstart.2.2.2⟩⟩⟩
  | descriptor =>
    obtain ⟨-, rfl⟩ := ofDescriptor_eq_ok_iff.1 h
    exact isWord_append.2 ⟨hstart.1, isWord_append.2 ⟨hpath, hstart.2.2.1⟩⟩
  | vtable =>
    obtain ⟨-, rfl⟩ := ofVtable_eq_ok h
    exact isWord_append.2 ⟨hstart.2.1, isWord_append.2 ⟨hpath, hstart.2.2.2⟩⟩

theorem Abi.IsRuntimeName.isWord {name : Text} (h : Abi.IsRuntimeName name) : IsWord name := by
  rcases h with ⟨h, rfl⟩ | ⟨p, rfl⟩
  · cases h <;> decide
  · cases p <;> decide

theorem Target.isWord_decoration {target : Target} {triple : Text} (h : Target.ofTriple triple = .ok target) :
    IsWord target.decoration := by
  have hall : ∀ entry ∈ supported, IsWord entry.2.decoration := by decide
  exact hall _ (mem_supported h)

/-! ### Programs -/

/-- Whether the labels of all entities are words. -/
def Program.Labelled (p : Program) : Prop := ∀ e ent, p.entity? e = some ent → IsWord ent.label

variable {p : Program} {ent : Entity} {w w0 w' : Workspace}

theorem Entity.isWord_label (hname : ent.ld = [] → IsWord ent.name) (hld : IsWord ent.ld) : IsWord ent.label := by
  rw [label]
  split_ifs with h
  · exact hname (List.isEmpty_iff.1 h)
  · exact hld

theorem Program.Labelled.push (h : p.Labelled) (hent : IsWord ent.label) : (p.push ent).Labelled := by
  intro e ent' he
  rw [entity?_push] at he
  split_ifs at he
  · cases he
    exact hent
  · exact h e ent' he

theorem Program.Labelled.modifyEntity (h : p.Labelled) (x : EntityId) {f : Entity → Entity} (hf : ∀ ent, (f ent).label = ent.label) :
    (p.modifyEntity x f).Labelled := by
  intro e ent he
  rw [entity?_modifyEntity] at he
  split_ifs at he
  · obtain ⟨ent0, hent0, rfl⟩ := Option.map_eq_some_iff.1 he
    rw [hf]
    exact h e ent0 hent0
  · exact h e ent he

theorem Workspace.Inventory.labelled (h : w.Inventory) (hdecoration : IsWord w.target.decoration) : w.program.Labelled := by
  intro e ent he
  have hlabel : ∀ name, name ≠ [] → IsWord name → ent.ld = w.target.decorate name → IsWord ent.label := by
    intro name hne hname hld
    refine Entity.isWord_label (fun hnil => ?_) (hld ▸ isWord_append.2 ⟨hdecoration, hname⟩)
    exact absurd (hld.symm.trans hnil) (List.append_ne_nil_of_right_ne_nil _ hne)
  rcases h.owned e ent he with ⟨name, hname, hld, -⟩ | ⟨_, cls, part, ld, -, -, hname, hld⟩
  · exact hlabel name hname.ne_nil hname.isWord hld
  · exact hlabel ld hname.ne_nil hname.isWord hld

theorem inventory_of_prepare {registers : Bool} (built : w.Built) (hempty : w.program.entities = #[])
    (hprepare : Finishes (Abi.prepare registers) w () w0) : w0.Inventory := by
  obtain ⟨w1, w2, w3, v, s, hlayout, hassigned, hmembers, hsession, rfl⟩ := exists_of_prepare built hprepare
  have hempty1 := (keeps_layOutAll (keeps_layOut_of (P := fun w => w.program.entities = #[]) (fun _ _ hw => hw) (fun _ _ hw => hw)
    fun _ _ _ => keeps_onRegistry fun _ hw => hw)).of_finishes hempty hlayout
  have hempty2 : w2.program.entities = #[] := by
    rw [hassigned.rest]
    exact hempty1
  exact (((inventory_empty hempty2).makings hmembers).makings hsession).congr rfl rfl rfl rfl

namespace Abi

theorem isWord_numbered {tag : Text} (h : IsWord tag) (n : Nat) : IsWord (tag ++ "." ++ Text.ofNat n) :=
  isWord_append.2 ⟨isWord_append.2 ⟨h, by decide⟩, isWord_ofNat n⟩

theorem IsTable.isWord_tag {Names : Text → EntityId → Prop} {tag : Text} {elem : TypeId} {values : List Init}
    (h : IsTable w Names tag elem values) : IsWord tag := by
  cases h <;> decide

theorem Change.labelled (hchange : Change w w') (h : w.program.Labelled) : w'.program.Labelled := by
  cases hchange with
  | close => exact h
  | progress hstep =>
    cases hstep with
    | graphs _ => exact h
    | body _ _ => exact h.modifyEntity _ fun _ => rfl
    | fill hfill =>
      cases hfill with
      | vtableType _ _ _ _ _ => exact h.modifyEntity _ fun _ => rfl
      | vtable _ _ _ _ _ _ _ _ _ => exact h.modifyEntity _ fun _ => rfl
      | descriptor _ _ _ _ _ _ => exact h.modifyEntity _ fun _ => rfl
      | add hadd =>
        cases hadd with
        | trace _ | layouts _ | type _ | name _ _ => exact h
        | constant _ _ _ _ _ =>
          have hword := @isWord_numbered "_Utf8" (by decide) (w.program.made.getD "_Utf8" 0)
          exact Program.Labelled.push (p := (w.program.uniqueName "_Utf8").2) h (Entity.isWord_label (fun _ => hword) hword)
        | table htable _ hname _ =>
          obtain ⟨n, rfl⟩ := hname
          have htag := htable.isWord_tag
          have hword := isWord_numbered htag n
          exact h.push (Entity.isWord_label (fun _ => hword) hword)
        | registration _ _ =>
          have hword := @isWord_numbered "jcr_ptr" (by decide) (w.program.made.getD "jcr_ptr" 0)
          exact Program.Labelled.push (p := (w.program.uniqueName "jcr_ptr").2) h (Entity.isWord_label (fun _ => hword) (by simp [registrationEntity, IsWord]))

theorem labelled_of_changes (hchanges : Relation.ReflTransGen Change w w') (h : w.program.Labelled) : w'.program.Labelled :=
  keep_along (P := fun v => v.program.Labelled) (fun _ _ h hstep => hstep.labelled h) hchanges h

end Abi

end ClassAbi
