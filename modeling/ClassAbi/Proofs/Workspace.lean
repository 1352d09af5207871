import ClassAbi.Proofs.Class.Declared
import ClassAbi.Proofs.Layout.Engine

/-!
# How workspaces come about

`Workspace.Built` holds of the workspaces that the steps of a compilation lead to, in any order and also where some of them
fail. A class is only changed through these steps, and the types of the modes are never changed.
-/

namespace ClassAbi

variable {w : Workspace}

/-- Whether steps lead from an empty workspace to this one. -/
inductive Workspace.Built : Workspace → Prop
  | start (target : Target) : Built { target }
  | declare {w : Workspace} (name : Text) (access : Access) (external : Bool) (h : w.Built) :
    Built (Class.declare name access external w).2
  | inherit {w : Workspace} (c : ClassId) (super : Option ClassId) (interfaces : List ClassId) (h : w.Built) :
    Built (Action.onRegistry (fun r => r.modifyClass c fun cls => { cls with super, interfaces }) w).2
  | addMethod {w : Workspace} (c : ClassId) (name descriptor : Text) (access : Access) (ops : List Text) (h : w.Built) :
    Built (Class.addMethod c name descriptor access ops w).2
  | addField {w : Workspace} (c : ClassId) (name descriptor : Text) (access : Access) (h : w.Built) :
    Built (Class.addField c name descriptor access w).2
  | layOutAll {w : Workspace} (h : w.Built) : Built (Class.layOutAll w).2
  | assignAllSlots {w : Workspace} (h : w.Built) : Built (Class.assignAllSlots w).2
  | newType {w : Workspace} (shape : Shape) (h : w.Built) : Built (Action.newType shape w).2
  -- The types of the modes stand before the unknown type.
  | setType {w : Workspace} (t : TypeId) (shape : Shape) (ht : unknownType ≤ t) (h : w.Built) :
    Built { w with program := { w.program with types := w.program.types.set t shape } }
  | layoutOf {w : Workspace} (t : Option TypeId) (h : w.Built) : Built (Action.layoutOf t w).2
  | linkClass {w : Workspace} (c : ClassId) (descriptor vtableEntity : Option EntityId) (h : w.Built) :
    Built (Action.onRegistry (fun r => r.modifyClass c fun cls => { cls with descriptor, vtableEntity }) w).2
  | linkMethod {w : Workspace} (m : MethodRef) (entity : Option EntityId) (h : w.Built) :
    Built (Action.onRegistry (fun r => r.modifyMethod m fun method => { method with entity }) w).2
  | linkField {w : Workspace} (c : ClassId) (i : Nat) (entity : Option EntityId) (h : w.Built) :
    Built (Action.onRegistry (fun r => r.modifyField c i fun f => { f with entity }) w).2
  -- Entities, graphs, the session and the trace are free.
  | elsewhere {w w' : Workspace} (target : w'.target = w.target) (registry : w'.registry = w.registry)
    (types : w'.program.types = w.program.types) (layouts : w'.layouts = w.layouts) (h : w.Built) : Built w'

theorem Class.Declared.modifyMethod {cls : Class} (h : cls.Declared) (i : Nat) {f : Method → Method}
    (hf : ∀ m : Method, m.Declared → (f m).Declared) : Class.Declared { cls with methods := cls.methods.modify i f } := by
  refine ⟨fun m hm => ?_, h.fields, h.vtable_of_interface⟩
  obtain ⟨j, hj⟩ := Array.mem_iff_getElem?.1 hm
  rw [Array.getElem?_modify] at hj
  split_ifs at hj
  · obtain ⟨m0, hm0, rfl⟩ := Option.map_eq_some_iff.1 hj
    exact hf m0 (h.methods m0 (Array.mem_of_getElem? hm0))
  · exact h.methods m (Array.mem_of_getElem? hj)

theorem Class.Declared.modifyField {cls : Class} (h : cls.Declared) (i : Nat) {f : Field → Field}
    (hf : ∀ fd : Field, fd.Declared → (f fd).Declared) : Class.Declared { cls with fields := cls.fields.modify i f } := by
  refine ⟨h.methods, fun fd hfd => ?_, h.vtable_of_interface⟩
  obtain ⟨j, hj⟩ := Array.mem_iff_getElem?.1 hfd
  rw [Array.getElem?_modify] at hj
  split_ifs at hj
  · obtain ⟨f0, hf0, rfl⟩ := Option.map_eq_some_iff.1 hj
    exact hf f0 (h.fields f0 (Array.mem_of_getElem? hf0))
  · exact h.fields fd (Array.mem_of_getElem? hj)

theorem Workspace.Built.declared (h : w.Built) : w.Declared := by
  induction h with
  | start target => exact Registry.declared_empty
  | declare name access external _ ih => exact keeps_declare name access external _ ih
  | inherit c super interfaces _ ih =>
    apply keeps_modifyClass _ _ ih
    exact fun cls hcls => ⟨hcls.methods, hcls.fields, hcls.vtable_of_interface⟩
  | addMethod c name descriptor access ops _ ih => exact keeps_addMethod c name descriptor access ops _ ih
  | addField c name descriptor access _ ih => exact keeps_addField c name descriptor access _ ih
  | layOutAll _ ih => exact keeps_layOutAll keeps_layOut _ ih
  | assignAllSlots _ ih => exact keeps_assignAllSlots keeps_assignSlots _ ih
  | newType shape _ ih => exact ih
  | setType t shape _ _ ih => exact ih
  | layoutOf t _ ih => exact Action.keeps_layoutOf (fun _ _ hw => hw) _ ih
  | linkClass c descriptor vtableEntity _ ih =>
    apply keeps_modifyClass _ _ ih
    exact fun cls hcls => ⟨hcls.methods, hcls.fields, hcls.vtable_of_interface⟩
  | linkMethod m entity _ ih =>
    apply keeps_modifyClass _ _ ih
    exact fun cls hcls => hcls.modifyMethod m.index fun _ hm => ⟨hm.inVtable_iff, hm.slot_of_excluded, hm.params⟩
  | linkField c i entity _ ih =>
    apply keeps_modifyClass _ _ ih
    exact fun cls hcls => hcls.modifyField i fun _ hf => ⟨hf.type_cases, hf.offset_of_static⟩
  | elsewhere _ registry _ _ _ ih =>
    rw [Workspace.Declared, registry]
    exact ih

theorem Workspace.Built.params (h : w.Built) {ref : MethodRef} {m : Method} (hm : w.registry.method? ref = some m) :
    ∀ p ∈ m.params, p ≠ .void := by
  intro p hp
  obtain ⟨cls, hcls, hmethod⟩ := Option.bind_eq_some_iff.1 hm
  rcases ((h.declared _ cls hcls).methods m (Array.mem_of_getElem? hmethod)).params p hp with ⟨_, rfl⟩ | ⟨_, rfl⟩ <;> simp

/-! ### Types and layouts -/

/-- Whether the types of the modes are in place, and the known layouts are sound. -/
structure Workspace.TypesSound (w : Workspace) : Prop where
  shared : ∀ mode : Mode, w.program.types.shape? mode.typeId = some (.primitive mode)
  layouts : Layout.Sound w.program.types w.target w.layouts

theorem TypeTable.shape?_initial (mode : Mode) : TypeTable.initial.shape? mode.typeId = some (.primitive mode) := by
  cases mode <;> rfl

theorem Layout.sound_empty (types : TypeTable) (target : Target) : Layout.Sound types target ∅ :=
  ⟨by simp, by simp⟩

theorem Mode.typeId_lt (mode : Mode) : mode.typeId < unknownType := by cases mode <;> decide

theorem Workspace.TypesSound.push (h : w.TypesSound) (shape : Shape) :
    Workspace.TypesSound { w with program := (w.program.addType shape).2 } where
  shared mode := w.program.types.extends_push shape _ _ (h.shared mode)
  layouts := by
    refine ⟨fun t l hl => ?_, h.layouts.scalars⟩
    have hlt := h.layouts.bounded t l hl
    show t < (w.program.types.shapes.push shape).size
    rw [Array.size_push]
    omega

theorem Workspace.TypesSound.set (h : w.TypesSound) {t : TypeId} (ht : unknownType ≤ t) (shape : Shape) :
    Workspace.TypesSound { w with program := { w.program with types := w.program.types.set t shape } } where
  shared mode := by
    have hne : t ≠ mode.typeId := (mode.typeId_lt.trans_le ht).ne'
    show (w.program.types.shapes.setIfInBounds t shape)[mode.typeId]? = _
    rw [Array.getElem?_setIfInBounds_ne hne]
    exact h.shared mode
  layouts := by
    refine ⟨fun t' l hl => ?_, h.layouts.scalars⟩
    show t' < (w.program.types.shapes.setIfInBounds t shape).size
    rw [Array.size_setIfInBounds]
    exact h.layouts.bounded t' l hl

section

open ClassAbi.Action

theorem keeps_types_layoutOf (t : Option TypeId) : Keeps Workspace.TypesSound (layoutOf t) :=
  keeps_layoutOf fun w t hw => ⟨hw.shared, Layout.keeps_layoutOf hw.shared t w.layouts hw.layouts⟩

theorem keeps_types_onRegistry (f : Registry → Registry) : Keeps Workspace.TypesSound (onRegistry f) :=
  keeps_onRegistry fun _ hw => ⟨hw.shared, hw.layouts⟩

theorem keeps_types_layOut (c : ClassId) : Keeps Workspace.TypesSound (Class.layOut c) :=
  keeps_layOut_of (fun _ shape hw => hw.push shape)
    (fun w t hw => ⟨hw.shared, Layout.keeps_layoutOf hw.shared t w.layouts hw.layouts⟩) (fun _ _ _ => keeps_types_onRegistry _) c

end

/-- In every workspace the types of the modes are in place, and what is known of layouts is sound. -/
theorem Workspace.Built.typesSound (h : w.Built) : w.TypesSound := by
  induction h with
  | start target => exact ⟨TypeTable.shape?_initial, Layout.sound_empty _ _⟩
  | declare name access external _ ih =>
    exact Action.keeps_registry.bind (fun _ => (Action.keeps_ofExcept _ _).bind fun _ =>
      (keeps_modify fun _ hw => ⟨hw.shared, hw.layouts⟩).bind fun _ => keeps_pure _) _ ih
  | addMethod c name descriptor access ops _ ih =>
    exact (Action.keeps_class' c).bind (fun _ => Action.keeps_registry.bind fun _ => (Action.keeps_ofExcept _ _).bind fun _ =>
      keeps_types_onRegistry _) _ ih
  | addField c name descriptor access _ ih =>
    exact Action.keeps_registry.bind (fun _ => (Action.keeps_ofExcept _ _).bind fun _ => keeps_types_onRegistry _) _ ih
  | layOutAll _ ih => exact keeps_layOutAll keeps_types_layOut _ ih
  | assignAllSlots _ ih =>
    exact keeps_assignAllSlots (keeps_assignSlots_of fun _ _ _ => keeps_types_onRegistry _) _ ih
  | newType shape _ ih => exact ih.push shape
  | setType t shape ht _ ih => exact ih.set ht shape
  | layoutOf t _ ih => exact keeps_types_layoutOf t _ ih
  | inherit | linkClass | linkMethod | linkField =>
    rename_i ih
    exact keeps_types_onRegistry _ _ ih
  | elsewhere target _ types layouts _ ih =>
    refine ⟨types ▸ ih.shared, ?_⟩
    rw [target, types, layouts]
    exact ih.layouts

/-! ### Two classes -/

theorem declare_apply {name : Text} {access : Access} {external : Bool} (hempty : name.isEmpty = false)
    (hdot : name.contains 0x2E = false) (hnew : w.registry.byName.contains name = false) :
    Class.declare name access external w = (.ok w.registry.classes.size, { w with registry :=
      ⟨w.registry.classes.push { name, access, external }, w.registry.byName.insert name w.registry.classes.size⟩ }) := by
  have hdeclare : w.registry.declare name access external = .ok (w.registry.classes.size,
      ⟨w.registry.classes.push { name, access, external }, w.registry.byName.insert name w.registry.classes.size⟩) := by
    simp only [Registry.declare, hempty, hdot, hnew, Bool.false_eq_true]
    rfl
  show (do
    let declared ← Action.ofExcept .cls (w.registry.declare name access external)
    modify fun w => { w with registry := declared.2 }
    return declared.1 : Action ClassId) w = _
  rw [hdeclare]
  rfl

/-- A class and a subclass that both declare `m()V`, the subclass with the given flags. -/
def twoClasses (access : Access) : Workspace :=
  let classes : Registry :=
    ⟨#[{ name := "A", access := ⟨1⟩, external := false }, { name := "B", access := ⟨1⟩, external := false, super := some 0 }],
      ((∅ : Std.HashMap Text ClassId).insert "A" 0).insert "B" 1⟩
  (Class.addMethod 1 "m" "()V" access [] (Class.addMethod 0 "m" "()V" ⟨1⟩ [] { target := .linux64, registry := classes }).2).2

theorem built_twoClasses (access : Access) : (twoClasses access).Built := by
  have hA := Workspace.Built.declare "A" ⟨1⟩ false (.start .linux64)
  rw [declare_apply (by decide) (by decide) (by simp)] at hA
  have hB := Workspace.Built.declare "B" ⟨1⟩ false hA
  rw [declare_apply (by decide) (by decide) (by simp; decide)] at hB
  exact .addMethod 1 "m" "()V" access [] (.addMethod 0 "m" "()V" ⟨1⟩ [] (.inherit 1 (some 0) [] hB))

end ClassAbi
