import ClassAbi.Class.Hierarchy
import ClassAbi.Workspace

/-!
# Vtable slots

A class takes over the slots of its superclass. A method that overrides another takes its slot, and a new one is put at the
end, so a slot means the same method in all subclasses. Slots are numbered after a header of four.
-/

namespace ClassAbi

def headerSlots : Nat := 4

/-- What distinguishes methods for dispatch: the name and the descriptor. -/
abbrev MethodKey := Text × Text

def Method.key (m : Method) : MethodKey := (m.name, m.descriptor)

/-- The methods in a vtable, and for each key its first position. -/
structure SlotTable where
  slots : Array MethodRef := #[]
  index : Std.HashMap MethodKey Nat := ∅

namespace SlotTable

def ofVtable (r : Registry) (vtable : Array MethodRef) : SlotTable where
  slots := vtable
  index := vtable.toList.zipIdx.foldl (fun index (m, i) =>
    match r.method? m with
    | some method => index.insertIfNew method.key i
    | none => index) ∅

/-- The position for a method, and the table in which the method has it: that of a method with the same key, or else a new
one at the end. -/
def place (t : SlotTable) (key : MethodKey) (m : MethodRef) : Nat × SlotTable :=
  match t.index[key]? with
  | some i => (i, { t with slots := t.slots.setIfInBounds i m })
  | none => (t.slots.size, ⟨t.slots.push m, t.index.insert key t.slots.size⟩)

/-- The methods of a class with their slots, and the table with those that are in the vtable. The class is `c`, and
`before` methods come before these. -/
def placeAll (c : ClassId) : (before : Nat) → SlotTable → List Method → List Method × SlotTable
  | _, t, [] => ([], t)
  | before, t, m :: methods =>
    if m.inVtable then
      let (i, t) := t.place m.key ⟨c, before⟩
      let (methods, t) := placeAll c (before + 1) t methods
      ({ m with slot := headerSlots + i } :: methods, t)
    else
      let (methods, t) := placeAll c (before + 1) t methods
      (m :: methods, t)

end SlotTable

namespace Class

/-- The slots that a class takes over from its superclass, which must have its own. -/
def inheritedSlots (cls : Class) : Action (Array MethodRef) :=
  match cls.super with
  | none => return #[]
  | some s => do
    let super ← Action.class' s
    if super.dispatchFinal then return super.vtable
    else Action.fail (.within (.dispatchOf cls.name) (.cls (.superWithoutSlots super.name)))

/-- Gives slots to the methods of a class that takes over the `inherited` ones. Slot numbers have 16 bits, of which the
greatest stands for no slot. -/
def fillSlots (c : ClassId) (cls : Class) (inherited : Array MethodRef) : Action Unit := do
  let (methods, table) := SlotTable.placeAll c 0 (.ofVtable (← Action.registry) inherited) cls.methods.toList
  Action.onRegistry fun r => r.modifyClass c fun cls => { cls with methods := methods.toArray }
  let size := headerSlots + table.slots.size
  if 0xFFFF ≤ size then Action.fail (.within (.dispatchOf cls.name) (.cls (.tooManySlots size)))
  else
    Action.onRegistry fun r => r.modifyClass c fun cls =>
      { cls with vtable := table.slots, vtableSize := size, dispatchFinal := true }

def assignSlots (c : ClassId) : Action Unit := do
  let cls ← Action.class' c
  if cls.needsVtable then fillSlots c cls (← inheritedSlots cls)
  else Action.onRegistry fun r => r.modifyClass c fun cls => { cls with dispatchFinal := true }

def assignAllSlots : Action Unit := do
  let order ← Action.ofExcept .cls (← Action.registry).superToSub
  order.forM assignSlots

end Class

end ClassAbi
