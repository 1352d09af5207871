import ClassAbi.Class.Instance
import ClassAbi.LinkerName.Encode

/-!
# Entities of members

Every method has a routine in the program, and every static field has storage. Those of classes that the runtime provides
are only declared, and so are methods without a body.
-/

namespace ClassAbi

/-- The signature of the routine of a method. An instance method takes the object first. -/
def Method.signature (m : Method) : Signature where
  params := (if m.access.isStatic then [] else [some Mode.pointer.typeId]) ++
    m.params.map fun p => some p.mode.typeId
  results := if m.result = .void then [] else [some m.result.mode.typeId]
  noReturn := false

namespace Class

def createRoutine (c : ClassId) (cls : Class) (i : Nat) (m : Method) : Action Unit := do
  let ld ← Action.ofExcept .encode (LinkerName.ofMethod cls.name m.name m.descriptor)
  let type ← Action.newType (.routine m.signature)
  let target := (← get).target
  let e ← Action.within (.method cls.name m.name m.descriptor)
    (Action.newEntity (m.name ++ "." ++ m.descriptor) (target.decorate ld) type)
  if cls.external || m.access.isAbstract || m.access.isNative then
    Action.modifyEntity e fun ent => { ent with visibility := .external }
  Action.onRegistry fun r => r.modifyMethod ⟨c, i⟩ fun m => { m with entity := some e }

def createStorage (c : ClassId) (cls : Class) (i : Nat) (f : Field) : Action Unit := do
  let ld ← Action.ofExcept .encode (LinkerName.ofField cls.name f.name)
  let type := (← Action.registry).storageType f.type
  let target := (← get).target
  let e ← Action.within (.field cls.name f.name) (Action.newEntity f.name (target.decorate ld) type)
  Action.modifyEntity e fun ent =>
    if cls.external then { ent with visibility := .external } else { ent with init := some .null }
  Action.onRegistry fun r => r.modifyField c i fun f => { f with entity := some e }

def createMembers (c : ClassId) : Action Unit := do
  let cls ← Action.class' c
  cls.methods.toList.zipIdx.forM fun (m, i) => createRoutine c cls i m
  cls.fields.toList.zipIdx.forM fun (f, i) => do
    if f.access.isStatic then createStorage c cls i f

def createAllMembers : Action Unit := do
  (List.range (← Action.registry).classes.size).forM createMembers

end Class

end ClassAbi
