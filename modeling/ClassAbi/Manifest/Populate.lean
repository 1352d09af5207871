import ClassAbi.Class.Declare
import ClassAbi.Manifest.RuntimeLibrary

/-!
# Classes of manifests

Enters the classes of manifests into the registry. All classes are declared first, so supertypes and descriptors may name
classes of any manifest.
-/

namespace ClassAbi.Manifest

open ClassAbi.Action

def defaultSuper : Text := "java/lang/Object"

/-- The name of the superclass of a declared class, empty for the root. -/
def superName (spec : ClassSpec) : Text :=
  match spec.super.isEmpty && spec.name != defaultSuper with
  | true => defaultSuper
  | false => spec.super

/-- A declaration, the path of its manifest, and the class that was registered for it. -/
structure Pending where
  path : Text
  spec : ClassSpec
  cls : ClassId

def complain {α : Type} (path cls : Text) (cause : ManifestCause) : Action α := fail (.manifest ⟨path, cls, cause⟩)

def accessOf (path cls : Text) (words : List Text) : Action Access :=
  match Access.ofWords words with
  | .ok access => return access
  | .error e => complain path cls (.badAccess e)

def classNamed (path cls name : Text) : Action ClassId := do
  match (← registry).find? name with
  | some c => return c
  | none => complain path cls (.unknownClass name)

def declareSpec (path : Text) (spec : ClassSpec) : Action Pending := do
  let access ← accessOf path spec.name spec.access
  let r ← registry
  if (r.find? spec.name).isSome then complain path spec.name .duplicate
  match r.declare spec.name access spec.external with
  | .error _ => complain path spec.name (.missing "valid internal name")
  | .ok (cls, registry) =>
    modify fun w => { w with registry }
    return ⟨path, spec, cls⟩

/-- Sets the supertypes of a declared class. Only the root class has no superclass. -/
def link (p : Pending) : Action Unit := do
  match superName p.spec with
  | [] => pure ()
  | super =>
    let s ← classNamed p.path p.spec.name super
    onRegistry fun r => r.modifyClass p.cls fun c => { c with super := some s }
  p.spec.interfaces.forM fun name => do
    let i ← classNamed p.path p.spec.name name
    onRegistry fun r => r.modifyClass p.cls fun c => { c with interfaces := c.interfaces ++ [i] }

def describing (path cls descriptor : Text) (action : Action Unit) : Action Unit := fun w =>
  let (result, w) := action w
  (Outcome.mapError (fun
    | .cls cause => .manifest ⟨path, cls, .badDescriptor descriptor cause⟩
    | e => e) result, w)

/-- Adds the members of a declared class. Methods of interfaces are abstract, static initializers apart. -/
def addMembers (p : Pending) : Action Unit := do
  let name := p.spec.name
  p.spec.fields.forM fun f => do
    let access ← accessOf p.path name f.access
    describing p.path name f.descriptor (Class.addField p.cls f.name f.descriptor access)
  p.spec.methods.forM fun m => do
    let access ← accessOf p.path name m.access
    let cls ← class' p.cls
    let access := if cls.isInterface && m.name != Text.ofString "<clinit>" then access.union .abstract else access
    describing p.path name m.descriptor (Class.addMethod p.cls m.name m.descriptor access m.ops)

def populate (ms : List Manifest) : Action Unit := do
  let pending ← (ms.flatMap fun m => m.classes.map fun c => (m.path, c)).mapM fun (path, c) => declareSpec path c
  pending.forM link
  pending.forM addMembers

end ClassAbi.Manifest
