import ClassAbi.Manifest.Error
import ClassAbi.Text.Space

/-!
# Manifests

A manifest declares a set of classes and the settings for building them. Several manifests are taken together; a setting
that more than one of them gives must be the same in all.
-/

namespace ClassAbi

structure BuildSettings where
  target : Text := []
  registers : Bool := false
  output : Text := []
  deriving Repr, DecidableEq, BEq, Inhabited

structure MethodSpec where
  name : Text := []
  descriptor : Text := []
  access : List Text := []
  ops : List Text := []
  deriving Repr, DecidableEq, BEq, Inhabited

structure FieldSpec where
  name : Text := []
  descriptor : Text := []
  access : List Text := []
  deriving Repr, DecidableEq, BEq, Inhabited

structure ClassSpec where
  name : Text := []
  super : Text := []
  interfaces : List Text := []
  access : List Text := []
  external : Bool := false
  methods : List MethodSpec := []
  fields : List FieldSpec := []
  deriving Repr, DecidableEq, BEq, Inhabited

structure Manifest where
  path : Text := []
  build : BuildSettings := {}
  classes : List ClassSpec := []
  deriving Repr, DecidableEq, BEq, Inhabited

namespace ClassSpec

def isBlank (t : Text) : Bool := t.trim.isEmpty

/-- The declaration with blanks removed around its name, if every name and descriptor in it is given. -/
def checked (path : Text) (c : ClassSpec) : Except ManifestError ClassSpec :=
  let c := { c with name := c.name.trim }
  if c.name.isEmpty then .error { path, cause := .missing "[[class]].name" }
  else if c.methods.any fun m => isBlank m.name || isBlank m.descriptor then
    .error { path, cls := c.name, cause := .missing "method name or desc" }
  else if c.fields.any fun f => isBlank f.name || isBlank f.descriptor then
    .error { path, cls := c.name, cause := .missing "field name or desc" }
  else .ok c

end ClassSpec

namespace Manifest

/-- The manifest with all its declarations checked. One without classes must have a table of settings. -/
def checked (m : Manifest) (hasBuild : Bool) : Except ManifestError Manifest := do
  if m.classes.isEmpty && !hasBuild then .error { path := m.path, cause := .missing "[build] or [[class]]" }
  return { m with classes := ← m.classes.mapM (ClassSpec.checked m.path) }

def agree (path setting : Text) (given : Option (Text × Text)) (value : Text) :
    Except ManifestError (Option (Text × Text)) :=
  if value.isEmpty then .ok given
  else match given with
    | some (earlier, source) =>
      if earlier = value then .ok (some (value, path)) else .error { path, cause := .conflict setting source }
    | none => .ok (some (value, path))

/-- The settings of manifests after earlier ones gave `target` and `output`, each with its path, and `registers`. -/
def mergeFrom (target output : Option (Text × Text)) (registers : Bool) :
    List Manifest → Except ManifestError BuildSettings
  | [] => .ok ⟨(target.map Prod.fst).getD [], registers, (output.map Prod.fst).getD []⟩
  | m :: rest => do
    let target ← agree m.path "target" target m.build.target
    let output ← agree m.path "output" output m.build.output
    mergeFrom target output (registers || m.build.registers) rest

def mergeBuild (ms : List Manifest) : Except ManifestError BuildSettings := mergeFrom none none false ms

end Manifest

end ClassAbi
