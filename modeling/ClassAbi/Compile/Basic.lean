import ClassAbi.Compile.Stage
import ClassAbi.Manifest.Basic
import ClassAbi.Reach.Snapshot
import ClassAbi.Workspace

/-!
# Compilations

What is asked of a compilation, what it has made so far, and its surroundings: the files, the clock, the receivers of its
reports and of its trace, and whoever may cancel it.
-/

namespace ClassAbi

structure Request where
  manifests : List Text
  /-- The target, if it is not to be that of the manifests. -/
  target : Text := []
  /-- Whether classes are entered in the list of the classes to register, whatever the manifests say. -/
  registers : Bool := false
  trace : Trace.Level := .off
  deriving Repr, Inhabited

structure Phase where
  stage : Stage
  elapsed : Int := 0
  note : Text := []
  deriving Repr, DecidableEq, BEq, Inhabited

structure Compilation where
  workspace : Workspace := { target := Target.linux64 }
  build : BuildSettings := {}
  target : Option Target := none
  loaded : Bool := false
  /-- The number of bodies that were built. -/
  lowered : Nat := 0
  index : Option Reach.Index := none
  calls : List Reach.InitCall := []
  module : Text := []
  /-- The stages that were started, in order. -/
  phases : List Phase := []
  timings : Timings := []
  /-- The number of trace events that were handed on. -/
  traced : Nat := 0

namespace Compilation

/-- The triple of the target, empty as long as it is not known. -/
def triple (c : Compilation) : Text := (c.target.map Target.triple).getD []

def snapshot (c : Compilation) : Option Reach.Snapshot :=
  c.index.map fun x => x.snapshot c.workspace.program c.workspace.registry c.triple c.calls

end Compilation

structure Surroundings (m : Type → Type) where
  load : Text → m (Except ManifestError Manifest)
  /-- The clock, in nanoseconds. -/
  now : m Int
  notify : Progress → m Unit
  trace : List Trace.Event → m Unit
  cancelled : m Bool

/-- A step of a compilation in its surroundings. A step that fails keeps what it had made before. -/
abbrev Compile (m : Type → Type) := ExceptT (Failure Error) (StateT Compilation m)

end ClassAbi
