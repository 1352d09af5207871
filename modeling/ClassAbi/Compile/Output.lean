import ClassAbi.Compile.Run
import ClassAbi.Files.Host
import ClassAbi.Files.Path
import ClassAbi.Manifest.Read
import ClassAbi.Reach.IndexFile

/-!
# Output files

The module and the index are written under one name with different endings, once the compilation has succeeded. A file is
first written under another name and then renamed, so that a reader never sees a part of it.
-/

namespace ClassAbi

inductive OutputError where
  | index (cause : FileError)
  | module (cause : FileError)
  deriving Repr, DecidableEq, BEq

def OutputError.message : OutputError → Text
  | index cause => "write index: " ++ cause.message
  | module cause => "write module: " ++ cause.message

structure Outputs where
  base : Text
  index : Bool
  deriving Repr, DecidableEq, BEq, Inhabited

namespace Outputs

def modulePath (o : Outputs) : Text := o.base ++ ".ll"

def indexPath (o : Outputs) : Text := o.base ++ ".rta"

end Outputs

/-- The path of the output files without their endings: what is asked for, or else what the manifests say, or else the
name of the first manifest. -/
def outputBase (asked setting : Text) (manifests : List Text) : Text :=
  let fromManifest := (manifests.head?.map Path.withoutExtension).getD []
  let base := ([asked, setting, fromManifest].find? (!·.isEmpty)).getD "a"
  (Text.before? ".ll" base).getD base

variable {m : Type → Type} [Monad m] [Host m]

def writeAtomically (path content : Text) : m (Except FileError Unit) := do
  let dir := Path.directory path
  match ← Host.makeDirectory dir with
  | .error e => return .error e
  | .ok _ =>
    match ← Host.makeTemporary dir content with
    | .error e => return .error e
    | .ok temporary =>
      match ← Host.rename temporary path with
      | .ok _ => return .ok ()
      | .error e =>
        Host.removeFile temporary
        return .error e

/-- Writes the index, if that is asked for, and the module. If the module cannot be written, there is no index either. -/
def writeOutputs (o : Outputs) (c : Compilation) : m (Except OutputError Unit) := do
  if o.index then
    match ← writeAtomically o.indexPath ((c.snapshot.map Reach.Snapshot.encode).getD []) with
    | .error e => return .error (.index e)
    | .ok _ => pure ()
  match ← writeAtomically o.modulePath c.module with
  | .ok _ => return .ok ()
  | .error e =>
    if o.index then Host.removeFile o.indexPath
    return .error (.module e)

def loadManifest (path : Text) : m (Except ManifestError Manifest) := do
  match ← Host.readFile path with
  | .error cause => return .error { path, cause := .unreadable cause }
  | .ok content => return Manifest.read path content

def Surroundings.ofHost (notify : Progress → m Unit) (trace : List Trace.Event → m Unit) : Surroundings m where
  load := loadManifest
  now := Host.now
  notify
  trace
  cancelled := pure false

structure BuildRequest extends Request where
  /-- The path of the output files without their endings. If there is none, the manifests settle it. -/
  output : Text := []
  index : Bool := false
  deriving Repr, Inhabited

inductive BuildError where
  | compilation (cause : Error)
  | output (cause : OutputError)
  deriving Repr

/-- Compiles manifests, and writes the output files once all stages have succeeded. The files are given if it came to
writing them. -/
def Compile.build (s : Surroundings m) (req : BuildRequest) : m (Outcome BuildError Unit × Compilation × Option Outputs) := do
  let (result, c) ← Compile.run s (some req.toRequest)
  match result with
  | .error .fault => return (.error .fault, c, none)
  | .error (.error e) => return (.error (.error (.compilation e)), c, none)
  | .ok _ =>
    let outputs : Outputs := ⟨outputBase req.output c.build.output req.manifests, req.index⟩
    match ← writeOutputs outputs c with
    | .ok _ => return (.ok (), c, some outputs)
    | .error e => return (.error (.error (.output e)), c, some outputs)

end ClassAbi
