import ClassAbi.CommandLine.Run

/-!
# The command line

Runs the tool on the machine itself.
-/

open ClassAbi

def FileCause.ofIO : IO.Error → FileCause
  | .noFileOrDirectory .. => .notFound
  | .alreadyExists .. => .alreadyExists
  | .inappropriateType .. => .notDirectory
  | .permissionDenied .. => .other "permission denied"
  | e => .other (toString e)

def attempt {α : Type} (operation : String) (paths : List Text) (action : IO α) : IO (Except FileError α) := do
  try return .ok (← action)
  catch e => return .error ⟨operation, paths, FileCause.ofIO e⟩

def bytesOf (t : Text) : ByteArray := ⟨t.toArray⟩

def pathOf (t : Text) : String := t.toString?.getD ""

instance : Host IO where
  readFile path := attempt "open" [path] do return (← IO.FS.readBinFile (pathOf path)).data.toList
  Handle := IO.FS.Handle
  createFile path := attempt "open" [path] (IO.FS.Handle.mk (pathOf path) .write)
  append file content := try file.write (bytesOf content) catch _ => pure ()
  makeDirectory path := attempt "mkdir" [path] (IO.FS.createDirAll (pathOf path))
  makeTemporary dir content := do
    let path := Path.inDirectory dir ("tmp-" ++ Text.ofNat (← IO.monoNanosNow))
    attempt "open" [path] do
      IO.FS.writeBinFile (pathOf path) (bytesOf content)
      return path
  rename old new := attempt "rename" [old, new] (IO.FS.rename (pathOf old) (pathOf new))
  removeFile path := try IO.FS.removeFile (pathOf path) catch _ => pure ()
  now := return Int.ofNat (← IO.monoNanosNow)
  isTerminal := do (← IO.getStdout).isTty
  print t := do (← IO.getStdout).write (bytesOf t)
  printError t := do (← IO.getStderr).write (bytesOf t)
  printTrace t := do (← IO.getStderr).write (bytesOf t)

def main (arguments : List String) : IO UInt32 := do
  match ← CommandLine.run (arguments.map Text.ofString) with
  | (.ok _, _) => return 0
  | (.error e, colours) =>
    let message : Text := match e with
      | .error e => e.message
      | .fault => "internal fault"
    Host.printError (CommandLine.bad colours "error: " ++ message ++ "\n")
    return 1
