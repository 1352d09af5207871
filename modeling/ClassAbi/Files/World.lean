import ClassAbi.Files.Tree

/-!
# A machine as a value

A tree of files, and what has been printed. The clock stands still.
-/

namespace ClassAbi

structure World where
  files : FileTree := {}
  printed : Text := []
  errors : Text := []
  deriving Repr, Inhabited

namespace World

def onFiles {α : Type} (f : FileTree → Except FileError (α × FileTree)) : StateM World (Except FileError α) :=
  modifyGet fun w =>
    match f w.files with
    | .ok (a, files) => (.ok a, { w with files })
    | .error e => (.error e, w)

instance : Host (StateM World) where
  Handle := Option Nat
  readFile path := do return (← get).files.read path
  createFile path := onFiles (·.create path)
  append number content := modify fun w =>
    match number with
    | some number => { w with files := w.files.append number content }
    | none => w
  makeDirectory path := modifyGet fun w =>
    let (result, files) := w.files.makeDirectory path
    (result, { w with files })
  makeTemporary dir content := onFiles (·.makeTemporary dir content)
  rename old new := onFiles fun t => (t.rename old new).map ((), ·)
  removeFile path := modify fun w => { w with files := w.files.remove path }
  now := pure 0
  isTerminal := pure false
  print t := modify fun w => { w with printed := w.printed ++ t }
  printError t := modify fun w => { w with errors := w.errors ++ t }
  printTrace _ := pure ()

end World

end ClassAbi
