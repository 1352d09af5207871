import ClassAbi.Files.Error

/-!
# Hosts

What a command needs from the machine it runs on: files, a clock, and places to print.
-/

namespace ClassAbi

class Host (m : Type → Type) where
  /-- A file that is open for writing. -/
  Handle : Type
  readFile : Text → m (Except FileError Text)
  /-- Makes an empty file, in the place of the content of an earlier one, and opens it. -/
  createFile : Text → m (Except FileError Handle)
  /-- Adds to an open file, which may have lost its name since it was opened. -/
  append : Handle → Text → m Unit
  /-- Makes a directory and those that lead to it. -/
  makeDirectory : Text → m (Except FileError Unit)
  makeTemporary : (dir content : Text) → m (Except FileError Text)
  /-- Gives a file another name, in the place of an earlier file. -/
  rename : (old new : Text) → m (Except FileError Unit)
  removeFile : Text → m Unit
  /-- The clock, in nanoseconds. -/
  now : m Int
  isTerminal : m Bool
  print : Text → m Unit
  printError : Text → m Unit
  /-- Prints a trace that is not written to a file. -/
  printTrace : Text → m Unit

/-- A computation that may fail runs on the same machine, and what it did before a failure stays done. -/
instance {m : Type → Type} {ε : Type} [Monad m] [Host m] : Host (ExceptT ε m) where
  Handle := Host.Handle m
  readFile path := ExceptT.lift (Host.readFile path)
  createFile path := ExceptT.lift (Host.createFile path)
  append file content := ExceptT.lift (Host.append file content)
  makeDirectory path := ExceptT.lift (Host.makeDirectory path)
  makeTemporary dir content := ExceptT.lift (Host.makeTemporary dir content)
  rename old new := ExceptT.lift (Host.rename old new)
  removeFile path := ExceptT.lift (Host.removeFile path)
  now := ExceptT.lift Host.now
  isTerminal := ExceptT.lift Host.isTerminal
  print t := ExceptT.lift (Host.print t)
  printError t := ExceptT.lift (Host.printError t)
  printTrace t := ExceptT.lift (Host.printTrace t)

end ClassAbi
