import ClassAbi.Files.Host
import ClassAbi.Files.Path

/-!
# Trees of files

Directories and files around the directory that paths start from. A path is followed part by part: every part but the last
has to lead to a directory that is there, also before `..`. A file has a number of its own, which it keeps under a new
name, so that who has opened it still finds it.
-/

namespace ClassAbi

inductive FileNode where
  | directory (entries : List (Text × FileNode))
  | file (number : Nat)
  /-- A device that holds nothing and drops what is written to it. -/
  | device
  deriving Repr, Inhabited

abbrev FileEntries := List (Text × FileNode)

/-- A place in a tree: the parts that lead to it, the last one first. Those of a place above the start begin with `..`, and
those of a place from the root on with a slash. -/
abbrev FilePlace := List Text

namespace FileNode

def entries : FileNode → FileEntries
  | directory entries => entries
  | _ => []

def isDirectory : FileNode → Bool
  | directory _ => true
  | _ => false

def files (place : FilePlace) : FileNode → List (FilePlace × Nat)
  | directory entries => filesIn place entries
  | file number => [(place, number)]
  | device => []
where
  /-- The files below a place, by its entries. -/
  filesIn (place : FilePlace) : FileEntries → List (FilePlace × Nat)
    | [] => []
    | (name, node) :: rest => node.files (name :: place) ++ filesIn place rest

end FileNode

namespace FileEntries

def get? : (parts : List Text) → FileEntries → Option FileNode
  | [], entries => some (.directory entries)
  | part :: parts, entries =>
    match parts, entries.lookup part with
    | [], node => node
    | parts, some (.directory inner) => get? parts inner
    | _, _ => none

/-- The entries with a node, or without one, where the parts lead. Directories on the way are made. -/
def set (node : Option FileNode) : (parts : List Text) → FileEntries → FileEntries
  | [], entries => entries
  | part :: parts, entries =>
    let others := entries.filter (·.1 != part)
    if parts.isEmpty then others ++ (node.map (part, ·)).toList
    else others ++ [(part, .directory (set node parts ((entries.lookup part).map FileNode.entries |>.getD [])))]

end FileEntries

/-- The files and directories of a machine, and the contents of the files by their numbers. -/
structure FileTree where
  root : FileEntries := [("/", .directory [("dev", .directory [("null", .device)])])]
  contents : Array Text := #[]
  deriving Repr, Inhabited

/-- The place that `.` or `..` leads to from a directory. There is nothing above the root. -/
def FilePlace.step (dir : FilePlace) (dots : Text) : FilePlace :=
  if dots = Text.ofString "." then dir
  else match dir with
    | [] => [dots]
    | last :: rest =>
      if last = Text.ofString ".." then dots :: dir else if last = Text.ofString "/" then dir else rest

inductive Destination where
  /-- A directory that is there. -/
  | directory
  /-- A name in a directory that is there. A slash after the name asks for a directory. -/
  | name (dir : FilePlace) (name : Text) (slashed : Bool)
  deriving Repr, DecidableEq, BEq

namespace FileTree

def nameLimit : Nat := 255

def pathLimit : Nat := 4095

def entriesAt (t : FileTree) (place : FilePlace) : FileEntries :=
  ((FileEntries.get? place.reverse t.root).map FileNode.entries).getD []

def set (t : FileTree) (place : FilePlace) (node : Option FileNode) : FileTree :=
  { t with root := FileEntries.set node place.reverse t.root }

def addFile (t : FileTree) (place : FilePlace) (content : Text) : FileTree :=
  { t.set place (some (.file t.contents.size)) with contents := t.contents.push content }

/-! ### Following paths -/

/-- Whether a part names no file in its directory, but that directory or the one above. -/
def isDots (part : Text) : Bool := part == Text.ofString "." || part == Text.ofString ".."

def lookup (entries : FileEntries) (name : Text) : Except FileCause (Option FileNode) :=
  if nameLimit < name.length then .error .nameTooLong else .ok (entries.lookup name)

def walk (t : FileTree) : (dir : FilePlace) → FileEntries → (parts : List Text) → Except FileCause FilePlace
  | dir, _, [] => .ok dir
  | dir, entries, part :: parts =>
    if isDots part then walk t (dir.step part) (t.entriesAt (dir.step part)) parts
    else match lookup entries part with
      | .error cause => .error cause
      | .ok none => .error .notFound
      | .ok (some (.directory inner)) => walk t (part :: dir) inner parts
      | .ok (some _) => .error .notDirectory

def resolve (t : FileTree) (path : Text) : Except FileCause Destination := do
  if path.contains 0 then throw .invalid
  if path.isEmpty then throw .notFound
  if pathLimit < path.length then throw .nameTooLong
  let parts := (Text.split Path.slash path).filter (!·.isEmpty)
  let start : FilePlace := if Path.isAbsolute path then ["/"] else []
  let dir ← t.walk start (t.entriesAt start) parts.dropLast
  match parts.getLast? with
  | none => return .directory
  | some last =>
    if isDots last then return .directory else return .name dir last (path.getLast? == some Path.slash)

def find (t : FileTree) (path : Text) : Except FileCause FileNode := do
  match ← t.resolve path with
  | .directory => return .directory []
  | .name dir name slashed =>
    match ← lookup (t.entriesAt dir) name with
    | none => throw .notFound
    | some node => if slashed && !node.isDirectory then throw .notDirectory else return node

/-! ### Operations -/

def read (t : FileTree) (path : Text) : Except FileError Text :=
  match t.find path with
  | .error cause => .error ⟨"open", [path], cause⟩
  | .ok (.directory _) => .error ⟨"read", [path], .isDirectory⟩
  | .ok .device => .ok []
  | .ok (.file number) => .ok (t.contents[number]?.getD [])

/-- The tree with an empty file, and its number. A device has none. -/
def create (t : FileTree) (path : Text) : Except FileError (Option Nat × FileTree) :=
  let made : Except FileCause (Option Nat × FileTree) := do
    match ← t.resolve path with
    | .directory | .name _ _ true => throw .isDirectory
    | .name dir name false =>
      match ← lookup (t.entriesAt dir) name with
      | some (.directory _) => throw .isDirectory
      | some .device => return (none, t)
      | some (.file number) => return (some number, { t with contents := t.contents.setIfInBounds number [] })
      | none => return (some t.contents.size, t.addFile (name :: dir) [])
  made.mapError (⟨"open", [path], ·⟩)

def append (t : FileTree) (number : Nat) (more : Text) : FileTree :=
  { t with contents := t.contents.modify number (· ++ more) }

def makeOne (t : FileTree) (path : Text) : Except FileError FileTree :=
  let made : Except FileCause FileTree := do
    match ← t.resolve path with
    | .directory => throw .alreadyExists
    | .name dir name _ =>
      match ← lookup (t.entriesAt dir) name with
      | some _ => throw .alreadyExists
      | none => return t.set (name :: dir) (some (.directory []))
  made.mapError (⟨"mkdir", [path], ·⟩)

/-- The tree with a directory and those that lead to it. Those that could be made before a failure stay. -/
def makeDirectory (t : FileTree) (path : Text) : Except FileError Unit × FileTree :=
  match t.find path with
  | .ok (.directory _) => (.ok (), t)
  | .ok _ => (.error ⟨"mkdir", [path], .notDirectory⟩, t)
  | .error _ =>
    let above := Path.parent path
    let (result, t) := if _h : above = [] then (.ok (), t) else t.makeDirectory above
    match result, t.makeOne path with
    | .error e, _ => (.error e, t)
    | .ok _, .error e => (.error e, t)
    | .ok _, .ok t => (.ok (), t)
termination_by path.length
decreasing_by exact Path.parent_length_lt fun hp => _h (by simp [above, hp, Path.parent])

/-- A name among entries that starts with `name` and is not taken. There are more candidates than entries, so one of the
first `fuel` is free. -/
def freshName (entries : FileEntries) : (fuel : Nat) → (name : Text) → Text
  | 0, name => name
  | fuel + 1, name => if (entries.lookup name).isNone then name else freshName entries fuel (name ++ "*")

def makeTemporary (t : FileTree) (dir content : Text) : Except FileError (Text × FileTree) :=
  let draft := Path.inDirectory dir "tmp-*"
  match t.resolve draft with
  | .error cause => .error ⟨"open", [draft], cause⟩
  | .ok .directory => .error ⟨"open", [draft], .isDirectory⟩
  | .ok (.name place name _) =>
    let entries := t.entriesAt place
    let name := freshName entries (entries.length + 1) name
    .ok (Path.inDirectory dir name, t.addFile (name :: place) content)

/-- The tree in which a file has another name. A directory is not replaced. -/
def rename (t : FileTree) (old new : Text) : Except FileError FileTree :=
  let made : Except FileCause FileTree := do
    match ← t.resolve old, ← t.resolve new with
    | .name source name _, .name dir newName slashed =>
      match ← lookup (t.entriesAt source) name, ← lookup (t.entriesAt dir) newName with
      | none, _ => throw .notFound
      | _, some (.directory _) => throw .alreadyExists
      | some node, _ =>
        if slashed then throw .notDirectory
        return (t.set (name :: source) none).set (newName :: dir) (some node)
    | _, _ => throw .alreadyExists
  made.mapError (⟨"rename", [old, new], ·⟩)

def remove (t : FileTree) (path : Text) : FileTree :=
  match t.resolve path with
  | .ok (.name dir name false) =>
    match (t.entriesAt dir).lookup name with
    | some (.file _) => t.set (name :: dir) none
    | _ => t
  | _ => t

def write (t : FileTree) (path content : Text) : FileTree := t.addFile (Path.parts path).reverse content

def files (t : FileTree) : List (Text × Text) :=
  let below := t.root.filter fun (name, _) => name != Text.ofString ".." && name != Text.ofString "/"
  (FileNode.files [] (.directory below)).map fun (place, number) =>
    (Path.ofParts false place.reverse, t.contents[number]?.getD [])

end FileTree

end ClassAbi
