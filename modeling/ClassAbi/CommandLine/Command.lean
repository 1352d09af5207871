import ClassAbi.CommandLine.Flag
import ClassAbi.Text.Space

/-!
# Commands

The first argument that is no flag and no value of one names the command. Flags before that word are those of the tool
itself, which all commands have. The commands that write scripts have names of two words.
-/

namespace ClassAbi.CommandLine

inductive Shell where
  | bash
  | zsh
  | fish
  | powershell
  deriving Repr, DecidableEq, BEq, Inhabited

def Shell.name : Shell → Text
  | bash => "bash"
  | zsh => "zsh"
  | fish => "fish"
  | powershell => "powershell"

def Shell.all : List Shell := [bash, zsh, fish, powershell]

inductive Command where
  | build
  | reach
  | hash
  | encode
  | decode
  | version
  | number
  | help
  | scripts
  /-- Writes the script by which a shell completes command lines. -/
  | script (shell : Shell)
  /-- Answers a shell that completes a command line. -/
  | complete (summaries : Bool)
  deriving Repr, DecidableEq, BEq, Inhabited

namespace Command

def all : List (Text × Command) :=
  [("build", build), ("rta", reach), ("hash", hash), ("mangle", encode), ("demangle", decode), ("version", version),
    ("help", help), ("completion", scripts)]

def hidden : List (Text × Command) := [("__complete", complete true), ("__completeNoDesc", complete false)]

def name : Command → Text
  | build => "build"
  | reach => "rta"
  | hash => "hash"
  | encode => "mangle"
  | decode => "demangle"
  | version | number => "version"
  | help => "help"
  | scripts => "completion"
  | script shell => "completion " ++ shell.name
  | complete _ => "__complete"

def summary : Command → Text
  | build => "Compile class-set manifests to an LLVM module"
  | reach => "Attribute init-class call sites to static initializers"
  | hash => "Print the 16-bit hash of a UTF8 constant"
  | encode => "Print the linker names of a class or member"
  | decode => "Decode linker names produced by the backend"
  | version | number => "Show build information"
  | help => "Help about any command"
  | scripts => "Generate the autocompletion script for the specified shell"
  | script shell => "Generate the autocompletion script for " ++ shell.name
  | complete _ => "Request shell completion choices for the specified command-line"

def below : Command → List (Text × Command)
  | scripts => Shell.all.map fun shell => (shell.name, script shell)
  | _ => []

/-- Whether a command has work of its own, rather than showing how it is used. -/
def isRunnable : Command → Bool
  | scripts => false
  | _ => true

def readsFlags : Command → Bool
  | complete _ => false
  | _ => true

def common : List Flag :=
  [{ name := "color", summary := "colorize output (auto|on|off)" },
    { name := "quiet", kind := .switch, summary := "suppress non-essential output" },
    { name := "timings", kind := .switch, summary := "show timing information" },
    { name := "trace", summary := "trace output file (- for stderr, .ndjson selects NDJSON)" },
    { name := "trace-level", summary := "trace level (off|error|phase|detail|debug)" },
    { name := "trace-format", summary := "trace format (auto|text|ndjson)" },
    { name := "trace-ring-size", kind := .number, summary := "events kept in memory and dumped when a command fails" }]

def helpFlag (subject : Text) : Flag :=
  { name := "help", letter := some 0x68, kind := .switch, summary := "help for " ++ subject }

def versionFlag : Flag :=
  { name := "version", letter := some 0x76, kind := .switch, summary := "version for " ++ toolName }

def targetFlag : Flag := { name := "target", summary := "target triple (overrides the manifest)" }

def decorationFlag : Flag := { name := "target", summary := "target triple selecting the symbol prefix" }

def own : Command → List Flag
  | build =>
    [targetFlag, { name := "jcr", kind := .switch, summary := "register class descriptors in the .jcr section" },
      { name := "output", letter := some 0x6F, summary := "output path without extension" },
      { name := "emit-index", kind := .switch, summary := "also write the reachability index (<output>.rta)" },
      { name := "jobs", letter := some 0x6A, kind := .number, summary := "manifests parsed in parallel (0 = GOMAXPROCS)" }]
  | reach =>
    [{ name := "index", summary := "read a reachability snapshot instead of compiling" }, targetFlag,
      { name := "classes", kind := .switch, summary := "also list every indexed class" }]
  | encode | decode => [decorationFlag]
  | version => [{ name := "format", summary := "output format (pretty|json)" }]
  | script _ => [{ name := "no-descriptions", kind := .switch, summary := "disable completion descriptions" }]
  | hash | number | help | scripts | complete _ => []

/-- The flags of the tool, or of a command besides those of the tool, with the one that asks for help. -/
def ownWithHelp : Option Command → List Flag
  | none => [helpFlag toolName, versionFlag]
  | some command => command.own ++ [helpFlag (command.name.words.getLastD [])]

def checkCount (c : Command) (words : List Text) : Except UsageError Unit :=
  let n := words.length
  match c, words with
  | .build, _ | .decode, _ | .complete _, _ => if n < 1 then .error (.tooFew 1 n) else .ok ()
  | .hash, _ => if n = 1 then .ok () else .error (.wrongCount 1 n)
  | .encode, _ => if 1 ≤ n ∧ n ≤ 3 then .ok () else .error (.countOutOfRange 1 3 n)
  | .version, word :: _ | .script _, word :: _ => .error (.surplus word c.name)
  | _, _ => .ok ()

end Command

/-! ### Finding the command -/

/-- Whether an argument is a flag that takes the next argument as its value. A flag that is not known counts as one. -/
def takesNext (flags : List Flag) (argument : Text) : Bool :=
  match argument with
  | 0x2D :: 0x2D :: name => !argument.contains 0x3D && !flags.any fun f => f.name == name && f.kind = .switch
  | [0x2D, c] => c != 0x3D && !flags.any fun f => f.letter == some c && f.kind = .switch
  | _ => false

/-- The arguments that are no flags and no values of flags. The search ends at a flag whose value is the last argument. -/
def wordsOf (flags : List Flag) : List Text → List Text
  | [] => []
  | [0x2D, 0x2D] :: _ => []
  | argument :: next =>
    if takesNext flags argument then
      match next with
      | _ :: second :: rest => wordsOf flags (second :: rest)
      | _ => []
    else if argument.isEmpty || argument.head? == some 0x2D then wordsOf flags next
    else argument :: wordsOf flags next

/-- The arguments without the first one that is equal to `word` and no value of a flag. -/
def without (flags : List Flag) (word : Text) : List Text → List Text
  | [] => []
  | argument :: next =>
    if argument == [0x2D, 0x2D] then argument :: next
    else if takesNext flags argument then
      match next with
      | value :: rest => argument :: value :: without flags word rest
      | [] => [argument]
    else if argument == word then next
    else argument :: without flags word next

/-- One more row of the table of distances between the prefixes of two texts, for the next byte `a` of the first text.
`row` is the row before, and `left` the entry to the left of the new ones. -/
def nextDistances (a : UInt8) : (left : Nat) → (row : List Nat) → Text → List Nat
  | left, diagonal :: above :: row, b :: t =>
    let here := if a = b then diagonal else min (min left above) diagonal + 1
    here :: nextDistances a here (above :: row) t
  | _, _, _ => []

/-- The least number of changes of a byte that lead from one text to the other. -/
def distance (s t : Text) : Nat :=
  let first := List.range (t.length + 1)
  let last := s.foldl (fun row a =>
    let left := row.headD 0 + 1
    left :: nextDistances a left row t) first
  last.getLastD 0

/-- The commands that a word may have been meant for: those that differ little from it or start with it. -/
def similar (word : Text) : List Text :=
  (Command.all.map Prod.fst).filter fun name =>
    name != Text.ofString "help" && (distance word.lower name ≤ 2 || name.startsWith word.lower)

def narrow (command : Command) (arguments : List Text) : Command × List Text :=
  match (wordsOf Command.common arguments).head? with
  | none => (command, arguments)
  | some word =>
    match command.below.lookup word with
    | some inner => (inner, without Command.common word arguments)
    | none => (command, arguments)

def locate (arguments : List Text) : Except UsageError (Option Command × List Text) :=
  match wordsOf Command.common arguments with
  | [] => .ok (none, arguments)
  | word :: _ =>
    match (Command.all ++ Command.hidden).lookup word with
    | some command =>
      let (command, arguments) := narrow command (without Command.common word arguments)
      .ok (some command, arguments)
    | none => .error (.unknownCommand word (similar word))

end ClassAbi.CommandLine
