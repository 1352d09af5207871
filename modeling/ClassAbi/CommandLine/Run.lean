import ClassAbi.CommandLine.Complete
import ClassAbi.CommandLine.Style
import ClassAbi.LinkerName.Decode
import ClassAbi.LinkerName.Encode
import ClassAbi.Text.JsonString
import ClassAbi.Trace.Tracer

/-!
# Running commands

A command reads its arguments, does its work on the host, and prints its results. What it printed before a failure stays
printed.
-/

namespace ClassAbi.CommandLine

variable {m : Type → Type} [Monad m] [Host m] {α ε : Type}

abbrev Run (m : Type → Type) := ExceptT (Failure CommandError) m

def fail (e : CommandError) : Run m α := throw (.error e)

def ofExcept (f : ε → CommandError) : Except ε α → Run m α
  | .ok a => pure a
  | .error e => fail (f e)

def ofOutcome (f : ε → CommandError) : Outcome ε α → Run m α
  | .ok a => pure a
  | .error .fault => throw .fault
  | .error (.error e) => fail (f e)

def coloursFor (word : Text) : Run m Bool := do
  let lower := word.lower
  if lower ∈ ["on", "always"].map Text.ofString then return true
  else if lower ∈ ["off", "never"].map Text.ofString then return false
  else if lower ∈ ["auto", ""].map Text.ofString then return ← Host.isTerminal
  else fail (.colourMode word)

/-! ### Tracing -/

/-- The settings of the trace that the flags ask for. A file to trace to asks for the phases at least. -/
def traceSettings (a : Arguments) : Run m Trace.Settings := do
  let path := a.text "trace" []
  let level ← ofExcept (.failed ∘ .trace) (Trace.Level.ofWord (a.text "trace-level" "off"))
  let level := if level = .off && !path.isEmpty then .phase else level
  if level = .off then return { level }
  let format ← ofExcept (.failed ∘ .trace) (Trace.Format.ofWord (a.text "trace-format" "auto"))
  return { level, format, path, ringSize := a.number "trace-ring-size" }

def tracesToFile (s : Trace.Settings) : Bool :=
  (Trace.Tracer.ofSettings s).stream.isSome && !s.path.isEmpty && s.path != Text.ofString "-"

structure Tracing (m : Type → Type) [Host m] where
  settings : Trace.Settings
  /-- The file that the trace is written to. -/
  file : Option (Host.Handle m)

def startTrace (a : Arguments) : Run m (Tracing (Run m)) := do
  let settings ← traceSettings a
  if !settings.isFeasible then throw .fault
  if tracesToFile settings then return ⟨settings, some (← ofExcept .traceFile (← Host.createFile settings.path))⟩
  else return ⟨settings, none⟩

def Tracing.write (t : Tracing m) (events : List Trace.Event) : m Unit :=
  let text := ((Trace.Tracer.ofSettings t.settings).emitAll events).streamText
  match t.file with
  | some file => Host.append file text
  | none => Host.printTrace text

def Tracing.showLast (t : Tracing m) (c : Compilation) : m Unit :=
  match ((Trace.Tracer.ofSettings t.settings).emitAll c.workspace.trace.toList).ringText with
  | some text => Host.printError ("trace: last events before the failure:\n" ++ text)
  | none => pure ()

/-! ### Commands -/

def build (colours : Bool) (a : Arguments) : Run m Unit := do
  let trace ← startTrace a
  let quiet := a.switch "quiet"
  let req : BuildRequest :=
    { manifests := a.words, target := a.text "target" [], registers := a.switch "jcr", trace := trace.settings.level
      output := a.text "output" [], index := a.switch "emit-index" }
  let notify (p : Progress) : Run m Unit := if quiet then pure () else Host.printError (progressLine colours p)
  let (result, c, outputs) ← Compile.build (Surroundings.ofHost notify trace.write) req
  if result matches .error .fault then throw .fault
  if a.switch "timings" then Host.printError (timeTable c.phases)
  match result, outputs with
  | .error (.error (.compilation e)), _ =>
    trace.showLast c
    fail (.failed e)
  | .error (.error (.output e)), _ =>
    trace.showLast c
    fail (.output e)
  | .ok _, some outputs =>
    if !quiet then
      Host.print (good colours "wrote" ++ " " ++ outputs.modulePath ++ " (" ++ c.triple ++ ", " ++
        Text.ofNat c.workspace.registry.classes.size ++ " classes, " ++ Text.ofNat c.lowered ++ " methods)\n")
      if outputs.index then Host.print (good colours "wrote" ++ " " ++ outputs.indexPath ++ "\n")
  | _, _ => throw .fault

def indexOf (a : Arguments) : Run m Reach.Snapshot := do
  let trace ← startTrace a
  let req : Request := { manifests := a.words, target := a.text "target" [], trace := trace.settings.level }
  let (result, c) ← Compile.run (Surroundings.ofHost (fun _ => pure ()) trace.write) (some req)
  match result with
  | .error .fault => throw .fault
  | .error (.error e) =>
    trace.showLast c
    fail (.failed e)
  | .ok _ => return c.snapshot.getD {}

def reach (colours : Bool) (a : Arguments) : Run m Unit := do
  let path := a.text "index" []
  let snapshot ←
    if !path.isEmpty then
      if !a.words.isEmpty then fail .indexAndManifests
      let data ← ofExcept .indexFile (← Host.readFile path)
      ofExcept .indexContent (Reach.Snapshot.decode data)
    else if a.words.isEmpty then fail .nothingGiven
    else indexOf a
  Host.print (indexText colours (a.switch "classes") snapshot)

def hash (a : Arguments) : Run m Unit := do
  let h := (nameHash (a.words.headD [])).toNat
  Host.print (Text.ofNat h ++ " 0x" ++ Text.zeroFill 4 (Text.ofHex h) ++ "\n")

def targetOf (a : Arguments) : Run m Target := ofExcept (.failed ∘ .target) (Target.ofTriple (a.text "target" []))

def encode (a : Arguments) : Run m Unit := do
  let target ← targetOf a
  let name (n : Except LinkerName.EncodeError Text) : Run m Text :=
    return target.decorate (← ofExcept (.failed ∘ .encode) n)
  match a.words with
  | [cls] =>
    let descriptor ← name (LinkerName.ofDescriptor cls)
    let vtable ← name (LinkerName.ofVtable cls)
    Host.print ("class  " ++ descriptor ++ "\nvtable " ++ vtable ++ "\n")
  | [cls, field] => Host.print ((← name (LinkerName.ofField cls field)) ++ "\n")
  | cls :: method :: descriptor :: _ => Host.print ((← name (LinkerName.ofMethod cls method descriptor)) ++ "\n")
  | [] => pure ()

def decode (a : Arguments) : Run m Unit := do
  let target ← targetOf a
  a.words.forM fun name => do
    let symbol ← ofOutcome (.failed ∘ .decode) (LinkerName.decode name target.decoration)
    Host.print (name ++ "\t" ++ symbol.kind ++ "\t" ++ symbol.text ++ "\n")

def jsonMember (key : String) (value : Text) : Text := "  " ++ (Text.ofString key).jsonString ++ ": " ++ value.jsonString

def version (colours : Bool) (a : Arguments) : Run m Unit := do
  let info := BuildInfo.development
  let format := a.text "format" "pretty"
  if format.lower = Text.ofString "pretty" then Host.print (info.describe colours colours ++ "\n")
  else if format.lower = Text.ofString "json" then
    let optional (key : String) (value : Text) : List Text := if value.isEmpty then [] else [jsonMember key value]
    let members := [jsonMember "tool" toolName, jsonMember "version" info.version] ++
      optional "git_commit" info.commit ++ optional "build_date" info.date
    Host.print ("\x7b\n" ++ Text.join ",\n" members ++ "\n\x7d\n")
  else fail (.versionFormat format)

def usageLine : Text × Command → Text
  | (name, command) => "  " ++ Text.padRight 12 name ++ command.summary ++ "\n"

def help : Run m Unit :=
  Host.print ("Usage: " ++ toolName ++ " [flags] command [arguments]\n\nCommands:\n" ++ Command.all.flatMap usageLine)

def answerShell (summaries : Bool) (a : Arguments) : Run m Unit := do
  let answer := complete a.words
  Host.print (answer.text summaries)
  Host.printError answer.note

def Shell.script (names : List Text) : Shell → Text
  | bash => "complete -W " ++ (Text.join " " names).quote ++ " " ++ toolName ++ "\n"
  | zsh => "compctl -k \"(" ++ Text.join " " names ++ ")\" " ++ toolName ++ "\n"
  | fish => "complete -c " ++ toolName ++ " -f -a " ++ (Text.join " " names).quote ++ "\n"
  | powershell =>
    "Register-ArgumentCompleter -Native -CommandName " ++ toolName ++ " -ScriptBlock \x7b " ++
      (Text.join " " names).quote ++ " -split ' ' \x7d\n"

structure Call where
  command : Command
  arguments : Arguments
  colours : Bool
  deriving Repr, Inhabited

def prepare (arguments : List Text) : Run m Call := do
  match ← ofExcept .usage (locate arguments) with
  | (none, arguments) =>
    let a ← ofExcept .usage (readArguments (Command.ownWithHelp none ++ Command.common) arguments)
    return ⟨if a.switch "version" && !a.switch "help" then .number else .help, a, false⟩
  | (some command, arguments) =>
    let a ← if command.readsFlags then
        ofExcept .usage (readArguments (Command.ownWithHelp (some command) ++ Command.common) arguments)
      else pure { words := arguments }
    if a.switch "help" || !command.isRunnable then return ⟨.help, a, false⟩
    ofExcept .usage (command.checkCount a.words)
    return ⟨command, a, ← coloursFor (a.text "color" "auto")⟩

def perform (c : Call) : Run m Unit :=
  match c.command with
  | .build => build c.colours c.arguments
  | .reach => reach c.colours c.arguments
  | .hash => hash c.arguments
  | .encode => encode c.arguments
  | .decode => decode c.arguments
  | .version => version c.colours c.arguments
  | .number => Host.print (BuildInfo.development.version ++ "\n")
  | .help | .scripts => help
  | .complete summaries => answerShell summaries c.arguments
  | .script shell => Host.print (shell.script (Command.all.map Prod.fst))

/-- Runs the tool with its arguments. Besides the result this gives whether colours are used for an error. -/
def run (arguments : List Text) : m (Outcome CommandError Unit × Bool) := do
  match ← (prepare arguments).run with
  | .error e => return (.error e, ← Host.isTerminal)
  | .ok c => return (← (perform c).run, c.colours)

end ClassAbi.CommandLine
