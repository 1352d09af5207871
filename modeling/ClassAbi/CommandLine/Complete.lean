import ClassAbi.CommandLine.Command

/-!
# Completing command lines

Answers a shell that asks how the last word of a command line may go on: with the names of commands where one can stand,
with those of flags after a hyphen, and with nothing where a value or a path is wanted.
-/

namespace ClassAbi.CommandLine

inductive Directive where
  /-- Offer files too, if there are no choices. -/
  | files
  | noFiles
  deriving Repr, DecidableEq, BEq, Inhabited

namespace Directive

def code : Directive → Nat
  | files => 0
  | noFiles => 4

def name : Directive → Text
  | files => "ShellCompDirectiveDefault"
  | noFiles => "ShellCompDirectiveNoFileComp"

end Directive

structure Choice where
  word : Text
  summary : Text
  deriving Repr, DecidableEq, BEq, Inhabited

def Choice.line (c : Choice) (summaries : Bool) : Text :=
  (if summaries then c.word ++ "\t" ++ c.summary else c.word).trim ++ "\n"

structure Completions where
  choices : List Choice := []
  directive : Directive := .files
  deriving Repr, Inhabited

def Completions.text (c : Completions) (summaries : Bool) : Text :=
  c.choices.flatMap (·.line summaries) ++ ":" ++ Text.ofNat c.directive.code ++ "\n"

def Completions.note (c : Completions) : Text := "Completion ended with directive: " ++ c.directive.name ++ "\n"

def commandChoices (commands : List (Text × Command)) (word : Text) : List Choice :=
  let matching := commands.filter fun (name, _) => name.startsWith word
  (matching.mergeSort fun a b => Text.le a.1 b.1).map fun (name, command) => ⟨name, command.summary⟩

def commandsAfter : Option Command → List (Text × Command)
  | none => Command.all
  | some command => command.below

def letterFlag (letter : UInt8) : Text := "-" ++ [letter]

def flagChoices (word : Text) (f : Flag) : List Choice :=
  let ways : List Text := ("--" ++ f.name) :: (f.letter.map letterFlag).toList
  (ways.filter fun way => way.startsWith word).map fun way => ⟨way, f.summary⟩

def sortedFlags (flags : List Flag) : List Flag := flags.mergeSort fun a b => Text.le a.name b.name

/-- The flags in the order in which they are offered: those of the tool before those of a command. -/
def offeredFlags (command : Option Command) : List Flag :=
  match command with
  | none => sortedFlags (Command.common ++ Command.ownWithHelp none)
  | some _ => sortedFlags Command.common ++ sortedFlags (Command.ownWithHelp command)

def isFlagArgument (argument : Text) : Bool :=
  match argument with
  | 0x2D :: 0x2D :: _ :: _ => true
  | 0x2D :: c :: _ => c != 0x2D
  | _ => false

def flagNameIn (argument : Text) : Text :=
  match argument with
  | 0x2D :: 0x2D :: name => name
  | _ => argument.drop (argument.length - 1)

def flagNamed (flags : List Flag) (name : Text) : Option Flag :=
  match name with
  | [letter] => flags.find? (·.letter == some letter)
  | _ => flags.find? (·.name == name)

/-- What the last word of a command line may be. -/
inductive Wanted where
  /-- Something else than the value of a flag. -/
  | word
  /-- The value of a flag. The arguments before that flag are given. -/
  | value (before : List Text)
  /-- The value of a flag that there is not. -/
  | unknown
  deriving Repr, DecidableEq, BEq

def Wanted.before : Wanted → Option (List Text)
  | value before => some before
  | _ => none

def wanted (flags : List Flag) (before : List Text) (last : Text) : Wanted :=
  if last.head? == some 0x2D then
    match Text.cut? 0x3D last with
    | none => .word
    | some (flag, _) =>
      let name := flagNameIn flag
      if name.isEmpty then .word else if (flagNamed flags name).isSome then .value before else .unknown
  else match before.getLast? with
    | none => .word
    | some previous =>
      if !isFlagArgument previous || previous.contains 0x3D then .word
      else match flagNamed flags (flagNameIn previous) with
        | none => .unknown
        | some f => if f.kind = .switch then .word else .value before.dropLast

def argumentChoices (command : Option Command) (words : List Text) (last : Text) : Option (List Choice) :=
  match command with
  | some .help =>
    match locate words with
    | .ok (command, _) => some (commandChoices (commandsAfter command) last)
    | .error _ => some []
  | some .scripts | some (.script _) => some []
  | _ => none

/-- The answer for a word that is no value of a flag. Flags are offered if `flagsAllowed`. -/
def completeWord (command : Option Command) (a : Arguments) (flagsAllowed : Bool) (last : Text) : Completions :=
  if last.head? == some 0x2D && !last.contains 0x3D && flagsAllowed then
    let free := (offeredFlags command).filter fun f => (a.flags.lookup f.name).isNone
    ⟨free.flatMap (flagChoices last), .noFiles⟩
  else
    let commands := if a.words.isEmpty then commandsAfter command else []
    let choices := commandChoices commands last
    match argumentChoices command a.words last with
    | some more => ⟨choices ++ more, .noFiles⟩
    | none => ⟨choices, if commands.isEmpty then .files else .noFiles⟩

/-- Whether help or the version is asked for, so that nothing else matters. -/
def asksAside (command : Option Command) (a : Arguments) : Bool :=
  a.flags.any fun (name, _) => name == Text.ofString "help" || (command.isNone && name == Text.ofString "version")

def completeFor (command : Option Command) (before : List Text) (last : Text) : Completions :=
  let flags := offeredFlags command
  let want := wanted flags before last
  let before := want.before.getD before
  match readArguments flags before with
  | .error _ => {}
  | .ok a =>
    let ended := readArguments flags (before ++ [Text.ofString "--"])
    let flagsAllowed := ended.toOption.any fun b => b.words.length ≤ a.words.length
    if want == .unknown && flagsAllowed then {}
    else if asksAside command a then { directive := .noFiles }
    else match want with
      | .value _ => {}
      | _ => completeWord command a flagsAllowed last

def complete (arguments : List Text) : Completions :=
  match locate arguments.dropLast with
  | .error _ => {}
  | .ok (command, before) => completeFor command before (arguments.getLastD [])

end ClassAbi.CommandLine
