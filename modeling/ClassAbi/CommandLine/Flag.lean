import ClassAbi.CommandLine.Error

/-!
# Flags

A flag is given by its name after two hyphens, or by a letter after one hyphen. Several letters may stand together, of
which only the last may take a value. Letters that begin a flag for tests are ignored to the end of the argument. What is
no flag and no value of one is an argument, and after two hyphens alone everything is.
-/

namespace ClassAbi.CommandLine

inductive FlagKind where
  | text
  /-- Nothing, or a truth value after an equals sign. -/
  | switch
  | number
  deriving Repr, DecidableEq, BEq, Inhabited

structure Flag where
  name : Text
  letter : Option UInt8 := none
  kind : FlagKind := .text
  summary : Text := []
  deriving Repr, DecidableEq, BEq, Inhabited

def Flag.label (f : Flag) : Text :=
  (match f.letter with
    | some letter => "-" ++ [letter] ++ ", "
    | none => []) ++ "--" ++ f.name

inductive FlagValue where
  | text (t : Text)
  | switch (b : Bool)
  | number (n : Int)
  deriving Repr, DecidableEq, BEq, Inhabited

def readSwitch (t : Text) : Except Text.NumberError Bool :=
  if ["1", "t", "T", "TRUE", "true", "True"].any (Text.ofString · == t) then .ok true
  else if ["0", "f", "F", "FALSE", "false", "False"].any (Text.ofString · == t) then .ok false
  else .error .syntaxError

def Flag.read (f : Flag) (value : Text) : Except UsageError FlagValue :=
  match f.kind with
  | .text => .ok (.text value)
  | .switch => (readSwitch value).map .switch |>.mapError (.badValue value f.label "strconv.ParseBool")
  | .number => (Text.readLiteral 64 value).map .number |>.mapError (.badValue value f.label "strconv.ParseInt")

/-- The arguments of a command, and the values of the flags that are given, the last one first. -/
structure Arguments where
  flags : List (Text × FlagValue) := []
  words : List Text := []
  deriving Repr, Inhabited

namespace Arguments

def give (a : Arguments) (f : Flag) (value : Text) : Except UsageError Arguments := do
  return { a with flags := (f.name, ← f.read value) :: a.flags }

def text (a : Arguments) (name : String) (default : Text) : Text :=
  match a.flags.lookup (Text.ofString name) with
  | some (.text t) => t
  | _ => default

def switch (a : Arguments) (name : String) : Bool := a.flags.lookup (Text.ofString name) == some (.switch true)

def number (a : Arguments) (name : String) : Int :=
  match a.flags.lookup (Text.ofString name) with
  | some (.number n) => n
  | _ => 0

end Arguments

/-- Whether letters begin a flag for a test of the tool, which is ignored. -/
def isTestFlag (letters : Text) : Bool := letters.startsWith "test."

/-- Takes the letters of an argument with one hyphen, and the next argument if the last letter needs a value. -/
def readLetters (flags : List Flag) : (letters : Text) → (next : List Text) → Arguments →
    Except UsageError (Arguments × List Text)
  | [], next, a => .ok (a, next)
  | c :: letters, next, a =>
    if isTestFlag (c :: letters) then .ok (a, next)
    else match flags.find? (·.letter == some c) with
    | none => .error (.unknownLetter c (c :: letters))
    | some f =>
      match letters with
      | 0x3D :: b :: value => (a.give f (b :: value)).map (·, next)
      | letters =>
        if f.kind = .switch then do readLetters flags letters next (← a.give f "true")
        else if !letters.isEmpty then (a.give f letters).map (·, next)
        else match next with
          | value :: next => (a.give f value).map (·, next)
          | [] => .error (.letterNeedsValue c [c])

/-- Takes an argument with two hyphens, and the next argument if it is a flag that needs a value. -/
def readName (flags : List Flag) (argument : Text) (next : List Text) (a : Arguments) :
    Except UsageError (Arguments × List Text) :=
  let body := argument.drop 2
  if body.head? == some 0x2D || body.head? == some 0x3D then .error (.badSyntax argument)
  else
    let (name, value) := match Text.cut? 0x3D body with
      | some (name, value) => (name, some value)
      | none => (body, none)
    match flags.find? (·.name == name) with
    | none => .error (.unknownFlag name)
    | some f =>
      match value with
      | some value => (a.give f value).map (·, next)
      | none =>
        if f.kind = .switch then (a.give f "true").map (·, next)
        else match next with
          | value :: next => (a.give f value).map (·, next)
          | [] => .error (.flagNeedsValue name)

def readWithin (flags : List Flag) : (fuel : Nat) → List Text → Arguments → Except UsageError Arguments
  | 0, _, a => .ok a
  | _, [], a => .ok a
  | fuel + 1, argument :: next, a =>
    match argument with
    | 0x2D :: 0x2D :: [] => .ok { a with words := a.words ++ next }
    | 0x2D :: 0x2D :: _ => do
      let (a, next) ← readName flags argument next a
      readWithin flags fuel next a
    | 0x2D :: c :: letters => do
      let (a, next) ← readLetters flags (c :: letters) next a
      readWithin flags fuel next a
    | _ => readWithin flags fuel next { a with words := a.words ++ [argument] }

def readArguments (flags : List Flag) (arguments : List Text) : Except UsageError Arguments :=
  readWithin flags arguments.length arguments {}

end ClassAbi.CommandLine
