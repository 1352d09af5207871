import ClassAbi.Lowering.Error
import ClassAbi.Text.Space

/-!
# Operations of method bodies

The body of a method is a list of operations, each written as a mnemonic and operands with blanks between them. A string
literal is quoted.
-/

namespace ClassAbi.Lowering

inductive Operation where
  | new (cls : Text)
  | newArray (elem : Text) (count : Int)
  | multiNewArray (type : Text) (sizes : List Int)
  | instanceOf (type : Text)
  | checkCast (type : Text)
  | invokeInterface (cls name descriptor : Text)
  | initClass (cls : Text)
  | literal (text : Text)
  | arrayLength
  deriving Repr, DecidableEq, BEq, Inhabited

namespace Operation

def mnemonic : Operation → Text
  | new _ => "new"
  | newArray _ _ => "newarray"
  | multiNewArray _ _ => "multianewarray"
  | instanceOf _ => "instanceof"
  | checkCast _ => "checkcast"
  | invokeInterface _ _ _ => "invokeinterface"
  | initClass _ => "initclass"
  | literal _ => "ldc"
  | arrayLength => "arraylength"

def type : Operation → Text
  | new t | newArray t _ | multiNewArray t _ | instanceOf t | checkCast t | invokeInterface t _ _ | initClass t => t
  | literal _ | arrayLength => []

def sizes : Operation → List Int
  | newArray _ count => [count]
  | multiNewArray _ sizes => sizes
  | _ => []

def size (word : Text) : Except OpError Int :=
  match Text.readInt 10 32 word with
  | .ok n => if n < 0 then .error (.badSize word) else .ok n
  | .error _ => .error (.badSize word)

def unary (mnemonic : Text) (f : Text → Operation) : List Text → Except OpError Operation
  | [t] => .ok (f t)
  | args => .error (.operandCount mnemonic args.length)

def ofOperands (mnemonic : Text) (args : List Text) : Except OpError Operation :=
  if mnemonic = Text.ofString "new" then unary mnemonic new args
  else if mnemonic = Text.ofString "instanceof" then unary mnemonic instanceOf args
  else if mnemonic = Text.ofString "checkcast" then unary mnemonic checkCast args
  else if mnemonic = Text.ofString "initclass" then unary mnemonic initClass args
  else if mnemonic = Text.ofString "newarray" then
    match args with
    | [t, count] => do return newArray t (← size count)
    | _ => .error (.operandCount mnemonic args.length)
  else if mnemonic = Text.ofString "multianewarray" then
    match args with
    | t :: first :: rest => do return multiNewArray t (← (first :: rest).mapM size)
    | _ => .error (.operandCount mnemonic args.length)
  else if mnemonic = Text.ofString "invokeinterface" then
    match args with
    | [t, name, descriptor] => .ok (invokeInterface t name descriptor)
    | _ => .error (.operandCount mnemonic args.length)
  else if mnemonic = Text.ofString "arraylength" then
    match args with
    | [] => .ok arrayLength
    | _ => .error (.operandCount mnemonic args.length)
  else .error (.unknownMnemonic mnemonic)

def ofText (source : Text) : Except OpError Operation :=
  let source := source.trim
  let (mnemonic, rest) := (Text.cut? 0x20 source).getD (source, [])
  if mnemonic = Text.ofString "ldc" then
    match Text.unquote? rest.trim with
    | some text => .ok (literal text)
    | none => .error (.badLiteral rest)
  else ofOperands mnemonic rest.words

end Operation

end ClassAbi.Lowering
