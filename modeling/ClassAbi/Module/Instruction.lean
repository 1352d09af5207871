import ClassAbi.Module.Constant

/-!
# Instructions of a module

The lines of a routine's body. Each instruction names the temporary that it defines, if any, by its number.
-/

namespace ClassAbi.Module

inductive Operand where
  | const (value : Const)
  | param (index : Int)
  | temp (number : Nat)
  deriving Repr, Inhabited

def tempText (number : Nat) : Text := "%t" ++ Text.ofNat number

namespace Operand

def text : Operand → Text
  | const value => value.text
  | param index => "%p" ++ Text.ofInt index
  | temp number => tempText number

end Operand

inductive Conversion where
  | truncate
  | extendSign
  | extendZero
  | pointerToInt
  | intToPointer
  deriving Repr, DecidableEq, BEq, Inhabited

def Conversion.keyword : Conversion → Text
  | truncate => "trunc"
  | extendSign => "sext"
  | extendZero => "zext"
  | pointerToInt => "ptrtoint"
  | intToPointer => "inttoptr"

inductive Instruction where
  /-- The address `offset` bytes after `base`. -/
  | shift (dest : Nat) (base : Operand) (type : Ty) (offset : Operand)
  | add (dest : Nat) (type : Ty) (left right : Operand)
  | call (dest : Option Nat) (result : Ty) (callee : Operand) (args : List (Ty × Operand))
  | load (dest : Nat) (type : Ty) (addr : Operand)
  | store (type : Ty) (value addr : Operand)
  | alloc (dest : Nat) (count : Int) (elem : Ty)
  /-- The address of the member `name` of `base`. -/
  | member (dest : Nat) (base : Operand) (bits offset : Int) (name : Text)
  | element (dest : Nat) (elem : Ty) (base : Operand) (type : Ty) (index : Operand)
  | compare (dest : Nat) (predicate : Text) (type : Ty) (left right : Operand)
  | convert (dest : Nat) (conversion : Conversion) (source : Ty) (value : Operand) (result : Ty)
  /-- A remark that an object is of a class. -/
  | remark (object : Operand) (cls : Text)
  | ret (result : Option (Ty × Operand))
  deriving Repr, Inhabited

namespace Instruction

def dest? : Instruction → Option Nat
  | shift dest .. | add dest .. | load dest .. | alloc dest .. | member dest .. | element dest .. | compare dest ..
  | convert dest .. => some dest
  | call dest .. => dest
  | store .. | remark .. | ret .. => none

def operands : Instruction → List Operand
  | shift _ base _ offset => [base, offset]
  | add _ _ left right => [left, right]
  | call _ _ callee args => callee :: args.map Prod.snd
  | load _ _ addr => [addr]
  | store _ value addr => [value, addr]
  | alloc .. => []
  | member _ base .. => [base]
  | element _ _ base _ index => [base, index]
  | compare _ _ _ left right => [left, right]
  | convert _ _ _ value _ => [value]
  | remark .. => []
  | ret none => []
  | ret (some (_, value)) => [value]

def typed (type : Ty) (v : Operand) : Text := type.text ++ " " ++ v.text

def action : Instruction → Text
  | shift _ base type offset => "getelementptr i8, " ++ typed .ptr base ++ ", " ++ typed type offset
  | add _ type left right => "add " ++ typed type left ++ ", " ++ right.text
  | call _ result callee args =>
    "call " ++ typed result callee ++ "(" ++ Text.join ", " (args.map fun (type, v) => typed type v) ++ ")"
  | load _ type addr => "load " ++ type.text ++ ", " ++ typed .ptr addr
  | store type value addr => "store " ++ typed type value ++ ", " ++ typed .ptr addr
  | alloc _ count elem => "alloca " ++ (Ty.array count elem).text
  | member _ base bits offset name =>
    "getelementptr i8, " ++ typed .ptr base ++ ", " ++ (Ty.int bits).text ++ " " ++ Text.ofInt offset ++ " ; " ++ name
  | element _ elem base type index =>
    "getelementptr " ++ elem.text ++ ", " ++ typed .ptr base ++ ", " ++ typed type index
  | compare _ predicate type left right => "icmp " ++ predicate ++ " " ++ typed type left ++ ", " ++ right.text
  | convert _ conversion source value result =>
    conversion.keyword ++ " " ++ typed source value ++ " to " ++ result.text
  | remark object cls => "; " ++ object.text ++ " has the vtable of " ++ cls
  | ret none => "ret void"
  | ret (some (type, value)) => "ret " ++ typed type value

def line (i : Instruction) : Text :=
  match i.dest? with
  | some dest => "  " ++ tempText dest ++ " = " ++ i.action
  | none => "  " ++ i.action

def text (i : Instruction) : Text := i.line ++ "\n"

end Instruction

end ClassAbi.Module
