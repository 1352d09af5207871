import ClassAbi.Abi.Error
import ClassAbi.LinkerName.Error
import ClassAbi.Lowering.Error
import ClassAbi.Manifest.Error
import ClassAbi.Module.Error
import ClassAbi.Program.Basic
import ClassAbi.Target
import ClassAbi.Trace.Level

/-!
# Errors

Everything that a compilation can report, and where it was found.
-/

namespace ClassAbi

/-- What was being done when an error was found. -/
inductive Step where
  | layoutOf (cls : Text)
  | dispatchOf (cls : Text)
  | method (cls name descriptor : Text)
  | field (cls name : Text)
  | arrayHeader
  | reachability
  | stage (name : Text)
  deriving Repr, DecidableEq, BEq

def Step.text : Step → Text
  | layoutOf cls => "layout of " ++ cls
  | dispatchOf cls => "dispatch of " ++ cls
  | method cls name descriptor => "method " ++ cls ++ "." ++ name ++ descriptor
  | field cls name => "field " ++ cls ++ "." ++ name
  | arrayHeader => "array header"
  | reachability => "rta"
  | stage name => name

inductive Error where
  | target (cause : UnsupportedTarget)
  | flag (cause : UnknownFlag)
  | trace (cause : Trace.WordError)
  | encode (cause : LinkerName.EncodeError)
  | decode (cause : LinkerName.DecodeError)
  | layout (cause : LayoutError)
  | emit (cause : Module.EmitError)
  | duplicateName (cause : DuplicateName)
  | cls (cause : ClassError)
  | abi (cause : AbiError)
  | manifest (cause : ManifestError)
  | operation (cause : Lowering.OpError)
  | noEntity (cls method : Text)
  | noDescriptor (cls : Text)
  /-- The initializer of a class that is not registered. -/
  | strayInitializer (entity cls : Text)
  | cancelled
  | noRequest
  | noManifests
  /-- An error of the operation at `index` of a method. -/
  | inOperation (method : Text) (index : Nat) (source : Text) (cause : Error)
  | within (step : Step) (cause : Error)
  deriving Repr

def Error.message : Error → Text
  | target cause => cause.message
  | flag cause => cause.message
  | trace cause => cause.message
  | encode cause => cause.message
  | decode cause => cause.message
  | layout cause => cause.message
  | emit cause => cause.message
  | duplicateName cause => cause.message
  | cls cause => cause.message
  | abi cause => cause.message
  | manifest cause => cause.message
  | operation cause => cause.message
  | noEntity c method => "method " ++ c ++ "." ++ method ++ " has no entity"
  | noDescriptor c => "class " ++ c ++ " has no descriptor"
  | strayInitializer entity c => "initializer " ++ entity ++ " names unknown class " ++ c
  | cancelled => "context canceled"
  | noRequest => "missing compile request"
  | noManifests => "no class-set manifests given"
  | inOperation method index source cause =>
    method ++ ": op " ++ Text.ofNat index ++ " " ++ source.quote ++ ": " ++ cause.message
  | within step cause => step.text ++ ": " ++ cause.message

end ClassAbi
