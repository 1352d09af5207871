import ClassAbi.Mode

/-!
# The members of a class descriptor

A class descriptor is an object of the runtime with 39 members in a fixed order. All but the first, which is the object
header, are scalars.
-/

namespace ClassAbi

inductive ClassMember where
  | base
  | nextOrVersion
  | name
  | accessFlags
  | superclass
  | constantsSize
  | constantsTags
  | constantsData
  | methods
  | methodCount
  | vtableMethodCount
  | fields
  | sizeInBytes
  | fieldCount
  | staticFieldCount
  | vtable
  | otable
  | otableSymbols
  | atable
  | atableSymbols
  | itable
  | itableSymbols
  | catchClasses
  | interfaces
  | loader
  | interfaceCount
  | state
  | thread
  | depth
  | ancestors
  | idt
  | arrayClass
  | protectionDomain
  | assertionTable
  | hackSigners
  | chain
  | auxInfo
  | engine
  | reflectionData
  deriving Repr, DecidableEq, BEq, Inhabited

namespace ClassMember

def all : List ClassMember :=
  [base, nextOrVersion, name, accessFlags, superclass, constantsSize, constantsTags, constantsData, methods, methodCount,
    vtableMethodCount, fields, sizeInBytes, fieldCount, staticFieldCount, vtable, otable, otableSymbols, atable,
    atableSymbols, itable, itableSymbols, catchClasses, interfaces, loader, interfaceCount, state, thread, depth,
    ancestors, idt, arrayClass, protectionDomain, assertionTable, hackSigners, chain, auxInfo, engine, reflectionData]

def label : ClassMember → Text
  | base => "@base"
  | nextOrVersion => "next_or_version"
  | name => "name"
  | accessFlags => "accflags"
  | superclass => "superclass"
  | constantsSize => "constants.size"
  | constantsTags => "constants.tags"
  | constantsData => "constants.data"
  | methods => "methods"
  | methodCount => "method_count"
  | vtableMethodCount => "vtable_method_count"
  | fields => "fields"
  | sizeInBytes => "size_in_bytes"
  | fieldCount => "field_count"
  | staticFieldCount => "static_field_count"
  | vtable => "vtable"
  | otable => "otable"
  | otableSymbols => "otable_syms"
  | atable => "atable"
  | atableSymbols => "atable_syms"
  | itable => "itable"
  | itableSymbols => "itable_syms"
  | catchClasses => "catch_classes"
  | interfaces => "interfaces"
  | loader => "loader"
  | interfaceCount => "interface_count"
  | state => "state"
  | thread => "thread"
  | depth => "depth"
  | ancestors => "ancestors"
  | idt => "idt"
  | arrayClass => "arrayclass"
  | protectionDomain => "protectionDomain"
  | assertionTable => "assertion_table"
  | hackSigners => "hack_signers"
  | chain => "chain"
  | auxInfo => "aux_info"
  | engine => "engine"
  | reflectionData => "reflection_data"

/-- The mode of a member. The header has none, and what is not a number is a reference. -/
def mode : ClassMember → Mode
  | base => .void
  | accessFlags => .uint16
  | constantsSize | sizeInBytes => .int32
  | methodCount | vtableMethodCount | fieldCount | staticFieldCount | interfaceCount | depth => .int16
  | state => .int8
  | _ => .pointer

def at? (i : Int) : Option ClassMember := if i < 0 then none else all[i.toNat]?

end ClassMember

end ClassAbi
