import ClassAbi.Manifest.Basic
import ClassAbi.Toml.Document
import ClassAbi.Toml.Grammar

/-!
# Reading manifests

A manifest is a TOML document with a table of build settings and an array of tables of classes. Keys are compared without
regard to case, and those that mean nothing here are ignored. Two keys that mean the same fill in the same entries. A
value of the wrong type makes the whole file malformed.
-/

namespace ClassAbi.Manifest

open Toml (Table Value)

/-- A key in the form in which keys are compared. Besides the capital letters there are two characters that are taken for
ASCII letters, the long s and the Kelvin sign. -/
def foldedKey (key : Text) : Text :=
  key.chars.flatMap fun c => Text.ofChar (if c = 'ſ' then 's' else if c = 'K' then 'k' else c.toLower)

def isKey (name : String) (key : Text) : Bool := foldedKey key == Text.ofString name

def textOf : Value → Option Text
  | .string t => some t
  | _ => none

def boolOf : Value → Option Bool
  | .boolean b => some b
  | _ => none

def textsOf : Value → Option (List Text)
  | .array vs => vs.mapM textOf
  | _ => none

def tableOf : Value → Option Table
  | .table t => some t
  | _ => none

def tablesOf : Value → Option (List Table)
  | .array vs => vs.mapM tableOf
  | .tables ts => some ts.reverse
  | _ => none

/-- Reads tables into a list of entries. Where the list is long enough its first entries are filled in further, one by each
table; otherwise every entry starts blank. -/
def fillEach {α : Type} (fill : α → Table → Option α) (blank : α) (entries : List α) (ts : List Table) :
    Option (List α) :=
  if entries.length < ts.length then ts.mapM (fill blank) else (entries.zip ts).mapM fun (a, t) => fill a t

def fillBuild (b : BuildSettings) (t : Table) : Option BuildSettings :=
  t.foldlM (fun b (key, v) =>
    if isKey "target" key then return { b with target := ← textOf v }
    else if isKey "jcr_segment" key then return { b with registers := ← boolOf v }
    else if isKey "output" key then return { b with output := ← textOf v }
    else return b) b

def fillMethod (m : MethodSpec) (t : Table) : Option MethodSpec :=
  t.foldlM (fun m (key, v) =>
    if isKey "name" key then return { m with name := ← textOf v }
    else if isKey "desc" key then return { m with descriptor := ← textOf v }
    else if isKey "access" key then return { m with access := ← textsOf v }
    else if isKey "ops" key then return { m with ops := ← textsOf v }
    else return m) m

def fillField (f : FieldSpec) (t : Table) : Option FieldSpec :=
  t.foldlM (fun f (key, v) =>
    if isKey "name" key then return { f with name := ← textOf v }
    else if isKey "desc" key then return { f with descriptor := ← textOf v }
    else if isKey "access" key then return { f with access := ← textsOf v }
    else return f) f

def fillClass (c : ClassSpec) (t : Table) : Option ClassSpec :=
  t.foldlM (fun c (key, v) =>
    if isKey "name" key then return { c with name := ← textOf v }
    else if isKey "super" key then return { c with super := ← textOf v }
    else if isKey "interfaces" key then return { c with interfaces := ← textsOf v }
    else if isKey "access" key then return { c with access := ← textsOf v }
    else if isKey "external" key then return { c with external := ← boolOf v }
    else if isKey "method" key then return { c with methods := ← fillEach fillMethod {} c.methods (← tablesOf v) }
    else if isKey "field" key then return { c with fields := ← fillEach fillField {} c.fields (← tablesOf v) }
    else return c) c

def ofTable (path : Text) (t : Table) : Option Manifest :=
  t.foldlM (fun m (key, v) =>
    if isKey "build" key then do return { m with build := ← fillBuild m.build (← tableOf v) }
    else if isKey "class" key then do return { m with classes := ← fillEach fillClass {} m.classes (← tablesOf v) }
    else return m) { path }

def read (path content : Text) : Except ManifestError Manifest :=
  match (Toml.statements? content).bind Toml.rootOf? with
  | none => .error { path, cause := .malformed }
  | some root =>
    match ofTable path root with
    | none => .error { path, cause := .malformed }
    | some m => m.checked (Table.has root "build")

end ClassAbi.Manifest
