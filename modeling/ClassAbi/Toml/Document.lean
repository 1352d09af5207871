import Std.Data.HashSet
import ClassAbi.Toml.Expr

/-!
# Tables of a TOML document

The statements of a document are carried out one after the other. A key names its table and then a value in it; tables on
the way that are not there are made, and are remembered as implicit until a statement names them. A key must not be given
a value twice, except that a value may replace an array, and an array may replace any value.
-/

namespace ClassAbi.Toml

inductive Value where
  | string (t : Text)
  | integer (n : Int)
  | float
  | boolean (b : Bool)
  | moment
  | array (vs : List Value)
  | table (entries : List (Text × Value))
  /-- An array of tables that may still grow, the last table first. -/
  | tables (ts : List (List (Text × Value)))
  deriving Repr, Inhabited

/-- Whether a value is an array that does not grow. -/
def Value.isArray : Value → Bool
  | array _ => true
  | _ => false

abbrev Place := List Text

abbrev Table := List (Text × Value)

namespace Table

def has (t : Table) (key : Text) : Bool := t.any (·.1 == key)

/-- The table with a value for a key, in the place of an earlier one if there is one. -/
def insert (t : Table) (key : Text) (v : Value) : Table :=
  if has t key then t.map fun (k, old) => if k == key then (k, v) else (k, old) else t ++ [(key, v)]

/-- Changes the table that a path names. In an array of tables that is the last one. -/
def change (f : Table → Option Table) : (path : Key) → Table → Option Table
  | [], t => f t
  | k :: path, t =>
    match t.lookup k with
    | some (.table sub) => (change f path sub).map fun sub => insert t k (.table sub)
    | some (.tables (sub :: older)) => (change f path sub).map fun sub => insert t k (.tables (sub :: older))
    | _ => none

def at? : (path : Key) → Table → Option Table
  | [], t => some t
  | k :: path, t =>
    match t.lookup k with
    | some (.table sub) => at? path sub
    | some (.tables (sub :: _)) => at? path sub
    | _ => none

/-- Makes the tables on a path below the place `done` that are not there, and lists their places. -/
def establish : (done : Place) → (path : Key) → Table → Option (Table × List Place)
  | _, [], t => some (t, [])
  | done, k :: path, t => do
    let here := k :: done
    match t.lookup k with
    | none =>
      let (sub, made) ← establish here path []
      return (insert t k (.table sub), here :: made)
    | some (.table sub) =>
      let (sub, made) ← establish here path sub
      return (insert t k (.table sub), made)
    | some (.tables (sub :: older)) =>
      let (sub, made) ← establish here path sub
      return (insert t k (.tables (sub :: older)), made)
    | some _ => none

end Table

structure Document where
  root : Table := []
  /-- The places of tables that no statement has named yet. -/
  implicits : Std.HashSet Place := ∅
  /-- The places whose last value was an array. -/
  arrays : Std.HashSet Place := ∅
  deriving Inhabited

/-- A step of carrying out a document, which fails if the document contradicts itself. -/
abbrev Update := StateT Document Option

namespace Document

def onTable (place : Place) (f : Table → Option Table) : Update Unit := do
  let d ← get
  let root ← Table.change f place.reverse d.root
  set { d with root }

def addImplicit (place : Place) : Update Unit := modify fun d => { d with implicits := d.implicits.insert place }

def removeImplicit (place : Place) : Update Unit := modify fun d => { d with implicits := d.implicits.erase place }

/-- Notes whether the value of a key is an array. An empty key stands for the table itself. -/
def noteArray (table : Place) (key : Text) (isArray : Bool) : Update Unit :=
  let place := if key.isEmpty && !table.isEmpty then table else key :: table
  modify fun d => { d with arrays := if isArray then d.arrays.insert place else d.arrays.erase place }

/-- Gives a key of a table a value. An implicit table stays as it is and becomes explicit. -/
def setValue (table : Place) (key : Text) (v : Value) : Update Unit := do
  let d ← get
  let place := key :: table
  let entries ← Table.at? table.reverse d.root
  if !Table.has entries key then onTable table fun t => some (Table.insert t key v)
  else
    if d.arrays.contains place then onTable table fun t => some (Table.insert t key v)
    else guard (d.implicits.contains place)
    removeImplicit place

def assign (table : Place) (key : Text) (v : Value) : Update Unit := do
  setValue table key v
  noteArray table key v.isArray

/-- Opens the table `key` of the table in a place, or one more table of an array of tables. -/
def openTable (place : Place) (key : Text) (inArray : Bool) : Update Unit := do
  let d ← get
  let (root, made) ← Table.establish [] place.reverse d.root
  set { d with root, implicits := d.implicits.insertMany made }
  if inArray then
    onTable place fun t =>
      match t.lookup key with
      | none => some (Table.insert t key (.tables [[]]))
      | some (.tables ts) => some (Table.insert t key (.tables ([] :: ts)))
      | some _ => none
  else setValue place key (.table [])

/-- Opens the tables of a dotted key one inside the other, and gives the place of the last one. -/
def enter : (place : Place) → (parts : List Text) → Update Place
  | place, [] => return place
  | place, part :: parts => do
    addImplicit (part :: place)
    openTable place part false
    enter (part :: place) parts

mutual

def evaluate (table : Place) (key : Text) (inArray : Bool) : Expr → Update Value
  | .string t => return .string t
  | .integer n => return .integer n
  | .float => return .float
  | .boolean b => return .boolean b
  | .moment => return .moment
  | .array es => do
    noteArray table key true
    return .array (← evaluateAll table key es)
  | .table pairs => do
    addImplicit (key :: table)
    openTable table key inArray
    return .table (← evaluatePairs (key :: table) [] pairs)

def evaluateAll (table : Place) (key : Text) : List Expr → Update (List Value)
  | [] => return []
  | e :: es => do
    let v ← evaluate table key true e
    return v :: (← evaluateAll table key es)

/-- The values of the pairs of a table in braces, added to those in `done` under the last parts of their keys. -/
def evaluatePairs (place : Place) (done : Table) : List (Key × Expr) → Update Table
  | [] => return done
  | (k, e) :: pairs => do
    let last := k.getLastD []
    let inner ← enter place k.dropLast
    let v ← evaluate inner last false e
    assign inner last v
    evaluatePairs place (Table.insert done last v) pairs

end

def carryOut : (place : Place) → List Statement → Update Unit
  | _, [] => return
  | place, .assign k e :: rest => do
    let last := k.getLastD []
    let inner ← enter place k.dropLast
    let v ← evaluate inner last false e
    assign inner last v
    carryOut place rest
  | _, .table k :: rest => do
    openTable k.dropLast.reverse (k.getLastD []) false
    noteArray k.reverse [] false
    carryOut k.reverse rest
  | _, .item k :: rest => do
    openTable k.dropLast.reverse (k.getLastD []) true
    noteArray k.reverse [] false
    carryOut k.reverse rest

end Document

def rootOf? (statements : List Statement) : Option Table :=
  ((Document.carryOut [] statements).run {}).map fun (_, d) => d.root

end ClassAbi.Toml
