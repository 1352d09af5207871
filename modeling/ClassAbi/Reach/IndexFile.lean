import ClassAbi.MessagePack.Read
import ClassAbi.MessagePack.Write
import ClassAbi.Reach.Snapshot

/-!
# Index files

The file of a snapshot is a record of MessagePack. Reading ignores what follows the record, and refuses a record of
another schema.
-/

namespace ClassAbi.Reach

open MessagePack (FieldReader Listing)

namespace ClassEntry

def encode (e : ClassEntry) : Text :=
  MessagePack.record [("Class", MessagePack.string e.cls), ("RTTI", MessagePack.string e.descriptor),
    ("Init", MessagePack.string e.init)]

def fields : List (FieldReader ClassEntry) :=
  [⟨"Class", fun e => return { e with cls := ← MessagePack.readString }⟩,
    ⟨"RTTI", fun e => return { e with descriptor := ← MessagePack.readString }⟩,
    ⟨"Init", fun e => return { e with init := ← MessagePack.readString }⟩]

end ClassEntry

namespace CallEntry

def encode (e : CallEntry) : Text :=
  MessagePack.record [("Caller", MessagePack.string e.caller), ("Class", MessagePack.string e.cls),
    ("Init", MessagePack.string e.init)]

def fields : List (FieldReader CallEntry) :=
  [⟨"Caller", fun e => return { e with caller := ← MessagePack.readString }⟩,
    ⟨"Class", fun e => return { e with cls := ← MessagePack.readString }⟩,
    ⟨"Init", fun e => return { e with init := ← MessagePack.readString }⟩]

end CallEntry

inductive SnapshotError where
  | malformed (cause : MessagePack.ReadError)
  | schema (found : UInt16)
  deriving Repr, DecidableEq, BEq

def SnapshotError.message : SnapshotError → Text
  | malformed cause => cause.message
  | schema found =>
    "rta: snapshot schema " ++ Text.ofNat found.toNat ++ ", want " ++ Text.ofNat currentSchema.toNat

namespace Snapshot

def encodeList {α : Type} (encode : α → Text) : Option (List α) → Text
  | none => MessagePack.nil
  | some values => MessagePack.array (values.map encode)

def encode (s : Snapshot) : Text :=
  MessagePack.record [("Schema", MessagePack.uint16 s.schema), ("Target", MessagePack.string s.target),
    ("Classes", encodeList ClassEntry.encode s.classes), ("Calls", encodeList CallEntry.encode s.calls)]

structure Draft where
  schema : UInt16 := 0
  target : Text := []
  classes : Option (Listing ClassEntry) := none
  calls : Option (Listing CallEntry) := none
  deriving Repr, DecidableEq, BEq, Inhabited

def Draft.snapshot (d : Draft) : Snapshot where
  schema := d.schema
  target := d.target
  classes := d.classes.map Listing.values
  calls := d.calls.map Listing.values

def fields : List (FieldReader Draft) :=
  [⟨"Schema", fun d => return { d with schema := ← MessagePack.readUInt16 }⟩,
    ⟨"Target", fun d => return { d with target := ← MessagePack.readString }⟩,
    ⟨"Classes", fun d => do
      return { d with classes := ← MessagePack.readList (MessagePack.readRecord ClassEntry.fields) d.classes }⟩,
    ⟨"Calls", fun d => do
      return { d with calls := ← MessagePack.readList (MessagePack.readRecord CallEntry.fields) d.calls }⟩]

def decode (data : Text) : Except SnapshotError Snapshot :=
  match (MessagePack.readRecord fields {}).run { rest := data } with
  | .error cause => .error (.malformed cause)
  | .ok (d, _) => if d.schema = currentSchema then .ok d.snapshot else .error (.schema d.schema)

end Snapshot

end ClassAbi.Reach
