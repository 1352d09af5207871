import ClassAbi.Proofs.MessagePack.Takes
import ClassAbi.Reach.IndexFile

/-!
# Index files are read back

A snapshot whose texts and lists have a length that a header can hold is read back from its file, whatever follows it in the
file. An absent list is not confused with an empty one. The file of a snapshot of another schema is refused for that reason
alone.
-/

namespace ClassAbi.Reach

open MessagePack

namespace ClassEntry

/-- Whether the lengths of the texts of a record can be written. -/
def Writable (e : ClassEntry) : Prop := e.cls.length < 2 ^ 32 ∧ e.descriptor.length < 2 ^ 32 ∧ e.init.length < 2 ^ 32

theorem takes_encode {e : ClassEntry} (h : e.Writable) : Takes (readRecord fields default) e.encode e := by
  obtain ⟨hcls, hdescriptor, hinit⟩ := h
  have hfirst : Written fields "Class" (string e.cls) default { cls := e.cls } :=
    ⟨⟨_, rfl, (takes_readString hcls).map fun t => ({ cls := t } : ClassEntry)⟩, by decide⟩
  have hsecond : Written fields "RTTI" (string e.descriptor) { cls := e.cls } { e with init := [] } :=
    ⟨⟨_, rfl, (takes_readString hdescriptor).map fun t => ({ cls := e.cls, descriptor := t } : ClassEntry)⟩, by decide⟩
  have hthird : Written fields "Init" (string e.init) { e with init := [] } e :=
    ⟨⟨_, rfl, (takes_readString hinit).map fun t => ({ e with init := t } : ClassEntry)⟩, by decide⟩
  exact takes_readRecord (.cons hfirst (.cons hsecond (.cons hthird (.nil e)))) (by simp)

end ClassEntry

namespace CallEntry

/-- Whether the lengths of the texts of a record can be written. -/
def Writable (e : CallEntry) : Prop := e.caller.length < 2 ^ 32 ∧ e.cls.length < 2 ^ 32 ∧ e.init.length < 2 ^ 32

theorem takes_encode {e : CallEntry} (h : e.Writable) : Takes (readRecord fields default) e.encode e := by
  obtain ⟨hcaller, hcls, hinit⟩ := h
  have hfirst : Written fields "Caller" (string e.caller) default { caller := e.caller } :=
    ⟨⟨_, rfl, (takes_readString hcaller).map fun t => ({ caller := t } : CallEntry)⟩, by decide⟩
  have hsecond : Written fields "Class" (string e.cls) { caller := e.caller } { e with init := [] } :=
    ⟨⟨_, rfl, (takes_readString hcls).map fun t => ({ caller := e.caller, cls := t } : CallEntry)⟩, by decide⟩
  have hthird : Written fields "Init" (string e.init) { e with init := [] } e :=
    ⟨⟨_, rfl, (takes_readString hinit).map fun t => ({ e with init := t } : CallEntry)⟩, by decide⟩
  exact takes_readRecord (.cons hfirst (.cons hsecond (.cons hthird (.nil e)))) (by simp)

end CallEntry

namespace Snapshot

/-- Whether the lengths of the texts and lists of a snapshot can be written. -/
structure Writable (s : Snapshot) : Prop where
  target : s.target.length < 2 ^ 32
  classes : ∀ entries, s.classes = some entries → entries.length < 2 ^ 32 ∧ ∀ e ∈ entries, e.Writable
  calls : ∀ entries, s.calls = some entries → entries.length < 2 ^ 32 ∧ ∀ e ∈ entries, e.Writable

def listed {α : Type} (entries : Option (List α)) : Option (Listing α) := entries.map fun l => ⟨l.length, l⟩

theorem values_listed {α : Type} (entries : Option (List α)) : (listed entries).map Listing.values = entries := by
  cases entries with
  | none => rfl
  | some l => exact congrArg some List.take_length

theorem takes_encodeList {α : Type} [Inhabited α] {fields : List (FieldReader α)} {encode : α → Text}
    {entries : Option (List α)} (hlength : ∀ l, entries = some l → l.length < 2 ^ 32)
    (hread : ∀ l, entries = some l → ∀ e ∈ l, Takes (readRecord fields default) (encode e) e) :
    Takes (readList (readRecord fields) none) (encodeList encode entries) (listed entries) := by
  cases entries with
  | none => exact takes_readList_absent _
  | some l => exact takes_readList (hlength l rfl) (hread l rfl)

def draft (s : Snapshot) : Draft := ⟨s.schema, s.target, listed s.classes, listed s.calls⟩

theorem snapshot_draft (s : Snapshot) : s.draft.snapshot = s := by
  rw [draft, Draft.snapshot]
  simp only [values_listed]

theorem takes_encode {s : Snapshot} (h : s.Writable) : Takes (readRecord fields {}) s.encode s.draft := by
  have hclasses := takes_encodeList (fun l hl => (h.classes l hl).1)
    fun l hl e he => ClassEntry.takes_encode ((h.classes l hl).2 e he)
  have hcalls := takes_encodeList (fun l hl => (h.calls l hl).1)
    fun l hl e he => CallEntry.takes_encode ((h.calls l hl).2 e he)
  have hfirst : Written fields "Schema" (uint16 s.schema) {} { schema := s.schema } :=
    ⟨⟨_, rfl, (takes_readUInt16 s.schema).map fun n => ({ schema := n } : Draft)⟩, by decide⟩
  have hsecond : Written fields "Target" (string s.target) { schema := s.schema } ⟨s.schema, s.target, none, none⟩ :=
    ⟨⟨_, rfl, (takes_readString h.target).map fun t => (⟨s.schema, t, none, none⟩ : Draft)⟩, by decide⟩
  have hthird : Written fields "Classes" (encodeList ClassEntry.encode s.classes) ⟨s.schema, s.target, none, none⟩
      ⟨s.schema, s.target, listed s.classes, none⟩ :=
    ⟨⟨_, rfl, hclasses.map fun l => (⟨s.schema, s.target, l, none⟩ : Draft)⟩, by decide⟩
  have hfourth : Written fields "Calls" (encodeList CallEntry.encode s.calls)
      ⟨s.schema, s.target, listed s.classes, none⟩ s.draft :=
    ⟨⟨_, rfl, hcalls.map fun l => (⟨s.schema, s.target, listed s.classes, l⟩ : Draft)⟩, by decide⟩
  exact takes_readRecord (.cons hfirst (.cons hsecond (.cons hthird (.cons hfourth (.nil _))))) (by simp)

/-- The file of a snapshot is read back, with or without trailing data, and a snapshot of another schema is refused. -/
theorem decode_encode {s : Snapshot} (h : s.Writable) (trailing : Text) :
    decode (s.encode ++ trailing) = if s.schema = currentSchema then .ok s else .error (.schema s.schema) := by
  obtain ⟨room, hread⟩ := takes_encode h trailing none
  have hrun : (readRecord fields {}).run { rest := s.encode ++ trailing } = .ok (s.draft, ⟨trailing, room⟩) := hread
  rw [decode, hrun]
  show (if s.schema = currentSchema then _ else _) = _
  rw [snapshot_draft]
  rfl

/-- A name of 256 bytes takes the third header of strings, and an empty list is told apart from an absent one. -/
theorem decode_encode_long :
    let entry : ClassEntry := ⟨List.replicate 256 0x61, "x", ""⟩
    let s : Snapshot := ⟨1, "i686-linux-gnu", some [entry], some []⟩
    s.Writable ∧ decode (s.encode ++ [0xC0, 0xC0]) = .ok s ∧
      decode (Snapshot.encode { s with schema := 2, calls := none } ++ []) = .error (.schema 2) := by
  intro entry s
  have hentry : entry.Writable := ⟨by rw [List.length_replicate]; decide, by decide, by decide⟩
  have hclasses : ∀ entries, s.classes = some entries → entries.length < 2 ^ 32 ∧ ∀ e ∈ entries, e.Writable := by
    intro entries hentries
    rw [← Option.some.inj hentries]
    exact ⟨by simp, fun e he => List.mem_singleton.1 he ▸ hentry⟩
  have hcalls : ∀ entries, s.calls = some entries → entries.length < 2 ^ 32 ∧ ∀ e ∈ entries, e.Writable := by
    intro entries hentries
    rw [← Option.some.inj hentries]
    exact ⟨by simp, fun e he => absurd he List.not_mem_nil⟩
  have hs : s.Writable := ⟨by decide, hclasses, hcalls⟩
  have hother : Snapshot.Writable { s with schema := 2, calls := none } :=
    ⟨by decide, hclasses, fun entries hentries => absurd hentries (Option.some_ne_none entries).symm⟩
  exact ⟨hs, decode_encode hs [0xC0, 0xC0], decode_encode hother []⟩

end Snapshot

end ClassAbi.Reach
