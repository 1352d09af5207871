import ClassAbi.MessagePack.Room
import ClassAbi.Text.Number

/-!
# Reading MessagePack

A reader knows what it expects and accepts every way of writing that: numbers of any width, strings with the header of
plain bytes, the absent value for anything, and a record as a map in any order or as the list of its values. Names that a
record does not have are passed over with their values.
-/

namespace ClassAbi.MessagePack

inductive ReadError where
  /-- The data ends where something must follow. -/
  | ended
  | truncated
  | notMap (code : UInt8)
  | notArray (code : UInt8)
  | notString (code : UInt8)
  | notNumber (code : UInt8)
  | unknown (code : UInt8)
  /-- A record that is written as a list has another number of fields. -/
  | fieldCount
  deriving Repr, DecidableEq, BEq

def ReadError.message : ReadError → Text
  | ended => "EOF"
  | truncated => "unexpected EOF"
  | notMap code => "msgpack: unexpected code=" ++ Text.ofHex code.toNat ++ " decoding map length"
  | notArray code => "msgpack: invalid code=" ++ Text.ofHex code.toNat ++ " decoding array length"
  | notString code => "msgpack: invalid code=" ++ Text.ofHex code.toNat ++ " decoding string/bytes length"
  | notNumber code => "msgpack: invalid code=" ++ Text.ofHex code.toNat ++ " decoding uint64"
  | unknown code => "msgpack: unknown code " ++ Text.ofHex code.toNat
  | fieldCount => "msgpack: number of fields in array-encoded struct has changed"

/-- What a reader works on: the data that is left, and the room for taking more than one byte, once there is one. -/
structure Source where
  rest : Text
  room : Option Nat := none
  deriving Repr, DecidableEq, BEq

abbrev Reader := StateT Source (Except ReadError)

def byte : Reader UInt8 := fun s =>
  match s.rest with
  | [] => .error .ended
  | b :: t => .ok (b, { s with rest := t })

def bytes (n : Nat) : Reader Text := fun s =>
  let room := s.room.getD (Room.initial n)
  let taken := s.rest.take n
  if taken.length = n then .ok (taken, { rest := s.rest.drop n, room := some (Room.after room n) })
  else .error (if Room.startsPortion room n taken.length then .ended else .truncated)

def ofBigEndian (t : Text) : Nat := t.foldl (fun n b => n * 256 + b.toNat) 0

def number (n : Nat) : Reader Nat :=
  if n = 1 then return (← byte).toNat else return ofBigEndian (← bytes n)

/-- What stands after a header that starts a map or a list. -/
inductive Size where
  | absent
  | entries (n : Nat)
  deriving Repr, DecidableEq, BEq

def mapSize (code : UInt8) : Reader Size :=
  if code = 0xC0 then return .absent
  else if 0x80 ≤ code ∧ code ≤ 0x8F then return .entries (code.toNat - 0x80)
  else if code = 0xDE then .entries <$> number 2
  else if code = 0xDF then .entries <$> number 4
  else throw (.notMap code)

def arraySize (code : UInt8) : Reader Size :=
  if code = 0xC0 then return .absent
  else if 0x90 ≤ code ∧ code ≤ 0x9F then return .entries (code.toNat - 0x90)
  else if code = 0xDC then .entries <$> number 2
  else if code = 0xDD then .entries <$> number 4
  else throw (.notArray code)

def stringSize (code : UInt8) : Reader Size :=
  if code = 0xC0 then return .absent
  else if 0xA0 ≤ code ∧ code ≤ 0xBF then return .entries (code.toNat - 0xA0)
  else if code = 0xD9 ∨ code = 0xC4 then .entries <$> number 1
  else if code = 0xDA ∨ code = 0xC5 then .entries <$> number 2
  else if code = 0xDB ∨ code = 0xC6 then .entries <$> number 4
  else throw (.notString code)

def readString : Reader Text := do
  match ← stringSize (← byte) with
  | .absent | .entries 0 => return []
  | .entries n => bytes n

def readName : Reader Text := do
  match ← stringSize (← byte) with
  | .absent => return []
  | .entries n => bytes n

def withSign (n value : Nat) : Int := (value : Int).bmod (1 <<< (8 * n))

def readInteger : Reader Int := do
  let code ← byte
  if code = 0xC0 then return 0
  else if code ≤ 0x7F ∨ 0xE0 ≤ code then return withSign 1 code.toNat
  else if code = 0xCC then return (← number 1 : Nat)
  else if code = 0xCD then return (← number 2 : Nat)
  else if code = 0xCE then return (← number 4 : Nat)
  else if code = 0xCF then return (← number 8 : Nat)
  else if code = 0xD0 then return withSign 1 (← number 1)
  else if code = 0xD1 then return withSign 2 (← number 2)
  else if code = 0xD2 then return withSign 4 (← number 4)
  else if code = 0xD3 then return withSign 8 (← number 8)
  else throw (.notNumber code)

/-- Takes an integer of any width, of which the last sixteen bits are kept. -/
def readUInt16 : Reader UInt16 := return ((← readInteger) % 65536).toNat.toUInt16

/-! ### Passing over values -/

/-- What follows the header byte of a value. -/
inductive Body where
  | plain (n : Nat)
  /-- A length in `width` bytes, then as many bytes and `extra` others. -/
  | sized (width extra : Nat)
  | values (n : Nat)
  /-- A count in `width` bytes, then `each` values as many times. -/
  | counted (width each : Nat)
  deriving Repr, DecidableEq, BEq

/-- What follows a header byte, unless it is none. -/
def Body.ofCode? (code : UInt8) : Option Body :=
  if code ≤ 0x7F ∨ 0xE0 ≤ code then some (.plain 0)
  else if code ≤ 0x8F then some (.values (2 * (code.toNat - 0x80)))
  else if code ≤ 0x9F then some (.values (code.toNat - 0x90))
  else if code ≤ 0xBF then some (.plain (code.toNat - 0xA0))
  else match code with
  | 0xC0 | 0xC2 | 0xC3 => some (.plain 0)
  | 0xCC | 0xD0 => some (.plain 1)
  | 0xCD | 0xD1 => some (.plain 2)
  | 0xCE | 0xD2 | 0xCA => some (.plain 4)
  | 0xCF | 0xD3 | 0xCB => some (.plain 8)
  | 0xC4 | 0xD9 => some (.sized 1 0)
  | 0xC5 | 0xDA => some (.sized 2 0)
  | 0xC6 | 0xDB => some (.sized 4 0)
  | 0xDC => some (.counted 2 1)
  | 0xDD => some (.counted 4 1)
  | 0xDE => some (.counted 2 2)
  | 0xDF => some (.counted 4 2)
  | 0xD4 => some (.plain 2)
  | 0xD5 => some (.plain 3)
  | 0xD6 => some (.plain 5)
  | 0xD7 => some (.plain 9)
  | 0xD8 => some (.plain 17)
  | 0xC7 => some (.sized 1 1)
  | 0xC8 => some (.sized 2 1)
  | 0xC9 => some (.sized 4 1)
  | _ => none

def skipBytes (n : Nat) : Reader Unit := if n = 0 then return else discard (bytes n)

/-- Passes over what follows a header, and gives the number of values that stand inside. -/
def Body.skip : Body → Reader Nat
  | plain n => do
    skipBytes n
    return 0
  | sized width extra => do
    skipBytes ((← number width) + extra)
    return 0
  | values n => return n
  | counted width each => return each * (← number width)

def skipAfter (code : UInt8) : Reader Nat :=
  match Body.ofCode? code with
  | some body => body.skip
  | none => throw (.unknown code)

/-- Passes over the start of a value up to the values inside it, and gives their number. -/
def skipStart : Reader Nat := byte >>= skipAfter

/-! A reader does not add to the data. -/

def Shrinks {α : Type} (r : Reader α) : Prop :=
  ∀ s a s', r s = .ok (a, s') → s'.rest.length ≤ s.rest.length

theorem shrinks_pure {α : Type} (a : α) : Shrinks (pure a) := by
  intro s a' s' h
  cases h
  exact Nat.le_refl _

theorem shrinks_throw {α : Type} (e : ReadError) : Shrinks (throw e : Reader α) := by
  intro s a' s' h
  cases h

theorem Shrinks.bind {α β : Type} {r : Reader α} {f : α → Reader β} (hr : Shrinks r) (hf : ∀ a, Shrinks (f a)) :
    Shrinks (r >>= f) := by
  intro s b s' h
  cases hs : r s with
  | error e => simp [Bind.bind, StateT.bind, Except.bind, hs] at h
  | ok p =>
    simp only [Bind.bind, StateT.bind, Except.bind, hs] at h
    exact Nat.le_trans (hf p.1 _ _ _ h) (hr _ _ _ hs)

theorem byte_shortens {s s' : Source} {b : UInt8} (h : byte s = .ok (b, s')) : s'.rest.length < s.rest.length := by
  unfold byte at h
  split at h
  · cases h
  · next heq =>
    cases h
    simp [heq]

theorem shrinks_byte : Shrinks byte := fun _ _ _ h => Nat.le_of_lt (byte_shortens h)

theorem shrinks_bytes (n : Nat) : Shrinks (bytes n) := by
  intro s a s' h
  simp only [bytes] at h
  split at h
  · cases h
    simp
  · cases h

theorem shrinks_number (n : Nat) : Shrinks (number n) := by
  unfold number
  split
  · exact shrinks_byte.bind fun _ => shrinks_pure _
  · exact (shrinks_bytes n).bind fun _ => shrinks_pure _

theorem shrinks_skipBytes (n : Nat) : Shrinks (skipBytes n) := by
  unfold skipBytes
  split
  · exact shrinks_pure _
  · exact (shrinks_bytes n).bind fun _ => shrinks_pure _

theorem Body.shrinks_skip (b : Body) : Shrinks b.skip := by
  cases b with
  | plain n => exact (shrinks_skipBytes n).bind fun _ => shrinks_pure _
  | sized width extra =>
    exact (shrinks_number width).bind fun _ => (shrinks_skipBytes _).bind fun _ => shrinks_pure _
  | values n => exact shrinks_pure _
  | counted width each => exact (shrinks_number width).bind fun _ => shrinks_pure _

theorem shrinks_skipAfter (code : UInt8) : Shrinks (skipAfter code) := by
  unfold skipAfter
  split
  · exact Body.shrinks_skip _
  · exact shrinks_throw _

theorem skipStart_shortens {s s' : Source} {n : Nat} (h : skipStart s = .ok (n, s')) :
    s'.rest.length < s.rest.length := by
  cases hs : byte s with
  | error e => simp [skipStart, Bind.bind, StateT.bind, Except.bind, hs] at h
  | ok p =>
    simp only [skipStart, Bind.bind, StateT.bind, Except.bind, hs] at h
    exact Nat.lt_of_le_of_lt (shrinks_skipAfter _ _ _ _ h) (byte_shortens hs)

def afterValues (pending : Nat) (s : Source) : Except ReadError Source :=
  match pending with
  | 0 => .ok s
  | pending + 1 =>
    match _h : skipStart s with
    | .error e => .error e
    | .ok (inner, s') => afterValues (pending + inner) s'
termination_by s.rest.length
decreasing_by exact skipStart_shortens (by assumption)

def skip : Reader Unit := fun s => (afterValues 1 s).map fun s' => ((), s')

/-! ### Records and lists -/

/-- A field of a record: its name, and how its value is put into the record. -/
structure FieldReader (α : Type) where
  name : Text
  read : α → Reader α

variable {α : Type}

def readPairs (fields : List (FieldReader α)) : (n : Nat) → α → Reader α
  | 0, a => return a
  | n + 1, a => do
    let name ← readName
    let a ← match fields.find? (·.name == name) with
      | some field => field.read a
      | none => do
        skip
        pure a
    readPairs fields n a

/-- Takes a record into one that may already hold values. Fields that are not written keep their values, and an absent
record is empty. A header that starts neither a map nor a whole list is reported as none of a map. -/
def readRecord [Inhabited α] (fields : List (FieldReader α)) (a : α) : Reader α := do
  let code ← byte
  if code = 0xC0 ∨ (0x80 ≤ code ∧ code ≤ 0x8F) ∨ code = 0xDE ∨ code = 0xDF then
    match ← mapSize code with
    | .absent => return default
    | .entries n => readPairs fields n a
  else
    match ← tryCatch (arraySize code) fun _ => throw (.notMap code) with
    | .absent | .entries 0 => return default
    | .entries n =>
      if n = fields.length then fields.foldlM (fun a field => field.read a) a
      else throw .fieldCount

/-- A list that is read into, more than once if it is written more than once. Values after the end of a shorter list stay
in store, and a longer one that follows is read into them. -/
structure Listing (α : Type) where
  size : Nat := 0
  store : List α := []
  deriving Repr, DecidableEq, BEq, Inhabited

def Listing.values (l : Listing α) : List α := l.store.take l.size

/-- Takes `n` values into those of `old`, and puts what comes of it after `done`, which is in reverse order. -/
def readValues [Inhabited α] (read : α → Reader α) : (n : Nat) → (old done : List α) → Reader (List α)
  | 0, old, done => return done.reverse ++ old
  | n + 1, old, done => do
    let a ← read (old.headD default)
    readValues read n old.tail (a :: done)

def readList [Inhabited α] (read : α → Reader α) (old : Option (Listing α)) : Reader (Option (Listing α)) := do
  match ← arraySize (← byte) with
  | .absent => return none
  | .entries n => return some ⟨n, ← readValues read n ((old.map Listing.store).getD []) []⟩

end ClassAbi.MessagePack
