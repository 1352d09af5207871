import ClassAbi.MessagePack.Read
import ClassAbi.MessagePack.Write
import Mathlib.Data.Nat.Basic
import Mathlib.Tactic.Ring

/-!
# What is written can be read

A reader that takes a text from the start of the data gives the same value whatever follows, and whatever room it has. For
each way of writing a value there is a reader that takes just what was written: numbers, strings, lists and records, with
headers of every width. The widths do not overlap, and a header holds every length that it is written for.
-/

namespace ClassAbi.MessagePack

variable {α β : Type}

/-- Whether a reader takes `t` and no more from the start of the data, and gives `a`. -/
def Takes (r : Reader α) (t : Text) (a : α) : Prop :=
  ∀ rest room, ∃ room', r ⟨t ++ rest, room⟩ = .ok (a, ⟨rest, room'⟩)

theorem takes_pure (a : α) : Takes (pure a) [] a := fun _ room => ⟨room, rfl⟩

theorem Takes.bind {r : Reader α} {f : α → Reader β} {t u : Text} {a : α} {b : β} (hr : Takes r t a) (hf : Takes (f a) u b) :
    Takes (r >>= f) (t ++ u) b := by
  intro rest room
  obtain ⟨middle, hr⟩ := hr (u ++ rest) room
  obtain ⟨room', hf⟩ := hf rest middle
  refine ⟨room', ?_⟩
  rw [List.append_assoc]
  simp only [Bind.bind, StateT.bind, Except.bind, hr]
  exact hf

theorem Takes.map {r : Reader α} {t : Text} {a : α} (f : α → β) (hr : Takes r t a) : Takes (f <$> r) t (f a) := by
  have hpure : Takes (r >>= fun a => pure (f a)) (t ++ []) (f a) := hr.bind (takes_pure (f a))
  rwa [List.append_nil] at hpure

theorem takes_byte_bind {f : UInt8 → Reader α} {b : UInt8} {t : Text} {a : α} (hf : Takes (f b) t a) :
    Takes (byte >>= f) (b :: t) a := by
  have hbyte : Takes byte [b] b := fun _ room => ⟨room, rfl⟩
  exact hbyte.bind hf

theorem takes_bytes (t : Text) : Takes (bytes t.length) t t := by
  intro rest room
  refine ⟨some (Room.after (room.getD (Room.initial t.length)) t.length), ?_⟩
  unfold bytes
  simp only [List.take_left, List.drop_left, if_true]

/-! ### Numbers -/

@[simp] theorem length_bigEndian (n value : Nat) : (bigEndian n value).length = n := by
  induction n generalizing value with
  | zero => rfl
  | succ n ih => rw [bigEndian, List.length_append, ih, List.length_singleton]

theorem ofBigEndian_append (t : Text) (b : UInt8) : ofBigEndian (t ++ [b]) = ofBigEndian t * 256 + b.toNat := by
  rw [ofBigEndian, List.foldl_append]
  rfl

theorem ofBigEndian_bigEndian {n value : Nat} (h : value < 256 ^ n) : ofBigEndian (bigEndian n value) = value := by
  induction n generalizing value with
  | zero =>
    rw [Nat.pow_zero] at h
    rw [Nat.lt_one_iff.1 h]
    rfl
  | succ n ih =>
    have hhigh : value / 256 < 256 ^ n := Nat.div_lt_of_lt_mul (by rw [Nat.pow_succ] at h; omega)
    have hlow : value.toUInt8.toNat = value % 256 := UInt8.toNat_ofNat'
    rw [bigEndian, ofBigEndian_append, ih hhigh, hlow]
    omega

theorem takes_number {n value : Nat} (h : value < 256 ^ n) : Takes (number n) (bigEndian n value) value := by
  unfold number
  split_ifs with hn
  · subst hn
    rw [Nat.pow_one] at h
    have hbyte : value.toUInt8.toNat = value := by
      show value % 256 = value
      omega
    have hpure := takes_pure value.toUInt8.toNat
    rw [hbyte] at hpure
    exact takes_byte_bind (by rwa [hbyte])
  · have hbytes := takes_bytes (bigEndian n value)
    rw [length_bigEndian] at hbytes
    have hvalue := hbytes.map ofBigEndian
    rwa [ofBigEndian_bigEndian h] at hvalue

theorem takes_readUInt16 (n : UInt16) : Takes readUInt16 (uint16 n) n := by
  have hbound : n.toNat < 256 ^ 2 := n.toNat_lt
  have hinteger : Takes readInteger (uint16 n) n.toNat :=
    takes_byte_bind ((takes_number hbound).map ((↑) : Nat → Int))
  have hn : (((n.toNat : Int) % 65536).toNat).toUInt16 = n := by
    rw [Int.emod_eq_of_lt (by omega) (by omega), Int.toNat_natCast]
    exact UInt16.ofNat_toNat
  have hread := hinteger.map fun i => (i % 65536).toNat.toUInt16
  rwa [hn] at hread

/-! ### Headers -/

theorem short_header {first last : UInt8} {n : Nat} (h : first.toNat + n ≤ last.toNat) :
    (first ≤ first + n.toUInt8 ∧ first + n.toUInt8 ≤ last) ∧ (first + n.toUInt8).toNat - first.toNat = n := by
  have hlast := last.toNat_lt
  have hn : n.toUInt8.toNat = n % 256 := UInt8.toNat_ofNat'
  have hcode : (first + n.toUInt8).toNat = first.toNat + n := by
    rw [UInt8.toNat_add, hn]
    omega
  rw [UInt8.le_iff_toNat_le, UInt8.le_iff_toNat_le, hcode]
  omega

theorem takes_stringSize {n : Nat} (h : n < 2 ^ 32) : Takes (byte >>= stringSize) (stringHeader n) (.entries n) := by
  unfold stringHeader
  split_ifs with hfix h8 h16
  · obtain ⟨hrange, hn⟩ := @short_header 0xA0 0xBF n (by show 0xA0 + n ≤ 0xBF; omega)
    have hsize : stringSize (0xA0 + n.toUInt8) = pure (.entries n) := by
      rw [stringSize, if_neg (fun heq => absurd (heq ▸ hrange.2) (by decide)), if_pos hrange]
      exact congrArg (fun n => pure (Size.entries n)) hn
    exact takes_byte_bind (hsize ▸ takes_pure _)
  all_goals exact takes_byte_bind ((takes_number (by omega)).map Size.entries)

theorem takes_arraySize {n : Nat} (h : n < 2 ^ 32) : Takes (byte >>= arraySize) (arrayHeader n) (.entries n) := by
  unfold arrayHeader
  split_ifs with hfix h16
  · obtain ⟨hrange, hn⟩ := @short_header 0x90 0x9F n (by show 0x90 + n ≤ 0x9F; omega)
    have hsize : arraySize (0x90 + n.toUInt8) = pure (.entries n) := by
      rw [arraySize, if_neg (fun heq => absurd (heq ▸ hrange.2) (by decide)), if_pos hrange]
      exact congrArg (fun n => pure (Size.entries n)) hn
    exact takes_byte_bind (hsize ▸ takes_pure _)
  all_goals exact takes_byte_bind ((takes_number (by omega)).map Size.entries)

/-! ### Strings -/

theorem takes_readString {t : Text} (h : t.length < 2 ^ 32) : Takes readString (string t) t := by
  rw [readString, ← bind_assoc]
  refine (takes_stringSize h).bind ?_
  cases t with
  | nil => exact takes_pure []
  | cons b t => exact takes_bytes (b :: t)

theorem takes_readName {t : Text} (h : t.length < 2 ^ 32) : Takes readName (string t) t := by
  rw [readName, ← bind_assoc]
  exact (takes_stringSize h).bind (takes_bytes t)

/-! ### Records and lists -/

/-- How the value of a field is written in a record, and what the record is after it was read. -/
structure Written (fields : List (FieldReader α)) (name value : Text) (a b : α) : Prop where
  known : ∃ field, fields.find? (·.name == name) = some field ∧ Takes (field.read a) value b
  short : name.length < 2 ^ 32

/-- Fields that are written one after the other are read one after the other. -/
inductive WrittenIn (fields : List (FieldReader α)) : List (Text × Text) → α → α → Prop
  | nil (a : α) : WrittenIn fields [] a a
  | cons {name value : Text} {pairs : List (Text × Text)} {a b c : α} :
      Written fields name value a b → WrittenIn fields pairs b c → WrittenIn fields ((name, value) :: pairs) a c

theorem takes_readPairs {fields : List (FieldReader α)} {pairs : List (Text × Text)} {a b : α}
    (h : WrittenIn fields pairs a b) :
    Takes (readPairs fields pairs.length a) (pairs.flatMap fun (name, value) => string name ++ value) b := by
  induction h with
  | nil a => exact takes_pure a
  | @cons name value pairs a b c hfield _ ih =>
    obtain ⟨⟨field, hfind, hvalue⟩, hshort⟩ := hfield
    rw [List.flatMap_cons, List.append_assoc]
    refine (takes_readName hshort).bind ?_
    rw [hfind]
    exact hvalue.bind ih

theorem takes_readRecord [Inhabited α] {fields : List (FieldReader α)} {pairs : List (Text × Text)} {a b : α}
    (h : WrittenIn fields pairs a b) (hcount : pairs.length < 16) : Takes (readRecord fields a) (record pairs) b := by
  obtain ⟨hrange, hn⟩ := @short_header 0x80 0x8F pairs.length (by show 0x80 + pairs.length ≤ 0x8F; omega)
  have hsize : mapSize (0x80 + pairs.length.toUInt8) = pure (.entries pairs.length) := by
    rw [mapSize, if_neg (fun heq => absurd (heq ▸ hrange.2) (by decide)), if_pos hrange]
    exact congrArg (fun n => pure (Size.entries n)) hn
  rw [record, mapHeader, if_pos hcount, List.singleton_append]
  refine takes_byte_bind ?_
  rw [if_pos (.inr (.inl hrange)), hsize, pure_bind]
  exact takes_readPairs h

theorem takes_readValues [Inhabited α] {read : α → Reader α} {encode : α → Text} (values : List α)
    (hread : ∀ a ∈ values, Takes (read default) (encode a) a) (done : List α) :
    Takes (readValues read values.length [] done) (values.map encode).flatten (done.reverse ++ values) := by
  induction values generalizing done with
  | nil => exact takes_pure _
  | cons a values ih =>
    have hrest := ih (fun b hb => hread b (List.mem_cons_of_mem a hb)) (a :: done)
    rw [List.reverse_cons, List.append_assoc, List.singleton_append] at hrest
    exact (hread a List.mem_cons_self).bind hrest

theorem takes_readList_absent [Inhabited α] (read : α → Reader α) : Takes (readList read none) nil none :=
  takes_byte_bind (takes_pure _)

theorem takes_readList [Inhabited α] {read : α → Reader α} {encode : α → Text} {values : List α}
    (hcount : values.length < 2 ^ 32) (hread : ∀ a ∈ values, Takes (read default) (encode a) a) :
    Takes (readList read none) (array (values.map encode)) (some ⟨values.length, values⟩) := by
  have hvalues := (takes_readValues values hread []).map fun store => some (⟨values.length, store⟩ : Listing α)
  rw [readList, ← bind_assoc, array, List.length_map]
  exact (takes_arraySize hcount).bind hvalues

end ClassAbi.MessagePack
