import ClassAbi.Class.Slots
import Mathlib

/-!
# Tables of slots

A valid table has one slot for each key, and finds it. Placing the methods of a class keeps a table valid and keeps the key
of every slot. Afterwards a slot holds the latest method of the class with its key, or what it held before if the class has
none (`Placed.entry`).
-/

namespace ClassAbi

def Registry.key? (r : Registry) (m : MethodRef) : Option MethodKey := (r.method? m).map Method.key

/-- Whether a position is that of the last method with a key that goes into the vtable. -/
def LatestAt (methods : List Method) (key : MethodKey) (k : Nat) : Prop :=
  (∃ m, methods[k]? = some m ∧ m.inVtable = true ∧ m.key = key) ∧
    ∀ (k' : Nat) (m : Method), k < k' → methods[k']? = some m → m.inVtable = true → m.key ≠ key

/-- Whether no method with a key goes into the vtable. -/
def Undeclared (methods : List Method) (key : MethodKey) : Prop :=
  ∀ (k : Nat) (m : Method), methods[k]? = some m → m.inVtable = true → m.key ≠ key

section

variable {m : Method} {methods : List Method} {key : MethodKey} {k : Nat}

theorem LatestAt.cons (h : LatestAt methods key k) : LatestAt (m :: methods) key (k + 1) := by
  refine ⟨by simpa using h.1, fun k' m' hlt hm' hin => ?_⟩
  obtain ⟨j, rfl⟩ : ∃ j, k' = j + 1 := ⟨k' - 1, by omega⟩
  exact h.2 j m' (by omega) (by simpa using hm') hin

theorem Undeclared.latestAt_cons (h : Undeclared methods m.key) (hin : m.inVtable = true) :
    LatestAt (m :: methods) m.key 0 := by
  refine ⟨⟨m, rfl, hin, rfl⟩, fun k' m' hlt hm' hin' => ?_⟩
  obtain ⟨j, rfl⟩ : ∃ j, k' = j + 1 := ⟨k' - 1, by omega⟩
  exact h j m' (by simpa using hm') hin'

theorem Undeclared.cons (h : Undeclared methods key) (hm : m.inVtable = true → m.key ≠ key) :
    Undeclared (m :: methods) key := by
  intro k m' hm' hin
  cases k with
  | zero =>
    cases hm'
    exact hm hin
  | succ k => exact h k m' (by simpa using hm') hin

end

/-- Whether every method of a vtable has a key, and no two have the same one. -/
def DistinctKeys (keyOf : MethodRef → Option MethodKey) (vtable : Array MethodRef) : Prop :=
  ∀ (i : Nat) (m : MethodRef), vtable[i]? = some m → ∃ key, keyOf m = some key ∧
    ∀ (j : Nat) (m' : MethodRef), vtable[j]? = some m' → keyOf m' = some key → j = i

namespace SlotTable

/-- Whether a table has a slot for each key that it knows, and a key for each slot. -/
structure Valid (keyOf : MethodRef → Option MethodKey) (t : SlotTable) : Prop where
  index_iff : ∀ (key : MethodKey) (i : Nat), t.index[key]? = some i ↔ ∃ m, t.slots[i]? = some m ∧ keyOf m = some key
  keyed : ∀ (i : Nat) (m : MethodRef), t.slots[i]? = some m → ∃ key, keyOf m = some key

section

variable {keyOf : MethodRef → Option MethodKey} {t : SlotTable}

theorem Valid.eq_of_key (h : t.Valid keyOf) {i j : Nat} {m m' : MethodRef} {key : MethodKey} (hm : t.slots[i]? = some m)
    (hm' : t.slots[j]? = some m') (hkey : keyOf m = some key) (hkey' : keyOf m' = some key) : i = j := by
  have hi := (h.index_iff key i).2 ⟨m, hm, hkey⟩
  have hj := (h.index_iff key j).2 ⟨m', hm', hkey'⟩
  rw [hi] at hj
  exact Option.some.inj hj

theorem Valid.distinctKeys (h : t.Valid keyOf) : DistinctKeys keyOf t.slots := by
  intro i m hm
  obtain ⟨key, hkey⟩ := h.keyed i m hm
  exact ⟨key, hkey, fun j m' hm' hkey' => h.eq_of_key hm' hm hkey' hkey⟩

end

/-! ### The table of a vtable -/

section

variable {r : Registry}

/-- The index with one more position, which counts if its key was not known. -/
def enter (r : Registry) (index : Std.HashMap MethodKey Nat) (entry : MethodRef × Nat) : Std.HashMap MethodKey Nat :=
  match r.method? entry.1 with
  | some method => index.insertIfNew method.key entry.2
  | none => index

theorem slots_ofVtable (vtable : Array MethodRef) : (ofVtable r vtable).slots = vtable := rfl

theorem index_ofVtable (vtable : Array MethodRef) :
    (ofVtable r vtable).index = vtable.toList.zipIdx.foldl (enter r) ∅ := rfl

theorem getElem?_enter (index : Std.HashMap MethodKey Nat) (m : MethodRef) (i : Nat) (key : MethodKey) :
    (enter r index (m, i))[key]? = (index[key]?).or (if r.key? m = some key then some i else none) := by
  rw [enter, Registry.key?]
  cases hm : r.method? m with
  | none => simp
  | some method =>
    simp only [Std.HashMap.getElem?_insertIfNew, Option.map_some, Option.some.injEq, beq_iff_eq,
      Std.HashMap.mem_iff_isSome_getElem?]
    by_cases hkey : method.key = key
    · subst hkey
      cases index[method.key]? with
      | none => simp
      | some j => simp
    · simp [hkey]

theorem getElem?_foldl_enter (key : MethodKey) (vtable : List MethodRef) (n : Nat) (index : Std.HashMap MethodKey Nat) :
    ((vtable.zipIdx n).foldl (enter r) index)[key]? =
      (index[key]?).or ((vtable.findIdx? fun m => r.key? m == some key).map (n + ·)) := by
  induction vtable generalizing n index with
  | nil => simp
  | cons m vtable ih =>
    rw [List.zipIdx_cons, List.foldl_cons, ih, List.findIdx?_cons, getElem?_enter, Option.or_assoc]
    congr 1
    by_cases hkey : r.key? m = some key
    · simp [hkey]
    · rw [if_neg hkey, if_neg (by simpa using hkey), Option.map_map, Option.none_or]
      congr 1
      funext i
      simp only [Function.comp_apply]
      omega

theorem valid_ofVtable {vtable : Array MethodRef} (h : DistinctKeys r.key? vtable) :
    (ofVtable r vtable).Valid r.key? where
  index_iff key i := by
    rw [index_ofVtable, slots_ofVtable, getElem?_foldl_enter]
    simp only [Std.HashMap.getElem?_empty, Option.none_or, Nat.zero_add, Option.map_id']
    rw [List.findIdx?_eq_some_iff_getElem]
    constructor
    · rintro ⟨hlt, hkey, -⟩
      exact ⟨vtable[i], by simp, by simpa using hkey⟩
    · rintro ⟨m, hm, hkey⟩
      obtain ⟨hlt, rfl⟩ := Array.getElem?_eq_some_iff.1 hm
      refine ⟨by simpa using hlt, by simpa using hkey, fun j hj hkey' => ?_⟩
      obtain ⟨key', hkey_i, honly⟩ := h i _ hm
      rw [hkey, Option.some.injEq] at hkey_i
      subst hkey_i
      have hjlt : j < vtable.size := hj.trans hlt
      have := honly j vtable[j] (by simp [hjlt]) (by simpa using hkey')
      omega
  keyed i m hm := by
    obtain ⟨key, hkey, -⟩ := h i m hm
    exact ⟨key, hkey⟩

end

/-! ### Placing methods -/

section

variable {keyOf : MethodRef → Option MethodKey} {t : SlotTable} {key : MethodKey} {m : MethodRef}

/-- What placing a method does: its slot was that of its key or is new, and no other slot changes. -/
structure PlacedAt (keyOf : MethodRef → Option MethodKey) (t : SlotTable) (m : MethodRef) (i : Nat) (t' : SlotTable) :
    Prop where
  valid : t'.Valid keyOf
  here : t'.slots[i]? = some m
  kept : ∀ e, t.slots[i]? = some e → keyOf e = keyOf m
  elsewhere : ∀ j : Nat, j ≠ i → t'.slots[j]? = t.slots[j]?
  size_le : t.slots.size ≤ t'.slots.size

theorem placedAt_known {i : Nat} (h : t.Valid keyOf) (hkey : keyOf m = some key) (hindex : t.index[key]? = some i) :
    PlacedAt keyOf t m i { t with slots := t.slots.setIfInBounds i m } := by
  obtain ⟨e, he, hkey_e⟩ := (h.index_iff key i).1 hindex
  obtain ⟨hlt, -⟩ := Array.getElem?_eq_some_iff.1 he
  have hslots : ∀ j : Nat, (t.slots.setIfInBounds i m)[j]? = if i = j then some m else t.slots[j]? := by
    intro j
    rw [Array.getElem?_setIfInBounds]
    split_ifs with hij
    · rfl
    · rfl
  refine ⟨⟨fun key' j => ?_, fun j e' he' => ?_⟩, ?_, fun e' he' => ?_, fun j hj => ?_, ?_⟩
  · simp only [hslots]
    rw [h.index_iff]
    split_ifs with hij
    · subst hij
      rw [he]
      simp [hkey, hkey_e]
    · rfl
  · simp only [hslots] at he'
    split_ifs at he' with hij
    · cases he'
      exact ⟨key, hkey⟩
    · exact h.keyed j e' he'
  · simp only [hslots, if_true]
  · rw [he] at he'
    cases he'
    rw [hkey_e, hkey]
  · simp only [hslots]
    rw [if_neg (Ne.symm hj)]
  · simp

theorem placedAt_new (h : t.Valid keyOf) (hkey : keyOf m = some key) (hindex : t.index[key]? = none) :
    PlacedAt keyOf t m t.slots.size ⟨t.slots.push m, t.index.insert key t.slots.size⟩ := by
  have hnew : ∀ (j : Nat) (e : MethodRef), t.slots[j]? = some e → keyOf e ≠ some key := by
    intro j e he hkey_e
    have := (h.index_iff key j).2 ⟨e, he, hkey_e⟩
    rw [hindex] at this
    cases this
  refine ⟨⟨fun key' j => ?_, fun j e' he' => ?_⟩, ?_, fun e' he' => ?_, fun j hj => ?_, ?_⟩
  · simp only [Std.HashMap.getElem?_insert, Array.getElem?_push, beq_iff_eq]
    by_cases hkey' : key = key'
    · subst hkey'
      rw [if_pos rfl, Option.some.injEq]
      constructor
      · rintro rfl
        exact ⟨m, by simp, hkey⟩
      · rintro ⟨e, he, hkey_e⟩
        split_ifs at he with hj
        · exact hj.symm
        · exact absurd hkey_e (hnew j e he)
    · rw [if_neg hkey', h.index_iff]
      split_ifs with hj
      · subst hj
        simp [hkey, hkey']
      · rfl
  · simp only [Array.getElem?_push] at he'
    split_ifs at he' with hj
    · cases he'
      exact ⟨key, hkey⟩
    · exact h.keyed j e' he'
  · simp
  · simp at he'
  · simp only [Array.getElem?_push]
    rw [if_neg hj]
  · simp

theorem placedAt_place (h : t.Valid keyOf) (hkey : keyOf m = some key) :
    PlacedAt keyOf t m (t.place key m).1 (t.place key m).2 := by
  rw [place]
  cases hindex : t.index[key]? with
  | some i => exact placedAt_known h hkey hindex
  | none => exact placedAt_new h hkey hindex

/-- What placing the methods of a class does. The class is `c`, and `before` methods come before these. -/
structure Placed (keyOf : MethodRef → Option MethodKey) (c : ClassId) (before : Nat) (t : SlotTable) (methods : List Method)
    (methods' : List Method) (t' : SlotTable) : Prop where
  valid : t'.Valid keyOf
  length_eq : methods'.length = methods.length
  excluded : ∀ (k : Nat) (m : Method), methods[k]? = some m → m.inVtable = false → methods'[k]? = some m
  included : ∀ (k : Nat) (m : Method), methods[k]? = some m → m.inVtable = true →
    ∃ (i : Nat) (e : MethodRef), methods'[k]? = some { m with slot := headerSlots + i } ∧
      t'.slots[i]? = some e ∧ keyOf e = some m.key
  size_le : t.slots.size ≤ t'.slots.size
  kept : ∀ (i : Nat) (e : MethodRef), t.slots[i]? = some e → ∃ e', t'.slots[i]? = some e' ∧ keyOf e' = keyOf e
  entry : ∀ (i : Nat) (e : MethodRef), t'.slots[i]? = some e → ∃ key, keyOf e = some key ∧
    ((∃ k, e = ⟨c, before + k⟩ ∧ LatestAt methods key k) ∨ (t.slots[i]? = some e ∧ Undeclared methods key))

theorem placed_nil (h : t.Valid keyOf) (c : ClassId) (before : Nat) : Placed keyOf c before t [] [] t where
  valid := h
  length_eq := rfl
  excluded := by simp
  included := by simp
  size_le := le_rfl
  kept i e he := ⟨e, he, rfl⟩
  entry i e he := by
    obtain ⟨key, hkey⟩ := h.keyed i e he
    exact ⟨key, hkey, .inr ⟨he, by simp [Undeclared]⟩⟩

variable {c : ClassId} {before : Nat} {method : Method} {methods methods' : List Method} {t' : SlotTable}

theorem Placed.cons_excluded (h : Placed keyOf c (before + 1) t methods methods' t') (hin : method.inVtable = false) :
    Placed keyOf c before t (method :: methods) (method :: methods') t' where
  valid := h.valid
  length_eq := by simp [h.length_eq]
  excluded k m hm hm_in := by
    cases k with
    | zero => exact hm
    | succ k => exact h.excluded k m hm hm_in
  included k m hm hm_in := by
    cases k with
    | zero =>
      cases hm
      rw [hin] at hm_in
      cases hm_in
    | succ k => exact h.included k m hm hm_in
  size_le := h.size_le
  kept := h.kept
  entry i e he := by
    obtain ⟨key, hkey, ⟨k, rfl, hlatest⟩ | ⟨hold, hundeclared⟩⟩ := h.entry i e he
    · exact ⟨key, hkey, .inl ⟨k + 1, by congr 1; omega, hlatest.cons⟩⟩
    · exact ⟨key, hkey, .inr ⟨hold, hundeclared.cons fun hm_in => by rw [hin] at hm_in; cases hm_in⟩⟩

theorem Placed.cons_included {i : Nat} {t1 : SlotTable} (hat : PlacedAt keyOf t ⟨c, before⟩ i t1)
    (h : Placed keyOf c (before + 1) t1 methods methods' t') (hin : method.inVtable = true)
    (hkey : keyOf ⟨c, before⟩ = some method.key) :
    Placed keyOf c before t (method :: methods) ({ method with slot := headerSlots + i } :: methods') t' where
  valid := h.valid
  length_eq := by simp [h.length_eq]
  excluded k m hm hm_in := by
    cases k with
    | zero =>
      cases hm
      rw [hin] at hm_in
      cases hm_in
    | succ k => exact h.excluded k m hm hm_in
  included k m hm hm_in := by
    cases k with
    | zero =>
      cases hm
      obtain ⟨e, he, hkey_e⟩ := h.kept i _ hat.here
      exact ⟨i, e, rfl, he, by rw [hkey_e, hkey]⟩
    | succ k => exact h.included k m hm hm_in
  size_le := hat.size_le.trans h.size_le
  kept j e he := by
    by_cases hj : j = i
    · subst hj
      obtain ⟨e', he', hkey_e'⟩ := h.kept j _ hat.here
      exact ⟨e', he', by rw [hkey_e', hat.kept e he]⟩
    · exact h.kept j e (by rw [hat.elsewhere j hj, he])
  entry j e he := by
    obtain ⟨key, hkey_e, ⟨k, rfl, hlatest⟩ | ⟨hold, hundeclared⟩⟩ := h.entry j e he
    · exact ⟨key, hkey_e, .inl ⟨k + 1, by congr 1; omega, hlatest.cons⟩⟩
    · refine ⟨key, hkey_e, ?_⟩
      by_cases hj : j = i
      · -- The slot of the method itself, which no later method of the class has taken.
        subst hj
        rw [hat.here] at hold
        cases hold
        rw [hkey, Option.some.injEq] at hkey_e
        subst hkey_e
        exact .inl ⟨0, rfl, hundeclared.latestAt_cons hin⟩
      · refine .inr ⟨by rw [← hat.elsewhere j hj, hold], hundeclared.cons fun _ heq => hj ?_⟩
        exact hat.valid.eq_of_key hold hat.here hkey_e (by rw [hkey, heq])

theorem placed_placeAll (h : t.Valid keyOf)
    (hkeys : ∀ (k : Nat) (m : Method), methods[k]? = some m → keyOf ⟨c, before + k⟩ = some m.key) :
    Placed keyOf c before t methods (placeAll c before t methods).1 (placeAll c before t methods).2 := by
  induction methods generalizing before t with
  | nil => exact placed_nil h c before
  | cons m methods ih =>
    have hrest : ∀ (k : Nat) (m' : Method), methods[k]? = some m' → keyOf ⟨c, before + 1 + k⟩ = some m'.key := by
      intro k m' hm'
      rw [show before + 1 + k = before + (k + 1) by omega]
      exact hkeys (k + 1) m' hm'
    have hkey : keyOf ⟨c, before⟩ = some m.key := hkeys 0 m rfl
    rw [placeAll]
    by_cases hin : m.inVtable = true
    · rw [if_pos hin]
      have hat := placedAt_place h hkey
      exact (ih hat.valid hrest).cons_included hat hin hkey
    · rw [if_neg hin]
      exact (ih h hrest).cons_excluded (by simpa using hin)

end

end SlotTable

end ClassAbi
