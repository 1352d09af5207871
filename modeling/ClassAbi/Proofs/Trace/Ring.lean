import Mathlib.Data.List.Infix
import ClassAbi.Trace.Tracer

/-!
# What a ring keeps

After any events a ring holds the newest of those that its level admits, in the order in which they came. The invariant
`Ring.Holds` relates the slots and the oldest one to all events so far: the slots are taken one after the other until none is
free, and from then on every event turns the ring by one.
-/

namespace ClassAbi.Trace

/-- Whether events are the last `n` of those that came, or all of them if there are not so many. -/
structure Newest (n : Nat) (came kept : List Event) : Prop where
  suffix : kept <:+ came
  length_eq : kept.length = min n came.length

variable {n : Nat} {came kept : List Event} {e : Event}

theorem Newest.concat (h : Newest n came kept) (hlt : kept.length < n) : Newest n (came ++ [e]) (kept ++ [e]) := by
  obtain ⟨⟨earlier, rfl⟩, hlength⟩ := h
  refine ⟨⟨earlier, (List.append_assoc ..).symm⟩, ?_⟩
  simp only [List.length_append, List.length_singleton] at hlength ⊢
  omega

theorem Newest.turn {first : Event} (h : Newest n came (first :: kept)) (hlength : kept.length + 1 = n) :
    Newest n (came ++ [e]) (kept ++ [e]) := by
  obtain ⟨⟨earlier, rfl⟩, -⟩ := h
  refine ⟨⟨earlier ++ [first], by simp⟩, ?_⟩
  simp only [List.length_append, List.length_cons, List.length_nil]
  omega

/-- An event that has a number is added as it is, if the level admits it. -/
theorem Event.addTo_eq {α : Type} (he : e.seq ≠ 0) (level : Level) (kept : α) (add : Event → α) :
    e.addTo level kept add = pure (if level.admits e.scope then add e else kept) := by
  rw [addTo]
  split_ifs
  · funext last
    show (add (e.numbered last).1, (e.numbered last).2) = (add e, last)
    rw [numbered, if_neg he]
  · rfl

namespace Ring

variable {r : Ring}

/-- Whether a ring is as the events that were admitted so far leave it. -/
structure Holds (r : Ring) (came : List Event) : Prop where
  newest : Newest r.capacity came r.toList
  oldest_lt : r.oldest < r.capacity
  -- The slots are in order until all are taken.
  oldest_eq : r.slots.size < r.capacity → r.oldest = 0
  size_le : r.slots.size ≤ r.capacity

theorem rotate_set {l : List Event} {i : Nat} (hi : i < l.length) :
    (l.set i e).drop ((i + 1) % l.length) ++ (l.set i e).take ((i + 1) % l.length) = l.drop (i + 1) ++ l.take i ++ [e] := by
  have htake : (l.set i e).take (i + 1) = l.take i ++ [e] := by
    rw [List.take_succ_eq_append_getElem (by simpa using hi), List.take_set_of_le le_rfl, List.getElem_set_self]
  obtain hlt | heq : i + 1 < l.length ∨ i + 1 = l.length := Nat.lt_or_eq_of_le hi
  · rw [Nat.mod_eq_of_lt hlt, htake, List.drop_set_of_lt (Nat.lt_succ_self i), List.append_assoc]
  · -- After the last slot the ring begins at its first slot again.
    rw [List.take_of_length_le (by rw [List.length_set, heq])] at htake
    rw [heq, Nat.mod_self, List.drop_zero, List.take_zero, List.append_nil, htake, List.drop_length, List.nil_append]

theorem Holds.store (h : r.Holds came) (e : Event) : (r.store e).Holds (came ++ [e]) := by
  have hnewest := h.newest
  rw [Ring.store]
  split_ifs with hfree
  · have hlist : r.toList = r.slots.toList := by simp [toList, h.oldest_eq hfree]
    have hpush : Ring.toList { r with slots := r.slots.push e } = r.slots.toList ++ [e] := by
      simp [toList, h.oldest_eq hfree]
    refine ⟨?_, h.oldest_lt, fun _ => h.oldest_eq hfree, by rwa [Array.size_push]⟩
    rw [hlist] at hnewest
    rw [hpush]
    exact hnewest.concat hfree
  · have hfull : r.slots.size = r.capacity := le_antisymm h.size_le (not_lt.1 hfree)
    have hlt : r.oldest < r.slots.toList.length := by
      rw [Array.length_toList, hfull]
      exact h.oldest_lt
    have hturned := rotate_set (e := e) hlt
    rw [Array.length_toList, hfull, ← Array.toList_setIfInBounds] at hturned
    rw [toList, List.drop_eq_getElem_cons hlt, List.cons_append] at hnewest
    refine ⟨?_, Nat.mod_lt _ (Nat.zero_lt_of_lt h.oldest_lt), fun hsize => ?_, ?_⟩
    · rw [toList, hturned]
      apply hnewest.turn
      rw [List.length_append, List.length_drop, List.length_take, Array.length_toList]
      rw [Array.length_toList] at hlt
      omega
    · rw [Array.size_setIfInBounds] at hsize
      exact absurd hsize hfree
    · rw [Array.size_setIfInBounds]
      exact h.size_le

theorem store_eq (r : Ring) (e : Event) : (r.store e).level = r.level ∧ (r.store e).capacity = r.capacity := by
  rw [store]
  split_ifs <;> exact ⟨rfl, rfl⟩

theorem Holds.foldl_store (es : List Event) (h : r.Holds came) :
    (es.foldl Ring.store r).Holds (came ++ es) ∧ (es.foldl Ring.store r).capacity = r.capacity := by
  induction es generalizing r came with
  | nil => simpa using h
  | cons e es ih =>
    rw [List.append_cons, ← (r.store_eq e).2]
    exact ih (h.store e)

theorem holds_ofSize (level : Level) (size : Int) : (ofSize level size).Holds [] := by
  refine ⟨⟨List.nil_suffix, by simp [ofSize, toList]⟩, ?_, fun _ => rfl, Nat.zero_le _⟩
  rw [ofSize]
  dsimp only
  split_ifs with hsize
  · decide
  · omega

theorem newest_foldl_store (level : Level) (size : Int) (es : List Event) :
    Newest (if size ≤ 0 then 1024 else size.toNat) es (es.foldl Ring.store (ofSize level size)).toList := by
  obtain ⟨hholds, hcapacity⟩ := (holds_ofSize level size).foldl_store es
  have hnewest := hholds.newest
  rwa [hcapacity] at hnewest

theorem foldlM_push {es : List Event} (hes : ∀ e ∈ es, e.seq ≠ 0) (r : Ring) :
    es.foldlM Ring.push r = pure ((es.filter fun e => r.level.admits e.scope).foldl Ring.store r) := by
  induction es generalizing r with
  | nil => rfl
  | cons e es ih =>
    rw [List.forall_mem_cons] at hes
    rw [List.foldlM_cons, push, Event.addTo_eq hes.1, pure_bind, ih hes.2, List.filter_cons]
    split_ifs
    · rw [(r.store_eq e).1, List.foldl_cons]
    · rfl

end Ring

/-! ### Tracers -/

theorem Stream.toList_foldl_write (s : Stream) (es : List Event) : (es.foldl Stream.write s).toList = s.toList ++ es := by
  induction es generalizing s with
  | nil => simp
  | cons e es ih =>
    rw [List.foldl_cons, ih]
    simp [Stream.toList, write]

theorem Tracer.emitAll_eq {es : List Event} (hes : ∀ e ∈ es, e.seq ≠ 0) (level : Level) (stream : Stream) (ring : Ring)
    (last : Nat) : (Tracer.mk level stream ring last).emitAll es =
      ⟨level, some ((es.filter fun e => stream.level.admits e.scope).foldl Stream.write stream),
        some ((es.filter fun e => ring.level.admits e.scope).foldl Ring.store ring), last⟩ := by
  induction es generalizing stream ring with
  | nil => rfl
  | cons e es ih =>
    rw [List.forall_mem_cons] at hes
    have hemit : (Tracer.mk level stream ring last).emit e =
        ⟨level, some (if stream.level.admits e.scope then stream.write e else stream),
          some (if ring.level.admits e.scope then ring.store e else ring), last⟩ := by
      simp only [emit, Option.mapM_some, Stream.push, Ring.push, Event.addTo_eq hes.1]
      rfl
    rw [emitAll, List.foldl_cons, hemit, ← emitAll, ih hes.2, List.filter_cons, List.filter_cons]
    split_ifs <;> simp only [(ring.store_eq e).1, List.foldl_cons, Stream.write]

/-- A ring keeps the newest of the events that its level admits, if they have numbers. That of a tracer which also writes to a
stream keeps the newest of the events that were written. -/
theorem ring_keeps_newest :
    (∀ (level : Level) (size : Int) (es : List Event) (last : Nat), (∀ e ∈ es, e.seq ≠ 0) →
      Newest (if size ≤ 0 then 1024 else size.toNat) (es.filter fun e => level.admits e.scope)
        (es.foldlM Ring.push (.ofSize level size) last).1.toList) ∧
      ∀ s : Settings, s.level ≠ .off → s.level ≠ .error → 0 < s.ringSize → ∀ es : List Event, (∀ e ∈ es, e.seq ≠ 0) →
        ∃ stream ring, (Tracer.ofSettings s).emitAll es = ⟨s.level, some stream, some ring, 0⟩ ∧
          stream.toList = es.filter (fun e => s.level.admits e.scope) ∧ Newest s.ringSize.toNat stream.toList ring.toList := by
  refine ⟨fun level size es last hes => ?_, fun s hoff herror hsize es hes => ?_⟩
  · rw [Ring.foldlM_push hes]
    exact Ring.newest_foldl_store level size _
  · have hmade : Tracer.ofSettings s =
        ⟨s.level, some { level := s.level, format := s.format.forPath s.path }, some (.ofSize s.level s.ringSize), 0⟩ := by
      rw [Tracer.ofSettings]
      split <;> simp_all
    rw [hmade, Tracer.emitAll_eq hes]
    refine ⟨_, _, rfl, Stream.toList_foldl_write _ _, ?_⟩
    have hnewest := Ring.newest_foldl_store s.level s.ringSize (es.filter fun e => s.level.admits e.scope)
    rw [if_neg (by omega)] at hnewest
    rwa [Stream.toList_foldl_write]

theorem ring_keeps_newest_points :
    let s : Settings := { level := .detail, ringSize := 2 }
    let es : List Event := (List.range 5).map fun i => ⟨i + 1, .point, .cls, 0, 0, [], [], [], {}⟩
    s.level ≠ .off ∧ s.level ≠ .error ∧ 0 < s.ringSize ∧ (∀ e ∈ es, e.seq ≠ 0) ∧
      Newest 2 (es.filter fun e => s.level.admits e.scope) (es.foldlM Ring.push (.ofSize s.level 2) 7).1.toList ∧
      ∃ stream ring, (Tracer.ofSettings s).emitAll es = ⟨s.level, some stream, some ring, 0⟩ ∧
        stream.toList = es.filter (fun e => s.level.admits e.scope) ∧ Newest s.ringSize.toNat stream.toList ring.toList := by
  intro s es
  have hes : ∀ e ∈ es, e.seq ≠ 0 := by decide
  exact ⟨by decide, by decide, by decide, hes, ring_keeps_newest.1 s.level 2 es 7 hes,
    ring_keeps_newest.2 s (by decide) (by decide) (by decide) es hes⟩

end ClassAbi.Trace
