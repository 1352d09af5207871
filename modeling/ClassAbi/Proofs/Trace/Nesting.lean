import ClassAbi.Trace.Recorder
import Mathlib.Data.List.Basic

/-!
# Nested spans

Events open and close spans. `Trace.nest` follows the spans that are open from event to event, and accepts an end only for the
span that was begun last. What is recorded inside a span leaves the open spans as they are, so a recorder that begins a span,
records such events and ends the span has again recorded such events.
-/

namespace ClassAbi.Trace

/-- Whether an event has the data of the event that began a span. -/
def Event.Closes (e b : Event) : Prop := e.span = b.span ∧ e.scope = b.scope ∧ e.name = b.name ∧ e.parent = b.parent

instance (e b : Event) : Decidable (e.Closes b) := by
  unfold Event.Closes
  infer_instance

/-- The events that began the spans that are open after an event, the innermost first. -/
def nest (opened : List Event) (e : Event) : Option (List Event) :=
  match e.kind, opened with
  | .begin, opened => some (e :: opened)
  | .finish, b :: rest => if e.Closes b then some rest else none
  | .point, opened => some opened
  | _, _ => none

/-- Whether two spans differ in their annotations only. -/
def Span.Same (s s' : Span) : Prop := s'.id = s.id ∧ s'.scope = s.scope ∧ s'.name = s.name ∧ s'.parent = s.parent

/-- Whether every end closes the span that was begun last, and no span is open after the last event. -/
def Bracketed (events : List Event) : Prop := events.foldlM nest [] = some []

instance (events : List Event) : Decidable (Bracketed events) :=
  inferInstanceAs (Decidable (events.foldlM nest [] = some []))

def Neutral (events : List Event) : Prop := ∀ opened, events.foldlM nest opened = some opened

def begun (events : List Event) : List Nat := (events.filter (·.kind = .begin)).map Event.span

variable {events events' : List Event} {b e : Event}

theorem Neutral.bracketed (h : Neutral events) : Bracketed events := h []

theorem neutral_nil : Neutral [] := fun _ => rfl

theorem Neutral.append (h : Neutral events) (h' : Neutral events') : Neutral (events ++ events') := by
  intro opened
  rw [List.foldlM_append, h opened]
  exact h' opened

theorem neutral_point (he : e.kind = .point) : Neutral [e] := by
  intro opened
  simp [nest, he]

theorem Neutral.enclose (h : Neutral events) (hb : b.kind = .begin) (he : e.kind = .finish) (hcloses : e.Closes b) :
    Neutral (b :: events ++ [e]) := by
  intro opened
  have hopen : nest opened b = some (b :: opened) := by simp [nest, hb]
  have hclose : nest (b :: opened) e = some opened := by simp [nest, he, hcloses]
  rw [List.cons_append, List.foldlM_cons, hopen]
  show List.foldlM nest (b :: opened) (events ++ [e]) = some opened
  rw [List.foldlM_append, h]
  show (nest (b :: opened) e >>= fun s => List.foldlM nest s []) = some opened
  rw [hclose]
  rfl

theorem Span.same_annotated (s : Span) (extra : List (Text × Text)) :
    s.Same (extra.foldl (fun s (key, value) => s.withExtra key value) s) := by
  induction extra generalizing s with
  | nil => exact ⟨rfl, rfl, rfl, rfl⟩
  | cons pair extra ih =>
    have hnext : s.Same (s.withExtra pair.1 pair.2) := by
      unfold Span.withExtra
      split_ifs <;> exact ⟨rfl, rfl, rfl, rfl⟩
    obtain ⟨hid, hscope, hname, hparent⟩ := ih (s.withExtra pair.1 pair.2)
    exact ⟨hid.trans hnext.1, hscope.trans hnext.2.1, hname.trans hnext.2.2.1, hparent.trans hnext.2.2.2⟩

theorem begun_append (events events' : List Event) : begun (events ++ events') = begun events ++ begun events' := by
  rw [begun, begun, begun, List.filter_append, List.map_append]

/-! ### Recorders -/

namespace Recorder

/-- Whether a recorder has recorded `new` since it was `t`: events of scopes that are recorded, in which spans have the next
numbers. -/
structure Adds (t t' : Recorder) (new : List Event) : Prop where
  level_eq : t'.level = t.level
  events_eq : t'.toList = t.toList ++ new
  count_eq : t'.count = t.count + new.length
  admitted : ∀ e ∈ new, t.records e.scope = true
  spans_eq : t'.spans = t.spans + (begun new).length
  begun_eq : begun new = List.range' (t.spans + 1) (begun new).length

/-- Whether a recorder has recorded only whole spans and points since it was `t`. -/
def Nests (t t' : Recorder) : Prop := ∃ new, Adds t t' new ∧ Neutral new

/-- Whether a recorder has recorded only whole spans and points since it was `t`, but for a span of a stage that it has not
ended. -/
def Leaves (t t' : Recorder) : Prop :=
  ∃ before b after, Adds t t' (before ++ b :: after) ∧ b.kind = .begin ∧ b.scope = .pass ∧ Neutral (before ++ after)

variable {t t' t'' : Recorder} {new new' : List Event} {scope : Scope} {name detail : Text} {parent : Nat} {span : Span}

theorem Adds.refl (t : Recorder) : Adds t t [] :=
  ⟨rfl, (List.append_nil _).symm, rfl, fun _ h => absurd h List.not_mem_nil, rfl, rfl⟩

theorem Adds.trans (h : Adds t t' new) (h' : Adds t' t'' new') : Adds t t'' (new ++ new') where
  level_eq := h'.level_eq.trans h.level_eq
  events_eq := by rw [h'.events_eq, h.events_eq, List.append_assoc]
  count_eq := by rw [h'.count_eq, h.count_eq, List.length_append, Nat.add_assoc]
  admitted e he := by
    rcases List.mem_append.1 he with he | he
    · exact h.admitted e he
    · have hadmitted := h'.admitted e he
      rwa [records, h.level_eq] at hadmitted
  spans_eq := by rw [h'.spans_eq, h.spans_eq, begun_append, List.length_append, Nat.add_assoc]
  begun_eq := by
    have hnext := h'.begun_eq
    rw [h.spans_eq] at hnext
    rw [begun_append, List.length_append, List.range'_append_1.symm]
    exact congrArg₂ (· ++ ·) h.begun_eq (by rwa [Nat.add_right_comm] at hnext)

theorem adds_record (hscope : t.records e.scope = true) (hkind : e.kind ≠ .begin) :
    Adds t (t.record e) [{ e with seq := t.count + 1, time := t.now }] where
  level_eq := rfl
  events_eq := by simp [record, toList]
  count_eq := rfl
  admitted := by simp [hscope]
  spans_eq := by simp [record, begun, hkind]
  begun_eq := by simp [begun, hkind]

/-- The event that a recorder records at the beginning of a span. -/
def beginning (t : Recorder) (scope : Scope) (name : Text) (parent : Nat) : Event :=
  { seq := t.count + 1, kind := .begin, scope, span := t.spans + 1, parent, name, time := t.now }

theorem adds_begin (hscope : t.records scope = true) :
    Adds t (t.begin scope name parent).2 [t.beginning scope name parent] := by
  have hbegin : (t.begin scope name parent).2 =
      { t with events := t.beginning scope name parent :: t.events, count := t.count + 1, spans := t.spans + 1 } := by
    rw [begin, if_pos hscope]
    rfl
  rw [hbegin]
  refine ⟨rfl, ?_, rfl, ?_, ?_, ?_⟩
  · simp [toList]
  · simp [beginning, hscope]
  · simp [begun, beginning]
  · simp [begun, beginning]

theorem begin_of_not_records (hscope : ¬t.records scope = true) : t.begin scope name parent = ({}, t) := by
  rw [begin, if_neg hscope]

theorem exists_adds_begin (t : Recorder) (scope : Scope) (name : Text) (parent : Nat) :
    ∃ new, Adds t (t.begin scope name parent).2 new := by
  by_cases hscope : t.records scope = true
  · exact ⟨_, adds_begin hscope⟩
  · rw [begin_of_not_records hscope]
    exact ⟨[], .refl t⟩

theorem exists_finish (t : Recorder) (span : Span) (detail : Text) : ∃ new : List Event,
    (t.finish span detail).toList = t.toList ++ new ∧ (t.finish span detail).count = t.count + new.length := by
  unfold finish
  split_ifs
  · exact ⟨[], (List.append_nil _).symm, rfl⟩
  · exact ⟨[_], List.reverse_cons, rfl⟩

theorem Nests.refl (t : Recorder) : Nests t t := ⟨[], .refl t, neutral_nil⟩

theorem Nests.trans (h : Nests t t') (h' : Nests t' t'') : Nests t t'' := by
  obtain ⟨new, hadds, hneutral⟩ := h
  obtain ⟨new', hadds', hneutral'⟩ := h'
  exact ⟨new ++ new', hadds.trans hadds', hneutral.append hneutral'⟩

theorem nests_now (t : Recorder) (now : Stamp) : Nests t { t with now } :=
  ⟨[], ⟨rfl, (List.append_nil _).symm, rfl, fun _ h => absurd h List.not_mem_nil, rfl, rfl⟩, neutral_nil⟩

theorem nests_point (t : Recorder) (scope : Scope) (name detail : Text) (parent : Nat) :
    Nests t (t.point scope name detail parent) := by
  by_cases hscope : t.records scope = true
  · rw [point, if_pos hscope]
    exact ⟨_, adds_record hscope (by simp), neutral_point rfl⟩
  · rw [point, if_neg hscope]
    exact .refl t

/-- The end of a span that is recorded, after `new` inside it. Annotations may have been added to the span. -/
theorem Adds.finish (hscope : t.records scope = true) (hspan : (t.begin scope name parent).1.Same span)
    (h : Adds (t.begin scope name parent).2 t' new) (detail : Text) : ∃ e : Event,
    e.kind = .finish ∧ e.Closes (t.beginning scope name parent) ∧
      Adds t (t'.finish span detail) (t.beginning scope name parent :: new ++ [e]) := by
  have hbegin : Adds t (t.begin scope name parent).2 [t.beginning scope name parent] := adds_begin hscope
  have hopened := hbegin.trans h
  rw [begin, if_pos hscope] at hspan
  obtain ⟨hid, hsame⟩ := hspan
  dsimp only at hid hsame
  have hrecords : t'.records span.scope = true := by rwa [records, hopened.level_eq, hsame.1]
  rw [Recorder.finish, if_neg (by omega)]
  exact ⟨_, rfl, ⟨hid, hsame⟩, hopened.trans (adds_record hrecords (by simp))⟩

theorem Nests.enclose (hspan : (t.begin scope name parent).1.Same span) (h : Nests (t.begin scope name parent).2 t')
    (detail : Text) : Nests t (t'.finish span detail) := by
  by_cases hscope : t.records scope = true
  · obtain ⟨new, hadds, hneutral⟩ := h
    obtain ⟨e, hkind, hcloses, hadds⟩ := hadds.finish hscope hspan detail
    exact ⟨_, hadds, hneutral.enclose rfl hkind hcloses⟩
  · rw [begin_of_not_records hscope] at hspan h
    rw [finish, if_pos hspan.1]
    exact h

theorem Leaves.enclose (hspan : (t.begin scope name parent).1.Same span) (h : Leaves (t.begin scope name parent).2 t')
    (detail : Text) : Leaves t (t'.finish span detail) := by
  by_cases hscope : t.records scope = true
  · obtain ⟨before, b, after, hadds, hb, hpass, hneutral⟩ := h
    obtain ⟨e, hkind, hcloses, hadds⟩ := hadds.finish hscope hspan detail
    refine ⟨t.beginning scope name parent :: before, b, after ++ [e], ?_, hb, hpass, ?_⟩
    · simpa using hadds
    · simpa using hneutral.enclose (b := t.beginning scope name parent) rfl hkind hcloses
  · rw [begin_of_not_records hscope] at hspan h
    rw [finish, if_pos hspan.1]
    exact h

theorem Nests.leave (h : Nests (t.begin .pass name parent).2 t') : Nests t t' ∨ Leaves t t' := by
  by_cases hscope : t.records .pass = true
  · obtain ⟨new, hadds, hneutral⟩ := h
    exact .inr ⟨[], _, new, (adds_begin hscope).trans hadds, rfl, rfl, hneutral⟩
  · rw [begin_of_not_records hscope] at h
    exact .inl h

theorem Nests.trans_leaves (h : Nests t t') (h' : Leaves t' t'') : Leaves t t'' := by
  obtain ⟨new, hadds, hneutral⟩ := h
  obtain ⟨before, b, after, hadds', hb, hpass, hneutral'⟩ := h'
  refine ⟨new ++ before, b, after, ?_, hb, hpass, ?_⟩
  · rw [List.append_assoc]
    exact hadds.trans hadds'
  · rw [List.append_assoc]
    exact hneutral.append hneutral'

end Recorder

end ClassAbi.Trace
