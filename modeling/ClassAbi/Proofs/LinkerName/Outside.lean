import ClassAbi.Proofs.LinkerName.Initializer

/-!
# Reads outside a name

A decoder is to give a result or report an error for every text. There are two ways in which it does neither and reads
outside the name instead. A length that is larger than what follows it goes unnoticed if it leaves the range of a word when
the position is added to it (`Overruns`), and the element of an array type is read without a look whether the name goes on
(`CodeOutside.ended`). `decode_outside` says for every text whether one of the two is reached.
-/

namespace ClassAbi.LinkerName

open Ascii Text

/-- Whether reading a class path from the rest `t` of the name `whole` reaches a length out of range. -/
def PathOutside (whole t : Text) : Prop :=
  ∃ pieces idents u, List.Forall₂ Spells pieces idents ∧ t = pieces.flatten ++ u ∧ Overruns whole u

/-- A code that a parameter type is read from. -/
inductive IsCode : Text → Prop where
  | primitive (p : Primitive) : IsCode [primitiveCode p]
  | cls {pieces idents : List Text} (path : List.Forall₂ Spells pieces idents) (nonempty : idents ≠ []) :
      IsCode (classStart ++ (pieces.flatten ++ [upperE]))
  | array {code : Text} (elem : IsCode code) : IsCode (arrayStart ++ (code ++ [upperE]))

/-- A rest of the name `whole` from which reading a parameter type leaves the name. -/
inductive CodeOutside (whole : Text) : Text → Prop where
  /-- The name ends where the element of an array type should begin. -/
  | ended : CodeOutside whole arrayStart
  | cls {t : Text} (path : PathOutside whole t) : CodeOutside whole (classStart ++ t)
  | array {t : Text} (elem : CodeOutside whole t) : CodeOutside whole (arrayStart ++ t)

/-- Whether reading the parameters from the rest `t` of the name `whole` leaves the name. -/
def ParametersOutside (whole t : Text) : Prop :=
  ∃ (codes : List Text) (u : Text), (∀ code ∈ codes, IsCode code) ∧ t = codes.flatten ++ u ∧ CodeOutside whole u

/-- A name whose decoding leaves it. -/
inductive NameOutside : (whole : Text) → Prop where
  | vtable {t : Text} (path : PathOutside (vtableStart ++ t) t) : NameOutside (vtableStart ++ t)
  | segments {pieces : List Text} {u : Text} (isSegment : ∀ p ∈ pieces, IsSegment p)
      (overruns : Overruns (nestedStart ++ (pieces.flatten ++ u)) u) : NameOutside (nestedStart ++ (pieces.flatten ++ u))
  | parameters {head cls name rest : Text} (names : NamesMember head cls name)
      (params : ParametersOutside (nestedStart ++ (head ++ upperE :: rest)) rest) :
      NameOutside (nestedStart ++ (head ++ upperE :: rest))

/-- A name from which reading the class of a static initializer leaves it. -/
inductive InitializerOutside : (whole : Text) → Prop where
  | segments {pieces idents : List Text} {u : Text} (path : List.Forall₂ Spells pieces idents)
      (not_mem : initializerSegment ∉ pieces) (overruns : Overruns (nestedStart ++ (pieces.flatten ++ u)) u) :
      InitializerOutside (nestedStart ++ (pieces.flatten ++ u))

/-! ### Parameter types -/

section

variable {whole t : Text}

theorem readParameter_otherwise (whole : Text) {c : UInt8} (hprim : primitiveCodes.find? (·.2 == c) = none)
    (harray : ∀ r, c :: t ≠ arrayStart ++ r) (hclass : ∀ r, c :: t ≠ classStart ++ r) :
    ∃ e, bare (readParameter whole (c :: t)) = .fail e := by
  have ha := after?_eq_none_iff.2 harray
  have hc := after?_eq_none_iff.2 hclass
  rw [readParameter, hprim]
  simp only
  split
  · next heq =>
    rw [ha] at heq
    cases heq
  split
  · next heq =>
    rw [hc] at heq
    cases heq
  · exact ⟨_, rfl⟩

theorem readParameter_cases (whole t : Text) :
    (t = [] ∧ bare (readParameter whole t) = .fault) ∨
    (∃ code param r, IsCode code ∧ t = code ++ r ∧ bare (readParameter whole t) = .ok (param, r)) ∨
    (CodeOutside whole t ∧ bare (readParameter whole t) = .fault) ∨
    ∃ e, bare (readParameter whole t) = .fail e := by
  obtain ⟨n, hn⟩ : ∃ n, t.length = n := ⟨_, rfl⟩
  induction n using Nat.strongRecOn generalizing t with
  | ind n ih =>
    match t with
    | [] => exact .inl ⟨rfl, by rw [readParameter]; rfl⟩
    | c :: t =>
      cases hprim : primitiveCodes.find? (·.2 == c) with
      | some x =>
        obtain ⟨p, -, rfl⟩ := exists_code_of_find? hprim
        exact .inr (.inl ⟨_, _, t, .primitive p, rfl, readParameter_primitive whole p t⟩)
      | none =>
        by_cases harray : ∃ r, c :: t = arrayStart ++ r
        · obtain ⟨r, hr⟩ := harray
          have hlt : r.length < n := by
            rw [← hn, hr, List.length_append, show arrayStart.length = 9 by decide]
            omega
          rw [hr, readParameter_array]
          rcases ih r.length hlt r rfl with ⟨rfl, hread⟩ | ⟨code, param, rest, hcode, rfl, hread⟩ | ⟨hout, hread⟩ | ⟨e, hread⟩
          · exact .inr (.inr (.inl ⟨by simpa using CodeOutside.ended, by rw [hread]; rfl⟩))
          · rw [hread]
            by_cases hE : ∃ u, rest = upperE :: u
            · obtain ⟨u, rfl⟩ := hE
              exact .inr (.inl ⟨_, openBracket :: param, u, .array hcode, by simp, rfl⟩)
            · have hhead : rest.head? ≠ some upperE := by
                intro h
                obtain ⟨u, hu⟩ := List.head?_eq_some_iff.1 h
                exact hE ⟨u, hu⟩
              exact .inr (.inr (.inr ⟨_, if_neg hhead⟩))
          · exact .inr (.inr (.inl ⟨.array hout, by rw [hread]; rfl⟩))
          · exact .inr (.inr (.inr ⟨e, by rw [hread]; rfl⟩))
        by_cases hclass : ∃ r, c :: t = classStart ++ r
        · obtain ⟨r, hr⟩ := hclass
          rw [hr, readParameter_class]
          by_cases hfault : bare (readPath whole r) = .fault
          · exact .inr (.inr (.inl ⟨.cls (readPath_eq_fault_iff.1 hfault), by rw [hfault]; rfl⟩))
          rcases Outcome.ok_or_fail_of_ne_fault hfault with ⟨⟨cls, rest⟩, hok⟩ | ⟨e, hfail⟩
          · rw [hok]
            obtain ⟨pieces, idents, u, hpath, hne, rfl, rfl, rfl⟩ := readPath_eq_ok_iff.1 hok
            exact .inr (.inl ⟨_, _, u, .cls hpath hne, by simp, rfl⟩)
          · exact .inr (.inr (.inr ⟨e, by rw [hfail]; rfl⟩))
        · exact .inr (.inr (.inr (readParameter_otherwise whole hprim (fun r h => harray ⟨r, h⟩) fun r h => hclass ⟨r, h⟩)))

theorem CodeOutside.ne_nil (h : CodeOutside whole t) : t ≠ [] := by
  cases h with
  | ended => decide
  | cls path => exact List.append_ne_nil_of_left_ne_nil (by decide) _
  | array elem => exact List.append_ne_nil_of_left_ne_nil (by decide) _

theorem readParameter_of_outside (h : CodeOutside whole t) : bare (readParameter whole t) = .fault := by
  induction h with
  | ended =>
    have hread := readParameter_array whole []
    rw [List.append_nil] at hread
    rw [hread, readParameter]
    rfl
  | cls path => rw [readParameter_class, readPath_eq_fault_iff.2 path]; rfl
  | array elem ih => rw [readParameter_array, ih]; rfl

theorem readParameter_of_isCode (whole : Text) {code : Text} (h : IsCode code) :
    ∃ param, ∀ r, bare (readParameter whole (code ++ r)) = .ok (param, r) := by
  induction h with
  | primitive p => exact ⟨_, fun r => readParameter_primitive whole p r⟩
  | @cls pieces idents path nonempty =>
    refine ⟨upperL :: (join [slash] idents ++ [semicolon]), fun r => ?_⟩
    rw [List.append_assoc, List.append_assoc, List.singleton_append, readParameter_class,
      readPath_eq_ok_iff.2 ⟨pieces, idents, r, path, nonempty, rfl, rfl, rfl⟩]
    rfl
  | array elem ih =>
    obtain ⟨param, hparam⟩ := ih
    refine ⟨openBracket :: param, fun r => ?_⟩
    rw [List.append_assoc, List.append_assoc, readParameter_array, hparam]
    rfl

theorem IsCode.ne_nil {code : Text} (h : IsCode code) : code ≠ [] := by
  cases h with
  | primitive p => simp
  | cls path nonempty => exact List.append_ne_nil_of_left_ne_nil (by decide) _
  | array elem => exact List.append_ne_nil_of_left_ne_nil (by decide) _

/-! ### Parameters -/

theorem readParametersFrom_of_outside (h : ParametersOutside whole t) : readParametersFrom whole t = .fault := by
  obtain ⟨codes, u, hcodes, rfl, hout⟩ := h
  induction codes with
  | nil =>
    rw [List.flatten_nil, List.nil_append, readParametersFrom_of_ne_nil whole hout.ne_nil, readParameter_of_outside hout]
    rfl
  | cons code codes ih =>
    rw [List.forall_mem_cons] at hcodes
    obtain ⟨param, hparam⟩ := readParameter_of_isCode whole hcodes.1
    rw [List.flatten_cons, List.append_assoc,
      readParametersFrom_of_ne_nil whole (List.append_ne_nil_of_left_ne_nil hcodes.1.ne_nil _), hparam]
    simp only [bind, Except.bind, ih hcodes.2]
    rfl

theorem outside_of_readParametersFrom (h : readParametersFrom whole t = .fault) : ParametersOutside whole t := by
  obtain ⟨n, hn⟩ : ∃ n, t.length = n := ⟨_, rfl⟩
  induction n using Nat.strongRecOn generalizing t with
  | ind n ih =>
    by_cases hne : t = []
    · subst hne
      rw [readParametersFrom] at h
      exact absurd h (by simp)
    rw [readParametersFrom_of_ne_nil whole hne, Outcome.bind_eq_fault_iff] at h
    rcases readParameter_cases whole t with ⟨hnil, -⟩ | ⟨code, param, r, hcode, rfl, hread⟩ | ⟨hout, -⟩ | ⟨e, hread⟩
    · exact absurd hnil hne
    · simp only [hread, Outcome.ok_ne_fault, false_or, Except.ok.injEq, exists_eq_left', Outcome.map_eq_fault_iff] at h
      have hlt : r.length < n := by
        have := List.length_pos_iff.2 hcode.ne_nil
        rw [← hn, List.length_append]
        omega
      obtain ⟨codes, u, hcodes, rfl, hout⟩ := ih r.length hlt h rfl
      exact ⟨code :: codes, u, List.forall_mem_cons.2 ⟨hcode, hcodes⟩, by simp, hout⟩
    · exact ⟨[], t, by simp, rfl, hout⟩
    · simp [hread] at h

theorem readParametersFrom_eq_fault_iff : readParametersFrom whole t = .fault ↔ ParametersOutside whole t :=
  ⟨outside_of_readParametersFrom, readParametersFrom_of_outside⟩

theorem readParametersFrom_none_ne_fault (whole : Text) : readParametersFrom whole "v" ≠ .fault := by
  obtain ⟨e, hread⟩ := readParameter_otherwise whole (c := 0x76) (t := []) rfl
    (fun r h => absurd (List.cons.inj h).1 (by decide)) fun r h => absurd (List.cons.inj h).1 (by decide)
  rw [show ("v" : Text) = [0x76] from rfl, readParametersFrom_of_ne_nil whole (by simp), hread]
  simp [bind, Except.bind, Outcome.fail, Outcome.fault]

theorem optionalParameters_eq_fault_iff : optionalParameters whole t = .fault ↔ ParametersOutside whole t := by
  rw [optionalParameters, symbolOf.optionalParameters, ← readParametersFrom_eq_fault_iff]
  split_ifs with hempty
  · obtain rfl := List.isEmpty_iff.1 hempty
    simp [readParametersFrom]
  rw [Outcome.map_eq_fault_iff, readParameters]
  split_ifs with hnone
  · subst hnone
    simp [readParametersFrom_none_ne_fault]
  · rfl

end

/-! ### Names -/

section

variable {full decoration : Text}

theorem decode_of_outside (h : NameOutside (dropStart decoration full)) : decode full decoration = .fault := by
  generalize hwhole : dropStart decoration full = whole at h
  cases h with
  | vtable path =>
    rw [decode_vtable hwhole, readPath_eq_fault_iff.2 path]
    rfl
  | segments isSegment overruns =>
    rw [decode_nested hwhole, readMember_flatten isSegment overruns.continues, readMember_of_overruns overruns]
    rfl
  | @parameters head cls name rest names params =>
    have hfault := optionalParameters_eq_fault_iff.2 params
    have hrest : rest ≠ [] := by
      rintro rfl
      exact absurd hfault (by simp [optionalParameters, symbolOf.optionalParameters])
    rw [decode_of_namesMember names hwhole fun _ => hrest, hfault]
    rfl

theorem outside_of_decode (h : decode full decoration = .fault) : NameOutside (dropStart decoration full) := by
  by_cases hvtable : ∃ t, dropStart decoration full = vtableStart ++ t
  · obtain ⟨t, ht⟩ := hvtable
    rw [decode_vtable ht, Outcome.bind_eq_fault_iff] at h
    rw [ht]
    rcases h with hpath | ⟨x, -, hx⟩
    · exact .vtable (readPath_eq_fault_iff.1 hpath)
    · split_ifs at hx
      · exact absurd hx (by simp)
      · exact absurd hx (by simp)
  by_cases hnested : ∃ t, dropStart decoration full = nestedStart ++ t
  · obtain ⟨t, ht⟩ := hnested
    rw [ht]
    rcases decode_nested_cases ht with ⟨pieces, u, hall, rfl, hover, -⟩ | ⟨_, _, _, _, hok⟩ |
      ⟨head, cls, name, rest, hname, rfl, hok⟩ | ⟨e, hfail⟩
    · exact .segments hall hover
    · exact absurd (hok.symm.trans h) (by simp)
    · exact .parameters hname (optionalParameters_eq_fault_iff.1 (Outcome.map_eq_fault_iff.1 (hok.symm.trans h)))
    · exact absurd (hfail.symm.trans h) (by simp)
  · obtain ⟨e, hfail⟩ := decode_eq_fail (fun t ht => hvtable ⟨t, ht⟩) fun t ht => hnested ⟨t, ht⟩
    exact absurd (hfail.symm.trans h) (by simp)

theorem initializerClass_of_outside (h : InitializerOutside (dropStart decoration full)) :
    initializerClass full decoration = .fault := by
  generalize hwhole : dropStart decoration full = whole at h
  cases h with
  | segments path not_mem overruns =>
    rw [initializerClass_eq hwhole, readInitializerPath_flatten path not_mem, readInitializerPath_of_overruns overruns]
    rfl

theorem outside_of_initializerClass (h : initializerClass full decoration = .fault) :
    InitializerOutside (dropStart decoration full) := by
  by_cases hnested : ∃ t, dropStart decoration full = nestedStart ++ t
  · obtain ⟨t, ht⟩ := hnested
    rw [initializerClass_eq ht, Outcome.bind_eq_fault_iff] at h
    rw [ht]
    rcases h with hread | ⟨x, -, hx⟩
    · rcases readInitializerPath_cases (nestedStart ++ t) t with ⟨_, _, _, _, _, _, hok⟩ |
        ⟨pieces, idents, u, hpath, hmem, rfl, hover, -⟩ | ⟨e, hfail⟩
      · exact absurd (hok.symm.trans hread) (by simp)
      · exact .segments hpath hmem hover
      · exact absurd (hfail.symm.trans hread) (by simp)
    · split_ifs at hx
      · exact absurd hx (by simp)
      · exact absurd hx (by simp)
  · rw [initializerClass] at h
    simp only [after?_eq_none_iff.2 fun t ht => hnested ⟨t, ht⟩] at h
    exact absurd h (by simp)

end

/-- Decoding a name and reading the class of a static initializer end for every text, with a result or an error unless the
text has one of the forms that are read past their end. -/
theorem decode_outside (full decoration : Text) :
    (NameOutside (dropStart decoration full) ∧ decode full decoration = .fault ∨
      ¬NameOutside (dropStart decoration full) ∧
        ((∃ symbol, decode full decoration = .ok symbol) ∨ ∃ e, decode full decoration = .fail e)) ∧
    (InitializerOutside (dropStart decoration full) ∧ initializerClass full decoration = .fault ∨
      ¬InitializerOutside (dropStart decoration full) ∧
        ((∃ cls, initializerClass full decoration = .ok cls) ∨ ∃ e, initializerClass full decoration = .fail e)) := by
  constructor
  · by_cases h : NameOutside (dropStart decoration full)
    · exact .inl ⟨h, decode_of_outside h⟩
    · exact .inr ⟨h, Outcome.ok_or_fail_of_ne_fault fun hfault => h (outside_of_decode hfault)⟩
  · by_cases h : InitializerOutside (dropStart decoration full)
    · exact .inl ⟨h, initializerClass_of_outside h⟩
    · exact .inr ⟨h, Outcome.ok_or_fail_of_ne_fault fun hfault => h (outside_of_initializerClass hfault)⟩

/-- A length of the largest word, and an array type at the end of a name. -/
theorem outside_of_largest_length :
    decode "_ZN9223372036854775807a" "" = .fault ∧ initializerClass "_ZN9223372036854775807a" "" = .fault ∧
      decode "_ZN1a1bEP6JArrayI" "" = .fault := by
  have hover : Overruns (nestedStart ++ (List.flatten [] ++ ("9223372036854775807a" : Text))) "9223372036854775807a" :=
    ⟨by decide, by decide +kernel, by decide +kernel, by decide +kernel⟩
  have hwhole : dropStart "" "_ZN9223372036854775807a" =
      nestedStart ++ (List.flatten [] ++ ("9223372036854775807a" : Text)) := by decide
  refine ⟨decode_of_outside ?_, initializerClass_of_outside ?_, by cbv⟩
  · rw [hwhole]
    exact .segments (by simp) hover
  · rw [hwhole]
    exact .segments .nil (by simp) hover

end ClassAbi.LinkerName
