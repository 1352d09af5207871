import ClassAbi.Proofs.LinkerName.Member

/-!
# From a name to its symbol

What the decoder makes of a text, by the text's form: a vtable's name (`decode_vtable`), the name of a class descriptor
(`decode_of_namesDescriptor`) and that of a member, whose parameters are read after the closing `E`
(`decode_of_namesMember`). Any text that begins as a nested name has one of the last two forms, has a length in it that
passes the range of a word, or is reported as an error (`decode_nested_cases`).
-/

namespace ClassAbi.LinkerName

variable {idents : List Text} {name rest : Text}

open Ascii Text

/-- Whether the part of a nested name before its closing `E` spells a class and a member of it. -/
inductive NamesMember : (head cls name : Text) → Prop where
  | segment {pieces idents : List Text} {last name : Text} (path : List.Forall₂ Spells pieces idents)
      (nonempty : idents ≠ []) (member : Spells last name) :
      NamesMember (pieces.flatten ++ last) (join [slash] idents) name
  | token {pieces idents : List Text} {name token : Text} (path : List.Forall₂ Spells pieces idents)
      (nonempty : idents ≠ []) (member : (name, token) ∈ substitutions) :
      NamesMember (pieces.flatten ++ token) (join [slash] idents) name

/-- Whether the part of a nested name before its closing `E` spells a class and the member that stands for its
descriptor. -/
inductive NamesDescriptor : (head cls : Text) → Prop where
  | segment {pieces idents : List Text} {last : Text} (path : List.Forall₂ Spells pieces idents) (nonempty : idents ≠ [])
      (isSegment : IsSegment last) (body_eq : body last = "class$") :
      NamesDescriptor (pieces.flatten ++ last) (join [slash] idents)

/-- The parameters after the closing `E` of a nested name, which a field lacks. -/
abbrev optionalParameters (whole rest : Text) : Outcome DecodeError (Option (List Text)) :=
  symbolOf.optionalParameters whole rest

/-! ### Escaped paths -/

theorem checked_cases {α : Type} (x : Except DecodeError α) :
    (∃ a, x = .ok a ∧ checked x = .ok a) ∨ ∃ e, checked x = .fail e := by
  cases x with
  | error e => exact .inr ⟨e, rfl⟩
  | ok a => exact .inl ⟨a, rfl, rfl⟩

theorem forall₂_spells_iff {pieces : List Text} :
    List.Forall₂ Spells pieces idents ↔
      (∀ p ∈ pieces, IsSegment p) ∧ (pieces.map body).mapM unescape = .ok idents := by
  rw [mapM_eq_ok_iff, List.forall₂_map_left_iff, ← List.forall₂_and_left]
  exact ⟨fun h => h.imp fun p i h => ⟨h.isSegment, h.unescapes⟩, fun h => h.imp fun p i h => ⟨h.1, h.2⟩⟩

theorem map_body_ne_nil {pieces : List Text} (hpath : List.Forall₂ Spells pieces idents) (hne : idents ≠ []) :
    pieces.map body ≠ [] := by
  rintro hnil
  obtain rfl := List.map_eq_nil_iff.1 hnil
  exact hne (List.forall₂_nil_left_iff.1 hpath)

section

variable {full whole rest : Text} {pieces : List Text}

theorem unescapePath_of_spells (h : List.Forall₂ Spells pieces idents) (hne : idents ≠ []) :
    unescapePath full (pieces.map body) = .ok (join [slash] idents) := by
  rw [unescapePath.eq_2 full _ (map_body_ne_nil h hne), (forall₂_spells_iff.1 h).2]
  rfl

theorem unescapePath_cases (full : Text) (hall : ∀ p ∈ pieces, IsSegment p) :
    (∃ idents, List.Forall₂ Spells pieces idents ∧ idents ≠ [] ∧
      unescapePath full (pieces.map body) = .ok (join [slash] idents)) ∨
    ∃ e, unescapePath full (pieces.map body) = .fail e := by
  cases hread : (pieces.map body).mapM unescape with
  | error e =>
    have hne : pieces.map body ≠ [] := by
      rintro hnil
      rw [hnil] at hread
      cases hread
    exact .inr ⟨e, by rw [unescapePath.eq_2 full _ hne, hread]; rfl⟩
  | ok idents =>
    have hspells := forall₂_spells_iff.2 ⟨hall, hread⟩
    cases idents with
    | nil =>
      obtain rfl := List.forall₂_nil_right_iff.1 hspells
      exact .inr ⟨_, rfl⟩
    | cons ident idents => exact .inl ⟨_, hspells, List.cons_ne_nil _ _, unescapePath_of_spells hspells (List.cons_ne_nil _ _)⟩

/-! ### Symbols -/

theorem symbolOf_token (segments : List Text) (name : Text) :
    symbolOf full whole segments (some name) rest = unescapePath full segments >>= fun cls =>
      Symbol.member cls name <$> optionalParameters whole rest := by
  rw [symbolOf]
  cases unescapePath full segments with
  | error e => rfl
  | ok cls =>
    simp only [bind, Except.bind, optionalParameters]
    cases symbolOf.optionalParameters whole rest <;> rfl

theorem symbolOf_concat {init : List Text} (h : init ≠ []) (last : Text) :
    symbolOf full whole (init ++ [last]) none rest = unescapePath full init >>= fun cls =>
      if last = "class$" ∧ rest = [] then .ok (.descriptor cls)
      else checked (unescape last) >>= fun name => Symbol.member cls name <$> optionalParameters whole rest := by
  obtain ⟨s, r, hsr⟩ := List.exists_cons_of_ne_nil (List.reverse_eq_nil_iff.not.2 h)
  have hinit : init = (s :: r).reverse := by rw [← hsr, List.reverse_reverse]
  rw [symbolOf, List.reverse_append, List.reverse_singleton, List.singleton_append, hsr]
  simp only [← hinit, List.isEmpty_iff]
  cases unescapePath full init with
  | error e => rfl
  | ok cls =>
    simp only [bind, Except.bind, optionalParameters]
    split
    · rfl
    · cases checked (unescape last) with
      | error e => rfl
      | ok name => cases symbolOf.optionalParameters whole rest <;> rfl

theorem symbolOf_token_cases (full whole rest : Text) (hall : ∀ p ∈ pieces, IsSegment p) {token : Text}
    (hmem : (name, token) ∈ substitutions) :
    (∃ cls, NamesMember (pieces.flatten ++ token) cls name ∧
      symbolOf full whole (pieces.map body) (some name) rest = Symbol.member cls name <$> optionalParameters whole rest) ∨
    ∃ e, symbolOf full whole (pieces.map body) (some name) rest = .fail e := by
  rw [symbolOf_token]
  rcases unescapePath_cases full hall with ⟨idents, hpath, hne, hok⟩ | ⟨e, hfail⟩
  · exact .inl ⟨_, .token hpath hne hmem, by rw [hok]; rfl⟩
  · exact .inr ⟨e, by rw [hfail]; rfl⟩

theorem symbolOf_segments_cases (full whole rest : Text) (hall : ∀ p ∈ pieces, IsSegment p) :
    (∃ cls, NamesDescriptor pieces.flatten cls ∧ rest = [] ∧
      symbolOf full whole (pieces.map body) none rest = .ok (.descriptor cls)) ∨
    (∃ cls name, NamesMember pieces.flatten cls name ∧
      symbolOf full whole (pieces.map body) none rest = Symbol.member cls name <$> optionalParameters whole rest) ∨
    ∃ e, symbolOf full whole (pieces.map body) none rest = .fail e := by
  rcases List.eq_nil_or_concat pieces with rfl | ⟨init, last, rfl⟩
  · exact .inr (.inr ⟨_, rfl⟩)
  by_cases hinit : init = []
  · subst hinit
    exact .inr (.inr ⟨_, rfl⟩)
  rw [List.concat_eq_append] at hall ⊢
  have hlast : IsSegment last := hall last (by simp)
  have hpath_all : ∀ p ∈ init, IsSegment p := fun p hp => hall p (List.mem_append_left _ hp)
  rw [List.map_append, List.map_singleton, symbolOf_concat (List.map_eq_nil_iff.not.2 hinit), List.flatten_append,
    List.flatten_singleton]
  rcases unescapePath_cases full hpath_all with ⟨idents, hpath, hne, hok⟩ | ⟨e, hfail⟩
  · rw [hok]
    by_cases hclass : body last = ("class$" : Text) ∧ rest = []
    · exact .inl ⟨_, .segment hpath hne hlast hclass.1, hclass.2, if_pos hclass⟩
    rcases checked_cases (unescape (body last)) with ⟨name, hname, hchecked⟩ | ⟨e, hfail⟩
    · refine .inr (.inl ⟨_, name, .segment hpath hne ⟨hlast, hname⟩, (if_neg hclass).trans ?_⟩)
      rw [hchecked]
      rfl
    · refine .inr (.inr ⟨e, (if_neg hclass).trans ?_⟩)
      rw [hfail]
      rfl
  · exact .inr (.inr ⟨e, by rw [hfail]; rfl⟩)

end

/-! ### Decoding by the form of the text -/

section

variable {full decoration t : Text}

theorem decode_vtable (h : dropStart decoration full = vtableStart ++ t) :
    decode full decoration = bare (readPath (vtableStart ++ t) t) >>= fun x =>
      if x.2 = [upperE] then .ok (.vtable x.1)
      else .fail ⟨full, position (vtableStart ++ t) x.2, .trailingCharacters⟩ := by
  rw [decode]
  simp only [h, after?_append]
  match readPath (vtableStart ++ t) t with
  | .error e => rfl
  | .ok (cls, ⟨rest, _⟩) => rfl

theorem decode_nested (h : dropStart decoration full = nestedStart ++ t) :
    decode full decoration = readMember (nestedStart ++ t) t >>= fun x =>
      if x.2.2.head? = some upperE then symbolOf full (nestedStart ++ t) x.1 x.2.1 x.2.2.tail
      else .fail ⟨full, position (nestedStart ++ t) x.2.2, .openNestedName⟩ := by
  have hvtable : after? vtableStart (nestedStart ++ t) = none := rfl
  rw [decode]
  simp only [h, hvtable, after?_append]
  match readMember (nestedStart ++ t) t with
  | .error e => rfl
  | .ok (segments, token, []) => rfl
  | .ok (segments, token, b :: rest) =>
    by_cases hb : b = upperE
    · subst hb
      rfl
    · simp only [bind, Except.bind]
      split
      · next heq =>
        obtain ⟨-, -, hcons⟩ := Prod.mk.inj heq |>.imp_right Prod.mk.inj
        exact absurd (List.cons.inj hcons).1 hb
      · next heq =>
        cases heq
        exact (if_neg (by simpa using hb)).symm

theorem decode_eq_fail (hvtable : ∀ t, dropStart decoration full ≠ vtableStart ++ t)
    (hnested : ∀ t, dropStart decoration full ≠ nestedStart ++ t) : ∃ e, decode full decoration = .fail e := by
  rw [decode]
  simp only [after?_eq_none_iff.2 hvtable, after?_eq_none_iff.2 hnested]
  exact ⟨_, rfl⟩

/-! ### Nested names -/

theorem decode_of_readMember {segments : List Text} {token : Option Text}
    (h : dropStart decoration full = nestedStart ++ t)
    (hread : readMember (nestedStart ++ t) t = .ok (segments, token, upperE :: rest)) :
    decode full decoration = symbolOf full (nestedStart ++ t) segments token rest := by
  rw [decode_nested h, hread]
  rfl

theorem ident_of_initializerSegment (h : Spells initializerSegment name) : name = "<clinit>" :=
  Except.ok.inj (h.unescapes.symm.trans spells_initializerSegment.unescapes)

section

variable {pieces idents : List Text}

theorem decode_path_token (hpath : List.Forall₂ Spells pieces idents) (hne : idents ≠ []) {token : Text}
    (hmem : (name, token) ∈ substitutions)
    (h : dropStart decoration full = nestedStart ++ (pieces.flatten ++ token ++ upperE :: rest)) :
    decode full decoration = Symbol.member (join [slash] idents) name <$>
      optionalParameters (nestedStart ++ (pieces.flatten ++ token ++ upperE :: rest)) rest := by
  rw [List.append_assoc] at h ⊢
  rw [decode_of_readMember h (readMember_path_token (forall₂_spells_iff.1 hpath).1 hmem rest), symbolOf_token,
    unescapePath_of_spells hpath hne]
  rfl

theorem decode_path_segment (hpath : List.Forall₂ Spells pieces idents) (hne : idents ≠ []) {last : Text}
    (hlast : IsSegment last) (hinit : last ≠ initializerSegment)
    (h : dropStart decoration full = nestedStart ++ (pieces.flatten ++ last ++ upperE :: rest)) :
    decode full decoration =
      if body last = "class$" ∧ rest = [] then .ok (.descriptor (join [slash] idents))
      else checked (unescape (body last)) >>= fun name => Symbol.member (join [slash] idents) name <$>
        optionalParameters (nestedStart ++ (pieces.flatten ++ last ++ upperE :: rest)) rest := by
  rw [List.append_assoc] at h ⊢
  rw [decode_of_readMember h (readMember_path_segment (forall₂_spells_iff.1 hpath).1 hlast hinit rest),
    symbolOf_concat (map_body_ne_nil hpath hne), unescapePath_of_spells hpath hne]
  rfl

end

theorem decode_of_namesMember {head cls : Text} (hname : NamesMember head cls name)
    (h : dropStart decoration full = nestedStart ++ (head ++ upperE :: rest)) (hclass : name = "class$" → rest ≠ []) :
    decode full decoration =
      Symbol.member cls name <$> optionalParameters (nestedStart ++ (head ++ upperE :: rest)) rest := by
  cases hname with
  | token hpath hne hmem => exact decode_path_token hpath hne hmem h
  | @segment pieces idents last name hpath hne hlast =>
    by_cases hinit : last = initializerSegment
    · -- The segment of the static initializer is read as its token, which names the same member.
      subst hinit
      obtain rfl := ident_of_initializerSegment hlast
      exact decode_path_token hpath hne (by simp [substitutions]) h
    · have hnot : ¬(body last = ("class$" : Text) ∧ rest = []) := by
        rintro ⟨hbody, hrest⟩
        have hread := hlast.unescapes
        rw [hbody] at hread
        exact hclass (Except.ok.inj (hread.symm.trans (by cbv))) hrest
      rw [decode_path_segment hpath hne hlast.isSegment hinit h, if_neg hnot, hlast.unescapes]
      rfl

theorem decode_of_namesDescriptor {head cls : Text} (hname : NamesDescriptor head cls)
    (h : dropStart decoration full = nestedStart ++ (head ++ [upperE])) :
    decode full decoration = .ok (.descriptor cls) := by
  cases hname with
  | @segment pieces idents last hpath hne hlast hbody =>
    have hinit : last ≠ initializerSegment := by
      rintro rfl
      exact absurd hbody (by decide)
    rw [decode_path_segment hpath hne hlast hinit h, if_pos ⟨hbody, rfl⟩]

theorem decode_nested_cases (h : dropStart decoration full = nestedStart ++ t) :
    (∃ (pieces : List Text) (u : Text), (∀ p ∈ pieces, IsSegment p) ∧ t = pieces.flatten ++ u ∧
      Overruns (nestedStart ++ t) u ∧ decode full decoration = .fault) ∨
    (∃ head cls, NamesDescriptor head cls ∧ t = head ++ [upperE] ∧ decode full decoration = .ok (.descriptor cls)) ∨
    (∃ head cls name rest, NamesMember head cls name ∧ t = head ++ upperE :: rest ∧
      decode full decoration = Symbol.member cls name <$> optionalParameters (nestedStart ++ t) rest) ∨
    ∃ e, decode full decoration = .fail e := by
  rcases readMember_cases (nestedStart ++ t) t with ⟨pieces, u, token, v, hall, ht, hends, hread⟩ |
    ⟨pieces, u, hall, ht, hover, hread⟩ | ⟨e, hread⟩
  · cases hends with
    | ended => exact .inr (.inr (.inr ⟨_, by rw [decode_nested h, hread]; rfl⟩))
    | @token name token hmem rest =>
      rw [decode_of_readMember h hread]
      rcases symbolOf_token_cases full (nestedStart ++ t) rest hall hmem with ⟨cls, hname, hsymbol⟩ | hfail
      · exact .inr (.inr (.inl ⟨_, cls, name, rest, hname, by rw [ht, List.append_assoc], hsymbol⟩))
      · exact .inr (.inr (.inr hfail))
    | segment rest =>
      rw [decode_of_readMember h hread]
      rcases symbolOf_segments_cases full (nestedStart ++ t) rest hall with ⟨cls, hname, rfl, hsymbol⟩ |
        ⟨cls, name, hname, hsymbol⟩ | hfail
      · exact .inr (.inl ⟨_, cls, hname, ht, hsymbol⟩)
      · exact .inr (.inr (.inl ⟨_, cls, name, rest, hname, ht, hsymbol⟩))
      · exact .inr (.inr (.inr hfail))
  · exact .inl ⟨pieces, u, hall, ht, hover, by rw [decode_nested h, hread]; rfl⟩
  · exact .inr (.inr (.inr ⟨e, by rw [decode_nested h, hread]; rfl⟩))

end

end ClassAbi.LinkerName
