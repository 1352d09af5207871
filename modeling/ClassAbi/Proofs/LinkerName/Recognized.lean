import ClassAbi.Proofs.LinkerName.Initializer

/-!
# Names that are taken for a static initializer's

A linker name is taken for that of a static initializer by its parts, without being read. The escape of `<` is among them, and
nothing else that is written brings it about: the marker of escapes stands only where an escape was written, and escapes of
different characters differ. So where `<` stands in no class name and in no other method name, exactly the names of static
initializers are taken for such (`isInitializer_iff`), and the class is read back from each of them
(`initializerClass_of_readable`).
-/

namespace ClassAbi

open Ascii Text

theorem Text.occursIn_iff {p t : Text} : occursIn p t = true ↔ p <:+: t := by
  induction t with
  | nil => simp [occursIn]
  | cons b t ih =>
    rw [occursIn, Bool.or_eq_true, startsWith_iff, ih, List.infix_cons_iff]
    exact or_congr_left ⟨fun ⟨r, h⟩ => ⟨r, h.symm⟩, fun ⟨r, h⟩ => ⟨r, h.symm⟩⟩

namespace LinkerName

def less : UInt8 := 0x3C

def HasEscapedLess (t : Text) : Prop := escapeChar '<' <:+: t

variable {s t : Text}

/-! ### Where the escape does not begin -/

theorem HasEscapedLess.of_cons {b : UInt8} (hb : b ≠ underscore) (h : HasEscapedLess (b :: t)) : HasEscapedLess t := by
  rcases List.infix_cons_iff.1 h with hprefix | hinfix
  · rw [escapeChar_eq] at hprefix
    exact absurd (List.cons_prefix_cons.1 hprefix).1.symm hb
  · exact hinfix

theorem HasEscapedLess.of_append (hs : underscore ∉ s) (h : HasEscapedLess (s ++ t)) : HasEscapedLess t := by
  induction s with
  | nil => exact h
  | cons b s ih =>
    rw [List.mem_cons, not_or] at hs
    exact ih hs.2 (h.of_cons (Ne.symm hs.1))

theorem HasEscapedLess.of_underscore (ht : ∀ r, t ≠ underscore :: upperU :: r) (h : HasEscapedLess (underscore :: t)) :
    HasEscapedLess t := by
  rcases List.infix_cons_iff.1 h with ⟨r, hr⟩ | hinfix
  · rw [escapeChar_append] at hr
    exact absurd (List.cons.inj hr).2.symm (ht _)
  · exact hinfix

/-! ### Identifiers -/

theorem eq_of_escapeChar_append {c d : Char} (h : escapeChar d <+: escapeChar c ++ t) : c = d := by
  obtain ⟨r, hr⟩ := h
  simp only [escapeChar_append, List.cons.injEq, true_and] at hr
  have hdigits : ofHex d.toNat = ofHex c.toNat :=
    (append_sep_inj (underscore_not_mem_ofHex d.toNat) (underscore_not_mem_ofHex c.toNat) hr).1
  have hlt : ∀ x : Char, x.toNat < 2 ^ 31 := by
    intro x
    have hvalid : x.toNat < 0xD800 ∨ 0xDFFF < x.toNat ∧ x.toNat < 0x110000 := x.valid
    omega
  have hread := readInt_ofHex (hlt d)
  rw [hdigits, readInt_ofHex (hlt c)] at hread
  have hnat : c.toNat = d.toNat := by simpa using hread
  rw [← Char.ofNat_toNat c, hnat, Char.ofNat_toNat]

/-- The escape of `<` is found in what is written for characters only if `<` is among them. -/
theorem HasEscapedLess.of_escapeChars (h_ : t.head? ≠ some underscore) (hU : t.head? ≠ some upperU) {afterUnderscore : Bool}
    {cs : List Char} (hcs : '<' ∉ cs) (h : HasEscapedLess (escapeChars afterUnderscore cs ++ t)) : HasEscapedLess t := by
  induction cs generalizing afterUnderscore with
  | nil => exact h
  | cons c cs ih =>
    rw [List.mem_cons, not_or] at hcs
    have hnext : ∀ r, escapeChars true cs ++ t ≠ underscore :: upperU :: r := escapeChars_ne_marker h_ hU cs
    rcases escapeChars_cases afterUnderscore c cs with ⟨hplain, -, heq⟩ | ⟨-, heq⟩
    · rw [heq, List.cons_append] at h
      by_cases hc : c.toNat.toUInt8 = underscore
      · obtain rfl : c = '_' := eq_of_byte_eq hplain hc
        exact ih hcs.2 (h.of_underscore hnext)
      · exact ih hcs.2 (h.of_cons hc)
    · rw [heq, List.append_assoc] at h
      rcases List.infix_cons_iff.1 (escapeChar_append c _ ▸ h) with hprefix | hinfix
      · exact absurd (eq_of_escapeChar_append (escapeChar_append c _ ▸ hprefix)).symm hcs.1
      -- The escape of another character holds no further marker.
      · have hrest := HasEscapedLess.of_underscore (by simp [underscore, upperU]) hinfix
        have hend := (hrest.of_cons (by decide)).of_append (underscore_not_mem_ofHex c.toNat)
        exact ih hcs.2 (hend.of_underscore hnext)

theorem not_mem_chars {ident : Text} (h : less ∉ ident) : '<' ∉ ident.chars := by
  intro hmem
  refine not_mem_repaired (x := less) (by decide) h ?_
  rw [repaired, List.mem_flatMap]
  exact ⟨'<', hmem, by decide⟩

theorem HasEscapedLess.of_segmentOf (ht : Follows t) {ident : Text} (hident : less ∉ ident)
    (h : HasEscapedLess (segmentOf ident ++ t)) : HasEscapedLess t := by
  rw [segmentOf, List.append_assoc] at h
  have hdigits : underscore ∉ ofNat (escaped ident).length := by
    intro hmem
    exact absurd (isDigit_of_mem_ofNat_length underscore hmem) (by decide)
  exact (h.of_append hdigits).of_escapeChars ht.not_underscore ht.not_upperU (not_mem_chars hident)

theorem HasEscapedLess.of_segments (ht : Follows t) {idents : List Text} (hidents : ∀ ident ∈ idents, less ∉ ident)
    (h : HasEscapedLess (idents.flatMap segmentOf ++ t)) : HasEscapedLess t := by
  induction idents with
  | nil => exact h
  | cons ident idents ih =>
    rw [List.forall_mem_cons] at hidents
    rw [List.flatMap_cons, List.append_assoc] at h
    exact ih hidents.2 (h.of_segmentOf (ht.flatMap_append idents) hidents.1)

theorem HasEscapedLess.of_pathOf (ht : Follows t) {cls : Text} (hcls : less ∉ cls) (h : HasEscapedLess (pathOf cls ++ t)) :
    HasEscapedLess t :=
  h.of_segments ht fun _ hident hmem => hcls (subset_of_mem_split hident hmem)

/-! ### Members and parameters -/

theorem HasEscapedLess.of_member {name written : Text} (hmember : member name = .ok written) (hclinit : name ≠ "<clinit>")
    (hname : name ≠ "<init>" → less ∉ name) (h : HasEscapedLess (written ++ upperE :: t)) : HasEscapedLess (upperE :: t) := by
  rcases member_cases hmember with hmem | ⟨hlookup, -, rfl⟩
  · have htoken : underscore ∉ written := by
      simp only [substitutions, List.mem_cons, Prod.mk.injEq, List.not_mem_nil, or_false] at hmem
      rcases hmem with ⟨-, rfl⟩ | ⟨rfl, -⟩ | ⟨-, rfl⟩ | ⟨-, rfl⟩ | ⟨-, rfl⟩ | ⟨-, rfl⟩ | ⟨-, rfl⟩
      · decide
      · exact absurd rfl hclinit
      all_goals decide
    exact h.of_append htoken
  · refine h.of_segmentOf follows_upperE (hname ?_)
    rintro rfl
    cases hlookup

theorem HasEscapedLess.of_code {ty : ParameterType} (hty : ∀ name ∈ ty.className, less ∉ name) (h : HasEscapedLess (ty.code ++ t)) :
    HasEscapedLess t := by
  induction ty generalizing t with
  | primitive p => exact h.of_cons (by cases p <;> decide)
  | cls name =>
    simp only [ParameterType.code, List.append_assoc] at h
    have hpath := (HasEscapedLess.of_append (by decide) h).of_pathOf follows_upperE (hty name rfl)
    exact hpath.of_cons (by decide)
  | array elem ih =>
    simp only [ParameterType.code, List.append_assoc] at h
    exact (ih hty (HasEscapedLess.of_append (by decide) h)).of_cons (by decide)

theorem not_hasEscapedLess_codes {types : List ParameterType} (h : ∀ ty ∈ types, ∀ name ∈ ty.className, less ∉ name) :
    ¬HasEscapedLess (codes types) := by
  have hnil : ¬HasEscapedLess [] := by
    rw [HasEscapedLess, List.infix_nil, escapeChar_eq]
    simp
  rw [codes]
  split_ifs
  · exact fun hmarked => hnil (hmarked.of_cons (by decide))
  · induction types with
    | nil => exact hnil
    | cons ty types ih =>
      rw [List.forall_mem_cons] at h
      rw [List.flatMap_cons]
      intro hmarked
      by_cases htypes : types = []
      · subst htypes
        exact hnil (hmarked.of_code h.1)
      · exact ih h.2 htypes (hmarked.of_code h.1)

/-! ### Whole names -/

theorem HasEscapedLess.of_nestedStart {decoration : Text} (hdecoration : decoration = [] ∨ decoration = [underscore])
    (h : HasEscapedLess (decoration ++ (nestedStart ++ t))) : HasEscapedLess t := by
  have hstart : nestedStart = underscore :: [0x5A, 0x4E] := by cbv
  rw [hstart] at h
  have hnested : HasEscapedLess (underscore :: ([0x5A, 0x4E] ++ t)) := by
    rcases hdecoration with rfl | rfl
    · exact h
    · exact h.of_underscore (by simp [upperU])
  exact HasEscapedLess.of_append (by decide) (hnested.of_underscore (by simp [underscore]))

/-- Where `<` stands in no class name and in no other method name, the names of static initializers are recognized, and no
others. -/
theorem isInitializer_iff {cls name descriptor linkerName decoration : Text}
    (hdecoration : decoration = [] ∨ decoration = [underscore]) (h : ofMethod cls name descriptor = .ok linkerName)
    (hcls : less ∉ cls) (hname : name ≠ "<init>" → name ≠ "<clinit>" → less ∉ name) (hdescriptor : less ∉ descriptor) :
    isInitializer (decoration ++ linkerName) = true ↔ name = "<clinit>" := by
  obtain ⟨written, params, -, hmember, hparams, rfl⟩ := ofMethod_eq_ok h
  rw [isInitializer, Bool.and_eq_true, occursIn_iff, occursIn_iff]
  constructor
  · rintro ⟨-, hsegment⟩
    by_contra hclinit
    obtain ⟨types, hlists, rfl, -⟩ := lists_of_parameters hparams
    obtain ⟨result, hresult⟩ := hlists.text
    have htypes : ∀ ty ∈ types, ∀ name ∈ ty.className, less ∉ name := by
      intro ty hty name hname hmem
      refine hdescriptor ?_
      rw [hresult]
      exact List.mem_cons_of_mem _ (List.mem_append_left _ (List.mem_flatMap.2 ⟨ty, hty, className_subset hname hmem⟩))
    have hless : HasEscapedLess (decoration ++ (nestedStart ++ (pathOf cls ++ (written ++ upperE :: codes types)))) := by
      refine List.IsInfix.trans ?_ hsegment
      exact ⟨"18", "clinit__U3e_E", by cbv⟩
    have hpath := HasEscapedLess.of_nestedStart hdecoration hless
    have hend := (hpath.of_pathOf (follows_member hmember _) hcls).of_member hmember hclinit (hname · hclinit)
    exact not_hasEscapedLess_codes htypes (hend.of_cons (by decide))
  · rintro rfl
    obtain rfl : initializerSegment = written := Except.ok.inj hmember
    refine ⟨⟨decoration, _, by rw [List.append_assoc]⟩, ?_⟩
    exact ⟨decoration ++ (nestedStart ++ pathOf cls), params, by simp⟩

theorem initializerClass_of_readable {cls descriptor linkerName : Text} (decoration : Text)
    (h : ofMethod cls "<clinit>" descriptor = .ok linkerName) (hfits : FitsMemory linkerName) (hread : ReadablePath cls)
    (hcls : less ∉ cls) : initializerClass (decoration ++ linkerName) decoration = .ok cls := by
  obtain ⟨written, params, hpath, hmember, -, rfl⟩ := ofMethod_eq_ok h
  obtain rfl : initializerSegment = written := Except.ok.inj hmember
  have hlen : (pathOf cls).length < 2 ^ 63 := by
    simp only [FitsMemory, List.length_append] at hfits
    omega
  refine (initializerClass_eq_ok_iff (dropStart_append _ _)).2 ⟨_, _, _, spells_path hpath hread hlen, split_ne_nil slash cls, ?_,
    by rw [← pathOf_eq_flatten], (join_split slash cls).symm⟩
  -- The initializer's segment holds the escape of `<`.
  intro hmem
  obtain ⟨ident, hident, hsegment⟩ := List.mem_map.1 hmem
  have hmarked : HasEscapedLess (segmentOf ident ++ [upperE]) := by
    rw [hsegment]
    exact ⟨"18", "clinit__U3e_E", by cbv⟩
  have hend := hmarked.of_segmentOf follows_upperE fun hless => hcls (subset_of_mem_split hident hless)
  exact absurd (hend.of_cons (by decide)) (by rw [HasEscapedLess, List.infix_nil, escapeChar_eq]; simp)

end LinkerName

end ClassAbi
