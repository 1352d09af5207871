import ClassAbi.Proofs.LinkerName.Parameter
import ClassAbi.Proofs.LinkerName.Symbol

/-!
# Decoding inverts encoding

The four kinds of linker names are read back as what they were written for exactly when the names in them are readable:
valid UTF-8, and without a digit at the start of an identifier. The main statement is `decode_inverts`.

Two facts carry it. A readable name has a form that the decoder reads as that name (`namesMember_written`), and if a form
with the right class and member in it can be found in a written name at all, then that name was readable and the form is
the one in which it was written (`readable_of_namesMember`).
-/

namespace ClassAbi.LinkerName

open Ascii Text ParameterType

/-- Whether a text can be held in memory, where each position is a word of 64 bits with a sign. -/
def FitsMemory (t : Text) : Prop := t.length < 2 ^ 63

instance : DecidablePred FitsMemory := fun t => inferInstanceAs (Decidable (t.length < 2 ^ 63))

/-! ### What is written for a member -/

section

variable {name written : Text}

theorem member_cases (h : member name = .ok written) :
    (name, written) ∈ substitutions ∨
      substitutions.lookup name = none ∧ name ≠ [] ∧ written = segmentOf name := by
  rw [member] at h
  split at h
  · next token hlookup =>
    cases h
    exact .inl (mem_of_lookup hlookup)
  · next hlookup => exact .inr ⟨hlookup, segment_eq_ok_iff.1 h⟩

theorem follows_member (h : member name = .ok written) (t : Text) : Follows (written ++ upperE :: t) := by
  rcases member_cases h with hmem | ⟨-, -, rfl⟩
  · exact follows_token hmem t
  · exact follows_upperE.segmentOf_append name

end

theorem pathOf_eq_flatten (cls : Text) : pathOf cls = ((cls.split slash).map segmentOf).flatten := List.flatMap_def

section

variable {cls name written head t u : Text}

theorem namesMember_written (hcls : HasPath cls) (hmember : member name = .ok written) (hpath : ReadablePath cls)
    (hname : ReadableIdent name) (hfits : (pathOf cls ++ written).length < 2 ^ 63) :
    NamesMember (pathOf cls ++ written) cls name := by
  rw [List.length_append] at hfits
  have hspells := spells_path hcls hpath (by omega)
  have hne := split_ne_nil slash cls
  rcases member_cases hmember with hmem | ⟨-, hname_ne, rfl⟩
  · have hform := NamesMember.token hspells hne hmem
    rwa [join_split, ← pathOf_eq_flatten] at hform
  · have hform := NamesMember.segment hspells hne (spells_segmentOf hname_ne hname (by omega))
    rwa [join_split, ← pathOf_eq_flatten] at hform

/-- A class and a member that are found in what was written for them are readable, and end where they were written to. -/
theorem readable_of_namesMember (hcls : HasPath cls) (hmember : member name = .ok written)
    (hname : NamesMember head cls name) (heq : pathOf cls ++ (written ++ upperE :: t) = head ++ upperE :: u) :
    ReadablePath cls ∧ ReadableIdent name ∧ u = t := by
  have hfollows := follows_member hmember t
  cases hname with
  | token hspells hne hmem =>
    rw [List.append_assoc] at heq
    obtain ⟨hread, -, hrest⟩ := readablePath_of_spells hcls hfollows hspells rfl heq
    refine ⟨hread, readable_of_mem_substitutions hmem, ?_⟩
    rcases member_cases hmember with hmem' | ⟨hlookup, -, -⟩
    · cases (lookup_of_mem hmem).symm.trans (lookup_of_mem hmem')
      exact (List.cons.inj (List.append_cancel_left hrest)).2
    · rw [lookup_of_mem hmem] at hlookup
      cases hlookup
  | segment hspells hne hlast =>
    rw [List.append_assoc] at heq
    obtain ⟨hread, -, hrest⟩ := readablePath_of_spells hcls hfollows hspells rfl heq
    rcases member_cases hmember with hmem | ⟨-, hname_ne, rfl⟩
    · obtain ⟨-, -, htail⟩ := eq_of_token_append hmem hlast.isSegment
        (head?_upperE_ne_dollar _) hrest.symm
      exact ⟨hread, readable_of_mem_substitutions hmem, (List.cons.inj htail).2⟩
    · obtain ⟨hident, rfl⟩ := readable_of_spells_segmentOf hname_ne follows_upperE hlast hrest.symm
      exact ⟨hread, hident, (List.cons.inj (List.append_cancel_left hrest)).2⟩

end

/-! ### The four kinds of names -/

section

variable {full decoration cls name written rest : Text}

theorem decode_member_iff {params : Option (List Text)} (hcls : HasPath cls) (hmember : member name = .ok written)
    (h : dropStart decoration full = nestedStart ++ (pathOf cls ++ (written ++ upperE :: rest)))
    (hfits : FitsMemory (dropStart decoration full)) (hclass : name = "class$" → rest ≠ []) :
    decode full decoration = .ok (.member cls name params) ↔
      ReadablePath cls ∧ ReadableIdent name ∧ optionalParameters (dropStart decoration full) rest = .ok params := by
  constructor
  · intro hdecode
    rcases decode_nested_cases h with ⟨_, _, _, _, _, hfault⟩ | ⟨_, _, _, _, hdesc⟩ |
      ⟨head, cls', name', rest', hname, heq, hok⟩ | ⟨e, hfail⟩
    · exact absurd (hfault.symm.trans hdecode) (by simp)
    · exact absurd (hdesc.symm.trans hdecode) (by simp)
    · obtain ⟨params', hparams, hsymbol⟩ := map_eq_ok_iff.1 (hok.symm.trans hdecode)
      cases hsymbol
      obtain ⟨hread, hident, rfl⟩ := readable_of_namesMember hcls hmember hname heq
      exact ⟨hread, hident, h ▸ hparams⟩
    · exact absurd (hfail.symm.trans hdecode) (by simp)
  · rintro ⟨hread, hident, hparams⟩
    have hlen : (pathOf cls ++ written).length < 2 ^ 63 := by
      rw [FitsMemory, h, List.length_append, List.length_append, List.length_append] at hfits
      rw [List.length_append]
      omega
    have hname := namesMember_written hcls hmember hread hident hlen
    rw [h, ← List.append_assoc (pathOf cls)] at hparams
    rw [← List.append_assoc (pathOf cls)] at h
    rw [decode_of_namesMember hname h hclass, hparams]
    rfl

theorem segmentOf_class : segmentOf "class$" = descriptorSegment := by cbv

theorem decode_descriptor_iff (hcls : HasPath cls)
    (h : dropStart decoration full = nestedStart ++ (pathOf cls ++ (descriptorSegment ++ [upperE])))
    (hfits : FitsMemory (dropStart decoration full)) :
    decode full decoration = .ok (.descriptor cls) ↔ ReadablePath cls := by
  constructor
  · intro hdecode
    have hfollows : Follows (descriptorSegment ++ [upperE]) := by
      rw [← segmentOf_class]
      exact follows_upperE.segmentOf_append _
    rcases decode_nested_cases h with ⟨_, _, _, _, _, hfault⟩ | ⟨head, cls', hname, heq, hok⟩ |
      ⟨_, _, _, _, _, _, hok⟩ | ⟨e, hfail⟩
    · exact absurd (hfault.symm.trans hdecode) (by simp)
    · cases Except.ok.inj (hok.symm.trans hdecode)
      cases hname with
      | segment hspells hne hlast hbody =>
        rw [List.append_assoc] at heq
        exact (readablePath_of_spells hcls hfollows hspells rfl heq).1
    · obtain ⟨_, -, hsymbol⟩ := map_eq_ok_iff.1 (hok.symm.trans hdecode)
      cases hsymbol
    · exact absurd (hfail.symm.trans hdecode) (by simp)
  · intro hread
    have hlen : (pathOf cls).length < 2 ^ 63 := by
      rw [FitsMemory, h, List.length_append, List.length_append] at hfits
      omega
    have hlast : IsSegment descriptorSegment := ⟨by decide, by decide, by decide⟩
    have hname := NamesDescriptor.segment (spells_path hcls hread hlen) (split_ne_nil slash cls) hlast (by decide)
    rw [join_split, ← pathOf_eq_flatten] at hname
    exact decode_of_namesDescriptor hname (by rw [h, List.append_assoc])

theorem decode_vtable_iff (hcls : HasPath cls) (h : dropStart decoration full = vtableStart ++ (pathOf cls ++ [upperE]))
    (hfits : FitsMemory (dropStart decoration full)) :
    decode full decoration = .ok (.vtable cls) ↔ ReadablePath cls := by
  have hlen : (pathOf cls).length < 2 ^ 63 := by
    rw [FitsMemory, h, List.length_append, List.length_append] at hfits
    omega
  have hread := readPath_pathOf_iff (vtableStart ++ (pathOf cls ++ [upperE])) hcls hlen (t := []) (u := [upperE])
  rw [decode_vtable h, bind_eq_ok_iff]
  constructor
  · rintro ⟨⟨cls', u⟩, hpath, hok⟩
    split_ifs at hok with hu
    · cases hok
      obtain rfl : u = [upperE] := hu
      exact (hread.1 hpath).1
    · exact absurd hok (by simp)
  · intro hcls
    exact ⟨(cls, [upperE]), hread.2 ⟨hcls, rfl⟩, rfl⟩

end

/-! ### What the encoders write -/

section

variable {cls name descriptor t : Text}

theorem ofDescriptor_eq_ok_iff :
    ofDescriptor cls = .ok t ↔ HasPath cls ∧ t = nestedStart ++ (pathOf cls ++ (descriptorSegment ++ [upperE])) := by
  simp only [ofDescriptor, bind_eq_ok_iff, path_eq_ok_iff]
  constructor
  · rintro ⟨p, ⟨hcls, rfl⟩, h⟩
    cases h
    exact ⟨hcls, by simp⟩
  · rintro ⟨hcls, rfl⟩
    exact ⟨_, ⟨hcls, rfl⟩, by simp [pure, Except.pure]⟩

theorem ofVtable_eq_ok (h : ofVtable cls = .ok t) : HasPath cls ∧ t = vtableStart ++ (pathOf cls ++ [upperE]) := by
  obtain ⟨p, hpath, h⟩ := bind_eq_ok_iff.1 h
  obtain ⟨hcls, rfl⟩ := path_eq_ok_iff.1 hpath
  cases h
  exact ⟨hcls, by simp⟩

theorem ofField_eq_ok (h : ofField cls name = .ok t) :
    ∃ written, HasPath cls ∧ member name = .ok written ∧ t = nestedStart ++ (pathOf cls ++ (written ++ [upperE])) := by
  obtain ⟨p, hpath, h⟩ := bind_eq_ok_iff.1 h
  obtain ⟨hcls, rfl⟩ := path_eq_ok_iff.1 hpath
  obtain ⟨written, hmember, h⟩ := bind_eq_ok_iff.1 h
  cases h
  exact ⟨written, hcls, hmember, by simp⟩

theorem ofMethod_eq_ok (h : ofMethod cls name descriptor = .ok t) :
    ∃ written params, HasPath cls ∧ member name = .ok written ∧ parameters descriptor = .ok params ∧
      t = nestedStart ++ (pathOf cls ++ (written ++ upperE :: params)) := by
  obtain ⟨p, hpath, h⟩ := bind_eq_ok_iff.1 h
  obtain ⟨hcls, rfl⟩ := path_eq_ok_iff.1 hpath
  obtain ⟨written, hmember, h⟩ := bind_eq_ok_iff.1 h
  obtain ⟨params, hparams, h⟩ := bind_eq_ok_iff.1 h
  cases h
  exact ⟨written, params, hcls, hmember, hparams, by simp⟩

end

theorem optionalParameters_codes_iff (whole : Text) {types : List ParameterType}
    (h : ∀ ty ∈ types, ∀ name ∈ ty.className, HasPath name) (hfits : (codes types).length < 2 ^ 63) :
    optionalParameters whole (codes types) = .ok (some (types.map text)) ↔
      ∀ ty ∈ types, ∀ name ∈ ty.className, ReadablePath name := by
  rw [← readParameters_codes_iff whole h hfits, optionalParameters, symbolOf.optionalParameters,
    if_neg (by simpa using codes_ne_nil types), map_eq_ok_iff]
  simp

/-- The decoder is the inverse of the four encoders on readable names, and only on these. A method is read back with the
descriptors of its parameters, also when it has none, and a static field with no parameters; the field `class$` is the one
whose name cannot be told from that of the class descriptor. -/
theorem decode_inverts (decoration cls : Text) :
    (∀ name descriptor linkerName, ofMethod cls name descriptor = .ok linkerName → FitsMemory linkerName →
      ∃ types, (∀ ts, Lists descriptor ts ↔ ts = types) ∧
        (decode (decoration ++ linkerName) decoration = .ok (.member cls name (some (types.map text))) ↔
          ReadablePath cls ∧ ReadableIdent name ∧ ∀ ty ∈ types, ∀ cls' ∈ ty.className, ReadablePath cls')) ∧
    (∀ linkerName, ofDescriptor cls = .ok linkerName → FitsMemory linkerName →
      (decode (decoration ++ linkerName) decoration = .ok (.descriptor cls) ↔ ReadablePath cls)) ∧
    (∀ linkerName, ofVtable cls = .ok linkerName → FitsMemory linkerName →
      (decode (decoration ++ linkerName) decoration = .ok (.vtable cls) ↔ ReadablePath cls)) ∧
    ∀ name linkerName, ofField cls name = .ok linkerName → name ≠ "class$" → FitsMemory linkerName →
      (decode (decoration ++ linkerName) decoration = .ok (.member cls name none) ↔
        ReadablePath cls ∧ ReadableIdent name) := by
  refine ⟨fun name descriptor linkerName h hfits => ?_, fun linkerName h hfits => ?_, fun linkerName h hfits => ?_,
    fun name linkerName h hclass hfits => ?_⟩
  · obtain ⟨written, params, hcls, hmember, hparams, rfl⟩ := ofMethod_eq_ok h
    obtain ⟨types, hlists, rfl, hnames⟩ := lists_of_parameters hparams
    refine ⟨types, fun ts => ⟨fun hts => hts.unique hlists, fun hts => hts ▸ hlists⟩, ?_⟩
    have hlen : (codes types).length < 2 ^ 63 := by
      simp only [FitsMemory, List.length_append, List.length_cons] at hfits
      omega
    rw [decode_member_iff hcls hmember (dropStart_append _ _) (by rwa [dropStart_append]) fun _ => codes_ne_nil types,
      optionalParameters_codes_iff _ hnames hlen]
  · obtain ⟨hcls, rfl⟩ := ofDescriptor_eq_ok_iff.1 h
    exact decode_descriptor_iff hcls (dropStart_append _ _) (by rwa [dropStart_append])
  · obtain ⟨hcls, rfl⟩ := ofVtable_eq_ok h
    exact decode_vtable_iff hcls (dropStart_append _ _) (by rwa [dropStart_append])
  · obtain ⟨written, hcls, hmember, rfl⟩ := ofField_eq_ok h
    rw [decode_member_iff hcls hmember (dropStart_append _ _) (by rwa [dropStart_append]) fun hname => absurd hname hclass]
    simp [optionalParameters, symbolOf.optionalParameters]

theorem decode_inverts_delete :
    decode ("_" ++ "_ZN4java6__Ue9_6delete$EP6JArrayIPN1a1bEEi") "_" =
        .ok (.member "java/é" "delete" (some ["[La/b;", "I"])) ∧
      decode ("_" ++ "_ZN4java6__Ue9_4and$E") "_" = .ok (.member "java/é" "and$" none) := by
  obtain ⟨hmethod, -, -, hfield⟩ := decode_inverts "_" "java/é"
  constructor
  · obtain ⟨types, hlists, hiff⟩ := hmethod "delete" "([La/b;I)V" "_ZN4java6__Ue9_6delete$EP6JArrayIPN1a1bEEi" (by cbv)
      (by decide)
    have htypes : [.array (.cls "a/b"), .primitive .int] = types := (hlists _).1 ⟨⟨"V", by decide⟩, by decide⟩
    subst htypes
    exact hiff.2 (by decide +kernel)
  · exact (hfield "and$" "_ZN4java6__Ue9_4and$E" (by cbv) (by decide) (by decide)).2 (by decide +kernel)

end ClassAbi.LinkerName
