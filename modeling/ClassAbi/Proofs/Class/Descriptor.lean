import ClassAbi.Class.Descriptor
import ClassAbi.Proofs.Outcome
import ClassAbi.Proofs.Text.Parts

/-!
# The grammar of descriptors

`Reads` says which texts are descriptors of which types, where the classes are those of a registry. A reader accepts exactly
these texts, and a method descriptor is a list of them in parentheses, followed by one more or by the letter for no result.
-/

namespace ClassAbi

open Ascii

theorem Primitive.ofLetter?_eq_some_iff {c : UInt8} {p : Primitive} : Primitive.ofLetter? c = some p ↔ c = p.letter := by
  constructor
  · intro h
    have hletter := List.find?_some h
    exact (beq_iff_eq.1 hletter).symm
  · rintro rfl
    cases p <;> rfl

namespace Registry

theorem signature?_pointer_pointer (r : Registry) (elem : JavaType) :
    r.signature? (.pointer (.pointer elem)) = (r.signature? (.pointer elem)).map (openBracket :: ·) := by
  cases hleaf : elem.leaf <;>
    simp [signature?, JavaType.leaf, JavaType.levels, hleaf, List.replicate_succ]

theorem eq_descriptorOf_of_signature? {r : Registry} {t : JavaType} {text : Text} (h : r.signature? t = some text) :
    text = r.descriptorOf t := by
  induction t generalizing text with
  | void => cases h
  | primitive p => exact (Option.some.inj h).symm
  | cls c => exact (Option.some.inj h).symm
  | pointer elem ih =>
    cases elem with
    | void => cases h
    | primitive p => exact (Option.some.inj h).symm
    | cls c => exact (Option.some.inj h).symm
    | pointer elem =>
      rw [signature?_pointer_pointer] at h
      obtain ⟨inner, hinner, rfl⟩ := Option.map_eq_some_iff.1 h
      exact congrArg (openBracket :: ·) (ih hinner)

/-- Whether a text is the descriptor of a type. -/
inductive Reads (r : Registry) : Text → JavaType → Prop
  | primitive (p : Primitive) : Reads r [p.letter] (.primitive p)
  | reference {name : Text} {c : ClassId} (hname : semicolon ∉ name) (h : r.find? name = some c) :
    Reads r (upperL :: (name ++ [semicolon])) (.reference c)
  | array {d : Text} {elem : JavaType} (h : Reads r d elem) : Reads r (openBracket :: d) (.pointer elem)

variable {r : Registry} {whole t d rest : Text} {type : JavaType} {params : List JavaType}

theorem reads_of_readType {rest : { u : Text // u.length < t.length }} (h : r.readType whole t = .ok (type, rest)) :
    ∃ d, r.Reads d type ∧ t = d ++ rest.1 := by
  induction t generalizing type with
  | nil =>
    rw [readType] at h
    cases h
  | cons b t ih =>
    rw [readType] at h
    split at h
    · rename_i p hp
      cases h
      exact ⟨[p.letter], .primitive p, by rw [Primitive.ofLetter?_eq_some_iff.1 hp]; rfl⟩
    split_ifs at h with hclass harray
    · split at h
      · cases h
      · rename_i hdrop
        dsimp only at h
        split at h
        · cases h
        · rename_i hfind
          cases h
          refine ⟨_, .reference (Text.not_mem_takeWhile_ne semicolon t) hfind, ?_⟩
          conv_lhs => rw [hclass, Text.eq_append_of_dropWhile_ne hdrop]
          simp
    · split at h
      · cases h
      · rename_i hread
        cases h
        obtain ⟨d, hd, heq⟩ := ih hread
        exact ⟨_, hd.array, by rw [harray]; exact congrArg (openBracket :: ·) heq⟩

theorem Reads.readType (h : r.Reads d type) (whole : Text) (ht : t = d ++ rest) :
    ∃ hlt, r.readType whole t = .ok (type, ⟨rest, hlt⟩) := by
  induction h generalizing t with
  | primitive p =>
    obtain rfl : t = p.letter :: rest := ht
    refine ⟨by simp, ?_⟩
    rw [Registry.readType, Primitive.ofLetter?_eq_some_iff.2 rfl]
  | @reference name c hname hfind =>
    obtain rfl : t = upperL :: (name ++ semicolon :: rest) := by simpa using ht
    refine ⟨by simp; omega, ?_⟩
    rw [Registry.readType, show Primitive.ofLetter? upperL = none from rfl]
    dsimp only
    rw [if_pos rfl]
    split
    · rename_i hdrop
      cases (Text.dropWhile_ne_append hname rest).symm.trans hdrop
    · rename_i hdrop
      cases (Text.dropWhile_ne_append hname rest).symm.trans hdrop
      rw [Text.takeWhile_ne_append hname, hfind]
  | @array d elem _ ih =>
    obtain rfl : t = openBracket :: (d ++ rest) := ht
    obtain ⟨hlt, hread⟩ := ih rfl
    refine ⟨by rw [List.length_cons]; omega, ?_⟩
    rw [Registry.readType, show Primitive.ofLetter? openBracket = none from rfl]
    dsimp only
    rw [if_neg (by decide), if_pos rfl, hread]

theorem Reads.exists_cons (h : r.Reads d type) : ∃ b d', d = b :: d' ∧ b ≠ closeParen ∧ b ≠ upperV := by
  cases h with
  | primitive p => exact ⟨p.letter, [], rfl, by cases p <;> decide⟩
  | reference _ _ => exact ⟨upperL, _, rfl, by decide⟩
  | array _ => exact ⟨openBracket, _, rfl, by decide⟩

theorem typeOfDescriptor_eq_ok_iff : r.typeOfDescriptor d = .ok type ↔ r.Reads d type := by
  rw [typeOfDescriptor, bind_eq_ok_iff]
  constructor
  · rintro ⟨⟨type', rest⟩, hread, h⟩
    dsimp only at h
    split_ifs at h with hempty
    cases h
    obtain ⟨d', hd', heq⟩ := reads_of_readType hread
    rwa [heq, List.isEmpty_iff.1 hempty, List.append_nil]
  · intro h
    obtain ⟨hlt, hread⟩ := h.readType d (List.append_nil d).symm
    exact ⟨_, hread, rfl⟩

theorem readParameters_eq_ok_iff : r.readParameters whole t = .ok (params, rest) ↔
    ∃ ds, List.Forall₂ r.Reads ds params ∧ t = ds.flatten ++ closeParen :: rest := by
  constructor
  · intro h
    induction t using readParameters.induct generalizing params with
    | case1 =>
      rw [readParameters] at h
      cases h
    | case2 t =>
      rw [readParameters, if_pos rfl] at h
      cases h
      exact ⟨[], .nil, rfl⟩
    | case3 b t hne ih =>
      rw [readParameters, if_neg hne, bind_eq_ok_iff] at h
      obtain ⟨⟨p, rest', hlt⟩, hread, h⟩ := h
      obtain ⟨⟨params', rest''⟩, hparams, h⟩ := bind_eq_ok_iff.1 h
      cases h
      obtain ⟨d, hd, heq⟩ := reads_of_readType hread
      obtain ⟨ds, hds, heq'⟩ := ih rest' hlt hparams
      exact ⟨d :: ds, .cons hd hds, by rw [show b :: t = d ++ rest' from heq, heq', List.flatten_cons, List.append_assoc]⟩
  · rintro ⟨ds, hds, rfl⟩
    induction hds with
    | nil => rw [List.flatten_nil, List.nil_append, readParameters, if_pos rfl]
    | @cons d p ds params hd _ ih =>
      obtain ⟨b, d', rfl, hne, -⟩ := hd.exists_cons
      obtain ⟨hlt, hread⟩ := hd.readType (t := b :: (d' ++ (ds.flatten ++ closeParen :: rest))) whole rfl
      rw [List.flatten_cons, List.append_assoc, List.cons_append, readParameters, if_neg hne, hread]
      simp only [bind, Except.bind, ih]
      rfl

theorem typesOfDescriptor_eq_ok_iff : r.typesOfDescriptor d = .ok (params, type) ↔
    ∃ ds result, List.Forall₂ r.Reads ds params ∧ d = openParen :: (ds.flatten ++ closeParen :: result) ∧
      (result = [upperV] ∧ type = .void ∨ r.Reads result type) := by
  rw [typesOfDescriptor.eq_def]
  split
  swap
  · rename_i hne
    simp only [reduceCtorEq, false_iff]
    rintro ⟨ds, result, -, rfl, -⟩
    exact hne _ rfl
  rename_i t
  rw [bind_eq_ok_iff]
  constructor
  · rintro ⟨⟨params', rest⟩, hparams, h⟩
    obtain ⟨ds, hds, rfl⟩ := readParameters_eq_ok_iff.1 hparams
    dsimp only at h
    split_ifs at h with hvoid
    · cases h
      exact ⟨ds, rest, hds, rfl, .inl ⟨hvoid, rfl⟩⟩
    · obtain ⟨⟨type', rest'⟩, hread, h⟩ := bind_eq_ok_iff.1 h
      dsimp only at h
      split_ifs at h with hempty
      cases h
      obtain ⟨d', hd', heq⟩ := reads_of_readType hread
      rw [List.isEmpty_iff.1 hempty, List.append_nil] at heq
      exact ⟨ds, rest, hds, rfl, .inr (heq ▸ hd')⟩
  · rintro ⟨ds, result, hds, heq, hresult⟩
    obtain rfl := (List.cons.inj heq).2
    refine ⟨(params, result), readParameters_eq_ok_iff.2 ⟨ds, hds, rfl⟩, ?_⟩
    rcases hresult with ⟨rfl, rfl⟩ | hresult
    · rfl
    · obtain ⟨b, d', rfl, -, hne⟩ := hresult.exists_cons
      dsimp only
      rw [if_neg fun h => hne (List.cons.inj h).1, bind_eq_ok_iff]
      obtain ⟨hlt, hread⟩ := hresult.readType (openParen :: (ds.flatten ++ closeParen :: b :: d')) (List.append_nil _).symm
      exact ⟨_, hread, rfl⟩

end Registry

end ClassAbi
