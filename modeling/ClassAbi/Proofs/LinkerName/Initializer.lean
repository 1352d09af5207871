import ClassAbi.Proofs.LinkerName.Inverse

/-!
# The class of a static initializer

The class of a static initializer is read segment by segment up to the first one that spells the initializer itself. It is
the class that the name was written for exactly when that class is readable and does not hold the initializer's name as one
of its own identifiers (`initializerClass_inverts`).
-/

namespace ClassAbi.LinkerName

open Ascii Text

/-! ### Reading up to the initializer -/

section

variable {whole piece ident t u : Text} {pieces idents : List Text}

theorem readInitializerPath_append (whole r : Text) :
    readInitializerPath whole (initializerSegment ++ r) = .ok ([], initializerSegment ++ r) := by
  rw [readInitializerPath, if_pos (startsWith_iff.2 ⟨r, rfl⟩)]

theorem readInitializerPath_of_not (h : ∀ r, t ≠ initializerSegment ++ r) :
    readInitializerPath whole t = bare (readSegment whole t) >>= fun x => checked (unescape x.1) >>= fun ident =>
      (fun y => (ident :: y.1, y.2)) <$> readInitializerPath whole x.2 := by
  have hstart : ¬t.startsWith initializerSegment = true := fun hs => by
    obtain ⟨r, hr⟩ := startsWith_iff.1 hs
    exact h r hr
  rw [readInitializerPath, if_neg hstart]
  match readSegment whole t with
  | .error e => rfl
  | .ok (raw, ⟨rest, _⟩) =>
    simp only [bind, Except.bind, bare, Except.map]
    cases checked (unescape raw) with
    | error e => rfl
    | ok ident => cases readInitializerPath whole rest <;> rfl

theorem IsSegment.ne_initializer_append (hp : IsSegment piece) (hinit : piece ≠ initializerSegment) (r : Text) :
    piece ++ u ≠ initializerSegment ++ r := fun h =>
  hinit (hp.eq_of_append spells_initializerSegment.isSegment h)

theorem readInitializerPath_step (h : Spells piece ident) (hinit : piece ≠ initializerSegment) (u : Text) :
    readInitializerPath whole (piece ++ u) = (fun y => (ident :: y.1, y.2)) <$> readInitializerPath whole u := by
  rw [readInitializerPath_of_not (h.isSegment.ne_initializer_append hinit), readSegment_append whole h.isSegment]
  simp only [bind, Except.bind, h.unescapes, checked]

theorem readInitializerPath_flatten (h : List.Forall₂ Spells pieces idents) (hinit : initializerSegment ∉ pieces)
    (u : Text) :
    readInitializerPath whole (pieces.flatten ++ u) = (fun y => (idents ++ y.1, y.2)) <$> readInitializerPath whole u := by
  induction h with
  | nil =>
    rw [List.flatten_nil, List.nil_append]
    cases readInitializerPath whole u <;> rfl
  | cons hp _ ih =>
    rw [List.mem_cons, not_or] at hinit
    rw [List.flatten_cons, List.append_assoc, readInitializerPath_step hp (Ne.symm hinit.1), ih hinit.2]
    cases readInitializerPath whole u <;> rfl

theorem readInitializerPath_of_overruns (h : Overruns whole u) : readInitializerPath whole u = .fault := by
  rw [readInitializerPath_of_not (h.ne_append spells_initializerSegment.isSegment), readSegment_of_overruns h]
  rfl

theorem readInitializerPath_cases (whole t : Text) :
    (∃ pieces idents r, List.Forall₂ Spells pieces idents ∧ initializerSegment ∉ pieces ∧
      t = pieces.flatten ++ (initializerSegment ++ r) ∧ readInitializerPath whole t = .ok (idents, initializerSegment ++ r)) ∨
    (∃ pieces idents u, List.Forall₂ Spells pieces idents ∧ initializerSegment ∉ pieces ∧ t = pieces.flatten ++ u ∧
      Overruns whole u ∧ readInitializerPath whole t = .fault) ∨
    ∃ e, readInitializerPath whole t = .fail e := by
  obtain ⟨n, hn⟩ : ∃ n, t.length = n := ⟨_, rfl⟩
  induction n using Nat.strongRecOn generalizing t with
  | ind n ih =>
    by_cases hstart : ∃ r, t = initializerSegment ++ r
    · obtain ⟨r, rfl⟩ := hstart
      exact .inl ⟨[], [], r, .nil, by simp, rfl, readInitializerPath_append whole r⟩
    have hnot : ∀ r, t ≠ initializerSegment ++ r := fun r h => hstart ⟨r, h⟩
    rcases readSegment_cases whole t with ⟨p, r, hp, rfl, hread⟩ | ⟨hover, -⟩ | ⟨-, -, e, hread⟩
    · rcases checked_cases (unescape (body p)) with ⟨ident, hident, -⟩ | ⟨e, hfail⟩
      · have hspells : Spells p ident := ⟨hp, hident⟩
        have hinit : initializerSegment ≠ p := fun h => hnot r (by rw [h])
        have hlt : r.length < n := by
          rw [← hn]
          exact hp.length_lt r
        rw [readInitializerPath_step hspells hinit.symm]
        rcases ih r.length hlt r rfl with ⟨pieces, idents, u, hall, hmem, rfl, h⟩ | ⟨pieces, idents, u, hall, hmem, rfl, hover, h⟩ |
          ⟨e, h⟩
        · refine .inl ⟨p :: pieces, ident :: idents, u, .cons hspells hall, ?_, by simp, by rw [h]; rfl⟩
          exact fun h => (List.mem_cons.1 h).elim hinit hmem
        · refine .inr (.inl ⟨p :: pieces, ident :: idents, u, .cons hspells hall, ?_, by simp, hover, by rw [h]; rfl⟩)
          exact fun h => (List.mem_cons.1 h).elim hinit hmem
        · exact .inr (.inr ⟨e, by rw [h]; rfl⟩)
      · refine .inr (.inr ⟨e, ?_⟩)
        rw [readInitializerPath_of_not hnot, hread]
        simp only [bind, Except.bind, hfail]
        rfl
    · exact .inr (.inl ⟨[], [], t, .nil, by simp, rfl, hover, readInitializerPath_of_overruns hover⟩)
    · refine .inr (.inr ⟨e, ?_⟩)
      rw [readInitializerPath_of_not hnot, hread]
      rfl

end

/-! ### The class -/

section

variable {full decoration t : Text}

theorem initializerClass_eq (h : dropStart decoration full = nestedStart ++ t) :
    initializerClass full decoration = readInitializerPath (nestedStart ++ t) t >>= fun x =>
      if x.1 = [] then .fail ⟨full, position (nestedStart ++ t) x.2, .noPathBeforeInitializer⟩
      else .ok (join [slash] x.1) := by
  rw [initializerClass]
  simp only [h, after?_append]
  match readInitializerPath (nestedStart ++ t) t with
  | .error e => rfl
  | .ok ([], rest) => rfl
  | .ok (ident :: idents, rest) => rfl

theorem initializerClass_eq_ok_iff (h : dropStart decoration full = nestedStart ++ t) {cls : Text} :
    initializerClass full decoration = .ok cls ↔
      ∃ pieces idents r, List.Forall₂ Spells pieces idents ∧ idents ≠ [] ∧ initializerSegment ∉ pieces ∧
        t = pieces.flatten ++ (initializerSegment ++ r) ∧ cls = join [slash] idents := by
  rw [initializerClass_eq h]
  constructor
  · intro hok
    obtain ⟨⟨idents, rest⟩, hread, hok⟩ := bind_eq_ok_iff.1 hok
    rcases readInitializerPath_cases (nestedStart ++ t) t with ⟨pieces, ids, r, hall, hmem, ht, hread'⟩ |
      ⟨_, _, _, _, _, _, _, hfault⟩ | ⟨e, hfail⟩
    · obtain ⟨rfl, -⟩ := Prod.mk.inj (Except.ok.inj (hread'.symm.trans hread))
      split_ifs at hok with hnil
      · exact absurd hok (by simp)
      · cases hok
        exact ⟨pieces, ids, r, hall, hnil, hmem, ht, rfl⟩
    · exact absurd (hfault.symm.trans hread) (by simp)
    · exact absurd (hfail.symm.trans hread) (by simp)
  · rintro ⟨pieces, idents, r, hall, hne, hmem, ht, rfl⟩
    refine bind_eq_ok_iff.2 ⟨(idents, initializerSegment ++ r), ?_, if_neg hne⟩
    rw [ht, readInitializerPath_flatten hall hmem, readInitializerPath_append]
    simp [Functor.map, Except.map]

end

/-- The class of a static initializer's linker name is the one that the name was written for exactly when that class is
readable and none of its identifiers is the initializer's name. -/
theorem initializerClass_inverts {cls descriptor linkerName : Text} (decoration : Text)
    (h : ofMethod cls "<clinit>" descriptor = .ok linkerName) (hfits : FitsMemory linkerName) :
    initializerClass (decoration ++ linkerName) decoration = .ok cls ↔
      ReadablePath cls ∧ ("<clinit>" : Text) ∉ cls.split slash := by
  obtain ⟨written, params, hcls, hmember, -, rfl⟩ := ofMethod_eq_ok h
  obtain rfl : initializerSegment = written := Except.ok.inj hmember
  rw [initializerClass_eq_ok_iff (dropStart_append _ _)]
  constructor
  · rintro ⟨pieces, idents, r, hall, -, hmem, heq, hjoin⟩
    obtain ⟨hread, rfl, -⟩ := readablePath_of_spells hcls (follows_member hmember params) hall hjoin.symm heq
    refine ⟨hread, fun hin => hmem ?_⟩
    rw [← segmentOf_initializer]
    exact List.mem_map_of_mem hin
  · rintro ⟨hread, hnot⟩
    have hlen : (pathOf cls).length < 2 ^ 63 := by
      simp only [FitsMemory, List.length_append] at hfits
      omega
    have hspells := spells_path hcls hread hlen
    refine ⟨_, _, _, hspells, split_ne_nil slash cls, fun hmem => hnot ?_, by rw [← pathOf_eq_flatten],
      (join_split slash cls).symm⟩
    -- A segment that is the initializer's was written for an identifier with the initializer's name.
    obtain ⟨ident, hident, hsegment⟩ := List.mem_map.1 hmem
    have hself := spells_segmentOf (hcls ident hident) (readablePath_iff.1 hread ident hident)
      (Nat.lt_of_le_of_lt (length_segmentOf_le hident) hlen)
    rw [hsegment] at hself
    rwa [← ident_of_initializerSegment hself]

theorem initializerClass_inverts_entry :
    initializerClass ("_" ++ "_ZN4java9Map$Entry18__U3c_clinit__U3e_Ev") "_" = .ok "java/Map$Entry" ∧
      initializerClass ("_" ++ "_ZN1a18__U3c_clinit__U3e_18__U3c_clinit__U3e_Ei") "_" ≠ .ok "a/<clinit>" := by
  constructor
  · have hname : ofMethod "java/Map$Entry" "<clinit>" "()V" = .ok "_ZN4java9Map$Entry18__U3c_clinit__U3e_Ev" := by cbv
    exact (initializerClass_inverts "_" hname (by decide)).2 (by decide +kernel)
  · have hname : ofMethod "a/<clinit>" "<clinit>" "(I)V" =
        .ok "_ZN1a18__U3c_clinit__U3e_18__U3c_clinit__U3e_Ei" := by cbv
    exact fun h => absurd ((initializerClass_inverts "_" hname (by decide)).1 h) (by decide +kernel)

end ClassAbi.LinkerName
