import ClassAbi.Proofs.LinkerName.Inverse

/-!
# Class names that share a linker name

Nothing stands between the length of a segment and its identifier, so a digit at the start of an identifier can be read as
the last digit of the length. Two class names with one linker name always part at an identifier that begins with a digit
(`partAt_of_clash`), and after every such identifier a class name can go on so that another one has its linker name
(`exists_clash`): the identifiers that follow are the end of one long identifier of the other name.
-/

namespace ClassAbi.LinkerName

open Ascii Text

/-- Whether two class names that are valid UTF-8 have the linker name of their descriptors in common. -/
structure Clash (cls other : Text) : Prop where
  ne : cls ≠ other
  isValid : cls.isValid = true ∧ other.isValid = true
  linkerName : ∃ linkerName, ofDescriptor cls = .ok linkerName ∧ ofDescriptor other = .ok linkerName

/-- Whether two class names part at an identifier, the first of the identifiers between slashes in which they differ. -/
def PartAt (cls other ident ident' : Text) : Prop :=
  ident ≠ ident' ∧ ∃ before after after', cls.split slash = before ++ ident :: after ∧
    other.split slash = before ++ ident' :: after'

theorem clash_iff {cls other : Text} :
    Clash cls other ↔ cls ≠ other ∧ (cls.isValid = true ∧ other.isValid = true) ∧ HasPath cls ∧ HasPath other ∧
      pathOf cls = pathOf other := by
  constructor
  · rintro ⟨hne, hvalid, name, hname, hname'⟩
    obtain ⟨hcls, rfl⟩ := ofDescriptor_eq_ok_iff.1 hname
    obtain ⟨hother, heq⟩ := ofDescriptor_eq_ok_iff.1 hname'
    exact ⟨hne, hvalid, hcls, hother, List.append_cancel_right (List.append_cancel_left heq)⟩
  · rintro ⟨hne, hvalid, hcls, hother, heq⟩
    exact ⟨hne, hvalid, _, ofDescriptor_eq_ok_iff.2 ⟨hcls, rfl⟩, ofDescriptor_eq_ok_iff.2 ⟨hother, by rw [heq]⟩⟩

/-! ### Names that clash part at a digit -/

theorem segmentOf_append_inj {s t u v : Text} (hs_ne : s ≠ []) (ht_ne : t ≠ []) (hs : ReadableIdent s)
    (ht : ReadableIdent t) (h : segmentOf s ++ u = segmentOf t ++ v) : s = t := by
  have hlen : (escaped s).length = (escaped t).length := by
    have hrun := congrArg digitRun h
    rw [digitRun_segmentOf_append hs_ne hs.not_digitLed, digitRun_segmentOf_append ht_ne ht.not_digitLed] at hrun
    rw [← numeral_ofNat (escaped s).length, hrun, numeral_ofNat]
  have hbody : escaped s ++ u = escaped t ++ v := by
    rw [← body_segmentOf_append hs_ne hs.not_digitLed, h, body_segmentOf_append ht_ne ht.not_digitLed]
  have hread := unescape_escaped s
  rw [List.append_inj_left hbody hlen, unescape_escaped] at hread
  rw [← repaired_eq_self_iff.2 hs.isValid, ← repaired_eq_self_iff.2 ht.isValid]
  exact (Except.ok.inj hread).symm

/-- Two sequences of identifiers that are written alike part at one that begins with a digit. -/
theorem parts_of_flatMap_eq {ss ts : List Text} (hs : ∀ s ∈ ss, s ≠ [] ∧ s.isValid = true)
    (ht : ∀ t ∈ ts, t ≠ [] ∧ t.isValid = true) (hne : ss ≠ ts) (h : ss.flatMap segmentOf = ts.flatMap segmentOf) :
    ∃ s t, s ≠ t ∧ (DigitLed s ∨ DigitLed t) ∧ ∃ before after after', ss = before ++ s :: after ∧ ts = before ++ t :: after' := by
  induction ss generalizing ts with
  | nil =>
    cases ts with
    | nil => exact absurd rfl hne
    | cons t ts => exact absurd h.symm (List.append_ne_nil_of_left_ne_nil (segmentOf_ne_nil t) _)
  | cons s ss ih =>
    cases ts with
    | nil => exact absurd h (List.append_ne_nil_of_left_ne_nil (segmentOf_ne_nil s) _)
    | cons t ts =>
      rw [List.forall_mem_cons] at hs ht
      rw [List.flatMap_cons, List.flatMap_cons] at h
      by_cases hst : s = t
      · subst hst
        obtain ⟨s', t', hne', hdigit, before, after, after', rfl, rfl⟩ :=
          ih hs.2 ht.2 (fun heq => hne (by rw [heq])) (List.append_cancel_left h)
        exact ⟨s', t', hne', hdigit, s :: before, after, after', rfl, rfl⟩
      · refine ⟨s, t, hst, ?_, [], ss, ts, rfl, rfl⟩
        by_contra hdigit
        rw [not_or] at hdigit
        exact hst (segmentOf_append_inj hs.1.1 ht.1.1 ⟨hs.1.2, hdigit.1⟩ ⟨ht.1.2, hdigit.2⟩ h)

theorem partAt_of_clash {cls other : Text} (h : Clash cls other) :
    ∃ ident ident', PartAt cls other ident ident' ∧ (DigitLed ident ∨ DigitLed ident') := by
  obtain ⟨hne, hvalid, hcls, hother, heq⟩ := clash_iff.1 h
  have hsplit : cls.split slash ≠ other.split slash := by
    intro hsplit
    rw [← join_split slash cls, ← join_split slash other, hsplit] at hne
    exact hne rfl
  have hident : ∀ {c : Text}, HasPath c → c.isValid = true → ∀ s ∈ c.split slash, s ≠ [] ∧ s.isValid = true :=
    fun hpath hv s hs => ⟨hpath s hs, (isValid_iff_split (by decide) _).1 hv s hs⟩
  obtain ⟨s, t, hst, hdigit, hparts⟩ := parts_of_flatMap_eq (hident hcls hvalid.1) (hident hother hvalid.2) hsplit heq
  exact ⟨s, t, ⟨hst, hparts⟩, hdigit⟩

/-! ### A clash after every leading digit -/

def fillerBytes : Text := [0x31, 0x32, 0x78]

theorem fillerBytes_plain : ∀ b ∈ fillerBytes, b.toNat < 0x80 ∧ isPlain (Char.ofNat b.toNat) = true ∧
    Char.ofNat b.toNat ≠ '_' ∧ Char.ofNat b.toNat ≠ 'U' ∧ (Char.ofNat b.toNat).toNat.toUInt8 = b ∧ b ≠ slash := by
  simp only [fillerBytes, List.forall_mem_cons, List.not_mem_nil, false_implies, implies_true, and_true]
  decide

section

variable {t : Text}

theorem chars_of_filler (h : ∀ b ∈ t, b ∈ fillerBytes) : t.chars = t.map fun b => Char.ofNat b.toNat := by
  induction t with
  | nil => simp [chars]
  | cons b t ih =>
    rw [List.forall_mem_cons] at h
    rw [chars_cons_of_lt (fillerBytes_plain b h.1).1, ih h.2, List.map_cons]

theorem isValid_of_filler (h : ∀ b ∈ t, b ∈ fillerBytes) : t.isValid = true := by
  induction t with
  | nil => simp [isValid]
  | cons b t ih =>
    rw [List.forall_mem_cons] at h
    rw [isValid_cons_of_lt (fillerBytes_plain b h.1).1, ih h.2]

theorem escapeChars_filler (h : ∀ b ∈ t, b ∈ fillerBytes) (afterUnderscore : Bool) :
    escapeChars afterUnderscore (t.map fun b => Char.ofNat b.toNat) = t := by
  induction t generalizing afterUnderscore with
  | nil => rfl
  | cons b t ih =>
    rw [List.forall_mem_cons] at h
    obtain ⟨-, hplain, hunderscore, -, hbyte, -⟩ := fillerBytes_plain b h.1
    rw [List.map_cons, escapeChars_cons_plain hplain fun h => absurd h hunderscore, ih h.2, hbyte]

theorem escapeChars_append_filler (h : ∀ b ∈ t, b ∈ fillerBytes) (afterUnderscore : Bool) (cs : List Char) :
    escapeChars afterUnderscore (cs ++ t.map fun b => Char.ofNat b.toNat) = escapeChars afterUnderscore cs ++ t := by
  induction cs generalizing afterUnderscore with
  | nil => exact escapeChars_filler h afterUnderscore
  | cons c cs ih =>
    have hhead : (cs ++ t.map fun b => Char.ofNat b.toNat).head? = some 'U' ↔ cs.head? = some 'U' := by
      cases cs with
      | cons c cs => rfl
      | nil =>
        cases t with
        | nil => rfl
        | cons b t => simpa using (fillerBytes_plain b (h b List.mem_cons_self)).2.2.2.1
    have hbeq : ((cs ++ t.map fun b => Char.ofNat b.toNat).head? == some 'U') = (cs.head? == some 'U') := by
      rw [Bool.eq_iff_iff, beq_iff_eq, beq_iff_eq, hhead]
    rw [List.cons_append, escapeChars, escapeChars, hbeq]
    split_ifs
    · rw [ih, List.cons_append]
    · rw [ih, List.append_assoc]

theorem escaped_append_filler {ident : Text} (h : ∀ b ∈ t, b ∈ fillerBytes) (hne : t ≠ []) :
    escaped (ident ++ t) = escaped ident ++ t := by
  obtain ⟨b, r, rfl⟩ := List.exists_cons_of_ne_nil hne
  rw [escaped, chars_append (fillerBytes_plain b (h b List.mem_cons_self)).1, chars_of_filler h,
    escapeChars_append_filler h, escaped]

end

theorem exists_filler : (n : Nat) → ∃ idents : List Text, idents ≠ [] ∧
    (∀ ident ∈ idents, ident = ("x" : Text) ∨ ident = ("xx" : Text)) ∧ (idents.flatMap segmentOf).length = n + 2
  | 0 => ⟨["x"], by simp, by simp, by cbv⟩
  | 1 => ⟨["xx"], by simp, by simp, by cbv⟩
  | n + 2 => by
    obtain ⟨idents, -, hidents, hlen⟩ := exists_filler n
    refine ⟨"x" :: idents, by simp, by simpa using hidents, ?_⟩
    have hx : (segmentOf "x").length = 2 := by cbv
    rw [List.flatMap_cons, List.length_append, hx, hlen]
    omega

theorem mem_flatMap_filler {idents : List Text} (h : ∀ ident ∈ idents, ident = ("x" : Text) ∨ ident = ("xx" : Text)) :
    ∀ b ∈ idents.flatMap segmentOf, b ∈ fillerBytes := by
  intro b hb
  obtain ⟨ident, hident, hb⟩ := List.mem_flatMap.1 hb
  have hx : segmentOf "x" = [0x31, 0x78] := by cbv
  have hxx : segmentOf "xx" = [0x32, 0x78, 0x78] := by cbv
  rcases h ident hident with rfl | rfl
  · rw [hx] at hb
    simp only [List.mem_cons, List.not_mem_nil, or_false] at hb
    rcases hb with rfl | rfl <;> decide
  · rw [hxx] at hb
    simp only [List.mem_cons, List.not_mem_nil, or_false, or_self] at hb
    rcases hb with rfl | rfl <;> decide

section

variable {b : UInt8} {r t : Text}

theorem digit_of_isDigit (h : isDigit b = true) : digit (b.toNat - 0x30) = b := by
  obtain ⟨hlow, hhigh⟩ := isDigit_iff.1 h
  apply UInt8.toNat_inj.1
  rw [toNat_digit (by omega)]
  omega

theorem escaped_cons_digit (h : isDigit b = true) : escaped (b :: r) = b :: escaped r := by
  obtain ⟨hlow, hhigh⟩ := isDigit_iff.1 h
  have hplain := isPlain_of_isDigit h
  have hnat : (Char.ofNat b.toNat).toNat = b.toNat := toNat_ofNat_of_lt (by omega)
  have hbyte : (Char.ofNat b.toNat).toNat.toUInt8 = b := by rw [hnat, Nat.toUInt8, UInt8.ofNat_toNat]
  have hunderscore : Char.ofNat b.toNat ≠ '_' := by
    intro heq
    rw [heq] at hnat
    exact absurd hhigh (by rw [← hnat]; decide)
  rw [escaped, chars_cons_of_lt (by omega), escapeChars_cons_plain hplain fun h => absurd h hunderscore, hbyte,
    beq_eq_false_iff_ne.2 hunderscore, escaped]

/-- The first digit of an identifier is taken for the last digit of a length when as many bytes follow as that length
counts. -/
theorem segmentOf_append_filler (h : isDigit b = true) (ht : ∀ b ∈ t, b ∈ fillerBytes) (hne : t ≠ [])
    (hlen : t.length = 9 * (escaped (b :: r)).length + (b.toNat - 0x30) + 1) :
    segmentOf (r ++ t) = segmentOf (b :: r) ++ t := by
  obtain ⟨hlow, hhigh⟩ := isDigit_iff.1 h
  have hlong : (escaped (r ++ t)).length = (escaped (b :: r)).length * 10 + (b.toNat - 0x30) := by
    rw [escaped_append_filler ht hne, List.length_append, hlen, escaped_cons_digit h, List.length_cons]
    omega
  have hpos : 0 < (escaped (b :: r)).length := List.length_pos_iff.2 (escaped_ne_nil (List.cons_ne_nil b r))
  rw [segmentOf, segmentOf, hlong, ofNat_mul_ten_add hpos (by omega), digit_of_isDigit h, escaped_append_filler ht hne,
    escaped_cons_digit h]
  simp

end

/-- Whether a text can stand between the slashes of a valid class name. -/
structure IsPart (s : Text) : Prop where
  nonempty : s ≠ []
  no_slash : slash ∉ s
  isValid : s.isValid = true

theorem isPart_of_mem_split {cls s : Text} (hcls : HasPath cls) (hvalid : cls.isValid = true) (h : s ∈ cls.split slash) :
    IsPart s :=
  ⟨hcls s h, not_mem_of_mem_split h, (isValid_iff_split (by decide) cls).1 hvalid s h⟩

section

variable {ss ts : List Text}

theorem hasPath_join (hs : ∀ s ∈ ss, IsPart s) (hne : ss ≠ []) :
    HasPath (join [slash] ss) ∧ (join [slash] ss).isValid = true := by
  rw [isValid_iff_split (x := slash) (by decide), HasPath, split_join hne fun s h => (hs s h).no_slash]
  exact ⟨fun s h => (hs s h).nonempty, fun s h => (hs s h).isValid⟩

theorem clash_join (hs : ∀ s ∈ ss, IsPart s) (ht : ∀ t ∈ ts, IsPart t) (hss : ss ≠ []) (hts : ts ≠ []) (hne : ss ≠ ts)
    (heq : ss.flatMap segmentOf = ts.flatMap segmentOf) : Clash (join [slash] ss) (join [slash] ts) := by
  have hsplit_ss := split_join hss fun s h => (hs s h).no_slash
  have hsplit_ts := split_join hts fun t h => (ht t h).no_slash
  obtain ⟨hpath_ss, hvalid_ss⟩ := hasPath_join hs hss
  obtain ⟨hpath_ts, hvalid_ts⟩ := hasPath_join ht hts
  refine clash_iff.2 ⟨fun hjoin => hne ?_, ⟨hvalid_ss, hvalid_ts⟩, hpath_ss, hpath_ts, ?_⟩
  · rw [← hsplit_ss, hjoin, hsplit_ts]
  · rw [pathOf, pathOf, hsplit_ss, hsplit_ts, heq]

end

theorem isPart_of_filler {s : Text} (h : s = ("x" : Text) ∨ s = ("xx" : Text)) : IsPart s := by
  rcases h with rfl | rfl
  · exact ⟨by decide, by decide, by cbv⟩
  · exact ⟨by decide, by decide, by cbv⟩

theorem isPart_append_filler {b : UInt8} {r t : Text} (hb : isDigit b = true) (h : IsPart (b :: r))
    (ht : ∀ b ∈ t, b ∈ fillerBytes) (hne : t ≠ []) : IsPart (r ++ t) := by
  have hlt : b.toNat < 0x80 := by
    have := isDigit_iff.1 hb
    omega
  have hvalid := h.isValid
  rw [isValid_cons_of_lt hlt] at hvalid
  refine ⟨List.append_ne_nil_of_right_ne_nil r hne, ?_, ?_⟩
  · rw [List.mem_append, not_or]
    exact ⟨fun hr => h.no_slash (List.mem_cons_of_mem b hr), fun hmem => (fillerBytes_plain slash (ht slash hmem)).2.2.2.2.2 rfl⟩
  · obtain ⟨c, t, rfl⟩ := List.exists_cons_of_ne_nil hne
    rw [List.forall_mem_cons] at ht
    rw [isValid_append (fillerBytes_plain c ht.1).1, hvalid, isValid_of_filler ht.2]
    rfl

/-- After an identifier that begins with a digit, a class name can go on so that it clashes with another one. -/
theorem exists_clash {cls ident : Text} {before : List Text} (hcls : HasPath cls) (hvalid : cls.isValid = true)
    (hsplit : cls.split slash = before ++ [ident]) (hdigit : DigitLed ident) :
    ∃ after other ident', Clash (cls ++ slash :: after) other ∧ PartAt (cls ++ slash :: after) other ident ident' := by
  have hparts : ∀ s ∈ before ++ [ident], IsPart s := fun s hs => isPart_of_mem_split hcls hvalid (hsplit ▸ hs)
  have hident : IsPart ident := hparts ident (by simp)
  obtain ⟨b, r, rfl⟩ := List.exists_cons_of_ne_nil hident.nonempty
  rw [digitLed_cons] at hdigit
  have hpos : 0 < (escaped (b :: r)).length := List.length_pos_iff.2 (escaped_ne_nil hident.nonempty)
  obtain ⟨fill, hfill_ne, hfill, hlen⟩ := exists_filler (9 * (escaped (b :: r)).length + (b.toNat - 0x30) - 1)
  have hbytes := mem_flatMap_filler hfill
  have hbytes_ne : fill.flatMap segmentOf ≠ [] := List.ne_nil_of_length_pos (by omega)
  have hlong : segmentOf (r ++ fill.flatMap segmentOf) = segmentOf (b :: r) ++ fill.flatMap segmentOf :=
    segmentOf_append_filler hdigit hbytes hbytes_ne (by omega)
  -- The bytes that the segments of `fill` take are all in the last identifier of the other name.
  have hss : ∀ s ∈ before ++ [b :: r] ++ fill, IsPart s := fun s hs =>
    (List.mem_append.1 hs).elim (hparts s) fun h => isPart_of_filler (hfill s h)
  have hts : ∀ t ∈ before ++ [r ++ fill.flatMap segmentOf], IsPart t := fun t ht => by
    rcases List.mem_append.1 ht with h | h
    · exact hparts t (List.mem_append_left _ h)
    · rw [List.mem_singleton.1 h]
      exact isPart_append_filler hdigit hident hbytes hbytes_ne
  have hjoin : cls ++ slash :: join [slash] fill = join [slash] (before ++ [b :: r] ++ fill) := by
    rw [join_append (by simp) hfill_ne, ← hsplit, join_split]
  have hne : b :: r ≠ r ++ fill.flatMap segmentOf := by
    intro heq
    have := congrArg List.length heq
    simp only [List.length_cons, List.length_append] at this
    omega
  refine ⟨join [slash] fill, join [slash] (before ++ [r ++ fill.flatMap segmentOf]), _, ?_, hne, before, fill, [], ?_, ?_⟩
  · rw [hjoin]
    refine clash_join hss hts (by simp) (by simp) ?_ ?_
    · intro heq
      rw [List.append_assoc] at heq
      exact hne (List.cons.inj (List.append_cancel_left heq)).1
    · simp [hlong]
  · rw [hjoin, split_join (by simp) fun s h => (hss s h).no_slash, List.append_assoc]
    rfl
  · rw [split_join (by simp) fun t h => (hts t h).no_slash]

/-- A valid class name with the linker name of another one is that one, unless the first identifier in which they differ
begins with a digit in one of them. After every identifier that begins with a digit there are two that clash. -/
theorem descriptor_unique_up_to_digits {cls linkerName : Text} (hname : ofDescriptor cls = .ok linkerName)
    (hvalid : cls.isValid = true) :
    (∀ other, ofDescriptor other = .ok linkerName → other.isValid = true →
      (∀ ident ident', PartAt cls other ident ident' → ¬DigitLed ident ∧ ¬DigitLed ident') → other = cls) ∧
    ∀ before ident, cls.split slash = before ++ [ident] → DigitLed ident →
      ∃ after other ident', Clash (cls ++ slash :: after) other ∧ PartAt (cls ++ slash :: after) other ident ident' := by
  constructor
  · intro other hother hvalid' hdigit
    by_contra hne
    obtain ⟨ident, ident', hpart, hled⟩ := partAt_of_clash ⟨Ne.symm hne, ⟨hvalid, hvalid'⟩, linkerName, hname, hother⟩
    exact hled.elim (hdigit ident ident' hpart).1 (hdigit ident ident' hpart).2
  · intro before ident hsplit hdigit
    exact exists_clash (ofDescriptor_eq_ok_iff.1 hname).1 hvalid hsplit hdigit

theorem descriptor_unique_up_to_digits_seven :
    (∀ other, ofDescriptor other = .ok "_ZN4java27z6class$E" → other.isValid = true →
      (∀ ident ident', PartAt "java/7z" other ident ident' → ¬DigitLed ident ∧ ¬DigitLed ident') → other = "java/7z") ∧
    ∃ after other ident', Clash ("java/7z" ++ slash :: after) other ∧
      PartAt ("java/7z" ++ slash :: after) other "7z" ident' := by
  have hname : ofDescriptor "java/7z" = .ok "_ZN4java27z6class$E" := by cbv
  obtain ⟨hunique, hclash⟩ := descriptor_unique_up_to_digits hname (by cbv)
  exact ⟨hunique, hclash ["java"] "7z" (by decide) (by decide)⟩

/-- One linker name is read as twelve bytes after a length of twelve, and as the digit two after a length of one and ten
letters after a length of ten. -/
theorem clash_of_ten_letters : Clash "10abcdefghij" "2/abcdefghij" :=
  ⟨by decide, ⟨by cbv, by cbv⟩, "_ZN1210abcdefghij6class$E", by cbv, by cbv⟩

end ClassAbi.LinkerName
