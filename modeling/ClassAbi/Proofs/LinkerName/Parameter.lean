import ClassAbi.Class.Type
import ClassAbi.Proofs.LinkerName.Path

/-!
# Parameter types

A method descriptor lists the types of its parameters between parentheses, and a linker name lists their codes. Descriptors
that have codes are those that list types whose class names have paths (`lists_of_parameters`), and they list one
sequence of types only (`Lists.unique`). Reading the codes gives back the descriptors of the types exactly when each class
name among them is readable (`readParameters_codes_iff`).
-/

namespace ClassAbi.LinkerName

variable {t u descriptor : Text} {ty : ParameterType} {types : List ParameterType}

open Ascii Text

/-- A type that a method descriptor can list. -/
inductive ParameterType where
  | primitive (p : Primitive)
  | cls (name : Text)
  | array (elem : ParameterType)
  deriving Repr, DecidableEq

def primitiveCode : Primitive → UInt8
  | .boolean => 0x62
  | .byte => 0x63
  | .char => 0x77
  | .short => 0x73
  | .int => 0x69
  | .long => 0x78
  | .float => 0x66
  | .double => 0x64

namespace ParameterType

def text : ParameterType → Text
  | primitive p => [p.letter]
  | cls name => upperL :: (name ++ [semicolon])
  | array elem => openBracket :: elem.text

def code : ParameterType → Text
  | primitive p => [primitiveCode p]
  | cls name => classStart ++ (pathOf name ++ [upperE])
  | array elem => arrayStart ++ (elem.code ++ [upperE])

def className : ParameterType → Option Text
  | primitive _ => none
  | cls name => some name
  | array elem => elem.className

end ParameterType

open ParameterType

/-- Whether a method descriptor lists the types of its parameters: a class name ends before the next `;`, and the
parameters end before the next `)`. -/
structure Lists (descriptor : Text) (types : List ParameterType) : Prop where
  text : ∃ result, descriptor = openParen :: (types.flatMap text ++ closeParen :: result)
  closed : ∀ ty ∈ types, ∀ name ∈ ty.className, semicolon ∉ name ∧ closeParen ∉ name

/-- The codes of parameter types, `v` if there are none. -/
def codes (types : List ParameterType) : Text := if types = [] then "v" else types.flatMap code

/-! ### Primitive types -/

theorem find?_primitiveCode (p : Primitive) :
    primitiveCodes.find? (·.2 == primitiveCode p) = some (p.letter, primitiveCode p) := by
  cases p <;> rfl

theorem exists_primitive_of_mem {x : UInt8 × UInt8} (h : x ∈ primitiveCodes) :
    ∃ p : Primitive, x = (p.letter, primitiveCode p) := by
  simp only [primitiveCodes, List.mem_cons, List.not_mem_nil, or_false] at h
  rcases h with rfl | rfl | rfl | rfl | rfl | rfl | rfl | rfl
  · exact ⟨.byte, rfl⟩
  · exact ⟨.char, rfl⟩
  · exact ⟨.short, rfl⟩
  · exact ⟨.int, rfl⟩
  · exact ⟨.long, rfl⟩
  · exact ⟨.boolean, rfl⟩
  · exact ⟨.float, rfl⟩
  · exact ⟨.double, rfl⟩

theorem exists_letter_of_lookup {c code : UInt8} (h : primitiveCodes.lookup c = some code) :
    ∃ p : Primitive, c = p.letter ∧ code = primitiveCode p := by
  obtain ⟨l, r, hmem, -⟩ := List.lookup_eq_some_iff.1 h
  obtain ⟨p, hp⟩ := exists_primitive_of_mem (x := (c, code)) (by rw [hmem]; simp)
  exact ⟨p, Prod.mk.inj hp⟩

theorem exists_code_of_find? {c : UInt8} {x : UInt8 × UInt8} (h : primitiveCodes.find? (·.2 == c) = some x) :
    ∃ p : Primitive, x.1 = p.letter ∧ c = primitiveCode p := by
  obtain ⟨p, rfl⟩ := exists_primitive_of_mem (List.mem_of_find?_eq_some h)
  have hc := List.find?_some h
  exact ⟨p, rfl, (beq_iff_eq.1 hc).symm⟩

/-! ### A descriptor lists one sequence of types -/

theorem letter_injective {p q : Primitive} (h : p.letter = q.letter) : p = q := by
  cases p <;> cases q <;> first | rfl | exact absurd h (by decide)

theorem letter_ne (p : Primitive) : p.letter ≠ upperL ∧ p.letter ≠ openBracket ∧ p.letter ≠ closeParen := by
  cases p <;> decide

theorem head?_text_append_ne (ty : ParameterType) (r : Text) : (ty.text ++ r).head? ≠ some closeParen := by
  cases ty with
  | primitive p => simpa [ParameterType.text] using (letter_ne p).2.2
  | cls name => exact fun h => absurd (Option.some.inj h) (by decide)
  | array elem => exact fun h => absurd (Option.some.inj h) (by decide)

theorem text_append_inj {s t : ParameterType} (hs : ∀ name ∈ s.className, semicolon ∉ name)
    (ht : ∀ name ∈ t.className, semicolon ∉ name) {v : Text} (h : s.text ++ u = t.text ++ v) : s = t ∧ u = v := by
  induction s generalizing t with
  | primitive p =>
    cases t with
    | primitive q =>
      obtain ⟨hpq, huv⟩ := List.cons.inj h
      exact ⟨congrArg _ (letter_injective hpq), huv⟩
    | cls name => exact absurd (List.cons.inj h).1 (letter_ne p).1
    | array elem => exact absurd (List.cons.inj h).1 (letter_ne p).2.1
  | cls name =>
    cases t with
    | primitive q => exact absurd (List.cons.inj h).1.symm (letter_ne q).1
    | cls name' =>
      have hrest : name ++ semicolon :: u = name' ++ semicolon :: v := by
        simpa [ParameterType.text] using (List.cons.inj h).2
      obtain ⟨rfl, huv⟩ := append_sep_inj (hs name rfl) (ht name' rfl) hrest
      exact ⟨rfl, huv⟩
    | array elem => exact absurd (List.cons.inj h).1 (by decide)
  | array elem ih =>
    cases t with
    | primitive q => exact absurd (List.cons.inj h).1.symm (letter_ne q).2.1
    | cls name => exact absurd (List.cons.inj h).1 (by decide)
    | array elem' =>
      obtain ⟨rfl, hrest⟩ := ih (t := elem') hs ht (List.cons.inj h).2
      exact ⟨rfl, hrest⟩

theorem flatMap_text_inj {ss ts : List ParameterType} (hs : ∀ s ∈ ss, ∀ name ∈ s.className, semicolon ∉ name)
    (ht : ∀ t ∈ ts, ∀ name ∈ t.className, semicolon ∉ name) {v : Text}
    (h : ss.flatMap text ++ closeParen :: u = ts.flatMap text ++ closeParen :: v) : ss = ts := by
  induction ss generalizing ts with
  | nil =>
    cases ts with
    | nil => rfl
    | cons t ts =>
      rw [List.flatMap_cons, List.append_assoc] at h
      exact absurd (congrArg List.head? h).symm (head?_text_append_ne t _)
  | cons s ss ih =>
    cases ts with
    | nil =>
      rw [List.flatMap_cons, List.append_assoc] at h
      exact absurd (congrArg List.head? h) (head?_text_append_ne s _)
    | cons t ts =>
      rw [List.flatMap_cons, List.append_assoc, List.flatMap_cons, List.append_assoc] at h
      rw [List.forall_mem_cons] at hs ht
      obtain ⟨rfl, hrest⟩ := text_append_inj hs.1 ht.1 h
      rw [ih hs.2 ht.2 hrest]

theorem Lists.unique {ss ts : List ParameterType} (hs : Lists descriptor ss) (ht : Lists descriptor ts) : ss = ts := by
  obtain ⟨u, hu⟩ := hs.text
  obtain ⟨v, hv⟩ := ht.text
  refine flatMap_text_inj (u := u) (v := v) (fun s h name hname => (hs.closed s h name hname).1)
    (fun t h name hname => (ht.closed t h name hname).1) ?_
  exact (List.cons.inj (hu.symm.trans hv)).2

/-! ### Writing -/

theorem type_of_parameter {params code : Text} {r : { r : Text // r.length ≤ t.length - 1 }}
    (h : parameter params t = .ok (code, r)) :
    ∃ ty : ParameterType, t = ty.text ++ r.1 ∧ code = ty.code ∧ ∀ name ∈ ty.className, HasPath name ∧ semicolon ∉ name := by
  induction t generalizing code with
  | nil => cases h
  | cons c t ih =>
    rw [parameter] at h
    split at h
    · next prim hlookup =>
      obtain ⟨p, rfl, rfl⟩ := exists_letter_of_lookup hlookup
      cases h
      exact ⟨.primitive p, rfl, rfl, by simp [className]⟩
    split_ifs at h with hL hbracket
    · subst hL
      split at h
      · cases h
      · next b rest hdrop =>
        obtain ⟨written, hpath, h⟩ := bind_eq_ok_iff.1 h
        obtain ⟨hname, rfl⟩ := path_eq_ok_iff.1 hpath
        cases h
        refine ⟨.cls (t.takeWhile (· != semicolon)), ?_, by simp [ParameterType.code], ?_⟩
        · conv_lhs => rw [eq_append_of_dropWhile_ne hdrop]
          simp [ParameterType.text]
        · rintro name ⟨⟩
          exact ⟨hname, not_mem_takeWhile_ne semicolon t⟩
    · subst hbracket
      obtain ⟨⟨written, rest, hrest⟩, hread, h⟩ := bind_eq_ok_iff.1 h
      cases h
      obtain ⟨elem, ht, rfl, hnames⟩ := ih hread
      exact ⟨.array elem, congrArg (openBracket :: ·) ht, by simp [ParameterType.code], hnames⟩

theorem types_of_parametersFrom {params written : Text} (h : parametersFrom params t = .ok written) :
    ∃ types : List ParameterType, t = types.flatMap text ∧ written = types.flatMap code ∧
      ∀ ty ∈ types, ∀ name ∈ ty.className, HasPath name ∧ semicolon ∉ name := by
  induction t using parametersFrom.induct generalizing written with
  | case1 =>
    rw [parametersFrom] at h
    cases h
    exact ⟨[], rfl, rfl, by simp⟩
  | case2 c t ih =>
    rw [parametersFrom] at h
    obtain ⟨⟨head, rest, hlen⟩, hhead, h⟩ := bind_eq_ok_iff.1 h
    obtain ⟨tail, htail, h⟩ := bind_eq_ok_iff.1 h
    cases h
    obtain ⟨ty, ht, rfl, hty⟩ := type_of_parameter hhead
    obtain ⟨types, hrest, rfl, htypes⟩ := ih rest hlen htail
    exact ⟨ty :: types, by rw [ht, List.flatMap_cons, ← hrest], rfl, List.forall_mem_cons.2 ⟨hty, htypes⟩⟩

theorem className_subset {name : Text} (h : name ∈ ty.className) : name ⊆ ty.text := by
  induction ty with
  | primitive p => cases h
  | cls name' =>
    cases h
    exact fun b hb => List.mem_cons_of_mem _ (List.mem_append_left _ hb)
  | array elem ih => exact fun b hb => List.mem_cons_of_mem _ (ih h hb)

theorem closeParen_not_mem_text (h : ∀ name ∈ ty.className, closeParen ∉ name) : closeParen ∉ ty.text := by
  induction ty with
  | primitive p => exact fun hmem => (letter_ne p).2.2 (List.mem_singleton.1 hmem).symm
  | cls name => simpa [ParameterType.text] using ⟨by decide, h name rfl, by decide⟩
  | array elem ih => simpa [ParameterType.text] using ⟨by decide, ih h⟩

theorem lists_of_parameters {written : Text} (h : parameters descriptor = .ok written) :
    ∃ types, Lists descriptor types ∧ written = codes types ∧ ∀ ty ∈ types, ∀ name ∈ ty.className, HasPath name := by
  unfold parameters at h
  split at h
  · next t =>
    split at h
    · cases h
    · next result hcut =>
      cases h
      obtain ⟨-, rfl⟩ := cut?_eq_some_iff.1 hcut
      exact ⟨[], ⟨⟨result, rfl⟩, by simp⟩, rfl, by simp⟩
    · next params result hne hcut =>
      obtain ⟨hclosed, rfl⟩ := cut?_eq_some_iff.1 hcut
      obtain ⟨types, rfl, rfl, htypes⟩ := types_of_parametersFrom h
      have htypes_ne : types ≠ [] := fun hnil => hne (by rw [hnil]; rfl)
      refine ⟨types, ⟨⟨result, rfl⟩, fun ty hty name hname => ⟨(htypes ty hty name hname).2, fun hmem => hclosed ?_⟩⟩,
        by rw [codes, if_neg htypes_ne], fun ty hty name hname => (htypes ty hty name hname).1⟩
      exact List.mem_flatMap.2 ⟨ty, hty, className_subset hname hmem⟩
  · cases h

theorem parameter_text (params : Text) (h : ∀ name ∈ ty.className, HasPath name ∧ semicolon ∉ name) {rest : Text}
    (ht : t = ty.text ++ rest) : ∃ hle, parameter params t = .ok (ty.code, ⟨rest, hle⟩) := by
  induction ty generalizing t with
  | primitive p =>
    obtain rfl : t = p.letter :: rest := ht
    refine ⟨by simp, ?_⟩
    rw [parameter, show primitiveCodes.lookup p.letter = some (primitiveCode p) by cases p <;> rfl]
    rfl
  | cls name =>
    obtain rfl : t = upperL :: (name ++ semicolon :: rest) := by simpa [ParameterType.text] using ht
    obtain ⟨hpath, hname⟩ := h name rfl
    refine ⟨by simp; omega, ?_⟩
    rw [parameter, show primitiveCodes.lookup upperL = none from rfl]
    dsimp only
    rw [if_pos rfl]
    split
    · next hdrop => cases (dropWhile_ne_append hname rest).symm.trans hdrop
    · next hdrop =>
      cases (dropWhile_ne_append hname rest).symm.trans hdrop
      rw [takeWhile_ne_append hname, path_eq_ok_iff.2 ⟨hpath, rfl⟩, ParameterType.code, ← List.append_assoc]
      rfl
  | array elem ih =>
    obtain rfl : t = openBracket :: (elem.text ++ rest) := ht
    obtain ⟨hle, hwritten⟩ := ih h rfl
    refine ⟨by simp, ?_⟩
    rw [parameter, show primitiveCodes.lookup openBracket = none from rfl]
    dsimp only
    rw [if_neg (by decide), if_pos rfl, hwritten, ParameterType.code, ← List.append_assoc]
    rfl

theorem parametersFrom_flatMap (params : Text) (h : ∀ ty ∈ types, ∀ name ∈ ty.className, HasPath name ∧ semicolon ∉ name) :
    parametersFrom params (types.flatMap text) = .ok (types.flatMap code) := by
  induction types with
  | nil => rw [List.flatMap_nil, parametersFrom, List.flatMap_nil]
  | cons ty types ih =>
    rw [List.forall_mem_cons] at h
    obtain ⟨b, t, ht⟩ : ∃ b t, ty.text ++ types.flatMap text = b :: t := by cases ty <;> exact ⟨_, _, rfl⟩
    obtain ⟨hle, hwritten⟩ := parameter_text params h.1 ht.symm
    rw [List.flatMap_cons, ht, parametersFrom, hwritten]
    simp only [bind, Except.bind, ih h.2]
    rfl

theorem parameters_of_lists (h : Lists descriptor types) (hnames : ∀ ty ∈ types, ∀ name ∈ ty.className, HasPath name) :
    parameters descriptor = .ok (codes types) := by
  obtain ⟨result, rfl⟩ := h.text
  have hclosed : closeParen ∉ types.flatMap text := fun hmem => by
    obtain ⟨ty, hty, hmem⟩ := List.mem_flatMap.1 hmem
    exact closeParen_not_mem_text (fun name hname => (h.closed ty hty name hname).2) hmem
  unfold parameters
  split
  swap
  · next hne => exact absurd rfl (hne _)
  next hcons =>
  cases hcons
  rw [cut?_eq_some_iff.2 ⟨hclosed, rfl⟩]
  cases types with
  | nil => rfl
  | cons ty types =>
    rw [codes, if_neg (List.cons_ne_nil ty types), ← parametersFrom_flatMap ((ty :: types).flatMap text) fun ty hty name hname =>
      ⟨hnames ty hty name hname, (h.closed ty hty name hname).1⟩]
    cases ty <;> rfl

/-! ### Reading -/

theorem readParameter_primitive (whole : Text) (p : Primitive) (t : Text) :
    bare (readParameter whole (primitiveCode p :: t)) = .ok ([p.letter], t) := by
  rw [readParameter, find?_primitiveCode]
  rfl

theorem readParameter_array (whole t : Text) :
    bare (readParameter whole (arrayStart ++ t)) = bare (readParameter whole t) >>= fun x =>
      if x.2.head? = some upperE then .ok (openBracket :: x.1, x.2.tail) else errorAt whole x.2 .openArray := by
  have hafter : after? arrayStart (arrayStart ++ t) = some t := after?_append arrayStart t
  obtain ⟨c, s, hcs⟩ : ∃ c s, arrayStart ++ t = c :: s := ⟨_, _, rfl⟩
  have hc : primitiveCodes.find? (·.2 == c) = none := by
    obtain rfl : 0x50 = c := (List.cons.inj hcs).1
    rfl
  rw [hcs] at hafter ⊢
  rw [readParameter, hc]
  simp only
  split
  · next inner heq =>
    obtain rfl : t = inner := Option.some.inj (hafter.symm.trans heq)
    rcases readParameter whole t with e | ⟨elem, ⟨rest, h⟩⟩
    · rfl
    · simp only [bind, Except.bind, bare, Except.map]
      split_ifs <;> rfl
  · next heq =>
    rw [hafter] at heq
    cases heq

theorem readParameter_class (whole t : Text) :
    bare (readParameter whole (classStart ++ t)) = bare (readPath whole t) >>= fun x =>
      .ok (upperL :: (x.1 ++ [semicolon]), x.2.drop 1) := by
  have harray : after? arrayStart (classStart ++ t) = none := rfl
  have hafter : after? classStart (classStart ++ t) = some t := after?_append classStart t
  obtain ⟨c, s, hcs⟩ : ∃ c s, classStart ++ t = c :: s := ⟨_, _, rfl⟩
  have hc : primitiveCodes.find? (·.2 == c) = none := by
    obtain rfl : 0x50 = c := (List.cons.inj hcs).1
    rfl
  rw [hcs] at harray hafter ⊢
  rw [readParameter, hc]
  simp only
  split
  · next heq =>
    rw [harray] at heq
    cases heq
  split
  · next inner heq =>
    obtain rfl : t = inner := Option.some.inj (hafter.symm.trans heq)
    rcases readPath whole t with e | ⟨path, ⟨rest, h⟩⟩
    · rfl
    · rfl
  · next heq =>
    rw [hafter] at heq
    cases heq

/-- Reading the code of a type gives back its descriptor exactly when the class in it is readable. -/
theorem readParameter_code_iff (whole : Text) (h : ∀ name ∈ ty.className, HasPath name) (hfits : ty.code.length < 2 ^ 63) :
    bare (readParameter whole (ty.code ++ t)) = .ok (ty.text, u) ↔
      (∀ name ∈ ty.className, ReadablePath name) ∧ u = t := by
  induction ty generalizing t u with
  | primitive p =>
    rw [ParameterType.code, List.singleton_append, readParameter_primitive]
    simp [ParameterType.text, className, eq_comm]
  | cls name =>
    have hlen : (pathOf name).length < 2 ^ 63 := by
      simp only [ParameterType.code, List.length_append] at hfits
      omega
    simp only [className, Option.mem_def, Option.some.injEq, forall_eq'] at h ⊢
    rw [ParameterType.code, List.append_assoc, List.append_assoc, List.singleton_append, readParameter_class,
      bind_eq_ok_iff, ParameterType.text]
    constructor
    · rintro ⟨⟨name', rest⟩, hpath, heq⟩
      obtain ⟨hname, rfl⟩ := Prod.mk.inj (Except.ok.inj heq)
      obtain rfl : name' = name := List.append_cancel_right (List.cons.inj hname).2
      obtain ⟨hread, rfl⟩ := (readPath_pathOf_iff whole h hlen).1 hpath
      exact ⟨hread, rfl⟩
    · rintro ⟨hread, rfl⟩
      exact ⟨_, (readPath_pathOf_iff whole h hlen).2 ⟨hread, rfl⟩, rfl⟩
  | array elem ih =>
    have hlen : elem.code.length < 2 ^ 63 := by
      simp only [ParameterType.code, List.length_append] at hfits
      omega
    rw [ParameterType.code, List.append_assoc, List.append_assoc, List.singleton_append, readParameter_array,
      bind_eq_ok_iff, ParameterType.text]
    constructor
    · rintro ⟨⟨text, rest⟩, helem, heq⟩
      split_ifs at heq with hhead
      · obtain ⟨htext, rfl⟩ := Prod.mk.inj (Except.ok.inj heq)
        obtain rfl : text = elem.text := (List.cons.inj htext).2
        obtain ⟨hread, rfl⟩ := (ih h hlen).1 helem
        exact ⟨hread, rfl⟩
      · exact absurd heq (by simp [errorAt])
    · rintro ⟨hread, rfl⟩
      exact ⟨_, (ih h hlen).2 ⟨hread, rfl⟩, rfl⟩

theorem readParametersFrom_of_ne_nil (whole : Text) (h : t ≠ []) :
    readParametersFrom whole t = bare (readParameter whole t) >>= fun x =>
      (x.1 :: ·) <$> readParametersFrom whole x.2 := by
  obtain ⟨c, t, rfl⟩ := List.exists_cons_of_ne_nil h
  rw [readParametersFrom]
  rcases readParameter whole (c :: t) with e | ⟨param, ⟨rest, h⟩⟩
  · rfl
  · simp only [bind, Except.bind, bare, Except.map]
    cases readParametersFrom whole rest <;> rfl

theorem code_ne_nil (ty : ParameterType) : ty.code ≠ [] := by
  cases ty <;> simp [ParameterType.code, classStart, arrayStart]

theorem readParametersFrom_flatMap_iff (whole : Text) (h : ∀ ty ∈ types, ∀ name ∈ ty.className, HasPath name)
    (hfits : (types.flatMap code).length < 2 ^ 63) :
    readParametersFrom whole (types.flatMap code) = .ok (types.map text) ↔
      ∀ ty ∈ types, ∀ name ∈ ty.className, ReadablePath name := by
  induction types with
  | nil => simp [readParametersFrom]
  | cons ty types ih =>
    rw [List.forall_mem_cons] at h ⊢
    rw [List.flatMap_cons] at hfits ⊢
    rw [List.length_append] at hfits
    rw [readParametersFrom_of_ne_nil whole (List.append_ne_nil_of_left_ne_nil (code_ne_nil ty) _), bind_eq_ok_iff]
    constructor
    · rintro ⟨⟨param, rest⟩, hparam, hrest⟩
      obtain ⟨params, hparams, heq⟩ := map_eq_ok_iff.1 hrest
      obtain ⟨rfl, rfl⟩ := List.cons.inj heq
      obtain ⟨hread, rfl⟩ := (readParameter_code_iff whole h.1 (by omega)).1 hparam
      exact ⟨hread, (ih h.2 (by omega)).1 hparams⟩
    · rintro ⟨hread, hreads⟩
      refine ⟨_, (readParameter_code_iff whole h.1 (by omega)).2 ⟨hread, rfl⟩, ?_⟩
      rw [(ih h.2 (by omega)).2 hreads]
      rfl

theorem head?_code_append_ne (ty : ParameterType) (t : Text) : (ty.code ++ t).head? ≠ some 0x76 := by
  cases ty with
  | primitive p =>
    rw [ParameterType.code, List.singleton_append, List.head?_cons, Ne, Option.some.injEq]
    cases p <;> decide
  | cls name => exact fun h => absurd (Option.some.inj h) (by decide)
  | array elem => exact fun h => absurd (Option.some.inj h) (by decide)

theorem flatMap_code_ne : types.flatMap code ≠ ("v" : Text) := by
  cases types with
  | nil => decide
  | cons ty types => exact fun h => head?_code_append_ne ty _ (congrArg List.head? h)

theorem codes_ne_nil (types : List ParameterType) : codes types ≠ [] := by
  rw [codes]
  split_ifs with h
  · decide
  · obtain ⟨ty, types, rfl⟩ := List.exists_cons_of_ne_nil h
    exact List.append_ne_nil_of_left_ne_nil (code_ne_nil ty) _

theorem readParameters_codes_iff (whole : Text) (h : ∀ ty ∈ types, ∀ name ∈ ty.className, HasPath name)
    (hfits : (codes types).length < 2 ^ 63) :
    readParameters whole (codes types) = .ok (types.map text) ↔
      ∀ ty ∈ types, ∀ name ∈ ty.className, ReadablePath name := by
  by_cases hnil : types = []
  · subst hnil
    simp [readParameters, codes]
  · rw [codes, if_neg hnil] at hfits ⊢
    rw [readParameters, if_neg flatMap_code_ne]
    exact readParametersFrom_flatMap_iff whole h hfits

end ClassAbi.LinkerName
