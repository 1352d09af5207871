import ClassAbi.Module.Basic
import ClassAbi.Module.Symbol
import ClassAbi.Proofs.Text.Numeral
import ClassAbi.Proofs.Text.Parts

/-!
# Lines of a module

What the bytes of a line say, for a reader that knows nothing of instructions: the registers that the line names before its
comment, and which of them it assigns. The line of an instruction assigns its temporary and uses its operands
(`registers_line`), and the text of a routine is its head, its instructions and its end, a line each (`split_text`).
-/

namespace ClassAbi.Module

open Ascii

/-- The registers that a line names before its comment, in their order. -/
def registers : Text → List Text
  | [] => []
  | b :: rest =>
    if b = semicolon then []
    else if b = 0x25 then rest.takeWhile isNameByte :: registers rest
    else registers rest

def isAssignment (line : Text) : Bool := line.startsWith "  %"

def assigned (line : Text) : List Text := if isAssignment line then (registers line).take 1 else []

def used (line : Text) : List Text := if isAssignment line then (registers line).drop 1 else registers line

/-! ### Texts without registers -/

/-- Whether a text has no byte that begins a register or a comment or ends a line. -/
def isQuiet (t : Text) : Bool := t.all fun b => b != 0x25 && b != semicolon && b != newline

variable {s t : Text} {v : Operand} {i : Instruction}

/-- Whether a text has only bytes that need no quotes in a name. -/
def IsWord (t : Text) : Prop := ∀ b ∈ t, isNameByte b = true

instance : DecidablePred IsWord := fun _ => decidable_of_iff _ List.all_eq_true

theorem isWord_append : IsWord (s ++ t) ↔ IsWord s ∧ IsWord t := List.forall_mem_append

/-- Whether no byte at the start of a text can belong to a name before it. -/
def breaks (t : Text) : Bool := !t.head?.any isNameByte

theorem isQuiet_append : isQuiet (s ++ t) = (isQuiet s && isQuiet t) := List.all_append

theorem newline_not_mem (h : isQuiet t = true) : newline ∉ t := by
  intro hmem
  have := List.all_eq_true.1 h newline hmem
  simp at this

theorem registers_append (h : isQuiet s = true) (t : Text) : registers (s ++ t) = registers t := by
  induction s with
  | nil => rfl
  | cons b s ih =>
    simp only [isQuiet, List.all_cons, Bool.and_eq_true, bne_iff_ne] at h
    rw [List.cons_append, registers, if_neg h.1.1.2, if_neg h.1.1.1, ih h.2]

theorem IsWord.isQuiet (h : IsWord t) : isQuiet t = true := by
  refine List.all_eq_true.2 fun b hb => ?_
  have hname := h b hb
  simp only [Bool.and_eq_true, bne_iff_ne]
  refine ⟨⟨?_, ?_⟩, ?_⟩ <;> rintro rfl <;> exact absurd hname (by decide)

theorem isNameByte_of_isDigit {b : UInt8} (h : isDigit b = true) : isNameByte b = true := by
  simp only [isDigit, isNameByte] at h ⊢
  simp [h]

theorem isWord_ofNat (n : Nat) : IsWord (Text.ofNat n) := fun _ hb => isNameByte_of_isDigit (Text.isDigit_of_mem_ofNat hb)

theorem isWord_ofInt (v : Int) : IsWord (Text.ofInt v) := by
  cases v with
  | ofNat n => exact isWord_ofNat n
  | negSucc n => exact List.forall_mem_cons.2 ⟨by decide, isWord_ofNat (n + 1)⟩

theorem isQuiet_ofIntScientific (v : Int) : isQuiet (Text.ofIntScientific v) = true := by
  have hfill : ∀ width n, isQuiet (Text.zeroFill width (Text.ofNat n)) = true := by
    intro width n
    rw [Text.zeroFill, isQuiet_append, (isWord_ofNat n).isQuiet, Bool.and_true]
    exact List.all_eq_true.2 fun b hb => by rw [List.eq_of_mem_replicate hb]; decide
  have hpart : ∀ {s t : Text}, s.Sublist t → isQuiet t = true → isQuiet s = true := fun hsub ht =>
    List.all_eq_true.2 fun b hb => List.all_eq_true.1 ht b (hsub.mem hb)
  rw [Text.ofIntScientific]
  simp only [isQuiet_append, hfill, hpart (List.take_sublist _ _) (hfill _ _), hpart (List.drop_sublist _ _) (hfill _ _)]
  rw [Text.onlyIf]
  split_ifs <;> decide

mutual

theorem Ty.isQuiet_text : ∀ type : Ty, isQuiet type.text = true
  | void | float | double | ptr | packed [] => by decide
  | int bits => by
    rw [text, isQuiet_append, (isWord_ofInt bits).isQuiet]
    decide
  | array count elem => by
    simp only [text, isQuiet_append, (isWord_ofInt count).isQuiet, elem.isQuiet_text]
    decide
  | packed (part :: parts) => by
    simp only [text, isQuiet_append, part.isQuiet_text, isQuiet_texts parts]
    decide

theorem Ty.isQuiet_texts : ∀ parts : List Ty, isQuiet (text.texts parts) = true
  | [] => rfl
  | part :: parts => by
    simp only [text.texts, isQuiet_append, part.isQuiet_text, isQuiet_texts parts]
    decide

end

theorem Const.isQuiet_wordText (mode : Mode) (v bits : Int) : isQuiet (wordText mode v bits) = true := by
  have hint : ∀ v : Int, isQuiet (Text.ofInt v) = true := fun v => (isWord_ofInt v).isQuiet
  unfold wordText
  split
  · split_ifs
    · decide
    · simp only [isQuiet_append, hint]
      decide
  · exact isQuiet_ofIntScientific v
  · exact isQuiet_ofIntScientific v
  · split_ifs <;> decide
  · exact hint v

theorem Const.isQuiet_zeroText (mode : Mode) : isQuiet (zeroText mode) = true := by
  cases mode <;> decide

theorem isQuiet_symbol (target : Target) {e : Entity} (h : IsWord e.label) : isQuiet (symbol target e) = true := by
  have hbyte : ∀ c, isNameByte c = true → escapeByte c = [c] := by decide +kernel
  have hquoted : isQuiet (e.label.flatMap escapeByte) = true := by
    rw [List.flatMap_congr fun c hc => hbyte c (h c hc)]
    simpa using h.isQuiet
  unfold symbol
  dsimp only
  split_ifs
  · simp only [isQuiet_append, h.isQuiet]
    decide
  · simp only [isQuiet_append, h.isQuiet]
    decide
  · simp only [isQuiet_append, hquoted]
    decide

/-! ### Operands and instructions -/

/-- Whether a text has no line break, and names registers. -/
structure Names (t : Text) (rs : List Text) : Prop where
  newline : newline ∉ t
  registers : registers t = rs

/-- The register that an operand names. -/
def Operand.register : Operand → List Text
  | const _ => []
  | param index => ["p" ++ Text.ofInt index]
  | temp number => ["t" ++ Text.ofNat number]

/-- Whether an operand names nothing but its register. -/
def Operand.isPlain : Operand → Bool
  | const value => isQuiet value.text
  | param _ | temp _ => true

theorem Names.after {rs : List Text} (h : Names t rs) (hs : isQuiet s = true) : Names (s ++ t) rs :=
  ⟨by simpa using ⟨newline_not_mem hs, h.newline⟩, (registers_append hs t).trans h.registers⟩

theorem names_nil : Names [] [] := ⟨by simp, rfl⟩

theorem names_of_isQuiet (h : isQuiet t = true) : Names t [] := by simpa using names_nil.after h

theorem names_comment (h : newline ∉ t) : Names (semicolon :: t) [] := ⟨by simpa using ⟨by decide, h⟩, rfl⟩

theorem Names.operand {rs : List Text} (h : Names t rs) (hv : v.isPlain = true) (ht : breaks t = true) :
    Names (v.text ++ t) (v.register ++ rs) := by
  have hregister : ∀ name : Text, IsWord name → Names (0x25 :: (name ++ t)) (name :: rs) := by
    intro name hname
    have hafter := h.after (hname.isQuiet)
    refine ⟨by simpa using ⟨by decide, by simpa using hafter.newline⟩, ?_⟩
    rw [Module.registers, if_neg (by decide), if_pos rfl, hafter.registers, Text.takeWhile_run hname]
    intro b hb
    simpa [breaks, hb] using ht
  cases v with
  | const value => exact h.after hv
  | param index => exact hregister ("p" ++ Text.ofInt index) (List.forall_mem_cons.2 ⟨by decide, isWord_ofInt index⟩)
  | temp number => exact hregister ("t" ++ Text.ofNat number) (List.forall_mem_cons.2 ⟨by decide, isWord_ofNat number⟩)

/-- The registers in a list, each item of which names some. -/
theorem Names.join {α : Type} {as : List α} {rs : List Text} (item : α → Text) (names : α → List Text)
    (hitem : ∀ a ∈ as, ∀ u qs, Names u qs → breaks u = true → Names (item a ++ u) (names a ++ qs)) (h : Names t rs)
    (ht : breaks t = true) : Names (Text.join ", " (as.map item) ++ t) (as.flatMap names ++ rs) := by
  have hrest : ∀ as : List α, (∀ a ∈ as, ∀ u qs, Names u qs → breaks u = true → Names (item a ++ u) (names a ++ qs)) →
      breaks (((as.map item).map ((", " : Text) ++ ·)).flatten ++ t) = true ∧
        Names (((as.map item).map ((", " : Text) ++ ·)).flatten ++ t) (as.flatMap names ++ rs) := by
    intro as hitem
    induction as with
    | nil => exact ⟨ht, h⟩
    | cons a as ih =>
      rw [List.forall_mem_cons] at hitem
      obtain ⟨hbreaks, hnames⟩ := ih hitem.2
      simp only [List.map_cons, List.flatten_cons, List.flatMap_cons, List.append_assoc]
      exact ⟨rfl, (hitem.1 _ _ hnames hbreaks).after (by decide)⟩
  cases as with
  | nil => exact h
  | cons a as =>
    rw [List.forall_mem_cons] at hitem
    obtain ⟨hbreaks, hnames⟩ := hrest as hitem.2
    rw [List.map_cons, Text.join, List.append_assoc, List.flatMap_cons, List.append_assoc]
    exact hitem.1 _ _ hnames hbreaks

namespace Instruction

/-- The operands that stand in the line of an instruction, those in its comment included. -/
def written : Instruction → List Operand
  | remark object _ => [object]
  | i => i.operands

/-- The register that an instruction assigns. -/
def assigns (i : Instruction) : List Text := i.dest?.toList.map fun t => "t" ++ Text.ofNat t

/-- The registers that an instruction uses. -/
def uses (i : Instruction) : List Text := i.operands.flatMap Operand.register

/-- Whether the names that an instruction takes from elsewhere fit into a line. -/
def Tidy : Instruction → Prop
  | member _ _ _ _ name => newline ∉ name
  | remark _ cls => newline ∉ cls
  | compare _ predicate .. => isQuiet predicate = true
  | _ => True

theorem names_typed (type : Ty) {rs : List Text} (h : Names t rs) (hv : v.isPlain = true) (ht : breaks t = true) :
    Names (typed type v ++ t) (v.register ++ rs) := by
  simp only [typed, List.append_assoc]
  exact ((h.operand hv ht).after (by decide)).after type.isQuiet_text

theorem names_action (hplain : ∀ v ∈ i.written, v.isPlain = true) (htidy : i.Tidy) :
    Names i.action i.uses := by
  have hlast : ∀ v : Operand, v.isPlain = true → Names v.text v.register := fun v hv => by simpa using names_nil.operand hv rfl
  have htyped : ∀ type (v : Operand), v.isPlain = true → Names (typed type v) v.register := fun type v hv => by
    simpa using names_typed type names_nil hv rfl
  cases i with simp only [written, operands, List.forall_mem_cons, List.forall_mem_map, Tidy] at hplain htidy
  | shift dest base type offset =>
    simpa [action, uses, operands] using (names_typed _ ((htyped type offset hplain.2.1).after (by decide)) hplain.1 rfl).after (by decide)
  | add dest type left right =>
    simpa [action, uses, operands] using (names_typed _ ((hlast right hplain.2.1).after (by decide)) hplain.1 rfl).after (by decide)
  | call dest result callee args =>
    have hargs := (names_of_isQuiet (t := ")") (by decide)).join (fun a => typed a.1 a.2) (fun a => a.2.register)
      (fun a ha _ _ hu => names_typed a.1 hu (hplain.2 a ha)) rfl
    simpa [action, uses, operands, List.flatMap_map] using (names_typed result (hargs.after (s := "(") (by decide)) hplain.1 rfl).after (by decide)
  | load dest type addr =>
    simpa [action, uses, operands] using (((htyped .ptr addr hplain.1).after (by decide)).after type.isQuiet_text).after (by decide)
  | store type value addr =>
    simpa [action, uses, operands] using (names_typed _ ((htyped .ptr addr hplain.2.1).after (by decide)) hplain.1 rfl).after (by decide)
  | alloc dest count elem => exact (names_of_isQuiet (Ty.isQuiet_text _)).after (by decide)
  | member dest base bits offset name =>
    have hcomment : Names (" ; " ++ name) [] := 
      (names_comment (t := " " ++ name) (by simpa using ⟨by decide, htidy⟩)).after (s := " ") (by decide)
    have hoffset := (hcomment.after ((isWord_ofInt offset).isQuiet)).after (s := " ") (by decide)
    simpa [action, uses, operands] using (names_typed _ ((hoffset.after (Ty.int bits).isQuiet_text).after (by decide)) hplain.1 rfl).after (by decide)
  | element dest elem base type index =>
    simpa [action, uses, operands] using
      (((names_typed _ ((htyped type index hplain.2.1).after (by decide)) hplain.1 rfl).after (by decide)).after elem.isQuiet_text).after
        (by decide)
  | compare dest predicate type left right =>
    simpa [action, uses, operands] using
      (((names_typed _ ((hlast right hplain.2.1).after (by decide)) hplain.1 rfl).after (by decide)).after htidy).after (by decide)
  | convert dest conversion source value result =>
    have hkeyword : isQuiet conversion.keyword = true := by cases conversion <;> decide
    simpa [action, uses, operands] using
      ((names_typed _ ((names_of_isQuiet result.isQuiet_text).after (by decide)) hplain.1 rfl).after (by decide)).after hkeyword
  | remark object cls =>
    have hobject : newline ∉ (" " ++ object.text ++ " has the vtable of " ++ cls : Text) := by
      simpa using ⟨by decide, (hlast object hplain.1).newline, by decide, htidy⟩
    exact names_comment hobject
  | ret result => 
    rcases result with _ | ⟨type, value⟩
    · exact names_of_isQuiet (by decide)
    · simp only [List.forall_mem_cons] at hplain
      simpa [action, uses, operands] using (htyped type value hplain.1).after (by decide)

/-- The line of an instruction assigns its temporary and uses its operands. -/
theorem names_line (hplain : ∀ v ∈ i.written, v.isPlain = true) (htidy : i.Tidy) :
    Names i.line (i.assigns ++ i.uses) := by
  have haction := names_action hplain htidy
  cases hdest : i.dest? with
  | none =>
    rw [line, assigns, hdest]
    exact haction.after (by decide)
  | some t =>
    rw [line, assigns, hdest]
    have htemp := (haction.after (s := " = ") (by decide)).operand (v := .temp t) rfl rfl
    simpa [Operand.text, Operand.register] using htemp.after (s := "  ") (by decide)

theorem isAssignment_line (i : Instruction) : isAssignment i.line = i.dest?.isSome := by
  cases hdest : i.dest? with
  | some t =>
    rw [line, hdest]
    rfl
  | none =>
    rw [line, hdest]
    cases i <;> cases hdest
    case none.ret.refl result => cases result <;> rfl
    all_goals rfl

theorem assigned_line (hplain : ∀ v ∈ i.written, v.isPlain = true) (htidy : i.Tidy) :
    assigned i.line = i.assigns := by
  rw [assigned, isAssignment_line, (names_line hplain htidy).registers, assigns]
  cases i.dest? <;> rfl

theorem used_line (hplain : ∀ v ∈ i.written, v.isPlain = true) (htidy : i.Tidy) :
    used i.line = i.uses := by
  rw [used, isAssignment_line, (names_line hplain htidy).registers, assigns]
  cases i.dest? <;> rfl

theorem mem_written (h : v ∈ i.operands) : v ∈ i.written := by
  cases i with
  | remark _ _ => cases h
  | _ => exact h

/-- What an instruction assigns is not the result of a store, nor that of a call without a result. -/
theorem exists_action {r : Text} (hcall : ∀ dest result callee args, i = .call dest result callee args → (dest = none ↔ result = .void))
    (hr : r ∈ i.assigns) : ∃ action, i.line = "  %" ++ r ++ " = " ++ action ∧ action.startsWith "store " = false ∧
      action.startsWith "call void " = false := by
  obtain ⟨t, ht, rfl⟩ := List.mem_map.1 hr
  have hdest : i.dest? = some t := Option.mem_toList.1 ht
  refine ⟨i.action, by rw [line, hdest]; rfl, ?_⟩
  cases i with
  | store _ _ _ | remark _ _ | ret _ => cases hdest
  | convert _ conversion _ _ _ => cases conversion <;> exact ⟨rfl, rfl⟩
  | call dest result callee args =>
    cases hdest
    cases result with
    | void => cases (hcall _ _ _ _ rfl).2 rfl
    | packed parts => cases parts <;> exact ⟨rfl, rfl⟩
    | _ => exact ⟨rfl, rfl⟩
  | _ => exact ⟨rfl, rfl⟩

theorem startsWith_ret (h : ∀ r, i ≠ .ret r) : i.line.startsWith "  ret " = false := by
  cases i with
  | ret r => exact absurd rfl (h r)
  | call dest _ _ _ => cases dest <;> rfl
  | _ => rfl

end Instruction

/-! ### Routines -/

namespace Definition

variable {d : Definition}

theorem names_head (hsymbol : isQuiet d.symbol = true) :
    Names d.head ((List.range d.params.length).map fun i => "p" ++ Text.ofNat i) := by
  have hitem : ∀ (x : Ty × Nat) u qs, Names u qs → breaks u = true →
      Names (x.1.text ++ " %p" ++ Text.ofNat x.2 ++ u) (["p" ++ Text.ofNat x.2] ++ qs) := by
    intro x u qs hu hbreaks
    rw [List.append_assoc, List.append_assoc]
    exact ((hu.operand (v := .param x.2) rfl hbreaks).after (s := " ") (by decide)).after x.1.isQuiet_text
  have hparams := ((names_of_isQuiet (t := ") \x7b") (by decide)).join _ _ (fun x (_ : x ∈ d.params.zipIdx) => hitem x) rfl).after
    (s := "(") (by decide)
  have hprivate : isQuiet (Text.onlyIf d.isPrivate "private ") = true := by cases d.isPrivate <;> decide
  have hhead := ((((hparams.after hsymbol).after (s := " ") (by decide)).after d.result.isQuiet_text).after hprivate).after
    (s := "define ") (by decide)
  rw [List.append_nil, ← List.map_eq_flatMap, show (fun x : Ty × Nat => ("p" ++ Text.ofNat x.2 : Text)) = (fun i => "p" ++ Text.ofNat i) ∘ Prod.snd
    from rfl, ← List.map_map, List.zipIdx_map_snd, ← List.range_eq_range'] at hhead
  simpa [head] using hhead

theorem split_text (hhead : newline ∉ d.head) (hbody : ∀ i ∈ d.body, newline ∉ i.line) :
    Text.split newline d.text = d.head :: "entry:" :: (d.body.map Instruction.line ++ [("\x7d" : Text), [], []]) := by
  have hlines : ∀ body : List Instruction, (∀ i ∈ body, newline ∉ i.line) → ∀ t,
      Text.split newline (body.flatMap Instruction.text ++ t) = body.map Instruction.line ++ Text.split newline t := by
    intro body hbody t
    induction body with
    | nil => rfl
    | cons i body ih =>
      rw [List.forall_mem_cons] at hbody
      rw [List.flatMap_cons, Instruction.text, List.append_assoc, List.append_assoc, List.map_cons, List.cons_append, ← ih hbody.2]
      exact Text.split_append_sep hbody.1 _
  have htext : d.text = d.head ++ newline :: ("entry:" ++ newline :: (d.body.flatMap Instruction.text ++ "\x7d\n\n")) := by
    rw [text, List.append_assoc, List.append_assoc]
    rfl
  rw [htext, Text.split_append_sep hhead, Text.split_append_sep (by decide), hlines d.body hbody]
  rfl

end Definition

end ClassAbi.Module
