import ClassAbi.Class.Declare
import ClassAbi.Proofs.Abi.Inventory
import ClassAbi.Proofs.Text.Numeral

/-!
# The pool during a session

Constants are numbered on from the names that the program has made with their tag. As long as nothing else has such a linker
name, the next name is always free: a start makes names that end in a letter, and the tables of a session have tags of their
own. So every text that is not too long gets one constant, and `Abi.PoolSound` ties the pool, the list of the constants, the
linker names and the counter together, whatever is asked of the session and whether or not it succeeds.
-/

namespace ClassAbi.Abi

open Ascii Workspace

def constantName (k : Nat) : Text := ("_Utf8" : Text) ++ "." ++ Text.ofNat k

def poolText? : Init → Option Text
  | .compound [_, _, .compound bytes] => bytes.dropLast.mapM fun
    | .word .uint8 value => some (UInt8.ofNat value.toNat)
    | _ => none
  | _ => none

variable {w w' w0 : Workspace} {s s' : Session} {n k : Nat}

/-! ### Names and contents -/

theorem constantName_injective : Function.Injective constantName := by
  intro j k h
  have hdigits : Text.ofNat j = Text.ofNat k := List.append_cancel_left h
  exact Text.ofNat_injective hdigits

theorem constantName_ne_nil (k : Nat) : constantName k ≠ [] := by
  simp [constantName, show (Text.ofString "_Utf8") ≠ [] by decide]

theorem prefix_constantName (k : Nat) : ("_Utf8." : Text) <+: constantName k := ⟨Text.ofNat k, rfl⟩

theorem uniqueName_eq (p : Program) : (p.uniqueName "_Utf8").1 = constantName (p.made.getD "_Utf8" 0) := rfl

theorem getLast?_constantName (k : Nat) : ∃ b, (constantName k).getLast? = some b ∧ isDigit b = true := by
  have hne : Text.ofNat k ≠ [] := Text.ofNatIn_ne_nil 10 k
  refine ⟨(Text.ofNat k).getLast hne, ?_, Text.isDigit_of_mem_ofNat (List.getLast_mem hne)⟩
  rw [constantName, List.getLast?_append, List.getLast?_eq_some_getLast hne, Option.some_or]

/-- A name that does not end in a digit is not that of a constant, however it is decorated. -/
theorem decorate_ne_constantName (target : Target) {name : Text} {b : UInt8} (hlast : name.getLast? = some b)
    (hb : isDigit b = false) (k : Nat) : target.decorate name ≠ constantName k := by
  intro h
  obtain ⟨d, hd, hdigit⟩ := getLast?_constantName k
  rw [← h, Target.decorate, List.getLast?_append, hlast, Option.some_or] at hd
  cases hd
  exact absurd (hb.symm.trans hdigit) (by decide)

theorem table_ne_constantName {Spelled : Text → EntityId → Prop} {tag : Text} {elem : TypeId} {values : List Init}
    (h : IsTable w Spelled tag elem values) (j k : Nat) : tag ++ "." ++ Text.ofNat j ≠ constantName k := by
  intro heq
  have hsecond := congrArg (fun t : Text => t[1]?) heq
  cases h with
  | methods _ _ => exact absurd (show some (0x4D : UInt8) = some 0x55 from hsecond) (by decide)
  | fields _ _ => exact absurd (show some (0x46 : UInt8) = some 0x55 from hsecond) (by decide)
  | interfaces _ => exact absurd (show some (0x49 : UInt8) = some 0x55 from hsecond) (by decide)

theorem poolText?_poolInit (text : Text) : poolText? (poolInit text) = some text := by
  rw [poolInit, poolText?, List.dropLast_concat]
  induction text with
  | nil => rfl
  | cons b text ih =>
    rw [List.map_cons, List.mapM_cons, ih]
    simp

/-! ### The start of a session -/

theorem getLast?_of_isRuntimeName {name : Text} (h : IsRuntimeName name) :
    ∃ b, name.getLast? = some b ∧ isDigit b = false := by
  rcases h with ⟨h, rfl⟩ | ⟨p, rfl⟩
  · cases h <;> exact ⟨_, rfl, rfl⟩
  · cases p <;> exact ⟨_, rfl, rfl⟩

theorem getLast?_of_linkerName {cls : Class} {part : Class.Part} {ld : Text} (hpart : ¬part.IsMember)
    (h : cls.LinkerNameOf part ld) : ld.getLast? = some upperE := by
  cases part with
  | routine i | storage i => exact absurd trivial hpart
  | descriptor =>
    obtain ⟨_, rfl⟩ := LinkerName.ofDescriptor_eq_ok_iff.1 h
    simp
  | vtable =>
    obtain ⟨_, rfl⟩ := LinkerName.ofVtable_eq_ok h
    simp

theorem names_of_making (h : Making (¬·.IsMember) w w') :
    w'.program.made = w.program.made ∧
      ∀ k, w'.program.lookup (constantName k) = w.program.lookup (constantName k) := by
  cases h with
  | type shape => exact ⟨rfl, fun _ => rfl⟩
  | layouts layouts => exact ⟨rfl, fun _ => rfl⟩
  | runtime t hname _ =>
    obtain ⟨b, hlast, hb⟩ := getLast?_of_isRuntimeName hname
    exact ⟨rfl, fun k => Program.lookup_push_of_ne (decorate_ne_constantName _ hlast hb k)⟩
  | part hown _ _ _ hmade _ _ _ =>
    obtain ⟨ld, hname, hld⟩ := hmade.ld
    refine ⟨rfl, fun k => Program.lookup_push_of_ne ?_⟩
    rw [hld]
    exact decorate_ne_constantName _ (getLast?_of_linkerName hown hname) rfl k

theorem names_of_start {registers : Bool} (hstart : Finishes (start registers) w () w0) :
    w0.program.made = w.program.made ∧
      ∀ k, w0.program.lookup (constantName k) = w.program.lookup (constantName k) := by
  obtain ⟨v, s, ⟨hmakings, -⟩, rfl, -⟩ := makes_of_start hstart
  refine keep_along (P := fun v => v.program.made = w.program.made ∧
    ∀ k, v.program.lookup (constantName k) = w.program.lookup (constantName k)) (fun u v hu huv => ?_) hmakings ⟨rfl, fun _ => rfl⟩
  obtain ⟨hmade, hlookup⟩ := names_of_making huv
  exact ⟨hmade.trans hu.1, fun k => (hlookup k).trans (hu.2 k)⟩

/-! ### The invariant -/

/-- Whether a program has the entity of a constant under a linker name, with the text as its content. -/
structure IsConstant (p : Program) (c : PoolConstant) (ld : Text) : Prop where
  hash : c.hash = nameHash c.text
  found : p.lookup ld = some c.entity
  entity : ∃ ent, p.entity? c.entity = some ent ∧ ent.ld = ld ∧ ent.visibility = .hidden ∧ ent.linkage.constant = true ∧
    ent.init = some (.compound [.word .uint16 (nameHash c.text).toNat, .word .uint16 c.text.length,
      .compound (c.text.map (fun b => .word .uint8 b.toNat) ++ [.word .uint8 0])])

/-- Whether the pool of the open session `s` and the program agree, in a session that was started in `w0`, when constants
are numbered from `n` on. -/
structure PoolSound (w0 : Workspace) (n : Nat) (w : Workspace) (s : Session) : Prop where
  session : w.session = some s
  opened : s.closed = false
  registry_eq : w.registry = w0.registry
  size_le : w0.program.entities.size ≤ w.program.entities.size
  counter : w.program.made.getD "_Utf8" 0 = n + s.constants.size
  names : ∀ j e, w.program.lookup (constantName j) = some e → j < n + s.constants.size
  constant : ∀ k c, s.constants[k]? = some c → IsConstant w.program c (constantName (n + k))
  -- Descriptors and vtables, which get other content, come before all constants.
  later : ∀ c ∈ s.constants, w0.program.entities.size ≤ c.entity
  short : ∀ c ∈ s.constants, c.text.length ≤ 0xFFFF
  pooled : ∀ text c, s.pool[text]? = some c ↔ c ∈ s.constants ∧ c.text = text

theorem PoolSound.unused (h : PoolSound w0 n w s) : w.program.Unused (w.program.uniqueName "_Utf8").1 := by
  right
  rw [uniqueName_eq, h.counter]
  cases hlookup : w.program.lookup (constantName (n + s.constants.size)) with
  | none => rfl
  | some e => exact absurd (h.names _ e hlookup) (Nat.lt_irrefl _)

theorem PoolSound.index_eq (h : PoolSound w0 n w s) {j k : Nat} {c d : PoolConstant} (hc : s.constants[j]? = some c)
    (hd : s.constants[k]? = some d) (he : c.entity = d.entity) : j = k := by
  obtain ⟨ent, hent, hld, -⟩ := (h.constant j c hc).entity
  obtain ⟨ent', hent', hld', -⟩ := (h.constant k d hd).entity
  rw [he, hent'] at hent
  cases hent
  exact Nat.add_left_cancel (constantName_injective (hld.symm.trans hld'))

theorem poolSound_of_start {registers : Bool} (hclean : ∀ ld e, w.program.lookup ld = some e → ¬("_Utf8." : Text) <+: ld)
    (hstart : Finishes (start registers) w () w0) : ∃ s, PoolSound w0 (w.program.made.getD "_Utf8" 0) w0 s := by
  obtain ⟨-, -, s, hbegun⟩ := begun_of_start w.linked_empty hstart
  obtain ⟨hmade, hlookup⟩ := names_of_start hstart
  refine ⟨s, hbegun.session, hbegun.opened, rfl, le_rfl, ?_, ?_, ?_, ?_, ?_, ?_⟩
  · rw [hmade, hbegun.constants]
    rfl
  · intro j e he
    rw [hlookup] at he
    exact absurd (prefix_constantName j) (hclean _ e he)
  all_goals simp [hbegun.constants, hbegun.pool]

/-! ### One change -/

theorem PoolSound.keep (h : PoolSound w0 n w s) (hsession : w'.session = some s') (hclosed : s'.closed = s.closed)
    (hpool : s'.pool = s.pool) (hconstants : s'.constants = s.constants) (hregistry : w'.registry = w.registry)
    (hsize : w.program.entities.size ≤ w'.program.entities.size)
    (hmade : w'.program.made.getD "_Utf8" 0 = w.program.made.getD "_Utf8" 0)
    (hlookup : ∀ j, w'.program.lookup (constantName j) = w.program.lookup (constantName j))
    (hentities : ∀ e ent, w0.program.entities.size ≤ e → w.program.entity? e = some ent →
      ∃ ent', w'.program.entity? e = some ent' ∧ ent'.ld = ent.ld ∧ ent'.visibility = ent.visibility ∧
        ent'.linkage = ent.linkage ∧ ent'.init = ent.init) :
    PoolSound w0 n w' s' := by
  refine ⟨hsession, hclosed.trans h.opened, hregistry.trans h.registry_eq, h.size_le.trans hsize, ?_, ?_, ?_, ?_, ?_, ?_⟩
  · rw [hmade, h.counter, hconstants]
  · intro j e he
    rw [hlookup] at he
    rw [hconstants]
    exact h.names j e he
  · intro k c hc
    rw [hconstants] at hc
    have hconstant := h.constant k c hc
    obtain ⟨ent, hent, hld, hvisibility, hlinkage, hinit⟩ := hconstant.entity
    obtain ⟨ent', hent', hld', hvisibility', hlinkage', hinit'⟩ :=
      hentities c.entity ent (h.later c (Array.mem_of_getElem? hc)) hent
    refine ⟨hconstant.hash, (hlookup _).trans hconstant.found, ent', hent', hld'.trans hld, hvisibility'.trans hvisibility, ?_,
      hinit'.trans hinit⟩
    rw [hlinkage', hlinkage]
  · rw [hconstants]
    exact h.later
  · rw [hconstants]
    exact h.short
  · rw [hconstants, hpool]
    exact h.pooled

theorem PoolSound.push (h : PoolSound w0 n w s) {p : Program} {ent : Entity} (hentities : p.entities = w.program.entities)
    (hbyName : p.byName = w.program.byName) (hmade : p.made.getD "_Utf8" 0 = w.program.made.getD "_Utf8" 0)
    (hname : ∀ j, ent.ld ≠ constantName j) : PoolSound w0 n { w with program := p.push ent } s := by
  have hlookup : ∀ ld, p.lookup ld = w.program.lookup ld := fun ld => by rw [Program.lookup, Program.lookup, hbyName]
  refine h.keep h.session rfl rfl rfl rfl ?_ hmade (fun j => ?_) fun e ent' _ he => ⟨ent', ?_, rfl, rfl, rfl, rfl⟩
  · show w.program.entities.size ≤ (p.entities.push ent).size
    rw [hentities, Array.size_push]
    exact Nat.le_succ _
  · exact (Program.lookup_push_of_ne (hname j)).trans (hlookup _)
  · refine Program.entity?_push_of_some ?_ ent
    rw [Program.entity?, hentities]
    exact he

theorem PoolSound.modify (h : PoolSound w0 n w s) {x : EntityId} {f : Entity → Entity} (hx : x < w0.program.entities.size)
    (hsession : w'.session = some s') (hclosed : s'.closed = s.closed) (hpool : s'.pool = s.pool)
    (hconstants : s'.constants = s.constants) (hregistry : w'.registry = w.registry)
    (hprogram : w'.program = w.program.modifyEntity x f) : PoolSound w0 n w' s' := by
  refine h.keep hsession hclosed hpool hconstants hregistry ?_ ?_ (fun j => ?_) fun e ent hle he => ⟨ent, ?_, rfl, rfl, rfl, rfl⟩
  · rw [hprogram, Program.modifyEntity, Array.size_modify]
  · rw [hprogram]
    rfl
  · rw [hprogram]
    rfl
  · rw [hprogram, Program.entity?_modifyEntity, if_neg (Nat.lt_of_lt_of_le hx hle).ne, he]

theorem PoolSound.withConstant (h : PoolSound w0 n w s) {text : Text} (hnew : s.pool[text]? = none)
    (hshort : text.length ≤ 0xFFFF) :
    PoolSound w0 n
      { w with
        program := (w.program.uniqueName "_Utf8").2.push
          (constantEntity (w.program.uniqueName "_Utf8").1 s.types.utf8 text)
        session := some (addConstant s text w.program.entities.size) }
      (addConstant s text w.program.entities.size) := by
  have hname : (w.program.uniqueName "_Utf8").1 = constantName (n + s.constants.size) := by rw [uniqueName_eq, h.counter]
  have hsize : (addConstant s text w.program.entities.size).constants.size = s.constants.size + 1 := Array.size_push _
  -- The constants so far, and the new one.
  have hmem : ∀ c, c ∈ (addConstant s text w.program.entities.size).constants →
      c ∈ s.constants ∨ c = ⟨text, nameHash text, w.program.entities.size⟩ := fun c hc => Array.mem_push.1 hc
  rw [hname]
  refine ⟨rfl, h.opened, h.registry_eq, ?_, ?_, ?_, ?_, ?_, ?_, ?_⟩
  · show w0.program.entities.size ≤ (w.program.entities.push _).size
    rw [Array.size_push]
    exact h.size_le.trans (Nat.le_succ _)
  · show (w.program.made.insert (Text.ofString "_Utf8") (w.program.made.getD "_Utf8" 0 + 1)).getD "_Utf8" 0 = _
    rw [Std.HashMap.getD_insert_self, h.counter, hsize, Nat.add_assoc]
  · intro j e he
    rw [hsize]
    by_cases hj : j = n + s.constants.size
    · omega
    · have hold : w.program.lookup (constantName j) = some e := by
        rw [← he]
        exact (Program.lookup_push_of_ne (p := (w.program.uniqueName "_Utf8").2)
          fun heq => hj (constantName_injective heq.symm)).symm
      have hlt := h.names j e hold
      omega
  · intro k c hc
    rcases Nat.lt_or_ge k s.constants.size with hk | hk
    · have hold : s.constants[k]? = some c := by rwa [addConstant, Array.getElem?_push_lt hk, ← Array.getElem?_eq_getElem] at hc
      have hconstant := h.constant k c hold
      obtain ⟨ent, hent, hrest⟩ := hconstant.entity
      refine ⟨hconstant.hash, ?_, ent, Program.entity?_push_of_some hent _, hrest⟩
      refine (Program.lookup_push_of_ne fun heq => ?_).trans hconstant.found
      have := constantName_injective heq
      omega
    · have hk' : k = s.constants.size := by
        have hlt := (Array.getElem?_eq_some_iff.1 hc).1
        omega
      subst hk'
      rw [addConstant, Array.getElem?_push_size] at hc
      cases hc
      have hne : (constantEntity (constantName (n + s.constants.size)) s.types.utf8 text).ld ≠ [] := constantName_ne_nil _
      exact ⟨rfl, Program.lookup_push_new (w.program.uniqueName "_Utf8").2 hne, _, Program.entity?_push_new _ _, rfl, rfl, rfl, rfl⟩
  · intro c hc
    rcases hmem c hc with hold | rfl
    · exact h.later c hold
    · exact h.size_le
  · intro c hc
    rcases hmem c hc with hold | rfl
    · exact h.short c hold
    · exact hshort
  · intro text' c
    have hfresh : ∀ c ∈ s.constants, c.text ≠ text := by
      rintro c hc rfl
      exact absurd ((h.pooled c.text c).2 ⟨hc, rfl⟩) (by simp [hnew])
    rw [addConstant, Std.HashMap.getElem?_insert, Array.mem_push]
    by_cases htext : text = text'
    · subst htext
      simp only [beq_self_eq_true, if_true, Option.some.injEq]
      constructor
      · rintro rfl
        exact ⟨.inr rfl, rfl⟩
      · rintro ⟨hold | rfl, htext⟩
        · exact absurd htext (hfresh c hold)
        · rfl
    · rw [if_neg (by simpa using htext), h.pooled]
      constructor
      · rintro ⟨hold, rfl⟩
        exact ⟨.inl hold, rfl⟩
      · rintro ⟨hold | rfl, htext'⟩
        · exact ⟨hold, htext'⟩
        · exact absurd htext' htext

theorem PoolSound.add (h : PoolSound w0 n w s) (hadd : Addition w w') :
    ∃ s', PoolSound w0 n w' s' ∧ s.constants.toList <+: s'.constants.toList := by
  have hmade : ∀ tag : Text, tag ≠ "_Utf8" →
      (w.program.uniqueName tag).2.made.getD "_Utf8" 0 = w.program.made.getD "_Utf8" 0 := by
    intro tag htag
    show (w.program.made.insert tag _).getD (Text.ofString "_Utf8") 0 = _
    rw [Std.HashMap.getD_insert, if_neg (by simpa using htag)]
  have hsame : ∀ (e : EntityId) (ent : Entity), w.program.entity? e = some ent → ∃ ent', w.program.entity? e = some ent' ∧
      ent'.ld = ent.ld ∧ ent'.visibility = ent.visibility ∧ ent'.linkage = ent.linkage ∧ ent'.init = ent.init :=
    fun _ ent he => ⟨ent, he, rfl, rfl, rfl, rfl⟩
  cases hadd with
  | trace _ | layouts _ | type _ =>
    exact ⟨s, h.keep h.session rfl rfl rfl rfl le_rfl rfl (fun _ => rfl) fun e ent _ => hsame e ent, List.prefix_refl _⟩
  | name tag htag =>
    by_cases htag' : tag = "_Utf8"
    · subst htag'
      exact absurd h.unused (htag rfl)
    · exact ⟨s, h.keep h.session rfl rfl rfl rfl le_rfl (hmade tag htag') (fun _ => rfl) fun e ent _ => hsame e ent,
        List.prefix_refl _⟩
  | @constant s1 text hs _ hnew hshort _ =>
    cases h.session.symm.trans hs
    refine ⟨_, h.withConstant hnew hshort, ?_⟩
    rw [addConstant, Array.toList_push]
    exact List.prefix_append _ _
  | table htable _ hname _ =>
    obtain ⟨j, rfl⟩ := hname
    exact ⟨s, h.push rfl rfl rfl (table_ne_constantName htable j), List.prefix_refl _⟩
  | registration _ _ =>
    exact ⟨s, h.push rfl rfl (hmade "jcr_ptr" (by decide)) fun j => (constantName_ne_nil j).symm, List.prefix_refl _⟩

theorem lt_size_of_own (hlinked : w0.Linked (ownParts w0.registry)) {c : ClassId} {cls : Class} (part : Class.Part)
    {e : EntityId} (hcls : w0.registry.class? c = some cls) (hhas : cls.Has part) (hpart : ¬part.IsMember)
    (he : cls.entityOf part = some e) : e < w0.program.entities.size := by
  obtain ⟨cls', e', ent, hcls', he', hmade⟩ := hlinked.made c part ⟨cls, hcls, hhas, hpart⟩
  cases hcls.symm.trans hcls'
  cases he.symm.trans he'
  exact Program.lt_size_of_entity? hmade.entity

theorem PoolSound.progress (hlinked : w0.Linked (ownParts w0.registry)) (h : PoolSound w0 n w s) (hstep : Progress w w') :
    ∃ s', PoolSound w0 n w' s' ∧ s.constants.toList <+: s'.constants.toList := by
  cases hstep with
  | fill hfill =>
    cases hfill with
    | add hadd => exact h.add hadd
    | vtableType _ hcls hneeds hvt _ =>
      rw [h.registry_eq] at hcls
      have hx := lt_size_of_own hlinked .vtable hcls hneeds id hvt
      exact ⟨s, h.modify hx h.session rfl rfl rfl rfl rfl, List.prefix_refl _⟩
    | @vtable s1 c cls vt slots hs _ hcls hneeds hvt _ _ _ _ =>
      cases h.session.symm.trans hs
      rw [h.registry_eq] at hcls
      have hx := lt_size_of_own hlinked .vtable hcls hneeds id hvt
      exact ⟨_, h.modify hx rfl rfl rfl rfl rfl rfl, List.prefix_refl _⟩
    | @descriptor s1 c cls b hs _ hcls _ _ hdescription =>
      cases h.session.symm.trans hs
      rw [h.registry_eq] at hcls
      have hx := lt_size_of_own hlinked .descriptor hcls trivial id hdescription.entity
      exact ⟨_, h.modify hx rfl rfl rfl rfl rfl rfl, List.prefix_refl _⟩
  | graphs graphs =>
    refine ⟨s, h.keep h.session rfl rfl rfl rfl le_rfl rfl (fun _ => rfl) fun e ent _ he => ?_, List.prefix_refl _⟩
    exact ⟨ent, he, rfl, rfl, rfl, rfl⟩
  | body x g =>
    refine ⟨s, h.keep h.session rfl rfl rfl rfl ?_ rfl (fun _ => rfl) fun e ent _ he => ?_, List.prefix_refl _⟩
    · show w.program.entities.size ≤ (w.program.entities.modify x _).size
      rw [Array.size_modify]
    · rw [Program.entity?_modifyEntity, he]
      split_ifs
      · exact ⟨_, rfl, rfl, rfl, rfl, rfl⟩
      · exact ⟨ent, rfl, rfl, rfl, rfl, rfl⟩

/-! ### All ops -/

/-- Until the session is closed, the pool stays sound, and constants are only added at the end of their list. -/
theorem PoolSound.operate (hlinked : w0.Linked (ownParts w0.registry)) (h : PoolSound w0 n w s) {ops : List Operation}
    (hopen : .close ∉ ops) :
    ∃ s', PoolSound w0 n (operate w ops) s' ∧ s.constants.toList <+: s'.constants.toList := by
  refine keep_along (P := fun v => ∃ s', PoolSound w0 n v s' ∧ s.constants.toList <+: s'.constants.toList)
    (fun u v hu huv => ?_) (progress_of_operate w hopen) ⟨s, h, List.prefix_refl _⟩
  obtain ⟨s1, hsound1, hgrows1⟩ := hu
  obtain ⟨s2, hsound2, hgrows2⟩ := hsound1.progress hlinked huv
  exact ⟨s2, hsound2, hgrows1.trans hgrows2⟩

/-- What is known of the pool of the session `s`, when constants are numbered from `n` on. -/
structure KeepsPool (n : Nat) (w : Workspace) (s : Session) : Prop where
  unique : ∀ text c, s.pool[text]? = some c ↔ c ∈ s.constants ∧ c.text = text
  texts : (s.constants.toList.map PoolConstant.text).Nodup
  entities : (s.constants.toList.map PoolConstant.entity).Nodup
  constant : ∀ k c, s.constants[k]? = some c → IsConstant w.program c (constantName (n + k)) ∧
    (w.program.content? c.entity).bind poolText? = some c.text
  again : ∀ text c, s.pool[text]? = some c → Finishes (intern text) w c w
  fresh : ∀ text, s.pool[text]? = none → text.length ≤ 0xFFFF → ∃ c w' s', Finishes (intern text) w c w' ∧
    w'.session = some s' ∧ s'.pool[text]? = some c ∧ s'.constants = s.constants.push c
  long : ∀ text, 0xFFFF < text.length →
    ∃ cause, intern text w = (.error (.error (.abi ⟨[], cause⟩)), w) ∧ cause.kind = .fieldOverflow

theorem nodup_map_of_index {α β : Type} {as : Array α} {f : α → β}
    (h : ∀ (j k : Nat) a b, as[j]? = some a → as[k]? = some b → f a = f b → j = k) : (as.toList.map f).Nodup := by
  rw [List.nodup_iff_getElem?_ne_getElem?]
  intro j k hjk hk heq
  simp only [List.length_map, Array.length_toList, List.getElem?_map, Array.getElem?_toList] at hk heq
  have ha := Array.getElem?_eq_getElem (hjk.trans hk)
  have hb := Array.getElem?_eq_getElem hk
  rw [ha, hb, Option.map_some, Option.map_some, Option.some.injEq] at heq
  exact absurd (h j k _ _ ha hb heq) hjk.ne

theorem PoolSound.keepsPool (h : PoolSound w0 n w s) : KeepsPool n w s where
  unique := h.pooled
  texts := nodup_map_of_index fun j k c d hc hd htext => by
    -- Both are the constant that the pool has for the text.
    have hpool := (h.pooled d.text c).2 ⟨Array.mem_of_getElem? hc, htext⟩
    have hpool' := (h.pooled d.text d).2 ⟨Array.mem_of_getElem? hd, rfl⟩
    cases hpool.symm.trans hpool'
    exact h.index_eq hc hd rfl
  entities := nodup_map_of_index fun j k c d => h.index_eq
  constant k c hc := by
    have hconstant := h.constant k c hc
    obtain ⟨ent, hent, -, -, -, hinit⟩ := hconstant.entity
    refine ⟨hconstant, ?_⟩
    rw [Program.content?, hent, Option.bind_some, hinit, Option.bind_some]
    exact poolText?_poolInit c.text
  again text c hc := intern_of_pooled h.session h.opened hc
  fresh text hnew hshort := by
    refine ⟨_, _, _, intern_of_new h.session h.opened hnew hshort h.unused, rfl, ?_, rfl⟩
    rw [addConstant, Std.HashMap.getElem?_insert_self]
  long text hlong := by
    refine ⟨.longConstant text.length, intern_of_long h.session h.opened ?_ hlong, rfl⟩
    cases hpool : s.pool[text]? with
    | none => rfl
    | some c =>
      obtain ⟨hc, rfl⟩ := (h.pooled text c).1 hpool
      exact absurd (h.short c hc) (by omega)

theorem pooled_of_answered (hlinked : w0.Linked (ownParts w0.registry)) (h : PoolSound w0 n w0 s) {ops : List Operation}
    (hopen : .close ∉ ops) (hs' : (operate w0 ops).session = some s') {q : Operation} {text : Text}
    (hq : ∀ w w', Finishes q.answer w () w' → ∃ e, w'.Pooled text e) (hanswered : Answered w0 ops q) :
    ∃ c, s'.pool[text]? = some c := by
  obtain ⟨before, after, w1, rfl, hrun⟩ := hanswered
  have hafter : operate w0 (before ++ [q]) = w1 := by
    rw [operate_append]
    show (q.answer (operate w0 before)).2 = w1
    rw [hrun]
  have hclosed : .close ∉ before ++ [q] ∧ .close ∉ after := by simp_all
  obtain ⟨s1, hsound1, -⟩ := h.operate hlinked hclosed.1
  obtain ⟨s2, hsound2, hgrows⟩ := hsound1.operate hlinked hclosed.2
  rw [← operate_append, List.append_assoc, List.singleton_append] at hsound2
  cases hs'.symm.trans hsound2.session
  obtain ⟨e, s3, c, hs3, hc, -⟩ := hq _ _ hrun
  rw [← hafter, hsound1.session] at hs3
  cases hs3
  obtain ⟨hmem, rfl⟩ := (hsound1.pooled text c).1 hc
  refine ⟨c, (hsound2.pooled _ c).2 ⟨?_, rfl⟩⟩
  exact Array.mem_toList_iff.1 (hgrows.subset (Array.mem_toList_iff.2 hmem))

/-- If no linker name of the program begins like those of constants when a session is started, then whatever is asked of the
session, the pool has one constant for each text, constants are numbered on from the names that were made before, and they
are listed in the order in which they were made. -/
theorem pool_of_operate {registers : Bool} (hclean : ∀ ld e, w.program.lookup ld = some e → ¬("_Utf8." : Text) <+: ld)
    (hstart : Finishes (start registers) w () w0) {ops : List Operation} (hopen : .close ∉ ops) :
    ∃ s, (operate w0 ops).session = some s ∧ KeepsPool (w.program.made.getD "_Utf8" 0) (operate w0 ops) s ∧
      (∀ text, Answered w0 ops (.intern text) → ∃ c, s.pool[text]? = some c) ∧
      (∀ name, Answered w0 ops (.internDotted name) → ∃ c, s.pool[dotted name]? = some c) ∧
      ∀ before, before <+: ops →
        ∃ s', (operate w0 before).session = some s' ∧ s'.constants.toList <+: s.constants.toList := by
  obtain ⟨-, hlinked, -⟩ := begun_of_start w.linked_empty hstart
  rw [Set.union_empty] at hlinked
  obtain ⟨s0, hsound0⟩ := poolSound_of_start hclean hstart
  obtain ⟨s, hsound, -⟩ := hsound0.operate hlinked hopen
  refine ⟨s, hsound.session, hsound.keepsPool, fun text => ?_, fun name => ?_, ?_⟩
  · refine pooled_of_answered hlinked hsound0 hopen hsound.session fun u v hrun => ?_
    obtain ⟨c, hc⟩ := finishes_discard_iff.1 hrun
    exact ⟨_, (leads_intern text).2 c v hc⟩
  · refine pooled_of_answered hlinked hsound0 hopen hsound.session fun u v hrun => ?_
    obtain ⟨c, hc⟩ := finishes_discard_iff.1 hrun
    exact ⟨_, (leads_internDotted name).2 c v hc⟩
  · rintro before ⟨after, rfl⟩
    rw [List.mem_append, not_or] at hopen
    obtain ⟨s1, hsound1, -⟩ := hsound0.operate hlinked hopen.1
    obtain ⟨s2, hsound2, hgrows⟩ := hsound1.operate hlinked hopen.2
    rw [← operate_append] at hsound2
    cases hsound.session.symm.trans hsound2.session
    exact ⟨s1, hsound1.session, hgrows⟩

/-- The root class, laid out, in a program that has made a name like those of constants. -/
def rootWithName : Workspace :=
  let w := (Class.layOutAll (Class.declare rootClass ⟨1⟩ false { target := .linux64 }).2).2
  { w with program := (w.program.uniqueName "_Utf8").2 }

theorem exists_start_rootWithName : (∀ ld e, rootWithName.program.lookup ld = some e → ¬("_Utf8." : Text) <+: ld) ∧
    rootWithName.program.made.getD "_Utf8" 0 = 1 ∧ ∃ w0, Finishes (start false) rootWithName () w0 := by
  generalize hw : rootWithName = w
  cbv at hw
  subst hw
  refine ⟨fun ld e he => ?_, by cbv, _, finishes_of_isOk (by cbv)⟩
  simp [Program.lookup] at he

theorem pool_of_operate_root :
    (∀ ld e, rootWithName.program.lookup ld = some e → ¬("_Utf8." : Text) <+: ld) ∧ ∃ w0,
      Finishes (start false) rootWithName () w0 ∧ .close ∉ [Operation.intern "a", .buildVtable 0, .internDotted "a"] ∧
      ∃ s, (operate w0 [.intern "a", .buildVtable 0, .internDotted "a"]).session = some s ∧
        KeepsPool 1 (operate w0 [.intern "a", .buildVtable 0, .internDotted "a"]) s := by
  obtain ⟨hclean, hmade, w0, hstart⟩ := exists_start_rootWithName
  have hopen : .close ∉ [Operation.intern "a", .buildVtable 0, .internDotted "a"] := by simp
  obtain ⟨s, hs, hpool, -⟩ := pool_of_operate hclean hstart hopen
  rw [hmade] at hpool
  exact ⟨hclean, w0, hstart, hopen, s, hs, hpool⟩

/-- The first constant of a session need not have the number 0. -/
theorem first_constant_numbered_one :
    (∀ ld e, rootWithName.program.lookup ld = some e → ¬("_Utf8." : Text) <+: ld) ∧ ∃ w0 c w',
      Finishes (start false) rootWithName () w0 ∧ Finishes (intern "a") w0 c w' ∧
      (w'.program.entity? c.entity).map Entity.ld = some (constantName 1) ∧ constantName 1 ≠ constantName 0 := by
  obtain ⟨hclean, hmade, w0, hstart⟩ := exists_start_rootWithName
  obtain ⟨s, hsound⟩ := poolSound_of_start hclean hstart
  have hsize : s.constants = #[] := by
    obtain ⟨-, -, s', hbegun⟩ := begun_of_start (linked_empty _) hstart
    cases hsound.session.symm.trans hbegun.session
    exact hbegun.constants
  have hnew : s.pool[("a" : Text)]? = none := by
    cases hpool : s.pool[("a" : Text)]? with
    | none => rfl
    | some c => exact absurd ((hsound.pooled _ c).1 hpool).1 (by simp [hsize])
  have hfirst : (addConstant s "a" w0.program.entities.size).constants[0]? =
      some ⟨"a", nameHash "a", w0.program.entities.size⟩ := by
    rw [addConstant, hsize]
    rfl
  obtain ⟨ent, hent, hld, -⟩ := ((hsound.withConstant hnew (by decide)).constant 0 _ hfirst).entity
  refine ⟨hclean, w0, _, _, hstart, intern_of_new hsound.session hsound.opened hnew (by decide) hsound.unused, ?_, ?_⟩
  · rw [hent, Option.map_some, hld, hmade]
  · exact fun h => absurd (constantName_injective h) (by decide)

end ClassAbi.Abi
