import ClassAbi.Proofs.Abi.Descriptor

/-!
# Vtables and method records

A call through the vtable and a call through the record of a method reach the same routine. The slots of a vtable after its
header all refer to routines, and the trap stands for exactly the abstract methods.
-/

namespace ClassAbi

variable {m : Method}

theorem Class.LinkerNameOf.exists_eq {cls : Class} {part : Class.Part} {ld : Text} (h : cls.LinkerNameOf part ld) :
    ∃ rest, ld = Text.ofString "_Z" ++ rest := by
  cases part with
  | routine i =>
    obtain ⟨m, -, hok⟩ := h
    obtain ⟨_, _, -, -, -, rfl⟩ := LinkerName.ofMethod_eq_ok hok
    exact ⟨_, rfl⟩
  | storage i =>
    obtain ⟨f, -, hok⟩ := h
    obtain ⟨_, -, -, rfl⟩ := LinkerName.ofField_eq_ok hok
    exact ⟨_, rfl⟩
  | descriptor =>
    obtain ⟨-, rfl⟩ := LinkerName.ofDescriptor_eq_ok_iff.1 h
    exact ⟨_, rfl⟩
  | vtable =>
    obtain ⟨-, rfl⟩ := LinkerName.ofVtable_eq_ok h
    exact ⟨_, rfl⟩

namespace Abi

open Workspace

def IsRoutine (w : Workspace) (e : EntityId) : Prop :=
  ∃ ent sig, w.program.entity? e = some ent ∧ w.program.types.signature? ent.type = some sig

/-- Whether an entity is the trap for abstract methods. -/
def IsTrap (w : Workspace) (e : EntityId) : Prop := ∃ d, w.helper? .abstractTrap = some d ∧ d.entity = e

def recordIndex? : Init → Option Int
  | .compound [_, _, _, .word _ index, _, _] => some index
  | _ => none

def recordCode? : Init → Option Init
  | .compound [_, _, _, _, code, _] => some code
  | _ => none

/-- Whether the slots of a vtable and the records of the methods of a class belong together. -/
structure MethodsAgree (w : Workspace) (cls : Class) (slots records : List Init) : Prop where
  size : (slots.length : Int) = cls.vtableSize
  header : slots[0]? = some .null ∧ slots[1]? = some .null ∧ slots[3]? = some .null
  descriptor : ∃ d, cls.descriptor = some d ∧
    slots[vptrSlot]? = some (if cls.name.contains 0x24 then .null else .ofEntity (some d))
  code : ∀ i v, headerSlots ≤ i → slots[i]? = some v → ∃ ref m e, cls.vtable[i - headerSlots]? = some ref ∧
    w.registry.method? ref = some m ∧ v = .ofEntity (some e) ∧ IsRoutine w e ∧ (IsTrap w e ↔ m.access.isAbstract = true)
  count : records.length = cls.methods.size
  record : ∀ (k : Nat) (m : Method) (v : Init), cls.methods[k]? = some m → records[k]? = some v → ∃ index e,
    recordIndex? v = some index ∧ recordCode? v = some (.ofEntity (some e)) ∧ (index = 0xFFFF ↔ m.inVtable = false) ∧
      (m.inVtable = true → headerSlots ≤ index ∧ index < cls.vtableSize ∧ slots[index.toNat]? = some (.ofEntity (some e)))

variable {w w0 w1 w2 : Workspace} {s0 : Session} {c : ClassId} {cls : Class}

/-! ### Code of methods -/

section

variable (hstart : Started w0 s0)

include hstart

theorem trap_ne_part {d : DeclaredHelper} (hd : s0.helper? .abstractTrap = some d) (hcls : w0.registry.class? c = some cls)
    (part : Class.Part) (hhas : cls.Has part) : cls.entityOf part ≠ some d.entity := by
  intro he
  obtain ⟨ent, hmade⟩ := hstart.linked.exists_madeFor part hcls ⟨cls, hcls, hhas⟩ he
  obtain ⟨d', hd', ⟨ent', hent', hld', -⟩, -⟩ := hstart.helper .abstractTrap
  cases hd.symm.trans hd'
  cases hmade.entity.symm.trans hent'
  obtain ⟨ld, hld, heq⟩ := hmade.ld
  obtain ⟨rest, rfl⟩ := hld.exists_eq
  have hsame : Text.ofString "_Z" ++ rest = Helper.abstractTrap.ld :=
    List.append_cancel_left (heq.symm.trans hld')
  have hpart : (Text.ofString "_Z" ++ rest)[1]? = some 0x5A := rfl
  have htrap : Helper.abstractTrap.ld[1]? = some 0x4A := rfl
  rw [hsame, htrap] at hpart
  exact absurd hpart (by decide)

theorem isRoutine_trap (hsound : Sound w0 w) {d : DeclaredHelper} (hd : s0.helper? .abstractTrap = some d) :
    IsRoutine w d.entity := by
  obtain ⟨d', hd', ⟨ent, hent, -, htype, -⟩, hsig⟩ := hstart.helper .abstractTrap
  cases hd.symm.trans hd'
  have hfilled : ¬IsFilled w0.registry d.entity := by
    rintro ⟨c, cls, hcls, he | ⟨hneeds, he⟩⟩
    · exact trap_ne_part hstart hd hcls .descriptor trivial he
    · exact trap_ne_part hstart hd hcls .vtable hneeds he
  obtain ⟨ent', hent', htype', -⟩ := hsound.plain _ _ hent hfilled
  exact ⟨ent', _, hent', signature?_of_extends hsound.follows.types (by rw [htype', htype, hsig])⟩

/-- Every method has code: the trap if it is abstract, and a routine of its own otherwise. -/
theorem exists_codeEntity (hsound : Sound w0 w) {ref : MethodRef} (hm : w.registry.method? ref = some m) :
    ∃ e, w.codeEntity m = some e ∧ IsRoutine w e ∧ (IsTrap w e ↔ m.access.isAbstract = true) := by
  rw [hsound.follows.codeEntity_eq]
  have hhelper : ∀ d, w.helper? .abstractTrap = some d ↔ s0.helper? .abstractTrap = some d := by
    intro d
    rw [hsound.follows.helper?_eq, helper?, hstart.session, Option.bind_some]
  obtain ⟨d, hd, -⟩ := hstart.helper .abstractTrap
  by_cases habstract : m.access.isAbstract = true
  · refine ⟨d.entity, ?_, isRoutine_trap hstart hsound hd, fun _ => habstract, fun _ => ⟨d, (hhelper d).2 hd, rfl⟩⟩
    rw [codeEntity, if_pos habstract, helper?, hstart.session, Option.bind_some, hd, Option.map_some]
  · obtain ⟨cls, hcls, hmethod⟩ := Option.bind_eq_some_iff.1 hm
    rw [hsound.follows.registry_eq] at hcls
    obtain ⟨e, -, ent, he, -, hent, hsig⟩ := hsound.exists_routine hcls hmethod
    refine ⟨e, by rw [codeEntity, if_neg habstract, he], ⟨ent, _, hent, hsig⟩, ?_, fun h => absurd h habstract⟩
    rintro ⟨d', hd', rfl⟩
    rw [hhelper] at hd'
    refine absurd ?_ (trap_ne_part hstart hd' hcls (.routine ref.index) ⟨m, hmethod⟩)
    rw [Class.entityOf, hmethod, Option.bind_some, he]

end

/-! ### Slots -/

theorem slotsOf_of_grown (hslots : SlotsAssigned w1 w2) (hgrown : w2.Grown w0) (hcls : w0.registry.class? c = some cls)
    (hclass : cls.isInterface = false) :
    ∃ cls2, w2.registry.class? c = some cls2 ∧ cls.unlinked = cls2.unlinked ∧ SlotsOf w2.registry c cls2 := by
  obtain ⟨cls2, hcls2, hsame⟩ := hgrown.registry.exists_class hcls
  refine ⟨cls2, hcls2, hsame, hslots.slots c cls2 hcls2 ?_⟩
  rw [← hclass, Class.isInterface, Class.isInterface, Class.access_eq_of_unlinked hsame]

theorem vtable_eq_of_unlinked {cls' : Class} (h : cls'.unlinked = cls.unlinked) :
    cls'.vtable = cls.vtable ∧ cls'.vtableSize = cls.vtableSize := by
  refine ⟨?_, ?_⟩
  · simpa [Class.unlinked] using congrArg Class.vtable h
  · simpa [Class.unlinked] using congrArg Class.vtableSize h

theorem exists_slot (hslots : SlotsAssigned w1 w2) (hgrown : w2.Grown w0) (hstart : Started w0 s0)
    (hcls : w0.registry.class? c = some cls) (hclass : cls.isInterface = false) {k : Nat} (hm : cls.methods[k]? = some m)
    (hin : m.inVtable = true) : ∃ i : Nat, m.slot = headerSlots + i ∧ cls.vtable[i]? = some ⟨c, k⟩ := by
  obtain ⟨cls2, hcls2, hsame, hof⟩ := slotsOf_of_grown hslots hgrown hcls hclass
  obtain ⟨m2, hm2, heq⟩ := Class.exists_method_of_unlinked hsame hm
  have hslot : m.slot = m2.slot := by simpa [Method.unlinked] using congrArg Method.slot heq
  have hin2 : m.inVtable = m2.inVtable := by simpa [Method.unlinked] using congrArg Method.inVtable heq
  obtain ⟨i, ref, hi, href, -, hunique⟩ := hof.included k m2 hm2 (hin2 ▸ hin)
  refine ⟨i, hslot.trans hi, ?_⟩
  rw [(vtable_eq_of_unlinked hsame).1, href, hunique ?_]
  -- Two methods of one key would have routines of one linker name.
  intro k' m2' hm2' _ hkey
  obtain ⟨m', hm', heq'⟩ := Class.exists_method_of_unlinked hsame.symm hm2'
  have hmembers : w0.Linked w0.registry.members := hstart.linked.mono (by rintro x ⟨xcls, hx, hhas, -⟩; exact ⟨xcls, hx, hhas⟩)
  have hname : m2'.name = m'.name := by simpa [Method.unlinked] using congrArg Method.name heq'
  have hdesc : m2'.descriptor = m'.descriptor := by simpa [Method.unlinked] using congrArg Method.descriptor heq'
  have hname2 : m.name = m2.name := by simpa [Method.unlinked] using congrArg Method.name heq
  have hdesc2 : m.descriptor = m2.descriptor := by simpa [Method.unlinked] using congrArg Method.descriptor heq
  have hkeys : m2'.name = m2.name ∧ m2'.descriptor = m2.descriptor := by simpa [Method.key] using hkey
  exact hmembers.eq_of_key hcls hm' hm (by rw [← hname, hkeys.1, hname2]) (by rw [← hdesc, hkeys.2, hdesc2])

theorem IsVtable.eq_codes {slots : List Init} (h : IsVtable w cls slots) (hsize : cls.vtableSize = headerSlots + cls.vtable.size) :
    ∃ codes, List.Forall₂ (IsMethodCode w) cls.vtable.toList codes ∧
      slots = [.null, .null, descriptorSlot cls, .null] ++ codes := by
  obtain ⟨codes, hcodes, -, hslots⟩ := h
  have hlength : cls.vtable.size = codes.length := by
    rw [← hcodes.length_eq, Array.length_toList]
  refine ⟨codes, hcodes, ?_⟩
  have hrest : cls.vtableSize.toNat - (headerSlots + codes.length) = 0 := by omega
  rw [hslots, hrest, List.replicate_zero, List.append_nil]

theorem method?_mk {r : Registry} (hcls : r.class? c = some cls) {k : Nat} (hm : cls.methods[k]? = some m) :
    r.method? ⟨c, k⟩ = some m := by
  rw [Registry.method?, hcls, Option.bind_some, hm]

theorem IsMethodRecord.fields {v : Init} (h : IsMethodRecord w (Spells w) m v) {e : EntityId}
    (he : w.codeEntity m = some e) :
    recordIndex? v = some (if m.slot < 0 then noSlot else m.slot) ∧ recordCode? v = some (.ofEntity (some e)) := by
  obtain ⟨name, sig, -, -, -, rfl⟩ := h
  exact ⟨rfl, by rw [recordCode?, he]⟩

/-- The vtable and the method records of a class that both have been built refer to the same code, in whatever order they
were built. -/
theorem methodsAgree_of_answered {registers : Bool} (built : w.Built) (hprepare : Finishes (prepare registers) w () w0)
    {ops : List Operation} (hcls : w0.registry.class? c = some cls) (hexternal : cls.external = false)
    (hvtable : Answered w0 ops (.buildVtable c)) (hdescriptor : Answered w0 ops (.buildDescriptor c)) :
    ∃ slots records, cls.vtableEntity.bind (valuesOf? (operate w0 ops)) = some slots ∧
      table? (operate w0 ops) cls .methods = some records ∧ MethodsAgree (operate w0 ops) cls slots records := by
  obtain ⟨w1, w2, s0, -, hassigned, hgrown, hstart, -⟩ := started_of_prepare built hprepare
  have hsound := sound_operate hstart ops
  have hregistry := hsound.follows.registry_eq
  obtain ⟨cls', vt, hcls', hneeds, hvt, hfilled⟩ := vtable_of_answered hstart hvtable
  rw [hregistry, hcls] at hcls'
  cases hcls'
  obtain ⟨slots, hcontent, hslots⟩ := hfilled hexternal
  obtain ⟨b, cls', hcls', hmembers, hdescription⟩ := description_of_answered hstart hdescriptor
  rw [hregistry, hcls] at hcls'
  cases hcls'
  obtain ⟨records, hrecords, hrows⟩ := hdescription.methods.valuesOf?
  obtain ⟨header, vptr, name, super, -, -, -, hmember⟩ := member?_eq hmembers hdescription
  have hclass : cls.isInterface = false := by simpa [Class.needsVtable] using hneeds
  obtain ⟨cls2, hcls2, hsame, hof⟩ := slotsOf_of_grown hassigned hgrown hcls hclass
  obtain ⟨hvtable_eq, hsize_eq⟩ := vtable_eq_of_unlinked hsame
  have hsize : cls.vtableSize = headerSlots + cls.vtable.size := by rw [hsize_eq, hvtable_eq, hof.size_eq]
  obtain ⟨codes, hcodes, rfl⟩ := hslots.eq_codes hsize
  have hlength : cls.vtable.size = codes.length := by
    rw [← hcodes.length_eq, Array.length_toList]
  refine ⟨_, records, by rw [hvt, Option.bind_some, valuesOf?, hcontent]; rfl, by rw [table?, hmember .methods]; exact hrecords, ?_⟩
  refine ⟨?_, ⟨rfl, rfl, rfl⟩, ⟨b.entity, hdescription.entity, ?_⟩, ?_, ?_, ?_⟩
  · rw [hsize, hlength, List.length_append]
    rfl
  · rw [← hdescription.entity]
    rfl
  · intro i v hi hv
    obtain ⟨j, rfl⟩ := Nat.exists_eq_add_of_le hi
    have hj : codes[j]? = some v := by
      rw [List.getElem?_append_right (by simp [headerSlots])] at hv
      simpa [headerSlots] using hv
    obtain ⟨ref, href, m, hm, rfl⟩ := exists_getElem?_of_forall₂ hcodes.flip hj
    obtain ⟨e, he, hroutine, htrap⟩ := exists_codeEntity hstart hsound hm
    rw [Array.getElem?_toList] at href
    exact ⟨ref, m, e, by rwa [Nat.add_sub_cancel_left], hm, by rw [he], hroutine, htrap⟩
  · rw [← hrows.length_eq, Array.length_toList]
  · intro k m v hm hv
    have hmethod := method?_mk (hregistry ▸ hcls) hm
    obtain ⟨e, he, -⟩ := exists_codeEntity hstart hsound hmethod
    obtain ⟨v', hv', hrow⟩ := exists_getElem?_of_forall₂ hrows (Array.getElem?_toList.trans hm)
    cases hv.symm.trans hv'
    obtain ⟨hindex, hcode⟩ := hrow.fields he
    refine ⟨_, e, hindex, hcode, ?_⟩
    cases hin : m.inVtable with
    | false =>
      obtain ⟨m2, hm2, heq⟩ := Class.exists_method_of_unlinked hsame hm
      have hslot : m.slot = m2.slot := by simpa [Method.unlinked] using congrArg Method.slot heq
      have hin2 : m.inVtable = m2.inVtable := by simpa [Method.unlinked] using congrArg Method.inVtable heq
      rw [hslot, hof.excluded m2 (Array.mem_of_getElem? hm2) (hin2 ▸ hin)]
      simp [noSlot]
    | true =>
      obtain ⟨i, hslot, hi⟩ := exists_slot hassigned hgrown hstart hcls hclass hm hin
      have hlt : i < cls.vtable.size := (Array.getElem?_eq_some_iff.1 hi).1
      obtain ⟨v1, hv1, m1, hm1, rfl⟩ := exists_getElem?_of_forall₂ hcodes (Array.getElem?_toList.trans hi)
      cases hmethod.symm.trans hm1
      have hbound : cls.vtableSize ≤ 0xFFFE := hsize_eq ▸ hof.size_le
      rw [if_neg (by omega), hslot]
      refine ⟨by simp; omega, fun _ => ⟨by omega, by omega, ?_⟩⟩
      have hnat : ((headerSlots : Int) + i).toNat = headerSlots + i := by omega
      rw [hnat, List.getElem?_append_right (by simp [headerSlots]), ← he]
      simpa [headerSlots] using hv1

theorem methodsAgree_of_answered_members : classesWithMembers.Built ∧
    ∃ w0 cls, Finishes (prepare false) classesWithMembers () w0 ∧ w0.registry.class? 1 = some cls ∧ cls.external = false ∧
      Answered w0 [.buildVtable 1, .buildDescriptor 1] (.buildVtable 1) ∧
      Answered w0 [.buildVtable 1, .buildDescriptor 1] (.buildDescriptor 1) ∧
      ∃ slots records, cls.vtableEntity.bind (valuesOf? (operate w0 [.buildVtable 1, .buildDescriptor 1])) = some slots ∧
        table? (operate w0 [.buildVtable 1, .buildDescriptor 1]) cls .methods = some records ∧
        MethodsAgree (operate w0 [.buildVtable 1, .buildDescriptor 1]) cls slots records := by
  obtain ⟨w0, hprepare, hmap, hvtable, hdescriptor, -⟩ := exists_classesWithMembers
  obtain ⟨cls, hcls, hexternal⟩ := Option.map_eq_some_iff.1 hmap
  exact ⟨built_classesWithMembers, w0, cls, hprepare, hcls, hexternal, hvtable, hdescriptor,
    methodsAgree_of_answered built_classesWithMembers hprepare hcls hexternal hvtable hdescriptor⟩

end Abi

end ClassAbi
