import ClassAbi.Proofs.Abi.Session
import ClassAbi.Proofs.Class.Known
import ClassAbi.Proofs.Class.Slots

/-!
# Reading class descriptors

The content of a class descriptor and of the tables and constants it refers to says what the class is. This is read from the
entities alone, after any ops to the session, whatever was built in between.
-/

namespace ClassAbi.Abi

open Workspace

/-- The steps before a session: classes get their layouts, slots and entities, and then the session is started. -/
def prepare (registers : Bool) : Action Unit := do
  Class.layOutAll
  Class.assignAllSlots
  Class.createAllMembers
  start registers

/-! ### Reading entities -/

def values? : Init → Option (List Init)
  | .compound values => some values
  | _ => none

def target? : Init → Option EntityId
  | .code (.address e) => some e
  | _ => none

def valuesOf? (w : Workspace) (e : EntityId) : Option (List Init) := (w.program.content? e).bind values?

def descriptorValues? (w : Workspace) (cls : Class) : Option (List Init) := cls.descriptor.bind (valuesOf? w)

def member? (w : Workspace) (cls : Class) (m : ClassMember) : Option Init :=
  (descriptorValues? w cls).bind fun values => values[ClassMember.all.idxOf m]?

/-- The table to which a member of the class descriptor refers. -/
def table? (w : Workspace) (cls : Class) (m : ClassMember) : Option (List Init) :=
  ((member? w cls m).bind target?).bind (valuesOf? w)

/-- The entity that stands for the type of a field: the descriptor of a class or of a primitive type, or the spelling of the
type of an array. -/
inductive StandsFor (w : Workspace) : JavaType → EntityId → Prop
  | primitive {p : Primitive} {e : EntityId} {ent : Entity} (hent : w.program.entity? e = some ent)
    (hld : ent.ld = w.target.decorate (primitiveClass p)) (hvisibility : ent.visibility = .external) :
    StandsFor w (.primitive p) e
  | reference {c : ClassId} {cls : Class} {e : EntityId} (hcls : w.registry.class? c = some cls)
    (he : cls.descriptor = some e) : StandsFor w (.reference c) e
  | array {t : JavaType} {e : EntityId} (harray : t.isArray = true) (hspells : Spells w (w.registry.descriptorOf t) e) :
    StandsFor w t e

def ReadsField (w : Workspace) (f : Field) (v : Init) : Prop :=
  ∃ name type size place, Spells w (dotted f.name) name ∧ StandsFor w f.type type ∧ IsPlace f place ∧
    v = .compound [.ofEntity (some name), .ofEntity (some type), .word .uint16 f.access.bits.toNat, .word .uint16 size, place]

/-- Whether a member of the descriptor is null if there is nothing to list, and a table with one value for each of `as`
otherwise. -/
def Lists {α : Type} (w : Workspace) (cls : Class) (m : ClassMember) (R : α → Init → Prop) (as : List α) : Prop :=
  (member? w cls m = some .null ↔ as = []) ∧ (as ≠ [] → ∃ values, table? w cls m = some values ∧ List.Forall₂ R as values)

/-- Whether the descriptor of a class says what the class is. -/
structure ReadsBack (w : Workspace) (cls : Class) : Prop where
  length : ∃ values, descriptorValues? w cls = some values ∧ values.length = 39
  name : ∃ e, member? w cls .name = some (.ofEntity (some e)) ∧ Spells w (dotted cls.name) e
  accessFlags : member? w cls .accessFlags = some (.word .uint16 cls.access.bits.toNat)
  size : member? w cls .sizeInBytes = some (.word .int32 cls.size)
  methodCount : member? w cls .methodCount = some (.word .int16 cls.methods.size)
  fieldCount : member? w cls .fieldCount = some (.word .int16 cls.fields.size)
  staticFieldCount : member? w cls .staticFieldCount = some (.word .int16 cls.staticFieldCount)
  interfaceCount : member? w cls .interfaceCount = some (.word .int16 cls.interfaces.length)
  noSuper : member? w cls .superclass = some .null ↔ cls.supertypes = []
  super : ∀ c rest, cls.supertypes = c :: rest → ∃ scls e, w.registry.class? c = some scls ∧ scls.descriptor = some e ∧
    member? w cls .superclass = some (.ofEntity (some e))
  methods : ∃ values, table? w cls .methods = some values ∧
    List.Forall₂ (IsMethodRecord w (Spells w)) cls.methods.toList values
  fields : Lists w cls .fields (ReadsField w) cls.fields.toList
  interfaces : Lists w cls .interfaces (IsReference w) cls.interfaces

variable {w w' w0 : Workspace} {s0 : Session} {cls : Class} {b : BuiltClass}

theorem getElem?_idxOf_all {α : Type} (f : ClassMember → α) (m : ClassMember) :
    (ClassMember.all.map f)[ClassMember.all.idxOf m]? = some (f m) := by
  cases m <;> rfl

/-! ### From the values to what they mean -/

section

variable (hcontent : w.program.content? b.entity = some (.compound b.members)) (hdescription : IsDescription w (Spells w) cls b)

include hcontent hdescription

theorem descriptorValues?_eq : descriptorValues? w cls = some b.members := by
  rw [descriptorValues?, hdescription.entity, Option.bind_some, valuesOf?, hcontent]
  rfl

theorem member?_eq : ∃ header vptr name super, IsHeader w header ∧ Spells w (dotted cls.name) name ∧ IsSuper w cls super ∧
    ∀ m, member? w cls m = some (memberValue cls b header vptr name super m) := by
  obtain ⟨header, vptr, name, super, hmembers, hheader, -, hname, hsuper⟩ := hdescription.members
  refine ⟨header, vptr, name, super, hheader, hname, hsuper, fun m => ?_⟩
  rw [member?, descriptorValues?_eq hcontent hdescription, Option.bind_some, hmembers]
  exact getElem?_idxOf_all _ m

end

theorem HoldsTable.valuesOf? {α : Type} {R : α → Init → Prop} {as : List α} {e : EntityId} (h : HoldsTable w R as e) :
    ∃ values, Abi.valuesOf? w e = some values ∧ List.Forall₂ R as values := by
  obtain ⟨values, hvalues, hrows⟩ := h
  refine ⟨values, ?_, hrows⟩
  rw [Abi.valuesOf?, hvalues]
  rfl

theorem HoldsTable?.lists {α : Type} {R : α → Init → Prop} {as : List α} {table : Option EntityId} {m : ClassMember}
    (h : HoldsTable? w R as table) (hmember : member? w cls m = some (.ofEntity table)) : Lists w cls m R as := by
  rcases h with ⟨rfl, rfl⟩ | ⟨hne, e, rfl, htable⟩
  · exact ⟨by simp [hmember, Init.ofEntity], fun h => absurd rfl h⟩
  · obtain ⟨values, hvalues, hrows⟩ := htable.valuesOf?
    refine ⟨by simp [hmember, Init.ofEntity, hne], fun _ => ⟨values, ?_, hrows⟩⟩
    rw [table?, hmember]
    exact hvalues

theorem standsFor_of_isTypeEntity (hstart : Started w0 s0) (hfollows : w0.Follows w) {t : JavaType} {e : EntityId}
    (htype : w.registry.HasType t) (h : IsTypeEntity w (Spells w) t e) : StandsFor w t e := by
  cases htype with
  | primitive p =>
    obtain ⟨d, hd, ent, hent, hld, -, hvisibility⟩ := hstart.primitive p
    have hknown : w.descriptorEntity (.primitive p) = some d := by
      rw [hfollows.descriptorEntity_eq, descriptorEntity, hstart.session, Option.bind_some, hd]
    obtain ⟨ent', hent', -, hld', hvisibility', -⟩ := hfollows.entities d ent hent
    rcases h with hsome | ⟨hnone, -⟩
    · cases hknown.symm.trans hsome
      exact .primitive hent' (by rw [hld', hld, hfollows.target_eq]) (hvisibility'.trans hvisibility)
    · cases hknown.symm.trans hnone
  | @reference c cls hcls =>
    have hcls0 : w0.registry.class? c = some cls := hfollows.registry_eq ▸ hcls
    obtain ⟨cls', d, -, hcls', hd, -⟩ := hstart.linked.made c .descriptor ⟨cls, hcls0, trivial⟩
    cases hcls0.symm.trans hcls'
    have hknown : w.descriptorEntity (.reference c) = some d := by
      show (w.registry.class? c).bind Class.descriptor = some d
      rw [hcls]
      exact hd
    rcases h with hsome | ⟨hnone, -⟩
    · cases hknown.symm.trans hsome
      exact .reference hcls hd
    · cases hknown.symm.trans hnone
  | @array elem helem =>
    -- The element is no class, so that the type has no descriptor.
    have hnone : w.descriptorEntity (.pointer elem) = none ∧ JavaType.isArray (.pointer elem) = true := by
      have hlevels : ∀ t : JavaType, JavaType.isArray (.pointer (.pointer t)) = true := by
        intro t
        rw [JavaType.isArray, JavaType.dimensions, decide_eq_true_eq]
        split_ifs <;> simp [JavaType.levels]
      cases helem with
      | primitive p => exact ⟨rfl, rfl⟩
      | reference h => exact ⟨rfl, hlevels _⟩
      | array h => exact ⟨rfl, hlevels _⟩
    rcases h with hsome | ⟨-, hspells⟩
    · cases hnone.1.symm.trans hsome
    · exact .array hnone.2 hspells

theorem readsField_of_isFieldRecord (hstart : Started w0 s0) (hfollows : w0.Follows w) {f : Field} {v : Init}
    (htype : w.registry.HasType f.type) (h : IsFieldRecord w (Spells w) f v) : ReadsField w f v := by
  obtain ⟨name, type, size, place, hname, hentity, -, -, hplace, hv⟩ := h
  exact ⟨name, type, size, place, hname, standsFor_of_isTypeEntity hstart hfollows htype hentity, hplace, hv⟩

theorem IsDescription.readsBack (hstart : Started w0 s0) (hfollows : w0.Follows w) (hknown : w0.registry.Known) {c : ClassId}
    (hcls : w.registry.class? c = some cls) (hcontent : w.program.content? b.entity = some (.compound b.members))
    (h : IsDescription w (Spells w) cls b) : ReadsBack w cls := by
  obtain ⟨header, vptr, name, super, -, hname, hsuper, hmember⟩ := member?_eq hcontent h
  have htypes : ∀ f ∈ cls.fields, w.registry.HasType f.type := by
    intro f hf
    rw [hfollows.registry_eq] at hcls ⊢
    exact hknown.types c cls f hcls hf
  refine ⟨?_, ⟨name, hmember .name, hname⟩, hmember .accessFlags, hmember .sizeInBytes, hmember .methodCount,
    hmember .fieldCount, hmember .staticFieldCount, hmember .interfaceCount, ?_, ?_, ?_, ?_, ?_⟩
  · obtain ⟨_, _, _, _, hmembers, -⟩ := h.members
    refine ⟨b.members, descriptorValues?_eq hcontent h, ?_⟩
    rw [hmembers, List.length_map]
    rfl
  · rw [hmember .superclass]
    rcases hsuper with ⟨hnone, rfl⟩ | ⟨k, rest, scls, e, hsupers, -, -, -, rfl⟩
    · simp [hnone, memberValue, Init.ofEntity]
    · simp [hsupers, memberValue, Init.ofEntity]
  · intro k rest hsupers
    rcases hsuper with ⟨hnone, -⟩ | ⟨k', rest', scls, e, hsupers', hscls, -, he, rfl⟩
    · cases hnone.symm.trans hsupers
    · obtain ⟨rfl, rfl⟩ := List.cons.inj (hsupers'.symm.trans hsupers)
      exact ⟨scls, e, hscls, he, hmember .superclass⟩
  · obtain ⟨values, hvalues, hrows⟩ := h.methods.valuesOf?
    refine ⟨values, ?_, hrows⟩
    rw [table?, hmember .methods]
    exact hvalues
  · have hfields : HoldsTable? w (ReadsField w) cls.fields.toList b.fieldTable := by
      rcases h.fields with hnone | ⟨hne, e, he, values, hvalues, hrows⟩
      · exact .inl hnone
      · refine .inr ⟨hne, e, he, values, hvalues, ?_⟩
        have hboth := (List.forall₂_and_left _ _).2 ⟨fun f hf => htypes f (Array.mem_toList_iff.1 hf), hrows⟩
        exact hboth.imp fun f v hf => readsField_of_isFieldRecord hstart hfollows hf.1 hf.2
    exact hfields.lists (hmember .fields)
  · exact h.interfaces.lists (hmember .interfaces)

/-! ### After all steps -/

theorem started_of_prepare {registers : Bool} (built : w.Built) (hprepare : Finishes (prepare registers) w () w0) :
    ∃ w1 w2 s0, w1.Built ∧ SlotsAssigned w1 w2 ∧ w2.Grown w0 ∧ Started w0 s0 ∧ w0.registry.Known := by
  simp only [prepare, finishes_bind_iff] at hprepare
  obtain ⟨_, w1, hlayout, _, w2, hslots, _, w3, hmembers, hsession⟩ := hprepare
  have hbuilt1 : w1.Built := by
    have hnext := built.layOutAll
    rwa [hlayout] at hnext
  have hbuilt2 : w2.Built := by
    have hnext := hbuilt1.assignAllSlots
    rwa [hslots] at hnext
  have hmakes := makes_of_createAllMembers hmembers
  have hgrown3 := grown_of_makings hmakes.path
  have hlinked : w3.Linked w3.registry.members := (hmakes.linked (linked_empty _)).mono Set.subset_union_left
  obtain ⟨hgrown4, s0, hstart⟩ := started_of_start hlinked hsession
  have hgrown := hgrown3.trans hgrown4
  exact ⟨w1, w2, s0, hbuilt1, slotsAssigned hbuilt1.declared hslots, hgrown, hstart,
    hbuilt2.known.congr hgrown.registry.outline_of_unlinked⟩

/-- A class can be read back from its descriptor, once that has been built, whatever else the session was asked for. -/
theorem readsBack_of_answered {registers : Bool} (built : w.Built) (hprepare : Finishes (prepare registers) w () w0)
    {ops : List Operation} {c : ClassId} (h : Answered w0 ops (.buildDescriptor c)) :
    ∃ cls, (operate w0 ops).registry.class? c = some cls ∧ ReadsBack (operate w0 ops) cls := by
  obtain ⟨w1, w2, s0, -, -, -, hstart, hknown⟩ := started_of_prepare built hprepare
  obtain ⟨b, cls, hcls, hcontent, hdescription⟩ := description_of_answered hstart h
  have hfollows := (sound_operate hstart ops).follows
  exact ⟨cls, hcls, hdescription.readsBack hstart hfollows hknown hcls hcontent⟩

/-- The root class, and the class of class descriptors with a method, an abstract method, a field and a static array. -/
def classesWithMembers : Workspace :=
  let declared := (Class.declare classClass ⟨1⟩ false (Class.declare rootClass ⟨1⟩ false { target := .linux64 }).2).2
  let linked := (Action.onRegistry (fun r => r.modifyClass 1 fun cls => { cls with super := some 0, interfaces := [] }) declared).2
  let methods := (Class.addMethod 1 "n" "()V" ⟨0x401⟩ [] (Class.addMethod 1 "m" "()V" ⟨1⟩ [] linked).2).2
  (Class.addField 1 "y" "[I" ⟨8⟩ (Class.addField 1 "x" "I" ⟨1⟩ methods).2).2

theorem built_classesWithMembers : classesWithMembers.Built :=
  .addField 1 "y" "[I" ⟨8⟩ (.addField 1 "x" "I" ⟨1⟩ (.addMethod 1 "n" "()V" ⟨0x401⟩ [] (.addMethod 1 "m" "()V" ⟨1⟩ []
    (.inherit 1 (some 0) [] (.declare classClass ⟨1⟩ false (.declare rootClass ⟨1⟩ false (.start .linux64)))))))

theorem exists_classesWithMembers : ∃ w0, Finishes (prepare false) classesWithMembers () w0 ∧
    (w0.registry.class? 1).map Class.external = some false ∧
    Answered w0 [.buildVtable 1, .buildDescriptor 1] (.buildVtable 1) ∧
    Answered w0 [.buildVtable 1, .buildDescriptor 1] (.buildDescriptor 1) ∧
    w0.registry.find? rootClass = some 0 ∧
    w0.registry.classes.toList.map (fun cls => (cls.name, cls.super)) = [(rootClass, none), (classClass, some 0)] := by
  have hok : (prepare false classesWithMembers).1.isOk = true ∧
      ((prepare false classesWithMembers).2.registry.class? 1).map Class.external = some false ∧
      (prepare false classesWithMembers).2.registry.find? rootClass = some 0 ∧
      (prepare false classesWithMembers).2.registry.classes.toList.map (fun cls => (cls.name, cls.super)) =
        [(rootClass, none), (classClass, some 0)] ∧
      ((Operation.buildVtable 1).answer (prepare false classesWithMembers).2).1.isOk = true ∧
      ((Operation.buildDescriptor 1).answer
        ((Operation.buildVtable 1).answer (prepare false classesWithMembers).2).2).1.isOk = true := by
    -- Each step is computed by itself, from the workspace to which the one before it leads.
    generalize hprepare : prepare false classesWithMembers = r
    cbv at hprepare
    subst hprepare
    refine ⟨rfl, rfl, by cbv, rfl, ?_⟩
    generalize hvtable : (Operation.buildVtable 1).answer _ = r
    cbv at hvtable
    subst hvtable
    exact ⟨rfl, by cbv⟩
  obtain ⟨hprepare, hexternal, hroot, hclasses, hvtable, hdescriptor⟩ := hok
  exact ⟨_, finishes_of_isOk hprepare, hexternal, ⟨[], _, _, rfl, finishes_of_isOk hvtable⟩,
    ⟨[.buildVtable 1], [], _, rfl, finishes_of_isOk hdescriptor⟩, hroot, hclasses⟩

theorem readsBack_of_answered_members : classesWithMembers.Built ∧ ∃ w0, Finishes (prepare false) classesWithMembers () w0 ∧
    Answered w0 [.buildVtable 1, .buildDescriptor 1] (.buildDescriptor 1) ∧
    ∃ cls, (operate w0 [.buildVtable 1, .buildDescriptor 1]).registry.class? 1 = some cls ∧
      ReadsBack (operate w0 [.buildVtable 1, .buildDescriptor 1]) cls := by
  obtain ⟨w0, hprepare, -, -, hanswered, -⟩ := exists_classesWithMembers
  exact ⟨built_classesWithMembers, w0, hprepare, hanswered, readsBack_of_answered built_classesWithMembers hprepare hanswered⟩

end ClassAbi.Abi
