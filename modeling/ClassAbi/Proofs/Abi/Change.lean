import ClassAbi.Abi.Descriptor
import ClassAbi.Proofs.Abi.Start

/-!
# Changes that a session makes

Every operation of a session is a sequence of a few kinds of changes, also when it fails half way. `Abi.Addition` lists
those that leave all entities as they are, `Abi.Filling` adds the ones by which vtables and class descriptors get their
content, `Abi.Progress` the ones that concern bodies, and `Abi.Change` the end of the session. Each change records what was
known when it was made, so that what holds of all sessions is proved once for each kind of change.
-/

namespace ClassAbi

variable {v : Init} {e : EntityId}

def Program.content? (p : Program) (e : EntityId) : Option Init := (p.entity? e).bind Entity.init

namespace Workspace

def helper? (w : Workspace) (h : Helper) : Option DeclaredHelper := w.session.bind (·.helper? h)

/-- The routine that slots and records of a method refer to. -/
def codeEntity (w : Workspace) (m : Method) : Option EntityId :=
  if m.access.isAbstract then (w.helper? .abstractTrap).map DeclaredHelper.entity else m.entity

def descriptorEntity (w : Workspace) : JavaType → Option EntityId
  | .cls c | .pointer (.cls c) => (w.registry.class? c).bind Class.descriptor
  | .primitive p => w.session.bind (·.primitives.lookup p)
  | _ => none

def Pooled (w : Workspace) (text : Text) (e : EntityId) : Prop :=
  ∃ s c, w.session = some s ∧ s.pool[text]? = some c ∧ c.entity = e

/-- Whether a workspace comes later than another one in a session: entities keep their names, and classes do not change. -/
structure Follows (w w' : Workspace) : Prop where
  target_eq : w'.target = w.target
  registry_eq : w'.registry = w.registry
  -- A closed session has only what was known when it was started.
  session_eq : w'.session.map Session.close = w.session.map Session.close
  types : w.program.types.Extends w'.program.types
  entities : ∀ e ent, w.program.entity? e = some ent → ∃ ent', w'.program.entity? e = some ent' ∧ ent'.name = ent.name ∧
    ent'.ld = ent.ld ∧ ent'.visibility = ent.visibility ∧ ent'.linkage = ent.linkage ∧ ent'.segment = ent.segment
  lookup : ∀ ld e, w.program.lookup ld = some e → w'.program.lookup ld = some e

variable {w w' w'' : Workspace}

theorem Follows.refl (w : Workspace) : w.Follows w :=
  ⟨rfl, rfl, rfl, fun _ _ h => h, fun _ ent h => ⟨ent, h, rfl, rfl, rfl, rfl, rfl⟩, fun _ _ h => h⟩

theorem Follows.trans (h : w.Follows w') (h' : w'.Follows w'') : w.Follows w'' where
  target_eq := h'.target_eq.trans h.target_eq
  registry_eq := h'.registry_eq.trans h.registry_eq
  session_eq := h'.session_eq.trans h.session_eq
  types t shape ht := h'.types t shape (h.types t shape ht)
  entities e ent he := by
    obtain ⟨ent1, he1, hname1, hld1, hvis1, hlink1, hseg1⟩ := h.entities e ent he
    obtain ⟨ent2, he2, hname2, hld2, hvis2, hlink2, hseg2⟩ := h'.entities e ent1 he1
    exact ⟨ent2, he2, hname2.trans hname1, hld2.trans hld1, hvis2.trans hvis1, hlink2.trans hlink1, hseg2.trans hseg1⟩
  lookup ld e he := h'.lookup ld e (h.lookup ld e he)

theorem Follows.helper?_eq (h : w.Follows w') (helper : Helper) : w'.helper? helper = w.helper? helper := by
  have hclose : ∀ w : Workspace, w.helper? helper = (w.session.map Session.close).bind (·.helper? helper) := by
    intro w
    rw [helper?]
    cases w.session <;> rfl
  rw [hclose, hclose w, h.session_eq]

theorem Follows.codeEntity_eq (h : w.Follows w') (m : Method) : w'.codeEntity m = w.codeEntity m := by
  rw [codeEntity, codeEntity, h.helper?_eq]

theorem Follows.descriptorEntity_eq (h : w.Follows w') (t : JavaType) : w'.descriptorEntity t = w.descriptorEntity t := by
  have hclose : ∀ (w : Workspace) (p : Primitive), (w.session.bind fun s => s.primitives.lookup p) =
      (w.session.map Session.close).bind fun s => s.primitives.lookup p := by
    intro w p
    cases w.session <;> rfl
  unfold descriptorEntity
  split
  · rw [h.registry_eq]
  · rw [h.registry_eq]
  · rw [hclose, hclose w, h.session_eq]
  · rfl

theorem Follows.session (h : w.Follows w') {s : Session} (hs : w.session = some s) :
    ∃ s', w'.session = some s' ∧ s'.close = s.close := by
  have heq := h.session_eq
  rw [hs, Option.map_some] at heq
  exact Option.map_eq_some_iff.1 heq

end Workspace

namespace Abi

open Workspace

def dotted (name : Text) : Text := Text.replace 0x2F 0x2E name

/-! ### Records

What the values in a table refer to. The texts of constants are given by `Spelled`: entries of the pool when a record is
made, and the content of entities later on. -/

section

variable (w : Workspace) (Spelled : Text → EntityId → Prop)

def IsMethodRecord (m : Method) (v : Init) : Prop :=
  ∃ name sig, Spelled (dotted m.name) name ∧ Spelled (dotted m.descriptor) sig ∧ m.slot ≤ 0xFFFF ∧
    v = .compound [.ofEntity (some name), .ofEntity (some sig), .word .uint16 (m.access.bits ||| compiledFlag).toNat,
      .word .uint16 (if m.slot < 0 then noSlot else m.slot), .ofEntity (w.codeEntity m), .null]

/-- Whether an entity stands for a type in the record of a field: a descriptor, or else the spelling of the type. -/
def IsTypeEntity (t : JavaType) (e : EntityId) : Prop :=
  w.descriptorEntity t = some e ∨ w.descriptorEntity t = none ∧ Spelled (w.registry.descriptorOf t) e

def IsPlace (f : Field) (v : Init) : Prop :=
  if f.access.isStatic then ∃ e, f.entity = some e ∧ v = .compound [.null, .ofEntity (some e)]
  else 0 ≤ f.offset ∧ v = .compound [.word .int32 f.offset, .null]

def IsFieldRecord (f : Field) (v : Init) : Prop :=
  ∃ name type size place, Spelled (dotted f.name) name ∧ IsTypeEntity w Spelled f.type type ∧ 0 ≤ size ∧ size ≤ 0xFFFF ∧
    IsPlace f place ∧
    v = .compound [.ofEntity (some name), .ofEntity (some type), .word .uint16 f.access.bits.toNat, .word .uint16 size, place]

/-- Whether a value refers to the descriptor of a class. -/
def IsReference (c : ClassId) (v : Init) : Prop :=
  ∃ cls e, w.registry.class? c = some cls ∧ cls.descriptor = some e ∧ v = .ofEntity (some e)

/-- Whether values are the elements of a table with a tag, and what type they have. -/
inductive IsTable : (tag : Text) → (elem : TypeId) → List Init → Prop
  | methods {s : Session} {ms : List Method} {values : List Init} (hs : w.session = some s)
    (h : List.Forall₂ (IsMethodRecord w Spelled) ms values) : IsTable "_MT" s.types.method values
  | fields {s : Session} {fs : List Field} {values : List Init} (hs : w.session = some s)
    (h : List.Forall₂ (IsFieldRecord w Spelled) fs values) : IsTable "_FT" s.types.field values
  | interfaces {is : List ClassId} {values : List Init} (h : List.Forall₂ (IsReference w) is values) :
    IsTable "_IF" Mode.pointer.typeId values

/-- Whether a value is the reference to a vtable that objects of a class hold. -/
def IsVptr (cls : Class) (v : Init) : Prop :=
  cls.vtableEntity = none ∧ v = .null ∨
    ∃ vt mode offset, cls.vtableEntity = some vt ∧ (mode = .int32 ∨ mode = .int64) ∧
      v = .code (.add (.address vt) (.const mode offset))

/-- Whether a value is the header of a class descriptor. -/
def IsHeader (v : Init) : Prop :=
  ∃ (s : Session) (object : Class) (t : TypeId) (name : Text) (members : List Member) (k : ClassId) (cls : Class) (vptr : Init),
    w.session = some s ∧ w.registry.class? s.root = some object ∧ object.instance = some t ∧
      w.program.types.shape? t = some (.struct name members) ∧ w.registry.find? classClass = some k ∧
      w.registry.class? k = some cls ∧ IsVptr cls vptr ∧ v = .compound (vptr :: List.replicate (members.length - 1) .null)

/-- Whether a class descriptor refers to `super` as the descriptor of the superclass. -/
def IsSuper (cls : Class) (super : Option EntityId) : Prop :=
  cls.supertypes = [] ∧ super = none ∨
    ∃ c rest scls e, cls.supertypes = c :: rest ∧ w.registry.class? c = some scls ∧ scls.isInterface = false ∧
      scls.descriptor = some e ∧ super = some e

def memberValue (cls : Class) (b : BuiltClass) (header vptr : Init) (name : EntityId) (super : Option EntityId) :
    ClassMember → Init
  | .base => header
  | .nextOrVersion => .word .pointer classVersion
  | .name => .ofEntity (some name)
  | .accessFlags => .word .uint16 cls.access.bits.toNat
  | .superclass => .ofEntity super
  | .methods => .ofEntity (some b.methodTable)
  | .methodCount => .word .int16 cls.methods.size
  | .vtableMethodCount => .word .int16 (if cls.needsVtable then cls.vtableSize - (headerSlots - vptrSlot) else 0)
  | .fields => .ofEntity b.fieldTable
  | .sizeInBytes => .word .int32 cls.size
  | .fieldCount => .word .int16 cls.fields.size
  | .staticFieldCount => .word .int16 cls.staticFieldCount
  | .vtable => vptr
  | .interfaces => .ofEntity b.interfaceTable
  | .interfaceCount => .word .int16 cls.interfaces.length
  | .state => .word .int8 loadedState
  | _ => .null

/-- Whether an entity holds a table in which each of `as` has its element. -/
def HoldsTable {α : Type} (R : α → Init → Prop) (as : List α) (e : EntityId) : Prop :=
  ∃ values, w.program.content? e = some (.compound values) ∧ List.Forall₂ R as values

/-- Whether there is a table for `as` unless these are none. -/
def HoldsTable? {α : Type} (R : α → Init → Prop) (as : List α) (table : Option EntityId) : Prop :=
  as = [] ∧ table = none ∨ as ≠ [] ∧ ∃ e, table = some e ∧ HoldsTable w R as e

/-- Whether values and tables describe a class. -/
structure IsDescription (cls : Class) (b : BuiltClass) : Prop where
  entity : cls.descriptor = some b.entity
  members : ∃ header vptr name super, b.members = ClassMember.all.map (memberValue cls b header vptr name super) ∧
    IsHeader w header ∧ IsVptr cls vptr ∧ Spelled (dotted cls.name) name ∧ IsSuper w cls super
  methods : HoldsTable w (IsMethodRecord w Spelled) cls.methods.toList b.methodTable
  fields : HoldsTable? w (IsFieldRecord w Spelled) cls.fields.toList b.fieldTable
  interfaces : HoldsTable? w (IsReference w) cls.interfaces b.interfaceTable

def descriptorSlot (cls : Class) : Init := if cls.name.contains 0x24 then .null else .ofEntity cls.descriptor

def IsMethodCode (ref : MethodRef) (v : Init) : Prop := ∃ m, w.registry.method? ref = some m ∧ v = .ofEntity (w.codeEntity m)

def IsVtable (cls : Class) (slots : List Init) : Prop :=
  ∃ codes, List.Forall₂ (IsMethodCode w) cls.vtable.toList codes ∧ (headerSlots + codes.length : Int) ≤ cls.vtableSize ∧
    slots = [.null, .null, descriptorSlot cls, .null] ++ codes ++
      List.replicate (cls.vtableSize.toNat - (headerSlots + codes.length)) .null

end

/-! ### Kinds of changes -/

def constantEntity (name : Text) (t : TypeId) (text : Text) : Entity :=
  { name, ld := name, type := t, visibility := .hidden, linkage := { constant := true }, init := some (poolInit text) }

def tableEntity (name : Text) (t : TypeId) (values : List Init) : Entity :=
  { name, ld := name, type := t, visibility := .hidden, init := some (.compound values) }

def registrationEntity (name : Text) (descriptor : EntityId) : Entity :=
  { name
    ld := []
    type := Mode.pointer.typeId
    visibility := .hidden
    linkage := { constant := true, hiddenUser := true }
    segment := .registration
    alignment := 1
    init := some (.ofEntity (some descriptor)) }

def addConstant (s : Session) (text : Text) (e : EntityId) : Session :=
  { s with
    pool := s.pool.insert text ⟨text, nameHash text, e⟩
    constants := s.constants.push ⟨text, nameHash text, e⟩ }

/-- A change that leaves the entities and the graphs that are there as they are. -/
inductive Addition (w : Workspace) : Workspace → Prop
  | trace (trace : Trace.Recorder) : Addition w { w with trace }
  | layouts (t : TypeId) : Addition w { w with layouts := (Layout.layoutOf w.program.types w.target t w.layouts).2 }
  | type (shape : Shape) : Addition w { w with program := (w.program.addType shape).2 }
  -- A name for a constant is only given up if it is in use.
  | name (tag : Text) (htag : tag = "_Utf8" → ¬w.program.Unused (w.program.uniqueName tag).1) :
    Addition w { w with program := (w.program.uniqueName tag).2 }
  | constant {s : Session} {text : Text} (hs : w.session = some s) (hopen : s.closed = false) (hnew : s.pool[text]? = none)
    (hlength : text.length ≤ 0xFFFF) (hfree : w.program.Unused (w.program.uniqueName "_Utf8").1) :
    Addition w
      { w with
        program := (w.program.uniqueName "_Utf8").2.push
          (constantEntity (w.program.uniqueName "_Utf8").1 s.types.utf8 text)
        session := some (addConstant s text w.program.entities.size) }
  | table {tag name : Text} {elem t : TypeId} {values : List Init} (htable : IsTable w w.Pooled tag elem values)
    (htype : w.program.types.shape? t = some (.array (some elem) values.length))
    (hname : ∃ n, name = tag ++ "." ++ Text.ofNat n) (hfree : w.program.Unused name) :
    Addition w { w with program := w.program.push (tableEntity name t values) }
  | registration {c : ClassId} {cls : Class} {d : EntityId} (hcls : w.registry.class? c = some cls)
    (hd : cls.descriptor = some d) :
    Addition w
      { w with
        program := (w.program.uniqueName "jcr_ptr").2.push (registrationEntity (w.program.uniqueName "jcr_ptr").1 d) }

/-- A change by which vtables and class descriptors get their content. -/
inductive Filling (w : Workspace) : Workspace → Prop
  | add {w' : Workspace} (h : Addition w w') : Filling w w'
  | vtableType {c : ClassId} {cls : Class} {vt : EntityId} {t : TypeId} (alignment : Int)
    (hcls : w.registry.class? c = some cls) (hneeds : cls.needsVtable = true) (hvt : cls.vtableEntity = some vt)
    (ht : w.program.types.shape? t = some (.array (some Mode.pointer.typeId) cls.vtableSize)) :
    Filling w { w with program := w.program.modifyEntity vt fun ent => { ent with type := t, alignment } }
  | vtable {s : Session} {c : ClassId} {cls : Class} {vt : EntityId} {slots : List Init} (hs : w.session = some s)
    (hopen : s.closed = false) (hcls : w.registry.class? c = some cls) (hneeds : cls.needsVtable = true)
    (hvt : cls.vtableEntity = some vt) (hexternal : cls.external = false) (hnew : c ∉ s.vtables)
    (htype : ∀ ent, w.program.entity? vt = some ent →
      w.program.types.shape? ent.type = some (.array (some Mode.pointer.typeId) cls.vtableSize))
    (hslots : IsVtable w cls slots) :
    Filling w
      { w with
        program := w.program.modifyEntity vt fun ent => { ent with init := some (.compound slots) }
        session := some { s with vtables := s.vtables.insert c } }
  | descriptor {s : Session} {c : ClassId} {cls : Class} {b : BuiltClass} (hs : w.session = some s)
    (hopen : s.closed = false) (hcls : w.registry.class? c = some cls) (hexternal : cls.external = false)
    (hnew : s.built[c]? = none) (hdescription : IsDescription w w.Pooled cls b) :
    Filling w
      { w with
        program := w.program.modifyEntity b.entity fun ent =>
          { ent with type := s.types.cls, init := some (.compound b.members), alignment := descriptorAlignment }
        session := some { s with built := s.built.insert c b } }

/-- A change that a session makes until its end. -/
inductive Progress (w : Workspace) : Workspace → Prop
  | fill {w' : Workspace} (h : Filling w w') : Progress w w'
  | graphs (graphs : Array Graph) : Progress w { w with program := { w.program with graphs } }
  | body (e : EntityId) (g : GraphId) :
    Progress w { w with program := w.program.modifyEntity e fun ent => { ent with body := some g } }

/-- A change that a session makes. -/
inductive Change (w : Workspace) : Workspace → Prop
  | progress {w' : Workspace} (h : Progress w w') : Change w w'
  | close : Change w { w with session := w.session.map Session.close }

/-! ### What stays

Later in a session, what a record says still holds, as long as the texts of constants do. -/

section

variable {w w' : Workspace} {Spelled Spelled' : Text → EntityId → Prop} (hfollows : w.Follows w')
  (hspelled : ∀ text e, Spelled text e → Spelled' text e)

include hfollows hspelled

theorem IsMethodRecord.later {m : Method} (h : IsMethodRecord w Spelled m v) : IsMethodRecord w' Spelled' m v := by
  obtain ⟨name, sig, hname, hsig, hslot, hv⟩ := h
  exact ⟨name, sig, hspelled _ _ hname, hspelled _ _ hsig, hslot, by rw [hfollows.codeEntity_eq, hv]⟩

theorem IsFieldRecord.later {f : Field} (h : IsFieldRecord w Spelled f v) : IsFieldRecord w' Spelled' f v := by
  obtain ⟨name, type, size, place, hname, htype, hsize⟩ := h
  refine ⟨name, type, size, place, hspelled _ _ hname, ?_, hsize⟩
  rw [IsTypeEntity, hfollows.descriptorEntity_eq, hfollows.registry_eq]
  exact htype.imp_right fun ⟨hnone, hspells⟩ => ⟨hnone, hspelled _ _ hspells⟩

omit hspelled in
theorem IsReference.later {c : ClassId} (h : IsReference w c v) : IsReference w' c v := by
  rw [IsReference, hfollows.registry_eq]
  exact h

omit hspelled in
theorem IsHeader.later (h : IsHeader w v) : IsHeader w' v := by
  obtain ⟨s, object, t, name, members, k, cls, vptr, hs, hobject, ht, hshape, hk, hcls, hv⟩ := h
  obtain ⟨s', hs', hclose⟩ := hfollows.session hs
  have hroot : s'.close.root = s.close.root := congrArg Session.root hclose
  refine ⟨s', object, t, name, members, k, cls, vptr, hs', ?_, ht, hfollows.types _ _ hshape, ?_, ?_, hv⟩
  · rw [hfollows.registry_eq, ← hobject]
    exact congrArg w.registry.class? hroot
  · rw [hfollows.registry_eq, hk]
  · rw [hfollows.registry_eq, hcls]

omit hspelled hfollows in
theorem HoldsTable.later {α : Type} {R R' : α → Init → Prop} {as : List α} (h : HoldsTable w R as e)
    (hR : ∀ a v, R a v → R' a v) (hcontent : ∀ e v, w.program.content? e = some v → w'.program.content? e = some v) :
    HoldsTable w' R' as e := by
  obtain ⟨values, hvalues, hrows⟩ := h
  exact ⟨values, hcontent _ _ hvalues, hrows.imp hR⟩

omit hspelled hfollows in
theorem HoldsTable?.later {α : Type} {R R' : α → Init → Prop} {as : List α} {table : Option EntityId}
    (h : HoldsTable? w R as table) (hR : ∀ a v, R a v → R' a v)
    (hcontent : ∀ e v, w.program.content? e = some v → w'.program.content? e = some v) : HoldsTable? w' R' as table :=
  h.imp_right fun ⟨hne, e, he, htable⟩ => ⟨hne, e, he, htable.later hR hcontent⟩

theorem IsDescription.later {cls : Class} {b : BuiltClass} (h : IsDescription w Spelled cls b)
    (hcontent : ∀ e v, w.program.content? e = some v → w'.program.content? e = some v) : IsDescription w' Spelled' cls b where
  entity := h.entity
  members := by
    obtain ⟨header, vptr, name, super, hmembers, hheader, hvptr, hname, hsuper⟩ := h.members
    refine ⟨header, vptr, name, super, hmembers, hheader.later hfollows, hvptr, hspelled _ _ hname, ?_⟩
    rw [IsSuper, hfollows.registry_eq]
    exact hsuper
  methods := h.methods.later (fun _ _ hrow => hrow.later hfollows hspelled) hcontent
  fields := h.fields.later (fun _ _ hrow => hrow.later hfollows hspelled) hcontent
  interfaces := h.interfaces.later (fun _ _ hrow => hrow.later hfollows) hcontent

omit hspelled in
theorem IsVtable.later {cls : Class} {slots : List Init} (h : IsVtable w cls slots) : IsVtable w' cls slots := by
  obtain ⟨codes, hcodes, hroom, hslots⟩ := h
  refine ⟨codes, hcodes.imp fun ref v hcode => ?_, hroom, hslots⟩
  obtain ⟨m, hm, hv⟩ := hcode
  exact ⟨m, by rw [hfollows.registry_eq, hm], by rw [hfollows.codeEntity_eq, hv]⟩

end

variable {w w' : Workspace}

theorem follows_push (ent : Entity) (hfree : w.program.Unused ent.ld) : w.Follows { w with program := w.program.push ent } where
  target_eq := rfl
  registry_eq := rfl
  session_eq := rfl
  types _ _ h := h
  entities _ ent' h := ⟨ent', Program.entity?_push_of_some h ent, rfl, rfl, rfl, rfl, rfl⟩
  lookup _ _ h := Program.lookup_push_of_some hfree h

theorem follows_modifyEntity (w : Workspace) (e : EntityId) {f : Entity → Entity}
    (hf : ∀ ent, (f ent).name = ent.name ∧ (f ent).ld = ent.ld ∧ (f ent).visibility = ent.visibility ∧
      (f ent).linkage = ent.linkage ∧ (f ent).segment = ent.segment) :
    w.Follows { w with program := w.program.modifyEntity e f } where
  target_eq := rfl
  registry_eq := rfl
  session_eq := rfl
  types _ _ h := h
  entities e' ent h := by
    by_cases heq : e = e'
    · refine ⟨f ent, ?_, hf ent⟩
      rw [Program.entity?_modifyEntity, if_pos heq, h, Option.map_some]
    · refine ⟨ent, ?_, rfl, rfl, rfl, rfl, rfl⟩
      rw [Program.entity?_modifyEntity, if_neg heq, h]
  lookup _ _ h := h

theorem follows_session (w : Workspace) {s : Option Session} (hs : s.map Session.close = w.session.map Session.close) :
    w.Follows { w with session := s } :=
  ⟨rfl, rfl, hs, fun _ _ h => h, fun _ ent h => ⟨ent, h, rfl, rfl, rfl, rfl, rfl⟩, fun _ _ h => h⟩

theorem Addition.follows (h : Addition w w') : w.Follows w' := by
  have hsame : ∀ ent : Entity, ent.name = ent.name ∧ ent.ld = ent.ld ∧ ent.visibility = ent.visibility ∧
      ent.linkage = ent.linkage ∧ ent.segment = ent.segment := fun _ => ⟨rfl, rfl, rfl, rfl, rfl⟩
  have hname : ∀ tag, w.Follows { w with program := (w.program.uniqueName tag).2 } := fun tag =>
    ⟨rfl, rfl, rfl, fun _ _ h => h, fun _ ent h => ⟨ent, h, hsame ent⟩, fun _ _ h => h⟩
  cases h with
  | trace trace => exact ⟨rfl, rfl, rfl, fun _ _ h => h, fun _ ent h => ⟨ent, h, hsame ent⟩, fun _ _ h => h⟩
  | layouts t => exact ⟨rfl, rfl, rfl, fun _ _ h => h, fun _ ent h => ⟨ent, h, hsame ent⟩, fun _ _ h => h⟩
  | type shape =>
    exact ⟨rfl, rfl, rfl, w.program.types.extends_push shape, fun _ ent h => ⟨ent, h, hsame ent⟩, fun _ _ h => h⟩
  | name tag _ => exact hname tag
  | @constant s text hs _ _ _ hfree =>
    refine (hname "_Utf8").trans ((follows_push _ hfree).trans (follows_session _ ?_))
    simp [hs, addConstant, Session.close]
  | table _ _ _ hfree => exact follows_push _ hfree
  | registration _ _ => exact (hname "jcr_ptr").trans (follows_push _ (.inl rfl))

theorem Filling.follows (h : Filling w w') : w.Follows w' := by
  cases h with
  | add h => exact h.follows
  | vtableType alignment _ _ _ _ => exact follows_modifyEntity w _ fun _ => ⟨rfl, rfl, rfl, rfl, rfl⟩
  | @vtable s c cls vt slots hs _ _ _ _ _ _ _ _ =>
    have hfill := follows_modifyEntity w vt (f := fun ent => { ent with init := some (.compound slots) })
      fun _ => ⟨rfl, rfl, rfl, rfl, rfl⟩
    refine hfill.trans (follows_session _ ?_)
    simp [hs, Session.close]
  | @descriptor s c cls b hs _ _ _ _ _ =>
    have hfill := follows_modifyEntity w b.entity
      (f := fun ent =>
        { ent with type := s.types.cls, init := some (.compound b.members), alignment := descriptorAlignment })
      fun _ => ⟨rfl, rfl, rfl, rfl, rfl⟩
    refine hfill.trans (follows_session _ ?_)
    simp [hs, Session.close]

theorem Progress.follows (h : Progress w w') : w.Follows w' := by
  cases h with
  | fill h => exact h.follows
  | graphs graphs =>
    exact ⟨rfl, rfl, rfl, fun _ _ h => h, fun _ ent h => ⟨ent, h, rfl, rfl, rfl, rfl, rfl⟩, fun _ _ h => h⟩
  | body e g => exact follows_modifyEntity w e fun _ => ⟨rfl, rfl, rfl, rfl, rfl⟩

theorem Change.follows (h : Change w w') : w.Follows w' := by
  cases h with
  | progress h => exact h.follows
  | close =>
    refine follows_session w ?_
    cases w.session <;> rfl

theorem Addition.entity?_eq (h : Addition w w') {ent : Entity} (he : w.program.entity? e = some ent) :
    w'.program.entity? e = some ent := by
  cases h with
  | trace trace => exact he
  | layouts t => exact he
  | type shape => exact he
  | name tag _ => exact he
  | constant _ _ _ _ _ => exact Program.entity?_push_of_some he _
  | table _ _ _ _ => exact Program.entity?_push_of_some he _
  | registration _ _ => exact Program.entity?_push_of_some he _

theorem Addition.body_eq (h : Addition w w') {ent : Entity} (hnew : w.program.entity? e = none)
    (he : w'.program.entity? e = some ent) : ent.body = none := by
  have hpush : ∀ p : Program, p.entity? e = none → ∀ new : Entity, (p.push new).entity? e = some ent → new = ent := by
    intro p hp new hent
    rw [Program.entity?_push] at hent
    split_ifs at hent
    · exact Option.some.inj hent
    · cases hp.symm.trans hent
  cases h with
  | trace _ | layouts _ | type _ | name _ _ => cases hnew.symm.trans he
  | constant _ _ _ _ _ =>
    rw [← hpush _ hnew _ he]
    rfl
  | table _ _ _ _ =>
    rw [← hpush _ hnew _ he]
    rfl
  | registration _ _ =>
    rw [← hpush _ hnew _ he]
    rfl

theorem Addition.graphs_eq (h : Addition w w') : w'.program.graphs = w.program.graphs := by
  cases h <;> rfl

theorem Addition.content?_eq (h : Addition w w') (e : EntityId) (v : Init) (he : w.program.content? e = some v) :
    w'.program.content? e = some v := by
  obtain ⟨ent, hent, hinit⟩ := Option.bind_eq_some_iff.1 he
  exact Option.bind_eq_some_iff.2 ⟨ent, h.entity?_eq hent, hinit⟩

theorem Addition.pooled (h : Addition w w') (text : Text) (e : EntityId) (hpooled : w.Pooled text e) : w'.Pooled text e := by
  obtain ⟨s, c, hs, hc, rfl⟩ := hpooled
  cases h with
  | @constant s' text' hs' _ hnew _ _ =>
    cases hs.symm.trans hs'
    refine ⟨_, c, rfl, ?_, rfl⟩
    have hne : text' ≠ text := by
      rintro rfl
      cases hnew.symm.trans hc
    simp [addConstant, Std.HashMap.getElem?_insert, hne, hc]
  | trace _ | layouts _ | type _ | name _ _ | table _ _ _ _ | registration _ _ => exact ⟨s, c, hs, hc, rfl⟩

theorem Addition.session (h : Addition w w') {s : Session} (hs : w.session = some s) :
    ∃ s', w'.session = some s' ∧ s'.closed = s.closed ∧ s'.built = s.built ∧ s'.vtables = s.vtables ∧ s'.close = s.close := by
  cases h with
  | @constant s' text' hs' _ hnew _ _ =>
    cases hs.symm.trans hs'
    exact ⟨_, rfl, rfl, rfl, rfl, rfl⟩
  | trace _ | layouts _ | type _ | name _ _ | table _ _ _ _ | registration _ _ => exact ⟨s, hs, rfl, rfl, rfl, rfl⟩

end Abi

end ClassAbi
