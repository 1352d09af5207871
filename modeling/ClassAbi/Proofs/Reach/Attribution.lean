import ClassAbi.Proofs.Compile.Assembly
import ClassAbi.Proofs.LinkerName.Recognized
import ClassAbi.Proofs.Reach.Index
import ClassAbi.Reach.Snapshot

/-!
# Attribution of initializers

The index reads classes from the linker names of routines and finds the calls of a helper in finished bodies, so nothing in it
is taken from the classes that were entered. Here it is compared with them. The names of static initializers are the only ones
that are recognized, and the class is read back from each (`Compile.Assembled.initializerEntry_eq`), so the index has the
initializer of every class that has one with a body. The calls of a body are the `initclass` operations of its method in their
order (`callsIn_eq`), and the bodies are visited in the order of their linker names.
-/

namespace ClassAbi

variable {t : Text} {p : Program} {ref : MethodRef}

open ClassAbi.Action Workspace Abi Lowering

/-! ### Byte order -/

namespace Text

theorem le_iff {s : Text} : le s t = true ↔ s = t ∨ s < t := by
  induction s generalizing t with
  | nil => cases t <;> simp [le]
  | cons a s ih =>
    cases t with
    | nil => simp [le]
    | cons b t =>
      rw [le, List.cons_lt_cons_iff, List.cons.injEq]
      split_ifs with hlt hgt
      · simp [hlt]
      · have hne : a ≠ b := fun heq => by simp [heq] at hgt
        simp [hlt, hne]
      · obtain rfl : a = b := UInt8.le_antisymm (UInt8.not_lt.1 hgt) (UInt8.not_lt.1 hlt)
        simp [ih]

theorem le_total (s t : Text) : (le s t || le t s) = true := by
  induction s generalizing t with
  | nil => simp [le]
  | cons a s ih =>
    cases t with
    | nil => simp [le]
    | cons b t =>
      rw [le, le]
      split_ifs
      · rfl
      · rfl
      · rfl
      · exact ih t

theorem le_trans {s u : Text} (h : le s t = true) (h' : le t u = true) : le s u = true := by
  rw [le_iff] at h h' ⊢
  rcases h with rfl | h
  · exact h'
  · rcases h' with rfl | h'
    · exact .inr h
    · exact .inr (List.lt_trans h h')

end Text

theorem Program.mem_routines {e : EntityId} {ent : Entity} :
    (e, ent) ∈ p.routines ↔ p.entity? e = some ent ∧ p.isRoutine ent = true := by
  rw [routines, List.mem_filter, List.mem_map, Program.entity?]
  refine and_congr_left fun _ => ?_
  constructor
  · rintro ⟨⟨ent', i⟩, hmem, heq⟩
    obtain ⟨rfl, rfl⟩ := Prod.mk.inj heq
    rw [← Array.getElem?_toList]
    exact List.mem_zipIdx_iff_getElem?.1 hmem
  · intro he
    rw [← Array.getElem?_toList] at he
    exact ⟨(ent, e), List.mem_zipIdx_iff_getElem?.2 he, rfl⟩

theorem Program.nodup_routines (p : Program) : (p.routines.map Prod.fst).Nodup := by
  refine (List.filter_sublist.map Prod.fst).nodup ?_
  rw [List.map_map]
  have hids : p.entities.toList.zipIdx.map Prod.snd = List.range' 0 p.entities.toList.length := List.zipIdx_map_snd 0 _
  exact hids ▸ List.nodup_range'

/-! ### What the classes say -/

namespace Reach

variable {target : Target} {w w0 : Workspace} {c : ClassId} {cls : Class} {e : EntityId} {ent : Entity} {i : Nat} {m : Method}

def isCompiled (cls : Class) (m : Method) : Bool := !(cls.external || (m.access.isAbstract || m.access.isNative))

/-- What the linker calls something that has a linker name. -/
def decorated (target : Target) (name : Except LinkerName.EncodeError Text) : Text := (name.toOption.map target.decorate).getD []

def methodName (target : Target) (cls : Class) (m : Method) : Text :=
  decorated target (LinkerName.ofMethod cls.name m.name m.descriptor)

/-- The linker name of the static initializer of a class, empty if there is none with a body. -/
def initializerName (target : Target) (cls : Class) : Text :=
  ((cls.methods.toList.find? fun m : Method => m.name = "<clinit>" ∧ isCompiled cls m = true).map (methodName target cls)).getD []

def classEntry (target : Target) (cls : Class) : ClassEntry :=
  ⟨cls.name, decorated target (LinkerName.ofDescriptor cls.name), initializerName target cls⟩

def callEntries (target : Target) (r : Registry) (cls : Class) (m : Method) : List CallEntry :=
  (initialized m.ops).map fun name =>
    ⟨methodName target cls m, name, (((r.find? name).bind r.class?).map (initializerName target)).getD []⟩

def withClass? (r : Registry) (ref : MethodRef) : Option (Class × Method) :=
  (r.class? ref.owner).bind fun cls => cls.methods[ref.index]?.map (cls, ·)

def nameOf (target : Target) (r : Registry) (ref : MethodRef) : Text :=
  ((withClass? r ref).map fun (cls, m) => methodName target cls m).getD []

/-- The records of the initializations in a registered method. -/
def callsOf (target : Target) (r : Registry) (ref : MethodRef) : List CallEntry :=
  ((withClass? r ref).map fun (cls, m) => callEntries target r cls m).getD []

theorem withClass?_eq_some_iff {r : Registry} :
    withClass? r ref = some (cls, m) ↔ r.class? ref.owner = some cls ∧ cls.methods[ref.index]? = some m := by
  simp only [withClass?, Option.bind_eq_some_iff, Option.map_eq_some_iff, Prod.mk.injEq]
  constructor
  · rintro ⟨_, hcls, _, hm, rfl, rfl⟩
    exact ⟨hcls, hm⟩
  · rintro ⟨hcls, hm⟩
    exact ⟨cls, hcls, m, hm, rfl, rfl⟩

end Reach

/-- Whether linker names tell what the methods are: class names are read back, and `<` stands only in the names of
initializers, of which a class has at most one that is static. -/
structure Registry.Attributable (r : Registry) : Prop where
  classes : ∀ c cls, r.class? c = some cls → LinkerName.ReadablePath cls.name ∧ LinkerName.less ∉ cls.name
  methods : ∀ c cls (m : Method), r.class? c = some cls → m ∈ cls.methods → m.name ≠ "<init>" → m.name ≠ "<clinit>" →
    LinkerName.less ∉ m.name
  fits : ∀ c cls m ld, r.class? c = some cls → m ∈ cls.methods → LinkerName.ofMethod cls.name m.name m.descriptor = .ok ld →
    LinkerName.FitsMemory ld
  single : ∀ c cls (i j : Nat) (m m' : Method), r.class? c = some cls → cls.methods[i]? = some m → cls.methods[j]? = some m' →
    m.name = "<clinit>" → m'.name = "<clinit>" → i = j

theorem Registry.Spells.less_not_mem {r : Registry} (h : r.Spells t)
    (hclasses : ∀ c cls, r.class? c = some cls → LinkerName.less ∉ cls.name) : LinkerName.less ∉ t := by
  intro hmem
  rcases h _ hmem with hletter | ⟨c, cls, hcls, hless⟩
  · rcases hletter with hmem | ⟨p, hp⟩
    · revert hmem
      decide
    · have hnone : Primitive.ofLetter? LinkerName.less = none := by decide
      cases hnone.symm.trans hp
  · exact hclasses c cls hcls hless

/-! ### Routines -/

namespace Compile

open Reach

variable {target : Target} {w w0 : Workspace} {s0 : Session} {d : DeclaredHelper} {c : ClassId} {cls : Class} {e : EntityId}
  {ent : Entity} {i : Nat} {m : Method}

/-- Whether an entity is the routine of a method. -/
structure IsRoutineOf (target : Target) (p : Program) (cls : Class) (m : Method) (e : EntityId) (ent : Entity) : Prop where
  entity : m.entity = some e
  found : p.entity? e = some ent
  isRoutine : p.isRoutine ent = true
  ld : ∃ ld, LinkerName.ofMethod cls.name m.name m.descriptor = .ok ld ∧ ent.ld = target.decorate ld
  visibility : ent.visibility ≠ .external ↔ isCompiled cls m = true

theorem IsRoutineOf.ld_eq (h : IsRoutineOf target p cls m e ent) : ent.ld = methodName target cls m := by
  obtain ⟨ld, hok, hld⟩ := h.ld
  rw [hld, methodName, hok]
  rfl

theorem IsRoutineOf.mem_routines (h : IsRoutineOf target p cls m e ent) : (e, ent) ∈ p.routines :=
  Program.mem_routines.2 ⟨h.found, h.isRoutine⟩

theorem Assembled.target_eq (h : Assembled target w0 s0 d w) : w0.target = target := h.opened.target_eq

theorem Assembled.registry_eq (h : Assembled target w0 s0 d w) : w.registry = w0.registry := h.sound.follows.registry_eq

theorem Assembled.isRoutineOf (h : Assembled target w0 s0 d w) (hcls : w.registry.class? c = some cls)
    (hm : cls.methods[i]? = some m) : ∃ e ent, IsRoutineOf target w.program cls m e ent := by
  rw [h.registry_eq] at hcls
  obtain ⟨e, ent0, ent, hentity, hmade, hent, hsig⟩ := h.sound.exists_routine hcls hm
  obtain ⟨ent', hent', -, hld, hvisibility, -⟩ := h.sound.follows.entities e ent0 hmade.entity
  cases hent.symm.trans hent'
  refine ⟨e, ent, hentity, hent, ?_, ?_, ?_⟩
  · rw [Program.isRoutine, hsig]
    rfl
  · obtain ⟨ld, ⟨m', hm', hok⟩, hdecorated⟩ := hmade.ld
    cases hm.symm.trans hm'
    exact ⟨ld, hok, by rw [hld, hdecorated, h.target_eq]⟩
  · rw [hvisibility, hmade.visibility, Class.isDeclared, hm, Option.any_some, isCompiled]
    cases cls.external || (m.access.isAbstract || m.access.isNative) <;> simp

theorem Assembled.exists_isRoutineOf (h : Assembled target w0 s0 d w) (hent : w.program.entity? e = some ent)
    (hroutine : w.program.isRoutine ent = true) (hvisibility : ent.visibility ≠ .external) :
    ∃ (ref : MethodRef) (cls : Class) (m : Method), w.registry.class? ref.owner = some cls ∧ cls.methods[ref.index]? = some m ∧
      IsRoutineOf target w.program cls m e ent := by
  obtain ⟨ref, m, hm, he⟩ := h.method_of_routine hent hvisibility hroutine
  rw [← h.registry_eq] at hm
  obtain ⟨cls, hcls, hmethod⟩ := Option.bind_eq_some_iff.1 hm
  obtain ⟨e', ent', hr⟩ := h.isRoutineOf hcls hmethod
  cases he.symm.trans hr.entity
  cases hent.symm.trans hr.found
  exact ⟨ref, cls, m, hcls, hmethod, hr⟩

/-! ### Initializers -/

section

variable {triple : Text} (h : Assembled target w0 s0 d w) (htriple : Target.ofTriple triple = .ok target)
  (hnames : w.registry.Attributable)

theorem decoration_of_ofTriple (htriple : Target.ofTriple triple = .ok target) :
    target.decoration = [] ∨ target.decoration = [Ascii.underscore] := by
  have hall : ∀ entry ∈ Target.supported, entry.2.decoration = [] ∨ entry.2.decoration = [Ascii.underscore] := by decide
  exact hall _ (Target.mem_supported htriple)

include h htriple hnames

/-- The routine of a method is taken for a static initializer if the method is one and has a body. -/
theorem Assembled.isRecognized_iff (hcls : w.registry.class? c = some cls) (hm : cls.methods[i]? = some m)
    (hr : IsRoutineOf target w.program cls m e ent) : IsRecognized ent ↔ m.name = "<clinit>" ∧ isCompiled cls m = true := by
  obtain ⟨ld, hok, hld⟩ := hr.ld
  have hmem : m ∈ cls.methods := Array.mem_of_getElem? hm
  have hless : ∀ c cls, w.registry.class? c = some cls → LinkerName.less ∉ cls.name := fun c cls hcls => (hnames.classes c cls hcls).2
  have hdescriptor : LinkerName.less ∉ m.descriptor := by
    rw [h.registry_eq] at hless hcls
    exact (h.opened.spelled c cls m hcls hmem).less_not_mem hless
  have hrecognized := LinkerName.isInitializer_iff (decoration_of_ofTriple htriple) hok (hless c cls hcls)
    (hnames.methods c cls m hcls hmem) hdescriptor
  rw [IsRecognized, hr.visibility, hld, Target.decorate, hrecognized, and_comm]

omit htriple in
theorem Assembled.ownerOf?_eq (hcls : w.registry.class? c = some cls) (hm : cls.methods[i]? = some m)
    (hr : IsRoutineOf target w.program cls m e ent) (hname : m.name = "<clinit>") :
    ownerOf? w.registry target.decoration ent = some c := by
  obtain ⟨ld, hok, hld⟩ := hr.ld
  obtain ⟨hread, hless⟩ := hnames.classes c cls hcls
  have hfits := hnames.fits c cls m ld hcls (Array.mem_of_getElem? hm) hok
  have hclass : LinkerName.initializerClass (target.decoration ++ ld) target.decoration = .ok cls.name :=
    LinkerName.initializerClass_of_readable target.decoration (hname ▸ hok) hfits hread hless
  rw [ownerOf?, hld, Target.decorate, hclass]
  rw [h.registry_eq] at hcls ⊢
  exact h.opened.built.known.found c cls hcls

/-- The routine of a method is noted if the method is a static initializer with a body, and then for its own class. -/
theorem Assembled.initializerEntry_eq (hcls : w.registry.class? c = some cls) (hm : cls.methods[i]? = some m)
    (hr : IsRoutineOf target w.program cls m e ent) :
    initializerEntry w.registry target.decoration (e, ent) =
      if m.name = "<clinit>" ∧ isCompiled cls m = true then some (c, e) else none := by
  have hiff := h.isRecognized_iff htriple hnames hcls hm hr
  rw [initializerEntry]
  by_cases hinit : m.name = "<clinit>" ∧ isCompiled cls m = true
  · rw [if_pos (hiff.2 hinit), if_pos hinit, h.ownerOf?_eq hnames hcls hm hr hinit.1]
    rfl
  · rw [if_neg (mt hiff.1 hinit), if_neg hinit]

theorem Assembled.mem_initializers :
    (c, e) ∈ w.program.routines.filterMap (initializerEntry w.registry target.decoration) ↔
      ∃ (cls : Class) (i : Nat) (m : Method), w.registry.class? c = some cls ∧ cls.methods[i]? = some m ∧ m.entity = some e ∧
        m.name = "<clinit>" ∧ isCompiled cls m = true := by
  rw [List.mem_filterMap]
  constructor
  · rintro ⟨⟨e', ent⟩, hmem, hentry⟩
    obtain ⟨hent, hroutine⟩ := Program.mem_routines.1 hmem
    have hvisibility : ent.visibility ≠ .external := by
      intro hexternal
      rw [initializerEntry, if_neg fun hrecognized => hrecognized.1 hexternal] at hentry
      cases hentry
    obtain ⟨ref, cls, m, hcls, hm, hr⟩ := h.exists_isRoutineOf hent hroutine hvisibility
    rw [h.initializerEntry_eq htriple hnames hcls hm hr] at hentry
    split_ifs at hentry with hinit
    cases hentry
    exact ⟨cls, ref.index, m, hcls, hm, hr.entity, hinit⟩
  · rintro ⟨cls, i, m, hcls, hm, he, hinit⟩
    obtain ⟨e', ent, hr⟩ := h.isRoutineOf hcls hm
    cases he.symm.trans hr.entity
    exact ⟨(e, ent), hr.mem_routines, by rw [h.initializerEntry_eq htriple hnames hcls hm hr, if_pos hinit]⟩

theorem Assembled.ownerOf?_ne_none (hmem : (e, ent) ∈ w.program.routines) (hrecognized : IsRecognized ent) :
    ownerOf? w.registry target.decoration ent ≠ none := by
  obtain ⟨hent, hroutine⟩ := Program.mem_routines.1 hmem
  obtain ⟨ref, cls, m, hcls, hm, hr⟩ := h.exists_isRoutineOf hent hroutine hrecognized.1
  have hinit := (h.isRecognized_iff htriple hnames hcls hm hr).1 hrecognized
  rw [h.ownerOf?_eq hnames hcls hm hr hinit.1]
  exact Option.some_ne_none _

theorem Assembled.pairwise_initializers :
    (w.program.routines.filterMap (initializerEntry w.registry target.decoration)).Pairwise fun a b => (a.1 == b.1) = false := by
  have hfst : ∀ {p : EntityId × Entity} {entry}, initializerEntry w.registry target.decoration p = some entry → entry.2 = p.1 := by
    intro p entry hentry
    rw [initializerEntry] at hentry
    split_ifs at hentry
    obtain ⟨c, -, rfl⟩ := Option.map_eq_some_iff.1 hentry
    rfl
  have hdistinct : w.program.routines.Pairwise fun a b => a.1 ≠ b.1 := List.pairwise_map.1 w.program.nodup_routines
  rw [List.pairwise_filterMap]
  refine hdistinct.imp_of_mem fun {p q} hp hq hne entry hentry entry' hentry' => ?_
  rw [beq_eq_false_iff_ne]
  intro hsame
  obtain ⟨c, e⟩ := entry
  obtain ⟨c', e'⟩ := entry'
  obtain rfl : c = c' := hsame
  -- Both are the routine of the only static initializer of the class.
  obtain ⟨cls, i, m, hcls, hm, he, hname, -⟩ := (h.mem_initializers htriple hnames).1 (List.mem_filterMap.2 ⟨p, hp, hentry⟩)
  obtain ⟨cls', i', m', hcls', hm', he', hname', -⟩ :=
    (h.mem_initializers htriple hnames).1 (List.mem_filterMap.2 ⟨q, hq, hentry'⟩)
  cases hcls.symm.trans hcls'
  obtain rfl := hnames.single c cls i i' m m' hcls hm hm' hname hname'
  cases hm.symm.trans hm'
  apply hne
  rw [← hfst hentry, ← hfst hentry']
  exact Option.some.inj (he.symm.trans he')

end

/-! ### The index -/

/-- Whether an index knows the classes of descriptors, and the initializers of classes. -/
structure Indexes (target : Target) (r : Registry) (p : Program) (x : Index) : Prop where
  descriptor : ∀ c cls, r.class? c = some cls → ∃ e, cls.descriptor = some e ∧ x.byDescriptor[e]? = some c
  initializer : ∀ c cls, r.class? c = some cls → ldOf p x.initializers[c]? = initializerName target cls

theorem Assembled.ldOf_initializer {triple : Text} (h : Assembled target w0 s0 d w) (htriple : Target.ofTriple triple = .ok target)
    (hnames : w.registry.Attributable) (hcls : w.registry.class? c = some cls) :
    ldOf w.program
      (Std.HashMap.ofList (w.program.routines.filterMap (initializerEntry w.registry target.decoration)))[c]? =
      initializerName target cls := by
  have hpairwise := h.pairwise_initializers htriple hnames
  rw [initializerName]
  cases hfind : cls.methods.toList.find? fun m : Method => m.name = "<clinit>" ∧ isCompiled cls m = true with
  | none =>
    rw [List.find?_eq_none] at hfind
    rw [Std.HashMap.getElem?_ofList_of_contains_eq_false]
    · rfl
    · rw [← Bool.not_eq_true, List.contains_iff_mem, List.mem_map]
      rintro ⟨⟨c', e⟩, hmem, rfl⟩
      obtain ⟨cls', i, m, hcls', hm, -, hinit⟩ := (h.mem_initializers htriple hnames).1 hmem
      cases hcls.symm.trans hcls'
      exact hfind m (Array.mem_toList_iff.2 (Array.mem_of_getElem? hm)) (decide_eq_true hinit)
  | some m =>
    have hinit := List.find?_some hfind
    rw [decide_eq_true_eq] at hinit
    obtain ⟨i, hm⟩ := Array.mem_iff_getElem?.1 (Array.mem_toList_iff.1 (List.mem_of_find?_eq_some hfind))
    obtain ⟨e, ent, hr⟩ := h.isRoutineOf hcls hm
    have hmem := (h.mem_initializers htriple hnames).2 ⟨cls, i, m, hcls, hm, hr.entity, hinit⟩
    rw [Std.HashMap.getElem?_ofList_of_mem BEq.rfl hpairwise hmem, ldOf, Option.bind_some, hr.found]
    exact hr.ld_eq

theorem Assembled.exists_descriptor (h : Assembled target w0 s0 d w) (hcls : w.registry.class? c = some cls) :
    ∃ e ent ld, cls.descriptor = some e ∧ w.program.entity? e = some ent ∧ LinkerName.ofDescriptor cls.name = .ok ld ∧
      ent.ld = target.decorate ld := by
  rw [h.registry_eq] at hcls
  obtain ⟨cls', e, ent0, hcls', he, hmade⟩ := h.opened.started.linked.made c .descriptor ⟨cls, hcls, trivial⟩
  cases hcls.symm.trans hcls'
  obtain ⟨ent, hent, -, hld, -⟩ := h.sound.follows.entities e ent0 hmade.entity
  obtain ⟨ld, hok, hdecorated⟩ := hmade.ld
  exact ⟨e, ent, ld, he, hent, hok, by rw [hld, hdecorated, h.target_eq]⟩

theorem Assembled.getElem?_byDescriptor {order : List ClassId} (h : Assembled target w0 s0 d w)
    (hordered : w.registry.Ordered order.reverse) (hc : c ∈ order) (hcls : w.registry.class? c = some cls)
    (he : cls.descriptor = some e) : (Std.HashMap.ofList (order.filterMap (descriptorEntry w.registry)))[e]? = some c := by
  refine Std.HashMap.getElem?_ofList_of_mem BEq.rfl ?_ (List.mem_filterMap.2 ⟨c, hc, by simp [descriptorEntry, hcls, he]⟩)
  rw [List.pairwise_filterMap]
  refine (List.nodup_reverse.1 hordered.nodup).imp ?_
  intro c1 c2 hne entry hentry entry' hentry'
  obtain ⟨e1, he1, rfl⟩ := Option.map_eq_some_iff.1 hentry
  obtain ⟨e2, he2, rfl⟩ := Option.map_eq_some_iff.1 hentry'
  obtain ⟨cls1, hcls1, hd1⟩ := Option.bind_eq_some_iff.1 he1
  obtain ⟨cls2, hcls2, hd2⟩ := Option.bind_eq_some_iff.1 he2
  rw [beq_eq_false_iff_ne]
  rintro (rfl : e1 = e2)
  rw [h.registry_eq] at hcls1 hcls2
  exact hne (Prod.mk.inj (h.part_unique .descriptor .descriptor hcls1 hcls2 trivial trivial hd1 hd2)).1

/-- The index can be built, and knows the classes of descriptors and the initializers of classes. -/
theorem Assembled.build {triple : Text} {order : List ClassId} (h : Assembled target w0 s0 d w)
    (htriple : Target.ofTriple triple = .ok target) (hnames : w.registry.Attributable) (horder : w.registry.superToSub = .ok order) :
    ∃ x : Index, (∀ trace, Finishes (Reach.build target.decoration) { w with trace } x { w with trace }) ∧ x.classes = order ∧
      Indexes target w.registry w.program x := by
  obtain ⟨hordered, hall⟩ := Registry.superToSub_spec horder
  have hdescriptors : ∀ c ∈ order, ∃ cls e, w.registry.class? c = some cls ∧ cls.descriptor = some e := by
    intro c hc
    obtain ⟨cls, hcls⟩ := hordered.exists_class (List.mem_reverse.2 hc)
    obtain ⟨e, ent, ld, he, -⟩ := h.exists_descriptor hcls
    exact ⟨cls, e, hcls, he⟩
  refine ⟨{
      classes := order
      byDescriptor := .ofList (order.filterMap (descriptorEntry w.registry))
      initializers := .ofList (w.program.routines.filterMap (initializerEntry w.registry target.decoration)) },
    fun trace => ?_, rfl, ?_⟩
  · exact finishes_build (w := { w with trace }) horder hdescriptors fun p hp hrecognized =>
      h.ownerOf?_ne_none htriple hnames hp hrecognized
  · refine ⟨fun c cls hcls => ?_, fun c cls hcls => h.ldOf_initializer htriple hnames hcls⟩
    obtain ⟨e, ent, ld, he, -⟩ := h.exists_descriptor hcls
    exact ⟨e, he, h.getElem?_byDescriptor hordered (hall c (Registry.lt_size_of_class? hcls)) hcls he⟩

/-! ### Calls -/

def callEntry (p : Program) (r : Registry) (call : InitCall) : CallEntry :=
  ⟨ldOf p call.caller, (call.cls.map r.nameOf).getD [], ldOf p call.init⟩

/-- The calls of a body are the initializations of its method, each with the initializer of the class that it names. -/
theorem callsIn_eq {x : Index} {g : Graph} {routine : EntityId} (hx : Indexes target w.registry w.program x)
    (hknown : w.registry.Known) (hr : IsRoutineOf target w.program cls m e ent) (hentity : g.entity = some e)
    (htargets : g.targets routine = (initialized m.ops).map w.registry.descriptorNamed?)
    (hnamed : ∀ name ∈ initialized m.ops, w.registry.descriptorNamed? name ≠ none) :
    (x.callsIn g routine).map (callEntry w.program w.registry) = callEntries target w.registry cls m := by
  -- What is recorded of a call depends on its first argument only.
  let entry (arg : Option EntityId) : CallEntry :=
    let named := arg.bind (x.byDescriptor[·]?)
    ⟨ent.ld, (named.map w.registry.nameOf).getD [], ldOf w.program (named.bind (x.initializers[·]?))⟩
  have hcalls : (x.callsIn g routine).map (callEntry w.program w.registry) = (g.targets routine).map entry := by
    rw [Index.callsIn, Graph.targets, List.map_map, List.map_map]
    refine List.map_congr_left fun call _ => ?_
    have hclass : x.classOfCall g call = (g.argument? call).bind (x.byDescriptor[·]?) := by
      simp only [Index.classOfCall, Graph.argument?, Option.bind_eq_bind, Option.bind_assoc]
    simp only [Function.comp_apply, callEntry, entry, Index.initializerOfCall, hclass, Option.bind_eq_bind, hentity, ldOf,
      Option.bind_some, hr.found, Option.map_some, Option.getD_some]
  rw [hcalls, htargets, List.map_map, callEntries]
  refine List.map_congr_left fun name hname => ?_
  obtain ⟨e', he'⟩ := Option.ne_none_iff_exists'.1 (hnamed name hname)
  obtain ⟨cls', hfound, hd⟩ := Option.bind_eq_some_iff.1 he'
  obtain ⟨c', hfind, hcls'⟩ := Option.bind_eq_some_iff.1 hfound
  obtain ⟨e'', he'', hindex⟩ := hx.descriptor c' cls' hcls'
  cases hd.symm.trans he''
  obtain ⟨cls'', hcls'', hname'⟩ := hknown.named name c' hfind
  cases hcls'.symm.trans hcls''
  have hinit := hx.initializer c' cls' hcls'
  simp only [Function.comp_apply, entry, he', Option.bind_some, hindex, Option.map_some, Option.getD_some, hinit, hfind, hcls',
    Registry.nameOf, hname', hr.ld_eq]

def Embodies (target : Target) (w : Workspace) (body : EntityId × Entity) (ref : MethodRef) : Prop :=
  ∃ cls m, withClass? w.registry ref = some (cls, m) ∧ isCompiled cls m = true ∧ IsRoutineOf target w.program cls m body.1 body.2

theorem Embodies.name_eq (h : Embodies target w (e, ent) ref) : nameOf target w.registry ref = ent.ld := by
  obtain ⟨cls, m, hm, -, hr⟩ := h
  rw [nameOf, hm]
  exact hr.ld_eq.symm

/-- The routines with bodies, in the byte order of their linker names. -/
def sortedBodies (p : Program) : List (EntityId × Entity) :=
  (p.routines.mergeSort fun a b => Text.le a.2.ld b.2.ld).filter fun body => body.2.body.isSome

theorem mem_sortedBodies :
    (e, ent) ∈ sortedBodies p ↔ p.entity? e = some ent ∧ p.isRoutine ent = true ∧ ent.body.isSome = true := by
  rw [sortedBodies, List.mem_filter, (List.mergeSort_perm _ _).mem_iff, Program.mem_routines, and_assoc]

theorem callsInProgram_eq (x : Index) (p : Program) (helper : EntityId) :
    x.callsInProgram p helper = (sortedBodies p).flatMap fun body =>
      match body.2.body.bind (p.graphs[·]?) with
      | none => []
      | some g => x.callsIn g helper := by
  rw [Index.callsInProgram, sortedBodies]
  generalize p.routines.mergeSort _ = routines
  induction routines with
  | nil => rfl
  | cons body routines ih =>
    obtain ⟨e, ent⟩ := body
    rw [List.flatMap_cons, ih]
    cases hbody : ent.body with
    | none => simp [hbody]
    | some g => cases hgraph : p.graphs[g]? <;> simp [hbody, hgraph]

section

variable (h : Assembled target w0 s0 d w)

include h

/-- The methods with bodies are those that are not only declared, and the body of each is there. -/
theorem Assembled.exists_body (hembodies : Embodies target w (e, ent) ref) :
    ∃ cls m g graph, withClass? w.registry ref = some (cls, m) ∧ IsRoutineOf target w.program cls m e ent ∧ ent.body = some g ∧
      w.program.graphs[g]? = some graph ∧ graph.entity = some e ∧ IsBody w0 d.entity w.program m graph := by
  obtain ⟨cls, m, hm, hcompiled, hr⟩ := hembodies
  obtain ⟨hcls, hmethod⟩ := withClass?_eq_some_iff.1 hm
  rw [h.registry_eq] at hcls
  have hmethod0 : w0.registry.method? ref = some m := Option.bind_eq_some_iff.2 ⟨cls, hcls, hmethod⟩
  obtain ⟨cls', e', ent0, hcls', he', hmade⟩ := h.opened.started.linked.made ref.owner (.routine ref.index) ⟨cls, hcls, m, hmethod⟩
  cases hcls.symm.trans hcls'
  rw [Class.entityOf, hmethod, Option.bind_some, hr.entity] at he'
  cases he'
  obtain ⟨done, hlowered, hdone⟩ := h.lowered
  have hdefined : Defined w0 ref := by
    obtain ⟨ent', hent', -, -, hvisibility, -⟩ := h.sound.follows.entities e ent0 hmade.entity
    cases hr.found.symm.trans hent'
    exact ⟨m, e, ent0, hmethod0, hr.entity, hmade.entity, hvisibility ▸ hr.visibility.2 hcompiled⟩
  obtain ⟨m', e', g, hm', he', ent', graph, hent', hbody, hgraph, hentity, hisBody⟩ := hlowered.bodies ref ((hdone ref).2 hdefined)
  cases hmethod0.symm.trans hm'
  cases hr.entity.symm.trans he'
  cases hr.found.symm.trans hent'
  exact ⟨cls, m, g, graph, hm, hr, hbody, hgraph, hentity, hisBody⟩

theorem Assembled.embodies_unique {ref' : MethodRef} (hembodies : Embodies target w (e, ent) ref)
    (hembodies' : Embodies target w (e, ent) ref') : ref = ref' := by
  obtain ⟨cls, m, hm, -, hr⟩ := hembodies
  obtain ⟨cls', m', hm', -, hr'⟩ := hembodies'
  obtain ⟨hcls, hmethod⟩ := withClass?_eq_some_iff.1 hm
  obtain ⟨hcls', hmethod'⟩ := withClass?_eq_some_iff.1 hm'
  rw [h.registry_eq] at hcls hcls'
  exact method_unique h.sound (Option.bind_eq_some_iff.2 ⟨cls, hcls, hmethod⟩) hr.entity
    (Option.bind_eq_some_iff.2 ⟨cls', hcls', hmethod'⟩) hr'.entity

theorem Assembled.exists_embodies (hmem : (e, ent) ∈ sortedBodies w.program) : ∃ ref, Embodies target w (e, ent) ref := by
  obtain ⟨hent, hroutine, hbody⟩ := mem_sortedBodies.1 hmem
  obtain ⟨g, hg⟩ := Option.isSome_iff_exists.1 hbody
  obtain ⟨done, hlowered, hdone⟩ := h.lowered
  obtain ⟨ref, href, m, hm, he⟩ := hlowered.only e ent g hent hg
  obtain ⟨m', e', ent0, hm', he', hent0, hdefined⟩ := (hdone ref).1 href
  cases hm.symm.trans hm'
  cases he.symm.trans he'
  obtain ⟨ent', hent', -, -, hsame, -⟩ := h.sound.follows.entities e ent0 hent0
  cases hent.symm.trans hent'
  have hvisibility : ent.visibility ≠ .external := hsame ▸ hdefined
  obtain ⟨ref, cls, m, hcls, hmethod, hr⟩ := h.exists_isRoutineOf hent hroutine hvisibility
  exact ⟨ref, cls, m, withClass?_eq_some_iff.2 ⟨hcls, hmethod⟩, hr.visibility.1 hvisibility, hr⟩

theorem Assembled.pairwise_sortedBodies : (sortedBodies w.program).Pairwise fun a b => a.2.ld < b.2.ld := by
  have hnames : ∀ body ∈ sortedBodies w.program, w.program.lookup body.2.ld = some body.1 := by
    rintro ⟨e, ent⟩ hmem
    obtain ⟨ref, cls, m, hm, -, hr⟩ := h.exists_embodies hmem
    obtain ⟨hcls, hmethod⟩ := withClass?_eq_some_iff.1 hm
    obtain ⟨e', ent0, -, he', hmade, -⟩ := h.sound.exists_routine (h.registry_eq ▸ hcls) hmethod
    cases hr.entity.symm.trans he'
    obtain ⟨ent', hent', -, hld, -⟩ := h.sound.follows.entities e ent0 hmade.entity
    cases hr.found.symm.trans hent'
    rw [hld]
    exact h.sound.follows.lookup _ _ hmade.found
  have hsorted : (sortedBodies w.program).Pairwise fun a b => Text.le a.2.ld b.2.ld = true := by
    refine List.Pairwise.filter _ (List.pairwise_mergeSort ?_ ?_ w.program.routines)
    · exact fun _ _ _ => Text.le_trans
    · exact fun _ _ => Text.le_total _ _
  have hdistinct : (sortedBodies w.program).Pairwise fun a b => a.1 ≠ b.1 := by
    refine List.Pairwise.filter _ (List.pairwise_map.1 ?_)
    exact ((List.mergeSort_perm _ _).map Prod.fst).nodup_iff.2 w.program.nodup_routines
  refine (hsorted.and hdistinct).imp_of_mem fun {p q} hp hq hpq => ?_
  refine (Text.le_iff.1 hpq.1).resolve_left fun hsame => hpq.2 ?_
  -- Only one entity has a linker name.
  have hfound := hnames p hp
  rw [hsame] at hfound
  exact Option.some.inj (hfound.symm.trans (hnames q hq))

theorem Assembled.exists_methods :
    ∃ method : EntityId × Entity → MethodRef, (∀ body ∈ sortedBodies w.program, Embodies target w body (method body)) ∧
      ((sortedBodies w.program).map method).Pairwise (fun a b => nameOf target w.registry a < nameOf target w.registry b) ∧
      ∀ ref, ref ∈ (sortedBodies w.program).map method ↔
        ∃ cls m, withClass? w.registry ref = some (cls, m) ∧ isCompiled cls m = true := by
  choose! method hmethod using fun body (hbody : body ∈ sortedBodies w.program) => h.exists_embodies hbody
  refine ⟨method, hmethod, ?_, fun ref => ?_⟩
  · rw [List.pairwise_map]
    refine h.pairwise_sortedBodies.imp_of_mem fun {a b} ha hb hlt => ?_
    rwa [(hmethod a ha).name_eq, (hmethod b hb).name_eq]
  rw [List.mem_map]
  constructor
  · rintro ⟨body, hbody, rfl⟩
    obtain ⟨cls, m, hm, hcompiled, -⟩ := hmethod body hbody
    exact ⟨cls, m, hm, hcompiled⟩
  · rintro ⟨cls, m, hm, hcompiled⟩
    obtain ⟨hcls, hm'⟩ := withClass?_eq_some_iff.1 hm
    obtain ⟨e, ent, hr⟩ := h.isRoutineOf hcls hm'
    have hembodies : Embodies target w (e, ent) ref := ⟨cls, m, hm, hcompiled, hr⟩
    obtain ⟨_, _, g, _, -, -, hbody, -⟩ := h.exists_body hembodies
    have hmem : (e, ent) ∈ sortedBodies w.program := mem_sortedBodies.2 ⟨hr.found, hr.isRoutine, by rw [hbody]; rfl⟩
    exact ⟨(e, ent), hmem, h.embodies_unique (hmethod _ hmem) hembodies⟩

theorem Assembled.calls_eq {x : Index} (hx : Indexes target w.registry w.program x)
    (hembodies : Embodies target w (e, ent) ref) :
    ((match ent.body.bind (w.program.graphs[·]?) with
      | none => []
      | some g => x.callsIn g d.entity).map (callEntry w.program w.registry)) = callsOf target w.registry ref := by
  obtain ⟨cls, m, g, graph, hm, hr, hbody, hgraph, hentity, hisBody⟩ := h.exists_body hembodies
  rw [hbody, Option.bind_some, hgraph, callsOf, hm]
  have htargets := hisBody.targets
  have hnamed := hisBody.named
  rw [← h.registry_eq] at htargets hnamed
  exact callsIn_eq hx (h.registry_eq ▸ h.opened.built.known) hr hentity htargets hnamed

end

/-- After the bodies have been built the index can be built, it leads from descriptors to their classes, and its snapshot has
every class once, after its supertypes, and the initializations of every method with a body, in the byte order of the linker
names of these. -/
theorem snapshot_of_standsAfter {ms : List Manifest} {registers : Bool} {triple : Text}
    (h : StandsAfter target ms registers .lower w) (htriple : Target.ofTriple triple = .ok target)
    (hnames : w.registry.Attributable) :
    ∃ (x : Index) (d : DeclaredHelper) (order : List ClassId) (refs : List MethodRef),
      Finishes (Reach.build target.decoration) w x w ∧ Finishes (Abi.helper .initClass) w d w ∧
      (∀ c cls, w.registry.class? c = some cls → ∃ e, cls.descriptor = some e ∧ x.byDescriptor[e]? = some c) ∧
      (w.registry.Ordered order.reverse ∧ ∀ c, c < w.registry.classes.size → c ∈ order) ∧
      refs.Pairwise (fun a b => nameOf target w.registry a < nameOf target w.registry b) ∧
      (∀ ref, ref ∈ refs ↔ ∃ cls m, withClass? w.registry ref = some (cls, m) ∧ isCompiled cls m = true) ∧
      x.snapshot w.program w.registry triple (x.callsInProgram w.program d.entity) =
        { schema := currentSchema
          target := triple
          classes := some (order.filterMap fun c => (w.registry.class? c).map (classEntry target))
          calls := some (refs.flatMap (callsOf target w.registry)) } := by
  obtain ⟨w0, s0, d, hassembled⟩ := h.assembled
  obtain ⟨order, horder⟩ := hassembled.opened.order
  rw [← hassembled.registry_eq] at horder
  obtain ⟨x, hbuild, hclasses, hx⟩ := hassembled.build htriple hnames horder
  obtain ⟨hordered, hall⟩ := Registry.superToSub_spec horder
  obtain ⟨method, hmethod, hincreasing, hmem⟩ := hassembled.exists_methods
  refine ⟨x, d, order, _, hbuild w.trace, ?_, hx.descriptor, ⟨hordered, hall⟩, hincreasing, hmem, ?_⟩
  · have hhelper := (hassembled.sound.follows.helper?_eq .initClass).trans hassembled.helper
    obtain ⟨s, hs, hd⟩ := Option.bind_eq_some_iff.1 hhelper
    exact finishes_bind_iff.2 ⟨s, w, finishes_bind_iff.2 ⟨w, w, finishes_get, finishes_need_iff.2 ⟨hs, rfl⟩⟩, finishes_need_iff.2 ⟨hd, rfl⟩⟩
  · rw [Index.snapshot, Snapshot.mk.injEq, hclasses]
    refine ⟨rfl, rfl, congrArg some ?_, congrArg some ?_⟩
    · rw [← List.filterMap_eq_map]
      refine List.filterMap_congr fun c hc => ?_
      obtain ⟨cls, hcls⟩ := hordered.exists_class (List.mem_reverse.2 hc)
      obtain ⟨e, ent, ld, hd, hent, hok, hld⟩ := hassembled.exists_descriptor hcls
      have hdescriptor : ldOf w.program (some e) = decorated target (LinkerName.ofDescriptor cls.name) := by
        rw [ldOf, Option.bind_some, hent, decorated, hok]
        exact hld
      simp [Registry.nameOf, hcls, hd, hdescriptor, hx.initializer c cls hcls, classEntry]
    · rw [callsInProgram_eq, List.map_flatMap, List.flatMap_map]
      exact List.flatMap_congr fun body hbody => hassembled.calls_eq hx (hmethod body hbody)

theorem snapshot_of_standsAfter_oneInitializer :
    ∃ w x d classes calls, StandsAfter .linux64 [oneInitializer] false .lower w ∧
      Target.ofTriple "x86_64-linux-gnu" = .ok .linux64 ∧ w.registry.Attributable ∧
      Finishes (Reach.build Target.linux64.decoration) w x w ∧ Finishes (Abi.helper .initClass) w d w ∧
      x.snapshot w.program w.registry "x86_64-linux-gnu" (x.callsInProgram w.program d.entity) =
        ⟨currentSchema, "x86_64-linux-gnu", some classes, some calls⟩ ∧
      ⟨"A", "_ZN1A6class$E", "_ZN1A18__U3c_clinit__U3e_Ev"⟩ ∈ classes ∧
      ⟨"_ZN1A18__U3c_clinit__U3e_Ev", "A", "_ZN1A18__U3c_clinit__U3e_Ev"⟩ ∈ calls := by
  obtain ⟨w, object, cls, a, m, hstands, hregistry, ⟨hobject, hobject'⟩, ⟨hcls, hcls'⟩, ⟨ha, hexternal, hmethods⟩,
    ⟨hname, hdescriptor, haccess, hops⟩, -⟩ := exists_standsAfter_oneInitializer
  have hclass : ∀ c k, w.registry.class? c = some k → k = object ∨ k = cls ∨ k = a := by
    intro c k hk
    have hmem := Array.mem_of_getElem? hk
    simpa [hregistry] using hmem
  have hmethod : ∀ c k (i : Nat) (m' : Method), w.registry.class? c = some k → k.methods[i]? = some m' → k = a ∧ i = 0 ∧ m' = m := by
    intro c k i m' hk hm'
    rcases hclass c k hk with rfl | rfl | rfl
    · simp [hobject'] at hm'
    · simp [hcls'] at hm'
    · obtain ⟨hi, hm'⟩ := Array.getElem?_eq_some_iff.1 hm'
      simp only [hmethods, List.size_toArray, List.length_singleton, Nat.lt_one_iff] at hi
      subst hi
      exact ⟨rfl, rfl, by simpa [hmethods] using hm'.symm⟩
  have hmethodName : LinkerName.ofMethod a.name m.name m.descriptor = .ok "_ZN1A18__U3c_clinit__U3e_Ev" := by
    rw [ha, hname, hdescriptor]
    cbv
  have hnames : w.registry.Attributable := by
    refine ⟨fun c k hk => ?_, fun c k m' hk hm' => ?_, fun c k m' ld hk hm' hok => ?_, ?_⟩
    · obtain hname | hname | hname : k.name = "java/lang/Object" ∨ k.name = "java/lang/Class" ∨ k.name = "A" := by
        rcases hclass c k hk with rfl | rfl | rfl <;> simp [*]
      all_goals
        rw [hname]
        exact ⟨⟨by cbv, by decide⟩, by decide⟩
    · obtain ⟨i, hi⟩ := Array.mem_iff_getElem?.1 hm'
      obtain ⟨rfl, rfl, rfl⟩ := hmethod c k i m' hk hi
      exact fun _ h => absurd hname h
    · obtain ⟨i, hi⟩ := Array.mem_iff_getElem?.1 hm'
      obtain ⟨rfl, rfl, rfl⟩ := hmethod c k i m' hk hi
      cases hok.symm.trans hmethodName
      decide
    · intro c k i j m1 m2 hk hi hj _ _
      exact (hmethod c k i m1 hk hi).2.1.trans (hmethod c k j m2 hk hj).2.1.symm
  have htriple : Target.ofTriple "x86_64-linux-gnu" = .ok .linux64 := by cbv
  obtain ⟨x, d, order, refs, hbuild, hhelper, -, ⟨-, hall⟩, -, hrefs, hsnapshot⟩ := snapshot_of_standsAfter hstands htriple hnames
  have hclass2 : w.registry.class? 2 = some a := by rw [Registry.class?, hregistry]; rfl
  have hcompiled : isCompiled a m = true := by
    rw [isCompiled, hexternal, haccess]
    decide
  have hinitializer : initializerName .linux64 a = "_ZN1A18__U3c_clinit__U3e_Ev" := by
    rw [initializerName, hmethods, List.find?_cons_of_pos (by simp [hname, hcompiled]), Option.map_some, methodName, hmethodName]
    rfl
  refine ⟨w, x, d, _, _, hstands, htriple, hnames, hbuild, hhelper, hsnapshot, ?_, ?_⟩
  · refine List.mem_filterMap.2 ⟨2, hall 2 (by simp [hregistry]), ?_⟩
    rw [hclass2, Option.map_some, classEntry, hinitializer, ha]
    cbv
  · obtain ⟨w0, s0, d', hassembled⟩ := hstands.assembled
    have hfind : w.registry.find? "A" = some 2 := by
      rw [hassembled.registry_eq] at hclass2 ⊢
      exact ha ▸ hassembled.opened.built.known.found 2 a hclass2
    have hm : withClass? w.registry ⟨2, 0⟩ = some (a, m) := withClass?_eq_some_iff.2 ⟨hclass2, by simp [hmethods]⟩
    have hinitialized : initialized m.ops = [Text.ofString "A"] := by
      rw [hops]
      cbv
    refine List.mem_flatMap.2 ⟨⟨2, 0⟩, (hrefs _).2 ⟨a, m, hm, hcompiled⟩, ?_⟩
    rw [callsOf, hm]
    show _ ∈ callEntries .linux64 w.registry a m
    rw [callEntries, hinitialized, List.map_singleton, hfind, Option.bind_some, hclass2, Option.map_some, Option.getD_some,
      hinitializer, methodName, hmethodName]
    exact List.mem_singleton.2 rfl

end Compile
end ClassAbi
