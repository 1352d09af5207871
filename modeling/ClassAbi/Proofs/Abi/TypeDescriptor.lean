import ClassAbi.Proofs.Abi.Built
import ClassAbi.Proofs.Abi.Pool
import ClassAbi.Proofs.Abi.Session
import ClassAbi.Proofs.Class.Known
import ClassAbi.Proofs.Lowering.Added

/-!
# Dimensions of types

The brackets of a descriptor are the dimensions of its type, also where the type is counted by its pointers, the innermost of
which is a reference above a class. So the descriptor that is read, the one that is written, the constant that spells it and
the calls that make the object of an array class all agree on the number of dimensions (`descriptors_agree`).
-/

namespace ClassAbi

open Ascii

namespace Registry

/-- Whether a text is the descriptor of a type that is none of an array. -/
inductive ReadsElement (r : Registry) : Text → JavaType → Prop
  | primitive (p : Primitive) : ReadsElement r [p.letter] (.primitive p)
  | reference {name : Text} {c : ClassId} (hname : semicolon ∉ name) (h : r.find? name = some c) :
    ReadsElement r (upperL :: (name ++ [semicolon])) (.reference c)

/-- Whether a type is built from primitive types and from classes without `;` in their names. -/
inductive Builds (r : Registry) : JavaType → Prop
  | primitive (p : Primitive) : Builds r (.primitive p)
  | reference {c : ClassId} {cls : Class} (h : r.class? c = some cls) (hname : semicolon ∉ cls.name) : Builds r (.reference c)
  | array {t : JavaType} (h : Builds r t) : Builds r t.array
  | arrayOf {c : ClassId} {cls : Class} (h : r.class? c = some cls) (hname : semicolon ∉ cls.name) :
    Builds r (JavaType.cls c).array

variable {r r' : Registry} {d text : Text} {t elem : JavaType} {k : Nat}

theorem ReadsElement.reads (h : r.ReadsElement text elem) : r.Reads text elem := by
  cases h with
  | primitive p => exact .primitive p
  | reference hname hfind => exact .reference hname hfind

theorem ReadsElement.array (h : r.ReadsElement text elem) (k : Nat) :
    r.Reads (List.replicate k openBracket ++ text) (JavaType.pointer^[k] elem) := by
  induction k with
  | zero => exact h.reads
  | succ k ih =>
    rw [Function.iterate_succ_apply', List.replicate_succ]
    exact ih.array

theorem reads_iff : r.Reads d t ↔ ∃ k text elem, r.ReadsElement text elem ∧ d = List.replicate k openBracket ++ text ∧
    t = JavaType.pointer^[k] elem := by
  constructor
  · intro h
    induction h with
    | primitive p => exact ⟨0, _, _, .primitive p, rfl, rfl⟩
    | reference hname hfind => exact ⟨0, _, _, .reference hname hfind, rfl, rfl⟩
    | array _ ih =>
      obtain ⟨k, text, elem, helem, rfl, rfl⟩ := ih
      exact ⟨k + 1, text, elem, helem, rfl, (Function.iterate_succ_apply' _ k elem).symm⟩
  · rintro ⟨k, text, elem, helem, rfl, rfl⟩
    exact helem.array k

theorem ReadsElement.congr (h : r.ReadsElement text elem) (hfind : ∀ name, r'.find? name = r.find? name) :
    r'.ReadsElement text elem := by
  cases h with
  | primitive p => exact .primitive p
  | reference hname hc => exact .reference hname ((hfind _).trans hc)

theorem Builds.reads (hr : r.Known) (h : r.Builds t) : r.Reads (r.descriptorOf t) t := by
  have hreference : ∀ {c : ClassId} {cls : Class}, r.class? c = some cls → semicolon ∉ cls.name →
      r.Reads (r.descriptorOf (.reference c)) (.reference c) := by
    intro c cls hcls hname
    rw [JavaType.reference, descriptorOf, nameOf_of_class? hcls]
    exact .reference hname (hr.found c cls hcls)
  induction h with
  | primitive p => exact .primitive p
  | reference h hname => exact hreference h hname
  | arrayOf h hname => exact (hreference h hname).array
  | @array t h ih =>
    cases t with
    | void | cls c => simpa [JavaType.IsValued] using ih.isValued
    | primitive p => exact ih.array
    | pointer elem => exact ih.array

/-! ### Counting pointers -/

theorem leaf_iterate (k : Nat) (t : JavaType) : (JavaType.pointer^[k] t).leaf = t.leaf := by
  induction k with
  | zero => rfl
  | succ k ih => rw [Function.iterate_succ_apply', JavaType.leaf, ih]

theorem levels_iterate (k : Nat) (t : JavaType) : (JavaType.pointer^[k] t).levels = t.levels + k := by
  induction k with
  | zero => rfl
  | succ k ih => rw [Function.iterate_succ_apply', JavaType.levels, ih, Nat.add_assoc]

theorem ReadsElement.dimensions (h : r.ReadsElement text elem) (k : Nat) : (JavaType.pointer^[k] elem).dimensions = k := by
  rw [JavaType.dimensions, leaf_iterate, levels_iterate]
  cases h with
  | primitive p => exact Nat.zero_add k
  | reference _ _ => exact Nat.add_sub_cancel_left 1 k

theorem Reads.signature?_eq (h : r.Reads d t) (hr : r.Known) : r.signature? t = some d := by
  have hsome : ∃ text, r.signature? t = some text := by
    obtain ⟨k, text, elem, helem, -, rfl⟩ := reads_iff.1 h
    rw [signature?, leaf_iterate]
    cases helem <;> exact ⟨_, rfl⟩
  obtain ⟨text, htext⟩ := hsome
  rw [htext, eq_descriptorOf_of_signature? htext, h.descriptorOf_eq hr]

end Registry

namespace Abi

open ClassAbi.Action Workspace

variable {w w0 w' v : Workspace} {registers : Bool}

/-! ### The pool of an open session -/

/-- Whether `w` is a workspace of the session that was started in `w0`, before its end, in which each constant of the pool spells
its text. Descriptors and vtables, which get other content, come before all constants. -/
structure OpenPool (w0 w : Workspace) : Prop where
  follows : w0.Follows w
  opened : ∃ s, w.session = some s ∧ s.closed = false
  pool : ∀ text e, w.Pooled text e → Spells w text e ∧ w0.program.entities.size ≤ e

theorem size_le_of_follows (h : w.Follows w') : w.program.entities.size ≤ w'.program.entities.size := by
  by_contra hlt
  have hindex : w'.program.entities.size < w.program.entities.size := Nat.lt_of_not_le hlt
  obtain ⟨ent, hent, -⟩ := h.entities _ _ (Array.getElem?_eq_getElem hindex)
  exact Nat.lt_irrefl _ (Program.lt_size_of_entity? hent)

theorem OpenPool.add (h : OpenPool w0 w) (hadd : Addition w w') : OpenPool w0 w' := by
  obtain ⟨s, hs, hopen⟩ := h.opened
  obtain ⟨s', hs', hclosed, -⟩ := hadd.session hs
  refine ⟨h.follows.trans hadd.follows, ⟨s', hs', hclosed.trans hopen⟩, fun text e hpooled => ?_⟩
  refine ⟨spells_of_addition hadd (fun text e he => (h.pool text e he).1) text e hpooled, ?_⟩
  obtain ⟨s1, c, hs1, hc, rfl⟩ := hpooled
  cases hadd with
  | @constant s2 text' hs2 _ _ _ _ =>
    cases hs1
    rw [addConstant, Std.HashMap.getElem?_insert] at hc
    split_ifs at hc
    · cases hc
      exact size_le_of_follows h.follows
    · exact (h.pool text c.entity ⟨s2, c, hs2, hc, rfl⟩).2
  | trace _ | layouts _ | type _ | name _ _ | table _ _ _ _ | registration _ _ => exact (h.pool text c.entity ⟨s1, c, hs1, hc, rfl⟩).2

theorem OpenPool.modify (h : OpenPool w0 w) {x : EntityId} (hx : x < w0.program.entities.size) (f : Entity → Entity)
    (hprogram : w'.program = w.program.modifyEntity x f) (hfollows : w.Follows w') {s s' : Session} (hs : w.session = some s)
    (hs' : w'.session = some s') (hclosed : s'.closed = s.closed) (hpool : s'.pool = s.pool) : OpenPool w0 w' := by
  obtain ⟨s1, hs1, hopen⟩ := h.opened
  cases hs.symm.trans hs1
  refine ⟨h.follows.trans hfollows, ⟨s', hs', hclosed.trans hopen⟩, ?_⟩
  rintro text _ ⟨s2, c, hs2, hc, rfl⟩
  cases hs'.symm.trans hs2
  obtain ⟨hspells, hle⟩ := h.pool text c.entity ⟨s, c, hs, hpool ▸ hc, rfl⟩
  refine ⟨?_, hle⟩
  rw [Spells, hprogram, content?_fill_of_ne (Nat.ne_of_lt (hx.trans_le hle))]
  exact hspells

theorem OpenPool.progress (hlinked : w0.Linked (ownParts w0.registry)) (h : OpenPool w0 w) (hstep : Progress w w') :
    OpenPool w0 w' := by
  have hfollows := hstep.follows
  obtain ⟨s, hs, hopen⟩ := h.opened
  cases hstep with
  | fill hfill =>
    cases hfill with
    | add hadd => exact h.add hadd
    | vtableType _ hcls hneeds hvt _ =>
      rw [h.follows.registry_eq] at hcls
      exact h.modify (lt_size_of_own hlinked .vtable hcls hneeds id hvt) _ rfl hfollows hs hs rfl rfl
    | vtable hs1 _ hcls hneeds hvt _ _ _ _ =>
      rw [h.follows.registry_eq] at hcls
      exact h.modify (lt_size_of_own hlinked .vtable hcls hneeds id hvt) _ rfl hfollows hs1 rfl rfl rfl
    | descriptor hs1 _ hcls _ _ hdescription =>
      rw [h.follows.registry_eq] at hcls
      exact h.modify (lt_size_of_own hlinked .descriptor hcls trivial id hdescription.entity) _ rfl hfollows hs1 rfl rfl rfl
  | graphs _ => exact ⟨h.follows.trans hfollows, ⟨s, hs, hopen⟩, h.pool⟩
  | body x g =>
    refine ⟨h.follows.trans hfollows, ⟨s, hs, hopen⟩, fun text e hpooled => ?_⟩
    obtain ⟨hspells, hle⟩ := h.pool text e hpooled
    exact ⟨(content?_modifyEntity_of_init (by intro; rfl)).trans hspells, hle⟩

theorem openPool_operate (hstart : Finishes (start registers) w () w0) {ops : List Operation} (hopen : .close ∉ ops) :
    OpenPool w0 (operate w0 ops) := by
  obtain ⟨-, hlinked, s, hbegun⟩ := begun_of_start w.linked_empty hstart
  rw [Set.union_empty] at hlinked
  refine keep_along (fun _ _ h => h.progress hlinked) (progress_of_operate w0 hopen) ⟨.refl w0, ⟨s, hbegun.session, hbegun.opened⟩, ?_⟩
  rintro text e ⟨s', c, hs', hc, -⟩
  cases hbegun.session.symm.trans hs'
  simp [hbegun.pool] at hc

/-! ### The descriptor of a type in a session -/

/-- Whether the session in `v` treats a type of `k` dimensions and its descriptor alike. There is a constant that spells the
descriptor, unless that is new and too long or the name of the next constant is in use. The object of the class is made by one
call for each dimension, the first of which is on the descriptor of the element type. -/
structure TreatsAlike (v : Workspace) (d : Text) (t elem : JavaType) (k : Nat) : Prop where
  signature : (∃ c v', Finishes (typeSignature t) v c v' ∧ Spells v' d c.entity) ↔
    (∃ e, v.Pooled d e) ∨ d.length ≤ 0xFFFF ∧ v.program.Unused (v.program.uniqueName "_Utf8").1
  classObject : ∀ g graph, v.program.graphs[g]? = some graph → ∃ e n v' ns, v.descriptorEntity elem = some e ∧
    Finishes (classObject g t) v n v' ∧ AddsTo g v v' ns ∧ ClassNodes (v.helper? .getArrayClass) e k ns n

theorem spells_typeSignature_iff (h : OpenPool w0 v) {d : Text} {t : JavaType} (hsignature : v.registry.signature? t = some d) :
    (∃ c v', Finishes (typeSignature t) v c v' ∧ Spells v' d c.entity) ↔
      (∃ e, v.Pooled d e) ∨ d.length ≤ 0xFFFF ∧ v.program.Unused (v.program.uniqueName "_Utf8").1 := by
  obtain ⟨s, hs, hopen⟩ := h.opened
  have htype : typeSignature t v = intern d v := by
    rw [typeSignature, bind_apply_of_finishes finishes_registry, hsignature]
  simp only [Finishes, htype]
  cases hpool : s.pool[d]? with
  | some c =>
    have hpooled : v.Pooled d c.entity := ⟨s, c, hs, hpool, rfl⟩
    exact iff_of_true ⟨c, v, intern_of_pooled hs hopen hpool, (h.pool d _ hpooled).1⟩ (.inl ⟨_, hpooled⟩)
  | none =>
    have hnew : ¬∃ e, v.Pooled d e := by
      rintro ⟨e, s', c, hs', hc, -⟩
      cases hs.symm.trans hs'
      cases hpool.symm.trans hc
    rw [or_iff_right hnew]
    constructor
    · rintro ⟨c, v', hrun, -⟩
      have hshort : d.length ≤ 0xFFFF := by
        by_contra hlong
        rw [intern_of_long hs hopen hpool (Nat.lt_of_not_le hlong)] at hrun
        cases hrun
      refine ⟨hshort, ?_⟩
      by_contra hused
      rw [intern_of_used hs hopen hpool hshort hused] at hrun
      cases hrun
    · rintro ⟨hshort, hfree⟩
      refine ⟨_, _, intern_of_new hs hopen hpool hshort hfree, ?_⟩
      exact Option.bind_eq_some_iff.2 ⟨_, (v.program.uniqueName "_Utf8").2.entity?_push_new _, rfl⟩

theorem exists_descriptorEntity (hstart : Finishes (start registers) w () w0) (hknown : w0.registry.Known) {text : Text}
    {elem : JavaType} (h : w0.registry.ReadsElement text elem) :
    ∃ e, w0.descriptorEntity elem = some e ∧ w0.descriptorEntity elem.leaf = some e := by
  obtain ⟨-, hlinked, s, hbegun⟩ := begun_of_start w.linked_empty hstart
  cases h with
  | primitive p =>
    obtain ⟨e, he, -⟩ := hbegun.primitive p
    have hlookup : w0.descriptorEntity (.primitive p) = some e := by rw [descriptorEntity, hbegun.session, Option.bind_some, he]
    exact ⟨e, hlookup, hlookup⟩
  | @reference name c _ hfind =>
    obtain ⟨cls, hcls, -⟩ := hknown.named _ c hfind
    obtain ⟨cls', e, -, hcls', he, -⟩ := hlinked.made c .descriptor (.inl ⟨cls, hcls, trivial, fun h => h⟩)
    have hlookup : (w0.registry.class? c).bind Class.descriptor = some e := by rw [hcls', Option.bind_some]; exact he
    exact ⟨e, hlookup, hlookup⟩

theorem treatsAlike_of_start (built : w.Built) (hstart : Finishes (start registers) w () w0) {ops : List Operation}
    (hopen : .close ∉ ops) {text : Text} {elem : JavaType} (h : w0.registry.ReadsElement text elem) (k : Nat) :
    TreatsAlike (operate w0 ops) (List.replicate k openBracket ++ text) (JavaType.pointer^[k] elem) elem k := by
  have hknown : w0.registry.Known := (built_of_start built hstart).known
  have hpool := openPool_operate hstart hopen
  obtain ⟨s, hs, -⟩ := hpool.opened
  refine ⟨spells_typeSignature_iff hpool ?_, fun g graph hgraph => ?_⟩
  · rw [hpool.follows.registry_eq, (h.array k).signature?_eq hknown]
  · obtain ⟨-, -, s0, hbegun⟩ := begun_of_start w.linked_empty hstart
    obtain ⟨e, he, hleaf⟩ := exists_descriptorEntity hstart hknown h
    obtain ⟨d, hd, -⟩ := hbegun.helper .getArrayClass
    have hhelper : s.helper? .getArrayClass = some d := by
      have hsame := hpool.follows.helper?_eq .getArrayClass
      rwa [helper?, helper?, hs, hbegun.session, Option.bind_some, Option.bind_some, hd] at hsame
    rw [← hpool.follows.descriptorEntity_eq, ← Registry.leaf_iterate k] at hleaf
    obtain ⟨n, v', hn, -⟩ := succeeds_classObject hhelper ⟨rfl, hs, graph, hgraph⟩ hleaf _ ⟨rfl, hs, graph, hgraph⟩
    obtain ⟨e', ns, he', hadds, hnodes⟩ := adds_classObject hgraph hn
    cases hleaf.symm.trans he'
    rw [h.dimensions k] at hnodes
    exact ⟨e, n, v', ns, (hpool.follows.descriptorEntity_eq elem).trans he, hn, hadds, hnodes⟩

/-- The descriptors that are read are those of elements after brackets, of which the type has as many dimensions. The type has
this descriptor again, and a session treats both alike. The descriptor of every type that can be built is read as this type. -/
theorem descriptors_agree (built : w.Built) :
    (∀ d t, w.registry.typeOfDescriptor d = .ok t ↔ ∃ k text elem, w.registry.ReadsElement text elem ∧
      d = List.replicate k openBracket ++ text ∧ t = JavaType.pointer^[k] elem) ∧
    (∀ k text elem, w.registry.ReadsElement text elem →
      w.registry.descriptorOf (JavaType.pointer^[k] elem) = List.replicate k openBracket ++ text ∧
      ((JavaType.pointer^[k] elem).isArray = true ↔ 0 < k) ∧
      ∀ registers w0 ops, Finishes (start registers) w () w0 → .close ∉ ops →
        TreatsAlike (operate w0 ops) (List.replicate k openBracket ++ text) (JavaType.pointer^[k] elem) elem k) ∧
    ∀ t, w.registry.Builds t → w.registry.typeOfDescriptor (w.registry.descriptorOf t) = .ok t := by
  have hknown : w.registry.Known := built.known
  refine ⟨fun d t => Registry.typeOfDescriptor_eq_ok_iff.trans Registry.reads_iff, fun k text elem h => ⟨?_, ?_, ?_⟩, fun t ht => ?_⟩
  · exact (h.array k).descriptorOf_eq hknown
  · rw [JavaType.isArray, h.dimensions k, decide_eq_true_iff]
  · intro registers w0 ops hstart hopen
    obtain ⟨hgrown, -⟩ := begun_of_start w.linked_empty hstart
    have hfind (name : Text) : w0.registry.find? name = w.registry.find? name := by
      rw [Registry.find?, hgrown.registry.byName_eq, Registry.find?]
    exact treatsAlike_of_start built hstart hopen (h.congr hfind) k
  · exact Registry.typeOfDescriptor_eq_ok_iff.2 (ht.reads hknown)

theorem built_rootWithName : rootWithName.Built :=
  .elsewhere (by rfl) (by rfl) (by rfl) (by rfl) (.layOutAll (.declare rootClass ⟨1⟩ false (.start .linux64)))

theorem descriptors_agree_root : rootWithName.Built ∧ ∃ w0, Finishes (start false) rootWithName () w0 ∧
    TreatsAlike (operate w0 [.buildVtable 0]) "[[Ljava/lang/Object;" (.pointer (.pointer (.reference 0))) (.reference 0) 2 := by
  have hfind : rootWithName.registry.find? rootClass = some 0 := by cbv
  obtain ⟨-, -, w0, hstart⟩ := exists_start_rootWithName
  obtain ⟨-, hagree, -⟩ := descriptors_agree built_rootWithName
  exact ⟨built_rootWithName, w0, hstart, (hagree 2 _ _ (.reference (by decide) hfind)).2.2 false w0 _ hstart (by simp)⟩

/-- The root class, laid out, in a program that has an entity with the name of the first constant. -/
def rootBesideConstant : Workspace :=
  (newEntity "_Utf8.0" "_Utf8.0" none (Class.layOutAll (Class.declare rootClass ⟨1⟩ false { target := .linux64 }).2).2).2

/-- There is no constant for the descriptor of a type when the program has an entity with the name that it would get. -/
theorem typeSignature_of_used_name : rootBesideConstant.Built ∧
    rootBesideConstant.registry.typeOfDescriptor "I" = .ok (.primitive .int) ∧ ∃ w0,
      Finishes (start false) rootBesideConstant () w0 ∧ ∀ c w', ¬Finishes (typeSignature (.primitive .int)) w0 c w' := by
  have hstart : ∃ w0, Finishes (start false) rootBesideConstant () w0 := ⟨_, finishes_of_isOk (by cbv)⟩
  have hused : rootBesideConstant.program.lookup (constantName (rootBesideConstant.program.made.getD "_Utf8" 0)) = some 0 := by
    cbv
  obtain ⟨w0, hstart⟩ := hstart
  refine ⟨?_, by cbv, w0, hstart, fun c w' h => ?_⟩
  · refine .elsewhere (w := (Class.layOutAll (Class.declare rootClass ⟨1⟩ false { target := .linux64 }).2).2) ?_ ?_ ?_ ?_
      (.layOutAll (.declare rootClass ⟨1⟩ false (.start .linux64))) <;> cbv
  obtain ⟨-, -, s, hbegun⟩ := begun_of_start (linked_empty _) hstart
  obtain ⟨hmade, hlookup⟩ := names_of_start hstart
  have hname : ¬w0.program.Unused (w0.program.uniqueName "_Utf8").1 := by
    rw [Program.Unused, uniqueName_eq, hmade, hlookup, hused]
    exact not_or.2 ⟨constantName_ne_nil _, Option.some_ne_none _⟩
  obtain ⟨_, _, hregistry, h⟩ := finishes_bind_iff.1 h
  obtain ⟨rfl, rfl⟩ := finishes_registry_iff.1 hregistry
  have hfails : intern "I" w0 = _ := intern_of_used hbegun.session hbegun.opened (by simp [hbegun.pool]) (by decide) hname
  cases hfails.symm.trans h

end Abi

end ClassAbi
