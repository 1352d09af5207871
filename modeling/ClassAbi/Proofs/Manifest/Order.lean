import ClassAbi.Proofs.Class.Known
import ClassAbi.Proofs.Manifest.Populate

/-!
# The order of declarations

The same declarations in another order give the same classes: the numbers of the classes are permuted, and with them
everything that refers to classes. So the layout of objects and the slots of methods, told by the names of classes, do not
depend on the order (`buildClasses_perm`).
-/

namespace ClassAbi

/-! ### Places in two lists -/

/-- The place in `bs` of what is at a place in `as`. -/
def placeIn (as bs : List Text) (i : Nat) : Nat := (as[i]?.map bs.idxOf).getD i

section

variable {as bs : List Text} {a : Text} {i : Nat}

theorem placeIn_of_getElem? (h : as[i]? = some a) : placeIn as bs i = bs.idxOf a := by
  rw [placeIn, h, Option.map_some, Option.getD_some]

theorem getElem?_idxOf_of_mem (h : a ∈ as) : as[as.idxOf a]? = some a := by
  rw [List.getElem?_eq_getElem (List.idxOf_lt_length_of_mem h), List.getElem_idxOf]

theorem idxOf?_of_mem (h : a ∈ as) : as.idxOf? a = some (as.idxOf a) := by
  cases hx : as.idxOf? a with
  | none => exact absurd h (List.idxOf?_eq_none_iff.1 hx)
  | some i => rw [List.idxOf_eq_getD_idxOf?, hx, Option.getD_some]

theorem getElem?_placeIn (h : as.Perm bs) : bs[placeIn as bs i]? = as[i]? := by
  cases hi : as[i]? with
  | none =>
    have hle := List.getElem?_eq_none_iff.1 hi
    rw [placeIn, hi, Option.map_none, Option.getD_none, List.getElem?_eq_none_iff, ← h.length_eq]
    exact hle
  | some a =>
    rw [placeIn_of_getElem? hi]
    exact getElem?_idxOf_of_mem (h.mem_iff.1 (List.mem_of_getElem? hi))

theorem placeIn_placeIn (h : as.Perm bs) (hnodup : as.Nodup) : placeIn bs as (placeIn as bs i) = i := by
  cases hi : as[i]? with
  | none =>
    have hsame : placeIn as bs i = i := by rw [placeIn, hi, Option.map_none, Option.getD_none]
    have hnone : bs[i]? = none := by
      rw [← hsame, getElem?_placeIn h]
      exact hi
    rw [hsame, placeIn, hnone, Option.map_none, Option.getD_none]
  | some a =>
    rw [placeIn_of_getElem? ((getElem?_placeIn h).trans hi)]
    obtain ⟨hlt, rfl⟩ := List.getElem?_eq_some_iff.1 hi
    exact hnodup.idxOf_getElem i hlt

def renumbering (h : as.Perm bs) (hnodup : as.Nodup) : Equiv.Perm Nat where
  toFun := placeIn as bs
  invFun := placeIn bs as
  left_inv _ := placeIn_placeIn h hnodup
  right_inv _ := placeIn_placeIn h.symm (h.nodup hnodup)

theorem idxOf?_renumbering (h : as.Perm bs) (hnodup : as.Nodup) (name : Text) :
    bs.idxOf? name = (as.idxOf? name).map (renumbering h hnodup) := by
  by_cases hname : name ∈ as
  · have hplace : placeIn as bs (as.idxOf name) = bs.idxOf name := placeIn_of_getElem? (getElem?_idxOf_of_mem hname)
    rw [idxOf?_of_mem (h.mem_iff.1 hname), idxOf?_of_mem hname, Option.map_some, ← hplace]
    rfl
  · rw [List.idxOf?_eq_none_iff.2 hname, List.idxOf?_eq_none_iff.2 (mt h.mem_iff.2 hname), Option.map_none]

end

/-! ### Permuted declarations -/

section

variable {specs specs' : List ClassSpec}

theorem getElem?_renumbering (h : specs.Perm specs') (hnodup : (specs.map ClassSpec.name).Nodup) (c : ClassId) :
    specs'[renumbering (h.map ClassSpec.name) hnodup c]? = specs[c]? := by
  have hname : (specs'.map ClassSpec.name)[renumbering (h.map ClassSpec.name) hnodup c]? =
      (specs.map ClassSpec.name)[c]? := getElem?_placeIn (h.map ClassSpec.name)
  rw [List.getElem?_map, List.getElem?_map] at hname
  cases hspec : specs[c]? with
  | none => rwa [hspec, Option.map_none, Option.map_eq_none_iff] at hname
  | some spec =>
    rw [hspec, Option.map_some] at hname
    obtain ⟨spec', hspec', heq⟩ := Option.map_eq_some_iff.1 hname
    -- The declaration that was there is the only one with its name.
    rw [hspec', List.inj_on_of_nodup_map hnodup (h.mem_iff.2 (List.mem_of_getElem? hspec')) (List.mem_of_getElem? hspec) heq]

theorem Declarable.perm (hd : Declarable specs) (h : specs.Perm specs') : Declarable specs' where
  named spec hspec := hd.named spec (h.mem_iff.2 hspec)
  nodup := (h.map ClassSpec.name).nodup hd.nodup
  resolved r hr spec hspec := by
    obtain ⟨r0, hr0⟩ := Manifest.exists_names hd.nodup
    obtain ⟨cls, hcls⟩ := hd.resolved r0 hr0 spec (h.mem_iff.2 hspec)
    have hfind : ∀ name, r.find? name = (r0.find? name).map (renumbering (h.map ClassSpec.name) hd.nodup) := by
      intro name
      rw [hr, hr0]
      exact idxOf?_renumbering _ _ name
    exact ⟨_, by rw [Registry.classFrom?_rename hfind, hcls, Option.map_some]⟩

theorem Registry.Populated.renames {r r' : Registry} (hr : r.Populated specs) (hr' : r'.Populated specs')
    (h : specs.Perm specs') (hnodup : (specs.map ClassSpec.name).Nodup) : ∃ σ, Registry.Renames σ r r' := by
  obtain ⟨σ, hnames, hspecs⟩ : ∃ σ : Equiv.Perm ClassId,
      (∀ name, (specs'.map ClassSpec.name).idxOf? name = ((specs.map ClassSpec.name).idxOf? name).map σ) ∧
        ∀ c, specs'[σ c]? = specs[c]? :=
    ⟨_, idxOf?_renumbering (h.map ClassSpec.name) hnodup, getElem?_renumbering h hnodup⟩
  have hfind : ∀ name, r'.find? name = (r.find? name).map σ := by
    intro name
    rw [hr.find?_eq, hr'.find?_eq, hnames]
  refine ⟨σ, hfind, fun c => ?_⟩
  rw [hr.class?_eq, hr'.class?_eq, hspecs]
  cases specs[c]? with
  | none => rw [Option.bind_none, Option.bind_none, Option.map_none, Option.map_none]
  | some spec =>
    rw [Option.bind_some, Option.bind_some, Registry.classFrom?_rename hfind, Option.map_map]
    rfl

theorem Manifest.perm_withRuntime {ms ms' : List Manifest}
    (h : (ms.flatMap Manifest.classes).Perm (ms'.flatMap Manifest.classes)) :
    ((Manifest.withRuntime ms).flatMap Manifest.classes).Perm ((Manifest.withRuntime ms').flatMap Manifest.classes) := by
  have hdeclared : ∀ name, (ms.flatMap fun m => m.classes.map ClassSpec.name).contains name =
      (ms'.flatMap fun m => m.classes.map ClassSpec.name).contains name := by
    intro name
    rw [← List.map_flatMap, ← List.map_flatMap]
    exact (h.map ClassSpec.name).contains_eq
  rw [withRuntime, withRuntime, List.flatMap_cons, List.flatMap_cons]
  simp only [hdeclared]
  exact h.append_left _

end

/-! ### Classes by name -/

/-- A type in which classes stand by their names. -/
inductive NamedType where
  | void
  | primitive (p : Primitive)
  | cls (name : Text)
  | pointer (elem : NamedType)
  deriving Repr, DecidableEq

/-- A method in whose types classes stand by their names. -/
structure NamedMethod where
  name : Text
  descriptor : Text
  access : Access
  params : List NamedType
  result : NamedType
  inVtable : Bool
  binding : Binding
  slot : Int
  ops : List Text
  deriving Repr, DecidableEq

/-- A field in whose type classes stand by their names. -/
structure NamedField where
  name : Text
  descriptor : Text
  access : Access
  type : NamedType
  offset : Int
  deriving Repr, DecidableEq

/-- A class with its supertypes, members, layout and slots, in which classes stand by their names. -/
structure NamedClass where
  name : Text
  access : Access
  external : Bool
  super : Option Text
  interfaces : List Text
  methods : List NamedMethod
  fields : List NamedField
  size : Int
  align : Int
  vtableSize : Int
  /-- The methods in the vtable, each by its class and its position there. -/
  vtable : List (Text × Nat)
  deriving Repr, DecidableEq

namespace Registry

def namedType (r : Registry) : JavaType → NamedType
  | .void => .void
  | .primitive p => .primitive p
  | .cls c => .cls (r.nameOf c)
  | .pointer elem => .pointer (r.namedType elem)

def namedMethod (r : Registry) (m : Method) : NamedMethod :=
  { name := m.name, descriptor := m.descriptor, access := m.access, params := m.params.map r.namedType
    result := r.namedType m.result, inVtable := m.inVtable, binding := m.binding, slot := m.slot, ops := m.ops }

def namedField (r : Registry) (f : Field) : NamedField :=
  { name := f.name, descriptor := f.descriptor, access := f.access, type := r.namedType f.type, offset := f.offset }

def namedClass (r : Registry) (cls : Class) : NamedClass :=
  { name := cls.name, access := cls.access, external := cls.external, super := cls.super.map r.nameOf
    interfaces := cls.interfaces.map r.nameOf, methods := cls.methods.toList.map r.namedMethod
    fields := cls.fields.toList.map r.namedField, size := cls.size, align := cls.align, vtableSize := cls.vtableSize
    vtable := cls.vtable.toList.map fun m => (r.nameOf m.owner, m.index) }

def described? (r : Registry) (name : Text) : Option NamedClass :=
  (r.find? name).bind fun c => (r.class? c).map r.namedClass

variable {σ : Equiv.Perm ClassId} {r r' : Registry}

theorem Renames.nameOf_eq (h : Renames σ r r') (c : ClassId) : r'.nameOf (σ c) = r.nameOf c := by
  have heq := congrArg (Option.map Class.name) (h.class?_eq c)
  rw [Option.map_map, Option.map_map] at heq
  exact congrArg (Option.getD · []) heq

theorem Renames.namedType_eq (h : Renames σ r r') (t : JavaType) : r'.namedType (t.rename σ) = r.namedType t := by
  induction t with
  | void => rfl
  | primitive p => rfl
  | cls c => rw [JavaType.rename, namedType, namedType, h.nameOf_eq]
  | pointer elem ih => rw [JavaType.rename, namedType, namedType, ih]

theorem Renames.namedClass_eq (h : Renames σ r r') (cls : Class) : r'.namedClass (cls.rename σ) = r.namedClass cls := by
  have hmethod : ∀ m, r'.namedMethod (m.rename σ) = r.namedMethod m := by
    intro m
    simp only [namedMethod, Method.rename, List.map_map, Function.comp_def, h.namedType_eq]
  have hfield : ∀ f, r'.namedField (f.rename σ) = r.namedField f := by
    intro f
    simp only [namedField, Field.rename, h.namedType_eq]
  simp only [namedClass, Class.rename, Option.map_map, List.map_map, Array.toList_map, Function.comp_def, h.nameOf_eq,
    hmethod, hfield, MethodRef.rename]

theorem Renames.described?_eq (h : Renames σ r r') (name : Text) : r'.described? name = r.described? name := by
  have hclass : ∀ c, (r'.class? (σ c)).map r'.namedClass = (r.class? c).map r.namedClass := by
    intro c
    have heq := congrArg (Option.map r'.namedClass) (h.class?_eq c)
    rw [Option.map_map, Option.map_map] at heq
    refine heq.trans (congrArg (Option.map · _) ?_)
    funext cls
    exact h.namedClass_eq cls
  rw [described?, described?, h.find?_eq]
  cases r.find? name with
  | none => rfl
  | some c => exact hclass c

end Registry

/-! ### Building classes -/

/-- Enters the classes of manifests after those of the runtime library, lays out their objects and assigns their slots. -/
def Manifest.buildClasses (ms : List Manifest) : Action Unit := do
  populate (withRuntime ms)
  Class.layOutAll
  Class.assignAllSlots

namespace Manifest

variable {ms ms' : List Manifest} {target : Target} {w : Workspace}

theorem finishes_buildClasses_perm (h : (ms.flatMap Manifest.classes).Perm (ms'.flatMap Manifest.classes))
    (hrun : Finishes (buildClasses ms) { target } () w) :
    ∃ w', Finishes (buildClasses ms') { target } () w' ∧ ∀ name, w'.registry.described? name = w.registry.described? name := by
  obtain ⟨_, w1, hpopulate, hrest⟩ := finishes_bind_iff.1 hrun
  obtain ⟨_, w2, hlayOut, hassign⟩ := finishes_bind_iff.1 hrest
  have hperm := perm_withRuntime h
  obtain ⟨hdeclarable, hpopulated, heq⟩ := populated_of_finishes hpopulate
  obtain ⟨v1, hpopulate'⟩ := exists_populate (hdeclarable.perm hperm) target
  obtain ⟨-, hpopulated', heq'⟩ := populated_of_finishes hpopulate'
  have built := (keeps_built_populate (withRuntime ms)).of_finishes (.start target) hpopulate
  have built' := (keeps_built_populate (withRuntime ms')).of_finishes (.start target) hpopulate'
  obtain ⟨σ, hrenames⟩ := hpopulated.renames hpopulated' hperm hdeclarable.nodup
  have htarget : v1.target = w1.target := by rw [heq, heq']
  obtain ⟨v2, hlayOut', hrenames2⟩ := hrenames.layOutAll htarget built built' hlayOut
  have built2 : w2.Built := by
    have hbuilt := Workspace.Built.layOutAll built
    rwa [hlayOut] at hbuilt
  have built2' : v2.Built := by
    have hbuilt := Workspace.Built.layOutAll built'
    rwa [hlayOut'] at hbuilt
  obtain ⟨v3, hassign', hrenames3⟩ := hrenames2.assignAllSlots built2.declared built2'.declared
    (supersKnown_layOutAll built hlayOut) hassign
  refine ⟨v3, ?_, hrenames3.described?_eq⟩
  exact finishes_bind_iff.2 ⟨(), v1, hpopulate', finishes_bind_iff.2 ⟨(), v2, hlayOut', hassign'⟩⟩

/-- Layout and dispatch do not depend on the order of declarations. The classes of the same declarations, however they are
spread over manifests, can be built for both or for neither, and then a class has the same supertypes, members, layout and
slots in both. -/
theorem buildClasses_perm (h : (ms.flatMap Manifest.classes).Perm (ms'.flatMap Manifest.classes)) (target : Target) :
    (buildClasses ms { target }).1.isOk = (buildClasses ms' { target }).1.isOk ∧
      ((buildClasses ms { target }).1.isOk = true → ∀ name,
        (buildClasses ms { target }).2.registry.described? name = (buildClasses ms' { target }).2.registry.described? name) := by
  have hforward : ∀ {ms ms' : List Manifest}, (ms.flatMap Manifest.classes).Perm (ms'.flatMap Manifest.classes) →
      (buildClasses ms { target }).1.isOk = true → (buildClasses ms' { target }).1.isOk = true ∧ ∀ name,
        (buildClasses ms { target }).2.registry.described? name =
          (buildClasses ms' { target }).2.registry.described? name := by
    intro ms ms' h hok
    obtain ⟨w', hrun', hsame⟩ := finishes_buildClasses_perm h (finishes_of_isOk hok)
    rw [hrun']
    exact ⟨rfl, fun name => (hsame name).symm⟩
  refine ⟨?_, fun hok => (hforward h hok).2⟩
  rw [Bool.eq_iff_iff]
  exact ⟨fun hok => (hforward h hok).1, fun hok => (hforward h.symm hok).1⟩

end Manifest

/-! ### Two classes in two orders -/

namespace Manifest

/-- Classes without members in the place of those of the runtime library. -/
def emptyLibrary : Manifest := { classes := runtimeLibrary.classes.map fun c => { name := c.name } }

def baseSpec : ClassSpec :=
  { name := "A", fields := [{ name := "x", descriptor := "I" }], methods := [{ name := "m", descriptor := "()V" }] }

/-- A subclass that overrides the method and refers to its superclass. -/
def derivedSpec : ClassSpec :=
  { name := "B", super := "A", fields := [{ name := "y", descriptor := "LA;" }]
    methods := [{ name := "m", descriptor := "()V" }] }

theorem exists_buildClasses_derived :
    ∃ w, Finishes (buildClasses [emptyLibrary, { classes := [baseSpec, derivedSpec] }]) { target := .linux64 } () w := by
  -- All is evaluated but the turn of the subclass, since the table of its slots starts with those of its superclass.
  generalize hrun : (do
    populate (withRuntime [emptyLibrary, { classes := [baseSpec, derivedSpec] }])
    Class.layOutAll
    let order ← Action.ofExcept .cls (← Action.registry).superToSub
    [0, 1, 2, 3, 4, 5, 6].forM Class.assignSlots
    return order : Action (List ClassId)) { target := .linux64 } = out
  have hvalue := hrun
  cbv at hvalue
  subst hvalue
  change Finishes _ _ _ _ at hrun
  simp only [finishes_bind_iff, Action.finishes_registry_iff, Action.finishes_ofExcept_iff, finishes_pure_iff] at hrun
  obtain ⟨_, w1, hpopulate, _, w2, hlayOut, _, _, ⟨rfl, rfl⟩, order, _, ⟨horder, rfl⟩, _, w3, hturns, rfl, hw3⟩ := hrun
  obtain ⟨w, hlast⟩ : ∃ w, Finishes (Class.assignSlots 7) w3 () w := by
    subst hw3
    refine ⟨_, finishes_of_place rfl rfl (.super rfl rfl rfl) rfl ?_⟩
    split <;> simp [headerSlots, SlotTable.slots_ofVtable]
  refine ⟨w, finishes_bind_iff.2 ⟨(), w1, hpopulate, finishes_bind_iff.2 ⟨(), w2, hlayOut,
    finishes_assignAllSlots_iff.2 ⟨_, horder, ?_⟩⟩⟩⟩
  change Finishes (forM ([0, 1, 2, 3, 4, 5, 6] ++ [7]) Class.assignSlots) w2 () w
  rw [List.forM_append]
  exact finishes_bind_iff.2 ⟨(), w3, hturns, finishes_forM_cons_iff.2 ⟨w, hlast, finishes_forM_nil_iff.2 rfl⟩⟩

theorem buildClasses_perm_derived :
    (buildClasses [emptyLibrary, { classes := [baseSpec, derivedSpec] }] { target := .linux64 }).1.isOk = true ∧
      (buildClasses [{ classes := [derivedSpec] }, { classes := baseSpec :: emptyLibrary.classes.reverse }]
        { target := .linux64 }).1.isOk = true ∧
      ∀ name, (buildClasses [emptyLibrary, { classes := [baseSpec, derivedSpec] }]
          { target := .linux64 }).2.registry.described? name =
        (buildClasses [{ classes := [derivedSpec] }, { classes := baseSpec :: emptyLibrary.classes.reverse }]
          { target := .linux64 }).2.registry.described? name := by
  obtain ⟨w, hrun⟩ := exists_buildClasses_derived
  have hok : (buildClasses [emptyLibrary, { classes := [baseSpec, derivedSpec] }] { target := .linux64 }).1.isOk = true := by
    rw [hrun]
    rfl
  have hperm : (List.flatMap Manifest.classes [emptyLibrary, { classes := [baseSpec, derivedSpec] }]).Perm
      (List.flatMap Manifest.classes [{ classes := [derivedSpec] }, { classes := baseSpec :: emptyLibrary.classes.reverse }]) := by
    decide
  obtain ⟨hsame, hdescribed⟩ := buildClasses_perm hperm .linux64
  exact ⟨hok, hsame ▸ hok, hdescribed hok⟩

end Manifest

end ClassAbi
