import ClassAbi.Proofs.Class.Known
import ClassAbi.Proofs.LinkerName.Inverse

/-!
# Linker names of declared methods

The descriptor of a method is read twice: a class reads the types of the parameters one after the other, and a linker name
takes what stands before the first `)` for the parameters. The two agree on every descriptor in which no class has `)` in
its name, and there is no linker name for any other one (`ofMethod_eq_ok_iff`).
-/

namespace ClassAbi.LinkerName

open Ascii Text ParameterType

variable {r : Registry} {d : Text} {t : JavaType} {ds : List Text} {params : List JavaType}

theorem exists_type_of_reads (h : r.Reads d t) :
    ∃ ty : ParameterType, ty.text = d ∧ ∀ name ∈ ty.className, semicolon ∉ name ∧ ∃ c, r.find? name = some c := by
  induction h with
  | primitive p => exact ⟨.primitive p, rfl, by simp [className]⟩
  | @reference name c hname hfind =>
    refine ⟨.cls name, rfl, ?_⟩
    rintro _ ⟨⟩
    exact ⟨hname, c, hfind⟩
  | array _ ih =>
    obtain ⟨elem, rfl, hnames⟩ := ih
    exact ⟨.array elem, rfl, hnames⟩

theorem exists_types_of_reads (h : List.Forall₂ r.Reads ds params) :
    ∃ types : List ParameterType, types.map text = ds ∧
      ∀ ty ∈ types, ∀ name ∈ ty.className, semicolon ∉ name ∧ ∃ c, r.find? name = some c := by
  induction h with
  | nil => exact ⟨[], rfl, by simp⟩
  | cons hd _ ih =>
    obtain ⟨ty, rfl, hty⟩ := exists_type_of_reads hd
    obtain ⟨types, rfl, htypes⟩ := ih
    exact ⟨ty :: types, rfl, List.forall_mem_cons.2 ⟨hty, htypes⟩⟩

/-- The codes of types in parentheses are written exactly when no class among them has `)` in its name. -/
theorem parameters_eq_ok_iff {types : List ParameterType} {result written : Text}
    (hnames : ∀ ty ∈ types, ∀ name ∈ ty.className, HasPath name ∧ semicolon ∉ name) :
    parameters (openParen :: (types.flatMap text ++ closeParen :: result)) = .ok written ↔
      (∀ ty ∈ types, closeParen ∉ ty.text) ∧ written = codes types := by
  constructor
  · intro h
    obtain ⟨types', hlists, rfl, -⟩ := lists_of_parameters h
    obtain ⟨result', hresult⟩ := hlists.text
    -- Both sequences of types stand in front of a `)`, and a class name ends at the next `;` in both of them.
    obtain rfl : types = types' := flatMap_text_inj (fun ty hty name hname => (hnames ty hty name hname).2)
      (fun ty hty name hname => (hlists.closed ty hty name hname).1) (List.cons.inj hresult).2
    exact ⟨fun ty hty => closeParen_not_mem_text fun name hname => (hlists.closed ty hty name hname).2, rfl⟩
  · rintro ⟨hclosed, rfl⟩
    refine parameters_of_lists ⟨⟨result, rfl⟩, fun ty hty name hname => ⟨(hnames ty hty name hname).2, fun hmem => ?_⟩⟩
      fun ty hty name hname => (hnames ty hty name hname).1
    exact hclosed ty hty (className_subset hname hmem)

/-- A method with a descriptor that is read has a linker name exactly when no parameter has `)` in its descriptor. After
the closing `E` of the member, the name has the codes of the descriptors that the parameters have. -/
theorem ofMethod_eq_ok_iff {w : Workspace} (built : w.Built)
    (hnames : ∀ c cls, w.registry.class? c = some cls → ∃ segments, path cls.name = .ok segments)
    {descriptor : Text} {params : List JavaType} {result : JavaType}
    (hread : w.registry.typesOfDescriptor descriptor = .ok (params, result)) {cls name segments written : Text}
    (hcls : path cls = .ok segments) (hname : member name = .ok written) :
    ∃ types : List ParameterType, types.map text = params.map w.registry.descriptorOf ∧
      ∀ linkerName, ofMethod cls name descriptor = .ok linkerName ↔
        (∀ p ∈ params, closeParen ∉ w.registry.descriptorOf p) ∧
          linkerName = nestedStart ++ segments ++ written ++ [upperE] ++ codes types := by
  obtain ⟨ds, text', hds, rfl, -⟩ := Registry.typesOfDescriptor_eq_ok_iff.1 hread
  obtain ⟨types, rfl, htypes⟩ := exists_types_of_reads hds
  have htexts : types.map text = params.map w.registry.descriptorOf := by
    generalize types.map text = ds at hds
    clear hread
    induction hds with
    | nil => rfl
    | cons hd _ ih => rw [List.map_cons, hd.descriptorOf_eq built.known, ih]
  have hpaths : ∀ ty ∈ types, ∀ name ∈ ty.className, HasPath name ∧ semicolon ∉ name := by
    intro ty hty name hname
    obtain ⟨hsemicolon, c, hfind⟩ := htypes ty hty name hname
    obtain ⟨cls, hcls, rfl⟩ := built.known.named name c hfind
    obtain ⟨segments, hsegments⟩ := hnames c cls hcls
    exact ⟨(path_eq_ok_iff.1 hsegments).1, hsemicolon⟩
  have hclosed : (∀ ty ∈ types, closeParen ∉ ty.text) ↔ ∀ p ∈ params, closeParen ∉ w.registry.descriptorOf p := by
    rw [← List.forall_mem_map (f := text) (P := (closeParen ∉ ·)), htexts, List.forall_mem_map]
  refine ⟨types, htexts, fun linkerName => ?_⟩
  rw [ofMethod, hcls, hname, ← hclosed]
  show (parameters _ >>= fun codes => .ok (nestedStart ++ segments ++ written ++ [upperE] ++ codes)) = _ ↔ _
  rw [bind_eq_ok_iff, ← List.flatMap_def]
  simp only [parameters_eq_ok_iff hpaths, Except.ok.injEq]
  constructor
  · rintro ⟨_, ⟨hclosed, rfl⟩, rfl⟩
    exact ⟨hclosed, rfl⟩
  · rintro ⟨hclosed, rfl⟩
    exact ⟨_, ⟨hclosed, rfl⟩, rfl⟩

def classNamed (name : Text) : Workspace := (Class.declare name ⟨1⟩ false { target := .linux64 }).2

theorem built_classNamed (name : Text) : (classNamed name).Built := .declare name ⟨1⟩ false (.start .linux64)

theorem path_classNamed {name segments : Text} (hempty : name.isEmpty = false) (hdot : name.contains 0x2E = false)
    (hpath : path name = .ok segments) (c : ClassId) (cls : Class) (h : (classNamed name).registry.class? c = some cls) :
    ∃ segments, path cls.name = .ok segments := by
  rw [classNamed, declare_apply hempty hdot (by simp)] at h
  have hmem : cls ∈ #[({ name, access := ⟨1⟩, external := false } : Class)] := Array.mem_of_getElem? h
  simp only [List.mem_toArray, List.mem_singleton] at hmem
  exact ⟨segments, hmem ▸ hpath⟩

theorem ofMethod_eq_ok_iff_array : (classNamed "a/b").Built ∧
    (classNamed "a/b").registry.typesOfDescriptor "([La/b;I)V" = .ok ([.pointer (.reference 0), .primitive .int], .void) ∧
    path "a/b" = .ok "1a1b" ∧ member "and" = .ok "3and$" ∧ ∃ types : List ParameterType,
      types.map text = ["[La/b;", "I"] ∧ ∀ linkerName, ofMethod "a/b" "and" "([La/b;I)V" = .ok linkerName ↔
        (∀ p ∈ [.pointer (.reference 0), .primitive .int], closeParen ∉ (classNamed "a/b").registry.descriptorOf p) ∧
          linkerName = nestedStart ++ "1a1b" ++ "3and$" ++ [upperE] ++ codes types := by
  have hread : (classNamed "a/b").registry.typesOfDescriptor "([La/b;I)V" =
      .ok ([.pointer (.reference 0), .primitive .int], .void) := by cbv
  have hpath : path "a/b" = .ok "1a1b" := by cbv
  have hmember : member "and" = .ok "3and$" := by cbv
  have htexts : [.pointer (.reference 0), .primitive .int].map (classNamed "a/b").registry.descriptorOf = ["[La/b;", "I"] := by cbv
  obtain ⟨types, htypes, hiff⟩ := ofMethod_eq_ok_iff (built_classNamed "a/b")
    (path_classNamed (by decide) (by decide) hpath) hread hpath hmember
  exact ⟨built_classNamed "a/b", hread, hpath, hmember, types, htypes.trans htexts, hiff⟩

/-- A class with `)` in its name has a linker name, and a descriptor with this class is read, but there is no linker name
for a method that has it. -/
theorem ofMethod_ne_ok_of_closeParen : path "a)b" = .ok "8a__U29_b" ∧
    (classNamed "a)b").registry.typesOfDescriptor "(La)b;)V" = .ok ([.reference 0], .void) ∧
    ofMethod "a)b" "m" "(La)b;)V" = .error (.openClassType "La") := by
  refine ⟨?_, ?_, ?_⟩ <;> cbv

end ClassAbi.LinkerName
