import ClassAbi.Proofs.Files.Tree

/-!
# What is seen at a path

The operations by which a file is put in its place change the tree in two ways: directories are added on the way to it, and
names in one directory get other files. What is seen at the other paths of that directory stays the same.
-/

namespace ClassAbi

open FilePlace ClassAbi.Path

/-- What is seen at a path. -/
inductive Seen where
  | nothing
  | directory
  | device
  | file (content : Text)
  deriving Repr, DecidableEq

/-- Whether a path leads to a file with a name, after some parts. -/
structure Path.LeadsTo (path : Text) (parts : List Text) (name : Text) : Prop where
  trail_eq : trail path = parts ++ [name]
  isName : name.IsName
  unslashed : path.getLast? ≠ some slash

namespace FileTree

variable {t t' t'' : FileTree} {path name : Text} {parts : List Text} {dir place p : FilePlace}

def seen (t : FileTree) : FileNode → Seen
  | .directory _ => .directory
  | .device => .device
  | .file number => .file (t.contents[number]?.getD [])

def see (t : FileTree) (path : Text) : Seen :=
  match t.find path with
  | .ok node => t.seen node
  | .error _ => .nothing

def seeAt (t : FileTree) (place : FilePlace) : Seen := ((t.kindAt place).map t.seen).getD .nothing

/-- Whether a path can be followed up to its last part, and that is short enough for a name. -/
def Reaches (t : FileTree) (path : Text) (parts : List Text) (name : Text) : Prop :=
  IsPath path ∧ t.Passable (base (isAbsolute path)) parts ∧ name.length ≤ nameLimit

theorem place_of_leadsTo (h : LeadsTo path parts name) : Path.place path = name :: along (base (isAbsolute path)) parts := by
  rw [Path.place, h.trail_eq, along_append]
  show next _ name = _
  rw [next, h.isName.notDots, if_neg Bool.false_ne_true]

theorem resolve_of_leadsTo (h : LeadsTo path parts name) :
    t.resolve path = .ok (.name (along (base (isAbsolute path)) parts) name false) ↔
      IsPath path ∧ t.Passable (base (isAbsolute path)) parts := by
  rw [resolve_eq_name_iff]
  constructor
  · rintro ⟨hpath, parts', htrail, -, hpass, -⟩
    rw [h.trail_eq] at htrail
    obtain ⟨rfl, -⟩ := List.append_inj' htrail rfl
    exact ⟨hpath, hpass⟩
  · rintro ⟨hpath, hpass⟩
    exact ⟨hpath, parts, h.trail_eq, h.isName.notDots, hpass, rfl, by simpa using h.unslashed⟩

theorem resolve_cases (h : LeadsTo path parts name) (t : FileTree) :
    (t.resolve path = .ok (.name (along (base (isAbsolute path)) parts) name false) ∧
      IsPath path ∧ t.Passable (base (isAbsolute path)) parts) ∨
    ∃ e, t.resolve path = .error e ∧ ¬(IsPath path ∧ t.Passable (base (isAbsolute path)) parts) := by
  rcases hresolve : t.resolve path with e | d
  · refine .inr ⟨e, rfl, fun hreach => ?_⟩
    rw [(resolve_of_leadsTo h).2 hreach] at hresolve
    cases hresolve
  · have hpath := isPath_of_resolve hresolve
    suffices hpass : t.Passable (base (isAbsolute path)) parts by
      rw [← hresolve]
      exact .inl ⟨(resolve_of_leadsTo h).2 ⟨hpath, hpass⟩, hpath, hpass⟩
    have hparts : AreParts parts := fun q hq => areParts_trail path q (by rw [h.trail_eq]; simp [hq])
    rw [resolve_of_isPath hpath, h.trail_eq, List.dropLast_concat] at hresolve
    rcases hwalk : t.walk (base (isAbsolute path)) (t.entriesAt (base (isAbsolute path))) parts with e | d
    · rw [hwalk] at hresolve
      cases hresolve
    · exact ((walk_eq_ok_iff hparts).1 hwalk).1

theorem see_of_reaches (h : LeadsTo path parts name) (hreach : t.Reaches path parts name) :
    t.see path = t.seeAt (Path.place path) := by
  obtain ⟨hpath, hpass, hshort⟩ := hreach
  rw [see, find, (resolve_of_leadsTo h).2 ⟨hpath, hpass⟩, seeAt, place_of_leadsTo h, kindAt_cons h.isName]
  simp only [bind, Except.bind, FileTree.lookup, if_neg (Nat.not_lt.2 hshort)]
  rcases (t.entriesAt (along (base (isAbsolute path)) parts)).lookup name with _ | (inner | number | _) <;> rfl

theorem see_of_not_reaches (h : LeadsTo path parts name) (hreach : ¬t.Reaches path parts name) : t.see path = .nothing := by
  rw [see, find]
  rcases resolve_cases h t with ⟨hresolve, hpath, hpass⟩ | ⟨e, hresolve, -⟩
  · have hlong : nameLimit < name.length := by
      by_contra hshort
      exact hreach ⟨hpath, hpass, Nat.not_lt.1 hshort⟩
    rw [hresolve]
    simp only [bind, Except.bind, FileTree.lookup, if_pos hlong]
  · rw [hresolve]
    rfl

/-- Where the same directories are there, the same is seen at a path if the same is in its place. -/
theorem see_congr (h : LeadsTo path parts name) (hsame : ∀ p, t'.IsDirectory p ↔ t.IsDirectory p)
    (hplace : t'.seeAt (Path.place path) = t.seeAt (Path.place path)) : t'.see path = t.see path := by
  have hreaches : t'.Reaches path parts name ↔ t.Reaches path parts name :=
    ⟨fun ⟨hpath, hpass, hshort⟩ => ⟨hpath, hpass.congr fun p => (hsame p).1, hshort⟩,
      fun ⟨hpath, hpass, hshort⟩ => ⟨hpath, hpass.congr fun p => (hsame p).2, hshort⟩⟩
  by_cases hreach : t.Reaches path parts name
  · rw [see_of_reaches h hreach, see_of_reaches h (hreaches.2 hreach), hplace]
  · rw [see_of_not_reaches h hreach, see_of_not_reaches h (mt hreaches.1 hreach)]

def Sound (t : FileTree) : Prop := ∀ p n, t.kindAt p = some (.file n) → n < t.contents.size

theorem mem_filesIn_of_lookup {entries : FileEntries} {node : FileNode} (h : entries.lookup name = some node) (place : FilePlace)
    {f : FilePlace × Nat} (hf : f ∈ node.files (name :: place)) : f ∈ FileNode.files.filesIn place entries := by
  induction entries with
  | nil => cases h
  | cons entry rest ih =>
    obtain ⟨other, inner⟩ := entry
    rw [FileNode.files.filesIn, List.mem_append]
    rw [List.lookup_cons] at h
    split at h
    · rename_i heq
      cases h
      rw [beq_iff_eq.1 heq] at hf
      exact .inl hf
    · exact .inr (ih h)

theorem mem_filesIn_of_get? {n : Nat} (parts : List Text) (place : FilePlace) (entries : FileEntries)
    (h : FileEntries.get? parts entries = some (.file n)) : ∃ p, (p, n) ∈ FileNode.files.filesIn place entries := by
  induction parts generalizing place entries with
  | nil => cases h
  | cons part parts ih =>
    rw [FileEntries.get?.eq_def] at h
    dsimp only at h
    rcases hlookup : entries.lookup part with _ | node
    · rw [hlookup] at h
      cases parts <;> cases h
    rw [hlookup] at h
    cases parts with
    | nil =>
      cases h
      exact ⟨_, mem_filesIn_of_lookup hlookup place (List.mem_singleton.2 rfl)⟩
    | cons next parts =>
      rcases node with inner | number | _
      · obtain ⟨p, hp⟩ := ih (part :: place) inner h
        exact ⟨p, mem_filesIn_of_lookup hlookup place hp⟩
      · cases h
      · cases h

theorem sound_of_files (h : ∀ f ∈ FileNode.files.filesIn [] t.root, f.2 < t.contents.size) : t.Sound := by
  intro place n hkind
  rw [kindAt] at hkind
  split at hkind
  · cases hkind
  obtain ⟨node, hnode, hfile⟩ := Option.map_eq_some_iff.1 hkind
  cases node with
  | file number =>
    cases hfile
    obtain ⟨p, hp⟩ := mem_filesIn_of_get? place.reverse [] t.root hnode
    exact h _ hp
  | directory entries => cases hfile
  | device => cases hfile

/-! ### Directories that are added -/

/-- Whether a tree only has more directories, all of them in places that `N` allows. -/
structure Grown (N : FilePlace → Prop) (t t' : FileTree) : Prop where
  contents_eq : t'.contents = t.contents
  kinds : ∀ p, t'.kindAt p = t.kindAt p ∨ t.kindAt p = none ∧ t'.IsDirectory p ∧ N p

variable {N N' : FilePlace → Prop}

theorem Grown.refl (t : FileTree) : Grown N t t := ⟨rfl, fun _ => .inl rfl⟩

theorem Grown.mono (h : Grown N t t') (hN : ∀ p, N p → N' p) : Grown N' t t' :=
  ⟨h.contents_eq, fun p => (h.kinds p).imp_right fun ⟨hnone, hdir, hp⟩ => ⟨hnone, hdir, hN p hp⟩⟩

theorem Grown.trans (h : Grown N t t') (h' : Grown N t' t'') : Grown N t t'' := by
  refine ⟨h'.contents_eq.trans h.contents_eq, fun p => ?_⟩
  rcases h.kinds p with hsame | ⟨hnone, hdir, hp⟩
  · rcases h'.kinds p with hsame' | ⟨hnone', hdir', hp⟩
    · exact .inl (hsame'.trans hsame)
    · exact .inr ⟨hsame ▸ hnone', hdir', hp⟩
  · rcases h'.kinds p with hsame' | ⟨hnone', -, -⟩
    · exact .inr ⟨hnone, hsame'.trans hdir, hp⟩
    · rw [hdir] at hnone'
      cases hnone'

theorem Grown.sound (h : Grown N t t') (hsound : t.Sound) : t'.Sound := by
  intro p n hp
  rw [h.contents_eq]
  rcases h.kinds p with hsame | ⟨-, hdir, -⟩
  · exact hsound p n (hsame ▸ hp)
  · rw [hdir] at hp
    cases hp

/-- What is seen at a path stays the same if directories are only added above its place. -/
theorem Grown.see_eq (h : Grown (· <:+ dir) t t') (hleads : LeadsTo path parts name) (hplace : Path.place path = name :: dir) :
    t'.see path = t.see path := by
  have hself : t'.kindAt (name :: dir) = t.kindAt (name :: dir) := by
    refine (h.kinds _).resolve_right fun ⟨_, _, hsuffix⟩ => ?_
    have hlength := hsuffix.length_le
    simp at hlength
  by_cases hdir : t.IsDirectory dir
  · -- All directories above the place were there.
    have hkinds : ∀ p, t'.kindAt p = t.kindAt p := by
      refine fun p => (h.kinds p).resolve_right fun ⟨hnone, _, hsuffix⟩ => ?_
      rw [hdir.of_suffix hsuffix] at hnone
      cases hnone
    refine see_congr hleads (fun p => by rw [IsDirectory, IsDirectory, hkinds]) ?_
    rw [seeAt, seeAt, hkinds]
    cases t.kindAt (Path.place path) with
    | none => rfl
    | some node => cases node <;> simp [seen, h.contents_eq]
  · -- Without its directory there is nothing in the place, and neither if that has been made.
    have hnone : t.kindAt (name :: dir) = none := by
      by_contra hsome
      exact hdir (isDirectory_of_kindAt_cons hleads.isName hsome)
    have hnothing : ∀ t : FileTree, t.kindAt (name :: dir) = none → t.see path = .nothing := by
      intro t ht
      by_cases hreach : t.Reaches path parts name
      · rw [see_of_reaches hleads hreach, seeAt, hplace, ht]
        rfl
      · exact see_of_not_reaches hleads hreach
    rw [hnothing t hnone, hnothing t' (hself.trans hnone)]

theorem isName_of_trail (htrail : trail path = parts ++ [name]) (hdots : isDots name = false) : name.IsName :=
  ⟨hdots, (areParts_trail path name (by rw [htrail]; simp)).1⟩

theorem isDirectory_of_passable (htrail : trail path = parts ++ [name]) (hpass : t.Passable (base (isAbsolute path)) parts) :
    t.IsDirectory (along (base (isAbsolute path)) parts) := by
  have hparts : AreParts parts := fun q hq => areParts_trail path q (by rw [htrail]; simp [hq])
  exact hpass.isDirectory hparts (rooted_base _) (isDirectory_of_isBase (by cases isAbsolute path <;> rfl))

theorem entriesAt_cons_of_lookup (h : (t.entriesAt dir).lookup name = none) : t.entriesAt (name :: dir) = [] := by
  rw [entriesAt_eq, nodeAt_cons, h]
  rfl

theorem makeOne_cases (t : FileTree) (path : Text) :
    (∃ e, t.makeOne path = .error e) ∨ ∃ t' parts name, t.makeOne path = .ok t' ∧ trail path = parts ++ [name] ∧
      isDots name = false ∧ Grown (· = along (base (isAbsolute path)) (parts ++ [name])) t t' := by
  rw [makeOne]
  rcases hresolve : t.resolve path with e | (_ | ⟨dir, name, slashed⟩)
  · exact .inl ⟨_, rfl⟩
  · exact .inl ⟨_, rfl⟩
  simp only [bind, Except.bind, FileTree.lookup]
  by_cases hlong : nameLimit < name.length
  · rw [if_pos hlong]
    exact .inl ⟨_, rfl⟩
  rw [if_neg hlong]
  rcases hlookup : (t.entriesAt dir).lookup name with _ | node
  · obtain ⟨-, parts, htrail, hdots, hpass, rfl, -⟩ := resolve_eq_name_iff.1 hresolve
    have hname := isName_of_trail htrail hdots
    have hplace : along (base (isAbsolute path)) (parts ++ [name]) = name :: along (base (isAbsolute path)) parts := by
      rw [along_append]
      show next _ name = _
      rw [next, hdots, if_neg Bool.false_ne_true]
    refine .inr ⟨_, parts, name, rfl, htrail, hdots, rfl, fun p => ?_⟩
    have hkind := @kindAt_set t _ name (some (.directory [])) hname (isDirectory_of_passable htrail hpass)
      (entriesAt_cons_of_lookup hlookup) rfl p
    by_cases hp : p = name :: along (base (isAbsolute path)) parts
    · rw [if_pos hp] at hkind
      refine .inr ⟨?_, hkind, hp.trans hplace.symm⟩
      rw [hp, kindAt_cons hname, hlookup]
      rfl
    · rw [if_neg hp] at hkind
      exact .inl hkind
  · exact .inl ⟨_, rfl⟩

/-- Whether a place is that of a name on the way along a path. -/
def OnWay (path : Text) (p : FilePlace) : Prop :=
  ∃ parts name rest, trail path = parts ++ name :: rest ∧ isDots name = false ∧
    p = along (base (isAbsolute path)) (parts ++ [name])

theorem OnWay.of_parent (hne : parent path ≠ []) (h : OnWay (parent path) p) : OnWay path p := by
  obtain ⟨parts, name, rest, htrail, hdots, rfl⟩ := h
  rw [isAbsolute_parent hne]
  rw [trail_parent] at htrail
  have hnonempty : trail path ≠ [] := by
    intro hnil
    rw [hnil] at htrail
    simp at htrail
  refine ⟨parts, name, rest ++ [(trail path).getLast hnonempty], ?_, hdots, rfl⟩
  rw [← List.cons_append, ← List.append_assoc, ← htrail, List.dropLast_concat_getLast]

theorem grown_makeDirectory (t : FileTree) (path : Text) : Grown (OnWay path) t (t.makeDirectory path).2 := by
  rw [makeDirectory]
  split
  · exact .refl t
  · exact .refl t
  dsimp only
  have habove : Grown (OnWay path) t
      (if _h : parent path = [] then ((.ok (), t) : Except FileError Unit × FileTree) else t.makeDirectory (parent path)).2 := by
    split_ifs with hnil
    · exact .refl t
    · exact (grown_makeDirectory t (parent path)).mono fun p => OnWay.of_parent hnil
  generalize (if _h : parent path = [] then ((.ok (), t) : Except FileError Unit × FileTree)
    else t.makeDirectory (parent path)) = above at habove ⊢
  obtain ⟨result, t1⟩ := above
  dsimp only at habove ⊢
  rcases makeOne_cases t1 path with ⟨e, he⟩ | ⟨t2, parts, name, hmade, htrail, hdots, hgrown⟩
  · rw [he]
    cases result <;> exact habove
  · rw [hmade]
    cases result with
    | error e => exact habove
    | ok _ =>
      refine habove.trans (hgrown.mono ?_)
      rintro p rfl
      exact ⟨parts, name, [], htrail, hdots, rfl⟩
termination_by path.length
decreasing_by exact Path.parent_length_lt fun hp => hnil (by rw [hp]; rfl)

/-- Along the shortest path, directories are only made above the place that it leads to. -/
theorem grown_makeDirectory_clean (t : FileTree) (p : Text) :
    Grown (· <:+ Path.place (clean p)) t (t.makeDirectory (clean p)).2 :=
  (grown_makeDirectory t (clean p)).mono fun _ ⟨_, _, _, htrail, hdots, hp⟩ => hp ▸ suffix_place_clean htrail hdots

/-! ### Files that are replaced -/

/-- Whether in a tree only some names of a directory have other files, or have files now, or have none any more. -/
structure Swaps (dir : FilePlace) (changed : Text → Prop) (t t' : FileTree) : Prop where
  kinds : ∀ p, t'.kindAt p = t.kindAt p ∨
    ∃ name, p = name :: dir ∧ changed name ∧ ¬t.IsDirectory p ∧ ¬t'.IsDirectory p
  contents : ∀ (n : Nat) (c : Text), t.contents[n]? = some c → t'.contents[n]? = some c
  sound : t.Sound → t'.Sound

variable {changed changed' : Text → Prop}

theorem Swaps.refl (t : FileTree) : Swaps dir changed t t := ⟨fun _ => .inl rfl, fun _ _ h => h, id⟩

theorem Swaps.mono (h : Swaps dir changed t t') (hchanged : ∀ name, changed name → changed' name) : Swaps dir changed' t t' :=
  ⟨fun p => (h.kinds p).imp_right fun ⟨name, hp, hname, hdirs⟩ => ⟨name, hp, hchanged name hname, hdirs⟩, h.contents, h.sound⟩

theorem Swaps.isDirectory_iff (h : Swaps dir changed t t') (p : FilePlace) : t'.IsDirectory p ↔ t.IsDirectory p := by
  rcases h.kinds p with hsame | ⟨-, -, -, hnot, hnot'⟩
  · rw [IsDirectory, IsDirectory, hsame]
  · exact ⟨fun hdir => absurd hdir hnot', fun hdir => absurd hdir hnot⟩

theorem Swaps.trans (h : Swaps dir changed t t') (h' : Swaps dir changed t' t'') : Swaps dir changed t t'' := by
  refine ⟨fun p => ?_, fun n c hc => h'.contents n c (h.contents n c hc), fun hsound => h'.sound (h.sound hsound)⟩
  rcases h.kinds p with hsame | ⟨name, hp, hname, hnot, hnot'⟩
  · rcases h'.kinds p with hsame' | ⟨name, hp, hname, hnot, hnot'⟩
    · exact .inl (hsame'.trans hsame)
    · exact .inr ⟨name, hp, hname, mt (h.isDirectory_iff p).2 hnot, hnot'⟩
  · exact .inr ⟨name, hp, hname, hnot, mt (h'.isDirectory_iff p).1 hnot'⟩

theorem Swaps.see_eq (h : Swaps dir changed t t') (hsound : t.Sound) (hleads : LeadsTo path parts name)
    (hplace : Path.place path = name :: dir) (hname : ¬changed name) : t'.see path = t.see path := by
  refine see_congr hleads h.isDirectory_iff ?_
  have hkind : t'.kindAt (name :: dir) = t.kindAt (name :: dir) := by
    refine (h.kinds _).resolve_right ?_
    rintro ⟨other, hother, hchanged, -⟩
    rw [List.cons.injEq] at hother
    exact hname (hother.1 ▸ hchanged)
  rw [seeAt, seeAt, hplace, hkind]
  rcases hnode : t.kindAt (name :: dir) with _ | (inner | number | _)
  · rfl
  · rfl
  · have hlt := hsound _ _ hnode
    have hcontent := h.contents number _ (Array.getElem?_eq_getElem hlt)
    simp [seen, hcontent, Array.getElem?_eq_getElem hlt]
  · rfl

theorem swaps_set {node : Option FileNode} (hname : name.IsName) (hdir : t.IsDirectory dir) (hold : ¬t.IsDirectory (name :: dir))
    (hnew : ∀ n ∈ node, ∃ number, n = .file number ∧ number < t.contents.size) :
    Swaps dir (· = name) t (t.set (name :: dir) node) ∧ (t.set (name :: dir) node).kindAt (name :: dir) = node := by
  have hempty : t.entriesAt (name :: dir) = [] := by
    by_contra hne
    exact hold (isDirectory_of_entriesAt hne)
  have hbare : (node.map FileNode.entries).getD [] = [] ∧ node.map FileNode.kind = node ∧ node ≠ some (.directory []) := by
    cases node with
    | none => simp
    | some n =>
      obtain ⟨number, rfl, -⟩ := hnew n rfl
      exact ⟨rfl, rfl, by simp⟩
  have hkind := kindAt_set hname hdir hempty hbare.1
  rw [hbare.2.1] at hkind
  refine ⟨⟨fun p => ?_, fun _ _ h => h, fun hsound p n hp => ?_⟩, by rw [hkind, if_pos rfl]⟩
  · by_cases hp : p = name :: dir
    · subst hp
      refine .inr ⟨name, rfl, rfl, hold, ?_⟩
      rw [IsDirectory, hkind, if_pos rfl]
      exact hbare.2.2
    · exact .inl (by rw [hkind, if_neg hp])
  · rw [hkind] at hp
    split_ifs at hp
    · obtain ⟨number, heq, hlt⟩ := hnew (.file n) hp
      rw [FileNode.file.injEq] at heq
      exact heq ▸ hlt
    · exact hsound p n hp

theorem swaps_push (t : FileTree) (content : Text) :
    Swaps dir changed t { t with contents := t.contents.push content } := by
  refine ⟨fun _ => .inl rfl, fun n c hc => ?_, fun hsound p n hp => ?_⟩
  · rw [Array.getElem?_push, if_neg (Array.getElem?_eq_some_iff.1 hc).1.ne, hc]
  · show n < (t.contents.push content).size
    have hlt := hsound p n hp
    rw [Array.size_push]
    omega

theorem swaps_addFile (hname : name.IsName) (hdir : t.IsDirectory dir) (hnew : t.kindAt (name :: dir) = none) (content : Text) :
    Swaps dir (· = name) t (t.addFile (name :: dir) content) ∧
      (t.addFile (name :: dir) content).kindAt (name :: dir) = some (.file t.contents.size) := by
  have hold : ¬t.IsDirectory (name :: dir) := by
    rw [IsDirectory, hnew]
    simp
  obtain ⟨hswaps, hkind⟩ := @swaps_set { t with contents := t.contents.push content } name dir (some (.file t.contents.size)) hname
    hdir hold (by simp)
  exact ⟨(swaps_push t content).trans hswaps, hkind⟩

theorem swaps_remove (hleads : LeadsTo path parts name) (hplace : Path.place path = name :: dir) (t : FileTree) :
    Swaps dir (· = name) t (t.remove path) := by
  rw [remove]
  have hdirEq : along (base (isAbsolute path)) parts = dir := by
    rw [place_of_leadsTo hleads] at hplace
    exact (List.cons.inj hplace).2
  rcases resolve_cases hleads t with ⟨hresolve, -, hpass⟩ | ⟨e, hresolve, -⟩
  · rw [hresolve, hdirEq]
    dsimp only
    split
    · rename_i number hlookup
      have hkind : t.kindAt (name :: dir) = some (.file number) := by rw [kindAt_cons hleads.isName, hlookup]; rfl
      have hdir : t.IsDirectory dir := hdirEq ▸ isDirectory_of_passable hleads.trail_eq hpass
      refine (swaps_set hleads.isName hdir ?_ (by simp)).1
      rw [IsDirectory, hkind]
      simp
    · exact .refl t
  · rw [hresolve]
    exact .refl t

theorem see_remove {content : Text} (hleads : LeadsTo path parts name) (h : t.see path = .file content) :
    (t.remove path).see path = .nothing := by
  have hreach : t.Reaches path parts name := by
    by_contra hnot
    rw [see_of_not_reaches hleads hnot] at h
    cases h
  have hswaps := swaps_remove hleads (place_of_leadsTo hleads) t
  rw [see_of_reaches hleads hreach, seeAt, place_of_leadsTo hleads, kindAt_cons hleads.isName] at h
  obtain ⟨number, hlookup⟩ : ∃ number, (t.entriesAt (along (base (isAbsolute path)) parts)).lookup name = some (.file number) := by
    rcases hnode : (t.entriesAt (along (base (isAbsolute path)) parts)).lookup name with _ | (inner | number | _)
    · simp [hnode] at h
    · simp [hnode, seen, FileNode.kind] at h
    · exact ⟨number, rfl⟩
    · simp [hnode, seen, FileNode.kind] at h
  have hreach' : (t.remove path).Reaches path parts name :=
    ⟨hreach.1, hreach.2.1.congr fun p => (hswaps.isDirectory_iff p).2, hreach.2.2⟩
  rw [see_of_reaches hleads hreach', seeAt, place_of_leadsTo hleads, remove, (resolve_of_leadsTo hleads).2 ⟨hreach.1, hreach.2.1⟩]
  dsimp only
  rw [hlookup]
  have hdir := isDirectory_of_passable hleads.trail_eq hreach.2.1
  have hold : ¬t.IsDirectory (name :: along (base (isAbsolute path)) parts) := by
    rw [IsDirectory, kindAt_cons hleads.isName, hlookup]
    simp [FileNode.kind]
  rw [(swaps_set hleads.isName hdir hold (by simp)).2]
  rfl

/-! ### Temporary files -/

/-- The byte that a temporary name has once more for each name that is taken. -/
def star : UInt8 := 0x2A

theorem exists_freshName (entries : FileEntries) (fuel : Nat) (name : Text) :
    ∃ k, freshName entries fuel name = name ++ List.replicate k star := by
  induction fuel generalizing name with
  | zero => exact ⟨0, (List.append_nil name).symm⟩
  | succ fuel ih =>
    rw [freshName]
    split_ifs
    · exact ⟨0, (List.append_nil name).symm⟩
    · obtain ⟨k, hk⟩ := ih (name ++ [star])
      exact ⟨k + 1, hk.trans (List.append_assoc _ _ _)⟩

theorem lookup_freshName_of_free {entries : FileEntries} {fuel j : Nat} {name : Text} (hj : j < fuel)
    (hfree : entries.lookup (name ++ List.replicate j star) = none) : entries.lookup (freshName entries fuel name) = none := by
  induction fuel generalizing name j with
  | zero => omega
  | succ fuel ih =>
    rw [freshName]
    split_ifs with htaken
    · simpa using htaken
    · cases j with
      | zero =>
        rw [List.replicate_zero, List.append_nil] at hfree
        rw [hfree] at htaken
        exact absurd rfl htaken
      | succ j =>
        refine ih (Nat.lt_of_succ_lt_succ hj) ?_
        rw [List.replicate_succ, ← List.singleton_append, ← List.append_assoc] at hfree
        exact hfree

theorem exists_free (entries : FileEntries) (name : Text) :
    ∃ j < entries.length + 1, entries.lookup (name ++ List.replicate j star) = none := by
  by_contra hnone
  push Not at hnone
  let candidates := (List.range (entries.length + 1)).map fun j => name ++ List.replicate j star
  have hnodup : candidates.Nodup := by
    refine List.Nodup.map (fun i j hij => ?_) List.nodup_range
    have hlength := congrArg List.length (List.append_cancel_left hij)
    simpa using hlength
  have hsubset : candidates ⊆ entries.map Prod.fst := by
    intro candidate hcandidate
    obtain ⟨j, hj, rfl⟩ := List.mem_map.1 hcandidate
    obtain ⟨node, hnode⟩ := Option.ne_none_iff_exists'.1 (hnone j (List.mem_range.1 hj))
    obtain ⟨before, after, hentries, -⟩ := List.lookup_eq_some_iff.1 hnode
    rw [hentries]
    simp
  have hle := (hnodup.subperm hsubset).length_le
  simp [candidates] at hle

theorem leadsTo_inDirectory {d : Text} (hname : name.IsName) (hne : name ≠ []) : LeadsTo (inDirectory d name) (trail d) name := by
  refine ⟨trail_inDirectory hname.noSlash hne, hname, fun hlast => ?_⟩
  have hend : name.getLast? = some slash := by
    rw [inDirectory] at hlast
    split_ifs at hlast
    · rwa [List.getLast?_append_of_ne_nil _ hne] at hlast
    · rwa [List.getLast?_append_of_ne_nil _ hne] at hlast
  exact hname.noSlash (List.mem_of_getLast? hend)

theorem makeTemporary_cases {d : Text} (hd : d ≠ []) (t : FileTree) (content : Text) :
    (∃ e, t.makeTemporary d content = .error e) ∨ ∃ name, name.IsName ∧ name.getLast? = some star ∧
      t.makeTemporary d content = .ok (inDirectory d name, t.addFile (name :: Path.place d) content) ∧
      t.IsDirectory (Path.place d) ∧ t.kindAt (name :: Path.place d) = none := by
  have hdraft : LeadsTo (inDirectory d "tmp-*") (trail d) "tmp-*" := leadsTo_inDirectory ⟨by decide, by decide⟩ (by decide)
  rw [makeTemporary]
  rcases resolve_cases hdraft t with ⟨hresolve, -, hpass⟩ | ⟨e, hresolve, -⟩
  · have hdir := isDirectory_of_passable hdraft.trail_eq hpass
    have hplace : along (base (isAbsolute (inDirectory d "tmp-*"))) (trail d) = Path.place d := by
      rw [isAbsolute_inDirectory hd, Path.place]
    rw [hplace] at hdir
    dsimp only
    rw [hresolve, hplace]
    obtain ⟨k, hk⟩ := exists_freshName (t.entriesAt (Path.place d)) ((t.entriesAt (Path.place d)).length + 1) "tmp-*"
    obtain ⟨j, hj, hfree⟩ := exists_free (t.entriesAt (Path.place d)) "tmp-*"
    have hlookup := lookup_freshName_of_free hj hfree
    dsimp only
    rw [hk] at hlookup ⊢
    have hname : Text.IsName ("tmp-*" ++ List.replicate k star) := by
      refine ⟨rfl, fun hslash => ?_⟩
      rcases List.mem_append.1 hslash with hmem | hmem
      · exact absurd hmem (by decide)
      · exact absurd (List.eq_of_mem_replicate hmem) (by decide)
    refine .inr ⟨_, hname, ?_, rfl, hdir, ?_⟩
    · cases k with
      | zero => rfl
      | succ k => rw [List.getLast?_append_of_ne_nil _ (by simp), List.getLast?_replicate, if_neg (by simp)]
    · rw [kindAt_cons hname, hlookup]
      rfl
  · dsimp only
    rw [hresolve]
    exact .inl ⟨_, rfl⟩

theorem rename_cases {old new other : Text} {parts' : List Text} {n : Nat} (hold : LeadsTo old parts name)
    (hnew : LeadsTo new parts' other) (hplaceOld : Path.place old = name :: dir) (hplaceNew : Path.place new = other :: dir)
    (hkind : t.kindAt (name :: dir) = some (.file n)) (hlt : n < t.contents.size) :
    (∃ e, t.rename old new = .error e) ∨ ∃ t', t.rename old new = .ok t' ∧ Swaps dir (fun y => y = name ∨ y = other) t t' ∧
      t'.see new = .file (t.contents[n]?.getD []) := by
  have hdirOld : along (base (isAbsolute old)) parts = dir := by
    rw [place_of_leadsTo hold] at hplaceOld
    exact (List.cons.inj hplaceOld).2
  have hdirNew : along (base (isAbsolute new)) parts' = dir := by
    rw [place_of_leadsTo hnew] at hplaceNew
    exact (List.cons.inj hplaceNew).2
  have hlookup : (t.entriesAt dir).lookup name = some (.file n) := by
    rw [kindAt_cons hold.isName] at hkind
    rcases hnode : (t.entriesAt dir).lookup name with _ | (inner | number | _)
    all_goals rw [hnode] at hkind; cases hkind
    rfl
  rw [rename]
  rcases resolve_cases hold t with ⟨hresolve, -, hpass⟩ | ⟨e, hresolve, -⟩
  swap
  · rw [hresolve]
    exact .inl ⟨_, rfl⟩
  rcases resolve_cases hnew t with ⟨hresolve', hpath', hpass'⟩ | ⟨e, hresolve', -⟩
  swap
  · rw [hresolve, hresolve']
    exact .inl ⟨_, rfl⟩
  rw [hresolve, hresolve', hdirOld, hdirNew]
  simp only [bind, Except.bind, FileTree.lookup]
  by_cases hlong : nameLimit < name.length
  · rw [if_pos hlong]
    exact .inl ⟨_, rfl⟩
  by_cases hlong' : nameLimit < other.length
  · rw [if_neg hlong, if_pos hlong']
    exact .inl ⟨_, rfl⟩
  rw [if_neg hlong, if_neg hlong', hlookup]
  have hdir : t.IsDirectory dir := hdirOld ▸ isDirectory_of_passable hold.trail_eq hpass
  -- What is taken away under the old name is put under the new one.
  have hmove : ¬t.IsDirectory (other :: dir) →
      Swaps dir (fun y => y = name ∨ y = other) t ((t.set (name :: dir) none).set (other :: dir) (some (.file n))) ∧
        ((t.set (name :: dir) none).set (other :: dir) (some (.file n))).see new = .file (t.contents[n]?.getD []) := by
    intro hother
    have hnotDir : ¬t.IsDirectory (name :: dir) := by
      rw [IsDirectory, hkind]
      simp
    obtain ⟨hswaps, -⟩ := @swaps_set t name dir none hold.isName hdir hnotDir (by simp)
    obtain ⟨hswaps', hkind'⟩ := @swaps_set (t.set (name :: dir) none) other dir (some (.file n)) hnew.isName
      ((hswaps.isDirectory_iff _).2 hdir) (mt (hswaps.isDirectory_iff _).1 hother)
      fun m hm => ⟨n, (Option.some.inj hm).symm, hlt⟩
    have hboth : Swaps dir (fun y => y = name ∨ y = other) t ((t.set (name :: dir) none).set (other :: dir) (some (.file n))) :=
      (hswaps.mono fun y hy => .inl hy).trans (hswaps'.mono fun y hy => .inr hy)
    have hreach : ((t.set (name :: dir) none).set (other :: dir) (some (.file n))).Reaches new parts' other :=
      ⟨hpath', hpass'.congr fun p => (hboth.isDirectory_iff p).2, Nat.not_lt.1 hlong'⟩
    refine ⟨hboth, ?_⟩
    rw [see_of_reaches hnew hreach, seeAt, hplaceNew, hkind']
    rfl
  have hkindNew : t.kindAt (other :: dir) = ((t.entriesAt dir).lookup other).map FileNode.kind := kindAt_cons hnew.isName dir
  rcases hother : (t.entriesAt dir).lookup other with _ | (inner | m | _)
  · exact .inr ⟨_, rfl, hmove (by rw [IsDirectory, hkindNew, hother]; simp)⟩
  · exact .inl ⟨_, rfl⟩
  · exact .inr ⟨_, rfl, hmove (by rw [IsDirectory, hkindNew, hother]; simp [FileNode.kind])⟩
  · exact .inr ⟨_, rfl, hmove (by rw [IsDirectory, hkindNew, hother]; simp [FileNode.kind])⟩

end FileTree

end ClassAbi
