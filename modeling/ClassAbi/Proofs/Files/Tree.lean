import ClassAbi.Proofs.Files.Path

/-!
# What is in the places of a tree

`FileTree.kindAt` says what is in a place, without what is below it. The operations on trees are described by how they change
that, place by place, and a path leads somewhere if the directories on its way are there.
-/

namespace ClassAbi

/-! ### Entries -/

namespace FileEntries

variable {part : Text} {parts others rest : List Text} {entries : FileEntries} {node : Option FileNode}

theorem get?_cons (part : Text) (parts : List Text) (entries : FileEntries) :
    get? (part :: parts) entries =
      (entries.lookup part).bind fun node => if parts = [] then some node else get? parts node.entries := by
  cases parts with
  | nil => cases hlookup : entries.lookup part <;> simp [get?, hlookup]
  | cons q parts =>
    have hnone : get? (q :: parts) [] = none := by cases parts <;> rfl
    rcases hlookup : entries.lookup part with _ | (inner | number | _) <;> simp [get?, hlookup, FileNode.entries, hnone]

theorem get?_of_empty (h : parts ≠ []) : get? parts [] = none := by
  cases parts with
  | nil => exact absurd rfl h
  | cons part parts => rw [get?_cons, List.lookup_nil, Option.bind_none]

theorem get?_append (h : rest ≠ []) (entries : FileEntries) :
    get? (parts ++ rest) entries = (get? parts entries).bind fun node => get? rest node.entries := by
  induction parts generalizing entries with
  | nil => rfl
  | cons part parts ih =>
    rw [List.cons_append, get?_cons, get?_cons, Option.bind_assoc]
    congr 1
    funext node
    rw [if_neg (by simp [h])]
    split_ifs with hnil
    · rw [hnil]
      rfl
    · exact ih _

theorem lookup_set (node : Option FileNode) (part : Text) (parts : List Text) (entries : FileEntries) (q : Text) :
    (set node (part :: parts) entries).lookup q =
      if q = part then
        if parts = [] then node
        else some (.directory (set node parts (((entries.lookup part).map FileNode.entries).getD [])))
      else entries.lookup q := by
  have hothers : (entries.filter (·.1 != part)).lookup q = if q = part then none else entries.lookup q := by
    induction entries with
    | nil => simp
    | cons e entries ih =>
      obtain ⟨name, inner⟩ := e
      by_cases hname : name = part
      · rw [List.filter_cons_of_neg (by simp [hname]), ih]
        split_ifs with hq
        · rfl
        · rw [List.lookup_cons, beq_eq_false_iff_ne.2 (by rw [hname]; exact hq)]
      · rw [List.filter_cons_of_pos (by simp [hname]), List.lookup_cons, List.lookup_cons, ih]
        by_cases hq : q = name
        · have hne : q ≠ part := fun h => hname (hq ▸ h)
          simp [hq, hname]
        · rw [beq_eq_false_iff_ne.2 hq]
  have hsingle : ∀ n : FileNode, List.lookup q [(part, n)] = if q = part then some n else none := by
    intro n
    rw [List.lookup_cons, List.lookup_nil]
    split_ifs with hq
    · rw [hq, beq_self_eq_true]
    · rw [beq_eq_false_iff_ne.2 hq]
  rw [set]
  by_cases hnil : parts = []
  · rw [hnil, List.isEmpty_nil, if_pos rfl, if_pos rfl, List.lookup_append, hothers]
    cases node with
    | none => split_ifs <;> simp
    | some node =>
      rw [Option.map_some, Option.toList_some, hsingle]
      split_ifs <;> simp
  · rw [if_neg (by simpa using hnil), if_neg hnil, List.lookup_append, hothers, hsingle]
    split_ifs <;> simp

theorem get?_set_self (h : parts ≠ []) (entries : FileEntries) : get? parts (set node parts entries) = node := by
  induction parts generalizing entries with
  | nil => exact absurd rfl h
  | cons part parts ih =>
    rw [get?_cons, lookup_set, if_pos rfl]
    split_ifs with hnil
    · simp
    · exact ih hnil _

theorem get?_set_above (h : rest ≠ []) (entries : FileEntries) :
    ∃ inner, get? parts (set node (parts ++ rest) entries) = some (.directory inner) := by
  induction parts generalizing entries with
  | nil => exact ⟨_, rfl⟩
  | cons part parts ih =>
    rw [List.cons_append, get?_cons, lookup_set, if_pos rfl, if_neg (by simp [h]), Option.bind_some]
    split_ifs with hnil
    · exact ⟨_, rfl⟩
    · exact ih _

theorem get?_set_apart (h : ¬parts <+: others) (h' : ¬others <+: parts) (entries : FileEntries) :
    get? others (set node parts entries) = get? others entries := by
  induction parts generalizing others entries with
  | nil => exact absurd List.nil_prefix h
  | cons part parts ih =>
    cases others with
    | nil => exact absurd List.nil_prefix h'
    | cons q others =>
      rw [get?_cons, get?_cons, lookup_set]
      by_cases hq : q = part
      · subst hq
        rw [List.cons_prefix_cons] at h h'
        have hparts : parts ≠ [] := fun hnil => h ⟨rfl, hnil ▸ List.nil_prefix⟩
        have hothers : others ≠ [] := fun hnil => h' ⟨rfl, hnil ▸ List.nil_prefix⟩
        rw [if_pos rfl, if_neg hparts, Option.bind_some, if_neg hothers]
        show get? others (set node parts _) = _
        rw [ih (fun hp => h ⟨rfl, hp⟩) fun hp => h' ⟨rfl, hp⟩]
        cases entries.lookup q with
        | none => exact get?_of_empty hothers
        | some node => rw [Option.bind_some, if_neg hothers]; rfl
      · rw [if_neg hq]

end FileEntries

/-! ### Places -/

def FileNode.kind : FileNode → FileNode
  | directory _ => directory []
  | node => node

/-- Whether a place is where paths start, or above that: what is there counts as a directory, whether it is known or not. -/
def FilePlace.isBase (place : FilePlace) : Bool := place.all (· == Text.ofString "..") || place == [Text.ofString "/"]

/-- Whether a text can be the name of a file. -/
structure Text.IsName (name : Text) : Prop where
  notDots : FileTree.isDots name = false
  noSlash : Path.slash ∉ name

namespace FileTree

variable {t t' : FileTree} {dir place p : FilePlace} {name : Text}

def nodeAt (t : FileTree) (place : FilePlace) : Option FileNode := FileEntries.get? place.reverse t.root

def kindAt (t : FileTree) (place : FilePlace) : Option FileNode :=
  if place.isBase then some (.directory []) else (t.nodeAt place).map FileNode.kind

def IsDirectory (t : FileTree) (place : FilePlace) : Prop := t.kindAt place = some (.directory [])

theorem not_isBase_cons (h : name.IsName) (dir : FilePlace) : FilePlace.isBase (name :: dir) = false := by
  have hup : name ≠ Text.ofString ".." := by
    rintro rfl
    cases h.notDots
  have hroot : name ≠ Text.ofString "/" := by
    rintro rfl
    exact h.noSlash (by decide)
  simp [FilePlace.isBase, hup, hroot]

theorem isBase_of_suffix (h : place.isBase = true) (hp : p <:+ place) : FilePlace.isBase p = true := by
  rw [FilePlace.isBase, Bool.or_eq_true, List.all_eq_true, beq_iff_eq] at h ⊢
  rcases h with h | rfl
  · exact .inl fun u hu => h u (hp.subset hu)
  · rcases List.suffix_cons_iff.1 hp with rfl | hnil
    · exact .inr rfl
    · rw [List.suffix_nil.1 hnil]
      exact .inl (by simp)

theorem isDirectory_of_isBase (h : place.isBase = true) : t.IsDirectory place := by rw [IsDirectory, kindAt, if_pos h]

theorem entriesAt_eq (t : FileTree) (place : FilePlace) : t.entriesAt place = ((t.nodeAt place).map FileNode.entries).getD [] := rfl

theorem nodeAt_append (q dir : FilePlace) (hq : q ≠ []) :
    t.nodeAt (q ++ dir) = FileEntries.get? q.reverse (t.entriesAt dir) := by
  have hne : q.reverse ≠ [] := by simpa using hq
  rw [nodeAt, List.reverse_append, FileEntries.get?_append hne, entriesAt_eq]
  show (t.nodeAt dir).bind _ = _
  cases t.nodeAt dir with
  | none => exact (FileEntries.get?_of_empty hne).symm
  | some node => rfl

theorem nodeAt_cons (name : Text) (dir : FilePlace) : t.nodeAt (name :: dir) = (t.entriesAt dir).lookup name := by
  rw [← List.singleton_append, nodeAt_append _ _ (by simp), List.reverse_singleton, FileEntries.get?_cons]
  simp

theorem kindAt_cons (h : name.IsName) (dir : FilePlace) :
    t.kindAt (name :: dir) = ((t.entriesAt dir).lookup name).map FileNode.kind := by
  rw [kindAt, not_isBase_cons h, if_neg Bool.false_ne_true, nodeAt_cons]

theorem isDirectory_of_entriesAt (h : t.entriesAt place ≠ []) : t.IsDirectory place := by
  rw [IsDirectory, kindAt]
  split_ifs
  · rfl
  · rw [entriesAt_eq] at h
    rcases hnode : t.nodeAt place with _ | (inner | number | _)
    · simp [hnode] at h
    · rfl
    · simp [hnode, FileNode.entries] at h
    · simp [hnode, FileNode.entries] at h

theorem isDirectory_of_kindAt_cons (hname : name.IsName) (h : t.kindAt (name :: dir) ≠ none) : t.IsDirectory dir := by
  rw [kindAt_cons hname] at h
  refine isDirectory_of_entriesAt fun hnil => h ?_
  rw [hnil]
  rfl

theorem IsDirectory.of_suffix (h : t.IsDirectory place) (hp : p <:+ place) : t.IsDirectory p := by
  by_cases hbase : place.isBase = true
  · exact isDirectory_of_isBase (isBase_of_suffix hbase hp)
  obtain ⟨q, rfl⟩ := hp
  cases q with
  | nil => exact h
  | cons x q =>
    rw [IsDirectory, kindAt, if_neg hbase, nodeAt_append _ _ (by simp)] at h
    refine isDirectory_of_entriesAt fun hnil => ?_
    rw [hnil, FileEntries.get?_of_empty (by simp)] at h
    cases h

/-- A node with nothing below it, put in the place of another one, changes no other place. -/
theorem kindAt_set {node : Option FileNode} (hname : name.IsName) (hdir : t.IsDirectory dir) (hold : t.entriesAt (name :: dir) = [])
    (hnew : (node.map FileNode.entries).getD [] = []) (p : FilePlace) :
    (t.set (name :: dir) node).kindAt p = if p = name :: dir then node.map FileNode.kind else t.kindAt p := by
  have hnotBase := not_isBase_cons hname dir
  have hself : (t.set (name :: dir) node).nodeAt (name :: dir) = node := FileEntries.get?_set_self (by simp) _
  by_cases hp : p = name :: dir
  · rw [if_pos hp, hp, kindAt, hnotBase, if_neg Bool.false_ne_true, hself]
  rw [if_neg hp]
  by_cases hbase : p.isBase = true
  · rw [kindAt, kindAt, if_pos hbase, if_pos hbase]
  have hkind : ∀ t : FileTree, t.kindAt p = (t.nodeAt p).map FileNode.kind := fun t => by rw [kindAt, if_neg hbase]
  by_cases hbelow : (name :: dir) <:+ p
  · -- Nothing is below the place, neither before nor after.
    obtain ⟨q, rfl⟩ := hbelow
    have hq : q ≠ [] := fun hnil => hp (by rw [hnil]; rfl)
    have hafter : (t.set (name :: dir) node).entriesAt (name :: dir) = [] := by rw [entriesAt_eq, hself, hnew]
    rw [hkind, hkind, nodeAt_append _ _ hq, nodeAt_append _ _ hq, hold, hafter]
  by_cases habove : p <:+ name :: dir
  · have hsuffix : p <:+ dir := (List.suffix_cons_iff.1 habove).resolve_left hp
    obtain ⟨q, hq⟩ := id habove
    have hqne : q.reverse ≠ [] := fun hnil => hp (by rw [← hq, List.reverse_eq_nil_iff.1 hnil]; rfl)
    have hparts : (name :: dir).reverse = p.reverse ++ q.reverse := by rw [← hq, List.reverse_append]
    obtain ⟨inner, hinner⟩ : ∃ inner, FileEntries.get? p.reverse (FileEntries.set node (p.reverse ++ q.reverse) t.root) =
      some (.directory inner) := FileEntries.get?_set_above hqne t.root
    rw [(hdir.of_suffix hsuffix : t.kindAt p = _), hkind]
    show (FileEntries.get? p.reverse (FileEntries.set node (name :: dir).reverse t.root)).map FileNode.kind = _
    rw [hparts, hinner]
    rfl
  · rw [hkind, hkind]
    refine congrArg _ (FileEntries.get?_set_apart ?_ ?_ t.root)
    · rwa [List.reverse_prefix]
    · rwa [List.reverse_prefix]

/-! ### Following paths -/

open FilePlace ClassAbi.Path

variable {part path : Text} {parts : List Text}

/-- Whether parts lead through directories that are there. -/
def Passable (t : FileTree) : FilePlace → List Text → Prop
  | _, [] => True
  | dir, part :: parts =>
    if isDots part then Passable t (dir.step part) parts
    else part.length ≤ nameLimit ∧ t.IsDirectory (part :: dir) ∧ Passable t (part :: dir) parts

theorem walk_eq_ok_iff (hparts : AreParts parts) {d : FilePlace} :
    t.walk dir (t.entriesAt dir) parts = .ok d ↔ t.Passable dir parts ∧ along dir parts = d := by
  induction parts generalizing dir with
  | nil => simp [walk, Passable, along]
  | cons part parts ih =>
    rw [AreParts, List.forall_mem_cons] at hparts
    rw [walk, Passable]
    show _ ↔ _ ∧ along (next dir part) parts = d
    by_cases hdots : isDots part = true
    · rw [if_pos hdots, if_pos hdots, next, if_pos hdots]
      exact ih hparts.2
    have hname : part.IsName := ⟨Bool.eq_false_iff.2 hdots, hparts.1.1⟩
    rw [if_neg hdots, if_neg hdots, next, if_neg hdots, FileTree.lookup]
    by_cases hlong : nameLimit < part.length
    · simp [hlong, Nat.not_le.2 hlong]
    rw [if_neg hlong, IsDirectory, kindAt_cons hname]
    have hshort := Nat.not_lt.1 hlong
    rcases hnode : (t.entriesAt dir).lookup part with _ | (inner | number | _)
    · simp
    · have hinner : inner = t.entriesAt (part :: dir) := by rw [entriesAt_eq, nodeAt_cons, hnode]; rfl
      simp only [Option.map_some, FileNode.kind, true_and, hshort]
      rw [hinner]
      exact ih hparts.2
    · simp [FileNode.kind]
    · simp [FileNode.kind]

/-- Whether a place is reached by going down from where paths start, or above that. -/
def Rooted (place : FilePlace) : Prop := ∃ names b, place = names ++ b ∧ isBase b = true ∧ ∀ n ∈ names, Text.IsName n

theorem rooted_base (absolute : Bool) : Rooted (base absolute) := ⟨[], _, rfl, by cases absolute <;> rfl, by simp⟩

theorem isBase_step_up {b : FilePlace} (h : isBase b = true) : isBase (b.step (Text.ofString "..")) = true := by
  cases b with
  | nil => rfl
  | cons last rest =>
    show isBase (if last = Text.ofString ".." then _ else if last = Text.ofString "/" then last :: rest else rest) = true
    split_ifs with hlast hroot
    · rw [isBase, Bool.or_eq_true, beq_iff_eq] at h
      rcases h with hall | hroot
      · rw [isBase, List.all_cons, hall]
        rfl
      · rw [List.cons.injEq, hlast] at hroot
        exact absurd hroot.1 (by decide)
    · exact h
    · exact isBase_of_suffix h (List.suffix_cons last rest)

theorem step_up_cons (h : name.IsName) (dir : FilePlace) : FilePlace.step (name :: dir) (Text.ofString "..") = dir := by
  have hnotUp : name ≠ Text.ofString ".." := by
    rintro rfl
    cases h.notDots
  have hnotRoot : name ≠ Text.ofString "/" := by
    rintro rfl
    exact h.noSlash (by decide)
  show (if name = Text.ofString ".." then _ else if name = Text.ofString "/" then _ else dir) = dir
  rw [if_neg hnotUp, if_neg hnotRoot]

/-- What is not a name leads to the same place, to one above it, or to where paths start or above that. -/
theorem step_dots (hdots : isDots part = true) (h : Rooted dir) :
    Rooted (dir.step part) ∧ (isBase (dir.step part) = true ∨ dir.step part <:+ dir) := by
  rw [isDots, Bool.or_eq_true, beq_iff_eq, beq_iff_eq] at hdots
  rcases hdots with rfl | rfl
  · exact ⟨h, .inr List.suffix_rfl⟩
  obtain ⟨names, b, rfl, hbase, hnames⟩ := h
  cases names with
  | nil => exact ⟨⟨[], _, rfl, isBase_step_up hbase, by simp⟩, .inl (isBase_step_up hbase)⟩
  | cons last names =>
    rw [List.forall_mem_cons] at hnames
    rw [List.cons_append, step_up_cons hnames.1]
    exact ⟨⟨names, b, rfl, hbase, hnames.2⟩, .inr (List.suffix_cons _ _)⟩

theorem Passable.isDirectory (h : t.Passable dir parts) (hparts : AreParts parts) (hrooted : Rooted dir)
    (hdir : t.IsDirectory dir) : t.IsDirectory (along dir parts) := by
  induction parts generalizing dir with
  | nil => exact hdir
  | cons part parts ih =>
    rw [AreParts, List.forall_mem_cons] at hparts
    rw [Passable] at h
    show t.IsDirectory (along (next dir part) parts)
    rw [next]
    split_ifs at h ⊢ with hdots
    · obtain ⟨hrooted', hstep⟩ := step_dots hdots hrooted
      exact ih h hparts.2 hrooted' (hstep.elim isDirectory_of_isBase hdir.of_suffix)
    · obtain ⟨names, b, rfl, hbase, hnames⟩ := hrooted
      have hname : part.IsName := ⟨Bool.eq_false_iff.2 hdots, hparts.1.1⟩
      exact ih h.2.2 hparts.2 ⟨part :: names, b, rfl, hbase, List.forall_mem_cons.2 ⟨hname, hnames⟩⟩ h.2.1

theorem Passable.congr (h : t.Passable dir parts) (hsame : ∀ p, t.IsDirectory p → t'.IsDirectory p) : t'.Passable dir parts := by
  induction parts generalizing dir with
  | nil => trivial
  | cons part parts ih =>
    rw [Passable] at h ⊢
    split_ifs at h ⊢
    · exact ih h
    · exact ⟨h.1, hsame _ h.2.1, ih h.2.2⟩

def IsPath (path : Text) : Prop := path.contains 0 = false ∧ path ≠ [] ∧ path.length ≤ pathLimit

theorem resolve_of_isPath (h : IsPath path) : t.resolve path = (do
    let dir ← t.walk (base (isAbsolute path)) (t.entriesAt (base (isAbsolute path))) (trail path).dropLast
    match (trail path).getLast? with
    | none => return .directory
    | some last => if isDots last then return .directory else return .name dir last (path.getLast? == some slash)) := by
  obtain ⟨hzero, hne, hlength⟩ := h
  rw [resolve, hzero, if_neg Bool.false_ne_true, if_neg (by simpa using hne), if_neg (Nat.not_lt.2 hlength)]
  rfl

theorem isPath_of_resolve {d : Destination} (h : t.resolve path = .ok d) : IsPath path := by
  rw [resolve] at h
  by_cases hzero : path.contains 0 = true
  · rw [if_pos hzero] at h
    cases h
  by_cases hempty : path.isEmpty = true
  · rw [if_neg hzero, if_pos hempty] at h
    cases h
  by_cases hlong : pathLimit < path.length
  · rw [if_neg hzero, if_neg hempty, if_pos hlong] at h
    cases h
  exact ⟨Bool.eq_false_iff.2 hzero, by simpa using hempty, Nat.not_lt.1 hlong⟩

theorem resolve_eq_name_iff {slashed : Bool} :
    t.resolve path = .ok (.name dir name slashed) ↔ IsPath path ∧ ∃ parts, trail path = parts ++ [name] ∧ isDots name = false ∧
      t.Passable (base (isAbsolute path)) parts ∧ along (base (isAbsolute path)) parts = dir ∧
      (path.getLast? == some slash) = slashed := by
  by_cases hpath : IsPath path
  swap
  · exact ⟨fun h => absurd (isPath_of_resolve h) hpath, fun h => absurd h.1 hpath⟩
  have hareParts := areParts_trail path
  rw [resolve_of_isPath hpath]
  rcases List.eq_nil_or_concat (trail path) with hnil | ⟨parts, last, hconcat⟩
  · rw [hnil]
    constructor
    · intro h
      cases h
    · rintro ⟨-, parts, hparts, -⟩
      simp at hparts
  rw [List.concat_eq_append] at hconcat
  rw [hconcat] at hareParts ⊢
  have hparts : AreParts parts := fun q hq => hareParts q (by simp [hq])
  rw [List.dropLast_concat, List.getLast?_concat]
  constructor
  · intro h
    rcases hwalk : t.walk (base (isAbsolute path)) (t.entriesAt (base (isAbsolute path))) parts with e | d
    · rw [hwalk] at h
      cases h
    obtain ⟨hpass, halong⟩ := (walk_eq_ok_iff hparts).1 hwalk
    rw [hwalk] at h
    change (if isDots last = true then Except.ok Destination.directory else .ok (.name d last _)) = _ at h
    split_ifs at h with hdots
    · cases h
    · rw [Except.ok.injEq, Destination.name.injEq] at h
      obtain ⟨rfl, rfl, rfl⟩ := h
      exact ⟨hpath, parts, rfl, Bool.eq_false_iff.2 hdots, hpass, halong, rfl⟩
  · rintro ⟨-, parts', hsplit, hdots, hpass, halong, rfl⟩
    obtain ⟨rfl, hlast⟩ := List.append_inj' hsplit rfl
    obtain rfl : last = name := by simpa using hlast
    rw [(walk_eq_ok_iff hparts).2 ⟨hpass, halong⟩]
    show (if isDots last = true then _ else _) = _
    rw [hdots, if_neg Bool.false_ne_true]
    rfl

end FileTree

end ClassAbi
