import ClassAbi.Files.Tree
import ClassAbi.Proofs.Text.Parts

/-!
# Places that paths lead to

Without looking at the files, a path says which place it leads to if it leads anywhere: each part goes down, `..` goes up. The
shortest form of a path leads to the same place, and goes up only at its start, so that nothing beside the place itself and the
directories above it is on the way.
-/

namespace ClassAbi

variable {ext dir name : Text}

namespace Text

variable {sep : UInt8}

theorem split_append (sep : UInt8) (a b : Text) : split sep (a ++ sep :: b) = split sep a ++ split sep b := by
  induction a with
  | nil => exact split_cons_sep sep b
  | cons x a ih =>
    by_cases hx : x = sep
    · subst hx
      rw [List.cons_append, split_cons_sep, split_cons_sep, ih]
      rfl
    · obtain ⟨p, ps, hsplit⟩ := List.exists_cons_of_ne_nil (split_ne_nil sep a)
      have hcons : ∀ t q qs, split sep t = q :: qs → split sep (x :: t) = (x :: q) :: qs := by
        intro t q qs ht
        rw [split] at ht
        rw [split, List.foldr_cons, ht, if_neg hx]
      rw [List.cons_append, hcons a p ps hsplit]
      refine hcons _ p (ps ++ split sep b) ?_
      rw [ih, hsplit]
      rfl

end Text

namespace Path

/-- The parts of a path that are followed, one after the other. -/
def trail (p : Text) : List Text := (Text.split slash p).filter (!·.isEmpty)

variable {a b p : Text}

theorem trail_append (a b : Text) : trail (a ++ slash :: b) = trail a ++ trail b := by
  rw [trail, Text.split_append, List.filter_append]
  rfl

theorem trail_nil : trail [] = [] := rfl

theorem trail_of_not_mem (h : slash ∉ p) (hne : p ≠ []) : trail p = [p] := by
  rw [trail, Text.split_of_not_mem h, List.filter_cons_of_pos (by simpa using hne)]
  rfl

theorem trail_append_slash (a : Text) : trail (a ++ [slash]) = trail a := by
  rw [trail_append, trail_nil, List.append_nil]

theorem trail_cons_slash (a : Text) : trail (slash :: a) = trail a := trail_append [] a

theorem mem_trail (h : b ∈ trail p) : slash ∉ b ∧ b ≠ [] := by
  obtain ⟨hmem, hne⟩ := List.mem_filter.1 h
  exact ⟨Text.not_mem_of_mem_split hmem, by simpa using hne⟩

/-! ### The last part -/

def front (p : Text) : Text := p.take (p.length - (lastPart p).length)

theorem not_mem_lastPart (p : Text) : slash ∉ lastPart p := by
  rw [lastPart, List.mem_reverse]
  exact Text.not_mem_takeWhile_ne _ _

theorem front_eq (p : Text) : front p = (p.reverse.dropWhile (· != slash)).reverse := by
  have hp : (p.reverse.dropWhile (· != slash)).reverse ++ lastPart p = p := by
    rw [lastPart, ← List.reverse_append, List.takeWhile_append_dropWhile, List.reverse_reverse]
  have hlength := congrArg List.length hp
  rw [List.length_append] at hlength
  calc front p = p.take (p.reverse.dropWhile (· != slash)).reverse.length := congrArg p.take (by omega)
    _ = ((p.reverse.dropWhile (· != slash)).reverse ++ lastPart p).take (p.reverse.dropWhile (· != slash)).reverse.length := by
      rw [hp]
    _ = (p.reverse.dropWhile (· != slash)).reverse := List.take_left

theorem front_append_lastPart (p : Text) : front p ++ lastPart p = p := by
  rw [front_eq, lastPart, ← List.reverse_append, List.takeWhile_append_dropWhile, List.reverse_reverse]

theorem front_cases (p : Text) : front p = [] ∨ ∃ d, front p = d ++ [slash] := by
  rw [front_eq]
  cases hd : p.reverse.dropWhile (· != slash) with
  | nil => exact .inl rfl
  | cons x rest =>
    have hx := List.head?_dropWhile_not (· != slash) p.reverse
    rw [hd] at hx
    obtain rfl : x = slash := by simpa using hx
    exact .inr ⟨rest.reverse, List.reverse_cons⟩

theorem trail_eq_front (hne : lastPart p ≠ []) : trail p = trail (front p) ++ [lastPart p] := by
  have hlast := trail_of_not_mem (not_mem_lastPart p) hne
  conv_lhs => rw [← front_append_lastPart p]
  rcases front_cases p with hnil | ⟨d, hd⟩
  · rw [hnil, List.nil_append, hlast]
    rfl
  · rw [hd, List.append_assoc, List.singleton_append, trail_append, trail_append_slash, hlast]

theorem isAbsolute_front (h : lastPart p ≠ []) : isAbsolute (front p) = isAbsolute p := by
  conv_rhs => rw [← front_append_lastPart p]
  cases hfront : front p with
  | nil =>
    have hfree := not_mem_lastPart p
    cases hlast : lastPart p with
    | nil => exact absurd hlast h
    | cons x rest =>
      rw [hlast, List.mem_cons, not_or] at hfree
      simpa [isAbsolute] using Ne.symm hfree.1
  | cons x rest => rfl

theorem lastPart_append (hext : slash ∉ ext) (p : Text) : lastPart (p ++ ext) = lastPart p ++ ext := by
  have hall : ∀ x ∈ ext.reverse, (x != slash) = true := fun x hx => bne_iff_ne.2 fun heq => hext (heq ▸ List.mem_reverse.1 hx)
  rw [lastPart, List.reverse_append, List.takeWhile_append_of_pos hall, List.reverse_append, List.reverse_reverse, lastPart]

theorem front_append (hext : slash ∉ ext) (p : Text) : front (p ++ ext) = front p := by
  have hboth := front_append_lastPart (p ++ ext)
  rw [lastPart_append hext, ← List.append_assoc] at hboth
  exact List.append_cancel_right ((List.append_cancel_right hboth).trans (front_append_lastPart p).symm)

/-! ### The directory above -/

theorem trail_append_slashes (a : Text) (n : Nat) : trail (a ++ List.replicate n slash) = trail a := by
  induction n with
  | zero => rw [List.replicate_zero, List.append_nil]
  | succ n ih => rw [List.replicate_succ', ← List.append_assoc, trail_append_slash, ih]

def trimmed (p : Text) : Text := (p.reverse.dropWhile (· == slash)).reverse

theorem parent_eq_front (p : Text) : parent p = front (trimmed p) := by
  rw [front_eq, trimmed, List.reverse_reverse]
  rfl

theorem exists_trimmed (p : Text) : ∃ n, p = trimmed p ++ List.replicate n slash := by
  refine ⟨(p.reverse.takeWhile (· == slash)).length, ?_⟩
  have hslashes : (p.reverse.takeWhile (· == slash)).reverse = List.replicate (p.reverse.takeWhile (· == slash)).length slash := by
    refine List.eq_replicate_iff.2 ⟨List.length_reverse, fun x hx => ?_⟩
    simpa using List.mem_takeWhile_imp (List.mem_reverse.1 hx)
  rw [← hslashes, trimmed, ← List.reverse_append, List.takeWhile_append_dropWhile, List.reverse_reverse]

theorem lastPart_trimmed (h : trimmed p ≠ []) : lastPart (trimmed p) ≠ [] := by
  rw [lastPart, trimmed, List.reverse_reverse]
  cases hd : p.reverse.dropWhile (· == slash) with
  | nil =>
    rw [trimmed, hd] at h
    exact absurd rfl h
  | cons x rest =>
    have hx := List.head?_dropWhile_not (· == slash) p.reverse
    rw [hd] at hx
    have hne : x ≠ slash := by simpa using hx
    simp [hne]

theorem trail_parent (p : Text) : trail (parent p) = (trail p).dropLast := by
  obtain ⟨n, hn⟩ := exists_trimmed p
  have htrail : trail p = trail (trimmed p) := by
    conv_lhs => rw [hn]
    exact trail_append_slashes _ n
  rw [parent_eq_front, htrail]
  by_cases hnil : trimmed p = []
  · rw [hnil]
    rfl
  · rw [trail_eq_front (lastPart_trimmed hnil), List.dropLast_concat]

theorem isAbsolute_parent (h : parent p ≠ []) : isAbsolute (parent p) = isAbsolute p := by
  obtain ⟨n, hn⟩ := exists_trimmed p
  rw [parent_eq_front] at h ⊢
  have hne : trimmed p ≠ [] := fun hnil => h (by rw [hnil]; rfl)
  rw [isAbsolute_front (lastPart_trimmed hne)]
  conv_rhs => rw [hn]
  cases htrimmed : trimmed p with
  | nil => exact absurd htrimmed hne
  | cons x rest => rfl

end Path

/-! ### Places -/

namespace FilePlace

def next (dir : FilePlace) (part : Text) : FilePlace := if FileTree.isDots part then dir.step part else part :: dir

def along (dir : FilePlace) (parts : List Text) : FilePlace := parts.foldl next dir

def base (absolute : Bool) : FilePlace := if absolute then ["/"] else []

theorem along_append (dir : FilePlace) (parts others : List Text) :
    along dir (parts ++ others) = along (along dir parts) others := List.foldl_append

theorem along_names {names : List Text} (h : ∀ n ∈ names, FileTree.isDots n = false) (dir : FilePlace) :
    along dir names = names.reverse ++ dir := by
  induction names generalizing dir with
  | nil => rfl
  | cons n names ih =>
    rw [List.forall_mem_cons] at h
    rw [along, List.foldl_cons, next, h.1, if_neg Bool.false_ne_true, ← along, ih h.2, List.reverse_cons, List.append_assoc]
    rfl

theorem along_ups {ups : List Text} (h : ∀ u ∈ ups, u = Text.ofString "..") {dir : FilePlace}
    (hdir : ∀ u ∈ dir, u = Text.ofString "..") : along dir ups = ups.reverse ++ dir := by
  induction ups generalizing dir with
  | nil => rfl
  | cons u ups ih =>
    rw [List.forall_mem_cons] at h
    have hnext : next dir u = u :: dir := by
      rw [h.1]
      cases dir with
      | nil => rfl
      | cons last rest =>
        obtain rfl := hdir last List.mem_cons_self
        rfl
    rw [along, List.foldl_cons, hnext, ← along, ih h.2 (List.forall_mem_cons.2 ⟨h.1, hdir⟩), List.reverse_cons, List.append_assoc]
    rfl

end FilePlace

namespace Path

open FilePlace

def place (p : Text) : FilePlace := along (base (isAbsolute p)) (trail p)

/-- Whether parts go up only at their start, and not at all from the root on. -/
def Direct (absolute : Bool) (parts : List Text) : Prop :=
  ∃ ups names, parts = ups ++ names ∧ (∀ u ∈ ups, u = Text.ofString "..") ∧ (∀ n ∈ names, FileTree.isDots n = false) ∧
    (absolute = true → ups = [])

def AreParts (parts : List Text) : Prop := ∀ q ∈ parts, slash ∉ q ∧ q ≠ []

variable {absolute : Bool} {done parts : List Text} {part last : Text}

theorem partsFrom_cons (absolute : Bool) (done : List Text) (part : Text) (parts : List Text) :
    partsFrom absolute done (part :: parts) =
      if part.isEmpty || part == Text.ofString "." then partsFrom absolute done parts
      else if part != Text.ofString ".." then partsFrom absolute (part :: done) parts
      else match done with
        | [] => partsFrom absolute (if absolute then [] else [part]) parts
        | last :: rest =>
          if last == Text.ofString ".." then partsFrom absolute (part :: done) parts else partsFrom absolute rest parts := by
  cases done <;> rfl

theorem partsFrom_filter (absolute : Bool) (done parts : List Text) :
    partsFrom absolute done parts = partsFrom absolute done (parts.filter (!·.isEmpty)) := by
  induction parts generalizing done with
  | nil => rfl
  | cons part parts ih =>
    by_cases hempty : part.isEmpty = true
    · rw [List.filter_cons_of_neg (by simp [hempty]), partsFrom_cons, if_pos (by simp [hempty]), ih]
    · rw [List.filter_cons_of_pos (by simp [hempty]), partsFrom_cons, partsFrom_cons]
      cases done <;> simp only [ih]

/-- The last part may be followed by another way up if it is one, and is a name otherwise. -/
theorem Direct.concat_cases (h : Direct absolute (parts ++ [last])) :
    last = Text.ofString ".." ∧ Direct absolute (parts ++ [last] ++ [Text.ofString ".."]) ∨
      FileTree.isDots last = false ∧ Direct absolute parts := by
  obtain ⟨ups, names, hsplit, hups, hnames, habsolute⟩ := h
  rcases List.eq_nil_or_concat names with rfl | ⟨names, n, rfl⟩
  · rw [List.append_nil] at hsplit
    subst hsplit
    refine .inl ⟨hups last (by simp), _, [], (List.append_nil _).symm, ?_, by simp, fun h => ?_⟩
    · simpa [or_imp, forall_and] using hups
    · simpa using habsolute h
  · rw [List.concat_eq_append, ← List.append_assoc] at hsplit
    obtain ⟨rfl, hlast⟩ := List.append_inj' hsplit rfl
    obtain rfl : last = n := by simpa using hlast
    exact .inr ⟨hnames last (by simp), ups, names, rfl, hups, fun n hn => hnames n (by simp [hn]), habsolute⟩

theorem along_partsFrom (hparts : AreParts parts) (hdone : AreParts done) (hdirect : Direct absolute done.reverse) :
    along (done ++ base absolute) parts = (partsFrom absolute done parts).reverse ++ base absolute ∧
      Direct absolute (partsFrom absolute done parts) ∧ AreParts (partsFrom absolute done parts) := by
  induction parts generalizing done with
  | nil =>
    have hnil : partsFrom absolute done [] = done.reverse := by cases done <;> rfl
    rw [hnil, List.reverse_reverse]
    exact ⟨rfl, hdirect, fun q hq => hdone q (List.mem_reverse.1 hq)⟩
  | cons part parts ih =>
    rw [AreParts, List.forall_mem_cons] at hparts
    obtain ⟨⟨hslash, hne⟩, hparts⟩ := hparts
    have hempty : part.isEmpty = false := by simpa using hne
    rw [partsFrom_cons, hempty, Bool.false_or]
    show along (next (done ++ base absolute) part) parts = _ ∧ _
    by_cases hdot : part = Text.ofString "."
    · subst hdot
      exact ih hparts hdone hdirect
    rw [if_neg (by simpa using hdot)]
    by_cases hup : part = Text.ofString ".."
    · subst hup
      rw [if_neg (by simp)]
      cases done with
      | nil =>
        cases absolute with
        | true => exact ih hparts hdone hdirect
        | false =>
          have hsingle : AreParts [Text.ofString ".."] := fun q hq => List.mem_singleton.1 hq ▸ ⟨hslash, hne⟩
          exact ih hparts hsingle ⟨[Text.ofString ".."], [], rfl, by simp, by simp, by simp⟩
      | cons last rest =>
        have hrest : AreParts rest := fun q hq => hdone q (List.mem_cons_of_mem _ hq)
        rw [List.reverse_cons] at hdirect
        rcases hdirect.concat_cases with ⟨rfl, hdirect⟩ | ⟨hname, hdirect⟩
        · have htwo : AreParts (Text.ofString ".." :: Text.ofString ".." :: rest) :=
            List.forall_mem_cons.2 ⟨⟨hslash, hne⟩, hdone⟩
          exact ih hparts htwo (by simpa using hdirect)
        · have hnotUp : last ≠ Text.ofString ".." := by
            rintro rfl
            cases hname
          have hnotRoot : last ≠ Text.ofString "/" := by
            rintro rfl
            exact (hdone _ List.mem_cons_self).1 (by decide)
          have hnext : next (last :: rest ++ base absolute) (Text.ofString "..") = rest ++ base absolute := by
            show (if last = Text.ofString ".." then _ else if last = Text.ofString "/" then _ else rest ++ base absolute) = _
            rw [if_neg hnotUp, if_neg hnotRoot]
          rw [hnext]
          dsimp only
          rw [if_neg (by simpa using hnotUp)]
          exact ih hparts hrest hdirect
    · rw [if_pos (by simpa using hup)]
      have hdots : FileTree.isDots part = false := by simp [FileTree.isDots, hdot, hup]
      have hnext : next (done ++ base absolute) part = (part :: done) ++ base absolute := by
        rw [next, hdots, if_neg Bool.false_ne_true]
        rfl
      rw [hnext]
      obtain ⟨ups, names, hsplit, hups, hnames, habsolute⟩ := hdirect
      refine ih hparts (List.forall_mem_cons.2 ⟨⟨hslash, hne⟩, hdone⟩) ⟨ups, names ++ [part], ?_, hups, ?_, habsolute⟩
      · rw [List.reverse_cons, hsplit, List.append_assoc]
      · simpa [or_imp, forall_and] using ⟨hnames, hdots⟩

theorem Direct.names {rest : List Text} (h : Direct absolute (parts ++ name :: rest))
    (hname : FileTree.isDots name = false) : ∀ r ∈ rest, FileTree.isDots r = false := by
  obtain ⟨ups, names, hsplit, hups, hnames, -⟩ := h
  rcases List.append_eq_append_iff.1 hsplit with ⟨c, rfl, hrest⟩ | ⟨c, rfl, rfl⟩
  · cases c with
    | nil =>
      rw [List.nil_append] at hrest
      exact fun r hr => hnames r (hrest ▸ List.mem_cons_of_mem _ hr)
    | cons x c =>
      rw [List.cons_append, List.cons.injEq] at hrest
      rw [hrest.1, hups x (by simp)] at hname
      cases hname
  · exact fun r hr => hnames r (by simp [hr])

theorem along_direct (h : Direct absolute parts) : along (base absolute) parts = parts.reverse ++ base absolute := by
  obtain ⟨ups, names, rfl, hups, hnames, habsolute⟩ := h
  have hstart : along (base absolute) ups = ups.reverse ++ base absolute := by
    cases absolute with
    | true => rw [habsolute rfl]; rfl
    | false => exact along_ups hups (by simp [base])
  rw [along_append, hstart, along_names hnames, List.reverse_append, List.append_assoc]

theorem areParts_trail (p : Text) : AreParts (trail p) := fun _ h => mem_trail h

theorem parts_eq (p : Text) : Path.parts p = partsFrom (isAbsolute p) [] (trail p) := partsFrom_filter _ _ _

theorem place_eq_parts (p : Text) : place p = (Path.parts p).reverse ++ base (isAbsolute p) ∧
    Direct (isAbsolute p) (Path.parts p) ∧ AreParts (Path.parts p) := by
  have hnone : AreParts [] := by simp [AreParts]
  rw [parts_eq]
  exact along_partsFrom (areParts_trail p) hnone ⟨[], [], rfl, by simp, by simp, fun _ => rfl⟩

/-! ### The shortest path -/

theorem trail_join (h : AreParts parts) : trail (Text.join "/" parts) = parts := by
  cases parts with
  | nil => rfl
  | cons q parts =>
    have hsplit : Text.split slash (Text.join [slash] (q :: parts)) = q :: parts :=
      Text.split_join (by simp) fun r hr => (h r hr).1
    rw [trail]
    refine (congrArg _ hsplit).trans (List.filter_eq_self.2 fun r hr => ?_)
    simpa using (h r hr).2

theorem head_join (h : AreParts parts) : (Text.join "/" parts).head? ≠ some slash := by
  cases parts with
  | nil => simp [Text.join]
  | cons q parts =>
    obtain ⟨hslash, hne⟩ := h q List.mem_cons_self
    cases q with
    | nil => exact absurd rfl hne
    | cons x q =>
      rw [List.mem_cons, not_or] at hslash
      simpa [Text.join] using Ne.symm hslash.1

theorem isAbsolute_ofParts (h : AreParts parts) : isAbsolute (ofParts absolute parts) = absolute := by
  cases absolute with
  | true => rfl
  | false =>
    have hhead := head_join h
    rw [ofParts, if_neg Bool.false_ne_true]
    split_ifs
    · rfl
    · simpa [isAbsolute] using hhead

theorem trail_ofParts (h : AreParts parts) :
    trail (ofParts absolute parts) = if absolute = false ∧ parts = [] then [Text.ofString "."] else parts := by
  cases absolute with
  | true =>
    rw [if_neg (by simp)]
    exact (trail_cons_slash _).trans (trail_join h)
  | false =>
    rw [ofParts, if_neg Bool.false_ne_true]
    by_cases hnil : parts = []
    · subst hnil
      rfl
    · have hbody : (Text.join "/" parts).isEmpty = false := by
        rw [List.isEmpty_eq_false_iff]
        intro hempty
        have htrail := trail_join h
        rw [hempty] at htrail
        exact hnil htrail.symm
      rw [hbody, if_neg Bool.false_ne_true, if_neg (by simp [hnil]), trail_join h]

theorem place_clean (p : Text) : place (clean p) = place p := by
  obtain ⟨hplace, hdirect, hparts⟩ := place_eq_parts p
  rw [hplace, place, clean, isAbsolute_ofParts hparts, trail_ofParts hparts]
  split_ifs with h
  · rw [h.1, h.2]
    rfl
  · exact along_direct hdirect

theorem suffix_place_clean {rest : List Text} (h : trail (clean p) = parts ++ name :: rest)
    (hname : FileTree.isDots name = false) : along (base (isAbsolute (clean p))) (parts ++ [name]) <:+ place (clean p) := by
  obtain ⟨-, hdirect, hparts⟩ := place_eq_parts p
  have hrest : ∀ r ∈ rest, FileTree.isDots r = false := by
    rw [clean, trail_ofParts hparts] at h
    split_ifs at h
    · cases parts with
      | nil => simp_all
      | cons q parts => simp_all
    · rw [h] at hdirect
      exact hdirect.names hname
  have hsplit : parts ++ name :: rest = (parts ++ [name]) ++ rest := by simp
  rw [place, h, hsplit, along_append _ (parts ++ [name]), along_names hrest]
  exact List.suffix_append _ _

/-! ### Files in a directory -/

theorem place_concat (habsolute : isAbsolute a = isAbsolute b) (htrail : trail a = trail b ++ [name])
    (hname : FileTree.isDots name = false) : place a = name :: place b := by
  rw [place, habsolute, htrail, along_append]
  show next (place b) name = _
  rw [next, hname, if_neg Bool.false_ne_true]

theorem place_eq_cons (hne : lastPart p ≠ []) (hname : FileTree.isDots (lastPart p) = false) :
    place p = lastPart p :: place (directory p) := by
  have hdirectory : place (directory p) = place (front p) := place_clean (front p)
  rw [hdirectory]
  exact place_concat (isAbsolute_front hne).symm (trail_eq_front hne) hname

theorem directory_append (hext : slash ∉ ext) (p : Text) : directory (p ++ ext) = clean (front p) :=
  congrArg clean (front_append hext p)

theorem clean_ne_nil (p : Text) : clean p ≠ [] := by
  rw [clean, ofParts]
  split_ifs with habsolute hempty
  · exact List.cons_ne_nil _ _
  · exact List.cons_ne_nil _ _
  · exact fun h => hempty (by simp [h])

theorem trail_inDirectory (hslash : slash ∉ name) (hne : name ≠ []) :
    trail (inDirectory dir name) = trail dir ++ [name] := by
  have hname := trail_of_not_mem hslash hne
  rw [inDirectory]
  split_ifs with hend
  · obtain ⟨d, rfl⟩ : ∃ d, dir = d ++ [slash] := by
      rcases List.eq_nil_or_concat dir with rfl | ⟨d, x, rfl⟩
      · simp at hend
      · rw [List.concat_eq_append] at hend ⊢
        obtain rfl : x = slash := by simpa using hend
        exact ⟨d, rfl⟩
    rw [List.append_assoc, List.singleton_append, trail_append, trail_append_slash, hname]
  · show trail (dir ++ [slash] ++ name) = _
    rw [List.append_assoc, List.singleton_append, trail_append, hname]

theorem isAbsolute_inDirectory (hdir : dir ≠ []) : isAbsolute (inDirectory dir name) = isAbsolute dir := by
  rw [inDirectory]
  cases dir with
  | nil => exact absurd rfl hdir
  | cons x dir => split_ifs <;> rfl

theorem place_inDirectory (hdir : dir ≠ []) (hslash : slash ∉ name) (hne : name ≠ [])
    (hname : FileTree.isDots name = false) : place (inDirectory dir name) = name :: place dir :=
  place_concat (isAbsolute_inDirectory hdir) (trail_inDirectory hslash hne) hname

end Path

end ClassAbi
