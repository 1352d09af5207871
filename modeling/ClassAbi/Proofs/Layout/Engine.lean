import ClassAbi.Layout.Engine
import ClassAbi.Proofs.Action
import ClassAbi.Proofs.Layout.Words

/-!
# The layouts that are computed and remembered

A type of the table stands for a data type if following all references comes to an end, at scalars only. Then its layout is
that of the data type, whatever layouts are known before, as long as those of the types inside of it are right.
-/

namespace ClassAbi

variable {ds : List DataType} {members : List Member} {d : DataType} {t t' : TypeId}

theorem exists_getElem?_of_forall₂ {α β : Type} {R : α → β → Prop} {as : List α} {bs : List β} (h : List.Forall₂ R as bs)
    {i : Nat} {a : α} (ha : as[i]? = some a) : ∃ b, bs[i]? = some b ∧ R a b := by
  induction h generalizing i with
  | nil => simp at ha
  | @cons a' b as bs hfirst _ ih =>
    cases i with
    | zero =>
      cases ha
      exact ⟨b, rfl, hfirst⟩
    | succ i => exact ih ha

namespace TypeTable

mutual

def Describes (types : TypeTable) : DataType → TypeId → Prop
  | .scalar mode, t => types.shape? t = some (.primitive mode)
  | .struct ds, t => ∃ name members, types.shape? t = some (.struct name members) ∧ types.DescribesAll ds members
  | .union ds, t => ∃ name members, types.shape? t = some (.union name members) ∧ types.DescribesAll ds members
  | .array d length, t => ∃ elem, types.shape? t = some (.array (some elem) length) ∧ types.Describes d elem

def DescribesAll (types : TypeTable) : List DataType → List Member → Prop
  | [], [] => True
  | d :: ds, m :: members => (∃ t, m.type = some t ∧ types.Describes d t) ∧ types.DescribesAll ds members
  | [], _ :: _ | _ :: _, [] => False

end

/-- Whether values of the first type have a member or element of the second one. -/
inductive Contains (types : TypeTable) (t t' : TypeId) : Prop
  | struct {name : Text} {members : List Member} {m : Member} (hshape : types.shape? t = some (.struct name members))
    (hm : m ∈ members) (htype : m.type = some t')
  | union {name : Text} {members : List Member} {m : Member} (hshape : types.shape? t = some (.union name members))
    (hm : m ∈ members) (htype : m.type = some t')
  | array {length : Int} (hshape : types.shape? t = some (.array (some t') length))

/-- Whether the second type is the first one or inside of it, at any depth. -/
abbrev Within (types : TypeTable) : TypeId → TypeId → Prop := Relation.ReflTransGen types.Contains

variable {types : TypeTable}

theorem describesAll_iff :
    types.DescribesAll ds members ↔ List.Forall₂ (fun d m => ∃ t, m.type = some t ∧ types.Describes d t) ds members := by
  induction ds generalizing members with
  | nil => cases members <;> simp [DescribesAll]
  | cons d ds ih => cases members <;> simp [DescribesAll, ih]

theorem DescribesAll.exists_of_mem (h : types.DescribesAll ds members) {m : Member} (hm : m ∈ members) :
    ∃ d ∈ ds, ∃ t, m.type = some t ∧ types.Describes d t := by
  replace h := describesAll_iff.1 h
  induction h with
  | nil => simp at hm
  | @cons d m' ds members hfirst _ ih =>
    rcases List.mem_cons.1 hm with rfl | hm
    · exact ⟨d, List.mem_cons_self, hfirst⟩
    · obtain ⟨d', hd', hdesc⟩ := ih hm
      exact ⟨d', List.mem_cons_of_mem d hd', hdesc⟩

theorem DescribesAll.length_eq (h : types.DescribesAll ds members) : ds.length = members.length :=
  (describesAll_iff.1 h).length_eq

theorem DescribesAll.of_append {ds' : List DataType} (h : types.DescribesAll (ds ++ ds') members) :
    ∃ members1 members2, members = members1 ++ members2 ∧ types.DescribesAll ds members1 ∧ types.DescribesAll ds' members2 := by
  induction ds generalizing members with
  | nil => exact ⟨[], members, rfl, trivial, h⟩
  | cons d ds ih =>
    cases members with
    | nil => exact h.elim
    | cons m members =>
      obtain ⟨members1, members2, rfl, h1, h2⟩ := ih h.2
      exact ⟨m :: members1, members2, rfl, ⟨h.1, h1⟩, h2⟩

theorem DescribesAll.of_singleton (h : types.DescribesAll [d] members) :
    ∃ m, members = [m] ∧ ∃ t, m.type = some t ∧ types.Describes d t := by
  match members, h with
  | [m], h => exact ⟨m, rfl, h.1⟩

theorem DescribesAll.getElem? (h : types.DescribesAll ds members) {i : Nat} (hd : ds[i]? = some d) :
    ∃ m t, members[i]? = some m ∧ m.type = some t ∧ types.Describes d t := by
  obtain ⟨m, hm, t, ht, hdesc⟩ := exists_getElem?_of_forall₂ (describesAll_iff.1 h) hd
  exact ⟨m, t, hm, ht, hdesc⟩

theorem DescribesAll.unique {ds' : List DataType}
    (hds : ∀ d ∈ ds, ∀ d' t, types.Describes d t → types.Describes d' t → d = d') (h : types.DescribesAll ds members)
    (h' : types.DescribesAll ds' members) : ds = ds' := by
  replace h := describesAll_iff.1 h
  replace h' := describesAll_iff.1 h'
  induction h generalizing ds' with
  | nil => exact (List.forall₂_nil_right_iff.1 h').symm
  | cons hfirst _ ih =>
    rw [List.forall_mem_cons] at hds
    cases h' with
    | cons hfirst' hrest' =>
      obtain ⟨t, ht, hd⟩ := hfirst
      obtain ⟨t', ht', hd'⟩ := hfirst'
      cases ht.symm.trans ht'
      rw [hds.1 _ t hd hd', ih hds.2 hrest']

theorem Describes.unique {d' : DataType} (h : types.Describes d t) (h' : types.Describes d' t) : d = d' := by
  induction d generalizing d' t with
  | scalar mode =>
    have hshape : types.shape? t = some (.primitive mode) := h
    cases d' with
    | scalar mode' => rw [Shape.primitive.inj (Option.some.inj (hshape.symm.trans h'))]
    | struct ds' | union ds' | array d' length' => simp_all [Describes]
  | struct ds ih =>
    obtain ⟨name, members, hshape, hall⟩ := h
    cases d' with
    | struct ds' =>
      obtain ⟨name', members', hshape', hall'⟩ := h'
      cases hshape.symm.trans hshape'
      rw [hall.unique (fun d hd d' t h h' => ih d hd h h') hall']
    | scalar mode' | union ds' | array d' length' => simp_all [Describes]
  | union ds ih =>
    obtain ⟨name, members, hshape, hall⟩ := h
    cases d' with
    | union ds' =>
      obtain ⟨name', members', hshape', hall'⟩ := h'
      cases hshape.symm.trans hshape'
      rw [hall.unique (fun d hd d' t h h' => ih d hd h h') hall']
    | scalar mode' | struct ds' | array d' length' => simp_all [Describes]
  | array d length ih =>
    obtain ⟨elem, hshape, helem⟩ := h
    cases d' with
    | array d' length' =>
      obtain ⟨elem', hshape', helem'⟩ := h'
      cases hshape.symm.trans hshape'
      rw [ih helem helem']
    | scalar mode' | struct ds' | union ds' => simp_all [Describes]

theorem Contains.not_primitive (h : types.Contains t t') {mode : Mode} : types.shape? t ≠ some (.primitive mode) := by
  cases h <;> simp_all

theorem Describes.of_contains (h : types.Describes d t) (hcontains : types.Contains t t') :
    ∃ d', types.Describes d' t' ∧ sizeOf d' < sizeOf d := by
  have hmember : ∀ {ds : List DataType} {members : List Member} {m : Member}, types.DescribesAll ds members → m ∈ members →
      m.type = some t' → ∃ d' ∈ ds, types.Describes d' t' := by
    intro ds members m hall hm htype
    obtain ⟨d', hd', t1, ht1, hdesc⟩ := hall.exists_of_mem hm
    cases ht1.symm.trans htype
    exact ⟨d', hd', hdesc⟩
  cases d with
  | scalar mode =>
    exact absurd h hcontains.not_primitive
  | struct ds =>
    obtain ⟨name, members, hshape, hall⟩ := h
    cases hcontains with
    | struct hshape' hm htype =>
      cases hshape.symm.trans hshape'
      obtain ⟨d', hd', hdesc⟩ := hmember hall hm htype
      have hlt := List.sizeOf_lt_of_mem hd'
      exact ⟨d', hdesc, by simp only [DataType.struct.sizeOf_spec]; omega⟩
    | union hshape' | array hshape' => simp_all
  | union ds =>
    obtain ⟨name, members, hshape, hall⟩ := h
    cases hcontains with
    | union hshape' hm htype =>
      cases hshape.symm.trans hshape'
      obtain ⟨d', hd', hdesc⟩ := hmember hall hm htype
      have hlt := List.sizeOf_lt_of_mem hd'
      exact ⟨d', hdesc, by simp only [DataType.union.sizeOf_spec]; omega⟩
    | struct hshape' | array hshape' => simp_all
  | array d length =>
    obtain ⟨elem, hshape, helem⟩ := h
    cases hcontains with
    | array hshape' =>
      cases hshape.symm.trans hshape'
      exact ⟨d, helem, by simp only [DataType.array.sizeOf_spec]; omega⟩
    | struct hshape' | union hshape' => simp_all

theorem Describes.of_within (h : types.Describes d t) (hwithin : types.Within t t') :
    ∃ d', types.Describes d' t' ∧ sizeOf d' ≤ sizeOf d := by
  induction hwithin with
  | refl => exact ⟨d, h, le_rfl⟩
  | tail _ hcontains ih =>
    obtain ⟨d1, hd1, hle⟩ := ih
    obtain ⟨d2, hd2, hlt⟩ := hd1.of_contains hcontains
    exact ⟨d2, hd2, by omega⟩

theorem Describes.not_within (h : types.Describes d t) (hcontains : types.Contains t t') : ¬types.Within t' t := by
  intro hwithin
  obtain ⟨d', hd', hlt⟩ := h.of_contains hcontains
  obtain ⟨d'', hd'', hle⟩ := hd'.of_within hwithin
  rw [h.unique hd''] at hlt
  omega

theorem Describes.of_array {elem : Option TypeId} {length : Int} (h : types.Describes d t)
    (hshape : types.shape? t = some (.array elem length)) :
    ∃ d' t', d = .array d' length ∧ elem = some t' ∧ types.Describes d' t' := by
  cases d with
  | array d' length' =>
    obtain ⟨t', hshape', hd'⟩ := h
    cases hshape.symm.trans hshape'
    exact ⟨d', t', rfl, rfl, hd'⟩
  | scalar mode | struct ds | union ds => simp_all [Describes]

theorem shape?_of_mode? {mode : Mode} (h : types.mode? t = some mode) : types.shape? t = some (.primitive mode) := by
  rw [mode?] at h
  split at h
  · cases h
    assumption
  · cases h

theorem shape?_of_mode?_none (h : types.mode? t = none) (mode : Mode) : types.shape? t ≠ some (.primitive mode) := by
  intro hshape
  rw [mode?, hshape] at h
  cases h

/-! ### Larger tables -/

/-- Whether the types of a table are in another one, with the same shapes. -/
def Extends (types types' : TypeTable) : Prop := ∀ t shape, types.shape? t = some shape → types'.shape? t = some shape

theorem extends_push (types : TypeTable) (shape : Shape) : types.Extends (types.push shape).2 := by
  intro t shape' ht
  obtain ⟨hlt, -⟩ := Array.getElem?_eq_some_iff.1 ht
  rw [shape?, push, Array.getElem?_push, if_neg (Nat.ne_of_lt hlt)]
  exact ht

theorem shape?_push (types : TypeTable) (shape : Shape) : (types.push shape).2.shape? (types.push shape).1 = some shape := by
  simp [shape?, push]

variable {types' : TypeTable}

theorem DescribesAll.extends (hds : ∀ d ∈ ds, ∀ t, types.Describes d t → types'.Describes d t)
    (h : types.DescribesAll ds members) : types'.DescribesAll ds members := by
  replace h := describesAll_iff.1 h
  induction h with
  | nil => exact trivial
  | cons hfirst _ ih =>
    rw [List.forall_mem_cons] at hds
    obtain ⟨t, ht, hd⟩ := hfirst
    exact ⟨⟨t, ht, hds.1 t hd⟩, ih hds.2⟩

theorem Describes.extends (h : types.Describes d t) (hext : types.Extends types') : types'.Describes d t := by
  induction d generalizing t with
  | scalar mode => exact hext t _ h
  | struct ds ih =>
    obtain ⟨name, members, hshape, hall⟩ := h
    exact ⟨name, members, hext t _ hshape, hall.extends fun d hd _ => ih d hd⟩
  | union ds ih =>
    obtain ⟨name, members, hshape, hall⟩ := h
    exact ⟨name, members, hext t _ hshape, hall.extends fun d hd _ => ih d hd⟩
  | array d length ih =>
    obtain ⟨elem, hshape, helem⟩ := h
    exact ⟨elem, hext t _ hshape, ih helem⟩

theorem Describes.exists_shape (h : types.Describes d t) : ∃ shape, types.shape? t = some shape := by
  cases d with
  | scalar mode => exact ⟨_, h⟩
  | struct ds | union ds =>
    obtain ⟨name, members, hshape, -⟩ := h
    exact ⟨_, hshape⟩
  | array d length =>
    obtain ⟨elem, hshape, -⟩ := h
    exact ⟨_, hshape⟩

theorem Contains.of_extends (h : types'.Contains t t') (hext : types.Extends types') {shape : Shape}
    (hshape : types.shape? t = some shape) : types.Contains t t' := by
  have hshape' := hext t shape hshape
  cases h with
  | struct hstruct hm htype =>
    cases hshape'.symm.trans hstruct
    exact .struct hshape hm htype
  | union hunion hm htype =>
    cases hshape'.symm.trans hunion
    exact .union hshape hm htype
  | array harray =>
    cases hshape'.symm.trans harray
    exact .array hshape

theorem Describes.within_of_extends (h : types.Describes d t) (hext : types.Extends types') (hwithin : types'.Within t t') :
    types.Within t t' := by
  induction hwithin with
  | refl => exact .refl
  | tail _ hcontains ih =>
    obtain ⟨d', hd', -⟩ := h.of_within ih
    obtain ⟨shape, hshape⟩ := hd'.exists_shape
    exact ih.tail (hcontains.of_extends hext hshape)

end TypeTable

namespace Layout

variable {types : TypeTable} {target : Target}
variable {known known' : Layouts} {t t0 : TypeId} {d : DataType} {action : Engine TypeLayout} {stack : List TypeId}
  {shape : Shape} {P : Layouts → Prop}

/-- Whether the known layouts of the types inside of `t` are right. -/
def RightIn (types : TypeTable) (target : Target) (known : Layouts) (t : TypeId) : Prop :=
  ∀ t' d, types.Within t t' → types.Describes d t' → known[t']? = none ∨ known[t']? = some (.ok (d.layout target))

/-- Whether what is new among the known layouts is right. -/
def Grows (types : TypeTable) (target : Target) (known known' : Layouts) : Prop :=
  ∀ t, known'[t]? = known[t]? ∨ ∃ d, types.Describes d t ∧ known'[t]? = some (.ok (d.layout target))

theorem Grows.refl (known : Layouts) : Grows types target known known := fun _ => .inl rfl

theorem Grows.trans {known'' : Layouts} (h : Grows types target known known') (h' : Grows types target known' known'') :
    Grows types target known known'' := by
  intro t
  rcases h' t with heq | hnew
  · rw [heq]
    exact h t
  · exact .inr hnew

theorem Grows.insert (h : types.Describes d t) : Grows types target known (known.insert t (.ok (d.layout target))) := by
  intro t'
  rw [Std.HashMap.getElem?_insert]
  by_cases ht : t = t'
  · subst ht
    exact .inr ⟨d, h, by simp⟩
  · simp [ht]

theorem RightIn.grows (h : RightIn types target known t) (hgrows : Grows types target known known') :
    RightIn types target known' t := by
  intro t' d hwithin hd
  rcases hgrows t' with heq | ⟨d', hd', heq⟩
  · rw [heq]
    exact h t' d hwithin hd
  · rw [heq, hd.unique hd']
    exact .inr rfl

theorem RightIn.contained {t' : TypeId} (h : RightIn types target known t) (hcontains : types.Contains t t') :
    RightIn types target known t' :=
  fun t'' d hwithin => h t'' d (hwithin.head hcontains)

theorem RightIn.of_contained (hnone : known[t]? = none) (h : ∀ t', types.Contains t t' → RightIn types target known t') :
    RightIn types target known t := by
  intro t' d hwithin hd
  rcases hwithin.cases_head with rfl | ⟨t1, hcontains, hrest⟩
  · exact .inl hnone
  · exact h t1 hcontains t' d hrest hd

theorem RightIn.extends {types' : TypeTable} (h : RightIn types target known t) (hd : types.Describes d t)
    (hext : types.Extends types') : RightIn types' target known t := by
  intro t' d' hwithin hd'
  have hwithin' := hd.within_of_extends hext hwithin
  obtain ⟨d'', hd'', -⟩ := hd.of_within hwithin'
  rw [hd'.unique (hd''.extends hext)]
  exact h t' d'' hwithin' hd''

/-! ### One type -/

theorem finishes_remember {l : TypeLayout} (h : Finishes action known l known') :
    Finishes (remember t action) known l (known'.insert t (.ok l)) := by
  rw [Finishes, remember, h]

theorem finishes_layoutIn_known {l : TypeLayout} (h : known[t]? = some (.ok l)) :
    Finishes (layoutIn types target stack t) known l known := by
  rw [layoutIn, finishes_bind_iff]
  refine ⟨known, known, finishes_get, ?_⟩
  rw [h]
  exact finishes_pure

theorem finishes_join (join : Partial → TypeLayout → Partial) {ds : List DataType} {members : List Member}
    (hall : types.DescribesAll ds members) (hcontains : ∀ m ∈ members, ∀ t', m.type = some t' → types.Contains t t')
    (hds : ∀ d ∈ ds, ∀ t' known, types.Contains t t' → types.Describes d t' → RightIn types target known t' →
      ∃ known', Finishes (layoutIn types target stack t') known (d.layout target) known' ∧ Grows types target known known')
    (hknown : RightIn types target known t) (part : Partial) :
    ∃ known', Finishes (members.foldlM (fun p m => do return join p (← contained m.type (layoutIn types target stack))) part)
      known (joinAll target join part ds) known' ∧ Grows types target known known' := by
  replace hall := TypeTable.describesAll_iff.1 hall
  induction hall generalizing known part with
  | nil => exact ⟨known, finishes_pure, .refl known⟩
  | @cons d m ds members hfirst _ ih =>
    rw [List.forall_mem_cons] at hcontains hds
    obtain ⟨t', ht', hd⟩ := hfirst
    have hpart := hcontains.1 t' ht'
    obtain ⟨known1, hrun, hgrows⟩ := hds.1 t' known hpart hd (hknown.contained hpart)
    obtain ⟨known2, hrun', hgrows'⟩ := ih hcontains.2 hds.2 (hknown.grows hgrows) (join part (d.layout target))
    refine ⟨known2, ?_, hgrows.trans hgrows'⟩
    rw [List.foldlM_cons, finishes_bind_iff, ht']
    refine ⟨join part (d.layout target), known1, ?_, hrun'⟩
    exact finishes_bind_iff.2 ⟨d.layout target, known1, hrun, finishes_pure⟩

/-- The layout of a type `t` of the given shape, where `stack` begins with `t`. -/
def computed (types : TypeTable) (target : Target) (stack : List TypeId) (t : TypeId) : Shape → Engine TypeLayout
  | .primitive mode => pure (scalar target mode)
  | .struct _ members => do
    let p ← members.foldlM (fun p m => do return p.append (← contained m.type (layoutIn types target stack))) Partial.empty
    return p.finish
  | .union _ members => do
    let p ← members.foldlM (fun p m => do return p.overlay (← contained m.type (layoutIn types target stack))) Partial.empty
    return p.finish
  | .array elem length => do return array (← contained elem (layoutIn types target stack)) length
  | .routine _ | .unknown => do throw (.error (.unsized (← textOf types t)))

theorem layoutIn_apply_of_fresh (hnone : known[t]? = none) (hstack : t ∉ stack) (hshape : types.shape? t = some shape) :
    layoutIn types target stack t known = remember t (computed types target (t :: stack) t shape) known := by
  obtain ⟨hbound, hshape'⟩ := Array.getElem?_eq_some_iff.1 hshape
  have hget : Finishes (get : Engine Layouts) known known known := finishes_get
  rw [layoutIn, bind_apply_of_finishes hget, hnone]
  dsimp only
  rw [dif_neg hstack, dif_pos hbound, hshape']
  cases shape <;> rfl

theorem finishes_layoutIn_of_computed (hd : types.Describes d t) (hshape : types.shape? t = some shape)
    (hstack : t ∉ stack) (hknown : RightIn types target known t)
    (h : ∃ known', Finishes (computed types target (t :: stack) t shape) known (d.layout target) known' ∧
      Grows types target known known') :
    ∃ known', Finishes (layoutIn types target stack t) known (d.layout target) known' ∧ Grows types target known known' := by
  rcases hknown t d .refl hd with hnone | hright
  · obtain ⟨known', hrun, hgrows⟩ := h
    refine ⟨known'.insert t (.ok (d.layout target)), ?_, hgrows.trans (.insert hd)⟩
    rw [Finishes, layoutIn_apply_of_fresh hnone hstack hshape]
    exact finishes_remember hrun
  · exact ⟨known, finishes_layoutIn_known hright, .refl known⟩

theorem not_mem_stack (hd : types.Describes d t) (hstack : ∀ t', types.Within t t' → t' ∉ stack) {t' : TypeId}
    (hcontains : types.Contains t t') : ∀ t'', types.Within t' t'' → t'' ∉ t :: stack := by
  intro t'' hwithin hmem
  rcases List.mem_cons.1 hmem with rfl | hmem
  · exact hd.not_within hcontains hwithin
  · exact hstack t'' (hwithin.head hcontains) hmem

/-- The layout of a type that stands for a data type is computed, and all that is remembered with it is right. -/
theorem finishes_layoutIn (hd : types.Describes d t) (hstack : ∀ t', types.Within t t' → t' ∉ stack)
    (hknown : RightIn types target known t) :
    ∃ known', Finishes (layoutIn types target stack t) known (d.layout target) known' ∧ Grows types target known known' := by
  induction d generalizing t stack known with
  | scalar mode =>
    refine finishes_layoutIn_of_computed hd hd (hstack t .refl) hknown ?_
    exact ⟨known, finishes_pure, .refl known⟩
  | struct ds ih =>
    obtain ⟨name, members, hshape, hall⟩ := id hd
    refine finishes_layoutIn_of_computed hd hshape (hstack t .refl) hknown ?_
    obtain ⟨known', hrun, hgrows⟩ := finishes_join .append hall (fun m hm t' ht' => .struct hshape hm ht')
      (fun d hmem t' known hpart hd' => ih d hmem hd' (not_mem_stack hd hstack hpart)) hknown .empty
    exact ⟨known', finishes_bind_iff.2 ⟨_, _, hrun, finishes_pure⟩, hgrows⟩
  | union ds ih =>
    obtain ⟨name, members, hshape, hall⟩ := id hd
    refine finishes_layoutIn_of_computed hd hshape (hstack t .refl) hknown ?_
    obtain ⟨known', hrun, hgrows⟩ := finishes_join .overlay hall (fun m hm t' ht' => .union hshape hm ht')
      (fun d hmem t' known hpart hd' => ih d hmem hd' (not_mem_stack hd hstack hpart)) hknown .empty
    exact ⟨known', finishes_bind_iff.2 ⟨_, _, hrun, finishes_pure⟩, hgrows⟩
  | array d length ih =>
    obtain ⟨elem, hshape, helem⟩ := id hd
    have hpart : types.Contains t elem := .array hshape
    refine finishes_layoutIn_of_computed hd hshape (hstack t .refl) hknown ?_
    obtain ⟨known', hrun, hgrows⟩ := ih helem (not_mem_stack hd hstack hpart) (hknown.contained hpart)
    exact ⟨known', finishes_bind_iff.2 ⟨_, _, hrun, finishes_pure⟩, hgrows⟩

theorem finishes_layoutOf (hd : types.Describes d t) (hknown : RightIn types target known t) :
    ∃ known', Finishes (layoutOf types target t) known (d.layout target) known' ∧ Grows types target known known' :=
  finishes_layoutIn hd (by simp) hknown

/-! ### What is remembered in any case -/

/-- Whether only types of the table have known layouts, and the types of the modes those of scalars. -/
structure Sound (types : TypeTable) (target : Target) (known : Layouts) : Prop where
  bounded : ∀ t l, known[t]? = some l → t < types.shapes.size
  scalars : ∀ (mode : Mode) l, known[mode.typeId]? = some l → l = .ok (scalar target mode)

theorem Sound.rightIn (h : Sound types target known) {mode : Mode}
    (hshared : types.shape? mode.typeId = some (.primitive mode)) : RightIn types target known mode.typeId := by
  have hscalar : types.Describes (.scalar mode) mode.typeId := hshared
  intro t d hwithin hd
  rcases hwithin.cases_head with rfl | ⟨t1, hcontains, -⟩
  · rw [hd.unique hscalar]
    cases hl : known[mode.typeId]? with
    | none => exact .inl rfl
    | some l => exact .inr (by rw [h.scalars mode l hl]; rfl)
  · exact absurd hshared hcontains.not_primitive

theorem Sound.insert (h : Sound types target known) {l : Except LayoutError TypeLayout} (ht : t < types.shapes.size)
    (hmode : ∀ mode : Mode, mode.typeId = t → l = .ok (scalar target mode)) : Sound types target (known.insert t l) := by
  refine ⟨fun t' l' hl' => ?_, fun mode l' hl' => ?_⟩
  all_goals
    rw [Std.HashMap.getElem?_insert] at hl'
    split_ifs at hl' with heq
  · rwa [← beq_iff_eq.1 heq]
  · exact h.bounded t' l' hl'
  · cases hl'
    exact hmode mode (beq_iff_eq.1 heq).symm
  · exact h.scalars mode l' hl'

theorem keeps_remember (h : Keeps (Sound types target) action) (ht : t < types.shapes.size)
    (hmode : ∀ mode : Mode, mode.typeId = t → action = pure (scalar target mode)) :
    Keeps (Sound types target) (remember t action) := by
  intro known hknown
  have hkept := h known hknown
  have hfinish : ∀ mode : Mode, mode.typeId = t → Finishes action known (scalar target mode) known := by
    intro mode hm
    rw [hmode mode hm]
    exact finishes_pure
  rw [remember]
  rcases hrun : action known with ⟨⟨_ | e⟩ | l, known'⟩
  all_goals rw [hrun] at hkept
  · exact hkept
  · refine hkept.insert ht fun mode hm => ?_
    exact absurd (hfinish mode hm) (not_finishes_of_error hrun)
  · refine hkept.insert ht fun mode hm => ?_
    rw [(Finishes.unique hrun (hfinish mode hm)).1]

theorem keeps_contained {t : Option TypeId} {f : TypeId → Engine TypeLayout} (h : ∀ t', t = some t' → Keeps P (f t')) :
    Keeps P (contained t f) := by
  cases t with
  | none => exact keeps_throw _
  | some t => exact h t rfl

theorem keeps_textOf (t : TypeId) : Keeps P (textOf types t) := by
  rw [textOf]
  split
  · exact keeps_pure _
  · exact keeps_throw _

theorem keeps_computed (hshape : types.shape? t = some shape)
    (h : ∀ t', types.Contains t t' → Keeps P (layoutIn types target stack t')) :
    Keeps P (computed types target stack t shape) := by
  cases shape with
  | primitive mode => exact keeps_pure _
  | struct name members =>
    have hmember : ∀ m ∈ members, Keeps P (contained m.type (layoutIn types target stack)) :=
      fun m hm => keeps_contained fun t' ht' => h t' (.struct hshape hm ht')
    exact (keeps_foldlM (fun _ m hm => (hmember m hm).bind fun _ => keeps_pure _) _).bind fun _ => keeps_pure _
  | union name members =>
    have hmember : ∀ m ∈ members, Keeps P (contained m.type (layoutIn types target stack)) :=
      fun m hm => keeps_contained fun t' ht' => h t' (.union hshape hm ht')
    exact (keeps_foldlM (fun _ m hm => (hmember m hm).bind fun _ => keeps_pure _) _).bind fun _ => keeps_pure _
  | array elem length =>
    refine (keeps_contained fun t' ht' => h t' ?_).bind fun _ => keeps_pure _
    exact .array (ht' ▸ hshape)
  | routine sig | unknown => exact (keeps_textOf t).bind fun _ => keeps_throw _

theorem keeps_layoutIn (hshared : ∀ mode : Mode, types.shape? mode.typeId = some (.primitive mode))
    (hstack : ∀ s ∈ stack, s < types.shapes.size ∧ ∀ mode : Mode, mode.typeId ≠ s) (t : TypeId) :
    Keeps (Sound types target) (layoutIn types target stack t) := by
  induction hn : unvisited types.shapes.size stack using Nat.strong_induction_on generalizing stack t with
  | _ n ih =>
    rw [layoutIn]
    refine keeps_get.bind fun known => ?_
    split
    · exact keeps_pure _
    · exact keeps_throw _
    split_ifs with hmem hbound
    · refine keeps_remember ?_ (hstack t hmem).1 fun mode hm => absurd hm ((hstack t hmem).2 mode)
      exact (keeps_mapM keeps_textOf).bind fun _ => (keeps_textOf t).bind fun _ => keeps_throw _
    · have hsome : types.shape? t = some types.shapes[t] := Array.getElem?_eq_getElem hbound
      have hshape : ∀ mode : Mode, mode.typeId = t → types.shapes[t] = .primitive mode := by
        rintro mode rfl
        exact Option.some.inj (hsome.symm.trans (hshared mode))
      have hkeeps : Keeps (Sound types target) (remember t (computed types target (t :: stack) t types.shapes[t])) := by
        refine keeps_remember (keeps_computed hsome fun t' hcontains => ?_) hbound fun mode hm => by rw [hshape mode hm]; rfl
        -- The computation goes on inside of types that are none of those of the modes.
        refine ih _ (hn ▸ unvisited_cons_lt hbound hmem) (fun s hs => ?_) t' rfl
        rcases List.mem_cons.1 hs with rfl | hs
        · refine ⟨hbound, fun mode hm => ?_⟩
          rw [hshape mode hm] at hsome
          exact hcontains.not_primitive hsome
        · exact hstack s hs
      generalize types.shapes[t] = shape at hkeeps ⊢
      cases shape <;> exact hkeeps
    · exact keeps_throw _

theorem keeps_layoutOf (hshared : ∀ mode : Mode, types.shape? mode.typeId = some (.primitive mode)) (t : TypeId) :
    Keeps (Sound types target) (layoutOf types target t) :=
  keeps_layoutIn hshared (by simp) t

/-! ### Types that are laid out apart from each other -/

theorem RightIn.insert_of_not_within {l : Except LayoutError TypeLayout} (h : RightIn types target known t0)
    (ht : ¬types.Within t0 t) : RightIn types target (known.insert t l) t0 := by
  intro t' d hwithin hd
  have hne : t ≠ t' := fun heq => ht (heq ▸ hwithin)
  rw [Std.HashMap.getElem?_insert, if_neg (by simpa using hne)]
  exact h t' d hwithin hd

theorem keeps_remember_of_insert (h : Keeps P action) (hinsert : ∀ known l, P known → P (known.insert t l)) :
    Keeps P (remember t action) := by
  intro known hknown
  have hkept := h known hknown
  rw [remember]
  rcases hrun : action known with ⟨⟨_ | e⟩ | l, known'⟩
  all_goals rw [hrun] at hkept
  · exact hkept
  · exact hinsert _ _ hkept
  · exact hinsert _ _ hkept

/-- What is known of the types inside of `t0` stays right when the layout of any other type is computed, which may fail. -/
theorem keeps_rightIn_layoutIn {d0 : DataType} (hd0 : types.Describes d0 t0)
    (hstack : ∀ s ∈ stack, ∃ t', types.Contains s t' ∧ types.Within t' t) :
    Keeps (RightIn types target · t0) (layoutIn types target stack t) := by
  induction hn : unvisited types.shapes.size stack using Nat.strong_induction_on generalizing stack t with
  | _ n ih =>
    by_cases hin : types.Within t0 t
    · -- A type inside of `t0` is laid out as it should be: it is not among the types around it.
      obtain ⟨d, hd, -⟩ := hd0.of_within hin
      intro known hknown
      have hright : RightIn types target known t := fun t' d' hwithin => hknown t' d' (hin.trans hwithin)
      have hfree : ∀ t', types.Within t t' → t' ∉ stack := by
        intro t' hwithin hmem
        obtain ⟨t'', hcontains, hback⟩ := hstack t' hmem
        obtain ⟨d', hd', -⟩ := hd.of_within hwithin
        exact hd'.not_within hcontains (hback.trans hwithin)
      obtain ⟨known', hrun, hgrows⟩ := finishes_layoutIn hd hfree hright
      rw [hrun]
      exact hknown.grows hgrows
    have hinsert : ∀ known l, RightIn types target known t0 → RightIn types target (known.insert t l) t0 :=
      fun known l h => h.insert_of_not_within hin
    rw [layoutIn]
    refine keeps_get.bind fun known => ?_
    split
    · exact keeps_pure _
    · exact keeps_throw _
    split_ifs with hmem hbound
    · refine keeps_remember_of_insert ?_ hinsert
      exact (keeps_mapM keeps_textOf).bind fun _ => (keeps_textOf t).bind fun _ => keeps_throw _
    · have hsome : types.shape? t = some types.shapes[t] := Array.getElem?_eq_getElem hbound
      have hkeeps : Keeps (RightIn types target · t0)
          (remember t (computed types target (t :: stack) t types.shapes[t])) := by
        refine keeps_remember_of_insert (keeps_computed hsome fun t' hcontains => ?_) hinsert
        refine ih _ (hn ▸ unvisited_cons_lt hbound hmem) (fun s hs => ?_) rfl
        rcases List.mem_cons.1 hs with rfl | hs
        · exact ⟨t', hcontains, .refl⟩
        · obtain ⟨t'', hfirst, hwithin⟩ := hstack s hs
          exact ⟨t'', hfirst, hwithin.tail hcontains⟩
      generalize types.shapes[t] = shape at hkeeps ⊢
      cases shape <;> exact hkeeps
    · exact keeps_throw _

theorem keeps_rightIn_layoutOf {d0 : DataType} (hd0 : types.Describes d0 t0) (t : TypeId) :
    Keeps (RightIn types target · t0) (layoutOf types target t) :=
  keeps_rightIn_layoutIn hd0 (by simp)

end Layout

end ClassAbi
