import ClassAbi.Outcome
import Mathlib

/-!
# Sequences of operations

When an operation followed by another finishes, and when it stops at an access outside its data; when an operation that is
done for each item of a list finishes.
-/

namespace ClassAbi.Outcome

variable {ε α β : Type} {x : Outcome ε α} {f : α → Outcome ε β}

@[simp] theorem ok_ne_fault (a : α) : (Except.ok a : Outcome ε α) ≠ fault := by
  simp [fault]

@[simp] theorem fail_ne_fault (cause : ε) : (fail cause : Outcome ε α) ≠ fault := by
  simp [fault, fail]

@[simp] theorem fail_ne_ok (cause : ε) (a : α) : (fail cause : Outcome ε α) ≠ .ok a := by
  simp [fail]

@[simp] theorem fault_ne_ok (a : α) : (fault : Outcome ε α) ≠ .ok a := by
  simp [fault]

theorem bind_eq_fault_iff : x >>= f = fault ↔ x = fault ∨ ∃ a, x = .ok a ∧ f a = fault := by
  cases x with
  | error e => simp [bind, Except.bind, fault]
  | ok a => simp [bind, Except.bind]

theorem map_eq_fault_iff {g : α → β} : g <$> x = fault ↔ x = fault := by
  cases x with
  | error e => simp [Functor.map, Except.map, fault]
  | ok a => simp [Functor.map, Except.map]

theorem ok_or_fail_of_ne_fault (h : x ≠ fault) : (∃ a, x = .ok a) ∨ ∃ cause, x = fail cause := by
  match x, h with
  | .ok a, _ => exact .inl ⟨a, rfl⟩
  | .error (.error cause), _ => exact .inr ⟨cause, rfl⟩
  | .error .fault, h => exact absurd rfl h

end ClassAbi.Outcome

namespace ClassAbi

variable {ε α β : Type}

theorem bind_eq_ok_iff {x : Except ε α} {f : α → Except ε β} {b : β} : x >>= f = .ok b ↔ ∃ a, x = .ok a ∧ f a = .ok b := by
  cases x with
  | error e => simp [bind, Except.bind]
  | ok a => simp [bind, Except.bind]

theorem map_eq_ok_iff {x : Except ε α} {f : α → β} {b : β} : f <$> x = .ok b ↔ ∃ a, x = .ok a ∧ f a = b := by
  cases x with
  | error e => simp [Functor.map, Except.map]
  | ok a => simp [Functor.map, Except.map]

theorem mapM_eq_ok_iff {f : α → Except ε β} {as : List α} {bs : List β} :
    as.mapM f = .ok bs ↔ List.Forall₂ (fun a b => f a = .ok b) as bs := by
  induction as generalizing bs with
  | nil => simp [pure, Except.pure, eq_comm]
  | cons a as ih =>
    rw [List.mapM_cons, List.forall₂_cons_left_iff]
    cases ha : f a with
    | error e => simp [bind, Except.bind]
    | ok b =>
      cases has : as.mapM f with
      | error e =>
        have hnot : ∀ bs, ¬List.Forall₂ (fun a b => f a = .ok b) as bs := fun bs h => by
          rw [ih.2 h] at has
          cases has
        simp [bind, Except.bind, hnot]
      | ok cs =>
        have hcs : ∀ bs, List.Forall₂ (fun a b => f a = .ok b) as bs ↔ cs = bs := fun bs => by
          rw [← ih, has, Except.ok.injEq]
        simp [bind, Except.bind, pure, Except.pure, hcs, eq_comm]

theorem mapM_eq_some_iff {f : α → Option β} {as : List α} {bs : List β} :
    as.mapM f = some bs ↔ List.Forall₂ (fun a b => f a = some b) as bs := by
  induction as generalizing bs with
  | nil => simp [eq_comm]
  | cons a as ih =>
    rw [List.mapM_cons, List.forall₂_cons_left_iff]
    simp only [Option.bind_eq_bind, Option.bind_eq_some_iff, ih, Option.pure_def, Option.some.injEq]
    constructor
    · rintro ⟨b, hb, bs', hbs', rfl⟩
      exact ⟨b, bs', hb, hbs', rfl⟩
    · rintro ⟨b, bs', hb, hbs', rfl⟩
      exact ⟨b, hb, bs', hbs', rfl⟩

end ClassAbi
