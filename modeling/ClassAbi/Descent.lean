/-!
# Descending without coming back

A descent through a finite table that never enters an entry twice on one path comes to an end: each step leaves fewer
entries that are not on the path.
-/

namespace ClassAbi

def unvisited (n : Nat) (path : List Nat) : Nat := ((List.range n).filter (· ∉ path)).length

theorem unvisited_cons_lt {n i : Nat} {path : List Nat} (bound : i < n) (fresh : i ∉ path) :
    unvisited n (i :: path) < unvisited n path := by
  have split : (List.range n).filter (· ∉ i :: path) = ((List.range n).filter (· ∉ path)).filter (· ≠ i) := by
    rw [List.filter_filter]
    congr 1
    funext j
    by_cases h : j = i <;> simp [h]
  rw [unvisited, split]
  exact List.length_filter_lt_length_iff_exists.2 ⟨i, by simp [bound, fresh], by simp⟩

end ClassAbi
