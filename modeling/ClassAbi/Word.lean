/-!
# Machine words

Sizes, offsets and constants are signed 64-bit words. They are written as integers, and the operations that can leave the
range of a word wrap around.
-/

namespace ClassAbi

/-- The word that is congruent to `n` modulo `2 ^ 64`. -/
def wrap (n : Int) : Int := n.bmod (1 <<< 64)

theorem wrap_eq_self {n : Int} (lower : -0x8000000000000000 ≤ n) (upper : n < 0x8000000000000000) : wrap n = n := by
  unfold wrap
  rw [show 1 <<< 64 = 0x10000000000000000 from rfl, Int.bmod_eq_of_le] <;> omega

end ClassAbi
