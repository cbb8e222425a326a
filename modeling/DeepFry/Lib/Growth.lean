import Mathlib.Tactic

namespace DeepFry.Growth

-- Library layer: a geometric growth that ends at a cap, in whole numbers without a bound.
variable {start ratio cap : ℤ}

def capped (start ratio cap : ℤ) (n : Nat) : ℤ := min (start * ratio ^ n) cap

theorem capped_zero : capped start ratio cap 0 = min start cap := by
  rw [capped,pow_zero,mul_one]

theorem capped_succ (n : Nat) : capped start ratio cap (n + 1) = capped (start * ratio) ratio cap n := by
  rw [capped,capped,pow_succ',mul_assoc]

theorem grown_le (positive : 0 < start) (growing : 1 ≤ ratio) {fewer more : Nat} (ordered : fewer ≤ more) :
    start * ratio ^ fewer ≤ start * ratio ^ more := by
  have powers : ratio ^ fewer ≤ ratio ^ more := pow_le_pow_right₀ growing ordered
  exact mul_le_mul_of_nonneg_left powers positive.le

theorem capped_mono (positive : 0 < start) (growing : 1 ≤ ratio) : Monotone (capped start ratio cap) := by
  intro fewer more ordered
  exact min_le_min_right cap (grown_le positive growing ordered)

-- Once the next product reaches the cap, every later one does.
theorem capped_reached (positive : 0 < start) (growing : 1 ≤ ratio) (reached : cap ≤ start * ratio) (n : Nat) :
    capped start ratio cap (n + 1) = cap := by
  apply min_eq_right
  have further := grown_le positive growing (Nat.le_add_left 1 n)
  rw [pow_one] at further
  exact reached.trans further

-- The test that forms no product.
theorem guard_iff {value : ℤ} (positive : 0 < ratio) (bounded : 0 < cap) : value > (cap - 1).tdiv ratio ↔ cap ≤ value * ratio := by
  rw [Int.tdiv_eq_ediv_of_nonneg (by omega),gt_iff_lt,Int.ediv_lt_iff_lt_mul positive]
  omega

end DeepFry.Growth
