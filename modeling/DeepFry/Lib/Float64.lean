import Mathlib.Data.Rat.Defs
import Mathlib.Tactic

namespace DeepFry.Float64

-- Library layer: the number that the bits of a float64 stand for.
def sign (bits : UInt64) : Nat := bits.toNat / 2^63

def exponent (bits : UInt64) : Nat := bits.toNat / 2^52 % 2^11

def fraction (bits : UInt64) : Nat := bits.toNat % 2^52

-- A fraction of 52 bits, with a leading one unless the exponent is zero.
def significand (exponent fraction : Nat) : Nat := if exponent = 0 then fraction else 2^52 + fraction

def scale (exponent : Nat) : ℤ := (if exponent = 0 then 1 else exponent : ℤ) - 1075

def magnitude (exponent fraction : Nat) : ℚ := significand exponent fraction * 2^scale exponent

-- None for the infinities and for what is not a number.
def value (bits : UInt64) : Option ℚ :=
  if exponent bits = 2047 then none else some ((-1)^sign bits * magnitude (exponent bits) (fraction bits))

theorem bits_parts (bits : UInt64) : bits.toNat = sign bits * 2^63 + exponent bits * 2^52 + fraction bits ∧
    sign bits < 2 ∧ fraction bits < 2^52 := by
  have bound := UInt64.toNat_lt bits
  unfold sign exponent fraction
  omega

theorem magnitude_pos {exponent fraction : Nat} : 0 < magnitude exponent fraction ↔ 0 < exponent ∨ 0 < fraction := by
  have power : (0 : ℚ) < 2^scale exponent := by positivity
  unfold magnitude
  rw [mul_pos_iff_of_pos_right power,Nat.cast_pos]
  unfold significand
  split <;> omega

theorem magnitude_nonneg (exponent fraction : Nat) : 0 ≤ magnitude exponent fraction := by
  unfold magnitude
  positivity

-- The exponent of one is 1023.
theorem magnitude_below {exponent fraction : Nat} (bounded : fraction < 2^52) :
    magnitude exponent fraction < 1 ↔ exponent < 1023 := by
  have unit : ∀ width : Nat, (2 : ℚ)^(width : ℤ) * 2^(-(width : ℤ)) = 1 := by
    intro width
    rw [← zpow_add₀ two_ne_zero,add_neg_cancel,zpow_zero]
  have whole : ∀ width : Nat, ((2^width : Nat) : ℚ) = 2^(width : ℤ) := by
    intro width
    rw [Nat.cast_pow,zpow_natCast]
    rfl
  unfold magnitude
  constructor
  · intro small
    by_contra large
    have digits : 2^52 ≤ significand exponent fraction := by
      unfold significand
      split <;> omega
    have power : (2 : ℚ)^(-(52 : Nat) : ℤ) ≤ 2^scale exponent := by
      apply zpow_le_zpow_right₀ one_le_two
      unfold scale
      split <;> omega
    have digits : (2 : ℚ)^((52 : Nat) : ℤ) ≤ significand exponent fraction := by
      rw [← whole]
      exact_mod_cast digits
    have product := mul_le_mul digits power (by positivity) (by positivity)
    rw [unit] at product
    exact absurd (product.trans_lt small) (lt_irrefl _)
  · intro small
    have digits : significand exponent fraction < 2^53 := by
      unfold significand
      split <;> omega
    have power : (2 : ℚ)^scale exponent ≤ 2^(-(53 : Nat) : ℤ) := by
      apply zpow_le_zpow_right₀ one_le_two
      unfold scale
      split <;> omega
    have digits : (significand exponent fraction : ℚ) < 2^((53 : Nat) : ℤ) := by
      rw [← whole]
      exact_mod_cast digits
    have product := mul_lt_mul digits power (by positivity) (by positivity)
    rwa [unit] at product

-- The numbers strictly between 0 and 1 have the bits strictly between those of 0 and of 1.
theorem value_between (bits : UInt64) : (0 < bits ∧ bits < 0x3FF0000000000000) ↔ ∃ q, value bits = some q ∧ 0 < q ∧ q < 1 := by
  obtain ⟨parts,signed,bounded⟩ := bits_parts bits
  have low : 0 < bits ↔ 0 < bits.toNat := UInt64.lt_iff_toNat_lt
  have high : bits < 0x3FF0000000000000 ↔ bits.toNat < 1023 * 2^52 := UInt64.lt_iff_toNat_lt
  rw [low,high]
  unfold value
  generalize sign bits = s at parts signed ⊢
  generalize exponent bits = e at parts ⊢
  generalize fraction bits = f at parts bounded ⊢
  constructor
  · intro ⟨some_bits,below⟩
    have positive : s = 0 := by omega
    have small : e < 1023 := by omega
    rw [if_neg (by omega),positive,pow_zero,one_mul]
    exact ⟨_,rfl,magnitude_pos.mpr (by omega),(magnitude_below bounded).mpr small⟩
  · intro ⟨q,finite,above,below⟩
    obtain ⟨_,same⟩ := Option.ite_none_left_eq_some.mp finite
    have same := Option.some.inj same
    have positive : s = 0 := by
      by_contra negative
      have one : s = 1 := by omega
      rw [one,pow_one] at same
      have least := magnitude_nonneg e f
      linarith
    rw [positive,pow_zero,one_mul] at same
    rw [← same] at above below
    have some_bits := magnitude_pos.mp above
    have small := (magnitude_below bounded).mp below
    omega

end DeepFry.Float64
