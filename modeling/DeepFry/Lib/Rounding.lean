import Mathlib.Data.Rat.Defs
import Mathlib.Tactic

namespace DeepFry.Rounding

-- Library layer: the quotient of two natural numbers, at most one, rounded to the nearest double, a tie to the even one.

-- How often the numerator is doubled until it reaches the denominator; a subnormal quotient stops at the fuel.
def doublings : Nat → Nat → Nat → Nat
  | 0,_,_ => 0
  | fuel+1,p,q => if q ≤ p then 0 else doublings fuel (2 * p) q + 1

def nearest (p q : Nat) : Nat :=
  if 2 * (p % q) < q then p / q
  else if q < 2 * (p % q) then p / q + 1
  else if p / q % 2 = 0 then p / q else p / q + 1

def quotient (p q : Nat) : ℚ := nearest (2^(doublings 1022 p q + 52) * p) q / 2^(doublings 1022 p q + 52)

variable {p q : Nat}

theorem doublings_stop {k fuel : Nat} (small : k ≤ fuel) (reached : q ≤ 2^k * p) : doublings fuel p q ≤ k := by
  induction k generalizing fuel p with
  | zero =>
    cases fuel with
    | zero => exact le_rfl
    | succ fuel =>
      unfold doublings
      rw [if_pos (by simpa using reached)]
  | succ k ih =>
    cases fuel with
    | zero => omega
    | succ fuel =>
      unfold doublings
      split
      · exact Nat.zero_le _
      · apply Nat.succ_le_succ
        apply ih (by omega)
        rw [Nat.pow_succ] at reached
        linarith

theorem doublings_go {k fuel : Nat} (small : k ≤ fuel) (short : ∀ j < k, 2^j * p < q) : k ≤ doublings fuel p q := by
  induction k generalizing fuel p with
  | zero => exact Nat.zero_le _
  | succ k ih =>
    cases fuel with
    | zero => omega
    | succ fuel =>
      have first := short 0 (by omega)
      unfold doublings
      rw [if_neg (by omega)]
      apply Nat.succ_le_succ
      apply ih (by omega)
      intro j below
      have later := short (j + 1) (by omega)
      rw [Nat.pow_succ] at later
      linarith

-- The doublings leave the numerator below twice the denominator, and below the denominator at the fuel alone.
theorem doublings_scaled (fuel : Nat) (least : p < 2 * q) : 2^doublings fuel p q * p < 2 * q := by
  induction fuel generalizing p with
  | zero => simpa [doublings] using least
  | succ fuel ih =>
    unfold doublings
    split
    · simpa using least
    · rename_i short
      have again := ih (by omega : 2 * p < 2 * q)
      rw [Nat.pow_succ]
      linarith

theorem le_nearest {c : Nat} (positive : 0 < c) (divisor : 0 < q) :
    c ≤ nearest p q ↔ (2 * c - 1) * q < 2 * p ∨ ((2 * c - 1) * q = 2 * p ∧ c % 2 = 0) := by
  obtain ⟨odd,twice⟩ : ∃ odd, odd = 2 * c - 1 := ⟨_,rfl⟩
  have split := Nat.div_add_mod p q
  have rest := Nat.mod_lt p divisor
  rw [← twice]
  unfold nearest
  rcases Nat.lt_trichotomy c (p / q + 1) with below | same | above
  · -- the quotient without its fraction is enough
    have enough : odd * q < 2 * p := by
      have whole : (odd + 1) * q ≤ 2 * (p / q) * q := Nat.mul_le_mul_right q (by omega)
      have spread : (odd + 1) * q = odd * q + q := Nat.succ_mul odd q
      have parts : 2 * (p / q) * q = 2 * (q * (p / q)) := by ring
      omega
    constructor
    · intro _
      exact .inl enough
    · intro _
      split
      · omega
      · split
        · omega
        · split <;> omega
  · -- the fraction decides
    have product : odd * q = 2 * (q * (p / q)) + q := by
      have value : odd = 2 * (p / q) + 1 := by omega
      rw [value]
      ring
    rw [product]
    split
    · omega
    · split
      · omega
      · split <;> omega
  · have short : 2 * p < odd * q := by
      have whole : (2 * (p / q) + 3) * q ≤ odd * q := Nat.mul_le_mul_right q (by omega)
      have parts : (2 * (p / q) + 3) * q = 2 * (q * (p / q)) + 3 * q := by ring
      omega
    constructor
    · intro reached
      split at reached
      · omega
      · split at reached
        · omega
        · split at reached <;> omega
    · intro either
      omega

theorem quotient_exact {k : Nat} (small : k ≤ 1022) (reached : q ≤ 2^k * p) (short : ∀ j < k, 2^j * p < q) :
    quotient p q = nearest (2^(k + 52) * p) q / 2^(k + 52) := by
  have steps : doublings 1022 p q = k := Nat.le_antisymm (doublings_stop small reached) (doublings_go small short)
  unfold quotient
  rw [steps]

theorem doublings_reached {k fuel : Nat} (small : k ≤ fuel) (reached : q ≤ 2^k * p) : q ≤ 2^doublings fuel p q * p := by
  induction fuel generalizing p k with
  | zero =>
    have none : k = 0 := by omega
    rw [none] at reached
    exact reached
  | succ fuel ih =>
    unfold doublings
    split
    · rename_i now
      simpa using now
    · rename_i later
      cases k with
      | zero => exact absurd (by simpa using reached) later
      | succ k =>
        rw [Nat.pow_succ,Nat.mul_assoc] at reached
        have again := ih (by omega : k ≤ fuel) reached
        rw [Nat.pow_succ,Nat.mul_assoc]
        exact again

theorem nearest_above {c : Nat} (divisor : 0 < q) (enough : c * q ≤ p) : c ≤ nearest p q := by
  have whole : c ≤ p / q := (Nat.le_div_iff_mul_le divisor).mpr enough
  unfold nearest
  split
  · exact whole
  · split
    · omega
    · split <;> omega

theorem nearest_below {c : Nat} (divisor : 0 < q) (most : p ≤ c * q) : nearest p q ≤ c := by
  have whole : p / q ≤ c := Nat.div_le_of_le_mul (by linarith)
  have split := Nat.div_add_mod p q
  have exact_ : p / q = c → p % q = 0 := by
    intro same
    rw [same,Nat.mul_comm] at split
    omega
  unfold nearest
  split
  · exact whole
  · split
    · omega
    · split <;> omega

theorem quotient_high {n : Nat} (small : n ≤ 1022) (divisor : 0 < q) (reached : q ≤ 2^n * p) : 1 / 2^n ≤ quotient p q := by
  have few := doublings_stop small reached
  have scaled := doublings_reached small reached
  unfold quotient
  generalize doublings 1022 p q = k at few scaled
  have digits : 2^52 ≤ nearest (2^(k + 52) * p) q := by
    apply nearest_above divisor
    rw [Nat.pow_add]
    linarith
  have counted : (2 : ℚ)^52 ≤ nearest (2^(k + 52) * p) q := by exact_mod_cast digits
  have power : (2 : ℚ)^k ≤ 2^n := pow_le_pow_right₀ one_le_two few
  rw [div_le_div_iff₀ (by positivity) (by positivity),one_mul,pow_add]
  calc (2 : ℚ)^k * 2^52 ≤ 2^n * nearest (2^(k + 52) * p) q := by gcongr
    _ = nearest (2^(k + 52) * p) q * 2^n := mul_comm _ _

theorem nearest_scaled {k : Nat} (divisor : 0 < q) (scaled : 2^k * p < 2 * q) : nearest (2^(k + 52) * p) q ≤ 2^53 := by
  apply nearest_below divisor
  rw [Nat.pow_add]
  linarith

theorem scaled_low {digits n k : Nat} (many : n + 1 ≤ k) (bounded : digits ≤ 2^53) : (digits : ℚ) / 2^(k + 52) ≤ 1 / 2^n := by
  have counted : (digits : ℚ) ≤ 2^53 := by exact_mod_cast bounded
  have power : (2 : ℚ)^(n + 1) ≤ 2^k := pow_le_pow_right₀ one_le_two many
  rw [div_le_div_iff₀ (by positivity) (by positivity),one_mul,pow_add]
  calc (digits : ℚ) * 2^n ≤ 2^53 * 2^n := by gcongr
    _ = 2^(n + 1) * 2^52 := by ring
    _ ≤ 2^k * 2^52 := by gcongr

theorem doublings_short {n fuel : Nat} (small : n < fuel) (short : 2^n * p < q) : n + 1 ≤ doublings fuel p q := by
  apply doublings_go small
  intro j below
  have power : 2^j * p ≤ 2^n * p := Nat.mul_le_mul_right p (Nat.pow_le_pow_right (by decide) (by omega))
  omega

theorem quotient_low {n : Nat} (small : n < 1022) (divisor : 0 < q) (short : 2^n * p < q) : quotient p q ≤ 1 / 2^n := by
  have once : p ≤ 2^n * p := Nat.le_mul_of_pos_left p (Nat.two_pow_pos n)
  have scaled := doublings_scaled 1022 (by omega : p < 2 * q)
  exact scaled_low (doublings_short small short) (nearest_scaled divisor scaled)

theorem quotient_nonneg (p q : Nat) : 0 ≤ quotient p q := by
  unfold quotient
  positivity

theorem quotient_le_one (divisor : 0 < q) (share : p ≤ q) : quotient p q ≤ 1 := by
  by_cases short : p < q
  · have low := quotient_low (by decide : 0 < 1022) divisor (by simpa using short)
    simpa using low
  · obtain rfl : p = q := by omega
    have digits : nearest (2^(0 + 52) * p) p ≤ 2^52 := nearest_below divisor le_rfl
    have counted : (nearest (2^(0 + 52) * p) p : ℚ) ≤ 2^52 := by exact_mod_cast digits
    rw [quotient_exact (Nat.zero_le 1022) (by simp) (by simp),div_le_one (by positivity)]
    exact counted

-- A quotient of any size below 2^53.
def divide (p q : Nat) : ℚ :=
  if p < q then quotient p q else nearest (2^(52 - (p / q).log2) * p) q / 2^(52 - (p / q).log2)

theorem nearest_under {c : Nat} (divisor : 0 < q) (under : 2 * p + q < 2 * (c * q)) : nearest p q < c := by
  have split := Nat.div_add_mod p q
  have whole : p / q < c := (Nat.div_lt_iff_lt_mul divisor).mpr (by omega)
  have next : q ≤ 2 * (p % q) → p / q + 1 < c := by
    intro high
    by_contra last
    have steps : c * q ≤ (p / q + 1) * q := Nat.mul_le_mul_right q (not_lt.mp last)
    rw [Nat.add_mul,one_mul,Nat.mul_comm (p / q)] at steps
    omega
  unfold nearest
  split
  · exact whole
  · split
    · exact next (by omega)
    · split
      · exact whole
      · exact next (by omega)

-- A divisor that the digits after the point outweigh leaves the whole part as it is.
theorem nearest_floor {s : Nat} (divisor : 0 < q) (fine : q < 2^(s + 1)) : ⌊(nearest (2^s * p) q : ℚ) / 2^s⌋ = (p / q : Nat) := by
  have power : (0 : ℚ) < 2^s := by positivity
  have least : 2^s * (p / q) ≤ nearest (2^s * p) q := by
    apply nearest_above divisor
    rw [Nat.mul_assoc]
    exact Nat.mul_le_mul_left (2^s) (Nat.div_mul_le_self p q)
  have most : nearest (2^s * p) q < 2^s * (p / q + 1) := by
    apply nearest_under divisor
    have beyond : p + 1 ≤ (p / q + 1) * q := Nat.lt_mul_of_div_lt (Nat.lt_succ_self _) divisor
    have scaled : 2^s * (p + 1) ≤ 2^s * ((p / q + 1) * q) := Nat.mul_le_mul_left (2^s) beyond
    rw [Nat.mul_add,mul_one,← Nat.mul_assoc] at scaled
    rw [Nat.pow_succ] at fine
    omega
  have low : (2 : ℚ)^s * (p / q : Nat) ≤ nearest (2^s * p) q := by exact_mod_cast least
  have high : (nearest (2^s * p) q : ℚ) < 2^s * ((p / q : Nat) + 1) := by exact_mod_cast most
  rw [Int.floor_eq_iff,le_div_iff₀ power,div_lt_iff₀ power]
  rw [mul_comm] at low
  rw [mul_comm ((2 : ℚ)^s)] at high
  constructor
  · exact_mod_cast low
  · exact_mod_cast high

-- Rounding never carries a quotient of safe integers to the next integer.
theorem divide_floor (divisor : 0 < q) (numerator : p < 2^53) (denominator : q < 2^53) : ⌊divide p q⌋ = (p / q : Nat) := by
  unfold divide
  by_cases share : p < q
  · rw [if_pos share]
    apply nearest_floor divisor
    apply denominator.trans_le
    exact Nat.pow_le_pow_right (by decide) (by omega)
  · rw [if_neg share]
    apply nearest_floor divisor
    have some_whole : p / q ≠ 0 := (Nat.div_pos (not_lt.mp share) divisor).ne'
    have digits := Nat.log2_self_le some_whole
    have short : (p / q).log2 < 53 := (Nat.log2_lt some_whole).mpr ((Nat.div_le_self p q).trans_lt numerator)
    have product : q * 2^(p / q).log2 < 2^(52 - (p / q).log2 + 1) * 2^(p / q).log2 := by
      calc q * 2^(p / q).log2 ≤ q * (p / q) := Nat.mul_le_mul_left q digits
        _ ≤ p := Nat.mul_div_le p q
        _ < 2^53 := numerator
        _ = 2^(52 - (p / q).log2 + 1) * 2^(p / q).log2 := by
          rw [← Nat.pow_add]
          congr 1
          omega
    exact Nat.lt_of_mul_lt_mul_right product

-- The double next to four fifths, and one less it.
def fourFifths : ℚ := 3602879701896397 / 2^52

theorem quotient_fourFifths : quotient 4 5 = fourFifths := by
  rw [quotient_exact (by decide : 1 ≤ 1022) (by decide) (by decide)]
  norm_num [nearest,fourFifths]

-- The rounded quotient reaches the rounded four fifths exactly where the quotient does.
theorem fourFifths_le (divisor : 0 < q) (bounded : q ≤ 2^53) (least : p ≤ q) : fourFifths ≤ quotient p q ↔ 4 * q ≤ 5 * p := by
  by_cases half : 2^1 * p < q
  · have low := quotient_low (by decide) divisor half
    have apart : (1 : ℚ) / 2^1 < fourFifths := by norm_num [fourFifths]
    constructor
    · intro reached
      linarith
    · intro enough
      omega
  · by_cases whole : p = q
    · have high := quotient_high (by decide : 0 ≤ 1022) divisor (by simp [whole] : q ≤ 2^0 * p)
      have below : fourFifths ≤ 1 / 2^0 := by norm_num [fourFifths]
      constructor
      · intro _
        omega
      · intro _
        exact below.trans high
    · have exact_ := quotient_exact (by decide : 1 ≤ 1022) (by omega : q ≤ 2^1 * p) (by
        intro j first
        have zero : j = 0 := by omega
        rw [zero]
        omega)
      have counted : fourFifths ≤ quotient p q ↔ 7205759403792794 ≤ nearest (2^(1 + 52) * p) q := by
        have bits : fourFifths = (7205759403792794 : Nat) / 2^(1 + 52) := by norm_num [fourFifths]
        rw [exact_,bits,div_le_div_iff_of_pos_right (by positivity),Nat.cast_le]
      rw [counted,le_nearest (by decide) divisor]
      omega

-- The rounded quotient passes what four fifths leave of one exactly where the quotient reaches a fifth.
theorem fifth_lt (divisor : 0 < q) (bounded : q ≤ 2^52) : 1 - fourFifths < quotient p q ↔ q ≤ 5 * p := by
  by_cases eighth : 2^3 * p < q
  · have low := quotient_low (by decide) divisor eighth
    have apart : (1 : ℚ) / 2^3 < 1 - fourFifths := by norm_num [fourFifths]
    constructor
    · intro passed
      linarith
    · intro enough
      omega
  · by_cases quarter : q ≤ 2^2 * p
    · have high := quotient_high (by decide) divisor quarter
      have below : 1 - fourFifths < 1 / 2^2 := by norm_num [fourFifths]
      constructor
      · intro _
        omega
      · intro _
        exact below.trans_le high
    · have exact_ := quotient_exact (by decide : 3 ≤ 1022) (by omega : q ≤ 2^3 * p) (by
        intro j few
        have power : 2^j * p ≤ 2^2 * p := Nat.mul_le_mul_right p (Nat.pow_le_pow_right (by decide) (by omega))
        omega)
      have counted : 1 - fourFifths < quotient p q ↔ 7205759403792793 ≤ nearest (2^(3 + 52) * p) q := by
        have bits : 1 - fourFifths = (7205759403792792 : Nat) / 2^(3 + 52) := by norm_num [fourFifths]
        rw [exact_,bits,div_lt_div_iff_of_pos_right (by positivity),Nat.cast_lt]
        exact Nat.lt_iff_add_one_le
      have reached := @le_nearest (2^(3 + 52) * p) q 7205759403792793 (by norm_num) divisor
      norm_num at reached
      rw [counted]
      norm_num
      rw [reached]
      omega

end DeepFry.Rounding
