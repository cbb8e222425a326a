import DeepFry.Lib.Growth
import DeepFry.WebOfTrust.Mutators

namespace DeepFry.WebOfTrust.Backoff
open Growth

-- The words of the source: a miss count, a ratio and durations of 64 bits, whose products wrap.
def min64 (a b : Int64) : Int64 := if a < b then a else b

-- The products the loop forms, and what it returns.
def grow (r cap : Int64) : Nat → Int64 → List Int64 × Int64
  | 0,result => ([],min64 result cap)
  | n+1,result =>
    if result > (cap - 1) / r then ([],cap)
    else
      let rest := grow r cap n (result * r)
      (result * r :: rest.1,rest.2)

def run (missCount base ratio cap : Int64) : List Int64 × Int64 :=
  if missCount ≤ 0 then ([],min64 base cap)
  else if ratio ≤ 1 then ([],min64 base cap)
  else grow ratio cap missCount.toInt.toNat base

def products (missCount base ratio cap : Int64) : List Int64 := (run missCount base ratio cap).1

def backoffInterval (missCount base ratio cap : Int64) : Int64 := (run missCount base ratio cap).2

theorem min64_toInt (a b : Int64) : (min64 a b).toInt = min a.toInt b.toInt := by
  unfold min64
  by_cases less : a < b
  · rw [if_pos less,min_eq_left (Int64.lt_iff_toInt_lt.mp less).le]
  · rw [if_neg less,min_eq_right]
    exact not_lt.mp fun under => less (Int64.lt_iff_toInt_lt.mpr under)

-- A result inside the word's range is the exact one.
theorem exact_word {v : Int} (low : -2 ^ 63 ≤ v) (high : v < 2 ^ 63) : v.bmod (2 ^ 64) = v := by
  apply Int.bmod_eq_of_le_mul_two
  · omega
  · omega

theorem quotient_toInt {cap r : Int64} (bounded : 0 < cap.toInt) (positive : 0 < r.toInt) :
    ((cap - 1) / r).toInt = (cap.toInt - 1).tdiv r.toInt := by
  have other : r ≠ -1 := by
    intro same
    rw [same] at positive
    exact absurd positive (by decide)
  have high := cap.toInt_lt
  rw [Int64.toInt_div_of_ne_right _ _ other,Int64.toInt_sub,Int64.toInt_one,exact_word (by omega) (by omega)]

-- A product below a cap of the same width does not wrap.
theorem product_toInt {cap r result : Int64} (positive : 0 < r.toInt) (started : 0 < result.toInt)
    (below : result.toInt * r.toInt < cap.toInt) : (result * r).toInt = result.toInt * r.toInt ∧ 0 < (result * r).toInt := by
  have high := cap.toInt_lt
  have low := mul_pos started positive
  have same : (result * r).toInt = result.toInt * r.toInt := by
    rw [Int64.toInt_mul,exact_word (by omega) (by omega)]
  exact ⟨same,same ▸ low⟩

section Loop
variable {r cap : Int64} (positive : 0 < r.toInt) (bounded : 0 < cap.toInt)
include positive bounded

theorem guard_words {result : Int64} : result > (cap - 1) / r ↔ cap.toInt ≤ result.toInt * r.toInt := by
  rw [gt_iff_lt,Int64.lt_iff_toInt_lt,quotient_toInt bounded positive]
  exact guard_iff positive bounded

theorem grow_reached (n : Nat) {result : Int64} (reached : cap.toInt ≤ result.toInt * r.toInt) : grow r cap (n + 1) result = ([],cap) := by
  rw [grow,if_pos ((guard_words positive bounded).mpr reached)]

theorem grow_further (n : Nat) {result : Int64} (below : result.toInt * r.toInt < cap.toInt) :
    grow r cap (n + 1) result = (result * r :: (grow r cap n (result * r)).1,(grow r cap n (result * r)).2) := by
  rw [grow,if_neg (not_le.mpr below ∘ (guard_words positive bounded).mp)]

-- The loop on words is the loop on whole numbers.
theorem grow_refines (n : Nat) {result : Int64} (started : 0 < result.toInt) :
    (grow r cap n result).2.toInt = backoffLoop r.toInt cap.toInt n result.toInt := by
  induction n generalizing result with
  | zero => exact min64_toInt result cap
  | succ n ih =>
    rw [backoffLoop]
    by_cases reached : cap.toInt ≤ result.toInt * r.toInt
    · rw [grow_reached positive bounded n reached,if_pos ((guard_iff positive bounded).mpr reached)]
    · have below := not_le.mp reached
      obtain ⟨same,next⟩ := product_toInt positive started below
      rw [grow_further positive bounded n below,if_neg (reached ∘ (guard_iff positive bounded).mp),←same]
      exact ih next

theorem grow_products (n : Nat) {result : Int64} (started : 0 < result.toInt) {i : Nat} {p : Int64}
    (formed : (grow r cap n result).1[i]? = some p) : p.toInt = result.toInt * r.toInt ^ (i + 1) ∧ p.toInt < cap.toInt := by
  induction n generalizing result i with
  | zero => simp [grow] at formed
  | succ n ih =>
    by_cases reached : cap.toInt ≤ result.toInt * r.toInt
    · rw [grow_reached positive bounded n reached] at formed
      simp at formed
    · have below := not_le.mp reached
      obtain ⟨same,next⟩ := product_toInt positive started below
      rw [grow_further positive bounded n below] at formed
      cases i with
      | zero =>
        obtain rfl : result * r = p := by simpa using formed
        rw [same,zero_add,pow_one]
        exact ⟨rfl,below⟩
      | succ i =>
        obtain ⟨value,least⟩ := ih next formed
        refine ⟨?_,least⟩
        rw [value,same]
        ring

end Loop

-- In whole numbers the loop is the formula.
theorem loop_capped {ratio cap : Int} (growing : 1 ≤ ratio) (bounded : 0 < cap) (n : Nat) {result : Int} (started : 0 < result) :
    backoffLoop ratio cap n result = capped result ratio cap n := by
  have positive : 0 < ratio := by omega
  induction n generalizing result with
  | zero => rw [backoffLoop,capped_zero]
  | succ n ih =>
    rw [backoffLoop]
    by_cases reached : cap ≤ result * ratio
    · rw [if_pos ((guard_iff positive bounded).mpr reached),capped_reached started growing reached]
    · rw [if_neg (reached ∘ (guard_iff positive bounded).mp),capped_succ]
      exact ih (mul_pos started positive)

theorem whole_capped {base ratio cap : Int} (started : 0 < base) (growing : 2 ≤ ratio) (bounded : 0 < cap) (missCount : Int) :
    WebOfTrust.backoffInterval missCount base ratio cap = capped base ratio cap missCount.toNat := by
  unfold WebOfTrust.backoffInterval
  by_cases none : missCount ≤ 0
  · rw [if_pos none,Int.toNat_of_nonpos none,capped_zero]
  · rw [if_neg none,if_neg (by omega)]
    exact loop_capped (by omega) bounded missCount.toNat started

-- The interval the mutations of the graph use is the one the words give.
theorem interval_refines {base cap : Int64} (started : 0 < base) (bounded : 0 < cap) (missCount ratio : Int64) :
    (backoffInterval missCount base ratio cap).toInt =
      WebOfTrust.backoffInterval missCount.toInt base.toInt ratio.toInt cap.toInt := by
  have counted : missCount ≤ 0 ↔ missCount.toInt ≤ 0 := Int64.le_iff_toInt_le
  have flat : ratio ≤ 1 ↔ ratio.toInt ≤ 1 := Int64.le_iff_toInt_le
  unfold backoffInterval run WebOfTrust.backoffInterval
  by_cases none : missCount.toInt ≤ 0
  · rw [if_pos (counted.mpr none),if_pos none,min64_toInt]
  · rw [if_neg (none ∘ counted.mp),if_neg none]
    by_cases still : ratio.toInt ≤ 1
    · rw [if_pos (flat.mpr still),if_pos still,min64_toInt]
    · rw [if_neg (still ∘ flat.mp),if_neg still]
      exact grow_refines (by omega) (Int64.lt_iff_toInt_lt.mp bounded) _ (Int64.lt_iff_toInt_lt.mp started)

section Exact
variable {base ratio cap : Int64} (started : 0 < base) (growing : 2 ≤ ratio) (bounded : 0 < cap)
include started growing bounded

theorem interval_capped (missCount : Int64) :
    (backoffInterval missCount base ratio cap).toInt = capped base.toInt ratio.toInt cap.toInt missCount.toInt.toNat := by
  rw [interval_refines started bounded]
  exact whole_capped (Int64.lt_iff_toInt_lt.mp started) (Int64.le_iff_toInt_le.mp growing) (Int64.lt_iff_toInt_lt.mp bounded) _

theorem interval_mono {fewer more : Int64} (ordered : fewer ≤ more) :
    backoffInterval fewer base ratio cap ≤ backoffInterval more base ratio cap := by
  have counts : fewer.toInt.toNat ≤ more.toInt.toNat := Int.toNat_le_toNat (Int64.le_iff_toInt_le.mp ordered)
  have growth : 2 ≤ ratio.toInt := Int64.le_iff_toInt_le.mp growing
  rw [Int64.le_iff_toInt_le,interval_capped started growing bounded,interval_capped started growing bounded]
  exact capped_mono (Int64.lt_iff_toInt_lt.mp started) (by omega) counts

theorem products_exact {missCount : Int64} {i : Nat} {p : Int64} (formed : (products missCount base ratio cap)[i]? = some p) :
    p.toInt = base.toInt * ratio.toInt ^ (i + 1) ∧ p.toInt < cap.toInt := by
  have growth : 2 ≤ ratio.toInt := Int64.le_iff_toInt_le.mp growing
  unfold products run at formed
  by_cases none : missCount ≤ 0
  · simp [none] at formed
  · rw [if_neg none] at formed
    by_cases still : ratio ≤ 1
    · simp [still] at formed
    · rw [if_neg still] at formed
      exact grow_products (by omega) (Int64.lt_iff_toInt_lt.mp bounded) _ (Int64.lt_iff_toInt_lt.mp started) formed

end Exact

theorem backoff_exact (base ratio cap : Int64) (started : 0 < base) (growing : 2 ≤ ratio) (bounded : 0 < cap) :
    (∀ missCount : Int64,
      (backoffInterval missCount base ratio cap).toInt = min (base.toInt * ratio.toInt ^ missCount.toInt.toNat) cap.toInt) ∧
    (∀ (missCount : Int64) (i : Nat) (p : Int64), (products missCount base ratio cap)[i]? = some p →
      p.toInt = base.toInt * ratio.toInt ^ (i + 1) ∧ p ≤ cap) ∧
    ∀ fewer more : Int64, fewer ≤ more → backoffInterval fewer base ratio cap ≤ backoffInterval more base ratio cap := by
  refine ⟨fun missCount => interval_capped started growing bounded missCount,?_,fun _ _ ordered => interval_mono started growing bounded ordered⟩
  intro missCount i p formed
  obtain ⟨value,below⟩ := products_exact started growing bounded formed
  exact ⟨value,Int64.le_iff_toInt_le.mpr below.le⟩

-- A cap that no product meets: two hours, doubled, under five.
theorem backoff_exact_five_hours :
    0 < (7200000000000 : Int64) ∧ (backoffInterval 1 7200000000000 2 18000000000000).toInt = 14400000000000 ∧
    products 9 7200000000000 2 18000000000000 = [14400000000000] ∧
    (backoffInterval 9 7200000000000 2 18000000000000).toInt = 18000000000000 := by
  have all := backoff_exact 7200000000000 2 18000000000000 (by decide) (by decide) (by decide)
  refine ⟨by decide,?_,by decide,?_⟩
  · rw [all.1]
    decide
  · rw [all.1]
    decide

end DeepFry.WebOfTrust.Backoff
