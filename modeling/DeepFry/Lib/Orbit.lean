import Mathlib.Data.Set.Finite.Basic
import Mathlib.Tactic

namespace DeepFry.Orbit

-- Library layer: the states a partial function passes from a start, what they weigh together, and what follows when one comes back.
variable {α : Type*} {f : α → Option α} {weight : α → Nat} {start : α}

def orbit (f : α → Option α) (start : α) : Nat → Option α
  | 0 => some start
  | k+1 => (orbit f start k).bind f

def total (f : α → Option α) (weight : α → Nat) (start : α) : Nat → Nat
  | 0 => 0
  | k+1 => total f weight start k + ((orbit f start k).map weight).getD 0

theorem orbit_add (k r : Nat) : orbit f start (k + r) = (orbit f start k).bind (orbit f · r) := by
  induction r with
  | zero =>
    cases orbit f start k <;> rfl
  | succ r ih =>
    rw [← Nat.add_assoc,orbit,ih]
    cases orbit f start k <;> rfl

theorem total_mono {k n : Nat} (earlier : k ≤ n) : total f weight start k ≤ total f weight start n := by
  induction earlier with
  | refl => exact le_refl _
  | step _ ih => exact ih.trans (Nat.le_add_right _ _)

section Cycle
variable {i p : Nat}

-- A state that comes back brings everything after it back.
theorem orbit_cycle (back : orbit f start i = orbit f start (i + p)) (r : Nat) : orbit f start (i + p + r) = orbit f start (i + r) := by
  rw [orbit_add,← back,← orbit_add]

theorem total_cycle (weight : α → Nat) (back : orbit f start i = orbit f start (i + p)) (r : Nat) :
    total f weight start (i + p + r) + total f weight start i = total f weight start (i + r) + total f weight start (i + p) := by
  induction r with
  | zero => exact Nat.add_comm _ _
  | succ r ih =>
    rw [← Nat.add_assoc,← Nat.add_assoc,total,total,orbit_cycle back]
    omega

theorem orbit_defined {c : α} (here : orbit f start i = some c) (back : orbit f start (i + p) = some c) (positive : 0 < p) (k : Nat) :
    (orbit f start k).isSome := by
  induction k using Nat.strongRecOn with
  | ind k earlier =>
    by_cases late : i + p ≤ k
    · obtain ⟨r,rfl⟩ := Nat.exists_eq_add_of_le late
      rw [orbit_cycle (here.trans back.symm)]
      exact earlier (i + r) (by omega)
    · by_contra gone
      have none : orbit f start k = none := Option.not_isSome_iff_eq_none.mp gone
      obtain ⟨r,same⟩ := Nat.exists_eq_add_of_le (Nat.le_of_lt (Nat.lt_of_not_le late))
      rw [same,orbit_add,none] at back
      cases back

-- Around a cycle without weight nothing is gained any more.
theorem total_flat (back : orbit f start i = orbit f start (i + p)) (positive : 0 < p)
    (flat : total f weight start i = total f weight start (i + p)) (k : Nat) : total f weight start k ≤ total f weight start (i + p) := by
  induction k using Nat.strongRecOn with
  | ind k earlier =>
    by_cases late : i + p ≤ k
    · obtain ⟨r,rfl⟩ := Nat.exists_eq_add_of_le late
      have same := total_cycle weight back r
      have before := earlier (i + r) (by omega)
      omega
    · exact total_mono (by omega)

-- Around a cycle with weight every total is reached.
theorem total_rises (back : orbit f start i = orbit f start (i + p))
    (rises : total f weight start i < total f weight start (i + p)) (n : Nat) : ∃ k, n ≤ total f weight start k := by
  have laps (m : Nat) : m ≤ total f weight start (i + m * p) := by
    induction m with
    | zero => exact Nat.zero_le _
    | succ m ih =>
      have lap := total_cycle weight back (m * p)
      have whole : i + p + m * p = i + (m + 1) * p := by
        rw [Nat.add_mul,Nat.one_mul]
        omega
      rw [whole] at lap
      omega
  exact ⟨i + n * p,laps n⟩

end Cycle

theorem orbit_repeats {states : Set α} (finite : states.Finite) (inside : ∀ k, ∃ c ∈ states, orbit f start k = some c) :
    ∃ i j, i < j ∧ ∃ c, orbit f start i = some c ∧ orbit f start j = some c := by
  choose state member here using inside
  have := finite.to_subtype
  obtain ⟨i,j,apart,same⟩ := Finite.exists_ne_map_eq_of_infinite fun k => (⟨state k,member k⟩ : states)
  have same : state i = state j := congrArg Subtype.val same
  rcases Nat.lt_or_gt_of_ne apart with less | more
  · exact ⟨i,j,less,state i,here i,by rw [same]; exact here j⟩
  · exact ⟨j,i,more,state i,by rw [same]; exact here j,here i⟩

end DeepFry.Orbit
