import DeepFry.Lib.Ascending
import DeepFry.Lib.Float64
import DeepFry.Lib.Rounding
import Mathlib.Data.Real.Basic

namespace DeepFry.GraphQLExplorer.Rate
open Ascending

-- BURST.
def windowSec : Nat := 60

def minEvents : Nat := 5

def binSec : Nat := 3600

def minTs : ℚ := 0

-- 2100-01-01T00:00:00Z.
def maxTs : ℚ := 4102444800

-- A number is the bits of its double.
def isSafeInteger (t : UInt64) : Bool := (Float64.value t).any fun v => decide (v.den = 1) && decide (|v| ≤ 2^53 - 1)

def isSaneTs (t : UInt64) : Bool := isSafeInteger t && (Float64.value t).any fun v => decide (minTs ≤ v) && decide (v ≤ maxTs)

-- The integer that a sane number is; the two zeros are one. Sums, differences and products of such integers are exact.
def seconds (t : UInt64) : Int := ((Float64.value t).getD 0).num

structure Bin where
  start : Int
  count : Nat
deriving DecidableEq

structure RateResult where
  analyzedCount : Nat
  rejectedCount : Nat
  bins : List Bin
  burstDetected : Bool
  tightestIntervalSec : Option Int
deriving DecidableEq

def flush (currentStart : Int) (count : Nat) : List Bin := if 0 < count then [⟨currentStart,count⟩] else []

-- The body of the loop; its state is the bins, the start of the current one and its count. The quotient is rounded before it is floored.
def binStep (binSec : Nat) (origin : Int) (s : List Bin × Int × Nat) (t : Int) : List Bin × Int × Nat :=
  if t ≥ s.2.1 + binSec then
    (s.1 ++ flush s.2.1 s.2.2,origin + ⌊Rounding.divide (t - origin).toNat binSec⌋ * binSec,1)
  else (s.1,s.2.1,s.2.2 + 1)

def binByInterval (binSec : Nat) : List Int → List Bin
  | [] => []
  | origin :: rest =>
    let s := (origin :: rest).foldl (binStep binSec origin) ([],origin,0)
    s.1 ++ flush s.2.1 s.2.2

-- None is Infinity, and null in the end.
def lower (tightest : Option Int) (gap : Int) : Option Int := if tightest.all (gap < ·) then some gap else tightest

def tightestGap (tightest : Option Int) : List Int → Option Int
  | a :: b :: rest => tightestGap (lower tightest (b - a)) (b :: rest)
  | _ => tightest

def burst (windowSec minEvents : Nat) : List Int → Bool
  | [] => false
  | t :: rest =>
    if minEvents ≤ ((t :: rest).takeWhile fun s => s - t ≤ windowSec).length then true
    else burst windowSec minEvents rest

-- The sort's comparison.
def ascending (a b : Int) : Bool := decide (a - b ≤ 0)

def sane (createdAts : List UInt64) : List Int := ((createdAts.filter isSaneTs).map seconds).mergeSort ascending

def analyzeRate (createdAts : List UInt64) : RateResult :=
  let sane := sane createdAts
  let rejectedCount := createdAts.length - sane.length
  if sane.length < 2 then ⟨sane.length,rejectedCount,[],false,none⟩
  else ⟨sane.length,rejectedCount,binByInterval binSec sane,burst windowSec minEvents sane,tightestGap none sane⟩

-- The multiset of the sane timestamps.
def times (createdAts : List UInt64) : Multiset Int := ((createdAts.filter isSaneTs).map seconds : List Int)

-- The plain algorithm: one bin after the other from the first timestamp to that of the last, without the empty ones.
def walk (binSec : Nat) (sane : List Int) : Nat → Int → List Bin
  | 0,_ => []
  | bins+1,start => flush start (sane.countP fun t => start ≤ t ∧ t < start + binSec) ++ walk binSec sane bins (start + binSec)

def plainBins (binSec : Nat) (sane : List Int) : List Bin :=
  let first := sane.headD 0
  let last := sane.getLastD 0
  walk binSec sane (((last - first) / binSec).toNat + 1) first

theorem isSaneTs_iff (t : UInt64) : isSaneTs t = true ↔ ∃ n : Nat, n ≤ 4102444800 ∧ Float64.value t = some (n : ℚ) := by
  unfold isSaneTs isSafeInteger
  cases number : Float64.value t with
  | none => simp
  | some v =>
    simp only [Option.any_some,Bool.and_eq_true,decide_eq_true_eq,Option.some.injEq]
    constructor
    · intro both
      obtain ⟨⟨whole,_⟩,low,high⟩ := both
      have integer : (v.num : ℚ) = v := Rat.coe_int_num_of_den_eq_one whole
      obtain ⟨n,same⟩ := Int.eq_ofNat_of_zero_le (Rat.num_nonneg.mpr low)
      have value : v = n := by rw [← integer,same,Int.cast_natCast]
      rw [value,maxTs] at high
      exact ⟨n,by exact_mod_cast high,value⟩
    · intro found
      obtain ⟨n,bounded,rfl⟩ := found
      have high : (n : ℚ) ≤ 4102444800 := by exact_mod_cast bounded
      refine ⟨⟨Rat.den_natCast n,?_⟩,?_,high⟩
      · rw [abs_of_nonneg (Nat.cast_nonneg n)]
        exact high.trans (by norm_num)
      · exact Nat.cast_nonneg n

theorem mem_times {createdAts : List UInt64} {t : Int} (member : t ∈ times createdAts) : 0 ≤ t ∧ t ≤ 4102444800 := by
  obtain ⟨bits,listed,rfl⟩ := List.mem_map.mp (Multiset.mem_coe.mp member)
  obtain ⟨n,bounded,value⟩ := (isSaneTs_iff bits).mp (List.mem_filter.mp listed).2
  rw [seconds,value,Option.getD_some,Rat.num_natCast]
  omega

theorem sane_times (createdAts : List UInt64) : (sane createdAts : Multiset Int) = times createdAts :=
  Multiset.coe_eq_coe.mpr (List.mergeSort_perm _ _)

theorem sane_ordered (createdAts : List UInt64) : (sane createdAts).Pairwise (· ≤ ·) := by
  have sorted : (sane createdAts).Pairwise fun a b => ascending a b = true := by
    apply List.pairwise_mergeSort
    · intro a b c
      simp only [ascending,decide_eq_true_eq]
      omega
    · intro a b
      simp only [ascending,Bool.or_eq_true,decide_eq_true_eq]
      omega
  apply sorted.imp
  intro a b least
  simp only [ascending,decide_eq_true_eq] at least
  omega

theorem sane_perm {one other : List UInt64} (same : one.Perm other) : sane one = sane other := by
  apply List.Perm.eq_of_pairwise (fun a b _ _ => le_antisymm) (sane_ordered one) (sane_ordered other)
  apply Multiset.coe_eq_coe.mp
  rw [sane_times,sane_times]
  exact Multiset.coe_eq_coe.mpr ((same.filter _).map _)

section Bins
variable {width : Nat} {origin : Int}

-- The number of a timestamp's bin.
def slot (width : Nat) (origin t : Int) : Nat := (t - origin).toNat / width

def bin (width : Nat) (origin : Int) (group : Nat × Nat) : Bin := ⟨origin + group.1 * width,group.2⟩

def drawn (width : Nat) (origin : Int) (s : List (Nat × Nat) × Nat × Nat) : List Bin × Int × Nat :=
  (s.1.map (bin width origin),origin + s.2.1 * width,s.2.2)

theorem flush_shut (k count : Nat) : flush (origin + k * width) count = (shut k count).map (bin width origin) := by
  unfold flush shut
  split
  · rfl
  · rfl

theorem slot_reached (positive : 0 < width) {t : Int} (later : origin ≤ t) (k : Nat) :
    k ≤ slot width origin t ↔ origin + k * width ≤ t := by
  obtain ⟨d,apart⟩ := Int.eq_ofNat_of_zero_le (by omega : 0 ≤ t - origin)
  rw [slot,apart,Int.toNat_natCast,Nat.le_div_iff_mul_le positive]
  zify
  omega

-- The jump lands on the bin that single steps would reach.
theorem binStep_drawn (positive : 0 < width) (narrow : width < 2^53) {t : Int} (later : origin ≤ t) (near : t - origin < 2^53)
    (s : List (Nat × Nat) × Nat × Nat) : binStep width origin (drawn width origin s) t = drawn width origin (advance s (slot width origin t)) := by
  have floor : ⌊Rounding.divide (t - origin).toNat width⌋ = (slot width origin t : Nat) :=
    Rounding.divide_floor positive (by omega) narrow
  have passes : t ≥ (drawn width origin s).2.1 + width ↔ s.2.1 < slot width origin t := by
    rw [← Nat.succ_le_iff,slot_reached positive later,drawn]
    push_cast
    rw [add_mul,one_mul,← add_assoc]
  unfold binStep advance
  by_cases beyond : s.2.1 < slot width origin t
  · rw [if_pos beyond,if_pos (passes.mpr beyond),floor]
    simp only [drawn,flush_shut,List.map_append]
  · rw [if_neg beyond,if_neg (beyond ∘ passes.mp)]
    rfl

theorem foldl_drawn (positive : 0 < width) (narrow : width < 2^53) (items : List Int) (later : ∀ t ∈ items, origin ≤ t ∧ t - origin < 2^53)
    (s : List (Nat × Nat) × Nat × Nat) :
    items.foldl (binStep width origin) (drawn width origin s) = drawn width origin ((items.map (slot width origin)).foldl advance s) := by
  induction items generalizing s with
  | nil => rfl
  | cons t items ih =>
    have here := later t List.mem_cons_self
    rw [List.foldl_cons,binStep_drawn positive narrow here.1 here.2,ih fun u member => later u (List.mem_cons_of_mem t member)]
    rfl

-- A walk counts the timestamps of each slot.
theorem walk_tally (positive : 0 < width) (items : List Int) (later : ∀ t ∈ items, origin ≤ t) (k size : Nat) :
    walk width items size (origin + k * width) = (tallyFrom (items.map (slot width origin)) k size).map (bin width origin) := by
  induction size generalizing k with
  | zero => rfl
  | succ size ih =>
    have next : origin + (k : Int) * width + width = origin + (k + 1 : Nat) * width := by
      push_cast
      ring
    have counted : items.countP (fun t => decide (origin + k * width ≤ t ∧ t < origin + k * width + width)) =
        (items.map (slot width origin)).count k := by
      rw [List.count_eq_countP,List.countP_map]
      apply List.countP_congr
      intro t member
      have reached := slot_reached positive (later t member) k
      have passed := slot_reached positive (later t member) (k + 1)
      rw [← next] at passed
      simp only [Function.comp_apply,decide_eq_true_eq,beq_iff_eq]
      omega
    rw [walk,counted,flush_shut,next,ih,← List.map_append,← tallyFrom_cons]

-- The pass over ascending timestamps and the walk agree.
theorem bins_tally (positive : 0 < width) (narrow : width < 2^53) {items : List Int} (ordered : items.Pairwise (· ≤ ·))
    (bounded : ∀ t ∈ items, 0 ≤ t ∧ t ≤ 4102444800) :
    binByInterval width items = (tallyFrom (items.map (slot width (items.headD 0))) 0 (slot width (items.headD 0) (items.getLastD 0) + 1)).map
      (bin width (items.headD 0)) := by
  cases items with
  | nil => simp [binByInterval,tallyFrom]
  | cons origin rest =>
    have low := bounded origin List.mem_cons_self
    have later : ∀ t ∈ origin :: rest, origin ≤ t ∧ t - origin < 2^53 := by
      intro t member
      have high := bounded t member
      have above : origin ≤ t := ordered.rel_head member
      omega
    have rising : (0 :: (origin :: rest).map (slot width origin)).Pairwise (· ≤ ·) := by
      apply List.pairwise_cons.mpr
      constructor
      · exact fun k _ => Nat.zero_le k
      · rw [List.pairwise_map]
        apply ordered.imp
        intro a b less
        exact Nat.div_le_div_right (by omega)
    have start : ([],origin,0) = drawn width origin (passed [] 0) := by simp [drawn,passed,tallyFrom]
    have last : (0 :: (origin :: rest).map (slot width origin)).getLast (List.cons_ne_nil _ _) = slot width origin ((origin :: rest).getLastD 0) := by
      rw [List.getLast_cons (by simp),List.getLast_map]
      rfl
    have final := foldl_passed ((origin :: rest).map (slot width origin)) (fun y member => absurd member List.not_mem_nil) rising
    rw [last,List.nil_append] at final
    rw [binByInterval,start,foldl_drawn positive narrow _ later,final]
    simp only [drawn,passed,flush_shut,← List.map_append,← tallyFrom_last]
    rfl

theorem bins_plain (positive : 0 < width) (narrow : width < 2^53) {items : List Int} (ordered : items.Pairwise (· ≤ ·))
    (bounded : ∀ t ∈ items, 0 ≤ t ∧ t ≤ 4102444800) : binByInterval width items = plainBins width items := by
  rw [bins_tally positive narrow ordered bounded,plainBins]
  cases items with
  | nil => simp [tallyFrom,walk,flush]
  | cons origin rest =>
    have later : ∀ t ∈ origin :: rest, origin ≤ t := fun t member => ordered.rel_head member
    have walked := walk_tally positive (origin :: rest) later 0 (slot width origin ((origin :: rest).getLastD 0) + 1)
    have slots : (((origin :: rest).getLastD 0 - origin) / width).toNat = slot width origin ((origin :: rest).getLastD 0) := by
      have above := later ((origin :: rest).getLastD 0) (by rw [List.getLastD_cons]; exact List.getLastD_mem_cons)
      obtain ⟨d,apart⟩ := Int.eq_ofNat_of_zero_le (by omega : 0 ≤ (origin :: rest).getLastD 0 - origin)
      rw [slot,apart,Int.toNat_natCast]
      norm_cast
    rw [Nat.cast_zero,zero_mul,add_zero] at walked
    simp only [List.headD_cons,slots,walked]

theorem bins_rising (keys : List Nat) (size : Nat) :
    ((tallyFrom keys 0 size).map (bin width origin)).Pairwise fun a b : Bin => ∃ k : Nat, 0 < k ∧ b.start = a.start + k * width := by
  rw [List.pairwise_map]
  apply (tallyFrom_rising keys 0 size).imp
  intro a b less
  refine ⟨b.1 - a.1,by omega,?_⟩
  simp only [bin]
  push_cast [less.le]
  ring

end Bins

-- A window of the source starts at a timestamp; another one can be moved to its first.
theorem burst_iff {window least : Nat} (some : 0 < least) {items : List Int} (ordered : items.Pairwise (· ≤ ·)) :
    burst window least items = true ↔ ∃ x : ℝ, least ≤ items.countP fun t : Int => decide (x ≤ t ∧ t ≤ x + window) := by
  induction items with
  | nil => simp [burst]; omega
  | cons a rest ih =>
    obtain ⟨_,tail⟩ := List.pairwise_cons.mp ordered
    have counted : ((a :: rest).takeWhile fun s => decide (s - a ≤ window)).length = (a :: rest).countP fun s => decide (s - a ≤ window) := by
      rw [takeWhile_filter ordered,List.countP_eq_length_filter]
      intro s t less held
      rw [decide_eq_true_eq] at held ⊢
      omega
    have above : ∀ s ∈ a :: rest, a ≤ s := fun s member => ordered.rel_head member
    rw [burst,counted]
    by_cases crowd : least ≤ (a :: rest).countP fun s => decide (s - a ≤ window)
    · rw [if_pos crowd]
      refine ⟨fun _ => ⟨a,crowd.trans (List.countP_mono_left ?_)⟩,fun _ => rfl⟩
      intro s member near
      rw [decide_eq_true_eq] at near ⊢
      have reach : s ≤ a + window := by omega
      exact ⟨by exact_mod_cast above s member,by exact_mod_cast reach⟩
    · rw [if_neg crowd,ih tail]
      constructor
      · intro found
        obtain ⟨x,many⟩ := found
        exact ⟨x,many.trans (List.Sublist.countP_le (List.sublist_cons_self a rest))⟩
      · intro found
        obtain ⟨x,many⟩ := found
        by_cases inside : x ≤ a ∧ a ≤ x + window
        · exfalso
          apply crowd
          apply many.trans (List.countP_mono_left ?_)
          intro s _ held
          rw [decide_eq_true_eq] at held ⊢
          have reach : (s : ℝ) ≤ a + window := by linarith
          have whole : s ≤ a + window := by exact_mod_cast reach
          omega
        · rw [List.countP_cons_of_neg (by simpa using inside)] at many
          exact ⟨x,many⟩

theorem lower_some (tightest : Option Int) (gap : Int) : ∃ d, lower tightest gap = some d ∧ d ≤ gap ∧ ∀ g ∈ tightest, d ≤ g := by
  cases tightest with
  | none => exact ⟨gap,rfl,le_rfl,fun g none => absurd none (by simp)⟩
  | some old =>
    by_cases less : gap < old
    · exact ⟨gap,by simp [lower,less],le_rfl,by simpa using less.le⟩
    · exact ⟨old,by simp [lower,less],not_lt.mp less,by simp⟩

theorem lower_either (tightest : Option Int) (gap : Int) : lower tightest gap = some gap ∨ lower tightest gap = tightest := by
  unfold lower
  split
  · exact .inl rfl
  · exact .inr rfl

-- The least distance of all pairs lies between neighbours.
theorem tightestGap_iff {items : List Int} (ordered : items.Pairwise (· ≤ ·)) (tightest : Option Int) (d : Int) :
    tightestGap tightest items = some d ↔ IsLeast ({g | tightest = some g} ∪ differences items) d := by
  induction items generalizing tightest with
  | nil =>
    rw [Multiset.coe_nil,differences_zero,Set.union_empty,isLeast_option]
    rfl
  | cons a items ih =>
    cases items with
    | nil =>
      rw [Multiset.coe_singleton,differences_single,Set.union_empty,isLeast_option]
      rfl
    | cons b rest =>
      obtain ⟨first,tail⟩ := List.pairwise_cons.mp ordered
      obtain ⟨low,lowered,below,under⟩ := lower_some tightest (b - a)
      have next := first b List.mem_cons_self
      rw [tightestGap,ih tail,← Multiset.cons_coe a,differences_cons]
      apply isLeast_covered
      · intro g either
        obtain here | further := either
        · obtain gap | kept := lower_either tightest (b - a)
          · obtain rfl : b - a = g := Option.some.inj (gap.symm.trans here)
            refine .inr (.inr ⟨b,Multiset.mem_coe.mpr List.mem_cons_self,?_⟩)
            rw [abs_sub_comm,abs_of_nonneg (by omega)]
          · exact .inl (kept.symm.trans here)
        · exact .inr (.inl further)
      · intro g either
        obtain old | inner | ⟨y,member,rfl⟩ := either
        · exact ⟨low,.inl lowered,under g old⟩
        · exact ⟨g,.inr inner,le_rfl⟩
        · -- From the first entry no other one is nearer than the second.
          refine ⟨low,.inl lowered,?_⟩
          have far : b ≤ y := tail.rel_head (Multiset.mem_coe.mp member)
          rw [abs_sub_comm,abs_of_nonneg (by omega)]
          omega

theorem tightestGap_none {items : List Int} (tightest : Option Int) :
    tightestGap tightest items = none ↔ tightest = none ∧ items.length < 2 := by
  induction items generalizing tightest with
  | nil => simp [tightestGap]
  | cons a items ih =>
    cases items with
    | nil => simp [tightestGap]
    | cons b rest =>
      obtain ⟨low,lowered,_⟩ := lower_some tightest (b - a)
      rw [tightestGap,ih,lowered]
      simp

section Analyzed
variable (createdAts : List UInt64)

theorem sane_bounded : ∀ t ∈ sane createdAts, 0 ≤ t ∧ t ≤ 4102444800 := by
  intro t member
  have inside : t ∈ times createdAts := by
    rw [← sane_times]
    exact Multiset.mem_coe.mpr member
  exact mem_times inside

theorem analyzed_count : (analyzeRate createdAts).analyzedCount = (sane createdAts).length := by
  unfold analyzeRate
  by_cases few : (sane createdAts).length < 2
  · rw [if_pos few]
  · rw [if_neg few]

theorem analyzed_bins : (analyzeRate createdAts).bins =
    if 2 ≤ (analyzeRate createdAts).analyzedCount then binByInterval binSec (sane createdAts) else [] := by
  rw [analyzed_count]
  unfold analyzeRate
  by_cases few : (sane createdAts).length < 2
  · rw [if_pos few,if_neg (not_le.mpr few)]
  · rw [if_neg few,if_pos (not_lt.mp few)]

-- With fewer than two timestamps the loops would find nothing either.
theorem analyzed_burst : (analyzeRate createdAts).burstDetected = burst windowSec minEvents (sane createdAts) := by
  unfold analyzeRate
  by_cases few : (sane createdAts).length < 2
  · rw [if_pos few]
    cases found : burst windowSec minEvents (sane createdAts) with
    | false => rfl
    | true =>
      obtain ⟨x,many⟩ := (burst_iff (by decide) (sane_ordered createdAts)).mp found
      have most := many.trans List.countP_le_length
      have five : minEvents = 5 := rfl
      omega
  · rw [if_neg few]

theorem analyzed_gap : (analyzeRate createdAts).tightestIntervalSec = tightestGap none (sane createdAts) := by
  unfold analyzeRate
  by_cases few : (sane createdAts).length < 2
  · rw [if_pos few]
    exact ((tightestGap_none none).mpr ⟨rfl,few⟩).symm
  · rw [if_neg few]

theorem binned_sum : ((binByInterval binSec (sane createdAts)).map (·.count)).sum = (sane createdAts).length := by
  rw [bins_tally (by decide) (by decide) (sane_ordered createdAts) (sane_bounded createdAts),List.map_map]
  have last : ∀ t ∈ sane createdAts, t ≤ (sane createdAts).getLastD 0 := by
    intro t member
    rw [List.getLastD_eq_getLast?,List.getLast?_eq_some_getLast (List.ne_nil_of_mem member)]
    exact (sane_ordered createdAts).rel_getLast member
  have bounded : ∀ k ∈ (sane createdAts).map (slot binSec ((sane createdAts).headD 0)),
      k < slot binSec ((sane createdAts).headD 0) ((sane createdAts).getLastD 0) + 1 := by
    intro k member
    obtain ⟨t,listed,rfl⟩ := List.mem_map.mp member
    apply Nat.lt_succ_of_le (Nat.div_le_div_right _)
    have less := last t listed
    omega
  have summed := tallyFrom_sum bounded
  rw [List.length_map] at summed
  exact summed

end Analyzed

theorem rate_exact (createdAts : List UInt64) :
    (∀ other, createdAts.Perm other → analyzeRate other = analyzeRate createdAts) ∧
    (analyzeRate createdAts).analyzedCount = (times createdAts).card ∧
    ((analyzeRate createdAts).bins =
      if 2 ≤ (analyzeRate createdAts).analyzedCount then plainBins binSec (sane createdAts) else []) ∧
    ((analyzeRate createdAts).bins.Pairwise fun a b : Bin => ∃ k : Nat, 0 < k ∧ b.start = a.start + k * binSec) ∧
    (2 ≤ (analyzeRate createdAts).analyzedCount →
      ((analyzeRate createdAts).bins.map (·.count)).sum = (analyzeRate createdAts).analyzedCount) ∧
    ((analyzeRate createdAts).burstDetected = true ↔
      ∃ x : ℝ, minEvents ≤ (times createdAts).countP fun t : Int => x ≤ t ∧ t ≤ x + windowSec) ∧
    (∀ d, (analyzeRate createdAts).tightestIntervalSec = some d ↔ IsLeast (differences (times createdAts)) d) ∧
    ((analyzeRate createdAts).tightestIntervalSec = none ↔ (analyzeRate createdAts).analyzedCount < 2) := by
  have counted : (sane createdAts).length = (times createdAts).card := by
    rw [← sane_times,Multiset.coe_card]
  refine ⟨?_,?_,?_,?_,?_,?_,?_,?_⟩
  · intro other same
    unfold analyzeRate
    rw [sane_perm same,same.length_eq]
  · rw [analyzed_count,counted]
  · rw [analyzed_bins,bins_plain (by decide) (by decide) (sane_ordered createdAts) (sane_bounded createdAts)]
  · rw [analyzed_bins]
    split
    · rw [bins_tally (by decide) (by decide) (sane_ordered createdAts) (sane_bounded createdAts)]
      exact bins_rising _ _
    · exact List.Pairwise.nil
  · intro enough
    rw [analyzed_bins,if_pos enough,binned_sum,analyzed_count]
  · rw [analyzed_burst,burst_iff (by decide) (sane_ordered createdAts),← sane_times]
    simp only [Multiset.coe_countP]
  · intro d
    rw [analyzed_gap,tightestGap_iff (sane_ordered createdAts),sane_times]
    simp
  · rw [analyzed_gap,analyzed_count,tightestGap_none]
    simp

end DeepFry.GraphQLExplorer.Rate
