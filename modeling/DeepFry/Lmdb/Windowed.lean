import DeepFry.Lmdb.Scan

namespace DeepFry.Lmdb
open Bytes

-- The scans of scan.rs over any ordered multimap, whatever the dates of its entries.
section Multimap
variable {name : IndexName} (index : Multimap name) (direction : ScanDirection)

def Multimap.bounded : Bound → List Entry := fun bound =>
  match direction with
  | .Forward => index.range bound
  | .Reverse => index.revRange bound

def startBound (startKey : Bytes) : Bound := windowBound direction startKey true

def Multimap.collectBounded (startKey : Bytes) (limit : Nat) : List Entry := (index.bounded direction (startBound direction startKey)).take limit

def Multimap.collectWindow (resumeKey : Bytes) (firstBatch : Bool) (windowSize : Nat) : List Entry :=
  Window.fill Prod.fst windowSize [] (index.bounded direction (windowBound direction resumeKey firstBatch))

-- The windows in order; the first one that is empty ends the walk.
def Multimap.scanWindows (windowSize : Nat) : Nat → Bytes → Bool → List (List Entry)
  | 0,_,_ => []
  | windows+1,resumeKey,firstBatch =>
    let batch := index.collectWindow direction resumeKey firstBatch windowSize
    match batch.getLast? with
    | none => []
    | some last => batch :: Multimap.scanWindows windowSize windows last.1 false

-- What one range scan without bounds of its own reads: the entries at or behind the start key, duplicates and all.
def Multimap.rangeScan (startKey : Bytes) : List Entry := index.bounded direction (.Included startKey)

end Multimap

section Index
variable {name : IndexName}

theorem collectBounded_multimap (index : Index name) (direction : ScanDirection) (startKey : Bytes) (limit : Nat) :
    collectBounded index direction startKey limit = index.toMultimap.collectBounded direction startKey limit := by
  cases direction <;> rfl

theorem collectWindow_multimap (index : Index name) (direction : ScanDirection) (resumeKey : Bytes) (firstBatch : Bool) (windowSize : Nat) :
    collectWindow index direction resumeKey firstBatch windowSize = index.toMultimap.collectWindow direction resumeKey firstBatch windowSize := by
  cases direction <;> rfl

theorem scanWindows_multimap (env : Env) (direction : ScanDirection) (windowSize windows : Nat) (resumeKey : Bytes) (firstBatch : Bool) :
    scanWindows env name direction windowSize windows resumeKey firstBatch =
      ((env.index name).toMultimap.scanWindows direction windowSize windows resumeKey firstBatch).flatten := by
  induction windows generalizing resumeKey firstBatch with
  | zero => rfl
  | succ windows ih =>
    rw [scanWindows,Multimap.scanWindows,collectWindow_multimap]
    cases (Multimap.collectWindow (env.index name).toMultimap direction resumeKey firstBatch windowSize).getLast? with
    | none => rfl
    | some last => exact congrArg (_ ++ ·) (ih last.1 false)

end Index

section Ranks
variable {name : IndexName} {a b : Bytes}

-- The keys that a comparator takes without aborting the process.
def IndexName.Accepts (name : IndexName) (key : Bytes) : Prop :=
  match name with
  | .Event__id | .Event__pubkey | .Event__tag => 8 ≤ key.length
  | .Event__created_at => key.length = 8
  | .Event__kind => key.length = 16
  | .Event__pubkeyKind => 16 ≤ key.length

theorem layout_accepts (layout : name.Layout a) : name.Accepts a := by
  cases name <;> simp only [IndexName.Layout,IndexName.Accepts] at layout ⊢ <;> omega

theorem accepts_eight (accepts : name.Accepts a) : 8 ≤ a.length := by
  cases name <;> simp only [IndexName.Accepts] at accepts <;> omega

theorem accepts_rank (left : name.Accepts a) (right : name.Accepts b) : Agrees (name.cmp a b) (name.keyRank a) (name.keyRank b) := by
  apply cmp_suffix (accepts_eight left) (accepts_eight right)
  rintro rfl
  exact ⟨left,right⟩

theorem gt_rank (agrees : Agrees (name.cmp a b) (name.keyRank a) (name.keyRank b)) :
    name.cmp a b = .gt ↔ name.keyRank b < name.keyRank a := by
  cases order : name.cmp a b with
  | lt =>
    have less := agrees.1.mp order
    simp [less.not_gt]
  | eq =>
    have same := agrees.2.mp order
    simp [same]
  | gt =>
    have notLess : ¬ name.keyRank a < name.keyRank b := by rw [← agrees.1,order]; simp
    have notSame : ¬ name.keyRank a = name.keyRank b := by rw [← agrees.2,order]; simp
    simp only [true_iff]
    exact lt_of_le_of_ne (not_lt.mp notLess) (Ne.symm notSame)

end Ranks

section Bounds
variable {name : IndexName} {bound key other : Bytes}

def Bound.Accepts (name : IndexName) : Bound → Prop
  | .Included key | .Excluded key => name.Accepts key
  | .Unbounded => True

theorem lower_included (left : name.Accepts key) (right : name.Accepts bound) :
    (Bound.Included bound).aboveLower name key = true ↔ name.keyRank bound ≤ name.keyRank key := by
  simp only [Bound.aboveLower,bne_iff_ne,ne_eq,(accepts_rank left right).1,not_lt]

theorem lower_excluded (left : name.Accepts key) (right : name.Accepts bound) :
    (Bound.Excluded bound).aboveLower name key = true ↔ name.keyRank bound < name.keyRank key := by
  simp only [Bound.aboveLower,beq_iff_eq,gt_rank (accepts_rank left right)]

theorem upper_included (left : name.Accepts key) (right : name.Accepts bound) :
    (Bound.Included bound).belowUpper name key = true ↔ name.keyRank key ≤ name.keyRank bound := by
  simp only [Bound.belowUpper,bne_iff_ne,ne_eq,gt_rank (accepts_rank left right),not_lt]

theorem upper_excluded (left : name.Accepts key) (right : name.Accepts bound) :
    (Bound.Excluded bound).belowUpper name key = true ↔ name.keyRank key < name.keyRank bound := by
  simp only [Bound.belowUpper,beq_iff_eq,(accepts_rank left right).1]

-- A lower bound that a key passes, every key above it passes.
theorem lower_upward {lower : Bound} (accepts : lower.Accepts name) (left : name.Accepts key) (right : name.Accepts other)
    (passes : lower.aboveLower name key = true) (above : name.keyRank key < name.keyRank other) : lower.aboveLower name other = true := by
  cases lower with
  | Included bound => exact (lower_included right accepts).mpr (((lower_included left accepts).mp passes).trans above.le)
  | Excluded bound => exact (lower_excluded right accepts).mpr (((lower_excluded left accepts).mp passes).trans above)
  | Unbounded => rfl

theorem upper_downward {upper : Bound} (accepts : upper.Accepts name) (left : name.Accepts key) (right : name.Accepts other)
    (passes : upper.belowUpper name key = true) (below : name.keyRank other < name.keyRank key) : upper.belowUpper name other = true := by
  cases upper with
  | Included bound => exact (upper_included right accepts).mpr (below.le.trans ((upper_included left accepts).mp passes))
  | Excluded bound => exact (upper_excluded right accepts).mpr (below.trans ((upper_excluded left accepts).mp passes))
  | Unbounded => rfl

-- One tick above the start key is the bound that lets its own duplicates in.
theorem reverseBound_next {startKey : Bytes} (accepts : name.Accepts startKey) (early : createdAtFromKey startKey < u64Max) :
    ∃ next, reverseBound startKey = .Excluded next ∧ name.Accepts next ∧
      ∀ key, name.keyRank key < name.keyRank next ↔ name.keyRank key ≤ name.keyRank startKey := by
  have long := accepts_eight accepts
  have stamp := createdAt_suffix long
  have room : fromLe (suffix 8 startKey) + 1 < 2^64 := by
    rw [← stamp]
    unfold u64Max at early
    omega
  refine ⟨compositeKey (valuePart startKey) (createdAtFromKey startKey + 1),?_,?_,?_⟩
  · unfold reverseBound reverseUpperBound
    rw [if_neg (by omega)]
    simp only [room,if_true]
    rw [← stamp]
    rfl
  · have width : (compositeKey (valuePart startKey) (createdAtFromKey startKey + 1)).length = startKey.length := by
      rw [composite_length,valuePart,stem_length]
      omega
    unfold IndexName.Accepts at accepts ⊢
    rw [width]
    exact accepts
  · intro key
    rw [← stamp] at room
    unfold IndexName.keyRank
    rw [composite_value,composite_createdAt _ room,Prod.Lex.toLex_lt_toLex,Prod.Lex.toLex_le_toLex,Nat.lt_succ_iff]

end Bounds

section Exact
variable {name : IndexName} {index : Multimap name} {direction : ScanDirection} {startKey : Bytes}

theorem mem_bounded (index : Multimap name) (direction : ScanDirection) {bound : Bound} {entry : Entry} (listed : entry ∈ index.bounded direction bound) : entry ∈ index.entries := by
  cases direction with
  | Forward => exact List.mem_of_mem_filter listed
  | Reverse => exact List.mem_of_mem_filter (List.mem_reverse.mp listed)

theorem bounded_length (index : Multimap name) (direction : ScanDirection) (bound : Bound) : (index.bounded direction bound).length ≤ index.entries.length := by
  cases direction with
  | Forward => exact List.length_filter_le _ _
  | Reverse =>
    change (List.reverse _).length ≤ _
    rw [List.length_reverse]
    exact List.length_filter_le _ _

-- What is left after a key, when the walk resumes behind it: no entry is lost and none comes again.
structure Resumes {ρ : Type} [Preorder ρ] (index : Multimap name) (direction : ScanDirection) (rank : Bytes → ρ) : Prop where
  falling : ∀ bound, Window.Falling Prod.fst rank (index.bounded direction bound)
  behind : ∀ bound, bound.Accepts name → ∀ last ∈ index.bounded direction bound, ∃ below : Entry → Bool,
    index.bounded direction (.Excluded last.1) = (index.bounded direction bound).filter below ∧
      ∀ entry ∈ index.bounded direction bound, below entry = true ↔ rank entry.1 < rank last.1

theorem resumes_forward (index : Multimap name) : Resumes index .Forward fun key => OrderDual.toDual (name.keyRank key) where
  falling bound := by
    refine (index.rising.filter _).imp ?_
    intro a b step
    cases step with
    | inl less => exact .inr less
    | inr same => exact .inl same.1
  behind bound accepts last listed := by
    have stored := mem_bounded index .Forward listed
    have passes : bound.aboveLower name last.1 = true := (List.mem_filter.mp listed).2
    have right := layout_accepts (index.width last stored)
    refine ⟨fun entry => (Bound.Excluded last.1).aboveLower name entry.1,?_,?_⟩
    · change index.entries.filter _ = (index.entries.filter _).filter _
      rw [List.filter_filter]
      apply List.filter_congr
      intro entry member
      have left := layout_accepts (index.width entry member)
      by_cases above : (Bound.Excluded last.1).aboveLower name entry.1 = true
      · rw [above,lower_upward accepts right left passes ((lower_excluded left right).mp above)]
        rfl
      · rw [Bool.eq_false_iff.mpr above,Bool.false_and]
    · intro entry member
      exact lower_excluded (layout_accepts (index.width entry (mem_bounded index .Forward member))) right

theorem resumes_reverse (index : Multimap name) : Resumes index .Reverse name.keyRank where
  falling bound := by
    change ((index.entries.filter _).reverse).Pairwise _
    rw [List.pairwise_reverse]
    refine (index.rising.filter _).imp ?_
    intro a b step
    cases step with
    | inl less => exact .inr less
    | inr same => exact .inl same.1.symm
  behind bound accepts last listed := by
    have stored := mem_bounded index .Reverse listed
    have passes : bound.belowUpper name last.1 = true := (List.mem_filter.mp (List.mem_reverse.mp listed)).2
    have right := layout_accepts (index.width last stored)
    refine ⟨fun entry => (Bound.Excluded last.1).belowUpper name entry.1,?_,?_⟩
    · change (index.entries.filter _).reverse = ((index.entries.filter _).reverse).filter _
      rw [List.filter_reverse,List.filter_filter]
      congr 1
      apply List.filter_congr
      intro entry member
      have left := layout_accepts (index.width entry member)
      by_cases below : (Bound.Excluded last.1).belowUpper name entry.1 = true
      · rw [below,upper_downward accepts right left passes ((upper_excluded left right).mp below)]
        rfl
      · rw [Bool.eq_false_iff.mpr below,Bool.false_and]
    · intro entry member
      exact upper_excluded (layout_accepts (index.width entry (mem_bounded index .Reverse member))) right

-- The walk from any bound: the windows are what the bound lets through, cut at key boundaries.
theorem Resumes.windows {ρ : Type} [Preorder ρ] {rank : Bytes → ρ} (resumes : Resumes index direction rank) {windowSize : Nat}
    (positive : 0 < windowSize) (windows : Nat) (resumeKey : Bytes) (firstBatch : Bool)
    (accepts : (windowBound direction resumeKey firstBatch).Accepts name)
    (enough : (index.bounded direction (windowBound direction resumeKey firstBatch)).length < windows) :
    (index.scanWindows direction windowSize windows resumeKey firstBatch).flatten =
      index.bounded direction (windowBound direction resumeKey firstBatch) := by
  induction windows generalizing resumeKey firstBatch with
  | zero => omega
  | succ windows ih =>
    let items := index.bounded direction (windowBound direction resumeKey firstBatch)
    obtain ⟨rest,cut⟩ := Window.fill_cut Prod.fst windowSize [] items (.inl positive)
    rw [List.nil_append] at cut
    rw [Multimap.scanWindows]
    have batch : index.collectWindow direction resumeKey firstBatch windowSize = Window.fill Prod.fst windowSize [] items := rfl
    cases final : (index.collectWindow direction resumeKey firstBatch windowSize).getLast? with
    | none =>
      have empty : items = [] := by
        by_contra more
        rw [List.getLast?_eq_none_iff] at final
        exact Window.fill_nonempty Prod.fst positive more final
      exact empty.symm
    | some last =>
      rw [batch] at final
      have inside : last ∈ items := by
        rw [cut.split]
        exact List.mem_append_left _ (List.mem_of_mem_getLast? final)
      obtain ⟨below,excluded,means⟩ := resumes.behind _ accepts last inside
      have left := cut.rest_filter (resumes.falling _) final below means
      rw [← left] at excluded
      have resumed : windowBound direction last.1 false = .Excluded last.1 := by cases direction <;> rfl
      have shorter : rest.length < windows := by
        have lengths := congrArg List.length cut.split
        have some_batch := List.length_pos_of_mem (List.mem_of_mem_getLast? final)
        rw [List.length_append] at lengths
        change items.length < windows + 1 at enough
        omega
      have later := ih last.1 false (by rw [resumed]; exact layout_accepts (index.width last (mem_bounded index direction inside)))
        (by rw [resumed,excluded]; exact shorter)
      rw [resumed,excluded] at later
      rw [batch]
      simp only [List.flatten_cons]
      rw [later]
      exact cut.split.symm

-- The bound of the first window lets through what a range scan from the start key reads.
theorem start_bound (index : Multimap name) (direction : ScanDirection) (accepts : name.Accepts startKey)
    (early : createdAtFromKey startKey < u64Max) : (startBound direction startKey).Accepts name ∧
      index.bounded direction (startBound direction startKey) = index.rangeScan direction startKey := by
  cases direction with
  | Forward => exact ⟨accepts,rfl⟩
  | Reverse =>
    obtain ⟨next,bound,fine,same⟩ := reverseBound_next accepts early
    have first : startBound .Reverse startKey = .Excluded next := bound
    rw [first]
    refine ⟨fine,?_⟩
    change (index.entries.filter _).reverse = (index.entries.filter _).reverse
    congr 1
    apply List.filter_congr
    intro entry member
    have left := layout_accepts (index.width entry member)
    rw [Bool.eq_iff_iff,upper_excluded left fine,upper_included left accepts]
    exact same entry.1

-- Windows of any size, in both directions, give what one range scan from the start key gives; a bounded scan gives its prefix.
theorem windowed_exact (index : Multimap name) (direction : ScanDirection) {startKey : Bytes} (accepts : name.Accepts startKey)
    (early : createdAtFromKey startKey < u64Max) {windowSize : Nat} (positive : 1 ≤ windowSize) :
    (∀ windows, index.entries.length < windows →
      (index.scanWindows direction windowSize windows startKey true).flatten = index.rangeScan direction startKey) ∧
    ∀ limit, index.collectBounded direction startKey limit = (index.rangeScan direction startKey).take limit := by
  obtain ⟨fine,same⟩ := start_bound index direction accepts early
  refine ⟨?_,?_⟩
  · intro windows enough
    rw [← same]
    have fits := Nat.lt_of_le_of_lt (bounded_length index direction (startBound direction startKey)) enough
    cases direction with
    | Forward => exact (resumes_forward index).windows positive windows startKey true fine fits
    | Reverse => exact (resumes_reverse index).windows positive windows startKey true fine fits
  · intro limit
    rw [Multimap.collectBounded,same]

end Exact

-- Two events of one second, and a third a second later.
def crowded : Multimap .Event__created_at where
  entries := [(toLe 8 5,1),(toLe 8 5,2),(toLe 8 6,3)]
  width := by decide +kernel
  sorted := by decide +kernel

theorem windowed_exact_crowded :
    (crowded.scanWindows .Reverse 1 4 (toLe 8 5) true).flatten = [(toLe 8 5,2),(toLe 8 5,1)] ∧
      (crowded.scanWindows .Forward 1 4 (toLe 8 5) true).flatten = [(toLe 8 5,1),(toLe 8 5,2),(toLe 8 6,3)] ∧
      crowded.collectBounded .Forward (toLe 8 5) 2 = [(toLe 8 5,1),(toLe 8 5,2)] := by
  have accepts : IndexName.Event__created_at.Accepts (toLe 8 5) := toLe_length 8 5
  have early : createdAtFromKey (toLe 8 5) < u64Max := by decide +kernel
  obtain ⟨down,_⟩ := windowed_exact crowded .Reverse accepts early (le_refl 1)
  obtain ⟨up,prefixes⟩ := windowed_exact crowded .Forward accepts early (le_refl 1)
  rw [down 4 (by decide),up 4 (by decide),prefixes 2]
  decide +kernel

end DeepFry.Lmdb
