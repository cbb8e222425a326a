import DeepFry.Lmdb.Index

namespace DeepFry.Lmdb
open Bytes
variable {name : IndexName}

-- The keys an index can hold.
def Storable (name : IndexName) (key : Bytes) : Prop := name.Layout key ∧ createdAtFromKey key < u64Max

theorem Index.storable (index : Index name) {entry : Entry} (stored : entry ∈ index.entries) :
    Storable name entry.1 := ⟨index.width entry stored,index.dated entry stored⟩

theorem index_layout {index : Index name} {entry : Entry} (stored : entry ∈ index.entries) :
    name.Layout entry.1 := index.width entry stored

theorem Multimap.rising (index : Multimap name) : index.entries.Pairwise fun a b =>
    name.keyRank a.1 < name.keyRank b.1 ∨ a.1 = b.1 ∧ a.2 < b.2 := by
  refine index.sorted.imp_of_mem ?_
  intro a b left right step
  exact step.imp_left (cmp_lt (index.width a left) (index.width b right)).mp

theorem mem_revRange {index : Index name} {upper : Bound} {entry : Entry} :
    entry ∈ index.revRange upper ↔ entry ∈ index.entries ∧ upper.belowUpper name entry.1 = true := by
  simp [Multimap.revRange]

theorem revRange_falling (index : Index name) (upper : Bound) :
    (index.revRange upper).Pairwise fun a b =>
      name.keyRank b.1 < name.keyRank a.1 ∨ a.1 = b.1 ∧ b.2 < a.2 := by
  rw [Multimap.revRange,List.pairwise_reverse]
  refine (index.rising.filter _).imp ?_
  rintro a b (less | ⟨same,less⟩)
  · exact .inl less
  · exact .inr ⟨same.symm,less⟩

-- A reverse walk reads the keys of its scope, a downward closed set of keys.
def inScope (name : IndexName) (resumeKey : Bytes) (firstBatch : Bool) (key : Bytes) : Prop :=
  (windowBound .Reverse resumeKey firstBatch).belowUpper name key = true

theorem scope_resume {resumeKey key : Bytes} (left : name.Layout key) (right : name.Layout resumeKey) :
    inScope name resumeKey false key ↔ name.keyRank key < name.keyRank resumeKey := by
  simp [inScope,windowBound,Bound.belowUpper,cmp_lt left right]

theorem included_rank {bound key : Bytes} (left : name.Layout key) (right : name.Layout bound) :
    (Bound.Included bound).belowUpper name key = true ↔ name.keyRank key ≤ name.keyRank bound := by
  have agrees := cmp_rank left right
  simp only [Bound.belowUpper,bne_iff_ne,ne_eq]
  cases order : name.cmp key bound with
  | lt => simp [(agrees.1.mp order).le]
  | eq => simp [agrees.2.mp order]
  | gt =>
    have notLess : ¬ name.keyRank key < name.keyRank bound := by rw [← agrees.1,order]; simp
    have notSame : ¬ name.keyRank key = name.keyRank bound := by rw [← agrees.2,order]; simp
    simp only [not_true_eq_false,false_iff,not_le]
    exact lt_of_le_of_ne (not_lt.mp notLess) (Ne.symm notSame)

-- The first window of a start key reads the value's entries up to and including its timestamp,
-- then everything below the value. Both forms of the upper bound say so: no entry is at u64::MAX.
theorem scope_first {value key : Bytes} {ts : Nat} (width : name.ValueLayout value) (small : ts < 2^64)
    (layout : name.Layout key) (early : createdAtFromKey key < u64Max) :
    inScope name (compositeKey value ts) true key ↔
      name.valueRank (valuePart key) < name.valueRank value ∨
        name.valueRank (valuePart key) = name.valueRank value ∧ createdAtFromKey key ≤ ts := by
  have long : ¬ (compositeKey value ts).length < 8 := by simp
  have read : fromLe (suffix 8 (compositeKey value ts)) = ts := by
    rw [← createdAt_suffix (by simp),composite_createdAt value small]
  have stemmed : stem 8 (compositeKey value ts) = value := composite_value value ts
  unfold inScope windowBound
  simp only [if_true,reverseBound,reverseUpperBound,if_neg long,read,stemmed]
  by_cases next : ts + 1 < 2^64
  · have rebuilt : name.Layout (compositeKey value (ts + 1)) := composite_layout width
    simp only [next,if_true]
    change (Bound.Excluded (compositeKey value (ts + 1))).belowUpper name key = true ↔ _
    simp only [Bound.belowUpper,beq_iff_eq,cmp_lt layout rebuilt,keyRank_lt,composite_value,
      composite_createdAt value next,Nat.lt_succ_iff]
  · have top : ts = u64Max := by simp only [u64Max]; omega
    simp only [next,if_false,Bool.false_eq_true]
    rw [included_rank layout (composite_layout width),le_iff_lt_or_eq,keyRank_lt,composite_value,
      composite_createdAt value small]
    have never : name.keyRank key ≠ name.keyRank (compositeKey value ts) := by
      intro same
      have equal := congrArg createdAtFromKey (keyRank_injective layout (composite_layout width) same)
      rw [composite_createdAt value small] at equal
      omega
    simp only [never,or_false]
    constructor
    · exact Or.imp_right fun step => ⟨step.1,step.2.le⟩
    · exact Or.imp_right fun step => ⟨step.1,by omega⟩

-- What one reverse window over an index yields, and what is left for the next one.
structure Scanned (index : Index name) (scope after : Bytes → Prop) (batch : List Entry) : Prop where
  member : ∀ entry ∈ batch, entry ∈ index.entries ∧ scope entry.1
  falling : batch.Pairwise fun a b => name.keyRank b.1 < name.keyRank a.1 ∨ a.1 = b.1 ∧ b.2 < a.2
  covers : ∀ entry ∈ index.entries, scope entry.1 → entry ∈ batch ∨ after entry.1
  past : ∀ entry ∈ batch, ¬ after entry.1

theorem falling_le {a b : Entry} (order : name.keyRank b.1 < name.keyRank a.1 ∨ a.1 = b.1 ∧ b.2 < a.2) :
    name.keyRank b.1 ≤ name.keyRank a.1 := by
  rcases order with less | ⟨same,_⟩
  · exact less.le
  · rw [same]

-- The head of a window stands at the top of its scope.
theorem Scanned.head {index : Index name} {resumeKey last : Bytes} {first : Bool} {head : Entry} {tail : List Entry}
    (scanned : Scanned index (inScope name resumeKey first) (inScope name last false) (head :: tail))
    (layout : name.Layout last) {entry : Entry} (stored : entry ∈ index.entries)
    (within : inScope name resumeKey first entry.1) : name.keyRank entry.1 ≤ name.keyRank head.1 := by
  rcases scanned.covers entry stored within with member | later
  · rcases List.mem_cons.mp member with rfl | deeper
    · exact le_refl _
    · exact falling_le ((List.pairwise_cons.mp scanned.falling).1 entry deeper)
  · have reached := (scope_resume (index_layout (scanned.member head (by simp)).1) layout).not.mp
      (scanned.past head (by simp))
    exact ((scope_resume (index_layout stored) layout).mp later).le.trans (not_lt.mp reached)

theorem window_scanned (index : Index name) {resumeKey : Bytes} {firstBatch : Bool} {windowSize : Nat}
    (positive : 0 < windowSize) {last : Entry}
    (final : last ∈ (collectWindow index .Reverse resumeKey firstBatch windowSize).getLast?) :
    Scanned index (inScope name resumeKey firstBatch) (inScope name last.1 false)
      (collectWindow index .Reverse resumeKey firstBatch windowSize) ∧ last ∈ index.entries ∧
      inScope name resumeKey firstBatch last.1 := by
  obtain ⟨rest,cut⟩ := Window.fill_cut Prod.fst windowSize []
    (index.revRange (windowBound .Reverse resumeKey firstBatch)) (.inl positive)
  rw [List.nil_append] at cut
  change Window.Cut Prod.fst (collectWindow index .Reverse resumeKey firstBatch windowSize) rest _ at cut
  have ordered := revRange_falling index (windowBound .Reverse resumeKey firstBatch)
  have groups : Window.Falling Prod.fst name.keyRank
      (index.revRange (windowBound .Reverse resumeKey firstBatch)) := by
    refine ordered.imp ?_
    rintro a b (less | ⟨same,_⟩)
    · exact .inr less
    · exact .inl same
  have inside : ∀ entry ∈ collectWindow index .Reverse resumeKey firstBatch windowSize,
      entry ∈ index.entries ∧ inScope name resumeKey firstBatch entry.1 := by
    intro entry here
    exact mem_revRange.mp (by rw [cut.split]; exact List.mem_append_left _ here)
  have lastInside := inside last (List.mem_of_mem_getLast? final)
  have lastLayout := index.width last lastInside.1
  refine ⟨⟨inside,?_,?_,?_⟩,lastInside⟩
  · rw [cut.split] at ordered
    exact (List.pairwise_append.mp ordered).1
  · intro entry stored within
    have listed := mem_revRange.mpr ⟨stored,within⟩
    rw [cut.split] at listed
    refine (List.mem_append.mp listed).imp_right fun later => ?_
    exact (scope_resume (index.width entry stored) lastLayout).mpr (cut.below groups final later)
  · intro entry here
    rw [scope_resume (index.width entry (inside entry here).1) lastLayout,not_lt]
    exact cut.above groups final here

theorem window_empty (index : Index name) {resumeKey : Bytes} {firstBatch : Bool} {windowSize : Nat}
    (positive : 0 < windowSize) (empty : collectWindow index .Reverse resumeKey firstBatch windowSize = []) :
    ∀ entry ∈ index.entries, ¬ inScope name resumeKey firstBatch entry.1 := by
  intro entry stored within
  have listed := mem_revRange.mpr ⟨stored,within⟩
  exact Window.fill_nonempty Prod.fst positive (List.ne_nil_of_mem listed) empty

end DeepFry.Lmdb
