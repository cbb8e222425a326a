import DeepFry.Lib.Bytes
import Mathlib.Data.Prod.Lex

namespace DeepFry.Lmdb
open Bytes

abbrev LevId := Nat
def u64Max : Nat := 2^64 - 1

-- Where an event stands in the newest-first order: (created_at, levId).
abbrev Position := Nat × LevId

def Position.rank (position : Position) : Nat ×ₗ Nat := toLex position

theorem Position.rank_lt {a b : Position} : a.rank < b.rank ↔ a.1 < b.1 ∨ a.1 = b.1 ∧ a.2 < b.2 :=
  Prod.Lex.toLex_lt_toLex

theorem Position.rank_injective {a b : Position} (same : a.rank = b.rank) : a = b := toLex.injective same

-- The six Event__* sub-DBs; the constructor stands for the short index name.
inductive IndexName where
  | Event__id | Event__pubkey | Event__created_at | Event__kind | Event__pubkeyKind | Event__tag
  deriving DecidableEq, Repr

def suffix (width : Nat) (key : Bytes) : Bytes := key.drop (key.length - width)
def stem (width : Nat) (key : Bytes) : Bytes := key.take (key.length - width)

-- memcmp over the common length, then the length comparison (mdb_cmp_memn).
def memcmp : Bytes → Bytes → Ordering
  | x :: xs,y :: ys => if x < y then .lt else if y < x then .gt else memcmp xs ys
  | _,_ => .eq

def mdbCmpMemn (a b : Bytes) : Ordering := (memcmp a b).then (compare a.length b.length)

-- The golpe comparators. A key shorter than the layout aborts the process in the source;
-- every key of an index and every start key has the layout's width, so no branch models it.
def cmpStringUint64 (a b : Bytes) : Ordering :=
  (mdbCmpMemn (stem 8 a) (stem 8 b)).then (compare (fromLe (suffix 8 a)) (fromLe (suffix 8 b)))

def cmpUint64Uint64 (a b : Bytes) : Ordering :=
  (compare (fromLe (stem 8 a)) (fromLe (stem 8 b))).then
    (compare (fromLe (suffix 8 a)) (fromLe (suffix 8 b)))

def cmpStringUint64Uint64 (a b : Bytes) : Ordering :=
  (mdbCmpMemn (stem 16 a) (stem 16 b)).then
    ((compare (fromLe (suffix 8 (stem 8 a))) (fromLe (suffix 8 (stem 8 b)))).then
      (compare (fromLe (suffix 8 a)) (fromLe (suffix 8 b))))

def cmpInteger (a b : Bytes) : Ordering := compare (fromLe a) (fromLe b)

def IndexName.cmp : IndexName → Bytes → Bytes → Ordering
  | .Event__id | .Event__pubkey | .Event__tag => cmpStringUint64
  | .Event__kind => cmpUint64Uint64
  | .Event__pubkeyKind => cmpStringUint64Uint64
  | .Event__created_at => cmpInteger

-- Widths of the key-layout table: fixed for every index but Event__tag.
def IndexName.Layout (index : IndexName) (key : Bytes) : Prop :=
  match index with
  | .Event__id | .Event__pubkey => key.length = 40
  | .Event__created_at => key.length = 8
  | .Event__kind => key.length = 16
  | .Event__pubkeyKind => key.length = 48
  | .Event__tag => 9 ≤ key.length

instance (index : IndexName) (key : Bytes) : Decidable (index.Layout key) := by
  unfold IndexName.Layout; cases index <;> infer_instance

def IndexName.FixedWidth (index : IndexName) : Prop := index ≠ .Event__tag

instance (index : IndexName) : Decidable index.FixedWidth := by
  unfold IndexName.FixedWidth; infer_instance

theorem layout_eight {index : IndexName} {key : Bytes} (layout : index.Layout key) : 8 ≤ key.length := by
  cases index <;> simp only [IndexName.Layout] at layout <;> omega

-- created_at is read off the trailing eight bytes; a shorter key reads as 0.
def createdAtFromKey (key : Bytes) : Nat :=
  if (suffix 8 key).length = 8 then fromLe (suffix 8 key) else 0

def valuePart (key : Bytes) : Bytes := stem 8 key

theorem stem_suffix (width : Nat) (key : Bytes) : stem width key ++ suffix width key = key :=
  List.take_append_drop _ _

theorem suffix_length {width : Nat} {key : Bytes} (long : width ≤ key.length) :
    (suffix width key).length = width := by
  simp only [suffix,List.length_drop]; omega

theorem stem_length (width : Nat) (key : Bytes) : (stem width key).length = key.length - width := by
  simp [stem]

@[simp] theorem stem_append (value tail : Bytes) : stem tail.length (value ++ tail) = value := by
  simp [stem]

@[simp] theorem suffix_append (value tail : Bytes) : suffix tail.length (value ++ tail) = tail := by
  simp [suffix]

theorem createdAt_suffix {key : Bytes} (long : 8 ≤ key.length) :
    createdAtFromKey key = fromLe (suffix 8 key) := by
  simp [createdAtFromKey,suffix_length long]

theorem key_split {key : Bytes} (long : 8 ≤ key.length) :
    valuePart key ++ toLe 8 (createdAtFromKey key) = key := by
  rw [createdAt_suffix long,valuePart]
  have tail := toLe_fromLe (suffix 8 key)
  rw [suffix_length long] at tail
  rw [tail,stem_suffix]

-- A composite key: value bytes followed by created_at(8 LE).
def compositeKey (value : Bytes) (createdAt : Nat) : Bytes := value ++ toLe 8 createdAt

@[simp] theorem composite_value (value : Bytes) (ts : Nat) : valuePart (compositeKey value ts) = value := by
  have := stem_append value (toLe 8 ts)
  rwa [toLe_length] at this

@[simp] theorem composite_length (value : Bytes) (ts : Nat) :
    (compositeKey value ts).length = value.length + 8 := by simp [compositeKey]

theorem composite_createdAt (value : Bytes) {ts : Nat} (small : ts < 2^64) :
    createdAtFromKey (compositeKey value ts) = ts := by
  have tail := suffix_append value (toLe 8 ts)
  rw [toLe_length] at tail
  rw [createdAt_suffix (by simp),compositeKey,tail]
  exact fromLe_exact small

theorem composite_split {key : Bytes} (long : 8 ≤ key.length) :
    compositeKey (valuePart key) (createdAtFromKey key) = key := key_split long

-- An Ordering agrees with a strict order on the ranks of the two arguments.
def Agrees {α : Type} [LT α] (result : Ordering) (x y : α) : Prop :=
  (result = .lt ↔ x < y) ∧ (result = .eq ↔ x = y)

theorem Agrees.nat (m n : Nat) : Agrees (compare m n) m n := ⟨Nat.compare_eq_lt,Nat.compare_eq_eq⟩

theorem Agrees.then {α β : Type} [LT α] [LT β] {x y : α} {u v : β} {first second : Ordering}
    (high : Agrees first x y) (low : Agrees second u v) :
    Agrees (first.then second) (toLex (x,u)) (toLex (y,v)) := by
  constructor
  · rw [Ordering.then_eq_lt,Prod.Lex.toLex_lt_toLex,high.1,high.2,low.1]
  · rw [Ordering.then_eq_eq,high.2,low.2]
    simp

theorem Agrees.tag {α β : Type} [LT α] [Preorder β] {x y : α} {result : Ordering} (mark : β)
    (high : Agrees result x y) : Agrees result (toLex (x,mark)) (toLex (y,mark)) := by
  constructor
  · rw [Prod.Lex.toLex_lt_toLex,high.1]; simp
  · rw [high.2]; simp

theorem Agrees.under {α β : Type} [Preorder α] [LT β] {u v : β} {result : Ordering} (mark : α)
    (low : Agrees result u v) : Agrees result (toLex (mark,u)) (toLex (mark,v)) := by
  constructor
  · rw [Prod.Lex.toLex_lt_toLex,low.1]; simp
  · rw [low.2]; simp

theorem Agrees.memn (a b : Bytes) : Agrees (mdbCmpMemn a b) a b := by
  induction a generalizing b with
  | nil => cases b <;> simp [Agrees,mdbCmpMemn,memcmp,compare,compareOfLessAndEq]
  | cons x xs ih =>
    cases b with
    | nil => simp [Agrees,mdbCmpMemn,memcmp,compare,compareOfLessAndEq]
    | cons y ys =>
      have tail := ih ys
      simp only [Agrees,mdbCmpMemn,Ordering.then_eq_lt,Ordering.then_eq_eq] at tail
      rcases lt_trichotomy x y with less | same | more
      · simp [Agrees,mdbCmpMemn,memcmp,less,less.ne,List.cons_lt_cons_iff]
      · subst same
        simp only [Agrees,mdbCmpMemn,memcmp,lt_irrefl,if_false,List.length_cons,List.cons_lt_cons_iff,
          List.cons.injEq,true_and,false_or,Ordering.then_eq_lt,Ordering.then_eq_eq]
        simpa only [Nat.compare_eq_lt,Nat.compare_eq_eq,Nat.add_lt_add_iff_right,
          Nat.add_right_cancel_iff] using tail
      · simp [Agrees,mdbCmpMemn,memcmp,more,more.not_gt,more.ne',List.cons_lt_cons_iff]

-- Every comparator orders keys by their value part first and by created_at second. The value
-- order is a string order, a numeric order, or the two in sequence (pubkey, then kind).
def IndexName.valueRank (index : IndexName) (value : Bytes) : Bytes ×ₗ Nat :=
  match index with
  | .Event__id | .Event__pubkey | .Event__tag => toLex (value,0)
  | .Event__kind => toLex ([],fromLe value)
  | .Event__pubkeyKind => toLex (stem 8 value,fromLe (suffix 8 value))
  | .Event__created_at => toLex ([],0)

def IndexName.keyRank (index : IndexName) (key : Bytes) : (Bytes ×ₗ Nat) ×ₗ Nat :=
  toLex (index.valueRank (valuePart key),createdAtFromKey key)

theorem stem_stem (key : Bytes) : stem 8 (stem 8 key) = stem 16 key := by
  simp only [stem,List.length_take,List.take_take]
  congr 1
  omega

theorem integer_suffix {key : Bytes} (layout : key.length = 8) : suffix 8 key = key := by
  simp [suffix,layout]

-- With room for the timestamp, and with nothing else where the whole key is one.
theorem cmp_suffix {index : IndexName} {a b : Bytes} (left : 8 ≤ a.length) (right : 8 ≤ b.length)
    (whole : index = .Event__created_at → a.length = 8 ∧ b.length = 8) : Agrees (index.cmp a b) (index.keyRank a) (index.keyRank b) := by
  have times : Agrees (compare (fromLe (suffix 8 a)) (fromLe (suffix 8 b)))
      (createdAtFromKey a) (createdAtFromKey b) := by
    rw [createdAt_suffix left,createdAt_suffix right]
    exact Agrees.nat _ _
  cases index with
  | Event__id | Event__pubkey | Event__tag => exact ((Agrees.memn _ _).tag 0).then times
  | Event__kind => exact ((Agrees.nat _ _).under []).then times
  | Event__pubkeyKind =>
    have owners := Agrees.memn (stem 8 (stem 8 a)) (stem 8 (stem 8 b))
    have kinds := Agrees.nat (fromLe (suffix 8 (stem 8 a))) (fromLe (suffix 8 (stem 8 b)))
    change Agrees (cmpStringUint64Uint64 a b) _ _
    rw [cmpStringUint64Uint64,← stem_stem,← stem_stem,← Ordering.then_assoc]
    exact (owners.then kinds).then times
  | Event__created_at =>
    obtain ⟨first,second⟩ := whole rfl
    rw [integer_suffix first,integer_suffix second] at times
    exact times.under _

theorem cmp_rank {index : IndexName} {a b : Bytes} (left : index.Layout a) (right : index.Layout b) :
    Agrees (index.cmp a b) (index.keyRank a) (index.keyRank b) := by
  apply cmp_suffix (layout_eight left) (layout_eight right)
  rintro rfl
  exact ⟨left,right⟩

-- The widths under which the value order separates different values.
def IndexName.ValueLayout (index : IndexName) (value : Bytes) : Prop :=
  match index with
  | .Event__id | .Event__pubkey => value.length = 32
  | .Event__created_at => value.length = 0
  | .Event__kind => value.length = 8
  | .Event__pubkeyKind => value.length = 40
  | .Event__tag => 1 ≤ value.length

instance (index : IndexName) (value : Bytes) : Decidable (index.ValueLayout value) := by
  unfold IndexName.ValueLayout; cases index <;> infer_instance

theorem layout_value {index : IndexName} {key : Bytes} (layout : index.Layout key) :
    index.ValueLayout (valuePart key) := by
  cases index <;> simp only [IndexName.Layout,IndexName.ValueLayout,valuePart,stem_length] at * <;> omega

theorem composite_layout {index : IndexName} {value : Bytes} {ts : Nat} (layout : index.ValueLayout value) :
    index.Layout (compositeKey value ts) := by
  cases index <;> simp only [IndexName.Layout,IndexName.ValueLayout,composite_length] at * <;> omega

theorem valueRank_injective {index : IndexName} {a b : Bytes} (left : index.ValueLayout a)
    (right : index.ValueLayout b) (same : index.valueRank a = index.valueRank b) : a = b := by
  cases index with
  | Event__id | Event__pubkey | Event__tag => simpa [IndexName.valueRank] using same
  | Event__kind =>
    simp only [IndexName.ValueLayout] at left right
    exact fromLe_injective (left.trans right.symm) (by simpa [IndexName.valueRank] using same)
  | Event__created_at =>
    simp only [IndexName.ValueLayout,List.length_eq_zero_iff] at left right
    rw [left,right]
  | Event__pubkeyKind =>
    simp only [IndexName.ValueLayout] at left right
    simp only [IndexName.valueRank,EmbeddingLike.apply_eq_iff_eq,Prod.mk.injEq] at same
    have kinds : suffix 8 a = suffix 8 b := by
      refine fromLe_injective ?_ same.2
      rw [suffix_length (by omega),suffix_length (by omega)]
    rw [← stem_suffix 8 a,← stem_suffix 8 b,same.1,kinds]

theorem keyRank_injective {index : IndexName} {a b : Bytes} (left : index.Layout a) (right : index.Layout b)
    (same : index.keyRank a = index.keyRank b) : a = b := by
  simp only [IndexName.keyRank,EmbeddingLike.apply_eq_iff_eq,Prod.mk.injEq] at same
  rw [← composite_split (layout_eight left),← composite_split (layout_eight right),
    valueRank_injective (layout_value left) (layout_value right) same.1,same.2]

theorem cmp_lt {index : IndexName} {a b : Bytes} (left : index.Layout a) (right : index.Layout b) :
    index.cmp a b = .lt ↔ index.keyRank a < index.keyRank b := (cmp_rank left right).1

theorem keyRank_lt {index : IndexName} {a b : Bytes} : index.keyRank a < index.keyRank b ↔
    index.valueRank (valuePart a) < index.valueRank (valuePart b) ∨
      index.valueRank (valuePart a) = index.valueRank (valuePart b) ∧
        createdAtFromKey a < createdAtFromKey b := by
  simp [IndexName.keyRank,Prod.Lex.toLex_lt_toLex]

end DeepFry.Lmdb
