import DeepFry.Lmdb.Scan
import DeepFry.Query.Merge

namespace DeepFry.Query
open Lmdb Bytes
variable {name : IndexName}

def StreamState.guard (stream : StreamState) (entry : Entry) : Bool := stream.keyPrefix.isPrefixOf entry.1

def StreamState.scope (name : IndexName) (stream : StreamState) (key : Bytes) : Prop :=
  inScope name stream.resumeKey stream.firstBatch key

def StreamState.pending (stream : StreamState) : List Triple := stream.buffer.drop stream.bufPos

-- A stream stands on its start key, or on a later key that is not above the stream's value.
structure Placed (name : IndexName) (stream : StreamState) : Prop where
  value : name.ValueLayout stream.keyPrefix
  start : stream.firstBatch = true → ∃ ts < 2^64, stream.resumeKey = compositeKey stream.keyPrefix ts
  resumed : stream.firstBatch = false → name.Layout stream.resumeKey ∧
    name.valueRank (valuePart stream.resumeKey) ≤ name.valueRank stream.keyPrefix

theorem Placed.scope_value {stream : StreamState} (placed : Placed name stream) {key : Bytes}
    (storable : Storable name key) (within : stream.scope name key) :
    name.valueRank (valuePart key) ≤ name.valueRank stream.keyPrefix := by
  cases first : stream.firstBatch with
  | true =>
    obtain ⟨ts,small,start⟩ := placed.start first
    rw [StreamState.scope,first,start] at within
    rcases (scope_first placed.value small storable.1 storable.2).mp within with less | ⟨same,_⟩
    · exact less.le
    · exact same.le
  | false =>
    obtain ⟨layout,below⟩ := placed.resumed first
    rw [StreamState.scope,first,scope_resume storable.1 layout,keyRank_lt] at within
    rcases within with less | ⟨same,_⟩
    · exact less.le.trans below
    · exact same.le.trans below

theorem own_guarded {value key : Bytes} (own : valuePart key = value) : value.isPrefixOf key = true := by
  rw [List.isPrefixOf_iff_prefix,← own]
  exact List.take_prefix _ _

theorem Placed.own_of_rank {stream : StreamState} (placed : Placed name stream) {key : Bytes}
    (layout : name.Layout key)
    (same : name.valueRank (valuePart key) = name.valueRank stream.keyPrefix) :
    valuePart key = stream.keyPrefix := valueRank_injective (layout_value layout) placed.value same

-- What one window hands over: the guarded head of the batch, less what the floor drops, cut at
-- the first entry older than since.
def keptOf (levIdFloor : Floor) (stream : StreamState) (batch : List Entry) : List Entry :=
  (batch.takeWhile stream.guard).filter fun entry => floorKeeps levIdFloor (triple entry)

def admittedOf (since : Nat) (levIdFloor : Floor) (stream : StreamState) (batch : List Entry) : List Entry :=
  (keptOf levIdFloor stream batch).takeWhile fun entry => decide (since ≤ createdAtFromKey entry.1)

theorem sinceCut_exact (since : Nat) (guarded : List Triple) : sinceCut since guarded =
    (guarded.takeWhile fun entry => decide (since ≤ entry.1),guarded.any fun entry => decide (entry.1 < since)) := by
  unfold sinceCut
  split
  · induction guarded with
    | nil => rfl
    | cons head rest ih =>
      by_cases old : head.1 < since
      · simp [List.findIdx?_cons,old,Nat.not_le.mpr old]
      · rw [List.findIdx?_cons]
        simp only [old,decide_false,Bool.false_eq_true,if_false,not_lt.mp old,decide_true,
          List.takeWhile_cons_of_pos,List.any_cons,Bool.false_or]
        cases found : rest.findIdx? fun entry => decide (entry.1 < since) with
        | none =>
          rw [found] at ih
          simp only [Option.map_none,Prod.mk.injEq] at ih ⊢
          exact ⟨by rw [← ih.1],ih.2⟩
        | some index =>
          rw [found] at ih
          simp only [Option.map_some,List.take_succ_cons,Prod.mk.injEq] at ih ⊢
          exact ⟨by rw [ih.1],ih.2⟩
  · rename_i unbounded
    have zero : since = 0 := by omega
    subst zero
    have all : guarded.takeWhile (fun _ => true) = guarded := List.takeWhile_eq_self_iff.mpr (by simp)
    simp [all]

def StreamState.moved (stream : StreamState) (key : Bytes) : StreamState :=
  {stream with resumeKey := key,firstBatch := false}

section Window
variable {batchSize since : Nat} {levIdFloor : Floor} {env : Env} {stream : StreamState}

theorem refillWindow_none
    (empty : collectWindow (env.index name) .Reverse stream.resumeKey stream.firstBatch batchSize = []) :
    refillWindow name batchSize since levIdFloor env stream =
      ((stream.moved stream.resumeKey).drained,true) := by
  simp [refillWindow,scanIndexOneWindow,empty,StreamState.moved]

theorem refillWindow_some {batch : List Entry} {last : Entry}
    (read : collectWindow (env.index name) .Reverse stream.resumeKey stream.firstBatch batchSize = batch)
    (final : last ∈ batch.getLast?) :
    refillWindow name batchSize since levIdFloor env stream =
      if batch.takeWhile stream.guard = [] then ((stream.moved last.1).drained,true)
      else if keptOf levIdFloor stream batch = [] then (stream.moved last.1,false)
      else ((stream.moved last.1).load
        (stream.exhausted || (keptOf levIdFloor stream batch).any fun entry => decide (createdAtFromKey entry.1 < since))
        ((admittedOf since levIdFloor stream batch).map triple),true) := by
  have some_batch : batch ≠ [] := by
    rintro rfl
    simp at final
  have kept : ((batch.takeWhile stream.guard).map triple).filter (floorKeeps levIdFloor) =
      (keptOf levIdFloor stream batch).map triple := by
    rw [List.filter_map]
    rfl
  unfold refillWindow
  simp only [scanIndexOneWindow,read,Option.mem_def.mp final,List.isEmpty_iff,if_neg some_batch]
  change (if ((batch.takeWhile stream.guard).map triple) = [] then _ else
    if (((batch.takeWhile stream.guard).map triple).filter (floorKeeps levIdFloor)) = [] then _ else
      ((stream.moved last.1).load
        (stream.exhausted || (sinceCut since
          (((batch.takeWhile stream.guard).map triple).filter (floorKeeps levIdFloor))).2)
        (sinceCut since (((batch.takeWhile stream.guard).map triple).filter (floorKeeps levIdFloor))).1,true)) = _
  rw [kept,sinceCut_exact,List.any_map,List.takeWhile_map]
  simp only [List.map_eq_nil_iff]
  rfl

end Window

-- An entry the merge must return for a stream's value: floor and since let it through.
structure Wanted (name : IndexName) (since : Nat) (levIdFloor : Floor) (value : Bytes) (entry : Entry) : Prop where
  storable : Storable name entry.1
  own : valuePart entry.1 = value
  kept : floorKeeps levIdFloor (triple entry) = true
  recent : since ≤ createdAtFromKey entry.1

-- The floor has nothing left to drop ahead of the stream.
def Clear (name : IndexName) (levIdFloor : Floor) (stream : StreamState) : Prop :=
  ∀ key, Storable name key → valuePart key = stream.keyPrefix → stream.scope name key →
    ∀ levId, floorKeeps levIdFloor (createdAtFromKey key,levId,key) = true

-- No lower value's key starts with the bytes of the value.
def GuardClean (index : Index name) (value : Bytes) : Prop :=
  ∀ entry ∈ index.entries, name.valueRank (valuePart entry.1) < name.valueRank value →
    value.isPrefixOf entry.1 = false

theorem keyRank_own {a b : Bytes} (same : valuePart a = valuePart b)
    (less : name.keyRank a < name.keyRank b) : createdAtFromKey a < createdAtFromKey b := by
  rw [keyRank_lt,same] at less
  rcases less with impossible | ⟨_,earlier⟩
  · exact absurd impossible (lt_irrefl _)
  · exact earlier

-- In scope, whatever stands at or above an own key is an own key.
theorem Placed.above {stream : StreamState} (placed : Placed name stream) {low high : Bytes}
    (own : valuePart low = stream.keyPrefix) (storable : Storable name high) (within : stream.scope name high)
    (order : name.keyRank low ≤ name.keyRank high) :
    valuePart high = stream.keyPrefix ∧ createdAtFromKey low ≤ createdAtFromKey high := by
  have top := placed.scope_value storable within
  rw [← not_lt,keyRank_lt,own] at order
  have same : name.valueRank (valuePart high) = name.valueRank stream.keyPrefix :=
    le_antisymm top (not_lt.mp fun less => order (.inl less))
  exact ⟨placed.own_of_rank storable.1 same,not_lt.mp fun less => order (.inr ⟨same,less⟩)⟩

theorem moved_scope {stream : StreamState} {last key : Bytes} (left : name.Layout key)
    (right : name.Layout last) :
    (stream.moved last).scope name key ↔ name.keyRank key < name.keyRank last := scope_resume left right

section Owed
variable {batchSize since : Nat} {levIdFloor : Floor} {env : Env} {stream : StreamState} {entry : Entry}

theorem kept_sublist (batch : List Entry) : (keptOf levIdFloor stream batch).Sublist batch :=
  List.filter_sublist.trans (List.takeWhile_sublist _)

theorem admitted_sublist (batch : List Entry) : (admittedOf since levIdFloor stream batch).Sublist batch :=
  (List.takeWhile_sublist _).trans (kept_sublist _)

-- A buffered entry was there before, or it is one of the window and not older than since.
theorem refillWindow_buffer {env : Env} {batchSize : Nat} {next : StreamState} {settled : Bool}
    (refilled : refillWindow name batchSize since levIdFloor env stream = (next,settled)) :
    ∀ x ∈ next.buffer, x ∈ stream.buffer ∨ since ≤ x.1 ∧
      ∃ entry ∈ collectWindow (env.index name) .Reverse stream.resumeKey stream.firstBatch batchSize, x = triple entry := by
  intro x member
  cases final : (collectWindow (env.index name) .Reverse stream.resumeKey stream.firstBatch batchSize).getLast? with
  | none =>
    rw [refillWindow_none (List.getLast?_eq_none_iff.mp final)] at refilled
    obtain ⟨rfl,_⟩ := Prod.mk.inj refilled
    cases member
  | some last =>
    rw [refillWindow_some rfl final] at refilled
    split at refilled
    · obtain ⟨rfl,_⟩ := Prod.mk.inj refilled
      cases member
    · split at refilled
      · obtain ⟨rfl,_⟩ := Prod.mk.inj refilled
        exact .inl member
      · obtain ⟨rfl,_⟩ := Prod.mk.inj refilled
        obtain ⟨entry,here,rfl⟩ := List.mem_map.mp member
        refine .inr ⟨?_,entry,(admitted_sublist _).subset here,rfl⟩
        simpa [triple] using List.mem_takeWhile_imp here

-- A wanted entry of the window passes the guard, the floor and the since cut.
theorem admitted_wanted (placed : Placed name stream) {after : Bytes → Prop} {batch : List Entry}
    (scanned : Scanned (env.index name) (stream.scope name) after batch)
    (wanted : Wanted name since levIdFloor stream.keyPrefix entry) (member : entry ∈ batch) :
    entry ∈ admittedOf since levIdFloor stream batch := by
  have before : ∀ x ∈ batch, (name.keyRank entry.1 < name.keyRank x.1 ∨ x.1 = entry.1 ∧ entry.2 < x.2) →
      valuePart x.1 = stream.keyPrefix ∧ createdAtFromKey entry.1 ≤ createdAtFromKey x.1 := by
    intro x here order
    obtain ⟨stored,within⟩ := scanned.member x here
    exact placed.above wanted.own ((env.index name).storable stored) within (falling_le order)
  have guarded : entry ∈ batch.takeWhile stream.guard := by
    refine Window.mem_takeWhile scanned.falling member (own_guarded wanted.own) ?_
    intro x here order
    exact own_guarded (before x here order).1
  have kept : entry ∈ keptOf levIdFloor stream batch := List.mem_filter.mpr ⟨guarded,wanted.kept⟩
  refine Window.mem_takeWhile (scanned.falling.sublist (kept_sublist _)) kept (by simpa using wanted.recent) ?_
  intro x here order
  have later := (before x ((kept_sublist _).subset here) order).2
  simpa using wanted.recent.trans later

theorem window_owed (positive : 0 < batchSize) (placed : Placed name stream) (active : stream.exhausted = false)
    (wanted : Wanted name since levIdFloor stream.keyPrefix entry) (stored : entry ∈ (env.index name).entries)
    (within : stream.scope name entry.1) {next : StreamState} {settled : Bool}
    (refilled : refillWindow name batchSize since levIdFloor env stream = (next,settled)) :
    (settled = true ∧ (triple entry ∈ next.pending ∨ next.exhausted = false ∧ next.scope name entry.1)) ∨
      settled = false ∧ next.exhausted = false ∧ next.scope name entry.1 ∧ Clear name levIdFloor next := by
  cases final : (collectWindow (env.index name) .Reverse stream.resumeKey stream.firstBatch batchSize).getLast? with
  | none =>
    exact absurd within (window_empty _ positive (List.getLast?_eq_none_iff.mp final) entry stored)
  | some last =>
    obtain ⟨scanned,lastStored,lastWithin⟩ := window_scanned (env.index name) positive final
    have lastStorable := (env.index name).storable lastStored
    have lastMember := List.mem_of_getLast? final
    rw [refillWindow_some rfl final] at refilled
    generalize collectWindow (env.index name) .Reverse stream.resumeKey stream.firstBatch batchSize = batch at *
    rcases scanned.covers entry stored within with member | later
    · have admitted := admitted_wanted placed scanned wanted member
      have kept := (List.takeWhile_sublist _).subset admitted
      have guarded := List.filter_sublist.subset kept
      rw [if_neg (List.ne_nil_of_mem guarded),if_neg (List.ne_nil_of_mem kept)] at refilled
      obtain ⟨rfl,rfl⟩ := Prod.mk.inj refilled
      exact .inl ⟨rfl,.inl (List.mem_map_of_mem admitted)⟩
    · have below : name.keyRank entry.1 < name.keyRank last.1 :=
        (scope_resume wanted.storable.1 lastStorable.1).mp later
      -- The window is still above the entry, so it holds own keys only.
      have own : ∀ x ∈ batch, valuePart x.1 = stream.keyPrefix ∧
          createdAtFromKey entry.1 ≤ createdAtFromKey x.1 := by
        intro x here
        obtain ⟨present,inside⟩ := scanned.member x here
        have storable := (env.index name).storable present
        have reached := (scope_resume storable.1 lastStorable.1).not.mp (scanned.past x here)
        exact placed.above wanted.own storable inside (below.le.trans (not_lt.mp reached))
      have whole : batch.takeWhile stream.guard = batch :=
        List.takeWhile_eq_self_iff.mpr fun x here => own_guarded (own x here).1
      have lastOwn := (own last lastMember).1
      rw [whole,if_neg (List.ne_nil_of_mem lastMember)] at refilled
      split at refilled
      · rename_i dropped
        obtain ⟨rfl,rfl⟩ := Prod.mk.inj refilled
        refine .inr ⟨rfl,active,later,?_⟩
        intro key storable owned ahead levId
        have earlier : createdAtFromKey key < createdAtFromKey last.1 :=
          keyRank_own (owned.trans lastOwn.symm) ((moved_scope storable.1 lastStorable.1).mp ahead)
        have refused : floorKeeps levIdFloor (triple last) = false := by
          by_contra keeps
          have member : last ∈ keptOf levIdFloor stream batch :=
            List.mem_filter.mpr ⟨by rwa [whole],by simpa using keeps⟩
          simp [dropped] at member
        cases levIdFloor with
        | none => rfl
        | some floor =>
          have standing : createdAtFromKey last.1 = floor.1 := by
            by_contra apart
            simp [floorKeeps,triple,apart] at refused
          have apart : createdAtFromKey key ≠ floor.1 := by omega
          simp [floorKeeps,apart]
      · obtain ⟨rfl,rfl⟩ := Prod.mk.inj refilled
        refine .inl ⟨rfl,.inr ⟨?_,later⟩⟩
        simp only [StreamState.load,active,Bool.false_or,List.any_eq_false,decide_eq_true_eq,not_lt]
        intro x here
        exact wanted.recent.trans (own x ((kept_sublist _).subset here)).2

-- With nothing left for the floor to drop, a window that holds a wanted entry settles.
theorem window_settles (positive : 0 < batchSize) (placed : Placed name stream) (active : stream.exhausted = false)
    (clear : Clear name levIdFloor stream) (wanted : Wanted name since levIdFloor stream.keyPrefix entry)
    (stored : entry ∈ (env.index name).entries) (within : stream.scope name entry.1) {next : StreamState}
    {settled : Bool} (refilled : refillWindow name batchSize since levIdFloor env stream = (next,settled)) :
    settled = true := by
  rcases window_owed positive placed active wanted stored within refilled with ⟨done,_⟩ | ⟨waiting,_⟩
  · exact done
  · exfalso
    cases final : (collectWindow (env.index name) .Reverse stream.resumeKey stream.firstBatch batchSize).getLast? with
    | none =>
      exact absurd within (window_empty _ positive (List.getLast?_eq_none_iff.mp final) entry stored)
    | some last =>
      obtain ⟨scanned,lastStored,lastWithin⟩ := window_scanned (env.index name) positive final
      rw [refillWindow_some rfl final] at refilled
      generalize collectWindow (env.index name) .Reverse stream.resumeKey stream.firstBatch batchSize = batch at *
      have headed : ∃ head ∈ batch, valuePart head.1 = stream.keyPrefix ∧ stream.scope name head.1 ∧
          head ∈ batch.takeWhile stream.guard := by
        obtain ⟨head,tail,rfl⟩ : ∃ head tail, batch = head :: tail :=
          List.exists_cons_of_ne_nil (by rintro rfl; simp at final)
        have above := scanned.head (index_layout lastStored) stored within
        obtain ⟨present,inside⟩ := scanned.member head (by simp)
        have own := (placed.above wanted.own ((env.index name).storable present) inside above).1
        exact ⟨head,by simp,own,inside,by simp [StreamState.guard,own_guarded own]⟩
      obtain ⟨head,member,own,inside,guarded⟩ := headed
      have kept : head ∈ keptOf levIdFloor stream batch := List.mem_filter.mpr
        ⟨guarded,clear head.1 ((env.index name).storable (scanned.member head member).1) own inside head.2⟩
      rw [if_neg (List.ne_nil_of_mem guarded),if_neg (List.ne_nil_of_mem kept)] at refilled
      rw [← (Prod.mk.inj refilled).2] at waiting
      cases waiting

end Owed

section Shape
variable {batchSize since : Nat} {levIdFloor : Floor} {env : Env} {stream next : StreamState} {settled : Bool}

-- What a window leaves whether or not it settles the refill: the stream keeps its value, stands
-- at or below where it stood, and a settled stream shows a head unless it is exhausted.
structure Advanced (name : IndexName) (stream next : StreamState) (settled : Bool) : Prop where
  placed : Placed name next
  value : next.keyPrefix = stream.keyPrefix
  narrower : next.exhausted = false → ∀ key, Storable name key → next.scope name key → stream.scope name key
  shown : settled = true → next.exhausted = true ∨ next.pending ≠ []
  waiting : settled = false → next.exhausted = stream.exhausted

theorem Placed.moved {stream : StreamState} (placed : Placed name stream) {key : Bytes} (layout : name.Layout key)
    (below : name.valueRank (valuePart key) ≤ name.valueRank stream.keyPrefix) : Placed name (stream.moved key) := by
  refine ⟨placed.value,?_,?_⟩
  · intro impossible
    cases impossible
  · intro _
    exact ⟨layout,below⟩

theorem Placed.drained {stream : StreamState} (placed : Placed name stream) : Placed name stream.drained :=
  ⟨placed.value,placed.start,placed.resumed⟩

theorem Placed.load {stream : StreamState} (placed : Placed name stream) (exhausted : Bool) (buffer : List Triple) :
    Placed name (stream.load exhausted buffer) := ⟨placed.value,placed.start,placed.resumed⟩

theorem Placed.layout {stream : StreamState} (placed : Placed name stream) : name.Layout stream.resumeKey ∧
    name.valueRank (valuePart stream.resumeKey) ≤ name.valueRank stream.keyPrefix := by
  cases first : stream.firstBatch with
  | true =>
    obtain ⟨ts,_,start⟩ := placed.start first
    rw [start,composite_value]
    exact ⟨composite_layout placed.value,le_refl _⟩
  | false => exact placed.resumed first

theorem Placed.scope_down (placed : Placed name stream) {low high : Bytes} (left : Storable name low)
    (right : Storable name high) (within : stream.scope name high)
    (order : name.keyRank low ≤ name.keyRank high) : stream.scope name low := by
  cases first : stream.firstBatch with
  | true =>
    obtain ⟨ts,small,start⟩ := placed.start first
    rw [StreamState.scope,first,start] at within ⊢
    rw [scope_first placed.value small left.1 left.2]
    rw [scope_first placed.value small right.1 right.2] at within
    rcases order.lt_or_eq with less | equal
    · rw [keyRank_lt] at less
      rcases within with above | ⟨same,early⟩
      · exact .inl (less.elim (·.trans above) fun step => step.1.le.trans_lt above)
      · exact less.elim (fun step => .inl (step.trans_eq same))
          fun step => .inr ⟨step.1.trans same,step.2.le.trans early⟩
    · rwa [keyRank_injective left.1 right.1 equal]
  | false =>
    have layout := (placed.resumed first).1
    rw [StreamState.scope,first] at within ⊢
    rw [scope_resume left.1 layout]
    exact order.trans_lt ((scope_resume right.1 layout).mp within)

theorem window_advanced (positive : 0 < batchSize) (placed : Placed name stream)
    (refilled : refillWindow name batchSize since levIdFloor env stream = (next,settled)) :
    Advanced name stream next settled := by
  cases final : (collectWindow (env.index name) .Reverse stream.resumeKey stream.firstBatch batchSize).getLast? with
  | none =>
    rw [refillWindow_none (List.getLast?_eq_none_iff.mp final)] at refilled
    obtain ⟨rfl,rfl⟩ := Prod.mk.inj refilled
    refine ⟨(placed.moved placed.layout.1 placed.layout.2).drained,rfl,?_,fun _ => .inl rfl,?_⟩
    · intro active
      cases active
    · intro impossible
      cases impossible
  | some last =>
    obtain ⟨scanned,lastStored,lastWithin⟩ := window_scanned (env.index name) positive final
    have storable := (env.index name).storable lastStored
    have moved := placed.moved storable.1 (placed.scope_value storable lastWithin)
    have narrower : ∀ key, Storable name key → (stream.moved last.1).scope name key → stream.scope name key := by
      intro key left within
      exact placed.scope_down left storable lastWithin ((moved_scope left.1 storable.1).mp within).le
    rw [refillWindow_some rfl final] at refilled
    split at refilled
    · obtain ⟨rfl,rfl⟩ := Prod.mk.inj refilled
      refine ⟨moved.drained,rfl,fun _ => narrower,fun _ => .inl rfl,?_⟩
      intro impossible
      cases impossible
    · split at refilled
      · obtain ⟨rfl,rfl⟩ := Prod.mk.inj refilled
        refine ⟨moved,rfl,fun _ => narrower,?_,fun _ => rfl⟩
        intro impossible
        cases impossible
      · rename_i some_kept
        obtain ⟨rfl,rfl⟩ := Prod.mk.inj refilled
        refine ⟨moved.load _ _,rfl,fun _ => narrower,fun _ => ?_,(nomatch ·)⟩
        -- Without a head the first kept entry was older than since, which ends the stream.
        by_contra none_shown
        obtain ⟨active,empty⟩ := not_or.mp none_shown
        obtain ⟨head,tail,kept⟩ := List.exists_cons_of_ne_nil some_kept
        have older : createdAtFromKey head.1 < since := by
          by_contra recent
          exact empty (by simp [StreamState.pending,StreamState.load,admittedOf,kept,not_lt.mp recent])
        exact active (by simp [StreamState.load,kept,older])

-- What a settled window has loaded, when no lower key passes the guard.
structure Delivered (index : Index name) (since : Nat) (levIdFloor : Floor) (stream next : StreamState) : Prop where
  member : ∀ x ∈ next.pending, ∃ entry ∈ index.entries,
    Wanted name since levIdFloor stream.keyPrefix entry ∧ stream.scope name entry.1 ∧ x = triple entry
  falling : next.pending.Pairwise fun a b => b.sortKey < a.sortKey
  below : next.exhausted = false → ∀ key, Storable name key → valuePart key = next.keyPrefix →
    next.scope name key → ∀ x ∈ next.pending, createdAtFromKey key < x.1

theorem drained_delivered (index : Index name) : Delivered index since levIdFloor stream next.drained := by
  refine ⟨?_,.nil,?_⟩
  · intro x member
    cases member
  · intro active
    cases active

theorem window_delivered (positive : 0 < batchSize) (placed : Placed name stream)
    (clean : GuardClean (env.index name) stream.keyPrefix)
    (refilled : refillWindow name batchSize since levIdFloor env stream = (next,true)) :
    Delivered (env.index name) since levIdFloor stream next := by
  cases final : (collectWindow (env.index name) .Reverse stream.resumeKey stream.firstBatch batchSize).getLast? with
  | none =>
    rw [refillWindow_none (List.getLast?_eq_none_iff.mp final)] at refilled
    obtain ⟨rfl,_⟩ := Prod.mk.inj refilled
    exact drained_delivered _
  | some last =>
    obtain ⟨scanned,lastStored,lastWithin⟩ := window_scanned (env.index name) positive final
    have lastStorable := (env.index name).storable lastStored
    rw [refillWindow_some rfl final] at refilled
    generalize collectWindow (env.index name) .Reverse stream.resumeKey stream.firstBatch batchSize = batch at *
    split at refilled
    · obtain ⟨rfl,_⟩ := Prod.mk.inj refilled
      exact drained_delivered _
    · split at refilled
      · cases (Prod.mk.inj refilled).2
      · obtain ⟨rfl,_⟩ := Prod.mk.inj refilled
        have admitted : ∀ entry ∈ admittedOf since levIdFloor stream batch,
            entry ∈ batch ∧ Wanted name since levIdFloor stream.keyPrefix entry := by
          intro entry member
          have recent := List.mem_takeWhile_imp member
          obtain ⟨guarded,kept⟩ := List.mem_filter.mp ((List.takeWhile_sublist _).subset member)
          have here := (List.takeWhile_sublist _).subset guarded
          obtain ⟨stored,within⟩ := scanned.member entry here
          have storable := (env.index name).storable stored
          have top := placed.scope_value storable within
          have own : valuePart entry.1 = stream.keyPrefix := by
            rcases top.lt_or_eq with less | same
            · have refused := clean entry stored less
              have passed : stream.guard entry = true := List.mem_takeWhile_imp guarded
              unfold StreamState.guard at passed
              rw [refused] at passed
              cases passed
            · exact placed.own_of_rank storable.1 same
          exact ⟨here,storable,own,kept,by simpa using recent⟩
        refine ⟨?_,?_,?_⟩
        · intro x member
          obtain ⟨entry,inside,rfl⟩ := List.mem_map.mp member
          obtain ⟨here,wanted⟩ := admitted entry inside
          obtain ⟨stored,within⟩ := scanned.member entry here
          exact ⟨entry,stored,wanted,within,rfl⟩
        · change ((admittedOf since levIdFloor stream batch).map triple).Pairwise _
          rw [List.pairwise_map]
          refine (scanned.falling.sublist (admitted_sublist batch)).imp_of_mem ?_
          intro a b left right order
          have same := (admitted a left).2.own.trans (admitted b right).2.own.symm
          rw [Triple.sortKey,Triple.sortKey,Prod.Lex.toLex_lt_toLex]
          rcases order with less | ⟨equal,less⟩
          · exact .inl (keyRank_own same.symm less)
          · exact .inr ⟨congrArg createdAtFromKey equal.symm,less⟩
        · intro _ key storable own within x member
          obtain ⟨entry,inside,rfl⟩ := List.mem_map.mp member
          obtain ⟨here,wanted⟩ := admitted entry inside
          have reached := (scope_resume wanted.storable.1 lastStorable.1).not.mp (scanned.past entry here)
          have below : name.keyRank key < name.keyRank last.1 :=
            (scope_resume storable.1 lastStorable.1).mp within
          exact keyRank_own (own.trans wanted.own.symm) (below.trans_le (not_lt.mp reached))

end Shape

section Stream
variable {batchSize since : Nat} {levIdFloor : Floor} {world : World} {tick : Nat} {stream : StreamState}

-- A refill is one window that settles, or a window the floor emptied and a second one. Two
-- windows emptied by the floor count as the end of the stream.
inductive Refilled (name : IndexName) (batchSize since : Nat) (levIdFloor : Floor) (world : World) (tick : Nat)
    (stream : StreamState) : StreamState → Nat → Prop where
  | first {next} (window : refillWindow name batchSize since levIdFloor (world tick).env stream = (next,true)) :
      Refilled name batchSize since levIdFloor world tick stream next (tick + 1)
  | second {middle next}
      (floored : refillWindow name batchSize since levIdFloor (world tick).env stream = (middle,false))
      (window : refillWindow name batchSize since levIdFloor (world (tick + 1)).env middle = (next,true)) :
      Refilled name batchSize since levIdFloor world tick stream next (tick + 2)
  | floored {middle next}
      (floored : refillWindow name batchSize since levIdFloor (world tick).env stream = (middle,false))
      (window : refillWindow name batchSize since levIdFloor (world (tick + 1)).env middle = (next,false)) :
      Refilled name batchSize since levIdFloor world tick stream next.drained (tick + 2)

theorem refillStream_refilled : Refilled name batchSize since levIdFloor world tick stream
    (refillStream name batchSize since levIdFloor world tick stream).1
    (refillStream name batchSize since levIdFloor world tick stream).2 := by
  unfold refillStream
  simp only [refillAttempts]
  rcases first : refillWindow name batchSize since levIdFloor (world tick).env stream with ⟨middle,settled⟩
  cases settled with
  | true => exact .first first
  | false =>
    simp only [Bool.false_eq_true,if_false]
    rcases again : refillWindow name batchSize since levIdFloor (world (tick + 1)).env middle with ⟨next,settled⟩
    cases settled with
    | true => exact .second first again
    | false => exact .floored first again

variable {next : StreamState} {after : Nat}

theorem Refilled.later (refilled : Refilled name batchSize since levIdFloor world tick stream next after) :
    tick < after := by
  cases refilled <;> omega

theorem Refilled.advanced (refilled : Refilled name batchSize since levIdFloor world tick stream next after)
    (positive : 0 < batchSize) (placed : Placed name stream) (active : stream.exhausted = false) :
    Advanced name stream next true := by
  cases refilled with
  | first window => exact window_advanced positive placed window
  | second floored window =>
    have one := window_advanced positive placed floored
    have two := window_advanced positive one.placed window
    refine ⟨two.placed,two.value.trans one.value,?_,two.shown,(nomatch ·)⟩
    intro running key storable within
    exact one.narrower ((one.waiting rfl).trans active) key storable (two.narrower running key storable within)
  | floored floored window =>
    have one := window_advanced positive placed floored
    have two := window_advanced positive one.placed window
    exact ⟨two.placed.drained,two.value.trans one.value,(nomatch ·),fun _ => .inl rfl,(nomatch ·)⟩

-- The window after a floored one is settled by any wanted entry the first one left ahead.
theorem floored_owed {env later : Env} {middle : StreamState} {settled : Bool} (positive : 0 < batchSize)
    (placed : Placed name stream) (active : stream.exhausted = false) {entry : Entry}
    (wanted : Wanted name since levIdFloor stream.keyPrefix entry) (within : stream.scope name entry.1)
    (stored : entry ∈ (env.index name).entries) (again : entry ∈ (later.index name).entries)
    (floored : refillWindow name batchSize since levIdFloor env stream = (middle,false))
    (window : refillWindow name batchSize since levIdFloor later middle = (next,settled)) :
    settled = true ∧ (triple entry ∈ next.pending ∨ next.exhausted = false ∧ next.scope name entry.1) := by
  have one := window_advanced positive placed floored
  rcases window_owed positive placed active wanted stored within floored with ⟨impossible,_⟩ | ⟨_,running,inside,clear⟩
  · cases impossible
  · rw [← one.value] at wanted
    have settles := window_settles positive one.placed running clear wanted again inside window
    rcases window_owed positive one.placed running wanted again inside window with ⟨_,found⟩ | ⟨waiting,_⟩
    · exact ⟨settles,found⟩
    · rw [settles] at waiting
      cases waiting

-- A wanted entry that is stored whenever the refill reads is loaded or still lies ahead.
theorem Refilled.owed (refilled : Refilled name batchSize since levIdFloor world tick stream next after)
    (positive : 0 < batchSize) (placed : Placed name stream) (active : stream.exhausted = false) {entry : Entry}
    (wanted : Wanted name since levIdFloor stream.keyPrefix entry) (within : stream.scope name entry.1)
    (stored : ∀ t, tick ≤ t → t < after → entry ∈ ((world t).env.index name).entries) :
    triple entry ∈ next.pending ∨ next.exhausted = false ∧ next.scope name entry.1 := by
  have now := stored tick (le_refl _) refilled.later
  cases refilled with
  | first window =>
    rcases window_owed positive placed active wanted now within window with ⟨_,found⟩ | ⟨impossible,_⟩
    · exact found
    · cases impossible
  | second floored window =>
    exact (floored_owed positive placed active wanted within now (stored _ (by omega) (by omega)) floored window).2
  | floored floored window =>
    cases (floored_owed positive placed active wanted within now (stored _ (by omega) (by omega)) floored window).1

theorem Refilled.delivered (refilled : Refilled name batchSize since levIdFloor world tick stream next after)
    (positive : 0 < batchSize) (placed : Placed name stream) (active : stream.exhausted = false)
    (clean : ∀ t, GuardClean ((world t).env.index name) stream.keyPrefix) :
    ∃ t, tick ≤ t ∧ Delivered ((world t).env.index name) since levIdFloor stream next := by
  cases refilled with
  | first window => exact ⟨tick,le_refl _,window_delivered positive placed (clean tick) window⟩
  | second floored window =>
    have one := window_advanced positive placed floored
    have loaded := window_delivered positive one.placed (by rw [one.value]; exact clean _) window
    refine ⟨tick + 1,by omega,?_,loaded.falling,loaded.below⟩
    intro x member
    obtain ⟨entry,stored,wanted,within,same⟩ := loaded.member x member
    rw [one.value] at wanted
    exact ⟨entry,stored,wanted,one.narrower ((one.waiting rfl).trans active) _ wanted.storable within,same⟩
  | floored floored window => exact ⟨tick,le_refl _,drained_delivered _⟩

end Stream
end DeepFry.Query
