import DeepFry.Rescue.Delete

namespace DeepFry.Rescue.Delete

-- Deletion entry by entry: what every delete command answered, and what its answers make of each entry of the input.
section Poison
variable {W : Type}

abbrev Calls := List (List Bytes × Bool)

-- The same command, which notes its batches and answers beside the world.
def recorded (runDelete : List Bytes → W → Bool × W) (batch : List Bytes) (w : W × Calls) : Bool × W × Calls :=
  let answer := runDelete batch w.1
  (answer.1,(answer.2,w.2 ++ [(batch,answer.1)]))

variable {runDelete : List Bytes → W → Bool × W}

theorem oneByOne_recorded (ids : List Bytes) (res : Result) (w : W) (calls : Calls) :
    ((oneByOne (recorded runDelete) ids (res,w,calls)).1,(oneByOne (recorded runDelete) ids (res,w,calls)).2.1) =
      oneByOne runDelete ids (res,w) := by
  induction ids generalizing res w calls with
  | nil => rfl
  | cons id rest ih => exact ih _ _ _

-- The notes change nothing of the run.
theorem deleteRange_recorded (batchSize : Nat) (positive : 0 < batchSize) (ids : List Bytes) (acc : Result × W × Calls) :
    ((deleteRange (recorded runDelete) batchSize positive ids acc).1,(deleteRange (recorded runDelete) batchSize positive ids acc).2.1) =
      deleteRange runDelete batchSize positive ids (acc.1,acc.2.1) := by
  induction batchSize using Nat.strongRecOn generalizing ids acc with
  | ind batchSize smaller =>
    induction size : ids.length using Nat.strongRecOn generalizing ids acc with
    | ind length shorter =>
      rw [deleteRange]
      rw [deleteRange.eq_def runDelete]
      by_cases more : ids = []
      · rw [dif_pos more,dif_pos more]
      · rw [dif_neg more,dif_neg more]
        have less := rest_lt positive more
        have later := shorter (ids.drop batchSize).length (by omega) (ids.drop batchSize)
        refine (later _ rfl).trans ?_
        congr 1
        have answer : (recorded runDelete (ids.take batchSize) acc.2).1 = (runDelete (ids.take batchSize) acc.2.1).1 := rfl
        rw [answer]
        split
        · rfl
        · split
          · rfl
          · split
            · exact oneByOne_recorded _ _ _ _
            · rename_i small
              exact smaller (batchSize / 2) (half_lt positive) (half_pos small) _ _

-- An outcome marks every entry of the input: deleted, or failed.
abbrev Outcome := List (Bytes × Bool)

def Outcome.deleted (outcome : Outcome) : List Bytes := (outcome.filter (·.2)).map Prod.fst

def Outcome.failed (outcome : Outcome) : List Bytes := (outcome.filter (!·.2)).map Prod.fst

def marked (mark : Bool) (batch : List Bytes) : Outcome := batch.map (·,mark)

theorem marked_entries (mark : Bool) (batch : List Bytes) : (marked mark batch).map Prod.fst = batch := by
  simp [marked,Function.comp_def]

theorem marked_deleted (batch : List Bytes) : (marked true batch).deleted = batch ∧ (marked true batch).failed = [] := by
  simp [marked,Outcome.deleted,Outcome.failed,List.filter_map,Function.comp_def]

theorem marked_failed (batch : List Bytes) : (marked false batch).deleted = [] ∧ (marked false batch).failed = batch := by
  simp [marked,Outcome.deleted,Outcome.failed,List.filter_map,Function.comp_def]

theorem outcome_append (front back : Outcome) :
    Outcome.deleted (front ++ back) = front.deleted ++ back.deleted ∧ Outcome.failed (front ++ back) = front.failed ++ back.failed := by
  simp [Outcome.deleted,Outcome.failed]

-- A deleted entry was in a call that succeeded; a failed one was alone in a call that failed.
def answered (calls : Calls) (entry : Bytes × Bool) : Prop :=
  ∃ call ∈ calls, call.2 = entry.2 ∧ entry.1 ∈ call.1 ∧ (entry.2 = false → call.1 = [entry.1])

structure Settles (ids : List Bytes) (before after : Result × W × Calls) : Prop where
  outcome : ∃ outcome : Outcome, outcome.map Prod.fst = ids ∧ after.1.deleted = before.1.deleted ++ outcome.deleted ∧
    after.1.failed = before.1.failed ++ outcome.failed ∧ ∀ entry ∈ outcome, answered after.2.2 entry
  grows : before.2.2 ⊆ after.2.2

theorem answered_mono {calls later : Calls} {entry : Bytes × Bool} (grows : calls ⊆ later) (found : answered calls entry) : answered later entry := by
  obtain ⟨call,made,facts⟩ := found
  exact ⟨call,grows made,facts⟩

theorem settles_rules : Rules (recorded runDelete) Settles where
  none acc := ⟨⟨[],rfl,by simp [Outcome.deleted],by simp [Outcome.failed],by simp⟩,fun _ made => made⟩
  append := by
    intro front back first second third before after
    obtain ⟨⟨left,entriesL,deletedL,failedL,answeredL⟩,growsL⟩ := before
    obtain ⟨⟨right,entriesR,deletedR,failedR,answeredR⟩,growsR⟩ := after
    obtain ⟨deleted,failed⟩ := outcome_append left right
    refine ⟨⟨left ++ right,?_,?_,?_,?_⟩,fun _ made => growsR (growsL made)⟩
    · rw [List.map_append,entriesL,entriesR]
    · rw [deletedR,deletedL,deleted,List.append_assoc]
    · rw [failedR,failedL,failed,List.append_assoc]
    · intro entry member
      rcases List.mem_append.mp member with old | new
      · exact answered_mono growsR (answeredL entry old)
      · exact answeredR entry new
  deleted := by
    intro batch acc _ done
    obtain ⟨deleted,failed⟩ := marked_deleted batch
    refine ⟨⟨marked true batch,marked_entries true batch,?_,?_,?_⟩,fun _ made => List.mem_append_left _ made⟩
    · rw [deleted]
      rfl
    · rw [failed,List.append_nil]
      rfl
    · intro entry member
      obtain ⟨id,inside,same⟩ := List.mem_map.mp member
      rw [← same]
      refine ⟨(batch,(runDelete batch acc.2.1).1),List.mem_append_right _ List.mem_cons_self,done,inside,?_⟩
      intro wrong
      cases wrong
  failed := by
    intro id acc refused
    obtain ⟨deleted,failed⟩ := marked_failed [id]
    refine ⟨⟨marked false [id],marked_entries false [id],?_,?_,?_⟩,fun _ made => List.mem_append_left _ made⟩
    · rw [deleted,List.append_nil]
      rfl
    · rw [failed]
      rfl
    · intro entry member
      rw [List.mem_singleton.mp member]
      exact ⟨([id],(runDelete [id] acc.2.1).1),List.mem_append_right _ List.mem_cons_self,refused,List.mem_cons_self,fun _ => rfl⟩
  retried := by
    intro batch acc next _ again
    obtain ⟨outcome,grows⟩ := again
    exact ⟨outcome,fun _ made => grows (List.mem_append_left _ made)⟩

-- Calls on ids of the input fail exactly when a poisoned id is among them.
def Poisoned (runDelete : List Bytes → W → Bool × W) (ids : List Bytes) (poison : Bytes → Bool) : Prop :=
  ∀ batch w, batch ≠ [] → (∀ id ∈ batch, id ∈ ids) → ((runDelete batch w).1 = false ↔ ∃ id ∈ batch, poison id = true)

def Isolates (poison : Bytes → Bool) (all ids : List Bytes) (before after : Result × W) : Prop :=
  (∀ id ∈ ids, id ∈ all) → after.1.deleted = before.1.deleted ++ ids.filter (!poison ·) ∧ after.1.failed = before.1.failed ++ ids.filter poison

theorem isolates_rules {all : List Bytes} {poison : Bytes → Bool} (poisoned : Poisoned runDelete all poison) :
    Rules runDelete (Isolates poison all) where
  none acc _ := by simp
  append := by
    intro front back first second third before after inside
    obtain ⟨deletedL,failedL⟩ := before fun id member => inside id (List.mem_append_left _ member)
    obtain ⟨deletedR,failedR⟩ := after fun id member => inside id (List.mem_append_right _ member)
    rw [deletedR,deletedL,failedR,failedL]
    simp
  deleted := by
    intro batch acc some_ids done inside
    have clean : ∀ id ∈ batch, poison id = false := by
      intro id member
      by_contra bad
      have refused := (poisoned batch acc.2 some_ids inside).mpr ⟨id,member,Bool.not_eq_false _ ▸ bad⟩
      rw [done] at refused
      cases refused
    have kept : batch.filter (!poison ·) = batch := List.filter_eq_self.mpr fun id member => by rw [clean id member]; rfl
    have none : batch.filter poison = [] := List.filter_eq_nil_iff.mpr fun id member => by rw [clean id member]; exact Bool.false_ne_true
    rw [kept,none,List.append_nil]
    exact ⟨rfl,rfl⟩
  failed := by
    intro id acc refused inside
    obtain ⟨bad,member,poisons⟩ := (poisoned [id] acc.2 (List.cons_ne_nil _ _) inside).mp refused
    rw [List.mem_singleton.mp member] at poisons
    simp [Result.fail,poisons]
  retried := by
    intro batch acc next _ again
    exact again

theorem outcome_once {outcome : Outcome} (distinct : (outcome.map Prod.fst).Nodup) {id : Bytes} (member : id ∈ outcome.map Prod.fst) :
    id ∈ outcome.deleted ↔ id ∉ outcome.failed := by
  obtain ⟨entry,listed,same⟩ := List.mem_map.mp member
  have only : ∀ other ∈ outcome, other.1 = id → other = entry := by
    intro other there equal
    exact List.inj_on_of_nodup_map distinct there listed (equal.trans same.symm)
  have marked (p : Bytes × Bool → Bool) : id ∈ (outcome.filter p).map Prod.fst ↔ p entry = true := by
    constructor
    · intro found
      obtain ⟨other,there,equal⟩ := List.mem_map.mp found
      obtain ⟨inside,mark⟩ := List.mem_filter.mp there
      rw [only other inside equal] at mark
      exact mark
    · intro mark
      exact List.mem_map.mpr ⟨entry,List.mem_filter.mpr ⟨listed,mark⟩,same⟩
  have deleted : id ∈ outcome.deleted ↔ entry.2 = true := marked _
  have failed : id ∈ outcome.failed ↔ (!entry.2) = true := marked _
  rw [deleted,failed]
  cases entry.2 <;> simp

-- Every entry of the input is in one of the lists, the lists keep the order of the input, a deleted id was in a call that succeeded,
-- and where calls fail for the poisoned ids alone, these are what fails.
theorem deleteRange_isolates (runDelete : List Bytes → W → Bool × W) (batchSize : Nat) (positive : 0 < batchSize) (ids : List Bytes) (w : W) :
    let run := deleteRange (recorded runDelete) batchSize positive ids (⟨[],[]⟩,w,[])
    (run.1,run.2.1) = deleteRange runDelete batchSize positive ids (⟨[],[]⟩,w) ∧
      (∃ outcome : Outcome, outcome.map Prod.fst = ids ∧ run.1.deleted = outcome.deleted ∧ run.1.failed = outcome.failed) ∧
      run.1.deleted.Sublist ids ∧ run.1.failed.Sublist ids ∧
      (ids.Nodup → ∀ id ∈ ids, id ∈ run.1.deleted ↔ id ∉ run.1.failed) ∧
      (∀ id ∈ run.1.deleted, ∃ call ∈ run.2.2, call.2 = true ∧ id ∈ call.1) ∧
      ∀ poison : Bytes → Bool, Poisoned runDelete ids poison → run.1.failed = ids.filter poison ∧ run.1.deleted = ids.filter (!poison ·) := by
  intro run
  have erased : (run.1,run.2.1) = deleteRange runDelete batchSize positive ids (⟨[],[]⟩,w) := deleteRange_recorded _ _ _ _
  have rules : Rules (recorded runDelete) Settles := settles_rules
  obtain ⟨⟨outcome,entries,deleted,failed,calls⟩,_⟩ := rules.deleteRange batchSize positive ids (⟨[],[]⟩,w,[])
  have deleted : run.1.deleted = outcome.deleted := deleted
  have failed : run.1.failed = outcome.failed := failed
  refine ⟨erased,⟨outcome,entries,deleted,failed⟩,?_,?_,?_,?_,?_⟩
  · rw [deleted,← entries]
    exact List.filter_sublist.map _
  · rw [failed,← entries]
    exact List.filter_sublist.map _
  · intro distinct id member
    rw [deleted,failed]
    rw [← entries] at distinct member
    exact outcome_once distinct member
  · intro id member
    rw [deleted] at member
    obtain ⟨entry,listed,same⟩ := List.mem_map.mp member
    obtain ⟨inside,mark⟩ := List.mem_filter.mp listed
    obtain ⟨call,made,answer,there,_⟩ := calls entry inside
    rw [← same]
    exact ⟨call,made,answer.trans mark,there⟩
  · intro poison poisoned
    obtain ⟨kept,refused⟩ := (isolates_rules poisoned).deleteRange batchSize positive ids (⟨[],[]⟩,w) fun _ member => member
    rw [← erased] at kept refused
    exact ⟨refused,kept⟩

-- The second id is poison, in a batch of three and then of one.
def refuses (poison : Bytes) (batch : List Bytes) (calls : Nat) : Bool × Nat := (decide (poison ∉ batch),calls + 1)

theorem refuses_poisoned (poison : Bytes) (ids : List Bytes) : Poisoned (refuses poison) ids (· == poison) := by
  intro batch calls _ _
  simp [refuses]

theorem deleteRange_isolates_second : let run := deleteRange (refuses [112]) 3 (by decide) [[97],[112],[98],[99]] (⟨[],[]⟩,0)
    run.1.failed = [[112]] ∧ run.1.deleted = [[97],[98],[99]] := by
  obtain ⟨erased,_,_,_,_,_,isolated⟩ := deleteRange_isolates (refuses [112]) 3 (by decide) [[97],[112],[98],[99]] 0
  obtain ⟨failed,deleted⟩ := isolated _ (refuses_poisoned _ _)
  rw [← erased]
  exact ⟨failed,deleted⟩

-- One id twice in the input, deleted by the first call and failed by the second.
def everyOther (_ : List Bytes) (calls : Nat) : Bool × Nat := (decide (calls % 2 = 0),calls + 1)

theorem deleteRange_isolates_fails : ¬ ∀ (runDelete : List Bytes → Nat → Bool × Nat) (batchSize : Nat) (positive : 0 < batchSize)
    (ids : List Bytes) (w : Nat), ∀ id ∈ ids, id ∈ (deleteRange runDelete batchSize positive ids (⟨[],[]⟩,w)).1.deleted ↔
      id ∉ (deleteRange runDelete batchSize positive ids (⟨[],[]⟩,w)).1.failed := by
  intro once
  have twice := once everyOther 1 (by decide) [[97],[97]] 0 [97] (by simp)
  have run : (deleteRange everyOther 1 (by decide) [[97],[97]] (⟨[],[]⟩,0)).1 = ⟨[[97]],[[97]]⟩ := by
    rw [deleteRange,deleteRange,deleteRange]
    rfl
  rw [run] at twice
  simp at twice

end Poison

end DeepFry.Rescue.Delete
