import DeepFry.Rescue.Export

namespace DeepFry.Rescue.Delete

-- Phase 4: deletion by id, in batches that are halved when a call fails.
def defaultBatchSize : Nat := 500

def minBatchSize : Nat := 8

structure Result where
  deleted : List Bytes
  failed : List Bytes
deriving Repr,DecidableEq

def Result.delete (res : Result) (ids : List Bytes) : Result := {res with deleted := res.deleted ++ ids}

def Result.fail (res : Result) (ids : List Bytes) : Result := {res with failed := res.failed ++ ids}

section Range

-- One delete command: whether it succeeded, and what it made of the world.
variable {W : Type} (runDelete : List Bytes → W → Bool × W)

def oneByOne : List Bytes → Result × W → Result × W
  | [],acc => acc
  | id :: rest,acc =>
    let answer := runDelete [id] acc.2
    oneByOne rest (if answer.1 then acc.1.delete [id] else acc.1.fail [id],answer.2)

theorem half_pos {batchSize : Nat} (large : ¬ batchSize / 2 < minBatchSize) : 0 < batchSize / 2 := by
  unfold minBatchSize at large
  omega

theorem half_lt {batchSize : Nat} (positive : 0 < batchSize) : batchSize / 2 < batchSize := Nat.div_lt_self positive (by decide)

theorem rest_lt {batchSize : Nat} (positive : 0 < batchSize) {ids : List Bytes} (more : ids ≠ []) :
    (ids.drop batchSize).length < ids.length := by
  have some_ids := List.length_pos_iff.mpr more
  rw [List.length_drop]
  omega

def deleteRange (batchSize : Nat) (positive : 0 < batchSize) (ids : List Bytes) (acc : Result × W) : Result × W :=
  if _ : ids = [] then acc
  else
    let batch := ids.take batchSize
    let answer := runDelete batch acc.2
    let next :=
      if answer.1 then (acc.1.delete batch,answer.2)
      else if batch.length = 1 then (acc.1.fail batch,answer.2)
      else if small : batchSize / 2 < minBatchSize then oneByOne runDelete batch (acc.1,answer.2)
      else deleteRange (batchSize / 2) (half_pos small) batch (acc.1,answer.2)
    deleteRange batchSize positive (ids.drop batchSize) next
termination_by (batchSize,ids.length)
decreasing_by
  · exact Prod.Lex.left _ _ (half_lt positive)
  · exact Prod.Lex.right _ (rest_lt positive ‹¬ ids = []›)

def batchSizeOf (configured : Int) : Nat := if configured ≤ 0 then defaultBatchSize else configured.toNat

theorem batchSizeOf_pos (configured : Int) : 0 < batchSizeOf configured := by
  unfold batchSizeOf defaultBatchSize
  split <;> omega

def deleteByIDs (batchSize : Int) (ids : List Bytes) (w : W) : Result × W :=
  deleteRange runDelete (batchSizeOf batchSize) (batchSizeOf_pos batchSize) ids (⟨[],[]⟩,w)

-- What a pass does to the lists and to the world, from any of them.
structure Passed (ids : List Bytes) (before after : Result × W) : Prop where
  split : (after.1.deleted ++ after.1.failed).Perm (before.1.deleted ++ before.1.failed ++ ids)
  invariant : ∀ good : W → Prop, (∀ batch w, (∀ id ∈ batch, id ∈ ids) → good w → good (runDelete batch w).2) →
    good before.2 → good after.2

variable {runDelete} {ids : List Bytes} {acc : Result × W}

theorem delete_split (res : Result) (batch : List Bytes) :
    ((res.delete batch).deleted ++ (res.delete batch).failed).Perm (res.deleted ++ res.failed ++ batch) := by
  simp only [Result.delete,List.append_assoc]
  exact List.perm_append_comm.append_left res.deleted

theorem fail_split (res : Result) (batch : List Bytes) :
    ((res.fail batch).deleted ++ (res.fail batch).failed).Perm (res.deleted ++ res.failed ++ batch) := by
  simp only [Result.fail,List.append_assoc]
  exact List.Perm.refl _

theorem Passed.trans {front back : List Bytes} {first second third : Result × W}
    (before : Passed runDelete front first second) (after : Passed runDelete back second third) :
    Passed runDelete (front ++ back) first third := by
  refine ⟨?_,?_⟩
  · rw [← List.append_assoc]
    exact after.split.trans (before.split.append_right back)
  · intro good kept holds
    apply after.invariant good
    · intro batch w inside
      exact kept batch w fun id member => List.mem_append_right front (inside id member)
    · apply before.invariant good _ holds
      intro batch w inside
      exact kept batch w fun id member => List.mem_append_left back (inside id member)

-- One call on a batch, after which the batch is in one of the lists.
theorem Passed.call {batch : List Bytes} {next : Result × W} (world : next.2 = (runDelete batch acc.2).2)
    (split : (next.1.deleted ++ next.1.failed).Perm (acc.1.deleted ++ acc.1.failed ++ batch)) :
    Passed runDelete batch acc next := by
  refine ⟨split,?_⟩
  intro good kept holds
  rw [world]
  exact kept batch acc.2 (fun _ member => member) holds

-- A call that failed, and then another pass over the same batch.
theorem Passed.retry {batch : List Bytes} {next : Result × W}
    (again : Passed runDelete batch (acc.1,(runDelete batch acc.2).2) next) : Passed runDelete batch acc next := by
  refine ⟨again.split,?_⟩
  intro good kept holds
  exact again.invariant good kept (kept batch acc.2 (fun _ member => member) holds)

-- What holds of every pass: it holds of a call that succeeded and of a single id that failed, of one pass after another and of a
-- pass that follows a failed call on its batch.
structure Rules (runDelete : List Bytes → W → Bool × W) (R : List Bytes → Result × W → Result × W → Prop) : Prop where
  none : ∀ acc, R [] acc acc
  append : ∀ {front back first second third}, R front first second → R back second third → R (front ++ back) first third
  deleted : ∀ {batch acc}, batch ≠ [] → (runDelete batch acc.2).1 = true → R batch acc (acc.1.delete batch,(runDelete batch acc.2).2)
  failed : ∀ {id acc}, (runDelete [id] acc.2).1 = false → R [id] acc (acc.1.fail [id],(runDelete [id] acc.2).2)
  retried : ∀ {batch acc next}, (runDelete batch acc.2).1 = false → R batch (acc.1,(runDelete batch acc.2).2) next → R batch acc next

theorem Rules.oneByOne {R : List Bytes → Result × W → Result × W → Prop} (rules : Rules runDelete R) (ids : List Bytes) (acc : Result × W) :
    R ids acc (oneByOne runDelete ids acc) := by
  induction ids generalizing acc with
  | nil => exact rules.none acc
  | cons id rest ih =>
    rw [Delete.oneByOne]
    have first : R [id] acc (if (runDelete [id] acc.2).1 then acc.1.delete [id] else acc.1.fail [id],(runDelete [id] acc.2).2) := by
      split
      · rename_i done
        exact rules.deleted (List.cons_ne_nil _ _) done
      · rename_i refused
        exact rules.failed (Bool.eq_false_iff.mpr refused)
    exact rules.append first (ih _)

theorem Rules.deleteRange {R : List Bytes → Result × W → Result × W → Prop} (rules : Rules runDelete R) (batchSize : Nat)
    (positive : 0 < batchSize) (ids : List Bytes) (acc : Result × W) : R ids acc (deleteRange runDelete batchSize positive ids acc) := by
  induction batchSize using Nat.strongRecOn generalizing ids acc with
  | ind batchSize smaller =>
    induction size : ids.length using Nat.strongRecOn generalizing ids acc with
    | ind length shorter =>
      rw [Delete.deleteRange]
      by_cases more : ids = []
      · rw [dif_pos more,more]
        exact rules.none acc
      · rw [dif_neg more]
        have less := rest_lt positive more
        have later := fun acc => shorter (ids.drop batchSize).length (by omega) (ids.drop batchSize) acc rfl
        have whole := List.take_append_drop batchSize ids
        have joined : ∀ next, R (ids.take batchSize) acc next →
            R ids acc (Delete.deleteRange runDelete batchSize positive (ids.drop batchSize) next) := by
          intro next first
          have both := rules.append first (later next)
          rwa [whole] at both
        have some_ids : ids.take batchSize ≠ [] := by
          rw [← List.length_pos_iff,List.length_take]
          have := List.length_pos_iff.mpr more
          omega
        apply joined
        split
        · rename_i done
          exact rules.deleted some_ids done
        · rename_i refused
          have refused := Bool.eq_false_iff.mpr refused
          split
          · rename_i single
            obtain ⟨id,only⟩ := List.length_eq_one_iff.mp single
            rw [only] at refused ⊢
            exact rules.failed refused
          · split
            · exact rules.retried refused (rules.oneByOne _ _)
            · rename_i small
              exact rules.retried refused (smaller (batchSize / 2) (half_lt positive) (half_pos small) _ _)

theorem passed_rules : Rules runDelete (Passed runDelete) where
  none acc := ⟨by rw [List.append_nil],fun _ _ holds => holds⟩
  append := Passed.trans
  deleted _ _ := .call rfl (delete_split _ _)
  failed _ := .call rfl (fail_split _ _)
  retried _ again := again.retry

theorem deleteRange_passed (batchSize : Nat) (positive : 0 < batchSize) (ids : List Bytes) (acc : Result × W) :
    Passed runDelete ids acc (deleteRange runDelete batchSize positive ids acc) := passed_rules.deleteRange batchSize positive ids acc

theorem deleteByIDs_passed (batchSize : Int) (ids : List Bytes) (w : W) :
    Passed runDelete ids (⟨[],[]⟩,w) (deleteByIDs runDelete batchSize ids w) := deleteRange_passed _ _ _ _

end Range

end DeepFry.Rescue.Delete
