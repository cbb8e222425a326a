import DeepFry.Spamhunter.Weights

namespace DeepFry.Spamhunter

-- The parameters a run is stamped with. The adapter's address and the batch sizes beside them are left out.
structure Snapshot (F : Type) where
  tau : F
  bias : F
  weights : List (Weight F)
deriving DecidableEq

-- What run_batch stamps a run with, from the configuration and the rows it read.
def snapshot {F : Type} (config : Config F) (weights : List (Weight F)) : Snapshot F where
  tau := ((weights.find? (·.layer = THRESHOLD_KEY)).bind (·.threshold)).getD config.tau
  bias := ((weights.find? (·.layer = BIAS_KEY)).map (·.weight)).getD config.bias
  weights := weights

structure SuspectedSpammer (F : Type) where
  runId : Nat
  pubkey : Str
  score : F
  tau : F
  rank : Nat
  exportedAt : Int
deriving DecidableEq

variable {F : Type} [LinearOrder F]

-- ORDER BY score DESC, pubkey ASC
def reviewOrder (entry : Str × F) : Fᵒᵈ ×ₗ Str := toLex (OrderDual.toDual entry.2,entry.1)

-- .. FROM score WHERE run_id = ?1 AND suspected = 1
def suspects (db : Tables F) (runId : Nat) : List (Str × F) :=
  ((db.score.entries.filter fun entry => entry.1.1 = runId && entry.2.suspected).map fun entry => (entry.1.2,entry.2.score)).insertionSort
    fun a b => reviewOrder a ≤ reviewOrder b

def ranked (runId : Nat) (tau : F) (exportedAt : Int) (listed : List (Str × F)) : List (SuspectedSpammer F) :=
  listed.zipIdx.map fun entry => ⟨runId,entry.1.1,entry.1.2,tau,entry.2 + 1,exportedAt⟩

-- The parameter reads a snapshot back from its column; none: the run is missing or its snapshot holds no threshold.
def materializeSuspected (fromJson : Str → Option (Snapshot F)) (now : Int) (runId : Nat) (runs : Runs) (db : Tables F)
    (table : List (SuspectedSpammer F)) : Option (List (SuspectedSpammer F)) :=
  match (runs.row runId).bind fun run => fromJson run.configJson with
  | none => none
  | some snapshot => some (table.filter (·.runId ≠ runId) ++ ranked runId snapshot.tau now (suspects db runId))

section Listing
variable {db : Tables F} {runId : Nat}

theorem mem_suspects {pk : Str} {x : F} :
    (pk,x) ∈ suspects db runId ↔ ∃ row, db.score.lookup (runId,pk) = some row ∧ row.suspected = true ∧ row.score = x := by
  rw [suspects,List.mem_insertionSort,List.mem_map]
  constructor
  · intro listed
    obtain ⟨entry,member,same⟩ := listed
    obtain ⟨stored,held⟩ := List.mem_filter.mp member
    simp only [Bool.and_eq_true,decide_eq_true_eq] at held
    obtain ⟨⟨owner,pubkey⟩,row⟩ := entry
    cases same
    obtain ⟨own,flagged⟩ := held
    cases own
    exact ⟨row,AList.mem_lookup_iff.mpr stored,flagged,rfl⟩
  · intro found
    obtain ⟨row,stored,flagged,rfl⟩ := found
    exact ⟨⟨(runId,pk),row⟩,List.mem_filter.mpr ⟨AList.mem_lookup_iff.mp stored,by simp [flagged]⟩,rfl⟩

theorem suspects_distinct (db : Tables F) (runId : Nat) : ((suspects db runId).map Prod.fst).Nodup := by
  have sorted := List.perm_insertionSort (fun a b : Str × F => reviewOrder a ≤ reviewOrder b)
    ((db.score.entries.filter fun entry => entry.1.1 = runId && entry.2.suspected).map fun entry => (entry.1.2,entry.2.score))
  rw [suspects,(sorted.map Prod.fst).nodup_iff,List.map_map]
  apply List.Nodup.map_on
  · intro a first b second same
    have left := (List.mem_filter.mp first).2
    have right := (List.mem_filter.mp second).2
    simp only [Bool.and_eq_true,decide_eq_true_eq] at left right
    have keys : a.1 = b.1 := Prod.ext (left.1.trans right.1.symm) same
    have found := AList.mem_lookup_iff.mpr (List.mem_of_mem_filter first)
    have again := AList.mem_lookup_iff.mpr (List.mem_of_mem_filter second)
    obtain ⟨key,row⟩ := a
    obtain ⟨other,value⟩ := b
    cases keys
    cases found.symm.trans again
    rfl
  · have keyed : (db.score.entries.map (·.1)).Nodup := db.score.keys_nodup
    exact (List.Nodup.of_map _ keyed).filter _

-- The better score first, and of two equal ones the smaller key.
theorem suspects_ordered (db : Tables F) (runId : Nat) :
    (suspects db runId).Pairwise fun a b => b.2 < a.2 ∨ a.2 = b.2 ∧ a.1 < b.1 := by
  have sorted : (suspects db runId).Pairwise fun a b => reviewOrder a ≤ reviewOrder b := List.pairwise_insertionSort _ _
  have distinct := List.pairwise_map.mp (suspects_distinct db runId)
  apply (sorted.and distinct).imp
  intro a b both
  obtain ⟨before,apart⟩ := both
  rw [reviewOrder,reviewOrder,Prod.Lex.toLex_le_toLex] at before
  obtain less | ⟨same,less⟩ := before
  · exact .inl less
  · exact .inr ⟨OrderDual.toDual.injective same,lt_of_le_of_ne less apart⟩

-- However often a run is exported, its rows are its suspects in that order, and those of other runs stand.
theorem materialized {fromJson : Str → Option (Snapshot F)} {runs : Runs} {run : Run} {stamp : Snapshot F} (stored : run ∈ runs.rows)
    (parsed : fromJson run.configJson = some stamp) (now : Int) (table : List (SuspectedSpammer F)) :
    ∃ rows, materializeSuspected fromJson now run.runId runs db table = some rows ∧
      rows.filter (·.runId = run.runId) = ranked run.runId stamp.tau now (suspects db run.runId) ∧
      rows.filter (·.runId ≠ run.runId) = table.filter (·.runId ≠ run.runId) := by
  have found : runs.row run.runId = some run := row_some.mpr ⟨stored,rfl⟩
  have own : ∀ row ∈ ranked run.runId stamp.tau now (suspects db run.runId), row.runId = run.runId := by
    intro row listed
    obtain ⟨entry,_,rfl⟩ := List.mem_map.mp listed
    rfl
  refine ⟨_,by rw [materializeSuspected,found,Option.bind_some,parsed],?_,?_⟩
  · rw [List.filter_append,List.filter_filter]
    have none : (table.filter fun row => decide (row.runId = run.runId) && decide (row.runId ≠ run.runId)) = [] := by
      rw [List.filter_eq_nil_iff]
      intro row _
      by_cases same : row.runId = run.runId <;> simp [same]
    rw [none,List.nil_append,List.filter_eq_self]
    exact fun row listed => decide_eq_true (own row listed)
  · rw [List.filter_append,List.filter_filter]
    have none : (ranked run.runId stamp.tau now (suspects db run.runId)).filter (fun row => decide (row.runId ≠ run.runId)) = [] := by
      rw [List.filter_eq_nil_iff]
      intro row listed
      simp [own row listed]
    rw [none,List.append_nil]
    simp

end Listing
end DeepFry.Spamhunter
