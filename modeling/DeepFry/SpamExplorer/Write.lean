import DeepFry.SpamExplorer.Score

namespace DeepFry.SpamExplorer
open Hops

structure Record where
  pubkey : Str
  validFollowerCount : Nat
deriving DecidableEq

-- sort.Slice by pubkey; equal pubkeys may come in any order.
structure SortSlice where
  sort : List Record → List Record
  complete : ∀ records, (sort records).Perm records
  sorted : ∀ records, (sort records).Pairwise fun a b => a.pubkey ≤ b.pubkey

-- Where the file is created and each record is encoded; both may fail.
structure Disk (δ : Type) where
  create : Str → Option δ
  encode : Nat → Record → Option δ

inductive WriteError (δ : Type) where
  | create (path : Str) (err : δ)
  | encode (pubkey : Str) (err : δ)

structure Written (δ : Type) where
  lines : List Record
  emitted : Nat
  err : Option (WriteError δ)

-- A uid without a level reads as level 0, one without a pubkey as empty.
def survivor (levels : Table Nat) (pubkeys : Table Str) (threshold k : Int) (entry : Σ _ : Str, Nat) : Option Record :=
  if (((levels.lookup entry.1).getD 0 : Nat) : Int) ≤ k then none
  else if threshold ≤ entry.2 then none
  else
    let pubkey := (pubkeys.lookup entry.1).getD []
    if pubkey = [] then none else some ⟨pubkey,entry.2⟩

def encodeAll {δ : Type} (disk : Disk δ) : Nat → List Record → Written δ
  | emitted,[] => ⟨[],emitted,none⟩
  | emitted,rec :: rest =>
    match disk.encode emitted rec with
    | some err => ⟨[],emitted,some (.encode rec.pubkey err)⟩
    | none =>
      let written := encodeAll disk (emitted+1) rest
      ⟨rec :: written.lines,written.emitted,written.err⟩

def collected (order : Tally.Order (Σ _ : Str, Nat)) (scored levels : Table Nat) (pubkeys : Table Str) (threshold k : Int) : List Record :=
  (order.order scored.entries).filterMap (survivor levels pubkeys threshold k)

def write {δ : Type} (disk : Disk δ) (sorter : SortSlice) (order : Tally.Order (Σ _ : Str, Nat)) (path : Str) (scored levels : Table Nat)
    (pubkeys : Table Str) (threshold k : Int) : Written δ :=
  let records := sorter.sort (collected order scored levels pubkeys threshold k)
  match disk.create path with
  | some err => ⟨[],0,some (.create path err)⟩
  | none => encodeAll disk 0 records

section Emission
variable {δ : Type} {disk : Disk δ}

theorem encodeAll_emitted (disk : Disk δ) (emitted : Nat) (records : List Record) :
    (encodeAll disk emitted records).emitted = emitted + (encodeAll disk emitted records).lines.length ∧
      (encodeAll disk emitted records).lines <+: records ∧
      ((encodeAll disk emitted records).err.isNone → (encodeAll disk emitted records).lines = records) := by
  induction records generalizing emitted with
  | nil => exact ⟨rfl,List.nil_prefix,fun _ => rfl⟩
  | cons rec rest ih =>
    obtain ⟨count,front,whole⟩ := ih (emitted+1)
    rw [encodeAll]
    cases disk.encode emitted rec with
    | some err => exact ⟨rfl,List.nil_prefix,fun clean => by cases clean⟩
    | none =>
      refine ⟨?_,?_,?_⟩
      · simp only [List.length_cons]
        omega
      · exact (List.prefix_cons_inj rec).mpr front
      · intro clean
        exact congrArg (rec :: ·) (whole clean)

end Emission

section Exact
variable {g : FollowGraph} {seed : Str} {maxLevel : Int} {leveled : Leveled} {d : Nat} {frontier : List Str}

-- What Write is for: a node that is levelled, is not the seed, has a pubkey, lies below the shells and has too few valid followers.
structure FollowGraph.Candidate (g : FollowGraph) (seed : Str) (maxLevel threshold k : Int) (v : Str) : Prop where
  other : v ≠ seed
  named : g.pubkey v ≠ []
  few : g.validFollowers seed v < threshold
  deep : ∃ level, Dist g.Follows seed level v ∧ Kept maxLevel level ∧ k < level

noncomputable def FollowGraph.record (g : FollowGraph) (seed v : Str) : Record := ⟨g.pubkey v,g.validFollowers seed v⟩

theorem Stopped.survives (stopped : Stopped g seed maxLevel leveled d frontier) (orderA : Tally.Order (Σ _ : Str, List Str)) {threshold k : Int}
    {entry : Σ _ : Str, Nat} (scored : entry ∈ (score orderA leveled.levels leveled.adjacency).entries) (r : Record) :
    survivor leveled.levels leveled.pubkeys threshold k entry = some r ↔
      g.Candidate seed maxLevel threshold k entry.1 ∧ r = g.record seed entry.1 := by
  obtain ⟨v,vfc⟩ := entry
  obtain ⟨kept,other,count⟩ := (stopped.lookup_score orderA).mp (AList.mem_lookup_iff.mpr scored)
  obtain ⟨level,held⟩ := Option.isSome_iff_exists.mp (AList.lookup_isSome.mpr kept)
  obtain ⟨dist,within⟩ := (stopped.levels v level).mp held
  have named : (leveled.pubkeys.lookup v).getD [] = g.pubkey v := stopped.walked.named v kept other
  unfold survivor
  simp only [held,named,Option.getD_some,count]
  constructor
  · intro found
    split at found
    · cases found
    · rename_i below
      split at found
      · cases found
      · rename_i few
        split at found
        · cases found
        · rename_i full
          refine ⟨⟨other,full,by omega,level,dist,within,by omega⟩,?_⟩
          exact (Option.some.inj found).symm
  · intro both
    obtain ⟨candidate,same⟩ := both
    obtain ⟨level',dist',_,below⟩ := candidate.deep
    rw [dist'.unique dist] at below
    have few := candidate.few
    rw [if_neg (by omega),if_neg (by omega),if_neg candidate.named,same]
    rfl

theorem Stopped.mem_collected (stopped : Stopped g seed maxLevel leveled d frontier) (orderA : Tally.Order (Σ _ : Str, List Str))
    (orderS : Tally.Order (Σ _ : Str, Nat)) (threshold k : Int) (r : Record) :
    r ∈ collected orderS (score orderA leveled.levels leveled.adjacency) leveled.levels leveled.pubkeys threshold k ↔
      ∃ v, g.Candidate seed maxLevel threshold k v ∧ r = g.record seed v := by
  unfold collected
  rw [List.mem_filterMap]
  constructor
  · intro found
    obtain ⟨entry,listed,survives⟩ := found
    exact ⟨entry.1,(stopped.survives orderA ((orderS.complete _).mem_iff.mp listed) r).mp survives⟩
  · intro found
    obtain ⟨v,candidate,same⟩ := found
    obtain ⟨level,dist,within,_⟩ := candidate.deep
    have kept : v ∈ leveled.levels := AList.lookup_isSome.mp (by rw [(stopped.levels v level).mpr ⟨dist,within⟩]; rfl)
    have scored := AList.mem_lookup_iff.mp ((stopped.lookup_score orderA).mpr ⟨kept,candidate.other,rfl⟩)
    exact ⟨⟨v,g.validFollowers seed v⟩,(orderS.complete _).mem_iff.mpr scored,(stopped.survives orderA scored r).mpr ⟨candidate,same⟩⟩

-- No two nodes share a pubkey.
def FollowGraph.Distinct (g : FollowGraph) : Prop := ∀ u v, g.pubkey u ≠ [] → g.pubkey u = g.pubkey v → u = v

theorem Stopped.apart (stopped : Stopped g seed maxLevel leveled d frontier) (orderA : Tally.Order (Σ _ : Str, List Str))
    (orderS : Tally.Order (Σ _ : Str, Nat)) (threshold k : Int) (distinct : g.Distinct) :
    (collected orderS (score orderA leveled.levels leveled.adjacency) leveled.levels leveled.pubkeys threshold k).Pairwise
      fun a b => a.pubkey ≠ b.pubkey := by
  let vfc := score orderA leveled.levels leveled.adjacency
  have keyed : (orderS.order vfc.entries).Pairwise fun a b => a.1 ≠ b.1 := by
    apply ((orderS.complete _).pairwise_iff fun apart => apart.symm).mpr
    exact List.nodupKeys_iff_pairwise.mp vfc.nodupKeys
  unfold collected
  apply List.pairwise_filterMap.mpr
  refine keyed.imp_of_mem ?_
  intro one other first second differ r found r' found' same
  obtain ⟨candidate,equal⟩ := (stopped.survives orderA ((orderS.complete _).mem_iff.mp first) r).mp found
  obtain ⟨_,equal'⟩ := (stopped.survives orderA ((orderS.complete _).mem_iff.mp second) r').mp found'
  rw [equal,equal'] at same
  exact differ (distinct one.1 other.1 candidate.named same)

end Exact
end DeepFry.SpamExplorer
