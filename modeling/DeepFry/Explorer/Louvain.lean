import DeepFry.Explorer.LocalMoving

namespace DeepFry.Explorer.Louvain
open Modularity

def epsilon : ℚ := 1 / 10 ^ 7

def maxLevels : Nat := 20

def maxSweeps : Nat := 100

-- How every map of a run is iterated: the edge map of each level, the candidates of each visit.
structure MapOrder where
  wsum : Nat → (size : Nat) → Tally.Order ((Fin size × Fin size) × ℚ)
  kIn : Nat → (size : Nat) → Nat → Fin size → Tally.Order (Fin size × ℚ)

section Pass

variable {n size : Nat}

def relabelResult (result : Fin n → UInt32) (nodeOf : Fin size → List (Fin n)) (comm : Fin size → Fin size) :
    Fin n → UInt32 :=
  (List.finRange size).foldl (fun result s =>
    (nodeOf s).foldl (fun result o => Function.update result o (UInt32.ofNat (comm s).val)) result) result

def canonicalize (seen : List UInt32) : List UInt32 → List UInt32
  | [] => []
  | c :: rest =>
    let seen := remember seen c
    UInt32.ofNat (seen.idxOf c) :: canonicalize seen rest

-- The second number is the levels that are left.
def levels (order : MapOrder) : Nat → Nat → {size : Nat} → LevelGraph n size → (Fin n → UInt32) → Fin n → UInt32
  | _,0,_,_,result => result
  | level,left+1,size,g,result =>
    let local_ := localMoving g (order.kIn level size) epsilon maxSweeps
    if local_.2 = false then result
    else
      let result := relabelResult result g.nodeOf local_.1
      match aggregate g local_.1 (order.wsum (level + 1) _) with
      | none => result
      | some next => levels order (level + 1) left next result

def singletons (n : Nat) : Fin n → UInt32 := fun i => UInt32.ofNat i.val

def louvain (order : MapOrder) (edges : List UInt32) (nodeCount : UInt32) : List UInt32 :=
  let n := nodeCount.toNat
  let result := singletons n
  if n = 0 ∨ edges.length < 2 then List.ofFn result
  else canonicalize [] (List.ofFn (levels order 0 maxLevels (buildLevelGraph edges n (order.wsum 0 n)) result))

-- A node is listed under one super-node only, and gets that one's label.
theorem relabelResult_owner {nodeOf : Fin size → List (Fin n)} {owner : Fin n → Fin size}
    (listed : ∀ s o, o ∈ nodeOf s ↔ owner o = s) (result : Fin n → UInt32) (comm : Fin size → Fin size) (o : Fin n) :
    relabelResult result nodeOf comm o = UInt32.ofNat (comm (owner o)).val := by
  have inner : ∀ (nodes : List (Fin n)) (result : Fin n → UInt32) (c : UInt32),
      nodes.foldl (fun result o => Function.update result o c) result o = if o ∈ nodes then c else result o := by
    intro nodes
    induction nodes with
    | nil =>
      intro result c
      simp
    | cons p rest ih =>
      intro result c
      rw [List.foldl_cons,ih]
      by_cases later : o ∈ rest
      · simp [later]
      · by_cases here : o = p <;> simp [here,later]
  have outer : ∀ (supers : List (Fin size)) (result : Fin n → UInt32),
      supers.foldl (fun result s =>
        (nodeOf s).foldl (fun result o => Function.update result o (UInt32.ofNat (comm s).val)) result) result o =
      if owner o ∈ supers then UInt32.ofNat (comm (owner o)).val else result o := by
    intro supers
    induction supers with
    | nil =>
      intro result
      simp
    | cons s rest ih =>
      intro result
      rw [List.foldl_cons,ih,inner]
      by_cases later : owner o ∈ rest
      · simp [later]
      · by_cases here : owner o = s
        · have member : o ∈ nodeOf s := (listed s o).mpr here
          simp [here,member]
        · have missing : o ∉ nodeOf s := fun member => here ((listed s o).mp member)
          simp [here,later,missing]
  unfold relabelResult
  rw [outer,if_pos (List.mem_finRange _)]

-- Canonical labels: the position a label was first seen at.
theorem canonicalize_length (seen labels : List UInt32) : (canonicalize seen labels).length = labels.length := by
  induction labels generalizing seen with
  | nil => rfl
  | cons c rest ih => simp [canonicalize,ih]

theorem canonicalize_take (seen labels : List UInt32) (m : Nat) :
    (canonicalize seen labels).take m = canonicalize seen (labels.take m) := by
  induction labels generalizing seen m with
  | nil => simp [canonicalize]
  | cons c rest ih =>
    cases m with
    | zero => simp [canonicalize]
    | succ m => simp [canonicalize,ih]

theorem remember_idxOf {α : Type} [DecidableEq α] {seen : List α} {c : α} (there : c ∈ seen) (d : α) :
    (remember seen d).idxOf c = seen.idxOf c := by
  unfold remember
  split
  · rfl
  · exact List.idxOf_append_of_mem there

theorem foldl_idxOf {α : Type} [DecidableEq α] {seen : List α} {c : α} (there : c ∈ seen) (labels : List α) :
    (labels.foldl remember seen).idxOf c = seen.idxOf c := by
  induction labels generalizing seen with
  | nil => rfl
  | cons d rest ih => rw [List.foldl_cons,ih (remember_mem.mpr (.inl there)),remember_idxOf there]

theorem canonicalize_map (seen labels : List UInt32) :
    canonicalize seen labels = labels.map fun c => UInt32.ofNat ((labels.foldl remember seen).idxOf c) := by
  induction labels generalizing seen with
  | nil => rfl
  | cons c rest ih =>
    have own : c ∈ remember seen c := remember_mem.mpr (.inr rfl)
    rw [canonicalize,List.map_cons,List.foldl_cons,ih,foldl_idxOf own]

theorem foldl_nodup {α : Type} [DecidableEq α] {seen : List α} (distinct : seen.Nodup) (labels : List α) :
    (labels.foldl remember seen).Nodup := by
  induction labels generalizing seen with
  | nil => exact distinct
  | cons c rest ih => exact ih (remember_nodup distinct c)

theorem foldl_length {α : Type} [DecidableEq α] (seen labels : List α) :
    (labels.foldl remember seen).length ≤ seen.length + labels.length := by
  induction labels generalizing seen with
  | nil => simp
  | cons c rest ih =>
    have grown : (remember seen c).length ≤ seen.length + 1 := by
      unfold remember
      split <;> simp
    have later := ih (remember seen c)
    rw [List.foldl_cons,List.length_cons]
    omega

theorem ofNat_inj {a b : Nat} (first : a < 2 ^ 32) (second : b < 2 ^ 32) (same : UInt32.ofNat a = UInt32.ofNat b) : a = b := by
  have values := congrArg UInt32.toNat same
  rwa [UInt32.toNat_ofNat_of_lt' first,UInt32.toNat_ofNat_of_lt' second] at values

-- The labels in use are those below their number.
theorem canonicalize_dense {labels : List UInt32} (small : labels.length < 2 ^ 32) (c : UInt32) :
    c ∈ canonicalize [] labels ↔ c.toNat < (labels.foldl remember []).length := by
  have bound := foldl_length [] labels
  rw [List.length_nil,Nat.zero_add] at bound
  have members : ∀ d, d ∈ labels.foldl remember [] ↔ d ∈ labels := by
    intro d
    have found := foldl_remember id labels [] d
    simpa using found
  rw [canonicalize_map,List.mem_map]
  constructor
  · intro ⟨d,member,same⟩
    have place := List.idxOf_lt_length_of_mem ((members d).mpr member)
    have fits : (labels.foldl remember []).idxOf d < UInt32.size := by
      unfold UInt32.size
      omega
    rw [← same,UInt32.toNat_ofNat_of_lt' fits]
    exact place
  · intro below
    refine ⟨(labels.foldl remember [])[c.toNat],(members _).mp (List.getElem_mem below),?_⟩
    rw [(foldl_nodup List.nodup_nil labels).idxOf_getElem,UInt32.ofNat_toNat]

theorem canonicalize_front {labels : List UInt32} (small : labels.length < 2 ^ 32) (m : Nat) :
    ∃ k, ∀ c, c ∈ (canonicalize [] labels).take m ↔ c.toNat < k := by
  refine ⟨((labels.take m).foldl remember []).length,?_⟩
  intro c
  rw [canonicalize_take]
  apply canonicalize_dense
  rw [List.length_take]
  omega

theorem canonicalize_same {labels : List UInt32} (small : labels.length < 2 ^ 32) {i j : Nat} (first : i < labels.length)
    (second : j < labels.length) : (canonicalize [] labels)[i]? = (canonicalize [] labels)[j]? ↔ labels[i] = labels[j] := by
  have bound := foldl_length [] labels
  rw [List.length_nil,Nat.zero_add] at bound
  have members : ∀ d ∈ labels, d ∈ labels.foldl remember [] := by
    intro d member
    have found := foldl_remember id labels [] d
    simp only [id] at found
    exact found.mpr (.inr ⟨d,member,rfl⟩)
  rw [canonicalize_map,List.getElem?_map,List.getElem?_map,List.getElem?_eq_getElem first,List.getElem?_eq_getElem second]
  simp only [Option.map_some,Option.some.injEq]
  constructor
  · intro same
    have firstSeen := members _ (List.getElem_mem first)
    have secondSeen := members _ (List.getElem_mem second)
    have left := List.idxOf_lt_length_of_mem firstSeen
    have right := List.idxOf_lt_length_of_mem secondSeen
    exact (List.idxOf_inj firstSeen).mp (ofNat_inj (by omega) (by omega) same)
  · intro same
    rw [same]

-- Super-nodes whose nodes are all in one component.
def Linked (edges : List UInt32) (owner : Fin n → Fin size) (u v : Fin size) : Prop :=
  ∀ o p, owner o = u → owner p = v → (followGraph edges n).Reachable o p

-- A level stands for a partition of the nodes: its edges are the edge list merged, its communities the result's.
structure Represents (edges : List UInt32) (g : LevelGraph n size) (owner : Fin n → Fin size)
    (result : Fin n → UInt32) : Prop where
  carries : Carries g (merge owner (symmetrised edges n))
  within : Within g (Linked edges owner)
  nodeOf : ∀ s o, o ∈ g.nodeOf s ↔ owner o = s
  together : ∀ o p, owner o = owner p → (followGraph edges n).Reachable o p
  onto : Function.Surjective owner
  partition : ∀ o p, result o = result p ↔ owner o = owner p

theorem linked_equivalence {edges : List UInt32} {g : LevelGraph n size} {owner : Fin n → Fin size}
    {result : Fin n → UInt32} (represents : Represents edges g owner result) : Equivalence (Linked edges owner) := by
  refine ⟨?_,?_,?_⟩
  · intro u o p first second
    exact represents.together o p (first.trans second.symm)
  · intro u v linked o p first second
    exact (linked p o second first).symm
  · intro u v w before after o p first second
    obtain ⟨q,middle⟩ := represents.onto v
    exact (before o q first middle).trans (after q p middle second)

theorem merged_symm (edges : List UInt32) (owner : Fin n → Fin size) (u v : Fin size) :
    merge owner (symmetrised edges n) u v = merge owner (symmetrised edges n) v u :=
  merge_symm (symmetrised_symm edges n) owner u v

theorem onto_small {owner : Fin n → Fin size} (onto : Function.Surjective owner) : size ≤ n := by
  simpa using Fintype.card_le_of_surjective owner onto

theorem label_inj (small : n < 2 ^ 32) {owner : Fin n → Fin size} (onto : Function.Surjective owner) (a b : Fin size) :
    UInt32.ofNat a.val = UInt32.ofNat b.val ↔ a = b := by
  have fits := onto_small onto
  constructor
  · intro same
    exact Fin.ext (ofNat_inj (by omega) (by omega) same)
  · intro same
    rw [same]

theorem first_represents (small : n < 2 ^ 32) (edges : List UInt32) (order : Tally.Order ((Fin n × Fin n) × ℚ)) :
    Represents edges (buildLevelGraph edges n order) id (singletons n) := by
  have laid := build_laid edges n order
  refine ⟨?_,?_,?_,?_,Function.surjective_id,?_⟩
  · rw [merge_id]
    exact laid.carries
  · intro v edge member o p first second
    have adjacent := laid.within v edge member
    rw [← first,← second] at adjacent
    exact adjacent.reachable
  · intro s o
    rw [laid.nodeOf]
    simp [LevelGraph.make]
  · intro o p same
    rw [show o = p from same]
  · intro o p
    exact label_inj small Function.surjective_id o p

theorem remap_eq (comm : Fin size → Fin size) (u v : Fin size) : remap comm u = remap comm v ↔ comm u = comm v := by
  unfold remap
  rw [Fin.mk.injEq]
  exact List.idxOf_inj (seen_comm comm u)

theorem remap_onto (comm : Fin size → Fin size) : Function.Surjective (remap comm) := by
  have distinct : (seenLabels comm).Nodup := by
    unfold seenLabels
    rw [← List.foldl_map]
    exact foldl_nodup List.nodup_nil _
  intro c
  have member : (seenLabels comm)[c.val] ∈ seenLabels comm := List.getElem_mem c.isLt
  obtain none | ⟨v,_,labelled⟩ := (foldl_remember comm _ _ _).mp member
  · cases none
  · refine ⟨v,Fin.ext ?_⟩
    change (seenLabels comm).idxOf (comm v) = c.val
    rw [labelled,distinct.idxOf_getElem]

-- The partition after a level's moves, in the nodes of the input.
theorem relabelled (small : n < 2 ^ 32) {edges : List UInt32} {g : LevelGraph n size} {owner : Fin n → Fin size}
    {result : Fin n → UInt32} (represents : Represents edges g owner result) (comm : Fin size → Fin size) (o p : Fin n) :
    relabelResult result g.nodeOf comm o = relabelResult result g.nodeOf comm p ↔ comm (owner o) = comm (owner p) := by
  rw [relabelResult_owner represents.nodeOf,relabelResult_owner represents.nodeOf]
  exact label_inj small represents.onto _ _

theorem level_modularity (small : n < 2 ^ 32) {edges : List UInt32} {g : LevelGraph n size} {owner : Fin n → Fin size}
    {result : Fin n → UInt32} (represents : Represents edges g owner result) (f : Fin size → Fin size) :
    g.modularity f = Modularity.modularity (symmetrised edges n) (relabelResult result g.nodeOf f) := by
  rw [carries_modularity represents.carries,modularity_merge]
  apply modularity_congr
  intro o p
  exact (relabelled small represents f o p).symm

theorem moved_improved {edges : List UInt32} {g : LevelGraph n size} {owner : Fin n → Fin size} {result : Fin n → UInt32}
    (represents : Represents edges g owner result) {state : Moving size} (reached : Reached g state) :
    Improved g (merge owner (symmetrised edges n)) (Linked edges owner) state :=
  reached_improved represents.carries (merged_symm edges owner) (linked_equivalence represents) represents.within reached

theorem moved_together {edges : List UInt32} {g : LevelGraph n size} {owner : Fin n → Fin size} {result : Fin n → UInt32}
    (represents : Represents edges g owner result) {state : Moving size} (reached : Reached g state) {o p : Fin n}
    (same : state.comm (owner o) = state.comm (owner p)) : (followGraph edges n).Reachable o p :=
  (moved_improved represents reached).related _ _ same o p rfl rfl

theorem next_represents (small : n < 2 ^ 32) {edges : List UInt32} {g : LevelGraph n size} {owner : Fin n → Fin size}
    {result : Fin n → UInt32} (represents : Represents edges g owner result) {state : Moving size}
    (reached : Reached g state)
    (order : Tally.Order ((Fin (seenLabels state.comm).length × Fin (seenLabels state.comm).length) × ℚ)) :
    Represents edges (collapse g (remap state.comm) order) (remap state.comm ∘ owner)
      (relabelResult result g.nodeOf state.comm) := by
  have equivalence := linked_equivalence represents
  have improved := moved_improved represents reached
  have across : ∀ v, ∀ edge ∈ g.neighbors v, remap state.comm v ≠ remap state.comm edge.1 →
      remap state.comm v ≠ remap state.comm edge.1 ∧
        Linked edges (remap state.comm ∘ owner) (remap state.comm v) (remap state.comm edge.1) := by
    intro v edge member apart
    refine ⟨apart,?_⟩
    intro o p first second
    have before := improved.related _ _ ((remap_eq _ _ _).mp first)
    have after := improved.related _ _ ((remap_eq _ _ _).mp second.symm)
    exact equivalence.trans before (equivalence.trans (represents.within v edge member) after) o p rfl rfl
  have back : ∀ a b, a ≠ b ∧ Linked edges (remap state.comm ∘ owner) a b →
      b ≠ a ∧ Linked edges (remap state.comm ∘ owner) b a := by
    intro a b ⟨apart,linked⟩
    exact ⟨apart.symm,fun o p first second => (linked p o second first).symm⟩
  have laid := collapse_laid back (fun a b related => related.1) represents.carries (merged_symm edges owner) across order
  refine ⟨?_,?_,?_,?_,(remap_onto _).comp represents.onto,?_⟩
  · rw [← merge_merge]
    exact laid.carries
  · intro v edge member
    exact (laid.within v edge member).2
  · intro s o
    rw [laid.nodeOf]
    change o ∈ unionNodes g (remap state.comm) s ↔ _
    rw [unionNodes_mem]
    simp only [represents.nodeOf]
    constructor
    · intro ⟨v,numbered,owned⟩
      rw [Function.comp_apply,owned,numbered]
    · intro numbered
      exact ⟨owner o,numbered,rfl⟩
  · intro o p same
    exact moved_together represents reached ((remap_eq _ _ _).mp same)
  · intro o p
    rw [relabelled small represents]
    exact (remap_eq _ _ _).symm

theorem pass_represents (small : n < 2 ^ 32) {edges : List UInt32} {g : LevelGraph n size} {owner : Fin n → Fin size}
    {result : Fin n → UInt32} (represents : Represents edges g owner result) {comm : Fin size → Fin size}
    (passed : ∃ state, Reached g state ∧ comm = state.comm)
    (order : Tally.Order ((Fin (seenLabels comm).length × Fin (seenLabels comm).length) × ℚ)) :
    Represents edges (collapse g (remap comm) order) (remap comm ∘ owner) (relabelResult result g.nodeOf comm) := by
  obtain ⟨state,reached,rfl⟩ := passed
  exact next_represents small represents reached order

-- The levels of a run, each with the labels so far.
inductive Level (order : MapOrder) (edges : List UInt32) (n : Nat) :
    Nat → (size : Nat) → LevelGraph n size → (Fin n → UInt32) → Prop
  | first : Level order edges n 0 n (buildLevelGraph edges n (order.wsum 0 n)) (singletons n)
  | next {level size : Nat} {g : LevelGraph n size} {result : Fin n → UInt32}
      {next : LevelGraph n (seenLabels (localMoving g (order.kIn level size) epsilon maxSweeps).1).length} :
      Level order edges n level size g result → (localMoving g (order.kIn level size) epsilon maxSweeps).2 = true →
      aggregate g (localMoving g (order.kIn level size) epsilon maxSweeps).1 (order.wsum (level + 1) _) = some next →
      Level order edges n (level + 1) _ next
        (relabelResult result g.nodeOf (localMoving g (order.kIn level size) epsilon maxSweeps).1)

theorem aggregate_some {g : LevelGraph n size} {comm : Fin size → Fin size}
    {order : Tally.Order ((Fin (seenLabels comm).length × Fin (seenLabels comm).length) × ℚ)}
    {next : LevelGraph n (seenLabels comm).length} (more : aggregate g comm order = some next) :
    next = collapse g (remap comm) order := by
  unfold aggregate at more
  split at more
  · cases more
  · exact (Option.some.inj more).symm

theorem level_represents (small : n < 2 ^ 32) {order : MapOrder} {edges : List UInt32} {level : Nat}
    {g : LevelGraph n size} {result : Fin n → UInt32} (run : Level order edges n level size g result) :
    ∃ owner, Represents edges g owner result := by
  induction run with
  | first => exact ⟨id,first_represents small edges _⟩
  | next before moved more ih =>
    obtain ⟨owner,represents⟩ := ih
    rename_i level size g result next
    rw [aggregate_some more]
    exact ⟨_,pass_represents small represents (localMoving_reached g (order.kIn level size) epsilon maxSweeps) _⟩

-- What a run makes of a partition: labels within one component, and no modularity lost.
structure Refined (edges : List UInt32) (result final : Fin n → UInt32) : Prop where
  together : ∀ o p, final o = final p → (followGraph edges n).Reachable o p
  improved : Modularity.modularity (symmetrised edges n) result ≤ Modularity.modularity (symmetrised edges n) final

theorem represents_modularity {edges : List UInt32} {g : LevelGraph n size} {owner : Fin n → Fin size}
    {result : Fin n → UInt32} (represents : Represents edges g owner result) :
    Modularity.modularity (symmetrised edges n) result = Modularity.modularity (merge owner (symmetrised edges n)) id := by
  rw [modularity_merge]
  apply modularity_congr
  intro o p
  exact represents.partition o p

theorem relabelled_refined (small : n < 2 ^ 32) {edges : List UInt32} {g : LevelGraph n size} {owner : Fin n → Fin size}
    {result : Fin n → UInt32} (represents : Represents edges g owner result) {comm : Fin size → Fin size}
    (passed : ∃ state, Reached g state ∧ comm = state.comm) :
    Refined edges result (relabelResult result g.nodeOf comm) := by
  obtain ⟨state,reached,rfl⟩ := passed
  refine ⟨?_,?_⟩
  · intro o p same
    exact moved_together represents reached ((relabelled small represents state.comm o p).mp same)
  · rw [represents_modularity represents,← level_modularity small represents,carries_modularity represents.carries]
    exact (moved_improved represents reached).improved

theorem unmoved_refined {edges : List UInt32} {g : LevelGraph n size} {owner : Fin n → Fin size}
    {result : Fin n → UInt32} (represents : Represents edges g owner result) : Refined edges result result :=
  ⟨fun o p same => represents.together o p ((represents.partition o p).mp same),le_refl _⟩

theorem levels_refined (small : n < 2 ^ 32) (order : MapOrder) {edges : List UInt32} (level left : Nat)
    {g : LevelGraph n size} {owner : Fin n → Fin size} {result : Fin n → UInt32}
    (represents : Represents edges g owner result) : Refined edges result (levels order level left g result) := by
  induction left generalizing level size result with
  | zero => exact unmoved_refined represents
  | succ left ih =>
    have passed := localMoving_reached g (order.kIn level size) epsilon maxSweeps
    have refined := relabelled_refined small represents passed
    rw [levels]
    dsimp only
    split
    · exact unmoved_refined represents
    · cases more : aggregate g (localMoving g (order.kIn level size) epsilon maxSweeps).1 (order.wsum (level + 1) _) with
      | none => exact refined
      | some next =>
        have later := ih (level + 1) (pass_represents small represents passed (order.wsum (level + 1) _))
        rw [← aggregate_some more] at later
        exact ⟨later.together,refined.improved.trans later.improved⟩

-- Whatever comes back from the levels is made canonical; without edges the singletons are canonical already.
theorem singletons_dense (small : n < 2 ^ 32) (m : Nat) (c : UInt32) :
    c ∈ (List.ofFn (singletons n)).take m ↔ c.toNat < min m n := by
  have listed : List.ofFn (singletons n) = (List.range n).map UInt32.ofNat := by
    apply List.ext_getElem
    · simp
    · intro i _ _
      simp [singletons]
  rw [listed,← List.map_take,List.take_range,List.mem_map]
  constructor
  · intro ⟨i,below,same⟩
    rw [List.mem_range] at below
    have fits : i < UInt32.size := by
      unfold UInt32.size
      omega
    rw [← same,UInt32.toNat_ofNat_of_lt' fits]
    exact below
  · intro below
    exact ⟨c.toNat,List.mem_range.mpr below,UInt32.ofNat_toNat⟩

theorem louvain_length (order : MapOrder) (edges : List UInt32) (nodeCount : UInt32) :
    (louvain order edges nodeCount).length = nodeCount.toNat := by
  unfold louvain
  dsimp only
  split
  · simp
  · rw [canonicalize_length]
    simp

theorem louvain_dense (order : MapOrder) (edges : List UInt32) (nodeCount : UInt32) (m : Nat) :
    ∃ k, ∀ c, c ∈ (louvain order edges nodeCount).take m ↔ c.toNat < k := by
  have small : nodeCount.toNat < 2 ^ 32 := nodeCount.toNat_lt
  unfold louvain
  dsimp only
  split
  · exact ⟨min m nodeCount.toNat,singletons_dense small m⟩
  · exact canonicalize_front (by simpa using small) m

theorem louvain_refined (order : MapOrder) (edges : List UInt32) (nodeCount : UInt32) :
    ∃ final : Fin nodeCount.toNat → UInt32, Refined edges (singletons nodeCount.toNat) final ∧
      ∀ i j : Fin nodeCount.toNat,
        (louvain order edges nodeCount)[i.val]? = (louvain order edges nodeCount)[j.val]? ↔ final i = final j := by
  have small : nodeCount.toNat < 2 ^ 32 := nodeCount.toNat_lt
  have represents := first_represents small edges (order.wsum 0 nodeCount.toNat)
  unfold louvain
  dsimp only
  split
  · refine ⟨singletons nodeCount.toNat,unmoved_refined represents,?_⟩
    intro i j
    simp
  · refine ⟨_,levels_refined small order 0 maxLevels represents,?_⟩
    intro i j
    have first : i.val < (List.ofFn (levels order 0 maxLevels
      (buildLevelGraph edges nodeCount.toNat (order.wsum 0 nodeCount.toNat)) (singletons nodeCount.toNat))).length := by simp
    have second : j.val < (List.ofFn (levels order 0 maxLevels
      (buildLevelGraph edges nodeCount.toNat (order.wsum 0 nodeCount.toNat)) (singletons nodeCount.toNat))).length := by simp
    rw [canonicalize_same (by simpa using small) first second]
    simp

theorem isolated_reachable {edges : List UInt32} {i j : Fin n} (isolated : ∀ j, ¬ (followGraph edges n).Adj i j)
    (reachable : (followGraph edges n).Reachable i j) : i = j := by
  obtain ⟨walk⟩ := reachable
  cases walk with
  | nil => rfl
  | cons adjacent _ => exact absurd adjacent (isolated _)

theorem singletons_modularity (small : n < 2 ^ 32) (A : Weights (Fin n)) :
    Modularity.modularity A (singletons n) = Modularity.modularity A id := by
  apply modularity_congr
  intro u v
  exact label_inj small Function.surjective_id u v

theorem aggregate_modularity {edges : List UInt32} {g : LevelGraph n size} {owner : Fin n → Fin size}
    {result : Fin n → UInt32} (represents : Represents edges g owner result) {comm : Fin size → Fin size}
    {order : Tally.Order ((Fin (seenLabels comm).length × Fin (seenLabels comm).length) × ℚ)}
    {next : LevelGraph n (seenLabels comm).length} (more : aggregate g comm order = some next) :
    next.modularity id = g.modularity comm := by
  have laid : Laid _ (collapse g (remap comm) order) (merge (remap comm) (merge owner (symmetrised edges n))) Ne :=
    collapse_laid (fun _ _ => Ne.symm) (fun _ _ apart => apart) represents.carries (merged_symm edges owner)
      (fun _ _ _ apart => apart) order
  rw [aggregate_some more,carries_modularity laid.carries,carries_modularity represents.carries,modularity_merge]
  apply modularity_congr
  intro u v
  exact remap_eq comm u v

end Pass

theorem louvain_sound (order : MapOrder) (edges : List UInt32) (nodeCount : UInt32) :
    (louvain order edges nodeCount).length = nodeCount.toNat ∧
    (∀ m, ∃ k, ∀ c, c ∈ (louvain order edges nodeCount).take m ↔ c.toNat < k) ∧
    (∀ i j : Fin nodeCount.toNat, (louvain order edges nodeCount)[i.val]? = (louvain order edges nodeCount)[j.val]? →
      (followGraph edges nodeCount.toNat).Reachable i j) ∧
    (∀ i : Fin nodeCount.toNat, (∀ j, ¬ (followGraph edges nodeCount.toNat).Adj i j) → ∀ j : Fin nodeCount.toNat,
      (louvain order edges nodeCount)[i.val]? = (louvain order edges nodeCount)[j.val]? → i = j) ∧
    Modularity.modularity (symmetrised edges nodeCount.toNat) id ≤ Modularity.modularity (symmetrised edges nodeCount.toNat)
      (fun i : Fin nodeCount.toNat => (louvain order edges nodeCount)[i.val]?) ∧
    ∀ (level size : Nat) (g : LevelGraph nodeCount.toNat size) (result : Fin nodeCount.toNat → UInt32),
      Level order edges nodeCount.toNat level size g result →
      (∀ f : Fin size → Fin size, g.modularity f =
        Modularity.modularity (symmetrised edges nodeCount.toNat) (relabelResult result g.nodeOf f)) ∧
      (∀ state, Reached g state → ∀ candidates v, (visit g candidates state v).comm = state.comm ∨
        g.modularity state.comm < g.modularity (visit g candidates state v).comm) ∧
      ∀ comm wsum next, aggregate g comm wsum = some next → next.modularity id = g.modularity comm := by
  have small : nodeCount.toNat < 2 ^ 32 := nodeCount.toNat_lt
  obtain ⟨final,refined,same⟩ := louvain_refined order edges nodeCount
  have connected : ∀ i j : Fin nodeCount.toNat,
      (louvain order edges nodeCount)[i.val]? = (louvain order edges nodeCount)[j.val]? →
      (followGraph edges nodeCount.toNat).Reachable i j := by
    intro i j equal
    exact refined.together i j ((same i j).mp equal)
  refine ⟨louvain_length order edges nodeCount,louvain_dense order edges nodeCount,connected,?_,?_,?_⟩
  · intro i isolated j equal
    exact isolated_reachable isolated (connected i j equal)
  · rw [← singletons_modularity small,modularity_congr same]
    exact refined.improved
  · intro level size g result run
    obtain ⟨owner,represents⟩ := level_represents small run
    refine ⟨level_modularity small represents,?_,?_⟩
    · intro state reached candidates v
      have balanced := (moved_improved represents reached).balanced
      obtain stay | ⟨_,_,_,gained⟩ := visit_moves represents.carries (merged_symm edges owner) balanced candidates v
      · exact .inl stay
      · rw [carries_modularity represents.carries,carries_modularity represents.carries]
        exact .inr gained
    · intro comm wsum next more
      exact aggregate_modularity represents more

-- Every map in the order its keys came in; one edge, and a third node on its own.
def arrival (α : Type) : Tally.Order α := ⟨id,fun entries => List.Perm.refl entries⟩

def arrivals : MapOrder := ⟨fun _ _ => arrival _,fun _ _ _ _ => arrival _⟩

def oneEdge : LevelGraph 3 3 := buildLevelGraph [0,1] 3 (arrival _)

theorem louvain_sound_edge : (louvain arrivals [0,1] 3).length = 3 ∧
    (∀ f : Fin 3 → Fin 3, oneEdge.modularity f =
      Modularity.modularity (symmetrised [0,1] 3) (relabelResult (singletons 3) oneEdge.nodeOf f)) ∧
    ((visit oneEdge (arrival _) (start oneEdge) 0).comm = (start oneEdge).comm ∨
      oneEdge.modularity (start oneEdge).comm < oneEdge.modularity (visit oneEdge (arrival _) (start oneEdge) 0).comm) := by
  obtain ⟨length,_,_,_,_,levels⟩ := louvain_sound arrivals [0,1] 3
  obtain ⟨carried,moves,_⟩ := levels 0 3 oneEdge (singletons 3) .first
  exact ⟨length,carried,moves _ .start (arrival _) 0⟩

end DeepFry.Explorer.Louvain
