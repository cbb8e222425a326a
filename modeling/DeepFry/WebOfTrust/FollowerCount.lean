import DeepFry.WebOfTrust.Replacement

namespace DeepFry.WebOfTrust

-- All of a node but its follower count.
def Node.uncounted (n : Node) : Node := { n with followerCount := none }

section Mutations
variable {g : Graph} {s u v : Uid} {targets : List Uid} {lines : List (Uid × Int)}

theorem setEdges_uids (targets : List Uid) (g : Graph) : (targets.foldl (setEdge s) g).uids = g.uids := by
  induction targets generalizing g with
  | nil => rfl
  | cons target rest ih => exact ih _

theorem setEdges_other (targets : List Uid) (g : Graph) (other : u ≠ s) : (targets.foldl (setEdge s) g).node u = g.node u := by
  induction targets generalizing g with
  | nil => rfl
  | cons target rest ih => rw [List.foldl_cons,ih]; exact Graph.node_modify_other other

theorem setEdges_self (targets : List Uid) {g : Graph} (known : s ∈ g.uids) (inside : ∀ target ∈ targets, target ∈ g.uids) :
    ∃ follows, (targets.foldl (setEdge s) g).node s = { g.node s with follows } ∧
      ∀ v, v ∈ follows ↔ v ∈ (g.node s).follows ∨ v ∈ targets := by
  induction targets generalizing g with
  | nil => exact ⟨_,rfl,fun v => by simp⟩
  | cons target rest ih =>
    have one : (setEdge s g target).node s = { g.node s with follows := (g.node s).follows.insert target } := by
      refine Graph.node_modify_self known fun v member => ?_
      rcases List.mem_insert_iff.mp member with rfl | old
      · exact inside v List.mem_cons_self
      · exact g.closed s v old
    obtain ⟨follows,same,exact⟩ := @ih (setEdge s g target) known fun other later => inside other (List.mem_cons_of_mem _ later)
    rw [one] at same exact
    refine ⟨follows,same,fun v => ?_⟩
    rw [exact,List.mem_insert_iff,List.mem_cons]
    tauto

theorem setCounts_uids (lines : List (Uid × Int)) (g : Graph) : (lines.foldl setCount g).uids = g.uids := by
  induction lines generalizing g with
  | nil => rfl
  | cons line rest ih => exact ih _

theorem setCounts_other (lines : List (Uid × Int)) (g : Graph) (unnamed : u ∉ lines.map (·.1)) :
    (lines.foldl setCount g).node u = g.node u := by
  induction lines generalizing g with
  | nil => rfl
  | cons line rest ih =>
    rw [List.map_cons,List.mem_cons,not_or] at unnamed
    rw [List.foldl_cons,ih _ unnamed.2]
    exact Graph.node_modify_other unnamed.1

theorem setCounts_self {count : Int} (distinct : (lines.map (·.1)).Nodup) (member : (u,count) ∈ lines) {g : Graph} (known : u ∈ g.uids) :
    (lines.foldl setCount g).node u = { g.node u with followerCount := some count } := by
  induction lines generalizing g with
  | nil => cases member
  | cons line rest ih =>
    rw [List.map_cons,List.nodup_cons] at distinct
    rcases List.mem_cons.mp member with rfl | later
    · rw [List.foldl_cons,setCounts_other rest _ distinct.1]
      exact Graph.node_modify_values known rfl
    · have other : u ≠ line.1 := fun same => distinct.1 (by rw [← same]; exact List.mem_map_of_mem later)
      rw [List.foldl_cons,@ih distinct.2 later (setCount g line) known]
      have untouched : (setCount g line).node u = g.node u := Graph.node_modify_other other
      rw [untouched]

theorem setCounts_uncounted (lines : List (Uid × Int)) (g : Graph) (u : Uid) :
    ((lines.foldl setCount g).node u).uncounted = (g.node u).uncounted := by
  induction lines generalizing g with
  | nil => rfl
  | cons line rest ih =>
    rw [List.foldl_cons,ih]
    by_cases here : u = line.1 ∧ line.1 ∈ g.uids
    · rw [here.1]
      have one : (setCount g line).node line.1 = { g.node line.1 with followerCount := some line.2 } :=
        Graph.node_modify_values here.2 rfl
      rw [one]
      rfl
    · have one : (setCount g line).node u = g.node u := if_neg here
      rw [one]
end Mutations

section Cleared
variable {g : Graph} {e : Kind3} {now : Int} {s u v : Uid} {existing : Table Str Uid}

theorem cleared_uids : (cleared e now s existing g).uids = g.uids := by
  unfold cleared; dsimp only; split <;> rfl

theorem cleared_other (other : u ≠ s) : (cleared e now s existing g).node u = g.node u := by
  unfold cleared
  dsimp only
  split
  · exact Graph.node_modify_other other
  · rw [Graph.node_modify_other other,Graph.node_modify_other other]

theorem cleared_self (known : s ∈ g.uids) : (cleared e now s existing g).node s =
    { g.node s with
      kind3CreatedAt := some e.createdAt, lastDbUpdate := some now
      follows := (g.node s).follows.filter (· ∉ existing.entries.map (·.2)) } := by
  unfold cleared
  dsimp only
  split
  · rename_i empty
    rw [Graph.node_modify_values known rfl,List.isEmpty_iff.mp empty]
    simp
  · refine (Graph.node_modify_self (by rw [Graph.modify_uids]; exact known) fun v member => ?_).trans ?_
    · have old := List.mem_of_mem_filter member
      rw [Graph.node_modify_values known rfl] at old
      exact g.closed s v old
    · rw [Graph.node_modify_values known rfl]

theorem cleared_pubkey : ((cleared e now s existing g).node u).pubkey = (g.node u).pubkey := by
  by_cases known : u ∈ g.uids
  · exact ((grown_cleared e now s existing).kept u known).pubkey
  · rw [g.beyond u known,Graph.beyond _ u (by rw [cleared_uids]; exact known)]

theorem unique_cleared (unique : Unique g) : Unique (cleared e now s existing g) := by
  intro u v pk left right
  rw [cleared_pubkey] at left right
  exact unique u v pk left right
end Cleared

-- What the map of existing follows knows of the signer's edges.
structure Existing (g : Graph) (s : Uid) (existing : Table Str Uid) : Prop where
  sound : ∀ key u, existing.lookup key = some u → g.edge s u = true ∧ keyOf g u = key
  found : ∀ key u, g.edge s u = true → (g.node u).pubkey = some key → key ≠ [] → existing.lookup key = some u
  whole : (∀ v, g.edge s v = true → (g.node v).pubkey.isSome = true) →
    ∀ u, g.edge s u = true → existing.lookup (keyOf g u) = some u

section Lines
variable {g h : Graph} {s u v : Uid} {existing : Table Str Uid} {names followees created : List Str} {r : Resolution} {pk : Str} {d : Int}

theorem existing_collected (unique : Unique g) : Existing g s (existingFollows g s) where
  sound key u found := existing_edge found
  found key u edge named some_key := existing_found unique edge named some_key
  whole keyed u edge := by
    have member : u ∈ (g.node s).follows.insertionSort (· ≤ ·) := (List.mem_insertionSort _).mpr (Graph.edge_iff.mp edge)
    refine collected _ member fun v other same => ?_
    obtain ⟨key,named⟩ := Option.isSome_iff_exists.mp (keyed u edge)
    obtain ⟨key',named'⟩ := Option.isSome_iff_exists.mp (keyed v (Graph.edge_iff.mpr ((List.mem_insertionSort _).mp other)))
    rw [keyOf,keyOf,named,named'] at same
    cases same
    exact unique v u _ named' named

theorem existing_none (lone : ∀ v, g.edge s v = false) : Existing g s ∅ where
  sound key u found := by cases found
  found key u edge := by rw [lone u] at edge; cases edge
  whole _ u edge := by rw [lone u] at edge; cases edge

theorem mem_values {existing : Table Str Uid} : u ∈ existing.entries.map (·.2) ↔ ∃ key, existing.lookup key = some u := by
  constructor
  · intro member
    obtain ⟨⟨key,value⟩,stored,rfl⟩ := List.mem_map.mp member
    exact ⟨key,AList.mem_lookup_iff.mpr stored⟩
  · rintro ⟨key,found⟩
    exact List.mem_map.mpr ⟨⟨key,u⟩,AList.mem_lookup_iff.mp found,rfl⟩

theorem mem_adjustments : (pk,d) ∈ adjustments existing followees created ↔
    (d = 1 ∧ pk ∈ followees ∧ pk ∉ existing ∧ pk ∉ created) ∨ (d = -1 ∧ pk ∈ existing ∧ pk ∉ followees) := by
  simp only [adjustments,followerCountDelta,List.mem_append,List.mem_map,List.mem_filter,List.mem_insertionSort,
    decide_eq_true_eq,Prod.mk.injEq,AList.mem_keys]
  constructor
  · rintro (⟨_,⟨⟨here,new⟩,old⟩,rfl,rfl⟩ | ⟨_,⟨here,gone⟩,rfl,rfl⟩)
    · exact .inl ⟨rfl,here,new,old⟩
    · exact .inr ⟨rfl,here,gone⟩
  · rintro (⟨rfl,here,new,old⟩ | ⟨rfl,here,gone⟩)
    · exact .inl ⟨pk,⟨⟨here,new⟩,old⟩,rfl,rfl⟩
    · exact .inr ⟨pk,⟨here,gone⟩,rfl,rfl⟩

theorem adjustments_distinct (distinct : followees.Nodup) : ((adjustments existing followees created).map (·.1)).Nodup := by
  have added : ((followees.filter (· ∉ existing)).insertionSort (· ≤ ·)).Nodup :=
    (List.perm_insertionSort _ _).nodup_iff.mpr (distinct.filter _)
  have removed : ((existing.keys.filter (· ∉ followees)).insertionSort (· ≤ ·)).Nodup :=
    (List.perm_insertionSort _ _).nodup_iff.mpr (existing.keys_nodup.filter _)
  rw [adjustments,followerCountDelta,List.map_append,List.map_map,List.map_map,List.nodup_append]
  refine ⟨(List.map_id _).symm ▸ added.filter _,(List.map_id _).symm ▸ removed,?_⟩
  rintro left here right there rfl
  obtain ⟨_,one,rfl⟩ := List.mem_map.mp here
  obtain ⟨_,other,same⟩ := List.mem_map.mp there
  have new := (List.mem_filter.mp ((List.mem_insertionSort _).mp (List.mem_of_mem_filter one))).2
  have old := (List.mem_filter.mp ((List.mem_insertionSort _).mp other)).1
  change _ = _ at same
  dsimp only [Function.comp] at same
  rw [same] at old
  exact of_decide_eq_true new (AList.mem_keys.mpr old)

-- The uid a line of the delta is about.
def lineUid (existing : Table Str Uid) (r : Resolution) (entry : Str × Int) : Option Uid :=
  if entry.2 < 0 then existing.lookup entry.1 else r.uids.lookup entry.1

theorem mem_countLines {adjust : List (Str × Int)} {count : Int} : (u,count) ∈ countLines g existing r adjust ↔
    ∃ entry ∈ adjust, lineUid existing r entry = some u ∧ count = max 0 ((g.node u).followerCount.getD 0 + entry.2) := by
  rw [countLines,List.mem_filterMap]
  constructor
  · rintro ⟨entry,member,found⟩
    obtain ⟨v,uid,same⟩ := Option.map_eq_some_iff.mp found
    cases same
    exact ⟨entry,member,uid,rfl⟩
  · rintro ⟨entry,member,uid,rfl⟩
    refine ⟨entry,member,?_⟩
    change (lineUid existing r entry).map _ = _
    rw [uid]
    rfl

theorem countLines_distinct {adjust : List (Str × Int)} (distinct : (adjust.map (·.1)).Nodup)
    (keyed : ∀ entry ∈ adjust, ∀ u, lineUid existing r entry = some u → keyOf g u = entry.1) :
    ((countLines g existing r adjust).map (·.1)).Nodup := by
  induction adjust with
  | nil => exact List.nodup_nil
  | cons entry rest ih =>
    rw [List.map_cons,List.nodup_cons] at distinct
    have later := ih distinct.2 fun other member => keyed other (List.mem_cons_of_mem _ member)
    have one : countLines g existing r (entry :: rest) =
        ((lineUid existing r entry).map fun u => (u,max 0 ((g.node u).followerCount.getD 0 + entry.2))).toList ++
          countLines g existing r rest := by
      simp only [countLines,List.filterMap_cons,lineUid]
      cases (if entry.2 < 0 then existing.lookup entry.1 else r.uids.lookup entry.1) <;> rfl
    rw [one]
    cases uid : lineUid existing r entry with
    | none => exact later
    | some u =>
      refine List.nodup_cons.mpr ⟨fun again => distinct.1 ?_,later⟩
      obtain ⟨⟨v,count⟩,member,same⟩ := List.mem_map.mp again
      change v = u at same
      subst same
      obtain ⟨other,inside,uid',_⟩ := mem_countLines.mp member
      have first := keyed entry List.mem_cons_self _ uid
      have second := keyed other (List.mem_cons_of_mem _ inside) _ uid'
      rw [← first,second]
      exact List.mem_map_of_mem inside
end Lines

end DeepFry.WebOfTrust
