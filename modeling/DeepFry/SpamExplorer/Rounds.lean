import DeepFry.SpamExplorer.Level

namespace DeepFry.SpamExplorer
open Hops Multimap

section Observing
variable {g : FollowGraph} {pubkeys : Table Str} {uid v : Str}

-- Whatever is stored is the node's pubkey.
def Sound (g : FollowGraph) (pubkeys : Table Str) : Prop := ∀ v pk, pubkeys.lookup v = some pk → pk = g.pubkey v

-- The node reads as the graph names it, without a pubkey as empty.
def Named (g : FollowGraph) (pubkeys : Table Str) (v : Str) : Prop := (pubkeys.lookup v).getD [] = g.pubkey v

theorem Sound.observed (sound : Sound g pubkeys) (uid : Str) : Sound g (observe uid (g.pubkey uid) pubkeys) := by
  intro v pk found
  unfold observe at found
  split at found
  · by_cases same : v = uid
    · rw [same,AList.lookup_insert] at found
      rw [same]
      exact (Option.some.inj found).symm
    · rw [AList.lookup_insert_ne same] at found
      exact sound v pk found
  · exact sound v pk found

theorem Sound.named_self (sound : Sound g pubkeys) (uid : Str) : Named g (observe uid (g.pubkey uid) pubkeys) uid := by
  unfold Named observe
  split
  · rw [AList.lookup_insert]
    rfl
  · rename_i empty
    cases found : pubkeys.lookup uid with
    | none => exact (not_not.mp empty).symm
    | some pk => exact sound uid pk found

theorem Sound.named_kept (sound : Sound g pubkeys) (named : Named g pubkeys v) (uid : Str) :
    Named g (observe uid (g.pubkey uid) pubkeys) v := by
  by_cases same : v = uid
  · rw [same]
    exact sound.named_self uid
  · unfold Named observe
    split
    · rw [AList.lookup_insert_ne same]
      exact named
    · exact named

end Observing

-- A round that has read some edges, from the maps it began with.
structure Filling (g : FollowGraph) (seed : Str) (start : Leveled) (nextLevel : Nat) (read : List (Str × Str)) (round : Round) : Prop where
  put : ∀ v ∈ round.next, round.leveled.levels.lookup v = some nextLevel
  kept : ∀ v ∉ round.next, round.leveled.levels.lookup v = start.levels.lookup v
  next : ∀ v, v ∈ round.next ↔ start.levels.lookup v = none ∧ ∃ u, (u,v) ∈ read
  distinct : round.next.Nodup
  adjacency : (pairs round.leveled.adjacency.entries).Perm (read ++ pairs start.adjacency.entries)
  sound : Sound g round.leveled.pubkeys
  named : ∀ v ∈ round.leveled.levels, v ≠ seed → Named g round.leveled.pubkeys v

section Filling
variable {g : FollowGraph} {seed : Str} {start : Leveled} {nextLevel : Nat} {read : List (Str × Str)} {round : Round}

theorem Filling.begin (sound : Sound g start.pubkeys) (named : ∀ v ∈ start.levels, v ≠ seed → Named g start.pubkeys v) (nextLevel : Nat) :
    Filling g seed start nextLevel [] ⟨start,[]⟩ where
  put v member := by cases member
  kept _ _ := rfl
  next v := by simp
  distinct := List.nodup_nil
  adjacency := .refl _
  sound := sound
  named := named

theorem Filling.root (filling : Filling g seed start nextLevel read round) (uid : Str) :
    Filling g seed start nextLevel read
      ⟨⟨round.leveled.levels,round.leveled.adjacency,observe uid (g.pubkey uid) round.leveled.pubkeys⟩,round.next⟩ where
  put := filling.put
  kept := filling.kept
  next := filling.next
  distinct := filling.distinct
  adjacency := filling.adjacency
  sound := filling.sound.observed uid
  named v member other := filling.sound.named_kept (filling.named v member other) uid

theorem Filling.edge (filling : Filling g seed start nextLevel read round) (uid : Str) {edge : FollowEdge}
    (same : edge.pubkey = g.pubkey edge.uid) :
    Filling g seed start nextLevel (read ++ [(uid,edge.uid)]) (visitEdge nextLevel uid round edge) := by
  have adjacency : (pairs (append uid edge.uid round.leveled.adjacency).entries).Perm
      (read ++ [(uid,edge.uid)] ++ pairs start.adjacency.entries) := by
    refine (pairs_append uid edge.uid _).trans ?_
    rw [List.append_assoc,List.singleton_append]
    refine (filling.adjacency.cons _).trans ?_
    exact List.perm_middle.symm
  have grown (v : Str) : (∃ u, (u,v) ∈ read ++ [(uid,edge.uid)]) ↔ (∃ u, (u,v) ∈ read) ∨ v = edge.uid := by
    simp only [List.mem_append,List.mem_singleton,Prod.mk.injEq,exists_or]
    simp
  unfold visitEdge
  rw [same]
  split
  · rename_i seen
    refine ⟨filling.put,filling.kept,?_,filling.distinct,adjacency,filling.sound.observed _,?_⟩
    · intro v
      rw [filling.next,grown]
      constructor
      · intro both
        exact ⟨both.1,.inl both.2⟩
      · intro both
        obtain ⟨fresh,old | new⟩ := both
        · exact ⟨fresh,old⟩
        · -- The target was levelled, in this round or before.
          rw [new] at fresh ⊢
          by_cases member : edge.uid ∈ round.next
          · exact (filling.next _).mp member
          · have held := AList.lookup_isSome.mpr seen
            rw [filling.kept _ member,fresh] at held
            cases held
    · intro v member other
      exact filling.sound.named_kept (filling.named v member other) _
  · rename_i unseen
    have missing : round.leveled.levels.lookup edge.uid = none := AList.lookup_eq_none.mpr unseen
    have fresh : edge.uid ∉ round.next := by
      intro member
      have levelled := filling.put _ member
      rw [missing] at levelled
      cases levelled
    have before := filling.kept _ fresh
    rw [missing] at before
    refine ⟨?_,?_,?_,?_,adjacency,filling.sound.observed _,?_⟩
    · intro v member
      by_cases here : v = edge.uid
      · rw [here,AList.lookup_insert]
      · rw [AList.lookup_insert_ne here]
        exact filling.put v ((List.mem_append.mp member).resolve_right fun last => here (List.mem_singleton.mp last))
    · intro v absent
      rw [List.mem_append,List.mem_singleton] at absent
      push Not at absent
      rw [AList.lookup_insert_ne absent.2]
      exact filling.kept v absent.1
    · intro v
      rw [List.mem_append,List.mem_singleton,filling.next,grown]
      constructor
      · intro either
        obtain both | new := either
        · exact ⟨both.1,.inl both.2⟩
        · rw [new]
          exact ⟨before.symm,.inr rfl⟩
      · intro both
        obtain ⟨free,old | new⟩ := both
        · exact .inl ⟨free,old⟩
        · exact .inr new
    · exact List.nodup_append.mpr ⟨filling.distinct,List.nodup_singleton _,by
        intro a old b new equal
        rw [List.mem_singleton.mp new] at equal
        exact fresh (equal ▸ old)⟩
    · intro v member other
      rw [AList.mem_insert] at member
      obtain here | old := member
      · rw [here]
        exact filling.sound.named_self _
      · exact filling.sound.named_kept (filling.named v old other) _

theorem Filling.edges (filling : Filling g seed start nextLevel read round) (uid : Str) {follows : List FollowEdge}
    (same : ∀ edge ∈ follows, edge.pubkey = g.pubkey edge.uid) :
    Filling g seed start nextLevel (read ++ follows.map fun edge => (uid,edge.uid)) (follows.foldl (visitEdge nextLevel uid) round) := by
  induction follows generalizing read round with
  | nil => simpa using filling
  | cons edge follows ih =>
    have next := ih (filling.edge uid (same edge List.mem_cons_self)) fun other member => same other (List.mem_cons_of_mem _ member)
    rw [List.append_assoc] at next
    exact next

theorem Filling.results (filling : Filling g seed start nextLevel read round) {results : List FrontierResult}
    (same : ∀ r ∈ results, r.pubkey = g.pubkey r.uid ∧ ∀ edge ∈ r.follows, edge.pubkey = g.pubkey edge.uid) :
    Filling g seed start nextLevel (read ++ edgesOf results) (results.foldl (visitResult nextLevel) round) := by
  induction results generalizing read round with
  | nil => simpa [edgesOf] using filling
  | cons r results ih =>
    obtain ⟨root,targets⟩ := same r List.mem_cons_self
    have seen := (filling.root r.uid).edges r.uid targets
    rw [← root] at seen
    have next := ih seen fun other member => same other (List.mem_cons_of_mem _ member)
    rw [List.append_assoc] at next
    exact next

end Filling

-- After d rounds: the layers up to d are levelled, the edges out of the layers before d are materialized.
structure Walked (g : FollowGraph) (seed : Str) (d : Nat) (frontier : List Str) (leveled : Leveled) : Prop where
  layered : Layered g.Follows seed (leveled.levels.lookup ·) frontier d
  distinct : (pairs leveled.adjacency.entries).Nodup
  edges : ∀ u v, (u,v) ∈ pairs leveled.adjacency.entries ↔ g.Follows u v ∧ ∃ e < d, Dist g.Follows seed e u
  sound : Sound g leveled.pubkeys
  named : ∀ v ∈ leveled.levels, v ≠ seed → Named g leveled.pubkeys v

section Walked
variable {g : FollowGraph} {seed : Str} {d : Nat} {frontier : List Str} {leveled : Leveled}

theorem Walked.start (g : FollowGraph) (seed : Str) : Walked g seed 0 [seed] ⟨(∅ : Table Nat).insert seed 0,∅,∅⟩ where
  layered := by
    apply Layered.start
    intro v
    by_cases same : v = seed
    · rw [if_pos same,same,AList.lookup_insert]
    · rw [if_neg same,AList.lookup_insert_ne same,AList.lookup_empty]
  distinct := List.nodup_nil
  edges u v := by simp [pairs]
  sound v pk found := by cases found
  named v member other := by
    rw [AList.mem_insert] at member
    exact absurd (member.resolve_right (AList.notMem_empty v)) other

theorem Walked.round (walked : Walked g seed d frontier leveled) {results : List FrontierResult} (complete : Complete g frontier results) :
    Walked g seed (d+1) (visitResults (d+1) leveled results).next (visitResults (d+1) leveled results).leveled := by
  have filled := (Filling.begin walked.sound walked.named (d+1)).results complete.named
  rw [List.nil_append] at filled
  refine ⟨?_,?_,?_,filled.sound,filled.named⟩
  · refine walked.layered.round filled.distinct ?_ filled.put filled.kept
    intro v
    rw [visitResults,filled.next]
    simp only [complete.edges]
  · apply filled.adjacency.nodup_iff.mpr
    rw [List.nodup_append]
    refine ⟨complete.distinct,walked.distinct,?_⟩
    intro a new b old same
    rw [same] at new
    obtain ⟨here,_⟩ := (complete.edges b.1 b.2).mp new
    obtain ⟨_,e,early,dist⟩ := (walked.edges b.1 b.2).mp old
    have equal := dist.unique ((walked.layered.layer _).mp here)
    omega
  · intro u v
    refine (filled.adjacency.mem_iff).trans ?_
    rw [List.mem_append,complete.edges,walked.edges,walked.layered.layer]
    constructor
    · intro either
      obtain here | before := either
      · exact ⟨here.2,d,by omega,here.1⟩
      · obtain ⟨follows,e,early,dist⟩ := before
        exact ⟨follows,e,by omega,dist⟩
    · intro both
      obtain ⟨follows,e,near,dist⟩ := both
      by_cases last : e = d
      · rw [last] at dist
        exact .inl ⟨dist,follows⟩
      · exact .inr ⟨follows,e,by omega,dist⟩

-- No layer is deeper than there are nodes that anyone follows.
theorem Walked.shallow (walked : Walked g seed d frontier leveled) (more : frontier ≠ []) : d ≤ g.targets.card := by
  obtain ⟨v,member⟩ := List.exists_mem_of_ne_nil frontier more
  refine Dist.le_card ?_ ((walked.layered.layer v).mp member)
  intro u w follows
  exact Finset.mem_image.mpr ⟨(u,w),follows,rfl⟩

end Walked

-- A cap keeps the levels up to it; without one every level is kept.
def Kept (maxLevel : Int) (d : Nat) : Prop := 0 < maxLevel → (d : Int) ≤ maxLevel

-- Where the loop leaves: no further layer, or the cap.
structure Stopped (g : FollowGraph) (seed : Str) (maxLevel : Int) (leveled : Leveled) (d : Nat) (frontier : List Str) : Prop where
  walked : Walked g seed d frontier leveled
  kept : Kept maxLevel d
  ended : frontier = [] ∨ 0 < maxLevel ∧ maxLevel ≤ d

section Run
variable {ε : Type} {g : FollowGraph} {expand : FrontierExpander ε} {seed : Str} {maxLevel : Int}

theorem levelFrom_stops (expands : Expands g expand) (fuel d : Nat) {frontier : List Str} {leveled : Leveled}
    (walked : Walked g seed d frontier leveled) (kept : Kept maxLevel d) (enough : g.targets.card + 1 ≤ fuel + d) :
    ∃ final, levelFrom expand maxLevel (fuel+1) d frontier leveled = some (.ok final) ∧ ∃ last rest, Stopped g seed maxLevel final last rest := by
  induction fuel generalizing d frontier leveled with
  | zero =>
    have done : frontier = [] := by
      by_contra more
      have shallow := walked.shallow more
      omega
    exact ⟨leveled,by rw [levelFrom,if_pos done],d,frontier,walked,kept,.inl done⟩
  | succ fuel ih =>
    rw [levelFrom]
    by_cases done : frontier = []
    · exact ⟨leveled,by rw [if_pos done],d,frontier,walked,kept,.inl done⟩
    · rw [if_neg done]
      by_cases capped : 0 < maxLevel ∧ maxLevel ≤ d
      · exact ⟨leveled,by rw [if_pos capped],d,frontier,walked,kept,.inr capped⟩
      · rw [if_neg capped]
        obtain ⟨results,answered,complete⟩ := expands frontier done walked.layered.distinct
        rw [answered]
        have deeper : Kept maxLevel (d+1) := by
          intro cap
          have below : ¬maxLevel ≤ d := fun reached => capped ⟨cap,reached⟩
          omega
        exact ih (d+1) (walked.round complete) deeper (by omega)

-- More fuel changes nothing.
theorem levelFrom_more {fuel more d : Nat} {frontier : List Str} {leveled : Leveled} {answer : Except ε Leveled}
    (returned : levelFrom expand maxLevel fuel d frontier leveled = some answer) (enough : fuel ≤ more) :
    levelFrom expand maxLevel more d frontier leveled = some answer := by
  induction fuel generalizing more d frontier leveled with
  | zero => cases returned
  | succ fuel ih =>
    obtain ⟨spare,rfl⟩ := Nat.exists_eq_add_of_le' (Nat.lt_of_lt_of_le (Nat.succ_pos fuel) enough)
    rw [levelFrom] at returned ⊢
    split
    · rename_i done
      rw [if_pos done] at returned
      exact returned
    · rename_i further
      rw [if_neg further] at returned
      split
      · rename_i capped
        rw [if_pos capped] at returned
        exact returned
      · rename_i below
        rw [if_neg below] at returned
        cases answered : expand frontier with
        | error e =>
          rw [answered] at returned
          exact returned
        | ok results =>
          rw [answered] at returned
          exact ih returned (by omega)

theorem level_more {fuel more : Nat} {answer : Except ε Leveled} (returned : level expand seed maxLevel fuel = some answer) (enough : fuel ≤ more) :
    level expand seed maxLevel more = some answer := levelFrom_more returned enough

theorem level_stops (expands : Expands g expand) (seed : Str) (maxLevel : Int) {fuel : Nat} (enough : g.targets.card + 2 ≤ fuel) :
    ∃ final, level expand seed maxLevel fuel = some (.ok final) ∧ ∃ last rest, Stopped g seed maxLevel final last rest := by
  have kept : Kept maxLevel 0 := fun cap => by omega
  have unwound := levelFrom_stops expands (fuel - 1) 0 (Walked.start g seed) kept (by omega)
  have whole : fuel - 1 + 1 = fuel := by omega
  rw [whole] at unwound
  exact unwound

end Run

section Stopped
variable {g : FollowGraph} {seed : Str} {maxLevel : Int} {leveled : Leveled} {d : Nat} {frontier : List Str}

-- Exactly the nodes within the cap are levelled, with their distance.
theorem Stopped.levels (stopped : Stopped g seed maxLevel leveled d frontier) (v : Str) (e : Nat) :
    leveled.levels.lookup v = some e ↔ Dist g.Follows seed e v ∧ Kept maxLevel e := by
  rw [stopped.walked.layered.levelled]
  constructor
  · intro both
    refine ⟨both.1,?_⟩
    intro cap
    have reach := stopped.kept cap
    omega
  · intro both
    refine ⟨both.1,?_⟩
    cases stopped.ended with
    | inl done =>
      have layered := stopped.walked.layered
      rw [done] at layered
      exact (layered.ended both.1).le
    | inr capped =>
      have within := both.2 capped.1
      omega

-- The argument of score.go: every edge that can count was materialized before the walk stopped.
theorem Stopped.materialized (stopped : Stopped g seed maxLevel leveled d frontier) {u v : Str} {e f : Nat} (follower : leveled.levels.lookup u = some e)
    (target : leveled.levels.lookup v = some f) (less : e < f) : (u,v) ∈ pairs leveled.adjacency.entries ↔ g.Follows u v := by
  have near := (stopped.walked.layered.levelled u e).mp follower
  have far := (stopped.walked.layered.levelled v f).mp target
  rw [stopped.walked.edges]
  constructor
  · exact And.left
  · intro follows
    exact ⟨follows,e,by omega,near.1⟩

end Stopped
end DeepFry.SpamExplorer
