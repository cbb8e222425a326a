import DeepFry.WebOfTrust.FollowerCount

namespace DeepFry.WebOfTrust

def validFollowees (e : Kind3) : List Str := e.follows.filter isValidHexPubkey

-- The effect of one replacement on a graph without two nodes of one pubkey.
structure Replaced (g : Graph) (s : Uid) (e : Kind3) (now : Int) (next : Graph) : Prop where
  grown : Grown g next
  unique : Unique next
  others : ∀ u ∈ g.uids, u ≠ s → (next.node u).uncounted = (g.node u).uncounted
  stamped : (next.node s).kind3CreatedAt = some e.createdAt ∧ (next.node s).lastDbUpdate = some now
  isolated : ∀ u ∈ next.uids, u ∉ g.uids → (next.node u).follows = [] ∧ (next.node u).kind3CreatedAt = none
  follows : ∀ f ∈ validFollowees e, ∃ u, (next.node u).pubkey = some f ∧ next.edge s u = true
  only : (∀ v, g.edge s v = true → (g.node v).pubkey.isSome = true) →
    ∀ v, next.edge s v = true → ∃ f ∈ validFollowees e, (next.node v).pubkey = some f
  counts : ∀ u ∈ g.uids, (next.node u).followerCount =
    if next.edge s u = g.edge s u then (g.node u).followerCount
    else some (max 0 ((g.node u).followerCount.getD 0 + if next.edge s u = true then 1 else -1))
  fresh : ∀ u ∈ next.uids, u ∉ g.uids → (next.node u).followerCount = some 1 ∧ next.edge s u = true

theorem valid_nonempty {pk : Str} (valid : isValidHexPubkey pk = true) : pk ≠ [] := by
  rintro rfl
  cases valid

section Targets
variable {g : Graph} {names : List Str} {r : Resolution} {u : Uid} {f : Str}

theorem lookup_named (sofar : Resolved g names r) (found : r.uids.lookup f = some u) :
    u ∈ r.graph.uids ∧ (r.graph.node u).pubkey = some f ∧ f ∈ names := by
  have member : (f,u) ∈ r.uids := by
    obtain ⟨before,after,same,_⟩ := List.lookup_eq_some_iff.mp found
    rw [same]
    exact List.mem_append_right _ List.mem_cons_self
  obtain ⟨known,named⟩ := sofar.found _ member
  exact ⟨known,named,by rw [← sofar.named]; exact List.mem_map_of_mem member⟩

theorem lookup_total (sofar : Resolved g names r) (member : f ∈ names) : ∃ u, r.uids.lookup f = some u := by
  rw [← sofar.named] at member
  obtain ⟨⟨name,u⟩,stored,rfl⟩ := List.mem_map.mp member
  cases found : r.uids.lookup name with
  | some v => exact ⟨v,rfl⟩
  | none =>
    have absent := List.lookup_eq_none_iff.mp found _ stored
    simp at absent

-- The edges written are those to the nodes that carry the names.
theorem targets_exact (sofar : Resolved g names r) : u ∈ r.uids.map (·.2) ↔ ∃ f ∈ names, (r.graph.node u).pubkey = some f := by
  constructor
  · intro member
    obtain ⟨entry,stored,rfl⟩ := List.mem_map.mp member
    refine ⟨entry.1,?_,(sofar.found entry stored).2⟩
    rw [← sofar.named]
    exact List.mem_map_of_mem stored
  · rintro ⟨f,member,named⟩
    rw [← sofar.named] at member
    obtain ⟨entry,stored,rfl⟩ := List.mem_map.mp member
    exact List.mem_map.mpr ⟨entry,stored,sofar.unique _ _ _ (sofar.found entry stored).2 named⟩

theorem targets_known (sofar : Resolved g names r) : ∀ target ∈ r.uids.map (·.2), target ∈ r.graph.uids := by
  intro target member
  obtain ⟨entry,stored,rfl⟩ := List.mem_map.mp member
  exact (sofar.found entry stored).1
end Targets

section Effect
variable {g : Graph} (e : Kind3) (lease : Lease) (now : Int) {s : Uid} (existing : Table Str Uid) {u v : Uid}

def resolution (e : Kind3) (lease : Lease) (now : Int) (s : Uid) (existing : Table Str Uid) (g : Graph) : Resolution :=
  resolved lease (validFollowees e) (cleared e now s existing g)

def beforeCounts (e : Kind3) (lease : Lease) (now : Int) (s : Uid) (existing : Table Str Uid) (g : Graph) : Graph :=
  linked s (resolution e lease now s existing g)

theorem replacement_steps (s : Uid) (g : Graph) : replacement e lease now s existing g =
    counted existing (validFollowees e) (resolution e lease now s existing g) (beforeCounts e lease now s existing g) := rfl

theorem beforeCounts_uids : (beforeCounts e lease now s existing g).uids = (resolution e lease now s existing g).graph.uids :=
  setEdges_uids _ _

theorem replacement_uids : (replacement e lease now s existing g).uids = (resolution e lease now s existing g).graph.uids := by
  rw [replacement_steps,counted,setCounts_uids,beforeCounts_uids]

theorem replacement_uncounted (u : Uid) : ((replacement e lease now s existing g).node u).uncounted =
    ((beforeCounts e lease now s existing g).node u).uncounted := setCounts_uncounted _ _ u

theorem replacement_pubkey (u : Uid) : ((replacement e lease now s existing g).node u).pubkey =
    ((beforeCounts e lease now s existing g).node u).pubkey := by
  have same := congrArg Node.pubkey (replacement_uncounted e lease now existing (g := g) (s := s) u)
  exact same

theorem replacement_edge : (replacement e lease now s existing g).edge u v = (beforeCounts e lease now s existing g).edge u v := by
  have same := congrArg Node.follows (replacement_uncounted e lease now existing (g := g) (s := s) u)
  change ((replacement e lease now s existing g).node u).follows = _ at same
  rw [Graph.edge,same]
  rfl

theorem cleared_edge (known : s ∈ g.uids) :
    (cleared e now s existing g).edge s v = true ↔ g.edge s v = true ∧ ¬∃ key, existing.lookup key = some v := by
  rw [Graph.edge_iff,cleared_self known,List.mem_filter,decide_eq_true_eq,mem_values,Graph.edge_iff]

theorem resolution_exact (unique : Unique g) :
    Resolved (cleared e now s existing g) (validFollowees e) (resolution e lease now s existing g) :=
  resolved_all (unique_cleared unique) (e.distinct.filter _)

theorem resolution_old (unique : Unique g) (old : u ∈ g.uids) :
    u ∈ (resolution e lease now s existing g).graph.uids ∧
      (resolution e lease now s existing g).graph.node u = (cleared e now s existing g).node u :=
  (resolution_exact e lease now existing unique).known u (by rw [cleared_uids]; exact old)

theorem beforeCounts_other (other : u ≠ s) :
    (beforeCounts e lease now s existing g).node u = (resolution e lease now s existing g).graph.node u :=
  setEdges_other _ _ other

-- The signer's node after the edges are written.
theorem beforeCounts_self (unique : Unique g) (known : s ∈ g.uids) :
    ∃ follows, (beforeCounts e lease now s existing g).node s = { (cleared e now s existing g).node s with follows } ∧
      ∀ v, v ∈ follows ↔ (cleared e now s existing g).edge s v = true ∨
        ∃ f ∈ validFollowees e, ((resolution e lease now s existing g).graph.node v).pubkey = some f := by
  have sofar := resolution_exact e lease now existing (s := s) unique
  obtain ⟨present,same⟩ := resolution_old e lease now existing (s := s) unique known
  obtain ⟨follows,node,exact⟩ := setEdges_self _ present (targets_known sofar)
  rw [same] at node exact
  refine ⟨follows,node,fun v => ?_⟩
  rw [exact,targets_exact sofar,Graph.edge_iff]

theorem beforeCounts_pubkey (unique : Unique g) (known : s ∈ g.uids) (u : Uid) :
    ((beforeCounts e lease now s existing g).node u).pubkey = ((resolution e lease now s existing g).graph.node u).pubkey := by
  by_cases here : u = s
  · subst here
    obtain ⟨follows,node,_⟩ := beforeCounts_self e lease now existing unique known
    rw [node,(resolution_old e lease now existing unique known).2]
  · rw [beforeCounts_other e lease now existing here]

theorem resolution_pubkey (unique : Unique g) (old : u ∈ g.uids) :
    ((resolution e lease now s existing g).graph.node u).pubkey = (g.node u).pubkey := by
  rw [(resolution_old e lease now existing unique old).2,cleared_pubkey]

-- The signer's edges afterwards: the old ones the map of existing follows missed, and one to each valid followee.
theorem replacement_edges (unique : Unique g) (known : s ∈ g.uids) :
    (replacement e lease now s existing g).edge s v = true ↔
      (g.edge s v = true ∧ ¬∃ key, existing.lookup key = some v) ∨
        ∃ f ∈ validFollowees e, ((resolution e lease now s existing g).graph.node v).pubkey = some f := by
  obtain ⟨follows,node,exact⟩ := beforeCounts_self e lease now existing unique known
  rw [replacement_edge,Graph.edge_iff,node,exact,cleared_edge e now existing known]

theorem keyOf_named {key : Str} (named : (g.node u).pubkey = some key) : keyOf g u = key := by rw [keyOf,named]; rfl

theorem named_keyOf {key : Str} (same : keyOf g u = key) (some_key : key ≠ []) : (g.node u).pubkey = some key := by
  unfold keyOf at same
  cases named : (g.node u).pubkey with
  | none => rw [named] at same; exact absurd same.symm some_key
  | some pk => rw [named] at same; exact congrArg some same

theorem beforeCounts_count (unique : Unique g) (known : s ∈ g.uids) (old : u ∈ g.uids) :
    ((beforeCounts e lease now s existing g).node u).followerCount = (g.node u).followerCount := by
  by_cases here : u = s
  · subst here
    obtain ⟨follows,node,_⟩ := beforeCounts_self e lease now existing unique known
    rw [node,cleared_self known]
  · rw [beforeCounts_other e lease now existing here,(resolution_old e lease now existing unique old).2,cleared_other here]

def lines (e : Kind3) (lease : Lease) (now : Int) (s : Uid) (existing : Table Str Uid) (g : Graph) : List (Uid × Int) :=
  let r := resolution e lease now s existing g
  countLines (beforeCounts e lease now s existing g) existing r (adjustments existing (validFollowees e) r.created)

theorem lines_distinct (unique : Unique g) (known : s ∈ g.uids) (mapped : Existing g s existing) :
    ((lines e lease now s existing g).map (·.1)).Nodup := by
  have sofar := resolution_exact e lease now existing (s := s) unique
  refine countLines_distinct (adjustments_distinct (e.distinct.filter _)) fun ⟨pk,d⟩ member u uid => ?_
  rcases mem_adjustments.mp member with ⟨rfl,_,_,_⟩ | ⟨rfl,_,_⟩
  · apply keyOf_named
    rw [beforeCounts_pubkey e lease now existing unique known]
    exact (lookup_named sofar uid).2.1
  · obtain ⟨edge,key⟩ := mapped.sound pk u uid
    rw [← key,keyOf,keyOf,beforeCounts_pubkey e lease now existing unique known,
      resolution_pubkey e lease now existing unique (Graph.target_mem edge)]

-- A known node gets a line exactly when its edge from the signer comes or goes.
theorem mem_lines (unique : Unique g) (known : s ∈ g.uids) (mapped : Existing g s existing) (old : u ∈ g.uids) {count : Int} :
    (u,count) ∈ lines e lease now s existing g ↔
      (replacement e lease now s existing g).edge s u ≠ g.edge s u ∧ count = max 0 ((g.node u).followerCount.getD 0 +
        if (replacement e lease now s existing g).edge s u = true then 1 else -1) := by
  have sofar := resolution_exact e lease now existing (s := s) unique
  have pubkey := resolution_pubkey e lease now existing (s := s) unique old
  have edges := @replacement_edges g e lease now s existing u unique known
  rw [lines,mem_countLines,beforeCounts_count e lease now existing unique known old]
  constructor
  · rintro ⟨⟨pk,d⟩,member,uid,rfl⟩
    rcases mem_adjustments.mp member with ⟨rfl,here,new,_⟩ | ⟨rfl,_,gone⟩
    · obtain ⟨_,named,_⟩ := lookup_named sofar uid
      have after := edges.mpr (.inr ⟨pk,here,named⟩)
      have before : g.edge s u ≠ true := by
        intro edge
        rw [pubkey] at named
        have found := mapped.found pk u edge named (valid_nonempty (List.of_mem_filter here))
        exact new (AList.lookup_isSome.mp (by rw [found]; rfl))
      rw [after,if_pos rfl]
      exact ⟨fun same => before same.symm,rfl⟩
    · obtain ⟨before,key⟩ := mapped.sound pk u uid
      have after : ¬(replacement e lease now s existing g).edge s u = true := by
        intro edge
        rcases edges.mp edge with ⟨_,missed⟩ | ⟨f,here,named⟩
        · exact missed ⟨pk,uid⟩
        · rw [pubkey] at named
          rw [keyOf_named named] at key
          exact gone (key ▸ here)
      rw [before,if_neg after]
      exact ⟨after,rfl⟩
  · rintro ⟨moved,rfl⟩
    by_cases after : (replacement e lease now s existing g).edge s u = true
    · have before : ¬g.edge s u = true := fun edge => moved (after.trans edge.symm)
      rcases edges.mp after with ⟨edge,_⟩ | ⟨f,here,named⟩
      · exact absurd edge before
      · have named' : (g.node u).pubkey = some f := pubkey ▸ named
        have new : f ∉ existing := by
          intro there
          obtain ⟨v,found⟩ := Option.isSome_iff_exists.mp (AList.lookup_isSome.mpr there)
          obtain ⟨edge,key⟩ := mapped.sound f v found
          have same := unique u v f named' (named_keyOf key (valid_nonempty (List.of_mem_filter here)))
          exact before (same ▸ edge)
        have uncreated : f ∉ (resolution e lease now s existing g).created := by
          intro created
          refine (sofar.created f created).2 u (by rw [cleared_uids]; exact old) ?_
          rw [cleared_pubkey]
          exact named'
        obtain ⟨w,found⟩ := lookup_total sofar here
        have same := sofar.unique w u f (lookup_named sofar found).2.1 named
        subst same
        rw [if_pos after]
        exact ⟨(f,1),mem_adjustments.mpr (.inl ⟨rfl,here,new,uncreated⟩),found,rfl⟩
    · have before : g.edge s u = true := by
        by_contra edge
        rw [Bool.not_eq_true] at after edge
        exact moved (after.trans edge.symm)
      obtain ⟨key,found⟩ : ∃ key, existing.lookup key = some u := by
        by_contra missed
        exact after (edges.mpr (.inl ⟨before,missed⟩))
      have gone : key ∉ validFollowees e := by
        intro here
        have named := named_keyOf (mapped.sound key u found).2 (valid_nonempty (List.of_mem_filter here))
        exact after (edges.mpr (.inr ⟨key,here,pubkey.trans named⟩))
      have there : key ∈ existing := AList.lookup_isSome.mp (by rw [found]; rfl)
      rw [if_neg after]
      exact ⟨(key,-1),mem_adjustments.mpr (.inr ⟨rfl,there,gone⟩),found,rfl⟩

theorem created_stub (unique : Unique g) (known : s ∈ g.uids) (present : u ∈ (replacement e lease now s existing g).uids)
    (unknown : u ∉ g.uids) : ∃ f ∈ (resolution e lease now s existing g).created,
      (resolution e lease now s existing g).graph.node u = stub f ∧ (beforeCounts e lease now s existing g).node u = stub f := by
  rw [replacement_uids] at present
  obtain ⟨f,created,node⟩ := (resolution_exact e lease now existing (s := s) unique).made u present
    (by rw [cleared_uids]; exact unknown)
  have other : u ≠ s := fun same => unknown (same ▸ known)
  exact ⟨f,created,node,(beforeCounts_other e lease now existing other).trans node⟩

theorem created_unlisted (unique : Unique g) (known : s ∈ g.uids) (mapped : Existing g s existing)
    (present : u ∈ (replacement e lease now s existing g).uids) (unknown : u ∉ g.uids) :
    u ∉ (lines e lease now s existing g).map (·.1) := by
  intro listed
  have sofar := resolution_exact e lease now existing (s := s) unique
  obtain ⟨f,created,node,_⟩ := created_stub e lease now existing unique known present unknown
  obtain ⟨⟨v,count⟩,member,same⟩ := List.mem_map.mp listed
  change v = u at same
  subst same
  obtain ⟨⟨pk,d⟩,inside,uid,_⟩ := mem_countLines.mp member
  rcases mem_adjustments.mp inside with ⟨rfl,_,_,old⟩ | ⟨rfl,_,_⟩
  · have named := (lookup_named sofar uid).2.1
    rw [node] at named
    cases named
    exact old created
  · exact unknown (Graph.target_mem (mapped.sound pk v uid).1)

theorem replacement_exact (unique : Unique g) (known : s ∈ g.uids) (mapped : Existing g s existing) :
    Replaced g s e now (replacement e lease now s existing g) := by
  have sofar := resolution_exact e lease now existing (s := s) unique
  have pubkeys : ∀ u, ((replacement e lease now s existing g).node u).pubkey =
      ((resolution e lease now s existing g).graph.node u).pubkey := fun u =>
    (replacement_pubkey e lease now existing u).trans (beforeCounts_pubkey e lease now existing unique known u)
  have plain : ∀ u ∈ (replacement e lease now s existing g).uids, u ∉ g.uids →
      ∃ f, ((replacement e lease now s existing g).node u).uncounted = (stub f).uncounted := by
    intro u present unknown
    obtain ⟨f,_,_,node⟩ := created_stub e lease now existing unique known present unknown
    exact ⟨f,by rw [replacement_uncounted,node]⟩
  have stamped : ∃ follows, ((replacement e lease now s existing g).node s).uncounted =
      { (cleared e now s existing g).node s with follows, followerCount := none } := by
    obtain ⟨follows,node,_⟩ := beforeCounts_self e lease now existing unique known
    exact ⟨follows,by rw [replacement_uncounted,node]; rfl⟩
  refine ⟨grown_replacement e now s existing g,?_,?_,?_,?_,?_,?_,?_,?_⟩
  · intro u v pk left right
    rw [pubkeys] at left right
    exact sofar.unique u v pk left right
  · intro u old other
    rw [replacement_uncounted,beforeCounts_other e lease now existing other,
      (resolution_old e lease now existing unique old).2,cleared_other other]
  · obtain ⟨follows,node⟩ := stamped
    rw [cleared_self known] at node
    exact ⟨congrArg Node.kind3CreatedAt node,congrArg Node.lastDbUpdate node⟩
  · intro u present unknown
    obtain ⟨f,node⟩ := plain u present unknown
    exact ⟨congrArg Node.follows node,congrArg Node.kind3CreatedAt node⟩
  · intro f here
    obtain ⟨u,found⟩ := lookup_total sofar here
    have named := (lookup_named sofar found).2.1
    exact ⟨u,(pubkeys u).trans named,(replacement_edges e lease now existing unique known).mpr (.inr ⟨f,here,named⟩)⟩
  · intro keyed v edge
    rcases (replacement_edges e lease now existing unique known).mp edge with ⟨before,missed⟩ | ⟨f,here,named⟩
    · exact absurd ⟨_,mapped.whole keyed v before⟩ missed
    · exact ⟨f,here,(pubkeys v).trans named⟩
  · intro u old
    have present : u ∈ (beforeCounts e lease now s existing g).uids := by
      rw [beforeCounts_uids]
      exact (resolution_old e lease now existing unique old).1
    rw [replacement_steps]
    split
    · rename_i same
      have unlisted : u ∉ (lines e lease now s existing g).map (·.1) := by
        intro listed
        obtain ⟨⟨v,count⟩,member,here⟩ := List.mem_map.mp listed
        change v = u at here
        subst here
        exact ((mem_lines e lease now existing unique known mapped old).mp member).1 same
      have node := setCounts_other _ (beforeCounts e lease now s existing g) unlisted
      refine (congrArg Node.followerCount node).trans ?_
      exact beforeCounts_count e lease now existing unique known old
    · rename_i moved
      have member := (mem_lines e lease now existing unique known mapped old).mpr ⟨moved,rfl⟩
      have node := setCounts_self (lines_distinct e lease now existing unique known mapped) member present
      exact congrArg Node.followerCount node
  · intro u present unknown
    obtain ⟨f,created,named,node⟩ := created_stub e lease now existing unique known present unknown
    have unlisted := created_unlisted e lease now existing unique known mapped present unknown
    have kept := setCounts_other _ (beforeCounts e lease now s existing g) unlisted
    refine ⟨(congrArg Node.followerCount kept).trans (by rw [node]; rfl),?_⟩
    exact (replacement_edges e lease now existing unique known).mpr (.inr ⟨f,(sofar.created f created).1,by rw [named]; rfl⟩)
end Effect

end DeepFry.WebOfTrust
