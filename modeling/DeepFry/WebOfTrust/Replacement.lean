import DeepFry.WebOfTrust.AddFollowers

namespace DeepFry.WebOfTrust

section Existing
variable {g : Graph} {u v s : Uid} {key : Str} {m : Table Str Uid}

def keyOf (g : Graph) (u : Uid) : Str := (g.node u).pubkey.getD []

theorem lookup_collected (uids : List Uid) (found : (uids.foldl (fun m u => m.insert (keyOf g u) u) m).lookup key = some u) :
    (u ∈ uids ∧ keyOf g u = key) ∨ m.lookup key = some u := by
  induction uids generalizing m with
  | nil => exact .inr found
  | cons first rest ih =>
    rcases ih found with ⟨later,same⟩ | before
    · exact .inl ⟨List.mem_cons_of_mem _ later,same⟩
    · by_cases here : key = keyOf g first
      · subst here
        rw [AList.lookup_insert] at before
        cases before
        exact .inl ⟨List.mem_cons_self,rfl⟩
      · rw [AList.lookup_insert_ne here] at before
        exact .inr before

theorem lookup_kept (uids : List Uid) (before : m.lookup key = some u) (other : ∀ v ∈ uids, keyOf g v = key → v = u) :
    (uids.foldl (fun m u => m.insert (keyOf g u) u) m).lookup key = some u := by
  induction uids generalizing m with
  | nil => exact before
  | cons first rest ih =>
    refine ih ?_ fun v later => other v (List.mem_cons_of_mem _ later)
    by_cases here : key = keyOf g first
    · subst here
      rw [AList.lookup_insert,other first List.mem_cons_self rfl]
    · rw [AList.lookup_insert_ne here]
      exact before

theorem collected (uids : List Uid) (member : u ∈ uids) (alone : ∀ v ∈ uids, keyOf g v = keyOf g u → v = u) :
    (uids.foldl (fun m u => m.insert (keyOf g u) u) m).lookup (keyOf g u) = some u := by
  induction uids generalizing m with
  | nil => cases member
  | cons first rest ih =>
    have others : ∀ v ∈ rest, keyOf g v = keyOf g u → v = u := fun v later => alone v (List.mem_cons_of_mem _ later)
    rcases List.mem_cons.mp member with rfl | later
    · exact lookup_kept rest (AList.lookup_insert _) others
    · exact ih later others

def Unique (g : Graph) : Prop := ∀ u v pk, (g.node u).pubkey = some pk → (g.node v).pubkey = some pk → u = v

theorem existing_edge (found : (existingFollows g s).lookup key = some u) : g.edge s u = true ∧ keyOf g u = key := by
  rcases lookup_collected (g := g) _ found with ⟨member,same⟩ | before
  · exact ⟨Graph.edge_iff.mpr ((List.mem_insertionSort _).mp member),same⟩
  · cases before

-- A followee with a pubkey is found under it: no other followee has the same one.
theorem existing_found (unique : Unique g) (edge : g.edge s u = true) (named : (g.node u).pubkey = some key) (some_key : key ≠ []) :
    (existingFollows g s).lookup key = some u := by
  have here : keyOf g u = key := by rw [keyOf,named]; rfl
  have member : u ∈ (g.node s).follows.insertionSort (· ≤ ·) := (List.mem_insertionSort _).mpr (Graph.edge_iff.mp edge)
  rw [← here]
  refine collected _ member fun v _ same => unique v u key ?_ named
  rw [here,keyOf] at same
  cases found : (g.node v).pubkey with
  | none =>
    rw [found] at same
    exact absurd same.symm some_key
  | some pk =>
    rw [found] at same
    exact congrArg some same
end Existing

section Grown
variable {g middle next : Graph} {u : Uid} {lease : Lease}

-- What no write of AddFollowers to a node changes.
structure Node.Kept (old new : Node) : Prop where
  pubkey : new.pubkey = old.pubkey
  profile : new.profile = old.profile
  lastAttempt : new.lastAttempt = old.lastAttempt
  nextAttempt : new.nextAttempt = old.nextAttempt
  missCount : new.missCount = old.missCount
  uncrawled : new.uncrawled = old.uncrawled
  followerCount : new.followerCount = old.followerCount ∨ ∃ count, 0 ≤ count ∧ new.followerCount = some count

-- A node as AddFollowers creates it.
structure Node.Made (n : Node) : Prop where
  pubkey : ∃ pk, n.pubkey = some pk
  profile : n.profile = true
  lastAttempt : n.lastAttempt = none
  nextAttempt : n.nextAttempt = none
  missCount : n.missCount = none
  uncrawled : n.uncrawled = some 1
  followerCount : ∃ count, 0 ≤ count ∧ n.followerCount = some count

theorem Node.Kept.refl (n : Node) : n.Kept n := ⟨rfl,rfl,rfl,rfl,rfl,rfl,.inl rfl⟩

theorem Node.Kept.trans {first second third : Node} (left : first.Kept second) (right : second.Kept third) : first.Kept third where
  pubkey := right.pubkey.trans left.pubkey
  profile := right.profile.trans left.profile
  lastAttempt := right.lastAttempt.trans left.lastAttempt
  nextAttempt := right.nextAttempt.trans left.nextAttempt
  missCount := right.missCount.trans left.missCount
  uncrawled := right.uncrawled.trans left.uncrawled
  followerCount := by
    rcases right.followerCount with same | written
    · rw [same]; exact left.followerCount
    · exact .inr written

theorem Node.Made.kept {old new : Node} (made : old.Made) (kept : old.Kept new) : new.Made where
  pubkey := by rw [kept.pubkey]; exact made.pubkey
  profile := by rw [kept.profile]; exact made.profile
  lastAttempt := by rw [kept.lastAttempt]; exact made.lastAttempt
  nextAttempt := by rw [kept.nextAttempt]; exact made.nextAttempt
  missCount := by rw [kept.missCount]; exact made.missCount
  uncrawled := by rw [kept.uncrawled]; exact made.uncrawled
  followerCount := by
    rcases kept.followerCount with same | written
    · rw [same]; exact made.followerCount
    · exact written

theorem made_signer (e : Kind3) (now : Int) : (newSigner e now).Made :=
  ⟨⟨_,rfl⟩,rfl,rfl,rfl,rfl,rfl,0,le_refl _,rfl⟩

theorem made_stub (followee : Str) : (stub followee).Made :=
  ⟨⟨_,rfl⟩,rfl,rfl,rfl,rfl,rfl,1,Int.one_nonneg,rfl⟩

structure Grown (g next : Graph) : Prop where
  known : ∀ u ∈ g.uids, u ∈ next.uids
  kept : ∀ u ∈ g.uids, (g.node u).Kept (next.node u)
  made : ∀ u ∈ next.uids, u ∉ g.uids → (next.node u).Made

theorem Grown.refl (g : Graph) : Grown g g := ⟨fun _ => id,fun _ _ => .refl _,fun _ known unknown => absurd known unknown⟩

theorem Grown.trans (left : Grown g middle) (right : Grown middle next) : Grown g next where
  known u known := right.known u (left.known u known)
  kept u known := (left.kept u known).trans (right.kept u (left.known u known))
  made u known unknown := by
    by_cases between : u ∈ middle.uids
    · exact (left.made u between unknown).kept (right.kept u between)
    · exact right.made u known between

theorem grown_modify_here {set : Node → Node} (kept : (g.node u).Kept (set (g.node u))) : Grown g (g.modify u set) where
  known _ := id
  kept v known := by
    by_cases here : v = u
    · subst here
      obtain ⟨pubkey,profile,lastAttempt,nextAttempt,missCount,uncrawled,followerCount⟩ := kept
      rw [Graph.node_modify,if_pos ⟨rfl,known⟩]
      exact ⟨pubkey,profile,lastAttempt,nextAttempt,missCount,uncrawled,followerCount⟩
    · rw [Graph.node_modify_other here]
      exact .refl _
  made _ known unknown := absurd known unknown

theorem grown_modify {set : Node → Node} (kept : ∀ n : Node, n.Kept (set n)) : Grown g (g.modify u set) :=
  grown_modify_here (kept _)

theorem grown_alloc {n : Node} (made : n.Made) : Grown g (g.alloc lease n) where
  known u known := Graph.mem_alloc.mpr (.inr known)
  kept u known := by
    rw [Graph.node_alloc_old known]
    exact .refl _
  made u known unknown := by
    rcases Graph.mem_alloc.mp known with rfl | old
    · rw [Graph.node_alloc,if_pos rfl]
      obtain ⟨pubkey,profile,lastAttempt,nextAttempt,missCount,uncrawled,followerCount⟩ := made
      exact ⟨pubkey,profile,lastAttempt,nextAttempt,missCount,uncrawled,followerCount⟩
    · exact absurd old unknown

theorem grown_fold {α : Type} {set : Graph → α → Graph} (items : List α) (one : ∀ g item, item ∈ items → Grown g (set g item)) (g : Graph) :
    Grown g (items.foldl set g) := by
  induction items generalizing g with
  | nil => exact .refl g
  | cons item rest ih =>
    refine (one g item List.mem_cons_self).trans ?_
    exact ih (fun g item later => one g item (List.mem_cons_of_mem _ later)) _

theorem grown_resolveOne (r : Resolution) (answer : Str × Option Uid) : Grown r.graph (resolveOne lease r answer).graph := by
  obtain ⟨followee,found⟩ := answer
  cases found with
  | none => exact grown_alloc (made_stub followee)
  | some u => exact .refl _

theorem grown_window (window : List Str) (r : Resolution) : Grown r.graph (resolveWindow lease window r).graph := by
  unfold resolveWindow
  generalize window.map _ = answers
  induction answers generalizing r with
  | nil => exact .refl _
  | cons answer rest ih => exact (grown_resolveOne r answer).trans (ih _)

theorem grown_resolved (followees : List Str) (g : Graph) : Grown g (resolved lease followees g).graph := by
  have windows : ∀ (windows : List (List Str)) (r : Resolution),
      Grown r.graph (windows.foldl (fun r window => resolveWindow lease window r) r).graph := by
    intro windows
    induction windows with
    | nil => exact fun r => .refl _
    | cons window rest ih => exact fun r => (grown_window window r).trans (ih _)
  exact windows _ ⟨g,[],[]⟩

theorem grown_cleared (e : Kind3) (now : Int) (s : Uid) (existing : Table Str Uid) : Grown g (cleared e now s existing g) := by
  have stamped : Grown g (g.modify s fun n => { n with kind3CreatedAt := some e.createdAt, lastDbUpdate := some now }) :=
    grown_modify fun _ => ⟨rfl,rfl,rfl,rfl,rfl,rfl,.inl rfl⟩
  unfold cleared
  dsimp only
  split
  · exact stamped
  · exact stamped.trans (grown_modify fun _ => ⟨rfl,rfl,rfl,rfl,rfl,rfl,.inl rfl⟩)

theorem grown_setEdge (s : Uid) (g : Graph) (u : Uid) : Grown g (setEdge s g u) :=
  grown_modify fun _ => ⟨rfl,rfl,rfl,rfl,rfl,rfl,.inl rfl⟩

theorem grown_setCount {line : Uid × Int} (nonneg : 0 ≤ line.2) (g : Graph) : Grown g (setCount g line) :=
  grown_modify fun _ => ⟨rfl,rfl,rfl,rfl,rfl,rfl,.inr ⟨line.2,nonneg,rfl⟩⟩

theorem grown_linked (s : Uid) (r : Resolution) : Grown r.graph (linked s r) :=
  grown_fold _ (fun g u _ => grown_setEdge s g u) _

theorem countLines_nonneg {existing : Table Str Uid} {r : Resolution} {adjust : List (Str × Int)} {line : Uid × Int}
    (member : line ∈ countLines g existing r adjust) : 0 ≤ line.2 := by
  obtain ⟨_,_,found⟩ := List.mem_filterMap.mp member
  obtain ⟨u,_,rfl⟩ := Option.map_eq_some_iff.mp found
  exact le_max_left 0 _

theorem grown_counted (existing : Table Str Uid) (followees : List Str) (r : Resolution) (g : Graph) :
    Grown g (counted existing followees r g) :=
  grown_fold _ (fun g _ member => grown_setCount (countLines_nonneg member) g) g

theorem grown_replacement (e : Kind3) (now : Int) (s : Uid) (existing : Table Str Uid) (g : Graph) :
    Grown g (replacement e lease now s existing g) :=
  (((grown_cleared e now s existing).trans (grown_resolved _ _)).trans (grown_linked s _)).trans (grown_counted existing _ _ _)

-- On every graph at all: old nodes keep their pubkey and their crawl state, new nodes start in the frontier.
theorem addFollowers_grown (e : Kind3) (fault : Faults) (lease : Lease) (now : Int) (g : Graph) :
    Grown g (addFollowers e fault lease now g).2 := by
  have written := addFollowers_written e fault lease now g
  generalize addFollowers e fault lease now g = outcome at written ⊢
  cases written with
  | failed error => exact .refl g
  | skipped s _ _ => exact .refl g
  | replaced s _ _ _ => exact grown_replacement e now s _ g
  | created _ _ => exact (grown_alloc (made_signer e now)).trans (grown_replacement e now _ ∅ _)
end Grown

section Resolve
variable {g : Graph} {lease : Lease} {r : Resolution} {names : List Str} {f : Str} {u : Uid}

-- The names looked up so far, from a graph without two nodes of one pubkey.
structure Resolved (g : Graph) (names : List Str) (r : Resolution) : Prop where
  known : ∀ u ∈ g.uids, u ∈ r.graph.uids ∧ r.graph.node u = g.node u
  made : ∀ u ∈ r.graph.uids, u ∉ g.uids → ∃ f ∈ r.created, r.graph.node u = stub f
  named : r.uids.map (·.1) = names
  found : ∀ entry ∈ r.uids, entry.2 ∈ r.graph.uids ∧ (r.graph.node entry.2).pubkey = some entry.1
  created : ∀ f ∈ r.created, f ∈ names ∧ ∀ u ∈ g.uids, (g.node u).pubkey ≠ some f
  unique : Unique r.graph

-- A query's answer for one name is right of a graph.
structure Answered (g : Graph) (answer : Str × Option Uid) : Prop where
  absent : answer.2 = none → ∀ u ∈ g.uids, (g.node u).pubkey ≠ some answer.1
  present : ∀ u, answer.2 = some u → u ∈ g.uids ∧ (g.node u).pubkey = some answer.1

theorem answered_query (g : Graph) (f : Str) : Answered g (f,(g.eqPubkey f).head?) where
  absent none u known named := by
    have member := Graph.mem_eqPubkey.mpr ⟨known,named⟩
    rw [List.head?_eq_none_iff.mp none] at member
    cases member
  present u found := Graph.mem_eqPubkey.mp (List.mem_of_head? found)

theorem answered_one {answer other : Str × Option Uid} (right : Answered r.graph answer) (differ : other.1 ≠ answer.1) :
    Answered (resolveOne lease r other).graph answer := by
  obtain ⟨name,found⟩ := other
  cases found with
  | some u => exact right
  | none =>
    refine ⟨fun absent u known => ?_,fun u present => ?_⟩
    · rcases Graph.mem_alloc.mp known with rfl | old
      · change ((r.graph.alloc lease (stub name)).node _).pubkey ≠ _
        rw [Graph.node_alloc,if_pos rfl]
        exact fun same => differ (Option.some.inj same)
      · change ((r.graph.alloc lease (stub name)).node u).pubkey ≠ _
        rw [Graph.node_alloc_old old]
        exact right.absent absent u old
    · obtain ⟨known,named⟩ := right.present u present
      refine ⟨Graph.mem_alloc.mpr (.inr known),?_⟩
      change ((r.graph.alloc lease (stub name)).node u).pubkey = _
      rw [Graph.node_alloc_old known]
      exact named

theorem unique_alloc {n : Node} (unique : Unique g) (named : n.pubkey = some f) (absent : ∀ u ∈ g.uids, (g.node u).pubkey ≠ some f) :
    Unique (g.alloc lease n) := by
  have fresh : ∀ u, u ≠ lease.pick g.uids → ((g.alloc lease n).node u).pubkey ≠ some f := by
    intro u other here
    rw [Graph.node_alloc,if_neg other] at here
    exact absent u (Graph.mem_of_pubkey here) here
  intro u v pk left right
  by_cases here : u = lease.pick g.uids
  · by_cases there : v = lease.pick g.uids
    · rw [here,there]
    · rw [here,Graph.node_alloc,if_pos rfl,named] at left
      cases left
      exact absurd right (fresh v there)
  · by_cases there : v = lease.pick g.uids
    · rw [there,Graph.node_alloc,if_pos rfl,named] at right
      cases right
      exact absurd left (fresh u here)
    · rw [Graph.node_alloc,if_neg here] at left
      rw [Graph.node_alloc,if_neg there] at right
      exact unique u v pk left right

theorem resolved_one {found : Option Uid} (sofar : Resolved g names r) (right : Answered r.graph (f,found)) :
    Resolved g (names ++ [f]) (resolveOne lease r (f,found)) := by
  obtain ⟨known,made,named,entries,created,unique⟩ := sofar
  cases found with
  | some u =>
    refine ⟨known,made,by rw [resolveOne,List.map_append,named]; rfl,fun entry member => ?_,fun other member => ?_,unique⟩
    · rcases List.mem_append.mp member with old | last
      · exact entries entry old
      · rw [List.mem_singleton.mp last]
        exact right.present u rfl
    · exact ⟨List.mem_append_left _ (created other member).1,(created other member).2⟩
  | none =>
    have absent := right.absent rfl
    refine ⟨fun u old => ?_,fun u new unknown => ?_,by rw [resolveOne,List.map_append,named]; rfl,fun entry member => ?_,
      fun other member => ?_,unique_alloc unique rfl absent⟩
    · refine ⟨Graph.mem_alloc.mpr (.inr (known u old).1),?_⟩
      exact (Graph.node_alloc_old (known u old).1).trans (known u old).2
    · rcases Graph.mem_alloc.mp new with rfl | old
      · exact ⟨f,List.mem_append_right _ List.mem_cons_self,if_pos rfl⟩
      · obtain ⟨name,member,same⟩ := made u old unknown
        exact ⟨name,List.mem_append_left _ member,(Graph.node_alloc_old old).trans same⟩
    · rcases List.mem_append.mp member with old | last
      · obtain ⟨stored,same⟩ := entries entry old
        refine ⟨Graph.mem_alloc.mpr (.inr stored),?_⟩
        change ((r.graph.alloc lease (stub f)).node entry.2).pubkey = _
        rw [Graph.node_alloc_old stored]
        exact same
      · rw [List.mem_singleton.mp last]
        refine ⟨Graph.mem_alloc.mpr (.inl rfl),?_⟩
        change ((r.graph.alloc lease (stub f)).node _).pubkey = _
        rw [Graph.node_alloc,if_pos rfl]
        rfl
    · rcases List.mem_append.mp member with old | last
      · exact ⟨List.mem_append_left _ (created other old).1,(created other old).2⟩
      · cases List.mem_singleton.mp last
        refine ⟨List.mem_append_right _ List.mem_cons_self,fun u old => ?_⟩
        rw [← (known u old).2]
        exact absent u (known u old).1

theorem resolved_answers (lease : Lease) {answers : List (Str × Option Uid)} (sofar : Resolved g names r)
    (right : ∀ answer ∈ answers, Answered r.graph answer) (differ : (answers.map (·.1)).Nodup) :
    Resolved g (names ++ answers.map (·.1)) (answers.foldl (resolveOne lease) r) := by
  induction answers generalizing r names with
  | nil => rw [List.map_nil,List.append_nil]; exact sofar
  | cons answer rest ih =>
    obtain ⟨name,found⟩ := answer
    rw [List.map_cons,List.nodup_cons] at differ
    have one := @resolved_one g lease r names name found sofar (right _ List.mem_cons_self)
    have later := ih one (fun other member => answered_one (right other (List.mem_cons_of_mem _ member)) ?_) differ.2
    · rw [List.append_assoc] at later
      exact later
    · exact fun same => differ.1 (List.mem_map.mpr ⟨other,member,same.symm⟩)

theorem resolved_windows (lease : Lease) {windows : List (List Str)} (sofar : Resolved g names r) (differ : ∀ window ∈ windows, window.Nodup) :
    Resolved g (names ++ windows.flatten) (windows.foldl (fun r window => resolveWindow lease window r) r) := by
  induction windows generalizing r names with
  | nil => rw [List.flatten_nil,List.append_nil]; exact sofar
  | cons window rest ih =>
    have answers : ∀ answer ∈ window.map fun followee => (followee,(r.graph.eqPubkey followee).head?), Answered r.graph answer := by
      intro answer member
      obtain ⟨followee,_,rfl⟩ := List.mem_map.mp member
      exact answered_query r.graph followee
    have same : (window.map fun followee => (followee,(r.graph.eqPubkey followee).head?)).map (·.1) = window := by
      rw [List.map_map]
      exact List.map_id window
    have one := resolved_answers lease sofar answers (by rw [same]; exact differ window List.mem_cons_self)
    rw [same] at one
    have later := ih one fun other member => differ other (List.mem_cons_of_mem _ member)
    rw [List.append_assoc] at later
    exact later

theorem resolved_all (unique : Unique g) {followees : List Str} (distinct : followees.Nodup) :
    Resolved g followees (resolved lease followees g) := by
  have start : Resolved g [] ⟨g,[],[]⟩ :=
    ⟨fun u known => ⟨known,rfl⟩,fun u known unknown => absurd known unknown,rfl,
      fun _ member => absurd member List.not_mem_nil,fun _ member => absurd member List.not_mem_nil,unique⟩
  have whole := @chunkSlice_flatten _ batchSize (by decide) followees
  have windows : ∀ window ∈ chunkSlice batchSize followees, window.Nodup := by
    intro window member
    rw [← whole] at distinct
    exact distinct.sublist (List.sublist_flatten_of_mem member)
  have done := resolved_windows lease start windows
  rw [List.nil_append,whole] at done
  exact done
end Resolve

end DeepFry.WebOfTrust
