import DeepFry.WebOfTrust.Replaced

namespace DeepFry.WebOfTrust

structure Consistent (g : Graph) : Prop where
  unique : Unique g
  keyed : ∀ u v, g.edge u v = true → (g.node v).pubkey.isSome = true
  counted : ∀ u pk, (g.node u).pubkey = some pk → (g.node u).followerCount = some (g.indegree u : Int)

-- Between pubkeys: a node that carries the one has an edge to a node that carries the other.
def Follows (g : Graph) (signer followee : Str) : Prop :=
  ∃ s v, (g.node s).pubkey = some signer ∧ g.edge s v = true ∧ (g.node v).pubkey = some followee

section Effects
variable {g next : Graph} {s : Uid} {e : Kind3} {now : Int} {lease : Lease}

theorem Grown.pubkey (grown : Grown g next) {u : Uid} {pk : Str} (named : (g.node u).pubkey = some pk) : (next.node u).pubkey = some pk := by
  rw [(grown.kept u (Graph.mem_of_pubkey named)).pubkey]
  exact named

theorem Replaced.follows_other (replaced : Replaced g s e now next) {u : Uid} (old : u ∈ g.uids) (other : u ≠ s) :
    (next.node u).follows = (g.node u).follows := by
  have same := congrArg Node.follows (replaced.others u old other)
  exact same

theorem Replaced.edge_other (replaced : Replaced g s e now next) {u v : Uid} (other : u ≠ s) : next.edge u v = g.edge u v := by
  by_cases old : u ∈ g.uids
  · rw [Graph.edge,Graph.edge,replaced.follows_other old other]
  · have before : g.edge u v = false := by rw [Graph.edge,g.beyond u old]; rfl
    rw [before]
    by_cases new : u ∈ next.uids
    · rw [Graph.edge,(replaced.isolated u new old).1]
      rfl
    · rw [Graph.edge,next.beyond u new]
      rfl

theorem Replaced.indegree (replaced : Replaced g s e now next) (known : s ∈ g.uids) (u : Uid) :
    next.indegree u + (if g.edge s u = true then 1 else 0) = g.indegree u + if next.edge s u = true then 1 else 0 :=
  Graph.indegree_replace replaced.grown.known known (fun _ old other => replaced.follows_other old other)
    (fun w new unknown => (replaced.isolated w new unknown).1) u

-- A count that was right stays right, and a new node starts with the right one.
theorem Replaced.counted (replaced : Replaced g s e now next) (known : s ∈ g.uids) {u : Uid}
    (right : u ∈ g.uids → (g.node u).followerCount = some (g.indegree u : Int)) (present : u ∈ next.uids) :
    (next.node u).followerCount = some (next.indegree u : Int) := by
  have degree := replaced.indegree known u
  by_cases old : u ∈ g.uids
  · rw [replaced.counts u old,right old]
    split
    · rename_i same
      rw [same] at degree
      exact congrArg (fun n : Nat => some (n : Int)) (Nat.add_right_cancel degree).symm
    · rename_i moved
      rw [Option.getD_some]
      congr 1
      cases after : next.edge s u <;> cases before : g.edge s u <;> simp_all <;> omega
  · obtain ⟨one,edge⟩ := replaced.fresh u present old
    have unreached : ¬g.edge s u = true := fun there => old (Graph.target_mem there)
    rw [if_pos edge,if_neg unreached,Graph.indegree_beyond old] at degree
    rw [one]
    exact congrArg (fun n : Nat => some (n : Int)) degree.symm

theorem Replaced.keyed (replaced : Replaced g s e now next) (keyed : ∀ u v, g.edge u v = true → (g.node v).pubkey.isSome = true) :
    ∀ u v, next.edge u v = true → (next.node v).pubkey.isSome = true := by
  intro u v edge
  by_cases here : u = s
  · subst here
    obtain ⟨f,_,named⟩ := replaced.only (keyed u) v edge
    rw [named]
    rfl
  · rw [replaced.edge_other here] at edge
    obtain ⟨pk,named⟩ := Option.isSome_iff_exists.mp (keyed u v edge)
    rw [replaced.grown.pubkey named]
    rfl

theorem Replaced.consistent (replaced : Replaced g s e now next) (known : s ∈ g.uids) (consistent : Consistent g) : Consistent next where
  unique := replaced.unique
  keyed := replaced.keyed consistent.keyed
  counted u pk named := by
    refine replaced.counted known (fun old => ?_) (Graph.mem_of_pubkey named)
    exact consistent.counted u pk (by rw [← (replaced.grown.kept u old).pubkey]; exact named)

theorem indegree_alloc {n : Node} (u : Uid) : (g.alloc lease n).indegree u = g.indegree u := by
  have lone : ∀ v ∈ (g.alloc lease n).uids, v ∉ g.uids → (g.alloc lease n).edge v u = false := by
    intro v present unknown
    rcases Graph.mem_alloc.mp present with rfl | old
    · rw [Graph.edge,Graph.node_alloc,if_pos rfl]
      rfl
    · exact absurd old unknown
  refine (Digraph.indegree_grown g.distinct (g.alloc lease n).distinct (fun v old => Graph.mem_alloc.mpr (.inr old)) lone).trans
    (Digraph.indegree_congr fun v old => ?_)
  rw [Graph.edge,Graph.edge,Graph.node_alloc_old old]

theorem edge_alloc {n : Node} {u v : Uid} : (g.alloc lease n).edge u v = g.edge u v := by
  unfold Graph.edge
  rw [Graph.node_alloc]
  split
  · rename_i here
    rw [here,g.beyond _ (lease.fresh g.uids)]
    rfl
  · rfl

theorem unknown_pubkey {pk : Str} (unknown : (g.eqPubkey pk).head? = none) : ∀ u ∈ g.uids, (g.node u).pubkey ≠ some pk := by
  intro u known named
  have member := Graph.mem_eqPubkey.mpr ⟨known,named⟩
  rw [List.head?_eq_none_iff.mp unknown] at member
  cases member

theorem consistent_alloc (consistent : Consistent g) (unknown : (g.eqPubkey e.signer).head? = none) :
    Consistent (g.alloc lease (newSigner e now)) where
  unique := unique_alloc consistent.unique rfl (unknown_pubkey unknown)
  keyed u v edge := by
    rw [edge_alloc] at edge
    rw [Graph.node_alloc_old (Graph.target_mem edge)]
    exact consistent.keyed u v edge
  counted u pk named := by
    rw [indegree_alloc]
    rw [Graph.node_alloc] at named ⊢
    split at named
    · rename_i here
      rw [if_pos here,here,Graph.indegree_beyond (lease.fresh g.uids)]
      rfl
    · rename_i other
      rw [if_neg other]
      exact consistent.counted u pk named
end Effects

structure Call where
  event : Kind3
  fault : Faults
  lease : Lease
  now : Int

def Call.outcome (c : Call) (g : Graph) : Except FollowUpdateError Unit × Graph := addFollowers c.event c.fault c.lease c.now g

def apply (g : Graph) (c : Call) : Graph := (c.outcome g).2

def returned (g : Graph) (c : Call) : Bool := (c.outcome g).1.isOk

-- kind3CreatedAt as the version guard reads it: zero where the node or the value is missing.
def stored (g : Graph) (pk : Str) : Int := ((g.eqPubkey pk).head?.bind fun s => (g.node s).kind3CreatedAt).getD 0

-- The call returns without an error and its event passes the version guard.
def accepts (g : Graph) (c : Call) : Bool :=
  returned g c && ((g.eqPubkey c.event.signer).isEmpty || decide (stored g c.event.signer < c.event.createdAt))

def run (g : Graph) (calls : List Call) : Graph := calls.foldl apply g

def collect (wanted : Graph → Call → Bool) : Graph → List Call → List Kind3
  | _,[] => []
  | g,c :: rest => (if wanted g c then [c.event] else []) ++ collect wanted (apply g c) rest

def accepted : Graph → List Call → List Kind3 := collect accepts

def processed : Graph → List Call → List Kind3 := collect returned

section Runs
variable {g next : Graph} {s u v : Uid} {e : Kind3} {now : Int} {lease : Lease} {pk : Str} {c : Call}

theorem head_known (found : (g.eqPubkey pk).head? = some s) : s ∈ g.uids ∧ (g.node s).pubkey = some pk :=
  Graph.mem_eqPubkey.mp (List.mem_of_head? found)

theorem head_named (unique : Unique g) (named : (g.node s).pubkey = some pk) : (g.eqPubkey pk).head? = some s := by
  cases found : (g.eqPubkey pk).head? with
  | none => exact absurd named (unknown_pubkey found s (Graph.mem_of_pubkey named))
  | some u => rw [unique s u pk named (head_known found).2]

theorem stored_known (found : (g.eqPubkey pk).head? = some s) : stored g pk = (g.node s).kind3CreatedAt.getD 0 := by
  rw [stored,found]
  rfl

theorem isEmpty_head : (g.eqPubkey pk).isEmpty = true ↔ (g.eqPubkey pk).head? = none := by
  rw [List.isEmpty_iff,List.head?_eq_none_iff]

-- What an accepted call does to the graph the claim is about.
structure Advanced (g : Graph) (e : Kind3) (next : Graph) : Prop where
  consistent : Consistent next
  own : ∀ f, Follows next e.signer f ↔ f ∈ validFollowees e
  others : ∀ pk, pk ≠ e.signer → ∀ f, Follows next pk f ↔ Follows g pk f
  known : (next.eqPubkey e.signer).head?.isSome = true
  stamped : stored next e.signer = e.createdAt
  unstamped : ∀ pk, pk ≠ e.signer → stored next pk = stored g pk
  remembered : ∀ pk, (g.eqPubkey pk).head?.isSome = true → (next.eqPubkey pk).head?.isSome = true

theorem Grown.known_pubkey (grown : Grown g next) (unique : Unique next) (found : (g.eqPubkey pk).head? = some s) :
    (next.eqPubkey pk).head? = some s := head_named unique (grown.pubkey (head_known found).2)

-- The version guard's values after an accepted event.
structure Dated (g : Graph) (e : Kind3) (next : Graph) : Prop where
  known : (next.eqPubkey e.signer).head?.isSome = true
  stamped : stored next e.signer = e.createdAt
  unstamped : ∀ pk, pk ≠ e.signer → stored next pk = stored g pk
  remembered : ∀ pk, (g.eqPubkey pk).head?.isSome = true → (next.eqPubkey pk).head?.isSome = true

theorem Replaced.dated (replaced : Replaced g s e now next) (named : (g.node s).pubkey = some e.signer) : Dated g e next := by
  have own : (next.eqPubkey e.signer).head? = some s := head_named replaced.unique (replaced.grown.pubkey named)
  refine ⟨?_,?_,fun pk other => ?_,fun pk there => ?_⟩
  · rw [own]; rfl
  · rw [stored_known own,replaced.stamped.1]
    rfl
  · cases found : (g.eqPubkey pk).head? with
    | some s' =>
      have differ : s' ≠ s := by
        rintro rfl
        have signer := (head_known found).2
        rw [named] at signer
        cases signer
        exact other rfl
      rw [stored_known (replaced.grown.known_pubkey replaced.unique found),stored_known found]
      have same := congrArg Node.kind3CreatedAt (replaced.others s' (head_known found).1 differ)
      exact congrArg (Option.getD · 0) same
    | none =>
      rw [stored,stored,found]
      cases there : (next.eqPubkey pk).head? with
      | none => rfl
      | some s' =>
        obtain ⟨present,signer⟩ := head_known there
        have unknown : s' ∉ g.uids := by
          intro old
          refine unknown_pubkey found s' old ?_
          rw [← (replaced.grown.kept s' old).pubkey]
          exact signer
        rw [Option.bind_some,(replaced.isolated s' present unknown).2]
        rfl
  · obtain ⟨s',found⟩ := Option.isSome_iff_exists.mp there
    rw [replaced.grown.known_pubkey replaced.unique found]
    rfl

theorem Replaced.advanced (replaced : Replaced g s e now next) (named : (g.node s).pubkey = some e.signer)
    (consistent : Consistent g) : Advanced g e next := by
  have named' := replaced.grown.pubkey named
  have after := replaced.consistent (Graph.mem_of_pubkey named) consistent
  obtain ⟨known,stamped,unstamped,remembered⟩ := replaced.dated named
  refine ⟨after,fun f => ⟨?_,fun here => ?_⟩,fun pk other f => ⟨?_,?_⟩,known,stamped,unstamped,remembered⟩
  · rintro ⟨s',v,signer,edge,followee⟩
    cases replaced.unique s' s _ signer named'
    obtain ⟨f',here,named⟩ := replaced.only (consistent.keyed s) v edge
    rw [named] at followee
    cases followee
    exact here
  · obtain ⟨v,followee,edge⟩ := replaced.follows f here
    exact ⟨s,v,named',edge,followee⟩
  · rintro ⟨s',v,signer,edge,followee⟩
    have differ : s' ≠ s := by
      rintro rfl
      rw [named'] at signer
      cases signer
      exact other rfl
    rw [replaced.edge_other differ] at edge
    refine ⟨s',v,?_,edge,?_⟩
    · rw [← (replaced.grown.kept s' (Graph.mem_of_edge edge)).pubkey]; exact signer
    · rw [← (replaced.grown.kept v (Graph.target_mem edge)).pubkey]; exact followee
  · rintro ⟨s',v,signer,edge,followee⟩
    have differ : s' ≠ s := by
      rintro rfl
      rw [named] at signer
      cases signer
      exact other rfl
    exact ⟨s',v,replaced.grown.pubkey signer,by rw [replaced.edge_other differ]; exact edge,replaced.grown.pubkey followee⟩

theorem alone_follows (f : Str) :
    Follows (g.alloc lease (newSigner e now)) pk f ↔ Follows g pk f := by
  have grown : Grown g (g.alloc lease (newSigner e now)) := grown_alloc (made_signer e now)
  constructor
  · rintro ⟨s,v,signer,edge,followee⟩
    rw [edge_alloc] at edge
    refine ⟨s,v,?_,edge,?_⟩
    · rw [← (grown.kept s (Graph.mem_of_edge edge)).pubkey]; exact signer
    · rw [← (grown.kept v (Graph.target_mem edge)).pubkey]; exact followee
  · rintro ⟨s,v,signer,edge,followee⟩
    exact ⟨s,v,grown.pubkey signer,by rw [edge_alloc]; exact edge,grown.pubkey followee⟩

theorem alone_stored (unique : Unique (g.alloc lease (newSigner e now))) (other : pk ≠ e.signer) :
    stored (g.alloc lease (newSigner e now)) pk = stored g pk := by
  have grown : Grown g (g.alloc lease (newSigner e now)) := grown_alloc (made_signer e now)
  cases found : (g.eqPubkey pk).head? with
  | some s =>
    rw [stored_known (grown.known_pubkey unique found),stored_known found,Graph.node_alloc_old (head_known found).1]
  | none =>
    rw [stored,stored,found]
    cases there : ((g.alloc lease (newSigner e now)).eqPubkey pk).head? with
    | none => rfl
    | some s =>
      obtain ⟨present,signer⟩ := head_known there
      rcases Graph.mem_alloc.mp present with rfl | old
      · rw [Graph.node_alloc,if_pos rfl] at signer
        cases signer
        exact absurd rfl other
      · rw [Graph.node_alloc_old old] at signer
        exact absurd signer (unknown_pubkey found s old)

-- Where an accepted call replaces the follows: the node of a signer the graph lacks comes first.
inductive Prepared (g : Graph) (c : Call) : Graph → Uid → Prop where
  | old (s : Uid) : (g.eqPubkey c.event.signer).head? = some s → Prepared g c g s
  | new : (g.eqPubkey c.event.signer).head? = none →
      Prepared g c (g.alloc c.lease (newSigner c.event c.now)) (c.lease.pick g.uids)

theorem Prepared.named {base : Graph} (prepared : Prepared g c base s) : (base.node s).pubkey = some c.event.signer := by
  cases prepared with
  | old _ found => exact (head_known found).2
  | new _ =>
    rw [Graph.node_alloc,if_pos rfl]
    rfl

theorem Prepared.unique {base : Graph} (prepared : Prepared g c base s) (unique : Unique g) : Unique base := by
  cases prepared with
  | old _ _ => exact unique
  | new unknown => exact unique_alloc unique rfl (unknown_pubkey unknown)

theorem Prepared.edge {base : Graph} (prepared : Prepared g c base s) : base.edge u v = g.edge u v := by
  cases prepared with
  | old _ _ => rfl
  | new _ => exact edge_alloc

theorem Prepared.grown {base : Graph} (prepared : Prepared g c base s) : Grown g base := by
  cases prepared with
  | old _ _ => exact .refl g
  | new _ => exact grown_alloc (made_signer c.event c.now)

-- One call on a graph without two nodes of one pubkey: it is accepted and replaces the follows, or the graph stays.
theorem apply_replaced (unique : Unique g) (c : Call) :
    (accepts g c = true ∧ ∃ base s, Prepared g c base s ∧ Replaced base s c.event c.now (apply g c)) ∨
      (accepts g c = false ∧ apply g c = g ∧ (returned g c = true → (g.eqPubkey c.event.signer).head?.isSome = true ∧
        c.event.createdAt ≤ stored g c.event.signer)) := by
  have written := addFollowers_written c.event c.fault c.lease c.now g
  unfold accepts returned apply Call.outcome
  generalize addFollowers c.event c.fault c.lease c.now g = outcome at written ⊢
  cases written with
  | failed error => exact .inr ⟨rfl,rfl,fun failed => by cases failed⟩
  | skipped s found stale =>
    rw [← stored_known found] at stale
    refine .inr ⟨?_,rfl,fun _ => ⟨by rw [found]; rfl,stale⟩⟩
    have present : (g.eqPubkey c.event.signer).isEmpty = false := by
      by_contra empty
      rw [Bool.not_eq_false,isEmpty_head,found] at empty
      cases empty
    rw [present,decide_eq_false (not_lt.mpr stale)]
    rfl
  | replaced s valid found newer =>
    rw [← stored_known found] at newer
    refine .inl ⟨?_,g,s,.old s found,?_⟩
    · rw [decide_eq_true newer,Bool.or_true]
      rfl
    · exact replacement_exact c.event c.lease c.now _ unique (head_known found).1 (existing_collected unique)
  | created valid unknown =>
    have prepared : Prepared g c _ _ := .new unknown
    have lone : ∀ v, (g.alloc c.lease (newSigner c.event c.now)).edge (c.lease.pick g.uids) v = false := by
      intro v
      rw [Graph.edge,Graph.node_alloc,if_pos rfl]
      rfl
    refine .inl ⟨?_,_,_,prepared,?_⟩
    · rw [isEmpty_head.mpr unknown]
      rfl
    · apply replacement_exact c.event c.lease c.now ∅ (prepared.unique unique) (Graph.mem_of_pubkey prepared.named)
      exact existing_none lone

theorem Prepared.dated {base : Graph} {now : Int} (prepared : Prepared g c base s) (unique : Unique g)
    (replaced : Replaced base s c.event now next) : Dated g c.event next := by
  have dated := replaced.dated prepared.named
  have before := prepared.unique unique
  cases prepared with
  | old _ _ => exact dated
  | new unknown =>
    have grown : Grown g (g.alloc c.lease (newSigner c.event c.now)) := grown_alloc (made_signer c.event c.now)
    refine ⟨dated.known,dated.stamped,fun pk other => ?_,fun pk there => dated.remembered pk ?_⟩
    · rw [dated.unstamped pk other,alone_stored before other]
    · obtain ⟨s,found⟩ := Option.isSome_iff_exists.mp there
      rw [grown.known_pubkey before found]
      rfl

-- On a consistent graph an accepted call advances it.
theorem apply_cases (consistent : Consistent g) (c : Call) :
    (accepts g c = true ∧ Advanced g c.event (apply g c)) ∨
      (accepts g c = false ∧ apply g c = g ∧ (returned g c = true → (g.eqPubkey c.event.signer).head?.isSome = true ∧
        c.event.createdAt ≤ stored g c.event.signer)) := by
  rcases apply_replaced consistent.unique c with ⟨passed,base,s,prepared,replaced⟩ | refused
  · refine .inl ⟨passed,?_⟩
    obtain ⟨known,stamped,unstamped,remembered⟩ := prepared.dated consistent.unique replaced
    have named := prepared.named
    cases prepared with
    | old _ found => exact replaced.advanced named consistent
    | new unknown =>
      have advanced := replaced.advanced named (consistent_alloc consistent unknown)
      refine ⟨advanced.consistent,advanced.own,fun pk other f => ?_,known,stamped,unstamped,remembered⟩
      rw [advanced.others pk other f,alone_follows]
  · exact .inr refused

-- A signer's follows are those of the newest event a call returned for; without one newer than the start they stay.
def Settled (start final : Graph) (signer : Str) (accepted processed : List Kind3) : Prop :=
  ((∀ e ∈ accepted, e.signer ≠ signer) ∧ (∀ e ∈ processed, e.signer = signer → e.createdAt ≤ stored start signer) ∧
      ∀ f, Follows final signer f ↔ Follows start signer f) ∨
    ∃ newest ∈ accepted, newest.signer = signer ∧ (∀ e ∈ processed, e.signer = signer → e.createdAt ≤ newest.createdAt) ∧
      ∀ f, Follows final signer f ↔ f ∈ validFollowees newest

theorem collect_cons (wanted : Graph → Call → Bool) (rest : List Call) :
    e ∈ collect wanted g (c :: rest) ↔ (wanted g c = true ∧ e = c.event) ∨ e ∈ collect wanted (apply g c) rest := by
  rw [collect,List.mem_append]
  by_cases chosen : wanted g c = true <;> simp [chosen]

-- The newest event of a signer the graph already knows is newer than what the graph had.
theorem run_settled (consistent : Consistent g) (calls : List Call) (signer : Str) :
    Settled g (run g calls) signer (accepted g calls) (processed g calls) ∧
      ((g.eqPubkey signer).head?.isSome = true → ∀ e ∈ accepted g calls, e.signer = signer → stored g signer < e.createdAt) := by
  induction calls generalizing g with
  | nil =>
    refine ⟨.inl ⟨fun _ member => absurd member List.not_mem_nil,fun _ member => absurd member List.not_mem_nil,fun _ => .rfl⟩,?_⟩
    exact fun _ _ member => absurd member List.not_mem_nil
  | cons c rest ih =>
    rcases apply_cases consistent c with ⟨passed,advanced⟩ | ⟨refused,same,skipped⟩
    · obtain ⟨settled,above⟩ := ih advanced.consistent
      by_cases here : c.event.signer = signer
      · subst here
        have later := above advanced.known
        rw [advanced.stamped] at later
        have newer : (g.eqPubkey c.event.signer).head?.isSome = true → stored g c.event.signer < c.event.createdAt := by
          intro there
          rw [accepts,Bool.and_eq_true,Bool.or_eq_true,decide_eq_true_eq] at passed
          rcases passed.2 with empty | newer
          · rw [isEmpty_head.mp empty] at there
            cases there
          · exact newer
        refine ⟨.inr ?_,fun there e member own => ?_⟩
        · rcases settled with ⟨none_later,bound,kept⟩ | ⟨newest,member,signed,bound,exact⟩
          · refine ⟨c.event,(collect_cons _ rest).mpr (.inl ⟨passed,rfl⟩),rfl,fun e member signed => ?_,fun f => ?_⟩
            · rcases (collect_cons _ rest).mp member with ⟨_,rfl⟩ | there
              · exact le_refl _
              · rw [← advanced.stamped]; exact bound e there signed
            · exact (kept f).trans (advanced.own f)
          · refine ⟨newest,(collect_cons _ rest).mpr (.inr member),signed,fun e there signed' => ?_,exact⟩
            rcases (collect_cons _ rest).mp there with ⟨_,rfl⟩ | there
            · exact (later newest member signed).le
            · exact bound e there signed'
        · rcases (collect_cons _ rest).mp member with ⟨_,rfl⟩ | there'
          · exact newer there
          · exact (newer there).trans (later e there' own)
      · have other : signer ≠ c.event.signer := Ne.symm here
        rw [advanced.unstamped signer other] at above
        refine ⟨?_,fun there e member signed => ?_⟩
        · rcases settled with ⟨none_later,bound,kept⟩ | ⟨newest,member,signed,bound,exact⟩
          · refine .inl ⟨fun e member => ?_,fun e member signed => ?_,fun f => (kept f).trans (advanced.others signer other f)⟩
            · rcases (collect_cons _ rest).mp member with ⟨_,rfl⟩ | there
              · exact here
              · exact none_later e there
            · rcases (collect_cons _ rest).mp member with ⟨_,rfl⟩ | there
              · exact absurd signed here
              · rw [← advanced.unstamped signer other]; exact bound e there signed
          · refine .inr ⟨newest,(collect_cons _ rest).mpr (.inr member),signed,fun e there signed' => ?_,exact⟩
            rcases (collect_cons _ rest).mp there with ⟨_,rfl⟩ | there
            · exact absurd signed' here
            · exact bound e there signed'
        · rcases (collect_cons _ rest).mp member with ⟨_,rfl⟩ | later
          · exact absurd signed here
          · exact above (advanced.remembered signer there) e later signed
    · obtain ⟨settled,above⟩ := @ih (apply g c) (by rw [same]; exact consistent)
      have final : run g (c :: rest) = run g rest := by rw [run,List.foldl_cons,same]; rfl
      have unaccepted : ∀ e, e ∈ accepted g (c :: rest) ↔ e ∈ accepted g rest := by
        intro e
        rw [accepted,collect_cons,same,refused]
        simp
      rw [same] at settled above
      refine ⟨?_,fun there e member signed => above there e ((unaccepted e).mp member) signed⟩
      rw [final]
      have old : ∀ e ∈ processed g (c :: rest), e.signer = signer →
          ((g.eqPubkey signer).head?.isSome = true ∧ e.createdAt ≤ stored g signer) ∨ e ∈ processed g rest := by
        intro e member signed
        rcases (collect_cons _ rest).mp member with ⟨done,rfl⟩ | there
        · rw [← signed]
          exact .inl (skipped done)
        · rw [same] at there
          exact .inr there
      rcases settled with ⟨none_later,bound,kept⟩ | ⟨newest,member,signed,bound,exact⟩
      · refine .inl ⟨fun e member => none_later e ((unaccepted e).mp member),fun e member signed => ?_,kept⟩
        rcases old e member signed with ⟨_,stale⟩ | there
        · exact stale
        · exact bound e there signed
      · refine .inr ⟨newest,(unaccepted newest).mpr member,signed,fun e there signed' => ?_,exact⟩
        rcases old e there signed' with ⟨known,stale⟩ | later
        · exact stale.trans (above known newest member signed).le
        · exact bound e later signed'

theorem run_consistent (consistent : Consistent g) (calls : List Call) : Consistent (run g calls) := by
  induction calls generalizing g with
  | nil => exact consistent
  | cons c rest ih =>
    rcases apply_cases consistent c with ⟨_,advanced⟩ | ⟨_,same,_⟩
    · exact ih advanced.consistent
    · apply ih
      rw [same]
      exact consistent

-- After any sequence of calls the graph is consistent and every signer follows exactly whom its newest event names;
-- a call that fails and a call with an event that is not newer leave the graph as it was.
theorem follow_replacement {start : Graph} (consistent : Consistent start) (calls : List Call) :
    Consistent (run start calls) ∧
    (∀ signer, Settled start (run start calls) signer (accepted start calls) (processed start calls)) ∧
    ∀ c : Call, ((∃ error, (c.outcome (run start calls)).1 = .error error) ∨
        (∃ s, ((run start calls).eqPubkey c.event.signer).head? = some s ∧
          c.event.createdAt ≤ ((run start calls).node s).kind3CreatedAt.getD 0)) →
      apply (run start calls) c = run start calls := by
  refine ⟨run_consistent consistent calls,fun signer => (run_settled consistent calls signer).1,fun c idle => ?_⟩
  generalize run start calls = g at idle ⊢
  have written := addFollowers_written c.event c.fault c.lease c.now g
  unfold apply Call.outcome at *
  generalize addFollowers c.event c.fault c.lease c.now g = outcome at written idle ⊢
  cases written with
  | failed error => rfl
  | skipped s found stale => rfl
  | replaced s valid found newer =>
    rcases idle with ⟨_,failed⟩ | ⟨s',found',stale⟩
    · cases failed
    · rw [found] at found'
      cases found'
      exact absurd stale (not_le.mpr newer)
  | created valid unknown =>
    rcases idle with ⟨_,failed⟩ | ⟨s',found',stale⟩
    · cases failed
    · rw [unknown] at found'
      cases found'
end Runs

def alice : Str := List.replicate 64 97

def bob : Str := List.replicate 64 98

def carol : Str := List.replicate 64 99

theorem empty_consistent : Consistent Graph.empty where
  unique u v pk named := by cases named
  keyed u v edge := by cases edge
  counted u pk named := by cases named

def calling (event : Kind3) : Call := ⟨event,fun _ _ => none,nextUid,0⟩

-- A first signer, a stub that follows back and itself, a late older event, and the newest list.
def aliceFirst : Kind3 := ⟨alice,10,[bob,[120]],by decide⟩

def bobBack : Kind3 := ⟨bob,5,[alice,bob],by decide⟩

def aliceLate : Kind3 := ⟨alice,7,[carol],by decide⟩

def aliceNewest : Kind3 := ⟨alice,20,[carol,alice],by decide⟩

def conversation : List Call := [calling aliceFirst,calling bobBack,calling aliceLate,calling aliceNewest]

theorem follow_replacement_sample : Consistent (run .empty conversation) ∧
    ∀ f, Follows (run .empty conversation) alice f ↔ f ∈ [carol,alice] := by
  obtain ⟨consistent,settled,_⟩ := follow_replacement empty_consistent conversation
  have taken : accepted .empty conversation = [aliceFirst,bobBack,aliceNewest] := by decide +kernel
  have done : processed .empty conversation = [aliceFirst,bobBack,aliceLate,aliceNewest] := by decide +kernel
  refine ⟨consistent,?_⟩
  rcases settled alice with ⟨unsigned,_⟩ | ⟨newest,member,signed,bound,exact⟩
  · exact absurd rfl (unsigned aliceFirst (by rw [taken]; decide))
  · have last := bound aliceNewest (by rw [done]; decide) rfl
    have valid : validFollowees aliceNewest = [carol,alice] := by decide +kernel
    rw [taken] at member
    rcases List.mem_cons.mp member with rfl | member
    · exact absurd last (by decide)
    · rcases List.mem_cons.mp member with rfl | member
      · exact absurd last (by decide)
      · cases List.mem_singleton.mp member
        rw [valid] at exact
        exact exact

end DeepFry.WebOfTrust
