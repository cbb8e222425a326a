import DeepFry.WebOfTrust.HealthCheck
import Mathlib.Data.Prod.Lex

namespace DeepFry.WebOfTrust.HealthCheck
open OrderDual (toDual)

-- The newer list first, then the later update, then the lower name.
def rank {τ : Type} (kind3CreatedAt lastDBUpdate : Int) (name : τ) : ℤᵒᵈ ×ₗ ℤᵒᵈ ×ₗ τ :=
  toLex (toDual kind3CreatedAt,toLex (toDual lastDBUpdate,name))

def PubkeyNode.priority (a : PubkeyNode) : ℤᵒᵈ ×ₗ ℤᵒᵈ ×ₗ Str := rank a.kind3CreatedAt a.lastDBUpdate a.uid

section Rank
variable {τ : Type} [LinearOrder τ] {k l k' l' : Int} {s t : τ}

theorem rank_lt : rank k l s < rank k' l' t ↔ k' < k ∨ k = k' ∧ (l' < l ∨ l = l' ∧ s < t) := by
  unfold rank
  rw [Prod.Lex.toLex_lt_toLex,Prod.Lex.toLex_lt_toLex]
  simp only [OrderDual.toDual_lt_toDual,OrderDual.toDual_inj]

omit [LinearOrder τ] in
theorem rank_name (same : rank k l s = rank k' l' t) : s = t :=
  congrArg (fun r => (ofLex (ofLex r).2).2) same
end Rank

theorem less_iff {a b : PubkeyNode} : less a b = true ↔ a.priority < b.priority := by
  rw [PubkeyNode.priority,PubkeyNode.priority,rank_lt]
  unfold less
  split
  · rename_i apart
    rw [decide_eq_true_eq]
    constructor
    · exact .inl
    · intro either
      exact either.elim id fun both => absurd both.1 apart
  · rename_i same
    have same := not_not.mp same
    split
    · rename_i apart
      rw [decide_eq_true_eq]
      constructor
      · intro later
        exact .inr ⟨same,.inl later⟩
      · intro either
        rcases either with newer | ⟨_,later | ⟨equal,_⟩⟩
        · omega
        · exact later
        · exact absurd equal apart
    · rename_i equal
      have equal := not_not.mp equal
      rw [decide_eq_true_eq]
      constructor
      · intro lower
        exact .inr ⟨same,.inr ⟨equal,lower⟩⟩
      · intro either
        rcases either with newer | ⟨_,later | ⟨_,lower⟩⟩
        · omega
        · omega
        · exact lower

section Ranked
variable {nodes : List PubkeyNode} {a : PubkeyNode}

theorem rankNodes_perm (nodes : List PubkeyNode) : (rankNodes nodes).Perm nodes := List.perm_insertionSort _ _

theorem rankNodes_ordered (nodes : List PubkeyNode) : (rankNodes nodes).Pairwise fun a b => a.priority ≤ b.priority := by
  have total : Std.Total fun a b : PubkeyNode => less b a = false :=
    ⟨fun a b => by rw [← Bool.not_eq_true,← Bool.not_eq_true,less_iff,less_iff,not_lt,not_lt]; exact le_total _ _⟩
  have trans : IsTrans PubkeyNode fun a b => less b a = false := by
    refine ⟨fun a b c first second => ?_⟩
    rw [← Bool.not_eq_true,less_iff,not_lt] at first second ⊢
    exact first.trans second
  have ordered : (rankNodes nodes).Pairwise fun a b => less b a = false := List.pairwise_insertionSort _ _
  apply ordered.imp
  intro a b behind
  rwa [← Bool.not_eq_true,less_iff,not_lt] at behind

-- The nodes that are ranked behind another one.
theorem mem_ranked_tail (names : (nodes.map (·.uid)).Nodup) :
    a ∈ (rankNodes nodes).drop 1 ↔ a ∈ nodes ∧ ∃ b ∈ nodes, b.priority < a.priority := by
  have perm := rankNodes_perm nodes
  have ordered := rankNodes_ordered nodes
  have apart : ((rankNodes nodes).map (·.uid)).Nodup := (perm.map _).nodup_iff.mpr names
  rw [← perm.mem_iff]
  simp only [← perm.mem_iff]
  generalize rankNodes nodes = ranked at ordered apart ⊢
  cases ranked with
  | nil => simp
  | cons best rest =>
    rw [List.drop_succ_cons,List.drop_zero]
    rw [List.pairwise_cons] at ordered
    rw [List.map_cons,List.nodup_cons] at apart
    constructor
    · intro member
      refine ⟨List.mem_cons_of_mem _ member,best,List.mem_cons_self,lt_of_le_of_ne (ordered.1 a member) ?_⟩
      intro same
      exact apart.1 (List.mem_map.mpr ⟨a,member,(rank_name same).symm⟩)
    · intro ⟨member,b,other,before⟩
      rcases List.mem_cons.mp member with same | later
      · rw [same] at before
        rcases List.mem_cons.mp other with equal | behind
        · rw [equal] at before
          exact absurd before (lt_irrefl _)
        · exact absurd before (not_lt.mpr (ordered.1 b behind))
      · exact later
end Ranked

section Collecting
variable {rows : List PubkeyNode} {s : Collected}

structure Collects (rows : List PubkeyNode) (s : Collected) : Prop where
  invalid : s.invalidNodes = rows.filter fun node => !isValidHexPubkey node.pubkey
  seen : s.seen = Grouping.groups PubkeyNode.pubkey rows
  scanned : s.scanned = rows.length

theorem collect_all (batch : List PubkeyNode) (done : List PubkeyNode) (s : Collected)
    (invalid : s.invalidNodes = done.filter fun node => !isValidHexPubkey node.pubkey) (seen : s.seen = Grouping.groups PubkeyNode.pubkey done) :
    (batch.foldl collect s).invalidNodes = (done ++ batch).filter (fun node => !isValidHexPubkey node.pubkey) ∧
      (batch.foldl collect s).seen = Grouping.groups PubkeyNode.pubkey (done ++ batch) ∧ (batch.foldl collect s).scanned = s.scanned := by
  induction batch generalizing done s with
  | nil =>
    rw [List.append_nil]
    exact ⟨invalid,seen,rfl⟩
  | cons node batch ih =>
    have split : done ++ node :: batch = (done ++ [node]) ++ batch := by simp
    rw [split]
    apply ih (done ++ [node]) (collect s node)
    · rw [List.filter_append,← invalid]
      unfold collect
      by_cases valid : isValidHexPubkey node.pubkey = true
      · simp [valid]
      · simp [valid]
    · rw [← Grouping.add_groups,← seen]
      rfl

theorem Collects.step (collected : Collects rows s) (batch : List PubkeyNode) : Collects (rows ++ batch) (scanBatch s batch) := by
  obtain ⟨invalid,seen,scanned⟩ := collect_all batch rows s collected.invalid collected.seen
  refine ⟨invalid,seen,?_⟩
  unfold scanBatch
  simp only [scanned,collected.scanned,List.length_append]

theorem Collects.run (batches : List (List PubkeyNode)) (collected : Collects rows s) :
    Collects (rows ++ batches.flatten) (batches.foldl scanBatch s) := by
  induction batches generalizing rows s with
  | nil => rwa [List.flatten_nil,List.append_nil]
  | cons batch batches ih =>
    rw [List.flatten_cons,← List.append_assoc]
    exact ih (collected.step batch)

-- The batches of a scan are its rows, each once.
theorem getAll_rows {σ : Type} {size offset : Nat} {fetch : Nat → List PubkeyNode}
    (read : Paging.Rows fetch (fun o _ => o + size) size offset rows) (callback : σ → List PubkeyNode → σ) :
    ∃ batches : List (List PubkeyNode), batches.flatten = rows ∧ ∀ fuel s, rows.length < fuel →
      getAllPubkeysPaginated (fun o => .ok (fetch o)) size callback fuel offset s = some (.ok (batches.foldl callback s)) := by
  induction read with
  | last offset short =>
    by_cases none : (fetch offset).length = 0
    · refine ⟨[],(List.length_eq_zero_iff.mp none).symm,?_⟩
      intro fuel s enough
      cases fuel with
      | zero => cases enough
      | succ fuel =>
        rw [getAllPubkeysPaginated]
        simp only [if_pos none,List.foldl_nil]
    · refine ⟨[fetch offset],by simp,?_⟩
      intro fuel s enough
      cases fuel with
      | zero => cases enough
      | succ fuel =>
        rw [getAllPubkeysPaginated]
        simp only [if_neg none,if_pos short,List.foldl_cons,List.foldl_nil]
  | more offset rest positive full _ ih =>
    obtain ⟨batches,flat,runs⟩ := ih
    refine ⟨fetch offset :: batches,by rw [List.flatten_cons,flat],?_⟩
    intro fuel s enough
    cases fuel with
    | zero => cases enough
    | succ fuel =>
      rw [List.length_append] at enough
      have some : ¬ (fetch offset).length = 0 := by omega
      have whole : ¬ (fetch offset).length < size := by omega
      rw [getAllPubkeysPaginated]
      simp only [if_neg some,if_neg whole]
      exact runs fuel _ (by omega)
end Collecting

-- What is handed to DeleteNodes: the invalid nodes and, of each group, all but the first.
def handed (order : Tally.Order (Str × List PubkeyNode)) (rows : List PubkeyNode) : List Str :=
  (rows.filter fun node => !isValidHexPubkey node.pubkey).map (·.uid) ++
    (order.order (Grouping.groups PubkeyNode.pubkey rows)).flatMap fun group => ((rankNodes group.2).drop 1).map (·.uid)

section Handed
variable {order : Tally.Order (Str × List PubkeyNode)} {rows : List PubkeyNode} {s : Collected}

theorem single_tail {nodes : List PubkeyNode} (few : nodes.length ≤ 1) : (rankNodes nodes).drop 1 = [] := by
  apply List.drop_eq_nil_of_le
  rwa [(rankNodes_perm nodes).length_eq]

theorem duplicates_tails (groups : List (Str × List PubkeyNode)) :
    (groups.filter fun group => group.2.length > 1).flatMap (fun group => ((rankNodes group.2).drop 1).map (·.uid)) =
      groups.flatMap fun group => ((rankNodes group.2).drop 1).map (·.uid) := by
  induction groups with
  | nil => rfl
  | cons group groups ih =>
    rw [List.filter_cons,List.flatMap_cons]
    by_cases many : group.2.length > 1
    · rw [if_pos (decide_eq_true many),List.flatMap_cons,ih]
    · rw [if_neg (by simpa using many),ih,single_tail (by omega),List.map_nil,List.nil_append]

theorem verdict_uids (collected : Collects rows s) : (decideVerdict order true true s).uids = handed order rows := by
  unfold decideVerdict handed
  rw [collected.invalid,collected.seen,← duplicates_tails]
  simp only [Bool.not_true,Bool.false_eq_true,if_false]
  split
  · rename_i none
    obtain ⟨noInvalid,noExtra⟩ := Nat.add_eq_zero_iff.mp none
    rw [List.length_eq_zero_iff.mp noInvalid]
    have noGroups : (order.order (Grouping.groups PubkeyNode.pubkey rows)).filter (fun group => group.2.length > 1) = [] := by
      apply List.eq_nil_iff_forall_not_mem.mpr
      intro group member
      have many := of_decide_eq_true (List.mem_filter.mp member).2
      have extra := List.sum_eq_zero_iff.mp noExtra (group.2.length - 1) (List.mem_map.mpr ⟨group,member,rfl⟩)
      omega
    rw [noGroups]
    rfl
  · rfl

-- A node is handed over for its key or for another node of the key ahead of it.
theorem mem_handed (names : (rows.map (·.uid)).Nodup) {t : Str} : t ∈ handed order rows ↔
    ∃ a ∈ rows, a.uid = t ∧ (isValidHexPubkey a.pubkey = false ∨ ∃ b ∈ rows, b.pubkey = a.pubkey ∧ b.priority < a.priority) := by
  have inner (k : Str) : ((rows.filter fun x => x.pubkey = k).map (·.uid)).Nodup := names.sublist (List.filter_sublist.map _)
  unfold handed
  rw [List.mem_append,List.mem_map,List.mem_flatMap]
  constructor
  · intro either
    rcases either with invalid | extra
    · obtain ⟨a,member,same⟩ := invalid
      rw [List.mem_filter,Bool.not_eq_true'] at member
      exact ⟨a,member.1,same,.inl member.2⟩
    · obtain ⟨group,listed,member⟩ := extra
      obtain ⟨a,behind,same⟩ := List.mem_map.mp member
      rw [(order.complete _).mem_iff,Grouping.mem_groups] at listed
      rw [listed.2,mem_ranked_tail (inner _)] at behind
      obtain ⟨member,b,other,before⟩ := behind
      rw [List.mem_filter,decide_eq_true_eq] at member other
      exact ⟨a,member.1,same,.inr ⟨b,other.1,other.2.trans member.2.symm,before⟩⟩
  · intro found
    obtain ⟨a,member,same,either⟩ := found
    rcases either with invalid | behind
    · exact .inl ⟨a,List.mem_filter.mpr ⟨member,by rw [invalid]; rfl⟩,same⟩
    · obtain ⟨b,other,key,before⟩ := behind
      refine .inr ⟨(a.pubkey,rows.filter fun x => x.pubkey = a.pubkey),?_,List.mem_map.mpr ⟨a,?_,same⟩⟩
      · rw [(order.complete _).mem_iff,Grouping.mem_groups]
        exact ⟨List.mem_map.mpr ⟨a,member,rfl⟩,rfl⟩
      · rw [mem_ranked_tail (inner _)]
        exact ⟨List.mem_filter.mpr ⟨member,decide_eq_true rfl⟩,b,List.mem_filter.mpr ⟨other,decide_eq_true key⟩,before⟩

theorem handed_nodup (names : (rows.map (·.uid)).Nodup)
    (single : ∀ a ∈ rows, ∀ b ∈ rows, b.pubkey = a.pubkey → b.priority < a.priority → isValidHexPubkey a.pubkey = true) :
    (handed order rows).Nodup := by
  have inner (k : Str) : ((rows.filter fun x => x.pubkey = k).map (·.uid)).Nodup := names.sublist (List.filter_sublist.map _)
  have named {a b : PubkeyNode} (left : a ∈ rows) (right : b ∈ rows) (same : a.uid = b.uid) : a = b := List.inj_on_of_nodup_map names left right same
  have tail {group : Str × List PubkeyNode} (listed : group ∈ order.order (Grouping.groups PubkeyNode.pubkey rows)) {t : Str}
      (member : t ∈ ((rankNodes group.2).drop 1).map (·.uid)) :
      ∃ a ∈ rows, a.uid = t ∧ a.pubkey = group.1 ∧ ∃ b ∈ rows, b.pubkey = a.pubkey ∧ b.priority < a.priority := by
    obtain ⟨a,behind,same⟩ := List.mem_map.mp member
    rw [(order.complete _).mem_iff,Grouping.mem_groups] at listed
    rw [listed.2,mem_ranked_tail (inner _)] at behind
    obtain ⟨member,b,other,before⟩ := behind
    rw [List.mem_filter,decide_eq_true_eq] at member other
    exact ⟨a,member.1,same,member.2,b,other.1,other.2.trans member.2.symm,before⟩
  unfold handed
  rw [List.nodup_append]
  refine ⟨names.sublist (List.filter_sublist.map _),?_,?_⟩
  · rw [List.nodup_flatMap]
    constructor
    · intro group listed
      rw [(order.complete _).mem_iff,Grouping.mem_groups] at listed
      have whole : ((rankNodes group.2).map (·.uid)).Nodup := by
        rw [((rankNodes_perm group.2).map _).nodup_iff,listed.2]
        exact inner group.1
      rw [List.map_drop]
      exact whole.sublist (List.drop_sublist 1 _)
    · have keys := (Grouping.groups_distinct PubkeyNode.pubkey rows).perm (order.complete _).symm fun apart => apart.symm
      refine keys.imp_of_mem ?_
      intro left right first second apart t here there
      obtain ⟨a,known,same,key,_⟩ := tail first here
      obtain ⟨b,other,equal,key',_⟩ := tail second there
      rw [named known other (same.trans equal.symm)] at key
      exact apart (key.symm.trans key')
  · intro t invalid u extra same
    rw [← same] at extra
    obtain ⟨a,member,name⟩ := List.mem_map.mp invalid
    rw [List.mem_filter,Bool.not_eq_true'] at member
    obtain ⟨group,listed,inside⟩ := List.mem_flatMap.mp extra
    obtain ⟨c,known,equal,_,b,other,key,before⟩ := tail listed inside
    rw [named known member.1 (equal.trans name.symm)] at key before
    have valid := single a member.1 b other key before
    rw [member.2] at valid
    cases valid

theorem handed_twice {a b : PubkeyNode} (member : a ∈ rows) (other : b ∈ rows) (key : b.pubkey = a.pubkey) (before : b.priority < a.priority)
    (invalid : isValidHexPubkey a.pubkey = false) (names : (rows.map (·.uid)).Nodup) : ¬ (handed order rows).Nodup := by
  intro once
  unfold handed at once
  rw [List.nodup_append] at once
  refine once.2.2 a.uid (List.mem_map.mpr ⟨a,List.mem_filter.mpr ⟨member,by rw [invalid]; rfl⟩,rfl⟩) a.uid ?_ rfl
  rw [List.mem_flatMap]
  refine ⟨(a.pubkey,rows.filter fun x => x.pubkey = a.pubkey),?_,List.mem_map.mpr ⟨a,?_,rfl⟩⟩
  · rw [(order.complete _).mem_iff,Grouping.mem_groups]
    exact ⟨List.mem_map.mpr ⟨a,member,rfl⟩,rfl⟩
  · rw [mem_ranked_tail (names.sublist (List.filter_sublist.map _))]
    exact ⟨List.mem_filter.mpr ⟨member,decide_eq_true rfl⟩,b,List.mem_filter.mpr ⟨other,decide_eq_true key⟩,before⟩
end Handed

def kind3Of (g : Graph) (u : Uid) : Int := (g.node u).kind3CreatedAt.getD 0

def updateOf (g : Graph) (u : Uid) : Int := (g.node u).lastDbUpdate.getD 0

-- u is the better node of one key: the newer list, then the later update, then the lower number.
def Ahead (g : Graph) (u v : Uid) : Prop :=
  kind3Of g v < kind3Of g u ∨ kind3Of g u = kind3Of g v ∧ (updateOf g v < updateOf g u ∨ updateOf g u = updateOf g v ∧ u < v)

-- The best node of its key.
def Keeper (g : Graph) (u : Uid) : Prop :=
  (g.node u).pubkey.isSome = true ∧ ∀ v, (g.node v).pubkey = (g.node u).pubkey → v ≠ u → Ahead g u v

structure Purged (g : Graph) (uids : List Str) : Prop where
  once : uids.Nodup
  handed : ∀ t, t ∈ uids ↔ ∃ u pk, (g.node u).pubkey = some pk ∧ HexNumber.text u = t ∧ (isValidHexPubkey pk = false ∨ ¬ Keeper g u)
  valid : ∀ u pk, ((deleteNodes g uids).node u).pubkey = some pk → isValidHexPubkey pk = true
  unique : ∀ u v pk, ((deleteNodes g uids).node u).pubkey = some pk → ((deleteNodes g uids).node v).pubkey = some pk → u = v
  kept : ∀ u pk, (g.node u).pubkey = some pk → isValidHexPubkey pk = true →
    ∃ v, ((deleteNodes g uids).node v).pubkey = some pk ∧ (g.node v).pubkey = some pk ∧ Keeper g v

-- No invalid key twice, and no tie of the best nodes of a valid key where the lower number sorts later as a text.
structure Sound (g : Graph) : Prop where
  repeated : ∀ u v pk, (g.node u).pubkey = some pk → (g.node v).pubkey = some pk → u ≠ v → isValidHexPubkey pk = true
  tied : ∀ u v pk, (g.node u).pubkey = some pk → (g.node v).pubkey = some pk → isValidHexPubkey pk = true → Keeper g u →
    kind3Of g u = kind3Of g v → updateOf g u = updateOf g v → u ≠ v → HexNumber.text u < HexNumber.text v

section Purged
variable {g : Graph} {scan : Scan g} {u v : Uid} {pk : Str} {order : Tally.Order (Str × List PubkeyNode)}

def standing (g : Graph) (u : Uid) : ℤᵒᵈ ×ₗ ℤᵒᵈ ×ₗ Uid := rank (kind3Of g u) (updateOf g u) u

theorem ahead_iff : Ahead g u v ↔ standing g u < standing g v := rank_lt.symm

theorem row_ahead_iff : (rowOf g u).priority < (rowOf g v).priority ↔ kind3Of g v < kind3Of g u ∨
    kind3Of g u = kind3Of g v ∧ (updateOf g v < updateOf g u ∨ updateOf g u = updateOf g v ∧ HexNumber.text u < HexNumber.text v) := rank_lt

theorem keeper_unique (left : Keeper g u) (right : Keeper g v) (same : (g.node u).pubkey = (g.node v).pubkey) : u = v := by
  by_contra apart
  have first := ahead_iff.mp (left.2 v same.symm fun equal => apart equal.symm)
  have second := ahead_iff.mp (right.2 u same apart)
  exact lt_asymm first second

theorem mem_scan (scan : Scan g) (here : (g.node u).pubkey = some pk) : u ∈ scan.uids := (scan.complete u).mpr (by rw [here]; rfl)

-- Every key has a best node.
theorem keeper_exists (scan : Scan g) (here : (g.node u).pubkey = some pk) : ∃ v, (g.node v).pubkey = some pk ∧ Keeper g v := by
  have there : u ∈ (scan.uids.filter fun v => (g.node v).pubkey = some pk).toFinset := by
    rw [List.mem_toFinset,List.mem_filter,decide_eq_true_eq]
    exact ⟨mem_scan scan here,here⟩
  obtain ⟨v,member,least⟩ := Finset.exists_min_image _ (standing g) ⟨u,there⟩
  rw [List.mem_toFinset,List.mem_filter,decide_eq_true_eq] at member
  refine ⟨v,member.2,by rw [member.2]; rfl,?_⟩
  intro w same apart
  rw [member.2] at same
  rw [ahead_iff]
  have below := least w (by rw [List.mem_toFinset,List.mem_filter,decide_eq_true_eq]; exact ⟨mem_scan scan same,same⟩)
  exact lt_of_le_of_ne below fun equal => apart (rank_name equal).symm

theorem rows_names (scan : Scan g) : (scan.rows.map (·.uid)).Nodup := by
  have texts : scan.rows.map (·.uid) = scan.uids.map HexNumber.text := List.map_map
  rw [texts]
  exact scan.distinct.map HexNumber.text_injective

theorem mem_rows {a : PubkeyNode} : a ∈ scan.rows ↔ ∃ u pk, (g.node u).pubkey = some pk ∧ rowOf g u = a := by
  unfold Scan.rows
  rw [List.mem_map]
  constructor
  · intro listed
    obtain ⟨u,member,same⟩ := listed
    obtain ⟨pk,here⟩ := Option.isSome_iff_exists.mp ((scan.complete u).mp member)
    exact ⟨u,pk,here,same⟩
  · intro found
    obtain ⟨u,pk,here,same⟩ := found
    exact ⟨u,mem_scan scan here,same⟩

theorem row_key (here : (g.node u).pubkey = some pk) : (rowOf g u).pubkey = pk := by
  unfold rowOf
  rw [here]
  rfl

-- The code's choice, node by node.
theorem handed_iff {t : Str} : t ∈ handed order scan.rows ↔ ∃ u pk, (g.node u).pubkey = some pk ∧ HexNumber.text u = t ∧
    (isValidHexPubkey pk = false ∨ ∃ v, (g.node v).pubkey = some pk ∧ (rowOf g v).priority < (rowOf g u).priority) := by
  rw [mem_handed (rows_names scan)]
  constructor
  · intro found
    obtain ⟨a,member,name,either⟩ := found
    obtain ⟨u,pk,here,same⟩ := mem_rows.mp member
    subst same
    rw [row_key here] at either
    refine ⟨u,pk,here,name,either.imp_right ?_⟩
    intro behind
    obtain ⟨b,other,key,before⟩ := behind
    obtain ⟨v,pk',there,same⟩ := mem_rows.mp other
    subst same
    rw [row_key there] at key
    rw [key] at there
    exact ⟨v,there,before⟩
  · intro found
    obtain ⟨u,pk,here,name,either⟩ := found
    refine ⟨rowOf g u,mem_rows.mpr ⟨u,pk,here,rfl⟩,name,?_⟩
    rw [row_key here]
    refine either.imp_right ?_
    intro behind
    obtain ⟨v,there,before⟩ := behind
    exact ⟨rowOf g v,mem_rows.mpr ⟨v,pk,there,rfl⟩,row_key there,before⟩

theorem deleteNodes_pubkey {uids : List Str} (written : ∀ t ∈ uids, ∃ u, HexNumber.text u = t) :
    ((deleteNodes g uids).node u).pubkey = some pk ↔ (g.node u).pubkey = some pk ∧ HexNumber.text u ∉ uids := by
  have named : u ∈ uids.map HexNumber.value ↔ HexNumber.text u ∈ uids := by
    rw [List.mem_map]
    constructor
    · intro listed
      obtain ⟨t,member,same⟩ := listed
      obtain ⟨v,name⟩ := written t member
      rw [← name,HexNumber.value_text] at same
      rw [← same,name]
      exact member
    · intro member
      exact ⟨HexNumber.text u,member,HexNumber.value_text u⟩
  unfold deleteNodes
  rw [deleteAll_node,← named]
  split
  · rename_i gone
    constructor
    · intro none
      cases none
    · intro both
      exact absurd gone both.2
  · rename_i stays
    exact ⟨fun here => ⟨here,stays⟩,And.left⟩

-- Where the best node sorts first, it is the one that is not handed over.
theorem Sound.first (sound : Sound g) (here : (g.node u).pubkey = some pk) (valid : isValidHexPubkey pk = true) (keeper : Keeper g u)
    (there : (g.node v).pubkey = some pk) (apart : v ≠ u) : (rowOf g u).priority < (rowOf g v).priority := by
  rw [row_ahead_iff]
  rcases keeper.2 v (there.trans here.symm) apart with newer | ⟨same,later | ⟨equal,_⟩⟩
  · exact .inl newer
  · exact .inr ⟨same,.inl later⟩
  · exact .inr ⟨same,.inr ⟨equal,sound.tied u v pk here there valid keeper same equal fun other => apart other.symm⟩⟩

theorem Sound.behind_iff (scan : Scan g) (sound : Sound g) (here : (g.node u).pubkey = some pk) (valid : isValidHexPubkey pk = true) :
    (∃ v, (g.node v).pubkey = some pk ∧ (rowOf g v).priority < (rowOf g u).priority) ↔ ¬ Keeper g u := by
  constructor
  · intro behind keeper
    obtain ⟨v,there,before⟩ := behind
    by_cases same : v = u
    · rw [same] at before
      exact lt_irrefl _ before
    · exact lt_asymm before (sound.first here valid keeper there same)
  · intro worse
    obtain ⟨v,there,keeper⟩ := keeper_exists scan here
    have apart : u ≠ v := by
      intro same
      rw [same] at worse
      exact worse keeper
    exact ⟨v,there,sound.first there valid keeper here apart⟩

theorem Sound.purged (scan : Scan g) (sound : Sound g) : Purged g (handed order scan.rows) := by
  have chosen (t : Str) : t ∈ handed order scan.rows ↔
      ∃ u pk, (g.node u).pubkey = some pk ∧ HexNumber.text u = t ∧ (isValidHexPubkey pk = false ∨ ¬ Keeper g u) := by
    rw [handed_iff]
    apply exists_congr
    intro u
    apply exists_congr
    intro pk
    apply and_congr_right
    intro here
    apply and_congr_right
    intro _
    cases valid : isValidHexPubkey pk with
    | false => simp
    | true => exact or_congr_right (sound.behind_iff scan here valid)
  have written : ∀ t ∈ handed order scan.rows, ∃ u, HexNumber.text u = t := by
    intro t member
    obtain ⟨u,_,_,name,_⟩ := (chosen t).mp member
    exact ⟨u,name⟩
  have stays : ∀ u pk, ((deleteNodes g (handed order scan.rows)).node u).pubkey = some pk ↔
      (g.node u).pubkey = some pk ∧ isValidHexPubkey pk = true ∧ Keeper g u := by
    intro u pk
    rw [deleteNodes_pubkey written,chosen]
    apply and_congr_right
    intro here
    constructor
    · intro free
      by_contra bad
      apply free
      refine ⟨u,pk,here,rfl,?_⟩
      rw [not_and_or,Bool.not_eq_true] at bad
      exact bad
    · intro both found
      obtain ⟨v,pk',there,name,either⟩ := found
      rw [HexNumber.text_injective name,here] at there
      cases there
      rw [HexNumber.text_injective name,both.1] at either
      exact either.elim (fun same => by cases same) fun worse => worse both.2
  refine ⟨handed_nodup (rows_names scan) ?_,chosen,fun u pk here => ((stays u pk).mp here).2.1,?_,?_⟩
  · intro a left b right key before
    obtain ⟨u,pk,here,same⟩ := mem_rows.mp left
    obtain ⟨v,pk',there,equal⟩ := mem_rows.mp right
    subst same equal
    rw [row_key here,row_key there] at key
    subst key
    rw [row_key here]
    apply sound.repeated u v _ here there
    intro same
    rw [same] at before
    exact lt_irrefl _ before
  · intro u v pk left right
    obtain ⟨here,_,first⟩ := (stays u pk).mp left
    obtain ⟨there,_,second⟩ := (stays v pk).mp right
    exact keeper_unique first second (here.trans there.symm)
  · intro u pk here valid
    obtain ⟨v,there,keeper⟩ := keeper_exists scan here
    exact ⟨v,(stays v pk).mpr ⟨there,valid,keeper⟩,there,keeper⟩

theorem sound_of_purged (scan : Scan g) (purged : Purged g (handed order scan.rows)) : Sound g := by
  constructor
  · intro u v pk here there apart
    by_contra invalid
    rw [Bool.not_eq_true] at invalid
    have twice {u v : Uid} (here : (g.node u).pubkey = some pk) (there : (g.node v).pubkey = some pk)
        (before : (rowOf g v).priority < (rowOf g u).priority) : False :=
      handed_twice (mem_rows.mpr ⟨u,pk,here,rfl⟩) (mem_rows.mpr ⟨v,pk,there,rfl⟩) (by rw [row_key here,row_key there]) before
        (by rwa [row_key here]) (rows_names scan) purged.once
    rcases lt_trichotomy (rowOf g v).priority (rowOf g u).priority with before | same | behind
    · exact twice here there before
    · exact apart (HexNumber.text_injective (rank_name same)).symm
    · exact twice there here behind
  · intro u v pk here there valid keeper same equal apart
    by_contra later
    have before : HexNumber.text v < HexNumber.text u :=
      lt_of_le_of_ne (not_lt.mp later) fun name => apart (HexNumber.text_injective name).symm
    have member : HexNumber.text u ∈ handed order scan.rows :=
      handed_iff.mpr ⟨u,pk,here,rfl,.inr ⟨v,there,row_ahead_iff.mpr (.inr ⟨same.symm,.inr ⟨equal.symm,before⟩⟩)⟩⟩
    obtain ⟨w,pk',found,name,either⟩ := (purged.handed _).mp member
    rw [HexNumber.text_injective name,here] at found
    cases found
    rw [HexNumber.text_injective name,valid] at either
    exact either.elim (fun false => by cases false) fun worse => worse keeper
end Purged

-- The scan is whole, and the purge keeps the right nodes exactly where the graph is sound for it.
theorem purge_right (g : Graph) (scan : Scan g) (batchSize : Nat) (positive : 1 ≤ batchSize) (order : Tally.Order (Str × List PubkeyNode)) :
    (∀ (σ : Type) (callback : σ → List PubkeyNode → σ), ∃ batches : List (List PubkeyNode), batches.flatten = scan.rows ∧
      ∀ fuel s, scan.uids.length < fuel →
        getAllPubkeysPaginated (scan.query batchSize) batchSize callback fuel 0 s = some (.ok (batches.foldl callback s))) ∧
    ∃ verdict, (∀ fuel, scan.uids.length < fuel → healthCheck (scan.query batchSize) batchSize order true true fuel = some verdict) ∧
      (Purged g verdict.uids ↔ Sound g) := by
  have pages := Paging.offset_rows scan.rows positive 0
  rw [List.drop_zero] at pages
  have size : scan.rows.length = scan.uids.length := List.length_map _
  have visits (σ : Type) (callback : σ → List PubkeyNode → σ) : ∃ batches : List (List PubkeyNode), batches.flatten = scan.rows ∧
      ∀ fuel s, scan.uids.length < fuel →
        getAllPubkeysPaginated (scan.query batchSize) batchSize callback fuel 0 s = some (.ok (batches.foldl callback s)) := by
    obtain ⟨batches,flat,runs⟩ := getAll_rows pages callback
    exact ⟨batches,flat,fun fuel s enough => runs fuel s (by rwa [size])⟩
  refine ⟨visits,?_⟩
  obtain ⟨batches,flat,runs⟩ := visits Collected scanBatch
  have start : Collects [] ⟨[],[],0⟩ := ⟨rfl,rfl,rfl⟩
  have collected := start.run batches
  rw [List.nil_append,flat] at collected
  refine ⟨decideVerdict order true true (batches.foldl scanBatch ⟨[],[],0⟩),?_,?_⟩
  · intro fuel enough
    unfold healthCheck
    rw [runs fuel _ enough]
    rfl
  · rw [verdict_uids collected]
    exact ⟨sound_of_purged scan,fun sound => sound.purged scan⟩

-- Profiles of one key.
def keyed (uids : List Uid) (ordered : uids.Pairwise (· < ·)) (positive : ∀ u ∈ uids, 0 < u) (pk : Str) : Graph where
  uids := uids
  ordered := ordered
  positive := positive
  node u := if u ∈ uids then { Node.empty with pubkey := some pk, profile := true } else .empty
  beyond u unknown := if_neg unknown
  closed u v member := by
    split at member <;> cases member

theorem keyed_pubkey {uids : List Uid} {ordered : uids.Pairwise (· < ·)} {positive : ∀ u ∈ uids, 0 < u} {pk : Str} {u : Uid} :
    ((keyed uids ordered positive pk).node u).pubkey = if u ∈ uids then some pk else none := by
  by_cases member : u ∈ uids
  · rw [if_pos member]
    exact congrArg Node.pubkey (if_pos member)
  · rw [if_neg member]
    exact congrArg Node.pubkey (if_neg member)

def keyedScan (uids : List Uid) (ordered : uids.Pairwise (· < ·)) (positive : ∀ u ∈ uids, 0 < u) (pk : Str) : Scan (keyed uids ordered positive pk) where
  uids := uids
  distinct := ordered.imp Nat.ne_of_lt
  complete u := by
    rw [keyed_pubkey]
    split
    · rename_i there
      exact ⟨fun _ => rfl,fun _ => there⟩
    · rename_i absent
      exact ⟨fun there => absurd there absent,fun none => by cases none⟩

def asSeen : Tally.Order (Str × List PubkeyNode) := ⟨id,fun _ => .refl _⟩

def tie : Graph := keyed [9,16] (by decide) (by decide) (List.replicate 64 97)

def tieScan : Scan tie := keyedScan [9,16] (by decide) (by decide) (List.replicate 64 97)

theorem empties_ordered : ([1,2] : List Uid).Pairwise (· < ·) := by decide

theorem empties_positive : ∀ u ∈ ([1,2] : List Uid), 0 < u := by decide

def empties : Graph := keyed [1,2] empties_ordered empties_positive []

def emptiesScan : Scan empties := keyedScan [1,2] empties_ordered empties_positive []

theorem purge_right_tie : (∀ (σ : Type) (callback : σ → List PubkeyNode → σ), ∃ batches : List (List PubkeyNode), batches.flatten = tieScan.rows ∧
      ∀ fuel s, tieScan.uids.length < fuel →
        getAllPubkeysPaginated (tieScan.query 1) 1 callback fuel 0 s = some (.ok (batches.foldl callback s))) ∧
    ∃ verdict, (∀ fuel, tieScan.uids.length < fuel → healthCheck (tieScan.query 1) 1 asSeen true true fuel = some verdict) ∧
      (Purged tie verdict.uids ↔ Sound tie) :=
  purge_right tie tieScan 1 (by decide) asSeen

-- 0x10 sorts before 0x9, and the second of two empty keys is handed over twice.
theorem purge_right_fails :
    (healthCheck (tieScan.query 5000) 5000 asSeen true true 2 = some (.purged [HexNumber.text 9]) ∧ ¬ Purged tie [HexNumber.text 9]) ∧
      healthCheck (emptiesScan.query 5000) 5000 asSeen true true 2 = some (.purged [HexNumber.text 1,HexNumber.text 2,HexNumber.text 2]) ∧
      ¬ Purged empties [HexNumber.text 1,HexNumber.text 2,HexNumber.text 2] := by
  refine ⟨⟨by decide +kernel,?_⟩,by decide +kernel,?_⟩
  · intro purged
    obtain ⟨u,pk,here,name,either⟩ := (purged.handed (HexNumber.text 9)).mp List.mem_cons_self
    rw [HexNumber.text_injective name] at here either
    have key : (tie.node 9).pubkey = some (List.replicate 64 97) := rfl
    cases here.symm.trans key
    have keeper : Keeper tie 9 := by
      refine ⟨rfl,?_⟩
      intro v same apart
      rw [key,tie,keyed_pubkey] at same
      obtain ⟨member,_⟩ := Option.ite_none_right_eq_some.mp same
      have other : v = 16 := by simpa [apart] using member
      subst other
      exact .inr ⟨rfl,.inr ⟨rfl,by decide⟩⟩
    rcases either with invalid | worse
    · revert invalid
      decide +kernel
    · exact worse keeper
  · intro purged
    have once := purged.once
    revert once
    decide +kernel

end DeepFry.WebOfTrust.HealthCheck
