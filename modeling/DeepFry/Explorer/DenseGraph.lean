import DeepFry.Explorer.PagedGraph

namespace DeepFry.Explorer
open WebOfTrust (Uid)

namespace FollowGraph

-- The uids as the rows show them, their numbers, and the edges.
def sighted (g : FollowGraph) : List Uid := g.sources.flatMap fun u => u :: g.follows u

def numbering (g : FollowGraph) : List Uid := Numbering.sightings [] g.sighted

def index (g : FollowGraph) (u : Uid) : Nat := g.numbering.idxOf u

def edges (g : FollowGraph) : List (Uid × Uid) := g.sources.flatMap fun u => (g.follows u).map fun v => (u,v)

end FollowGraph

-- What both loaders make of the graph, attributes apart.
structure Assembled (g : FollowGraph) (gd : GraphData) (paged : PagedGraphResult) : Prop where
  same : gd.edges = paged.links
  distinct : g.numbering.Nodup
  appear : ∀ u, u ∈ g.numbering ↔ g.follows u ≠ [] ∨ ∃ v, u ∈ g.follows v
  first : g.numbering.Pairwise fun u v => g.sighted.idxOf u < g.sighted.idxOf v
  nodeCount : gd.nodeCount.toNat = g.numbering.length ∧ paged.nodeCount = g.numbering.length
  single : g.edges.Nodup
  listed : ∀ u v, (u,v) ∈ g.edges ↔ v ∈ g.follows u
  edges : gd.edges.map UInt32.toNat = g.edges.flatMap fun e => [g.index e.1,g.index e.2]
  edgeCount : gd.edgeCount.toNat = g.edges.length ∧ paged.edgeCount = g.edges.length
  inDegrees : gd.inDeg.length = g.numbering.length ∧ (gd.inDeg.map UInt32.toNat).sum = gd.edgeCount.toNat
  outDegrees : gd.outDeg.length = g.numbering.length ∧ (gd.outDeg.map UInt32.toNat).sum = gd.edgeCount.toNat
  inDegree : paged.inDegree = gd.inDeg
  hexByIndex : paged.hexByIndex = g.numbering.map HexNumber.text

-- The attributes at an index.
structure Holds (gd : GraphData) (i : Nat) (kind3 lastU : Int32) (pk : Bytes) : Prop where
  kind3 : gd.kind3CreatedAt[i]? = some kind3
  lastU : gd.lastDbUpdate[i]? = some lastU
  pk : (gd.pubkeys.drop (32 * i)).take 32 = pk

def noKey : Bytes := List.replicate 32 0

-- The attributes of u sit at the index of u.
def Own (g : FollowGraph) (gd : GraphData) (u : Uid) : Prop :=
  Holds gd (g.index u) ((g.row u).kind3.getD 0) ((g.row u).lastU.getD 0) ((g.row u).pk.getD noKey)

def Blank (g : FollowGraph) (gd : GraphData) (u : Uid) : Prop := Holds gd (g.index u) 0 0 noKey

section Scatter
variable {α : Type}

-- Writes at keys of their own.
theorem scatter_distinct (m : List (UInt32 × α)) (out : List α) (inside : ∀ entry ∈ m, entry.1.toNat < out.length)
    (apart : m.Pairwise fun a b => a.1 ≠ b.1) :
    ∃ full, scatter out m = some full ∧ full.length = out.length ∧ (∀ entry ∈ m, full[entry.1.toNat]? = some entry.2) ∧
      ∀ i, (∀ entry ∈ m, entry.1.toNat ≠ i) → full[i]? = out[i]? := by
  induction m generalizing out with
  | nil => exact ⟨out,rfl,rfl,fun entry member => absurd member List.not_mem_nil,fun i _ => rfl⟩
  | cons entry m ih =>
    rw [List.pairwise_cons] at apart
    have here := inside entry List.mem_cons_self
    obtain ⟨full,done,size,held,kept⟩ := ih (out.set entry.1.toNat entry.2)
      (fun other member => by rw [List.length_set]; exact inside other (List.mem_cons_of_mem _ member)) apart.2
    refine ⟨full,?_,by rw [size,List.length_set],?_,?_⟩
    · unfold scatter
      rw [List.foldlM_cons,if_pos here]
      exact done
    · intro other member
      rcases List.mem_cons.mp member with same | later
      · rw [same,kept entry.1.toNat ?_,List.getElem?_set_self here]
        intro other later equal
        exact apart.1 other later (UInt32.toNat_inj.mp equal).symm
      · exact held other later
    · intro i none
      rw [kept i fun other later => none other (List.mem_cons_of_mem _ later),
        List.getElem?_set_ne (none entry List.mem_cons_self)]

theorem scatter_all {holds : α → Prop} (m : List (UInt32 × α)) {out full : List α} (done : scatter out m = some full)
    (before : ∀ a ∈ out, holds a) (written : ∀ entry ∈ m, holds entry.2) : ∀ a ∈ full, holds a := by
  induction m generalizing out with
  | nil =>
    cases done
    exact before
  | cons entry m ih =>
    unfold scatter at done
    rw [List.foldlM_cons] at done
    split at done
    · refine ih done ?_ fun other member => written other (List.mem_cons_of_mem _ member)
      intro a member
      rcases List.mem_or_eq_of_mem_set member with old | new
      · exact before a old
      · rw [new]
        exact written entry List.mem_cons_self
    · cases done

-- The values of rows with uids of their own, each at its number.
theorem scatter_values {uids : List Bytes} {rows : List DqlNode} (value : DqlNode → Option α) (zero : α) (order : Tally.Order (UInt32 × α))
    (few : uids.length < 2^32) (there : ∀ n ∈ rows, n.uid ∈ uids) (apart : rows.Pairwise fun a b => uids.idxOf a.uid ≠ uids.idxOf b.uid) :
    ∃ full, scatter (List.replicate uids.length zero) (order.order (entriesUnder uids value rows)) = some full ∧
      (∀ n ∈ rows, full[uids.idxOf n.uid]? = some ((value n).getD zero)) ∧
      ∀ i < uids.length, (∀ n ∈ rows, uids.idxOf n.uid ≠ i) → full[i]? = some zero := by
  have number {n : DqlNode} (member : n ∈ rows) : (UInt32.ofNat (uids.idxOf n.uid)).toNat = uids.idxOf n.uid := by
    have below := List.idxOf_lt_length_of_mem (there n member)
    rw [UInt32.toNat_ofNat',Nat.mod_eq_of_lt (by omega)]
  have entry_of {entry : UInt32 × α} (member : entry ∈ order.order (entriesUnder uids value rows)) :
      ∃ n ∈ rows, value n = some entry.2 ∧ entry.1 = UInt32.ofNat (uids.idxOf n.uid) := by
    obtain ⟨n,known,made⟩ := List.mem_filterMap.mp ((order.complete _).mem_iff.mp member)
    obtain ⟨v,given,same⟩ := Option.map_eq_some_iff.mp made
    rw [← same]
    exact ⟨n,known,given,rfl⟩
  have keys : (entriesUnder uids value rows).Pairwise fun a b => a.1 ≠ b.1 := by
    unfold entriesUnder
    rw [List.pairwise_filterMap]
    refine apart.imp_of_mem ?_
    intro a b left right differ x first y second
    obtain ⟨_,_,first⟩ := Option.map_eq_some_iff.mp first
    obtain ⟨_,_,second⟩ := Option.map_eq_some_iff.mp second
    rw [← first,← second]
    intro same
    have same := congrArg UInt32.toNat same
    rw [number left,number right] at same
    exact differ same
  have ordered : (order.order (entriesUnder uids value rows)).Pairwise fun a b => a.1 ≠ b.1 :=
    keys.perm (order.complete _).symm fun differ => differ.symm
  obtain ⟨full,done,size,held,kept⟩ := scatter_distinct (order.order (entriesUnder uids value rows)) (List.replicate uids.length zero)
    (fun entry member => by
      obtain ⟨n,known,_,key⟩ := entry_of member
      rw [key,number known,List.length_replicate]
      exact List.idxOf_lt_length_of_mem (there n known)) ordered
  have blank {i : Nat} (below : i < uids.length) (free : ∀ n ∈ rows, (value n).isSome = true → uids.idxOf n.uid ≠ i) : full[i]? = some zero := by
    rw [kept i ?_,List.getElem?_replicate_of_lt below]
    intro entry member
    obtain ⟨n,known,given,key⟩ := entry_of member
    rw [key,number known]
    exact free n known (by rw [given]; rfl)
  refine ⟨full,done,?_,fun i below free => blank below fun n known _ => free n known⟩
  intro n member
  cases given : value n with
  | some v =>
    have entry : (UInt32.ofNat (uids.idxOf n.uid),v) ∈ order.order (entriesUnder uids value rows) := by
      rw [(order.complete _).mem_iff]
      exact List.mem_filterMap.mpr ⟨n,member,by rw [given]; rfl⟩
    have found := held _ entry
    rwa [number member] at found
  | none =>
    apply blank (List.idxOf_lt_length_of_mem (there n member))
    intro other known value same
    by_cases equal : other = n
    · rw [equal,given] at value
      cases value
    · have symmetric : Std.Symm fun a b : DqlNode => uids.idxOf a.uid ≠ uids.idxOf b.uid := ⟨fun _ _ differ => differ.symm⟩
      exact apart.forall known member equal same
end Scatter

section Graph
variable {g : FollowGraph} {u v : Uid} {size : Nat}

def FollowGraph.rows (g : FollowGraph) : List DqlNode := g.sources.map g.row

theorem mem_sources : u ∈ g.sources ↔ g.follows u ≠ [] := by
  rw [FollowGraph.sources,List.mem_filter,decide_eq_true_eq]
  refine ⟨And.right,fun follows => ⟨?_,follows⟩⟩
  by_contra unknown
  rw [FollowGraph.follows,g.graph.beyond u unknown] at follows
  exact follows rfl

theorem sources_ordered (g : FollowGraph) : g.sources.Pairwise (· < ·) := g.graph.ordered.filter _

theorem sources_nodup (g : FollowGraph) : g.sources.Nodup := (sources_ordered g).imp Nat.ne_of_lt

theorem stream_rows (g : FollowGraph) : stream g.rows = g.sighted.map HexNumber.text := by
  unfold stream FollowGraph.rows FollowGraph.sighted
  rw [List.flatMap_map,List.map_flatMap]
  rfl

theorem sightings_rows (g : FollowGraph) : Numbering.sightings [] (stream g.rows) = g.numbering.map HexNumber.text := by
  rw [stream_rows]
  exact Numbering.sightings_map HexNumber.text_injective [] g.sighted

theorem index_text (g : FollowGraph) (u : Uid) : (g.numbering.map HexNumber.text).idxOf (HexNumber.text u) = g.index u :=
  Numbering.idxOf_map HexNumber.text_injective g.numbering u

theorem mem_sighted : u ∈ g.sighted ↔ g.follows u ≠ [] ∨ ∃ v, u ∈ g.follows v := by
  rw [FollowGraph.sighted,List.mem_flatMap]
  constructor
  · intro shown
    obtain ⟨v,source,member⟩ := shown
    rcases List.mem_cons.mp member with same | target
    · rw [same]
      exact .inl (mem_sources.mp source)
    · exact .inr ⟨v,target⟩
  · intro either
    rcases either with source | target
    · exact ⟨u,mem_sources.mpr source,List.mem_cons_self⟩
    · obtain ⟨v,target⟩ := target
      exact ⟨v,mem_sources.mpr (List.ne_nil_of_mem target),List.mem_cons_of_mem _ target⟩

theorem mem_numbering : u ∈ g.numbering ↔ g.follows u ≠ [] ∨ ∃ v, u ∈ g.follows v := by
  rw [FollowGraph.numbering,Numbering.mem_sightings,mem_sighted]
  simp

theorem numbering_nodup (g : FollowGraph) : g.numbering.Nodup := Numbering.nodup_sightings List.nodup_nil _

theorem source_numbered (source : u ∈ g.sources) : u ∈ g.numbering := mem_numbering.mpr (.inl (mem_sources.mp source))

theorem index_lt (member : u ∈ g.numbering) : g.index u < g.numbering.length := List.idxOf_lt_length_of_mem member

theorem index_inj (member : u ∈ g.numbering) (same : g.index u = g.index v) : u = v := (List.idxOf_inj member).mp same

theorem edges_listed : (u,v) ∈ g.edges ↔ v ∈ g.follows u := by
  rw [FollowGraph.edges,List.mem_flatMap]
  constructor
  · intro shown
    obtain ⟨w,_,member⟩ := shown
    obtain ⟨x,target,same⟩ := List.mem_map.mp member
    cases same
    exact target
  · intro target
    exact ⟨u,mem_sources.mpr (List.ne_nil_of_mem target),List.mem_map.mpr ⟨v,target,rfl⟩⟩

theorem edges_nodup (g : FollowGraph) : g.edges.Nodup := by
  unfold FollowGraph.edges
  rw [List.nodup_flatMap]
  refine ⟨fun u _ => (g.single u).map fun v w same => congrArg Prod.snd same,?_⟩
  refine (sources_nodup g).imp ?_
  intro u v apart e left right
  obtain ⟨_,_,left⟩ := List.mem_map.mp left
  obtain ⟨_,_,right⟩ := List.mem_map.mp right
  exact apart (congrArg Prod.fst (left.trans right.symm))

-- The pages of the store hold the rows.
theorem query_rows (g : FollowGraph) (positive : 1 ≤ size) :
    Paging.Rows (g.query size) (fun cursor page => (page.getLast?.map (·.uid)).getD cursor) size (HexNumber.text 0) g.rows := by
  have pages := Paging.after_rows id (sources_ordered g) positive 0
  have all : Paging.beyond id g.sources 0 = g.sources :=
    List.filter_eq_self.mpr fun u member => decide_eq_true (g.graph.positive u (List.mem_filter.mp member).1)
  rw [all] at pages
  have mapped : Paging.Rows (fun c => ((Paging.beyond id g.sources c).take size).map g.row)
      (fun c page => (page.getLast?.map fun n => HexNumber.value n.uid).getD c) size 0 g.rows := by
    refine pages.map g.row (fun c => rfl) ?_
    intro c
    simp only [Paging.lastKey,List.getLast?_map,Option.map_map]
    congr 1
    cases ((Paging.beyond id g.sources c).take size).getLast? with
    | none => rfl
    | some u => exact congrArg some (HexNumber.value_text u)
  have start : HexNumber.value (HexNumber.text 0) = 0 := HexNumber.value_text 0
  rw [← start] at mapped
  refine mapped.decoded HexNumber.value (fun c => rfl) ?_
  intro c
  cases (g.query size c).getLast? <;> rfl
end Graph

section Degrees
open Numbering

def words (pairs : List (Nat × Nat)) : List UInt32 := pairs.flatMap fun e => [UInt32.ofNat e.1,UInt32.ofNat e.2]

theorem words_cons (e : Nat × Nat) (pairs : List (Nat × Nat)) :
    words (e :: pairs) = UInt32.ofNat e.1 :: UInt32.ofNat e.2 :: words pairs := rfl

theorem words_length (pairs : List (Nat × Nat)) : (words pairs).length = 2 * pairs.length := by
  induction pairs with
  | nil => rfl
  | cons e pairs ih =>
    rw [words_cons,List.length_cons,List.length_cons,ih,List.length_cons]
    omega

theorem pairsUnder_words (uids : List Bytes) (rows : List DqlNode) : pairsUnder uids rows = words (edgesUnder uids rows) := by
  unfold pairsUnder words edgesUnder
  rw [List.flatMap_assoc]
  simp only [List.flatMap_map]

theorem toNat_small {i : Nat} (small : i < 2^32) : (UInt32.ofNat i).toNat = i := by
  rw [UInt32.toNat_ofNat',Nat.mod_eq_of_lt small]

theorem words_toNat {pairs : List (Nat × Nat)} (small : ∀ e ∈ pairs, e.1 < 2^32 ∧ e.2 < 2^32) :
    (words pairs).map UInt32.toNat = pairs.flatMap fun e => [e.1,e.2] := by
  induction pairs with
  | nil => rfl
  | cons e pairs ih =>
    obtain ⟨left,right⟩ := small e List.mem_cons_self
    rw [words_cons,List.map_cons,List.map_cons,ih fun other member => small other (List.mem_cons_of_mem _ member),toNat_small left,
      toNat_small right]
    rfl

theorem degreesLoop_words {nodeCount : UInt32} {pairs : List (Nat × Nat)} (inside : ∀ e ∈ pairs, e.1 < nodeCount.toNat ∧ e.2 < nodeCount.toNat)
    (inDeg outDeg : List UInt32) :
    degreesLoop nodeCount (words pairs) inDeg outDeg = ((pairs.map (·.2)).foldl bump inDeg,(pairs.map (·.1)).foldl bump outDeg) := by
  induction pairs generalizing inDeg outDeg with
  | nil => rfl
  | cons e pairs ih =>
    obtain ⟨left,right⟩ := inside e List.mem_cons_self
    have bound := UInt32.toNat_lt nodeCount
    have source := toNat_small (left.trans bound)
    have target := toNat_small (right.trans bound)
    have first : UInt32.ofNat e.1 < nodeCount := by
      rw [UInt32.lt_iff_toNat_lt,source]
      exact left
    have second : UInt32.ofNat e.2 < nodeCount := by
      rw [UInt32.lt_iff_toNat_lt,target]
      exact right
    rw [words_cons,degreesLoop,if_pos first,if_pos second,source,target,ih fun other member => inside other (List.mem_cons_of_mem _ member)]
    rfl

theorem inDegree_words {pairs : List (Nat × Nat)} (small : ∀ e ∈ pairs, e.2 < 2^32) (nodeCount : Nat) :
    computeInDegree (words pairs) nodeCount pairs.length = (pairs.map (·.2)).foldl bump (List.replicate nodeCount 0) := by
  unfold computeInDegree
  generalize List.replicate nodeCount (0 : UInt32) = counts
  induction pairs generalizing counts with
  | nil => rfl
  | cons e pairs ih =>
    have target := toNat_small (small e List.mem_cons_self)
    have shift (i : Nat) : (words (e :: pairs))[(i + 1) * 2 + 1]? = (words pairs)[i * 2 + 1]? := by
      have place : (i + 1) * 2 + 1 = i * 2 + 1 + 1 + 1 := by omega
      rw [words_cons,place,List.getElem?_cons_succ,List.getElem?_cons_succ]
    have here : (words (e :: pairs))[0 * 2 + 1]? = some (UInt32.ofNat e.2) := rfl
    rw [List.length_cons,List.range_succ_eq_map,List.foldl_cons,List.foldl_map]
    simp only [shift,here,target]
    exact ih (fun other member => small other (List.mem_cons_of_mem _ member)) _

-- Every edge is counted once.
theorem degree_sum {targets : List Nat} {n : Nat} (inside : ∀ i ∈ targets, i < n) (few : targets.length < 2^32) :
    ((targets.foldl bump (List.replicate n 0)).map UInt32.toNat).sum = targets.length := by
  have counts : (targets.foldl bump (List.replicate n 0)).map UInt32.toNat = (List.range n).map fun i => targets.count i := by
    apply List.ext_getElem?
    intro i
    rw [List.getElem?_map,bumps_at,List.getElem?_map]
    by_cases below : i < n
    · have small : targets.count i < 2^32 := Nat.lt_of_le_of_lt List.count_le_length few
      rw [List.getElem?_replicate_of_lt below,List.getElem?_range below]
      simp only [Option.map_some,UInt32.zero_add,toNat_small small]
    · rw [List.getElem?_eq_none (by simpa using below),List.getElem?_eq_none (by simpa using below)]
      rfl
  rw [counts,sum_counts targets inside]
end Degrees

section Loaders
variable {g : FollowGraph} {size : Nat}

-- The edges as pairs of indices.
def FollowGraph.pairs (g : FollowGraph) : List (Nat × Nat) := g.edges.map fun e => (g.index e.1,g.index e.2)

theorem edgesUnder_rows (g : FollowGraph) : edgesUnder (g.numbering.map HexNumber.text) g.rows = g.pairs := by
  unfold edgesUnder FollowGraph.rows FollowGraph.pairs FollowGraph.edges
  rw [List.flatMap_map,List.map_flatMap]
  congr 1
  funext u
  simp only [FollowGraph.row,List.map_map]
  congr 1
  funext v
  exact congrArg₂ Prod.mk (index_text g u) (index_text g v)

theorem pairs_inside {e : Nat × Nat} (member : e ∈ g.pairs) : e.1 < g.numbering.length ∧ e.2 < g.numbering.length := by
  obtain ⟨⟨u,v⟩,listed,same⟩ := List.mem_map.mp member
  have target := edges_listed.mp listed
  rw [← same]
  exact ⟨index_lt (mem_numbering.mpr (.inl (List.ne_nil_of_mem target))),index_lt (mem_numbering.mpr (.inr ⟨u,target⟩))⟩

theorem rows_apart (g : FollowGraph) :
    g.rows.Pairwise fun a b => (g.numbering.map HexNumber.text).idxOf a.uid ≠ (g.numbering.map HexNumber.text).idxOf b.uid := by
  unfold FollowGraph.rows
  rw [List.pairwise_map]
  refine (sources_nodup g).imp_of_mem ?_
  intro u v left _ apart same
  rw [FollowGraph.row,FollowGraph.row,index_text,index_text] at same
  exact apart (index_inj (source_numbered left) same)

theorem rows_read (few : g.numbering.length < 2^32) (rest done : List DqlNode) (whole : done ++ rest = g.rows) {s : Reading}
    (read : Read (g.numbering.map HexNumber.text) done s) : Read (g.numbering.map HexNumber.text) g.rows (rest.foldl readNode s) := by
  induction rest generalizing done s with
  | nil =>
    rw [List.append_nil] at whole
    rw [← whole]
    exact read
  | cons n rest ih =>
    have split : (done ++ [n]) ++ rest = g.rows := by
      rw [← whole,List.append_assoc]
      rfl
    refine ih (done ++ [n]) split (read.step ?_ ?_)
    · rw [← sightings_rows,← split,stream_append (done ++ [n]) rest,Numbering.sightings_append]
      exact Numbering.prefix_sightings _ (stream rest)
    · intro old earlier same
      have apart := rows_apart g
      rw [← whole,List.pairwise_append] at apart
      have number (m : DqlNode) (member : m ∈ g.rows) : (g.numbering.map HexNumber.text).idxOf m.uid < 2^32 := by
        obtain ⟨u,source,same⟩ := List.mem_map.mp member
        rw [← same,FollowGraph.row,index_text]
        exact (index_lt (source_numbered source)).trans few
      have earlier' : old ∈ g.rows := by
        rw [← whole]
        exact List.mem_append_left _ earlier
      have here : n ∈ g.rows := by
        rw [← whole]
        simp
      exact apart.2.2 old earlier n List.mem_cons_self (ofNat_inj (number old earlier') (number n here) same)

theorem readPages_all (positive : 1 ≤ size) (few : g.numbering.length < 2^32) : ∃ s, Read (g.numbering.map HexNumber.text) g.rows s ∧
    ∀ fuel, g.sources.length < fuel → readPages (g.query size) size fuel (HexNumber.text 0) .start = some s := by
  refine ⟨g.rows.foldl readNode .start,rows_read few g.rows [] rfl (Read.start _),?_⟩
  intro fuel enough
  exact readPages_rows (query_rows g positive) (by simpa [FollowGraph.rows] using enough) _

theorem block_at {blocks : List Bytes} (sizes : ∀ b ∈ blocks, b.length = 32) {i : Nat} {b : Bytes} (found : blocks[i]? = some b) :
    (blocks.flatten.drop (32 * i)).take 32 = b := by
  induction blocks generalizing i with
  | nil => cases found
  | cons first blocks ih =>
    have size := sizes first List.mem_cons_self
    cases i with
    | zero =>
      cases found
      rw [List.flatten_cons,Nat.mul_zero,List.drop_zero,← size,List.take_left]
    | succ i =>
      rw [List.getElem?_cons_succ] at found
      have place : 32 * (i + 1) = first.length + 32 * i := by omega
      rw [List.flatten_cons,place,← List.drop_drop,List.drop_left]
      exact ih (fun b member => sizes b (List.mem_cons_of_mem _ member)) found

theorem pk_size {n : DqlNode} {b : Bytes} (given : n.pk = some b) : b.length = 32 := by
  unfold DqlNode.pk at given
  obtain ⟨long,decoded⟩ := Option.ite_none_right_eq_some.mp given
  have size := Bytes.decodeHex_length decoded
  omega

-- The slices that the maps are flattened into.
theorem assemble_read (ranges : Ranges) (few : g.numbering.length < 2^32) {s : Reading} (read : Read (g.numbering.map HexNumber.text) g.rows s) :
    ∃ gd, assemble ranges s = some gd ∧ gd.edges = words g.pairs ∧ gd.nodeCount.toNat = g.numbering.length ∧
      gd.edgeCount = UInt32.ofNat g.edges.length ∧ (∀ u ∈ g.numbering, g.follows u ≠ [] → Own g gd u) ∧
      ∀ u ∈ g.numbering, g.follows u = [] → Blank g gd u := by
  have length : (g.numbering.map HexNumber.text).length = g.numbering.length := List.length_map _
  have size : s.rm.size = UInt32.ofNat g.numbering.length := by
    rw [Remap.size,read.rm,sightings_rows,Numbering.length_numbered,length]
  have there : ∀ n ∈ g.rows, n.uid ∈ g.numbering.map HexNumber.text := by
    intro n member
    obtain ⟨u,source,same⟩ := List.mem_map.mp member
    rw [← same]
    exact List.mem_map.mpr ⟨u,source_numbered source,rfl⟩
  have few' : (g.numbering.map HexNumber.text).length < 2^32 := by rwa [length]
  obtain ⟨kind3,kinds,kindOwn,kindBlank⟩ := scatter_values DqlNode.kind3 0 ranges.kind3 few' there (rows_apart g)
  obtain ⟨lastU,lasts,lastOwn,lastBlank⟩ := scatter_values DqlNode.lastU 0 ranges.lastU few' there (rows_apart g)
  obtain ⟨pk,keys,keyOwn,keyBlank⟩ := scatter_values DqlNode.pk noKey ranges.pk few' there (rows_apart g)
  have blocks : ∀ b ∈ pk, b.length = 32 := by
    apply @scatter_all _ (fun b => b.length = 32) _ _ _ keys
    · intro b member
      rw [List.eq_of_mem_replicate member]
      rfl
    · intro entry member
      obtain ⟨n,_,made⟩ := List.mem_filterMap.mp ((ranges.pk.complete _).mem_iff.mp member)
      obtain ⟨b,given,same⟩ := Option.map_eq_some_iff.mp made
      rw [← same]
      exact pk_size given
  rw [length] at kinds lasts keys
  have edges : s.edges = words g.pairs := by rw [read.edges,pairsUnder_words,edgesUnder_rows]
  have count : s.edges.length / 2 = g.edges.length := by
    rw [edges,words_length,FollowGraph.pairs,List.length_map]
    omega
  have row (u : Uid) (follows : g.follows u ≠ []) : g.row u ∈ g.rows := List.mem_map.mpr ⟨u,mem_sources.mpr follows,rfl⟩
  have number (u : Uid) : (g.numbering.map HexNumber.text).idxOf (g.row u).uid = g.index u := index_text g u
  have free (u : Uid) (member : u ∈ g.numbering) (leaf : g.follows u = []) :
      ∀ n ∈ g.rows, (g.numbering.map HexNumber.text).idxOf n.uid ≠ g.index u := by
    intro n shown same
    obtain ⟨v,source,equal⟩ := List.mem_map.mp shown
    rw [← equal,number] at same
    rw [index_inj (source_numbered source) same] at source
    exact mem_sources.mp source leaf
  have below (u : Uid) (member : u ∈ g.numbering) : g.index u < (g.numbering.map HexNumber.text).length := by
    rw [length]
    exact index_lt member
  have slots : s.rm.size.toNat = g.numbering.length := by rw [size,toNat_small few]
  refine ⟨⟨s.edges,List.replicate g.numbering.length 0,List.replicate g.numbering.length 0,List.replicate g.numbering.length 0,kind3,lastU,
    pk.flatten,s.rm.size,UInt32.ofNat (s.edges.length / 2)⟩,?_,edges,slots,?_,?_,?_⟩
  · unfold assemble
    unfold noKey at keys
    simp only [slots,read.kind3,read.lastU,read.pk]
    rw [kinds,lasts,keys]
    rfl
  · exact congrArg UInt32.ofNat count
  · intro u member follows
    have kind := kindOwn _ (row u follows)
    have last := lastOwn _ (row u follows)
    have key := keyOwn _ (row u follows)
    rw [number] at kind last key
    exact ⟨kind,last,block_at blocks key⟩
  · intro u member leaf
    exact ⟨kindBlank _ (below u member) (free u member leaf),lastBlank _ (below u member) (free u member leaf),
      block_at blocks (keyBlank _ (below u member) (free u member leaf))⟩

theorem loadBridge_some (ranges : Ranges) (positive : 1 ≤ size) (few : g.numbering.length < 2^32) :
    ∃ gd, (∀ fuel, g.sources.length < fuel → loadBridge g size ranges fuel = some gd) ∧ gd.edges = words g.pairs ∧
      gd.nodeCount.toNat = g.numbering.length ∧ gd.edgeCount = UInt32.ofNat g.edges.length ∧
      gd.inDeg = (g.pairs.map (·.2)).foldl Numbering.bump (List.replicate g.numbering.length 0) ∧
      gd.outDeg = (g.pairs.map (·.1)).foldl Numbering.bump (List.replicate g.numbering.length 0) ∧
      (∀ u ∈ g.numbering, g.follows u ≠ [] → Own g gd u) ∧ ∀ u ∈ g.numbering, g.follows u = [] → Blank g gd u := by
  obtain ⟨s,read,pages⟩ := readPages_all positive few
  obtain ⟨gd,built,edges,nodes,count,own,blank⟩ := assemble_read ranges few read
  have degree : degrees gd.edges gd.nodeCount = ((g.pairs.map (·.2)).foldl Numbering.bump (List.replicate g.numbering.length 0),
      (g.pairs.map (·.1)).foldl Numbering.bump (List.replicate g.numbering.length 0)) := by
    unfold degrees
    rw [edges,degreesLoop_words (by rw [nodes]; exact fun e member => pairs_inside member),nodes]
  refine ⟨{ gd with inDeg := (degrees gd.edges gd.nodeCount).1, outDeg := (degrees gd.edges gd.nodeCount).2 },?_,edges,nodes,count,
    congrArg Prod.fst degree,congrArg Prod.snd degree,?_,?_⟩
  · intro fuel enough
    unfold loadBridge readAll
    rw [pages fuel enough,Option.bind_some,built]
    rfl
  · intro u member follows
    have held := own u member follows
    exact ⟨held.kind3,held.lastU,held.pk⟩
  · intro u member leaf
    have held := blank u member leaf
    exact ⟨held.kind3,held.lastU,held.pk⟩

theorem loadPagedGraph_some (positive : 1 ≤ size) (few : g.numbering.length < 2^32) :
    ∃ paged, (∀ fuel, g.sources.length < fuel → loadPagedGraph (g.fetchPage size) size fuel = some paged) ∧ paged.links = words g.pairs ∧
      paged.inDegree = (g.pairs.map (·.2)).foldl Numbering.bump (List.replicate g.numbering.length 0) ∧
      paged.hexByIndex = g.numbering.map HexNumber.text ∧ paged.nodeCount = g.numbering.length ∧ paged.edgeCount = g.edges.length := by
  have start : Parsed (g.numbering.map HexNumber.text) [] ⟨[],[],0⟩ := ⟨rfl,rfl,rfl⟩
  have later : Numbering.sightings [] (stream ([] ++ g.rows)) <+: g.numbering.map HexNumber.text := by
    rw [List.nil_append,sightings_rows]
  have rows : g.rows.length = g.sources.length := List.length_map _
  have final (fuel : Nat) (enough : g.sources.length < fuel) :
      ∃ other, pageLoop (g.fetchPage size) size fuel (HexNumber.text 0) ⟨[],[],0⟩ = some other ∧ Parsed (g.numbering.map HexNumber.text) g.rows other :=
    pageLoop_rows (query_rows g positive) (by rwa [rows]) start later
  have edgeCount {s : Paging} (parsed : Parsed (g.numbering.map HexNumber.text) g.rows s) : s.edgesSoFar = g.pairs.length := by
    rw [parsed.count,parsed.edges,edgesUnder_rows]
  have nodeCount {s : Paging} (parsed : Parsed (g.numbering.map HexNumber.text) g.rows s) : s.remap.length = g.numbering.length := by
    rw [parsed.remap,sightings_rows,Numbering.length_numbered,List.length_map]
  have links {s : Paging} (parsed : Parsed (g.numbering.map HexNumber.text) g.rows s) :
      Wire.fitU32 (s.chunks.flatMap words) (s.edgesSoFar * 2) = words g.pairs := by
    have written : s.chunks.flatMap words = words g.pairs := by
      rw [← edgesUnder_rows,← parsed.edges,← List.flatMap_id]
      unfold words
      rw [List.flatMap_assoc]
      rfl
    rw [written,edgeCount parsed]
    unfold Wire.fitU32 Wire.fit
    rw [if_pos (by rw [words_length]; omega)]
  refine ⟨⟨words g.pairs,(g.pairs.map (·.2)).foldl Numbering.bump (List.replicate g.numbering.length 0),g.numbering.map HexNumber.text,
    g.numbering.length,g.edges.length⟩,?_,rfl,rfl,rfl,rfl,rfl⟩
  intro fuel enough
  obtain ⟨s,ends,parsed⟩ := final fuel enough
  have hexes : s.remap.toHexArray = g.numbering.map HexNumber.text := by
    rw [parsed.remap,sightings_rows,toHexArray_numbered]
  have small : ∀ e ∈ g.pairs, e.2 < 2^32 := fun e member => (pairs_inside member).2.trans few
  unfold loadPagedGraph
  rw [ends,Option.map_some]
  simp only
  rw [show Wire.fitU32 (s.chunks.flatMap fun chunk => chunk.flatMap fun edge => [UInt32.ofNat edge.1,UInt32.ofNat edge.2]) (s.edgesSoFar * 2) =
    words g.pairs from links parsed,hexes,nodeCount parsed,edgeCount parsed,inDegree_words small]
  rw [FollowGraph.pairs,List.length_map]
-- Static pages of any size: one edge array, dense indices in the order of first sighting, every edge counted once, and each
-- source's attributes at its own index, as far as uids and edges fit the index type.
theorem dense_agreement (g : FollowGraph) (size : Nat) (ranges : Ranges) (positive : 1 ≤ size) (uids : g.numbering.length < 2^32)
    (edges : g.edges.length < 2^32) :
    ∃ gd paged, (∀ fuel, g.sources.length < fuel →
        loadBridge g size ranges fuel = some gd ∧ loadPagedGraph (g.fetchPage size) size fuel = some paged) ∧
      Assembled g gd paged ∧ (∀ u ∈ g.numbering, g.follows u ≠ [] → Own g gd u) ∧ ∀ u ∈ g.numbering, g.follows u = [] → Blank g gd u := by
  obtain ⟨gd,bridge,written,nodes,count,inDeg,outDeg,own,blank⟩ := loadBridge_some ranges positive uids
  obtain ⟨paged,browser,links,inDegree,hexes,pagedNodes,pagedEdges⟩ := loadPagedGraph_some positive uids
  have edgeCount : gd.edgeCount.toNat = g.edges.length := by rw [count,toNat_small edges]
  have size : g.pairs.length = g.edges.length := List.length_map _
  have sum (column : Nat × Nat → Nat) (inside : ∀ i ∈ g.pairs.map column, i < g.numbering.length) :
      (((g.pairs.map column).foldl Numbering.bump (List.replicate g.numbering.length 0)).map UInt32.toNat).sum = gd.edgeCount.toNat := by
    rw [degree_sum inside (by rwa [List.length_map,size]),List.length_map,size,edgeCount]
  have targets : ∀ i ∈ g.pairs.map (·.2), i < g.numbering.length := by
    intro i member
    obtain ⟨e,listed,same⟩ := List.mem_map.mp member
    rw [← same]
    exact (pairs_inside listed).2
  have starts : ∀ i ∈ g.pairs.map (·.1), i < g.numbering.length := by
    intro i member
    obtain ⟨e,listed,same⟩ := List.mem_map.mp member
    rw [← same]
    exact (pairs_inside listed).1
  refine ⟨gd,paged,fun fuel enough => ⟨bridge fuel enough,browser fuel enough⟩,?_,own,blank⟩
  exact {
    same := written.trans links.symm
    distinct := numbering_nodup g
    appear := fun u => mem_numbering
    first := Numbering.sightings_ordered g.sighted
    nodeCount := ⟨nodes,pagedNodes⟩
    single := edges_nodup g
    listed := fun u v => edges_listed
    edges := by
      rw [written,words_toNat fun e member => ⟨(pairs_inside member).1.trans uids,(pairs_inside member).2.trans uids⟩,FollowGraph.pairs,
        List.flatMap_map]
    edgeCount := ⟨edgeCount,pagedEdges⟩
    inDegrees := ⟨by rw [inDeg,Numbering.length_bumps,List.length_replicate],by rw [inDeg,sum _ targets]⟩
    outDegrees := ⟨by rw [outDeg,Numbering.length_bumps,List.length_replicate],by rw [outDeg,sum _ starts]⟩
    inDegree := by rw [inDegree,inDeg]
    hexByIndex := hexes
  }
end Loaders

def asListed : Ranges := ⟨⟨id,fun _ => .refl _⟩,⟨id,fun _ => .refl _⟩,⟨id,fun _ => .refl _⟩⟩

-- The first node follows the second, which follows no one and has a key.
def leafGraph : FollowGraph where
  graph := {
    uids := [1,2]
    ordered := by decide
    positive := by decide
    node := fun u => if u = 1 then { WebOfTrust.Node.empty with follows := [2] }
      else if u = 2 then { WebOfTrust.Node.empty with pubkey := some (List.replicate 64 97) } else .empty
    beyond := by
      intro u unknown
      rw [List.mem_cons,List.mem_singleton,not_or] at unknown
      rw [if_neg unknown.1,if_neg unknown.2]
    closed := by
      intro u v member
      split at member
      · rw [List.mem_singleton.mp member]
        decide
      · split at member <;> cases member }
  single u := by
    dsimp only
    split
    · exact List.nodup_singleton 2
    · split <;> exact List.nodup_nil

theorem dense_agreement_leaf : ∃ gd paged, (∀ fuel, 1 < fuel →
      loadBridge leafGraph 1 asListed fuel = some gd ∧ loadPagedGraph (leafGraph.fetchPage 1) 1 fuel = some paged) ∧
    Assembled leafGraph gd paged ∧ (∀ u ∈ leafGraph.numbering, leafGraph.follows u ≠ [] → Own leafGraph gd u) ∧
    ∀ u ∈ leafGraph.numbering, leafGraph.follows u = [] → Blank leafGraph gd u :=
  dense_agreement leafGraph 1 asListed (by decide) (by decide +kernel) (by decide +kernel)

-- Every node follows every node, itself included.
def complete (n : Nat) : FollowGraph where
  graph := {
    uids := List.range' 1 n
    ordered := List.pairwise_lt_range'
    positive := fun u member => (List.mem_range'_1.mp member).1
    node := fun u => if u ∈ List.range' 1 n then { WebOfTrust.Node.empty with follows := List.range' 1 n } else .empty
    beyond := fun u unknown => if_neg unknown
    closed := by
      intro u v member
      split at member
      · exact member
      · cases member }
  single u := by
    dsimp only
    split
    · exact List.nodup_range'
    · exact List.nodup_nil

theorem complete_edges (n : Nat) : (complete n).edges.length = n * n := by
  have follows (u : Uid) (member : u ∈ List.range' 1 n) : (complete n).follows u = List.range' 1 n :=
    congrArg WebOfTrust.Node.follows (if_pos member)
  have sources : (complete n).sources = List.range' 1 n := by
    apply List.filter_eq_self.mpr
    intro u member
    rw [follows u member]
    exact decide_eq_true (List.ne_nil_of_mem member)
  have lengths : (List.range' 1 n).map (fun u => (((complete n).follows u).map fun v => (u,v)).length) = List.replicate n n := by
    apply List.eq_replicate_iff.mpr
    refine ⟨by rw [List.length_map,List.length_range'],?_⟩
    intro size member
    obtain ⟨u,there,same⟩ := List.mem_map.mp member
    rw [← same,follows u there,List.length_map,List.length_range']
  rw [FollowGraph.edges,sources,List.length_flatMap,lengths,List.sum_replicate,smul_eq_mul]

-- The key of a node without follows is never read, and 2^32 edges are counted as none.
theorem dense_agreement_fails :
    (2 ∈ leafGraph.numbering ∧ ∃ gd, (∀ fuel, 1 < fuel → loadBridge leafGraph 1 asListed fuel = some gd) ∧ ¬ Own leafGraph gd 2) ∧
      ∀ gd paged, ¬ Assembled (complete 65536) gd paged := by
  have there : 2 ∈ leafGraph.numbering := by decide +kernel
  obtain ⟨gd,loaded,_,_,_,_,_,_,blank⟩ := @loadBridge_some leafGraph 1 asListed (by decide) (by decide +kernel)
  refine ⟨⟨there,gd,loaded,?_⟩,?_⟩
  · intro own
    have zeros := (blank 2 there rfl).pk
    have key := own.pk
    rw [zeros] at key
    revert key
    decide +kernel
  · intro gd paged assembled
    have count := assembled.edgeCount.1
    rw [complete_edges] at count
    have bound := UInt32.toNat_lt gd.edgeCount
    omega

end DeepFry.Explorer
