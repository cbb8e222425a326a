import DeepFry.Explorer.DenseGraph
import DeepFry.Explorer.Louvain
import DeepFry.Lib.Rounding

namespace DeepFry.Explorer.Bridge
open WebOfTrust (Uid)
open Wire

-- What the handler answers: an error's text, or the sections of a frame one after the other.
inductive Response where
  | text (status : Nat) (body : Bytes)
  | frame (parts : List Section)

def Response.body : Response → Bytes
  | .text _ body => body
  | .frame parts => parts.flatMap Section.bytes

-- "method not allowed" and a newline
def methodNotAllowed : Bytes := [109,101,116,104,111,100,32,110,111,116,32,97,108,108,111,119,101,100,10]

-- "read failed" and a newline
def readFailed : Bytes := [114,101,97,100,32,102,97,105,108,101,100,10]

def prepared (order : Louvain.MapOrder) (gd : GraphData) : GraphData :=
  let (inDeg,outDeg) := degrees gd.edges gd.nodeCount
  { gd with inDeg, outDeg, community := Louvain.louvain order gd.edges gd.nodeCount }

-- read: none where ReadAll returns an error.
def graphHandler (get : Bool) (order : Louvain.MapOrder) (read : Option GraphData) : Response :=
  if !get then .text 405 methodNotAllowed
  else
    match read with
    | none => .text 502 readFailed
    | some gd => .frame (sections (prepared order gd))

-- What reaches the browser: chunks, and whether the stream then ended or broke.
inductive Arrival where
  | unreachable
  | bodyless
  | stream (chunks : List Bytes) (ended : Bool)

inductive LoadError where
  | network
  | noBody
  | range (error : RangeError)
  | maxNodeIndex (nodeCount : Nat)

inductive Stage where
  | fetch
  | receive
  | layout
deriving DecidableEq

structure LoadProgress where
  stage : Stage
  edgesSoFar : Nat
  bytesSoFar : Option Nat
deriving DecidableEq

-- links: the values of the Float32Array, whole numbers all.
structure GraphBuffers where
  links : List Nat
  nodeCount : Nat
  edgeCount : Nat
  hexByIndex : List Bytes
  inDegree : List UInt32
  outDegree : List UInt32
  community : List UInt32
  kind3CreatedAt : List Int32
  lastDbUpdate : List Int32

def MAX_NODE_INDEX : Nat := 16777216

-- An integer as a Float32: 24 digits, the nearest, a tie to the even one.
def float32 (n : Nat) : Nat := Rounding.nearest n (2^(Nat.log2 n - 23)) * 2^(Nat.log2 n - 23)

def hexEncode (pubkeys : Bytes) (nodeCount : Nat) : List Bytes :=
  (List.range nodeCount).map fun i => Bytes.hexEncode ((pubkeys.drop (i * pubkeyBytes)).take pubkeyBytes)

-- What the chunks report as they come in.
def receive (received : Nat) : List Bytes → List LoadProgress
  | [] => []
  | value :: rest =>
    let received := received + value.length
    ⟨.receive,if headerBytes < received then (received - headerBytes) / 8 else 0,some received⟩ :: receive received rest

def buildGraphBuffers {buffer : Bytes} (decoded : DecodedFrame buffer) : Except LoadError GraphBuffers :=
  if MAX_NODE_INDEX ≤ decoded.nodeCount then .error (.maxNodeIndex decoded.nodeCount)
  else .ok {
    links := decoded.links.values.map fun link : UInt32 => float32 link.toNat
    nodeCount := decoded.nodeCount
    edgeCount := decoded.edgeCount
    hexByIndex := hexEncode decoded.pubkeys.values decoded.nodeCount
    inDegree := decoded.inDegree.values
    outDegree := decoded.outDegree.values
    community := decoded.community.values
    kind3CreatedAt := decoded.kind3CreatedAt.values
    lastDbUpdate := decoded.lastDbUpdate.values
  }

def readFrame (frame : Bytes) : Except LoadError GraphBuffers :=
  match decodeFrame frame with
  | .error error => .error (.range error)
  | .ok decoded => buildGraphBuffers decoded

def load : Arrival → List LoadProgress × Except LoadError GraphBuffers
  | .unreachable => ([⟨.fetch,0,none⟩],.error .network)
  | .bodyless => ([⟨.fetch,0,none⟩],.error .noBody)
  | .stream chunks false => (⟨.fetch,0,none⟩ :: receive 0 chunks,.error .network)
  | .stream chunks true =>
    let progress := ⟨.fetch,0,none⟩ :: receive 0 chunks
    match readFrame chunks.flatten with
    | .error error => (progress,.error error)
    | .ok buffers => (progress ++ [⟨.layout,buffers.edgeCount,none⟩],.ok buffers)

-- The attributes at an index.
structure Attributes (b : GraphBuffers) (i : Nat) (kind3 lastU : Int32) (pk : Bytes) : Prop where
  kind3 : b.kind3CreatedAt[i]? = some kind3
  lastU : b.lastDbUpdate[i]? = some lastU
  hex : b.hexByIndex[i]? = some (Bytes.hexEncode pk)

-- What the browser holds is the follow graph: its edges as pairs of indices, each node's followers and follows counted, each
-- node's attributes and community at its own index.
structure Shows (g : FollowGraph) (b : GraphBuffers) : Prop where
  nodeCount : b.nodeCount = g.numbering.length
  edgeCount : b.edgeCount = g.edges.length
  links : b.links = g.edges.flatMap fun e => [g.index e.1,g.index e.2]
  inDegree : ∀ v ∈ g.numbering, ∃ d, b.inDegree[g.index v]? = some d ∧ d.toNat = g.sources.countP fun u => v ∈ g.follows u
  outDegree : ∀ u ∈ g.numbering, ∃ d, b.outDegree[g.index u]? = some d ∧ d.toNat = (g.follows u).length
  own : ∀ u ∈ g.numbering, g.follows u ≠ [] →
    Attributes b (g.index u) ((g.row u).kind3.getD 0) ((g.row u).lastU.getD 0) ((g.row u).pk.getD noKey)
  blank : ∀ u ∈ g.numbering, g.follows u = [] → Attributes b (g.index u) 0 0 noKey
  dense : b.community.length = g.numbering.length ∧ ∃ k, ∀ c, c ∈ b.community ↔ c.toNat < k
  together : ∀ u ∈ g.numbering, ∀ v ∈ g.numbering, b.community[g.index u]? = b.community[g.index v]? →
    Relation.EqvGen (fun a b => b ∈ g.follows a) u v
  improved : Modularity.modularity (Louvain.symmetrised (words g.pairs) g.numbering.length) id ≤
    Modularity.modularity (Louvain.symmetrised (words g.pairs) g.numbering.length) fun i : Fin g.numbering.length => b.community[i.val]?

theorem float32_small {n : Nat} (small : n < MAX_NODE_INDEX) : float32 n = n := by
  have digits : Nat.log2 n - 23 = 0 := by
    by_cases zero : n = 0
    · subst zero
      rfl
    · have bound : Nat.log2 n < 24 := (Nat.log2_lt zero).mpr small
      omega
  rw [float32,digits,Nat.pow_zero,Nat.mul_one,Rounding.nearest,Nat.mod_one,if_pos (by decide),Nat.div_one]

-- What starts like no frame is not decoded, nor is any part of it.
theorem text_rejected {text short : Bytes} (other : Bytes.fromLe (text.take 4) ≠ magicWOTB.toNat) (starts : short <+: text) :
    ∃ error, decodeFrame short = .error error := by
  cases decoded : decodeFrame short with
  | error error => exact ⟨error,rfl⟩
  | ok frame =>
    have described := decodeFrame_ok decoded
    have headed := described.headed
    have magic := described.magic
    obtain ⟨rest,rfl⟩ := starts
    rw [getUint32,List.drop_zero] at magic
    rw [List.take_append_of_le_length (by unfold headerBytes at headed; omega)] at other
    exact absurd magic other

theorem load_range {chunks : List Bytes} {error : RangeError} (rejected : decodeFrame chunks.flatten = .error error) (ended : Bool) :
    ∃ error, (load (.stream chunks ended)).2 = .error error := by
  cases ended with
  | false => exact ⟨_,rfl⟩
  | true =>
    rw [load,readFrame,rejected]
    exact ⟨_,rfl⟩

-- No error text is taken for a graph.
theorem handler_text {get : Bool} {order : Louvain.MapOrder} {read : Option GraphData} {status : Nat} {text : Bytes}
    (answered : graphHandler get order read = .text status text) {chunks : List Bytes} (starts : chunks.flatten <+: text) (ended : Bool) :
    ∃ error, (load (.stream chunks ended)).2 = .error error := by
  have other : Bytes.fromLe (text.take 4) ≠ magicWOTB.toNat := by
    unfold graphHandler at answered
    split at answered
    · cases answered
      decide
    · split at answered
      · cases answered
        decide
      · cases answered
  obtain ⟨error,rejected⟩ := text_rejected other starts
  exact load_range rejected ended

section Counts
variable {g : FollowGraph} {u v : Uid}

theorem count_index (nodes : List Uid) (all : ∀ w ∈ nodes, w ∈ g.numbering) : (nodes.map g.index).count (g.index v) = nodes.count v := by
  induction nodes with
  | nil => rfl
  | cons w rest ih =>
    have later := ih fun other member => all other (List.mem_cons_of_mem _ member)
    have same : (g.index w == g.index v) = (w == v) := by
      rw [Bool.eq_iff_iff,beq_iff_eq,beq_iff_eq]
      exact ⟨fun equal => index_inj (all w List.mem_cons_self) equal,fun equal => by rw [equal]⟩
    rw [List.map_cons,List.count_cons,List.count_cons,later,same]

theorem count_follower (g : FollowGraph) (v : Uid) : (g.edges.map Prod.snd).count v = g.sources.countP fun u => v ∈ g.follows u := by
  unfold FollowGraph.edges
  induction g.sources with
  | nil => rfl
  | cons u rest ih =>
    have here : ((g.follows u).map fun w => (u,w)).map Prod.snd = g.follows u := by
      rw [List.map_map]
      exact List.map_id _
    rw [List.flatMap_cons,List.map_append,List.count_append,ih,here,List.countP_cons,Nat.add_comm]
    congr 1
    by_cases member : v ∈ g.follows u
    · have once : (g.follows u).count v = 1 := List.count_eq_one_of_mem (g.single u) member
      simp [once,member]
    · have none : (g.follows u).count v = 0 := List.count_eq_zero_of_not_mem member
      simp [none,member]

theorem count_follows (g : FollowGraph) (u : Uid) : (g.edges.map Prod.fst).count u = (g.follows u).length := by
  unfold FollowGraph.edges
  have own : ∀ nodes : List Uid, nodes.Nodup →
      ((nodes.flatMap fun w => (g.follows w).map fun v => (w,v)).map Prod.fst).count u = if u ∈ nodes then (g.follows u).length else 0 := by
    intro nodes distinct
    induction nodes with
    | nil => rfl
    | cons w rest ih =>
      obtain ⟨fresh,distinct⟩ := List.nodup_cons.mp distinct
      have here : ((g.follows w).map fun v => (w,v)).map Prod.fst = List.replicate (g.follows w).length w := by
        rw [List.map_map]
        exact List.map_const'
      rw [List.flatMap_cons,List.map_append,List.count_append,ih distinct,here,List.count_replicate]
      by_cases same : w = u
      · subst same
        simp [fresh]
      · simp [same,Ne.symm same]
  rw [own g.sources (sources_nodup g)]
  split
  · rfl
  · next none =>
    rw [mem_sources,not_not] at none
    rw [none]
    rfl

-- A column of the edge list, counted at the index of a node.
theorem degree_at (column : Uid × Uid → Uid) (all : ∀ e ∈ g.edges, column e ∈ g.numbering) (few : g.edges.length < 2^32) (member : u ∈ g.numbering) :
    ∃ d, ((((g.edges.map column).map g.index).foldl Numbering.bump (List.replicate g.numbering.length 0))[g.index u]?) = some d ∧
      d.toNat = (g.edges.map column).count u := by
  have counted := count_index (g.edges.map column) (by
    intro w member
    obtain ⟨e,there,rfl⟩ := List.mem_map.mp member
    exact all e there) (v := u)
  have bounded : (g.edges.map column).count u < 2^32 := by
    have most := @List.count_le_length _ _ u (g.edges.map column)
    rw [List.length_map] at most
    omega
  refine ⟨0 + UInt32.ofNat ((g.edges.map column).count u),?_,?_⟩
  · rw [Numbering.bumps_at,counted,List.getElem?_replicate,if_pos (index_lt member)]
    rfl
  · rw [UInt32.zero_add,toNat_small bounded]

theorem pairs_columns (g : FollowGraph) :
    g.pairs.map Prod.fst = (g.edges.map Prod.fst).map g.index ∧ g.pairs.map Prod.snd = (g.edges.map Prod.snd).map g.index := by
  unfold FollowGraph.pairs
  simp only [List.map_map]
  exact ⟨rfl,rfl⟩

theorem edge_numbered {e : Uid × Uid} (listed : e ∈ g.edges) : e.1 ∈ g.numbering ∧ e.2 ∈ g.numbering := by
  have follows := edges_listed.mp listed
  exact ⟨mem_numbering.mpr (.inl (List.ne_nil_of_mem follows)),mem_numbering.mpr (.inr ⟨e.1,follows⟩)⟩

end Counts

section Communities
variable {g : FollowGraph}
open Louvain (inRange followGraph symmetrised louvain)

theorem inRange_words {n : Nat} {list : List (Nat × Nat)} (small : n < 2^32) (inside : ∀ e ∈ list, e.1 < n ∧ e.2 < n) {s t : Fin n}
    (member : (s,t) ∈ inRange n (words list)) : (s.val,t.val) ∈ list := by
  induction list with
  | nil => cases member
  | cons e rest ih =>
    obtain ⟨left,right⟩ := inside e List.mem_cons_self
    have first := toNat_small (left.trans small)
    have second := toNat_small (right.trans small)
    rw [words_cons,inRange,Louvain.pairs,List.filterMap_cons] at member
    simp only [first,second,dif_pos left,dif_pos right] at member
    obtain here | later := List.mem_cons.mp member
    · cases here
      exact List.mem_cons_self
    · exact List.mem_cons_of_mem _ (ih (fun other member => inside other (List.mem_cons_of_mem _ member)) later)

-- Nodes that the dense graph joins are joined by follows.
theorem reachable_follows (small : g.numbering.length < 2^32) {i j : Fin g.numbering.length}
    (reachable : (followGraph (words g.pairs) g.numbering.length).Reachable i j) :
    Relation.EqvGen (fun a b => b ∈ g.follows a) g.numbering[i] g.numbering[j] := by
  have edge : ∀ {s t : Fin g.numbering.length}, (s,t) ∈ inRange g.numbering.length (words g.pairs) →
      g.numbering[t] ∈ g.follows g.numbering[s] := by
    intro s t member
    obtain ⟨e,listed,same⟩ := List.mem_map.mp (inRange_words small (fun e member => pairs_inside member) member)
    obtain ⟨first,second⟩ := Prod.mk.inj same
    have left : g.numbering[s] = e.1 := by
      rw [Fin.getElem_fin]
      simp only [← first]
      exact List.getElem_idxOf _
    have right : g.numbering[t] = e.2 := by
      rw [Fin.getElem_fin]
      simp only [← second]
      exact List.getElem_idxOf _
    rw [left,right]
    exact edges_listed.mp listed
  obtain ⟨walk⟩ := reachable
  induction walk with
  | nil => exact .refl _
  | cons adjacent _ ih =>
    refine .trans _ _ _ ?_ ih
    obtain ⟨-,one | other⟩ := adjacent
    · exact .rel _ _ (edge one)
    · exact .symm _ _ (.rel _ _ (edge other))

-- The partition that the bridge finds, for a number of nodes given as a word.
theorem louvain_partition (order : Louvain.MapOrder) (edges : List UInt32) (nodeCount : UInt32) {n : Nat} (same : nodeCount.toNat = n) :
    (louvain order edges nodeCount).length = n ∧ (∃ k, ∀ c, c ∈ louvain order edges nodeCount ↔ c.toNat < k) ∧
    (∀ i j : Fin n, (louvain order edges nodeCount)[i.val]? = (louvain order edges nodeCount)[j.val]? → (followGraph edges n).Reachable i j) ∧
    Modularity.modularity (symmetrised edges n) id ≤
      Modularity.modularity (symmetrised edges n) fun i : Fin n => (louvain order edges nodeCount)[i.val]? := by
  subst same
  obtain ⟨k,dense⟩ := Louvain.louvain_dense order edges nodeCount (louvain order edges nodeCount).length
  rw [List.take_length] at dense
  obtain ⟨final,refined,same⟩ := Louvain.louvain_refined order edges nodeCount
  refine ⟨Louvain.louvain_length order edges nodeCount,⟨k,dense⟩,fun i j equal => refined.together i j ((same i j).mp equal),?_⟩
  rw [← Louvain.singletons_modularity nodeCount.toNat_lt,Modularity.modularity_congr same]
  exact refined.improved

end Communities

section Frame
variable {g : FollowGraph} {size fuel : Nat} {α : Type}

theorem takeD_at {values : List α} {n i : Nat} {zero value : α} (below : i < n) (found : values[i]? = some value) :
    (values.takeD n zero)[i]? = some value := by
  induction n generalizing values i with
  | zero => cases below
  | succ n ih =>
    cases values with
    | nil => cases found
    | cons head rest =>
      rw [List.takeD_succ,List.head?_cons,List.tail_cons,Option.getD_some]
      cases i with
      | zero => exact found
      | succ i => exact ih (Nat.lt_of_succ_lt_succ below) found

theorem takeD_whole {values : List α} {n : Nat} (size : values.length = n) (zero : α) : values.takeD n zero = values := by
  rw [List.takeD_eq_take _ size.ge,List.take_of_length_le size.le]

-- A block inside the front stays where it is.
theorem takeD_block {values : Bytes} {n i : Nat} (below : i < n) {block : Bytes} (full : block.length = 32)
    (found : (values.drop (32 * i)).take 32 = block) (zero : UInt8) : ((values.takeD (n * 32) zero).drop (32 * i)).take 32 = block := by
  have room : 32 * i + 32 ≤ values.length := by
    have size := congrArg List.length found
    rw [List.length_take,List.length_drop,full] at size
    omega
  apply List.ext_getElem?
  intro j
  rw [← found,List.getElem?_take,List.getElem?_take]
  split
  · next inside =>
    rw [List.getElem?_drop,List.getElem?_drop]
    have held := List.getElem?_eq_getElem (show 32 * i + j < values.length by omega)
    rw [takeD_at (by omega) held,held]
  · rfl

theorem hexEncode_at {pubkeys : Bytes} {nodeCount i : Nat} (below : i < nodeCount) {block : Bytes}
    (found : (pubkeys.drop (32 * i)).take 32 = block) : (hexEncode pubkeys nodeCount)[i]? = some (Bytes.hexEncode block) := by
  have place : i * pubkeyBytes = 32 * i := Nat.mul_comm i 32
  rw [hexEncode,List.getElem?_map,List.getElem?_range below,Option.map_some,place]
  rw [show pubkeyBytes = 32 from rfl,found]

-- The attributes of a node come through the frame.
theorem attributes_carried {gd : GraphData} {frame : DecodedFrame (encoded gd)} (carries : Carries gd frame) {b : GraphBuffers}
    (built : buildGraphBuffers frame = .ok b) {i : Nat} {kind3 lastU : Int32} {pk : Bytes} (below : i < gd.nodeCount.toNat)
    (full : pk.length = 32) (holds : Holds gd i kind3 lastU pk) : Attributes b i kind3 lastU pk := by
  unfold buildGraphBuffers at built
  split at built
  · cases built
  · cases built
    refine ⟨?_,?_,?_⟩
    · change frame.kind3CreatedAt.values[i]? = _
      rw [carries.kind3CreatedAt]
      exact takeD_at below holds.kind3
    · change frame.lastDbUpdate.values[i]? = _
      rw [carries.lastDbUpdate]
      exact takeD_at below holds.lastU
    · change (hexEncode frame.pubkeys.values frame.nodeCount)[i]? = _
      rw [carries.pubkeys,carries.nodeCount]
      exact hexEncode_at below (takeD_block below full holds.pk 0)

-- What the bridge has read and prepared.
structure Prepared (g : FollowGraph) (order : Louvain.MapOrder) (gd : GraphData) : Prop where
  edges : gd.edges = words g.pairs
  nodeCount : gd.nodeCount.toNat = g.numbering.length
  edgeCount : gd.edgeCount.toNat = g.edges.length
  inDeg : gd.inDeg = (g.pairs.map Prod.snd).foldl Numbering.bump (List.replicate g.numbering.length 0)
  outDeg : gd.outDeg = (g.pairs.map Prod.fst).foldl Numbering.bump (List.replicate g.numbering.length 0)
  community : gd.community = Louvain.louvain order (words g.pairs) gd.nodeCount
  own : ∀ u ∈ g.numbering, g.follows u ≠ [] → Own g gd u
  blank : ∀ u ∈ g.numbering, g.follows u = [] → Blank g gd u

theorem readAll_prepared (ranges : Ranges) (order : Louvain.MapOrder) (positive : 1 ≤ size) (uids : g.numbering.length < 2^32)
    (edges : g.edges.length < 2^32) (enough : g.sources.length < fuel) :
    ∃ gd, readAll g size ranges fuel = some gd ∧ Prepared g order (prepared order gd) := by
  obtain ⟨whole,loaded,written,nodes,count,inDeg,outDeg,own,blank⟩ := loadBridge_some ranges positive uids
  obtain ⟨gd,read,same⟩ := Option.map_eq_some_iff.mp (loaded fuel enough)
  subst same
  refine ⟨gd,read,written,nodes,by rw [← toNat_small edges]; exact congrArg UInt32.toNat count,inDeg,outDeg,?_,?_,?_⟩
  · change Louvain.louvain order gd.edges gd.nodeCount = _
    exact congrArg (Louvain.louvain order · gd.nodeCount) written
  · intro u member follows
    have held := own u member follows
    exact ⟨held.kind3,held.lastU,held.pk⟩
  · intro u member leaf
    have held := blank u member leaf
    exact ⟨held.kind3,held.lastU,held.pk⟩

theorem Prepared.paired {order : Louvain.MapOrder} {gd : GraphData} (made : Prepared g order gd) : gd.edges.length = 2 * gd.edgeCount.toNat := by
  rw [made.edges,words_length,made.edgeCount,FollowGraph.pairs,List.length_map]

theorem degree_length (targets : List Nat) (n : Nat) :
    (targets.foldl Numbering.bump (List.replicate n 0)).length = n := by
  rw [Numbering.length_bumps,List.length_replicate]

theorem Prepared.shows {order : Louvain.MapOrder} {gd : GraphData} (made : Prepared g order gd) (uids : g.numbering.length < 2^32)
    (few : g.edges.length < 2^32) {frame : DecodedFrame (encoded gd)} (carries : Carries gd frame) {b : GraphBuffers}
    (built : buildGraphBuffers frame = .ok b) : Shows g b := by
  have attributes := fun (u : Uid) (member : u ∈ g.numbering) {kind3 lastU : Int32} {pk : Bytes} (full : pk.length = 32)
      (holds : Holds gd (g.index u) kind3 lastU pk) =>
    attributes_carried carries built (by rw [made.nodeCount]; exact index_lt member) full holds
  obtain ⟨length,dense,connected,improved⟩ := louvain_partition order (words g.pairs) gd.nodeCount made.nodeCount
  obtain ⟨sources,targets⟩ := pairs_columns g
  have whole := built
  unfold buildGraphBuffers at whole
  split at whole
  · cases whole
  · next small =>
    have below : g.numbering.length < MAX_NODE_INDEX := by
      rw [carries.nodeCount,made.nodeCount] at small
      exact not_le.mp small
    cases whole
    have community : frame.community.values = Louvain.louvain order (words g.pairs) gd.nodeCount := by
      rw [carries.community,made.community]
      exact takeD_whole (length.trans made.nodeCount.symm) 0
    refine ⟨carries.nodeCount.trans made.nodeCount,carries.edgeCount.trans made.edgeCount,?_,?_,?_,?_,?_,?_,?_,?_⟩
    · change frame.links.values.map (fun link : UInt32 => float32 link.toNat) = _
      have written := @words_toNat g.pairs fun e member => ⟨(pairs_inside member).1.trans uids,(pairs_inside member).2.trans uids⟩
      have links : frame.links.values.map UInt32.toNat = g.edges.flatMap fun e => [g.index e.1,g.index e.2] := by
        rw [carries.links,made.edges,written,FollowGraph.pairs,List.flatMap_map]
      rw [← links]
      refine List.map_congr_left fun link member => float32_small ?_
      have listed : link.toNat ∈ frame.links.values.map UInt32.toNat := List.mem_map_of_mem member
      rw [links] at listed
      obtain ⟨e,there,among⟩ := List.mem_flatMap.mp listed
      obtain ⟨first,second⟩ := edge_numbered there
      have one := index_lt first
      have two := index_lt second
      rcases List.mem_pair.mp among with same | same <;> omega
    · intro v member
      change ∃ d, frame.inDegree.values[g.index v]? = some d ∧ _
      rw [carries.inDegree,made.inDeg,takeD_whole ((degree_length _ _).trans made.nodeCount.symm),targets,← count_follower]
      exact degree_at Prod.snd (fun e listed => (edge_numbered listed).2) few member
    · intro u member
      change ∃ d, frame.outDegree.values[g.index u]? = some d ∧ _
      rw [carries.outDegree,made.outDeg,takeD_whole ((degree_length _ _).trans made.nodeCount.symm),sources,← count_follows]
      exact degree_at Prod.fst (fun e listed => (edge_numbered listed).1) few member
    · intro u member follows
      refine attributes u member ?_ (made.own u member follows)
      cases key : (g.row u).pk with
      | none => rfl
      | some pk => exact pk_size key
    · intro u member leaf
      exact attributes u member rfl (made.blank u member leaf)
    · change frame.community.values.length = _ ∧ ∃ k, ∀ c, c ∈ frame.community.values ↔ _
      rw [community]
      exact ⟨length,dense⟩
    · intro u first v second same
      change frame.community.values[g.index u]? = frame.community.values[g.index v]? at same
      rw [community] at same
      have joined := reachable_follows uids (connected ⟨g.index u,index_lt first⟩ ⟨g.index v,index_lt second⟩ same)
      have left : g.numbering.get ⟨g.index u,index_lt first⟩ = u := List.getElem_idxOf _
      have right : g.numbering.get ⟨g.index v,index_lt second⟩ = v := List.getElem_idxOf _
      change Relation.EqvGen _ (g.numbering.get ⟨g.index u,index_lt first⟩) (g.numbering.get ⟨g.index v,index_lt second⟩) at joined
      rwa [left,right] at joined
    · change _ ≤ Modularity.modularity _ fun i : Fin g.numbering.length => frame.community.values[i.val]?
      rw [community]
      exact improved

end Frame

-- From the store to the browser, for every page size, every order of a map's keys and every way in which the stream is cut: what
-- loads is the follow graph, it loads where the whole frame came in below the index limit, and nothing else does.
theorem bridge_load (g : FollowGraph) {size fuel : Nat} (ranges : Ranges) (order : Louvain.MapOrder) (positive : 1 ≤ size)
    (uids : g.numbering.length < 2^32) (edges : g.edges.length < 2^32) (enough : g.sources.length < fuel) :
    ∃ parts, graphHandler true order (readAll g size ranges fuel) = .frame parts ∧
      (∀ chunks ended buffers, chunks.flatten <+: (Response.frame parts).body → (load (.stream chunks ended)).2 = .ok buffers →
        ended = true ∧ chunks.flatten = (Response.frame parts).body ∧ Shows g buffers) ∧
      (g.numbering.length < MAX_NODE_INDEX → ∀ chunks, chunks.flatten = (Response.frame parts).body →
        ∃ buffers, (load (.stream chunks true)).2 = .ok buffers) ∧
      ∀ get read status text chunks ended, graphHandler get order read = .text status text → chunks.flatten <+: text →
        ∃ error, (load (.stream chunks ended)).2 = .error error := by
  obtain ⟨gd,read,made⟩ := readAll_prepared ranges order positive uids edges enough
  refine ⟨sections (prepared order gd),by rw [read]; rfl,?_,?_,?_⟩
  · intro chunks ended buffers starts loaded
    change chunks.flatten <+: (sections (prepared order gd)).flatMap Section.bytes at starts
    change ended = true ∧ chunks.flatten = (sections (prepared order gd)).flatMap Section.bytes ∧ _
    rw [← encoded_sections] at starts ⊢
    by_cases whole : chunks.flatten = encoded (prepared order gd)
    · cases ended with
      | false => cases loaded
      | true =>
        obtain ⟨frame,decoded,carries⟩ := decodeFrame_encoded made.paired
        rw [load,whole,readFrame,decoded] at loaded
        dsimp only at loaded
        split at loaded
        · cases loaded
        · next built =>
          cases loaded
          exact ⟨rfl,whole,made.shows uids edges carries built⟩
    · obtain ⟨error,rejected⟩ := prefix_rejected made.paired starts whole
      obtain ⟨error,failed⟩ := load_range rejected ended
      rw [failed] at loaded
      cases loaded
  · intro below chunks whole
    change chunks.flatten = (sections (prepared order gd)).flatMap Section.bytes at whole
    rw [← encoded_sections] at whole
    obtain ⟨frame,decoded,carries⟩ := decodeFrame_encoded made.paired
    have small : ¬MAX_NODE_INDEX ≤ frame.nodeCount := by
      rw [carries.nodeCount,made.nodeCount]
      exact not_le.mpr below
    rw [load,whole,readFrame,decoded]
    simp only [buildGraphBuffers,if_neg small]
    exact ⟨_,rfl⟩
  · intro get read status text chunks ended answered starts
    exact handler_text answered starts ended

-- The frame of two nodes and an edge comes in as two chunks.
theorem bridge_load_leaf : ∃ parts, graphHandler true Louvain.arrivals (readAll leafGraph 1 asListed 2) = .frame parts ∧
    ∃ buffers, (load (.stream [(Response.frame parts).body.take 16,(Response.frame parts).body.drop 16] true)).2 = .ok buffers ∧
      Shows leafGraph buffers := by
  obtain ⟨parts,answered,shows_,loads,-⟩ := @bridge_load leafGraph 1 2 asListed Louvain.arrivals (by decide) (by decide +kernel) (by decide +kernel)
    (by decide +kernel)
  have whole : [(Response.frame parts).body.take 16,(Response.frame parts).body.drop 16].flatten = (Response.frame parts).body := by
    rw [List.flatten_cons,List.flatten_cons,List.flatten_nil,List.append_nil,List.take_append_drop]
  obtain ⟨buffers,loaded⟩ := loads (by decide +kernel) _ whole
  obtain ⟨-,-,shown⟩ := shows_ _ true buffers (by rw [whole]) loaded
  exact ⟨parts,answered,buffers,loaded,shown⟩

end DeepFry.Explorer.Bridge
