import DeepFry.Explorer.Wire
import DeepFry.Lib.HexNumber
import DeepFry.Lib.Numbering
import DeepFry.Lib.Paging
import DeepFry.Lib.Tally
import DeepFry.WebOfTrust.Graph

namespace DeepFry.Explorer
open WebOfTrust (Uid)

-- The follow graph in the store: a node follows another at most once.
structure FollowGraph where
  graph : WebOfTrust.Graph
  single : ∀ u, (graph.node u).follows.Nodup

structure DqlNode where
  uid : Bytes
  follows : List Bytes
  pubkey : Bytes
  kind3CreatedAt : Option Int
  lastDbUpdate : Option Int

namespace FollowGraph

def follows (g : FollowGraph) (u : Uid) : List Uid := (g.graph.node u).follows

-- has(follows), in uid order.
def sources (g : FollowGraph) : List Uid := g.graph.uids.filter fun u => g.follows u ≠ []

def row (g : FollowGraph) (u : Uid) : DqlNode :=
  ⟨HexNumber.text u,(g.follows u).map HexNumber.text,(g.graph.node u).pubkey.getD [],(g.graph.node u).kind3CreatedAt,(g.graph.node u).lastDbUpdate⟩

-- q(func: has(follows), first: .., after: ..)
def query (g : FollowGraph) (first : Nat) (after : Bytes) : List DqlNode :=
  ((Paging.beyond id g.sources (HexNumber.value after)).take first).map g.row
end FollowGraph

abbrev Remap := List (Bytes × UInt32)

def Remap.indexOf (r : Remap) (h : Bytes) : UInt32 × Remap := Numbering.assign UInt32.ofNat r h

def Remap.size (r : Remap) : UInt32 := UInt32.ofNat r.length

structure NodeAttrs where
  kind3 : List (UInt32 × Int32)
  lastU : List (UInt32 × Int32)
  pk : List (UInt32 × Bytes)

-- A write to a map.
def put {α : Type} (m : List (UInt32 × α)) (key : UInt32) (value : α) : List (UInt32 × α) :=
  m.filter (fun entry => entry.1 ≠ key) ++ [(key,value)]

def clampToI32 (v : Int) : Int32 :=
  let maxI32 : Int := 2147483647
  let minI32 : Int := -maxI32 - 1
  if v > maxI32 then Int32.ofInt maxI32
  else if v < minI32 then Int32.ofInt minI32
  else Int32.ofInt v

def recordAttrs (attrs : NodeAttrs) (idx : UInt32) (n : DqlNode) : NodeAttrs where
  kind3 := match n.kind3CreatedAt with
    | some v => put attrs.kind3 idx (clampToI32 v)
    | none => attrs.kind3
  lastU := match n.lastDbUpdate with
    | some v => put attrs.lastU idx (clampToI32 v)
    | none => attrs.lastU
  pk :=
    if n.pubkey.length = 64 then match Bytes.decodeHex n.pubkey with
      | some b => put attrs.pk idx b
      | none => attrs.pk
    else attrs.pk

structure Reading where
  rm : Remap
  attrs : NodeAttrs
  edges : List UInt32

def Reading.start : Reading := ⟨[],⟨[],[],[]⟩,[]⟩

def readFollow (src : UInt32) (s : Reading) (f : Bytes) : Reading :=
  let (tgt,rm) := s.rm.indexOf f
  { s with rm, edges := s.edges ++ [src,tgt] }

def readNode (s : Reading) (n : DqlNode) : Reading :=
  let (src,rm) := s.rm.indexOf n.uid
  n.follows.foldl (readFollow src) { s with rm, attrs := recordAttrs s.attrs src n }

-- The paging loop; the fuel bounds the pages that are asked for.
def readPages (fetch : Bytes → List DqlNode) (size : Nat) : Nat → Bytes → Reading → Option Reading
  | 0,_,_ => none
  | fuel+1,cursor,s =>
    let page := fetch cursor
    if page.length = 0 then some s
    else
      let s := page.foldl readNode s
      let cursor := (page.getLast?.map (·.uid)).getD cursor
      if page.length < size then some s else readPages fetch size fuel cursor s

-- for idx,v := range m: a write beyond the slice is a panic.
def scatter {α : Type} (out : List α) (m : List (UInt32 × α)) : Option (List α) :=
  m.foldlM (fun out entry => if entry.1.toNat < out.length then some (out.set entry.1.toNat entry.2) else none) out

-- The orders that the attribute maps are ranged over in.
structure Ranges where
  kind3 : Tally.Order (UInt32 × Int32)
  lastU : Tally.Order (UInt32 × Int32)
  pk : Tally.Order (UInt32 × Bytes)

def assemble (ranges : Ranges) (s : Reading) : Option GraphData := do
  let nodeCount := s.rm.size
  let n := nodeCount.toNat
  let kind3 ← scatter (List.replicate n 0) (ranges.kind3.order s.attrs.kind3)
  let lastU ← scatter (List.replicate n 0) (ranges.lastU.order s.attrs.lastU)
  let pubkeys ← scatter (List.replicate n (List.replicate 32 0)) (ranges.pk.order s.attrs.pk)
  some {
    edges := s.edges
    inDeg := List.replicate n 0
    outDeg := List.replicate n 0
    community := List.replicate n 0
    kind3CreatedAt := kind3
    lastDbUpdate := lastU
    pubkeys := pubkeys.flatten
    nodeCount
    edgeCount := UInt32.ofNat (s.edges.length / 2)
  }

def readAll (g : FollowGraph) (size : Nat) (ranges : Ranges) (fuel : Nat) : Option GraphData :=
  (readPages (g.query size) size fuel (HexNumber.text 0) .start).bind (assemble ranges)

def degreesLoop (nodeCount : UInt32) : List UInt32 → List UInt32 → List UInt32 → List UInt32 × List UInt32
  | src :: tgt :: rest,inDeg,outDeg =>
    let outDeg := if src < nodeCount then Numbering.bump outDeg src.toNat else outDeg
    let inDeg := if tgt < nodeCount then Numbering.bump inDeg tgt.toNat else inDeg
    degreesLoop nodeCount rest inDeg outDeg
  | _,inDeg,outDeg => (inDeg,outDeg)

def degrees (edges : List UInt32) (nodeCount : UInt32) : List UInt32 × List UInt32 :=
  degreesLoop nodeCount edges (List.replicate nodeCount.toNat 0) (List.replicate nodeCount.toNat 0)

-- The graph that the bridge serves, before its communities are found.
def loadBridge (g : FollowGraph) (size : Nat) (ranges : Ranges) (fuel : Nat) : Option GraphData :=
  (readAll g size ranges fuel).map fun gd =>
    let (inDeg,outDeg) := degrees gd.edges gd.nodeCount
    { gd with inDeg, outDeg }

-- What a page shows, in the order that numbers are given.
def DqlNode.sighted (n : DqlNode) : List Bytes := n.uid :: n.follows

def stream (rows : List DqlNode) : List Bytes := rows.flatMap DqlNode.sighted

def DqlNode.kind3 (n : DqlNode) : Option Int32 := n.kind3CreatedAt.map clampToI32

def DqlNode.lastU (n : DqlNode) : Option Int32 := n.lastDbUpdate.map clampToI32

def DqlNode.pk (n : DqlNode) : Option Bytes := if n.pubkey.length = 64 then Bytes.decodeHex n.pubkey else none

-- The edges and the map entries of rows, under the numbers of a list.
def pairsUnder (uids : List Bytes) (rows : List DqlNode) : List UInt32 :=
  rows.flatMap fun n => n.follows.flatMap fun f => [UInt32.ofNat (uids.idxOf n.uid),UInt32.ofNat (uids.idxOf f)]

def entriesUnder {α : Type} (uids : List Bytes) (value : DqlNode → Option α) (rows : List DqlNode) : List (UInt32 × α) :=
  rows.filterMap fun n => (value n).map fun v => (UInt32.ofNat (uids.idxOf n.uid),v)

structure Read (uids : List Bytes) (rows : List DqlNode) (s : Reading) : Prop where
  rm : s.rm = Numbering.numbered UInt32.ofNat (Numbering.sightings [] (stream rows))
  edges : s.edges = pairsUnder uids rows
  kind3 : s.attrs.kind3 = entriesUnder uids DqlNode.kind3 rows
  lastU : s.attrs.lastU = entriesUnder uids DqlNode.lastU rows
  pk : s.attrs.pk = entriesUnder uids DqlNode.pk rows

section Read
variable {uids : List Bytes} {rows : List DqlNode} {s : Reading} {n : DqlNode}

theorem ofNat_inj {i j : Nat} (left : i < 2^32) (right : j < 2^32) (same : UInt32.ofNat i = UInt32.ofNat j) : i = j := by
  have values := congrArg UInt32.toNat same
  rwa [UInt32.toNat_ofNat',UInt32.toNat_ofNat',Nat.mod_eq_of_lt left,Nat.mod_eq_of_lt right] at values

theorem put_fresh {α : Type} {m : List (UInt32 × α)} {key : UInt32} (fresh : ∀ entry ∈ m, entry.1 ≠ key) (value : α) :
    put m key value = m ++ [(key,value)] := by
  unfold put
  rw [List.filter_eq_self.mpr fun entry member => decide_eq_true (fresh entry member)]

theorem stream_concat (rows : List DqlNode) (n : DqlNode) : stream (rows ++ [n]) = stream rows ++ n.sighted := by
  simp [stream]

theorem indexOf_numbered (seen : List Bytes) (h : Bytes) :
    Remap.indexOf (Numbering.numbered UInt32.ofNat seen) h =
      (UInt32.ofNat ((Numbering.sight seen h).idxOf h),Numbering.numbered UInt32.ofNat (Numbering.sight seen h)) :=
  Numbering.assign_numbered UInt32.ofNat seen h

-- The number that was given stays the number.
theorem idxOf_sight {seen : List Bytes} {h : Bytes} (later : Numbering.sight seen h <+: uids) :
    (Numbering.sight seen h).idxOf h = uids.idxOf h := later.idxOf_eq_of_mem Numbering.mem_sight

theorem follows_read (src : UInt32) (targets seen : List Bytes) (s : Reading) (table : s.rm = Numbering.numbered UInt32.ofNat seen)
    (later : Numbering.sightings seen targets <+: uids) :
    targets.foldl (readFollow src) s =
      ⟨Numbering.numbered UInt32.ofNat (Numbering.sightings seen targets),s.attrs,
        s.edges ++ targets.flatMap fun f => [src,UInt32.ofNat (uids.idxOf f)]⟩ := by
  induction targets generalizing seen s with
  | nil =>
    rw [List.flatMap_nil,List.append_nil,Numbering.sightings_nil,← table]
    rfl
  | cons f targets ih =>
    rw [Numbering.sightings_cons] at later ⊢
    have step : readFollow src s f =
        ⟨Numbering.numbered UInt32.ofNat (Numbering.sight seen f),s.attrs,s.edges ++ [src,UInt32.ofNat (uids.idxOf f)]⟩ := by
      unfold readFollow
      rw [table,indexOf_numbered,idxOf_sight ((Numbering.prefix_sightings _ _).trans later)]
    rw [List.foldl_cons,step,ih _ _ rfl later,List.flatMap_cons,List.append_assoc]

-- One row more.
theorem Read.step (read : Read uids rows s) (later : Numbering.sightings [] (stream (rows ++ [n])) <+: uids)
    (fresh : ∀ old ∈ rows, UInt32.ofNat (uids.idxOf old.uid) ≠ UInt32.ofNat (uids.idxOf n.uid)) : Read uids (rows ++ [n]) (readNode s n) := by
  rw [stream_concat,Numbering.sightings_append,DqlNode.sighted,Numbering.sightings_cons] at later
  have number := idxOf_sight ((Numbering.prefix_sightings _ _).trans later)
  have unknown {α : Type} (value : DqlNode → Option α) : ∀ entry ∈ entriesUnder uids value rows, entry.1 ≠ UInt32.ofNat (uids.idxOf n.uid) := by
    intro entry member
    obtain ⟨old,known,made⟩ := List.mem_filterMap.mp member
    obtain ⟨v,_,same⟩ := Option.map_eq_some_iff.mp made
    rw [← same]
    exact fresh old known
  have kept {α : Type} {value : DqlNode → Option α} (none : value n = none) : entriesUnder uids value (rows ++ [n]) = entriesUnder uids value rows := by
    simp [entriesUnder,none]
  have grown {α : Type} {value : DqlNode → Option α} {v : α} (given : value n = some v) :
      entriesUnder uids value (rows ++ [n]) = put (entriesUnder uids value rows) (UInt32.ofNat (uids.idxOf n.uid)) v := by
    rw [put_fresh (unknown value)]
    simp [entriesUnder,given]
  have whole : readNode s n = ⟨Numbering.numbered UInt32.ofNat (Numbering.sightings [] (stream (rows ++ [n]))),
      recordAttrs s.attrs (UInt32.ofNat (uids.idxOf n.uid)) n,pairsUnder uids (rows ++ [n])⟩ := by
    unfold readNode
    rw [read.rm,indexOf_numbered,number]
    simp only
    rw [follows_read _ _ _ _ rfl later,read.edges,stream_concat,Numbering.sightings_append]
    simp [pairsUnder,DqlNode.sighted,Numbering.sightings_cons]
  rw [whole]
  refine ⟨rfl,rfl,?_,?_,?_⟩
  · unfold recordAttrs
    rw [read.kind3]
    cases given : n.kind3CreatedAt with
    | none => exact (kept (by rw [DqlNode.kind3,given]; rfl)).symm
    | some v => exact (grown (by rw [DqlNode.kind3,given]; rfl)).symm
  · unfold recordAttrs
    rw [read.lastU]
    cases given : n.lastDbUpdate with
    | none => exact (kept (by rw [DqlNode.lastU,given]; rfl)).symm
    | some v => exact (grown (by rw [DqlNode.lastU,given]; rfl)).symm
  · unfold recordAttrs
    rw [read.pk]
    by_cases long : n.pubkey.length = 64
    · simp only [if_pos long]
      cases given : Bytes.decodeHex n.pubkey with
      | none => exact (kept (by rw [DqlNode.pk,if_pos long,given])).symm
      | some b => exact (grown (by rw [DqlNode.pk,if_pos long,given])).symm
    · simp only [if_neg long]
      exact (kept (by rw [DqlNode.pk,if_neg long])).symm

theorem Read.start (uids : List Bytes) : Read uids [] .start := ⟨rfl,rfl,rfl,rfl,rfl⟩

theorem readPages_rows {fetch : Bytes → List DqlNode} {size : Nat} {cursor : Bytes}
    (read : Paging.Rows fetch (fun cursor page => (page.getLast?.map (·.uid)).getD cursor) size cursor rows) {fuel : Nat}
    (enough : rows.length < fuel) (s : Reading) : readPages fetch size fuel cursor s = some (rows.foldl readNode s) := by
  induction read generalizing fuel s with
  | last cursor short =>
    cases fuel with
    | zero => cases enough
    | succ fuel =>
      rw [readPages]
      by_cases none : (fetch cursor).length = 0
      · rw [if_pos none,List.length_eq_zero_iff.mp none]
        rfl
      · rw [if_neg none,if_pos short]
  | more cursor rest positive full _ ih =>
    cases fuel with
    | zero => cases enough
    | succ fuel =>
      rw [List.length_append] at enough
      rw [readPages,if_neg (by omega),if_neg (by omega),List.foldl_append]
      exact ih (by omega) _
end Read

end DeepFry.Explorer
