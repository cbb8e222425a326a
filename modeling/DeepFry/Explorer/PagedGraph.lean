import DeepFry.Explorer.GraphReader

namespace DeepFry.Explorer

-- The rows as the browser's query returns them.
structure PagedNode where
  uid : Bytes
  follows : Option (List Bytes)

def DqlNode.paged (n : DqlNode) : PagedNode := ⟨n.uid,some n.follows⟩

def FollowGraph.fetchPage (g : FollowGraph) (pageSize : Nat) (cursor : Bytes) : List PagedNode := (g.query pageSize cursor).map DqlNode.paged

abbrev HexRemap := List (Bytes × Nat)

def HexRemap.indexOf (map : HexRemap) (hex : Bytes) : Nat × HexRemap := Numbering.assign id map hex

def HexRemap.toHexArray (map : HexRemap) : List Bytes :=
  map.foldl (fun out entry => out.set entry.2 entry.1) (List.replicate map.length [])

def parseFollow (src : Nat) (s : HexRemap × List (Nat × Nat)) (f : Bytes) : HexRemap × List (Nat × Nat) :=
  let (tgt,remap) := s.1.indexOf f
  (remap,s.2 ++ [(src,tgt)])

def parseNode (s : HexRemap × List (Nat × Nat)) (node : PagedNode) : HexRemap × List (Nat × Nat) :=
  let (src,remap) := s.1.indexOf node.uid
  match node.follows with
  | none => (remap,s.2)
  | some follows => follows.foldl (parseFollow src) (remap,s.2)

def parseDqlEnvelope (nodes : List PagedNode) (remap : HexRemap) : HexRemap × List (Nat × Nat) := nodes.foldl parseNode (remap,[])

structure Paging where
  remap : HexRemap
  chunks : List (List (Nat × Nat))
  edgesSoFar : Nat

def parsePage (s : Paging) (nodes : List PagedNode) : Paging :=
  let (remap,pageEdges) := parseDqlEnvelope nodes s.remap
  if pageEdges.length > 0 then ⟨remap,s.chunks ++ [pageEdges],s.edgesSoFar + pageEdges.length⟩ else { s with remap }

def pageLoop (fetchPage : Bytes → List PagedNode) (pageSize : Nat) : Nat → Bytes → Paging → Option Paging
  | 0,_,_ => none
  | fuel+1,cursor,s =>
    let nodes := fetchPage cursor
    let s := parsePage s nodes
    if nodes.length = 0 ∨ nodes.length < pageSize then some s
    else pageLoop fetchPage pageSize fuel ((nodes.getLast?.map (·.uid)).getD cursor) s

structure PagedGraphResult where
  links : List UInt32
  inDegree : List UInt32
  hexByIndex : List Bytes
  nodeCount : Nat
  edgeCount : Nat

def computeInDegree (links : List UInt32) (nodeCount edgeCount : Nat) : List UInt32 :=
  (List.range edgeCount).foldl (fun inDegree e => match links[e * 2 + 1]? with
    | some tgt => Numbering.bump inDegree tgt.toNat
    | none => inDegree) (List.replicate nodeCount 0)

def loadPagedGraph (fetchPage : Bytes → List PagedNode) (pageSize fuel : Nat) : Option PagedGraphResult :=
  (pageLoop fetchPage pageSize fuel (HexNumber.text 0) ⟨[],[],0⟩).map fun s =>
    let edgeCount := s.edgesSoFar
    let nodeCount := s.remap.length
    let links := Wire.fitU32 (s.chunks.flatMap fun chunk => chunk.flatMap fun edge => [UInt32.ofNat edge.1,UInt32.ofNat edge.2]) (edgeCount * 2)
    ⟨links,computeInDegree links nodeCount edgeCount,s.remap.toHexArray,nodeCount,edgeCount⟩

-- The edges of rows, under the numbers of a list.
def edgesUnder (uids : List Bytes) (rows : List DqlNode) : List (Nat × Nat) :=
  rows.flatMap fun n => n.follows.map fun f => (uids.idxOf n.uid,uids.idxOf f)

structure Parsed (uids : List Bytes) (rows : List DqlNode) (s : Paging) : Prop where
  remap : s.remap = Numbering.numbered id (Numbering.sightings [] (stream rows))
  edges : s.chunks.flatten = edgesUnder uids rows
  count : s.edgesSoFar = s.chunks.flatten.length

section Parsed
variable {uids : List Bytes} {rows done : List DqlNode} {s : Paging}

theorem hex_indexOf (seen : List Bytes) (hex : Bytes) :
    HexRemap.indexOf (Numbering.numbered id seen) hex =
      ((Numbering.sight seen hex).idxOf hex,Numbering.numbered id (Numbering.sight seen hex)) :=
  Numbering.assign_numbered id seen hex

theorem follows_parsed (src : Nat) (targets seen : List Bytes) (edges : List (Nat × Nat))
    (later : Numbering.sightings seen targets <+: uids) :
    targets.foldl (parseFollow src) (Numbering.numbered id seen,edges) =
      (Numbering.numbered id (Numbering.sightings seen targets),edges ++ targets.map fun f => (src,uids.idxOf f)) := by
  induction targets generalizing seen edges with
  | nil => rw [List.map_nil,List.append_nil,Numbering.sightings_nil,List.foldl_nil]
  | cons f targets ih =>
    rw [Numbering.sightings_cons] at later ⊢
    have step : parseFollow src (Numbering.numbered id seen,edges) f =
        (Numbering.numbered id (Numbering.sight seen f),edges ++ [(src,uids.idxOf f)]) := by
      unfold parseFollow
      rw [hex_indexOf,idxOf_sight ((Numbering.prefix_sightings _ _).trans later)]
    rw [List.foldl_cons,step,ih _ _ later,List.map_cons,List.append_assoc,List.singleton_append]

theorem envelope_parsed (rows : List DqlNode) (seen : List Bytes) (edges : List (Nat × Nat))
    (later : Numbering.sightings seen (stream rows) <+: uids) :
    (rows.map DqlNode.paged).foldl parseNode (Numbering.numbered id seen,edges) =
      (Numbering.numbered id (Numbering.sightings seen (stream rows)),edges ++ edgesUnder uids rows) := by
  induction rows generalizing seen edges with
  | nil => simp [stream,edgesUnder,Numbering.sightings]
  | cons n rows ih =>
    have split : stream (n :: rows) = n.uid :: n.follows ++ stream rows := rfl
    rw [split,Numbering.sightings_append,Numbering.sightings_cons] at later ⊢
    have row := (Numbering.prefix_sightings _ (stream rows)).trans later
    have step : parseNode (Numbering.numbered id seen,edges) n.paged =
        (Numbering.numbered id (Numbering.sightings (Numbering.sight seen n.uid) n.follows),
          edges ++ n.follows.map fun f => (uids.idxOf n.uid,uids.idxOf f)) := by
      unfold parseNode
      simp only [DqlNode.paged]
      rw [hex_indexOf,idxOf_sight ((Numbering.prefix_sightings _ _).trans row)]
      exact follows_parsed _ _ _ _ row
    rw [List.map_cons,List.foldl_cons,step,ih _ _ later,List.append_assoc]
    rfl

theorem stream_append (left right : List DqlNode) : stream (left ++ right) = stream left ++ stream right := List.flatMap_append

theorem edgesUnder_append (uids : List Bytes) (left right : List DqlNode) :
    edgesUnder uids (left ++ right) = edgesUnder uids left ++ edgesUnder uids right := List.flatMap_append

-- One page more.
theorem Parsed.step (parsed : Parsed uids done s) (later : Numbering.sightings [] (stream (done ++ rows)) <+: uids) :
    Parsed uids (done ++ rows) (parsePage s (rows.map DqlNode.paged)) := by
  rw [stream_append,Numbering.sightings_append] at later
  have page : parseDqlEnvelope (rows.map DqlNode.paged) s.remap =
      (Numbering.numbered id (Numbering.sightings [] (stream (done ++ rows))),edgesUnder uids rows) := by
    unfold parseDqlEnvelope
    rw [parsed.remap,envelope_parsed _ _ _ later,List.nil_append,stream_append,Numbering.sightings_append]
  unfold parsePage
  rw [page]
  simp only
  split
  · refine ⟨rfl,?_,?_⟩
    · rw [List.flatten_concat,parsed.edges,edgesUnder_append]
    · rw [List.flatten_concat,List.length_append,parsed.count]
  · rename_i none
    have none : edgesUnder uids rows = [] := List.length_eq_zero_iff.mp (by omega)
    refine ⟨rfl,?_,parsed.count⟩
    rw [edgesUnder_append,none,List.append_nil]
    exact parsed.edges

theorem pageLoop_rows {fetch : Bytes → List DqlNode} {pageSize : Nat} {cursor : Bytes}
    (read : Paging.Rows fetch (fun cursor page => (page.getLast?.map (·.uid)).getD cursor) pageSize cursor rows) {fuel : Nat}
    (enough : rows.length < fuel) (parsed : Parsed uids done s) (later : Numbering.sightings [] (stream (done ++ rows)) <+: uids) :
    ∃ final, pageLoop (fun c => (fetch c).map DqlNode.paged) pageSize fuel cursor s = some final ∧ Parsed uids (done ++ rows) final := by
  induction read generalizing fuel s done with
  | last cursor short =>
    cases fuel with
    | zero => cases enough
    | succ fuel =>
      refine ⟨_,?_,parsed.step later⟩
      rw [pageLoop,if_pos (.inr (by rwa [List.length_map]))]
  | more cursor rest positive full _ ih =>
    cases fuel with
    | zero => cases enough
    | succ fuel =>
      rw [List.length_append] at enough
      rw [← List.append_assoc] at later ⊢
      have first : Numbering.sightings [] (stream (done ++ fetch cursor)) <+: uids := by
        rw [stream_append,Numbering.sightings_append] at later
        exact (Numbering.prefix_sightings _ _).trans later
      have fewer : rest.length < fuel := by omega
      obtain ⟨final,ends,known⟩ := ih fewer (parsed.step first) later
      refine ⟨final,?_,known⟩
      have again : ¬ (((fetch cursor).map DqlNode.paged).length = 0 ∨ ((fetch cursor).map DqlNode.paged).length < pageSize) := by
        rw [List.length_map]
        omega
      have uid : (((fetch cursor).map DqlNode.paged).getLast?.map PagedNode.uid) = (fetch cursor).getLast?.map DqlNode.uid := by
        rw [List.getLast?_map,Option.map_map]
        rfl
      rw [pageLoop,if_neg again,uid]
      exact ends

theorem toHexArray_numbered (seen : List Bytes) : HexRemap.toHexArray (Numbering.numbered id seen) = seen := by
  have fill (start : Nat) (before tail : List Bytes) (size : before.length = start) :
      ((tail.zipIdx start).map fun entry => (entry.1,id entry.2)).foldl (fun out (entry : Bytes × Nat) => out.set entry.2 entry.1)
        (before ++ List.replicate tail.length []) = before ++ tail := by
    induction tail generalizing start before with
    | nil => simp
    | cons hex tail ih =>
      rw [List.zipIdx_cons,List.map_cons,List.foldl_cons,List.length_cons,List.replicate_succ]
      have put : (before ++ [] :: List.replicate tail.length []).set (id start) hex = (before ++ [hex]) ++ List.replicate tail.length [] := by
        rw [id,List.set_append_right _ _ (by omega)]
        simp [size]
      rw [put,ih (start + 1) (before ++ [hex]) (by simp [size]),List.append_assoc]
      rfl
  have whole := fill 0 [] seen rfl
  unfold HexRemap.toHexArray
  rw [Numbering.length_numbered]
  exact whole
end Parsed

end DeepFry.Explorer
