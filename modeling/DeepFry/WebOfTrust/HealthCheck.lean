import DeepFry.Lib.Grouping
import DeepFry.Lib.HexNumber
import DeepFry.Lib.Paging
import DeepFry.Lib.Tally
import DeepFry.WebOfTrust.Mutators

namespace DeepFry.WebOfTrust
namespace HealthCheck

structure PubkeyNode where
  uid : Str
  pubkey : Str
  kind3CreatedAt : Int
  lastDBUpdate : Int
deriving DecidableEq

-- An absent number reads as zero.
def rowOf (g : Graph) (u : Uid) : PubkeyNode :=
  ⟨HexNumber.text u,(g.node u).pubkey.getD [],(g.node u).kind3CreatedAt.getD 0,(g.node u).lastDbUpdate.getD 0⟩

-- has(pubkey), in the order that the store scans it in.
structure Scan (g : Graph) where
  uids : List Uid
  distinct : uids.Nodup
  complete : ∀ u, u ∈ uids ↔ (g.node u).pubkey.isSome = true

def Scan.rows {g : Graph} (scan : Scan g) : List PubkeyNode := scan.uids.map (rowOf g)

-- nodes(func: has(pubkey), first: .., offset: .., orderasc: pubkey)
def Scan.query {g : Graph} (scan : Scan g) (first offset : Nat) : Except StoreError (List PubkeyNode) :=
  .ok ((scan.rows.drop offset).take first)

-- The callback of a batch never fails here. The fuel bounds the pages that are asked for.
def getAllPubkeysPaginated {σ : Type} (query : Nat → Except StoreError (List PubkeyNode)) (batchSize : Nat) (callback : σ → List PubkeyNode → σ) :
    Nat → Nat → σ → Option (Except StoreError σ)
  | 0,_,_ => none
  | fuel+1,offset,s =>
    match query offset with
    | .error e => some (.error e)
    | .ok nodes =>
      if nodes.length = 0 then some (.ok s)
      else
        let s := callback s nodes
        if nodes.length < batchSize then some (.ok s)
        else getAllPubkeysPaginated query batchSize callback fuel (offset + batchSize) s

structure Collected where
  invalidNodes : List PubkeyNode
  seen : List (Str × List PubkeyNode)
  scanned : Nat

def collect (s : Collected) (node : PubkeyNode) : Collected where
  invalidNodes := if isValidHexPubkey node.pubkey then s.invalidNodes else s.invalidNodes ++ [node]
  seen := Grouping.add node.pubkey node s.seen
  scanned := s.scanned

def scanBatch (s : Collected) (batch : List PubkeyNode) : Collected :=
  let s := batch.foldl collect s
  { s with scanned := s.scanned + batch.length }

-- Priority: highest kind3CreatedAt, then highest last_db_update, then lowest UID.
def less (a b : PubkeyNode) : Bool :=
  if a.kind3CreatedAt ≠ b.kind3CreatedAt then a.kind3CreatedAt > b.kind3CreatedAt
  else if a.lastDBUpdate ≠ b.lastDBUpdate then a.lastDBUpdate > b.lastDBUpdate
  else a.uid < b.uid

def rankNodes (nodes : List PubkeyNode) : List PubkeyNode := nodes.insertionSort fun a b => less b a = false

inductive Verdict where
  | failed (e : StoreError)
  | clean
  | listed
  | aborted
  | purged (uids : List Str)
deriving DecidableEq

-- The groups come in the order that the map is ranged over; the flag and the answer are the operator's.
def decideVerdict (order : Tally.Order (Str × List PubkeyNode)) (purge confirmed : Bool) (s : Collected) : Verdict :=
  let duplicates := (order.order s.seen).filter fun group => group.2.length > 1
  let extraDuplicateNodes := (duplicates.map fun group => group.2.length - 1).sum
  let totalToPurge := s.invalidNodes.length + extraDuplicateNodes
  if totalToPurge = 0 then .clean
  else if !purge then .listed
  else
    let uidsToDelete := s.invalidNodes.map (·.uid) ++ duplicates.flatMap fun group => ((rankNodes group.2).drop 1).map (·.uid)
    if !confirmed then .aborted else .purged uidsToDelete

def healthCheck (query : Nat → Except StoreError (List PubkeyNode)) (batchSize : Nat) (order : Tally.Order (Str × List PubkeyNode))
    (purge confirmed : Bool) (fuel : Nat) : Option Verdict :=
  (getAllPubkeysPaginated query batchSize scanBatch fuel 0 ⟨[],[],0⟩).map fun
    | .error e => .failed e
    | .ok s => decideVerdict order purge confirmed s

-- <uid> * * . for each of the uids, in one transaction that commits.
def deleteNodes (g : Graph) (uids : List Str) : Graph := (uids.map HexNumber.value).foldl Graph.delete g

def Verdict.uids : Verdict → List Str
  | .purged uids => uids
  | _ => []

end HealthCheck
end DeepFry.WebOfTrust
