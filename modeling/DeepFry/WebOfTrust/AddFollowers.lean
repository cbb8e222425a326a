import DeepFry.WebOfTrust.Graph

namespace DeepFry.WebOfTrust
abbrev Table (κ ν : Type) := AList fun _ : κ => ν

def batchSize : Nat := 200

def chunkSlice {α : Type} (size : Nat) (items : List α) : List (List α) :=
  if size = 0 then [] else (List.range ((items.length + size - 1) / size)).map fun i => (items.drop (i * size)).take size

-- Added are the names of updated that existing lacks, removed those of existing that updated lacks.
def followerCountDelta (existing : Table Str Uid) (updated : List Str) : List Str × List Str :=
  ((updated.filter (· ∉ existing)).insertionSort (· ≤ ·),(existing.keys.filter (· ∉ updated)).insertionSort (· ≤ ·))

inductive Phase where
  | queryFollower
  | createFollower
  | updateFollowerTimestamps
  | removeExistingFollows
  | resolveFollowees
  | createMissingFollowees
  | createFollowEdges
  | readFollowerCounts
  | updateFollowerCounts
  | commitTransaction
deriving DecidableEq

def Phase.failure : Phase → Str
  | .queryFollower => Bytes.text "query follower failed: "
  | .createFollower => Bytes.text "create follower failed: "
  | .updateFollowerTimestamps => Bytes.text "update follower timestamps failed: "
  | .removeExistingFollows => Bytes.text "remove existing follows failed: "
  | .resolveFollowees => Bytes.text "bulk query followees failed: "
  | .createMissingFollowees => Bytes.text "create missing followees failed: "
  | .createFollowEdges => Bytes.text "create follow edges failed: "
  | .readFollowerCounts => Bytes.text "read follower_count failed: "
  | .updateFollowerCounts => Bytes.text "update follower_count failed: "
  | .commitTransaction => Bytes.text "commit transaction failed: "

structure FollowUpdateError where
  pubkey : Str
  followCount : Nat
  phase : Option Phase
  outcome : Str
  underlying : StoreError
deriving DecidableEq

-- The keys of the follows map, in the order the loop over it meets them.
structure Kind3 where
  signer : Str
  createdAt : Int
  follows : List Str
  distinct : follows.Nodup
deriving DecidableEq

-- Which call to the store fails, by its phase and window.
abbrev Faults := Phase → Nat → Option StoreError

def fail (e : Kind3) (phase : Option Phase) (underlying : StoreError) : FollowUpdateError :=
  ⟨e.signer,e.follows.length,phase,
    if isTransientError underlying then Bytes.text "transient_error" else Bytes.text "fatal_error",underlying⟩

def call (e : Kind3) (fault : Faults) (phase : Phase) (window : Nat) : Except FollowUpdateError Unit :=
  match fault phase window with
  | none => .ok ()
  | some error => .error (fail e (some phase) ⟨error.code,phase.failure ++ error.message⟩)

def newSigner (e : Kind3) (now : Int) : Node :=
  { Node.empty with
    pubkey := some e.signer, profile := true, kind3CreatedAt := some e.createdAt, lastDbUpdate := some now
    followerCount := some 0, uncrawled := some 1 }

def stub (followee : Str) : Node :=
  { Node.empty with pubkey := some followee, profile := true, followerCount := some 1, uncrawled := some 1 }

structure Resolution where
  graph : Graph
  uids : List (Str × Uid)
  created : List Str

def resolveOne (lease : Lease) (r : Resolution) : Str × Option Uid → Resolution
  | (followee,some u) => { r with uids := r.uids ++ [(followee,u)] }
  | (followee,none) =>
    { graph := r.graph.alloc lease (stub followee)
      uids := r.uids ++ [(followee,lease.pick r.graph.uids)]
      created := r.created ++ [followee] }

-- One query answers for the whole window before the missing followees are created.
def resolveWindow (lease : Lease) (window : List Str) (r : Resolution) : Resolution :=
  (window.map fun followee => (followee,(r.graph.eqPubkey followee).head?)).foldl (resolveOne lease) r

def resolveFollowees (e : Kind3) (fault : Faults) (lease : Lease) :
    Nat → List (List Str) → Resolution → Except FollowUpdateError Resolution
  | _,[],r => .ok r
  | i,window :: rest,r => do
    call e fault .resolveFollowees i
    let next := resolveWindow lease window r
    if next.created.length ≠ r.created.length then call e fault .createMissingFollowees i
    resolveFollowees e fault lease (i+1) rest next

def mutateWindows {α : Type} (e : Kind3) (fault : Faults) (phase : Phase) (set : Graph → α → Graph) :
    Nat → List (List α) → Graph → Except FollowUpdateError Graph
  | _,[],g => .ok g
  | i,window :: rest,g => do
    call e fault phase i
    mutateWindows e fault phase set (i+1) rest (window.foldl set g)

def setEdge (s : Uid) (g : Graph) (u : Uid) : Graph := g.modify s fun n => { n with follows := n.follows.insert u }

def setCount (g : Graph) (line : Uid × Int) : Graph := g.modify line.1 fun n => { n with followerCount := some line.2 }

def existingFollows (g : Graph) (s : Uid) : Table Str Uid :=
  ((g.node s).follows.insertionSort (· ≤ ·)).foldl (fun m u => m.insert ((g.node u).pubkey.getD []) u) ∅

-- A stub made in this write already counts its signer.
def adjustments (existing : Table Str Uid) (followees created : List Str) : List (Str × Int) :=
  let (added,removed) := followerCountDelta existing followees
  (added.filter (· ∉ created)).map (·,1) ++ removed.map (·,-1)

-- The absolute values to write: the counts as read, adjusted and kept from going below zero.
def countLines (g : Graph) (existing : Table Str Uid) (r : Resolution) (adjust : List (Str × Int)) : List (Uid × Int) :=
  adjust.filterMap fun (pk,d) =>
    (if d < 0 then existing.lookup pk else r.uids.lookup pk).map fun u => (u,max 0 ((g.node u).followerCount.getD 0 + d))

def maintainCounts (e : Kind3) (fault : Faults) (existing : Table Str Uid) (followees : List Str) (r : Resolution) (g : Graph) :
    Except FollowUpdateError Graph :=
  let lines := countLines g existing r (adjustments existing followees r.created)
  if lines.isEmpty then .ok g
  else do
    call e fault .readFollowerCounts 0
    mutateWindows e fault .updateFollowerCounts setCount 0 (chunkSlice batchSize lines) g

def removeExisting (e : Kind3) (fault : Faults) (s : Uid) (existing : Table Str Uid) (g : Graph) : Except FollowUpdateError Graph :=
  if existing.entries.isEmpty then .ok g
  else do
    call e fault .removeExistingFollows 0
    let gone := existing.entries.map (·.2)
    return g.modify s fun n => { n with follows := n.follows.filter (· ∉ gone) }

def replaceFollows (e : Kind3) (fault : Faults) (lease : Lease) (now : Int) (s : Uid) (existing : Table Str Uid) (g : Graph) :
    Except FollowUpdateError Graph := do
  let followees := e.follows.filter isValidHexPubkey
  call e fault .updateFollowerTimestamps 0
  let g ← removeExisting e fault s existing
    (g.modify s fun n => { n with kind3CreatedAt := some e.createdAt, lastDbUpdate := some now })
  let r ← resolveFollowees e fault lease 0 (chunkSlice batchSize followees) ⟨g,[],[]⟩
  let g ← mutateWindows e fault .createFollowEdges (setEdge s) 0 (chunkSlice batchSize (r.uids.map (·.2))) r.graph
  let g ← maintainCounts e fault existing followees r g
  call e fault .commitTransaction 0
  return g

def INVALID_SIGNER (signer : Str) : StoreError :=
  ⟨none,Bytes.text "invalid signer pubkey " ++ signer ++ Bytes.text ": must be 64 hex chars"⟩

def addFollowersTxn (e : Kind3) (fault : Faults) (lease : Lease) (now : Int) (g : Graph) : Except FollowUpdateError Graph :=
  if isValidHexPubkey e.signer then do
    call e fault .queryFollower 0
    match (g.eqPubkey e.signer).head? with
    | none =>
      call e fault .createFollower 0
      replaceFollows e fault lease now (lease.pick g.uids) ∅ (g.alloc lease (newSigner e now))
    | some s =>
      -- an event that is not newer is skipped
      if e.createdAt ≤ (g.node s).kind3CreatedAt.getD 0 then return g
      else replaceFollows e fault lease now s (existingFollows g s) g
  else .error (fail e none (INVALID_SIGNER e.signer))

-- Unless the commit succeeds the transaction is discarded.
def addFollowers (e : Kind3) (fault : Faults) (lease : Lease) (now : Int) (g : Graph) : Except FollowUpdateError Unit × Graph :=
  match addFollowersTxn e fault lease now g with
  | .error error => (.error error,g)
  | .ok next => (.ok (),next)

section Windows
variable {α : Type} {e : Kind3} {fault : Faults} {phase : Phase} {i : Nat}

theorem bind_ok {ε β γ : Type} {x : Except ε β} {f : β → Except ε γ} {c : γ} (done : (x >>= f) = .ok c) :
    ∃ b, x = .ok b ∧ f b = .ok c := by
  cases x with
  | error => cases done
  | ok b => exact ⟨b,rfl,done⟩

theorem chunkSlice_flatten {size : Nat} (positive : 0 < size) (items : List α) : (chunkSlice size items).flatten = items := by
  have prefixes : ∀ count : Nat, ((List.range count).map fun i => (items.drop (i * size)).take size).flatten = items.take (count * size) := by
    intro count
    induction count with
    | zero => simp
    | succ count ih =>
      rw [List.range_succ,List.map_append,List.flatten_append,ih,Nat.succ_mul,List.take_add]
      simp
  rw [chunkSlice,if_neg (Nat.ne_of_gt positive),prefixes]
  apply List.take_of_length_le
  have whole := Nat.div_add_mod (items.length + size - 1) size
  have rest := Nat.mod_lt (items.length + size - 1) positive
  rw [Nat.mul_comm] at whole
  omega

theorem mutateWindows_ok {set : Graph → α → Graph} {windows : List (List α)} {g next : Graph}
    (done : mutateWindows e fault phase set i windows g = .ok next) : next = windows.flatten.foldl set g := by
  induction windows generalizing i g with
  | nil => cases done; rfl
  | cons window rest ih =>
    obtain ⟨_,_,later⟩ := bind_ok done
    rw [List.flatten_cons,List.foldl_append,ih later]

theorem resolveFollowees_ok {lease : Lease} {windows : List (List Str)} {r next : Resolution}
    (done : resolveFollowees e fault lease i windows r = .ok next) :
    next = windows.foldl (fun r window => resolveWindow lease window r) r := by
  induction windows generalizing i r with
  | nil => cases done; rfl
  | cons window rest ih =>
    obtain ⟨_,_,later⟩ := bind_ok done
    dsimp only at later
    split at later
    · obtain ⟨_,_,later⟩ := bind_ok later
      rw [List.foldl_cons,ih later]
    · rw [List.foldl_cons,ih later]
end Windows

-- What a replacement leaves behind when no call to the store fails.
def cleared (e : Kind3) (now : Int) (s : Uid) (existing : Table Str Uid) (g : Graph) : Graph :=
  let stamped := g.modify s fun n => { n with kind3CreatedAt := some e.createdAt, lastDbUpdate := some now }
  if existing.entries.isEmpty then stamped
  else stamped.modify s fun n => { n with follows := n.follows.filter (· ∉ existing.entries.map (·.2)) }

def resolved (lease : Lease) (followees : List Str) (g : Graph) : Resolution :=
  (chunkSlice batchSize followees).foldl (fun r window => resolveWindow lease window r) ⟨g,[],[]⟩

def linked (s : Uid) (r : Resolution) : Graph := (r.uids.map (·.2)).foldl (setEdge s) r.graph

def counted (existing : Table Str Uid) (followees : List Str) (r : Resolution) (g : Graph) : Graph :=
  (countLines g existing r (adjustments existing followees r.created)).foldl setCount g

def replacement (e : Kind3) (lease : Lease) (now : Int) (s : Uid) (existing : Table Str Uid) (g : Graph) : Graph :=
  let followees := e.follows.filter isValidHexPubkey
  let r := resolved lease followees (cleared e now s existing g)
  counted existing followees r (linked s r)

theorem replaceFollows_ok {e : Kind3} {fault : Faults} {lease : Lease} {now : Int} {s : Uid} {existing : Table Str Uid}
    {g next : Graph} (done : replaceFollows e fault lease now s existing g = .ok next) :
    next = replacement e lease now s existing g := by
  obtain ⟨_,_,done⟩ := bind_ok done
  obtain ⟨g₁,removed,done⟩ := bind_ok done
  obtain ⟨r,resolves,done⟩ := bind_ok done
  obtain ⟨g₂,links,done⟩ := bind_ok done
  obtain ⟨g₃,counts,done⟩ := bind_ok done
  obtain ⟨_,_,done⟩ := bind_ok done
  cases done
  have first : g₁ = cleared e now s existing g := by
    unfold removeExisting at removed
    unfold cleared
    dsimp only
    split at removed
    · rename_i empty
      cases removed
      rw [if_pos empty]
    · rename_i present
      obtain ⟨_,_,removed⟩ := bind_ok removed
      cases removed
      rw [if_neg present]
  have second : r = resolved lease (e.follows.filter isValidHexPubkey) g₁ := resolveFollowees_ok resolves
  have third : g₂ = linked s r := by
    rw [mutateWindows_ok links,chunkSlice_flatten (by decide)]
    rfl
  have fourth : next = counted existing (e.follows.filter isValidHexPubkey) r g₂ := by
    unfold maintainCounts at counts
    unfold counted
    dsimp only at counts
    split at counts
    · rename_i empty
      cases counts
      rw [List.isEmpty_iff.mp empty]
      rfl
    · obtain ⟨_,_,counts⟩ := bind_ok counts
      rw [mutateWindows_ok counts,chunkSlice_flatten (by decide)]
  rw [fourth,third,second,first]
  rfl

-- Everything a call can do: fail, skip, or replace the follows of a known or a new signer.
inductive Written (e : Kind3) (lease : Lease) (now : Int) (g : Graph) : Except FollowUpdateError Unit × Graph → Prop where
  | failed (error : FollowUpdateError) : Written e lease now g (.error error,g)
  | skipped (s : Uid) : (g.eqPubkey e.signer).head? = some s → e.createdAt ≤ (g.node s).kind3CreatedAt.getD 0 →
      Written e lease now g (.ok (),g)
  | replaced (s : Uid) : isValidHexPubkey e.signer = true → (g.eqPubkey e.signer).head? = some s →
      (g.node s).kind3CreatedAt.getD 0 < e.createdAt →
      Written e lease now g (.ok (),replacement e lease now s (existingFollows g s) g)
  | created : isValidHexPubkey e.signer = true → (g.eqPubkey e.signer).head? = none →
      Written e lease now g (.ok (),replacement e lease now (lease.pick g.uids) ∅ (g.alloc lease (newSigner e now)))

theorem addFollowers_written (e : Kind3) (fault : Faults) (lease : Lease) (now : Int) (g : Graph) :
    Written e lease now g (addFollowers e fault lease now g) := by
  unfold addFollowers
  split
  · exact .failed _
  · rename_i next done
    unfold addFollowersTxn at done
    split at done
    · rename_i valid
      obtain ⟨_,_,done⟩ := bind_ok done
      split at done
      · rename_i unknown
        obtain ⟨_,_,done⟩ := bind_ok done
        rw [replaceFollows_ok done]
        exact .created valid unknown
      · rename_i s known
        split at done
        · rename_i stale
          cases done
          exact .skipped s known stale
        · rename_i newer
          rw [replaceFollows_ok done]
          exact .replaced s valid known (not_le.mp newer)
    · cases done

end DeepFry.WebOfTrust
