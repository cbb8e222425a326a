import DeepFry.Lib.HexNumber
import DeepFry.Lib.Paging
import DeepFry.Whitelist.Pubkey

namespace DeepFry.Whitelist.Repository
open Paging

-- A Profile node. A uid is positive, so 0 stands for the empty cursor; pubkey: empty where the node has none.
structure Row where
  uid : Nat
  pubkey : Str
deriving DecidableEq

-- The Profile nodes of the store at one time, in uid order.
structure Profiles where
  rows : List Row
  ordered : rows.Pairwise fun a b => a.uid < b.uid
  positive : ∀ row ∈ rows, 0 < row.uid

-- q(func: type(Profile), first: limit, after: after)
def Profiles.page (db : Profiles) (after limit : Nat) : List Row := (beyond Row.uid db.rows after).take limit

def cursorText (after : Nat) : Str := if after = 0 then [] else HexNumber.text after

-- A page's pubkeys, the uid of its last row and its number of rows.
def fetchPubkeysPage (reply : Except Str (List Row)) : Except Str (List Str × Nat × Nat) :=
  reply.map fun rows => ((rows.map Row.pubkey).filter (· ≠ []),(rows.getLast?.map Row.uid).getD 0,rows.length)

-- query: what the i-th request is answered, by its cursor. none while the fuel lasts no further; else also the number of requests.
def fetchAllPubkeysFromDgraph (pageSize : Nat) (query : Nat → Nat → Except Str (List Row)) :
    Nat → Nat → Nat → List Str → Option (Except Str (List Str) × Nat)
  | 0,_,_,_ => none
  | fuel + 1,i,after,allPubkeys =>
    match fetchPubkeysPage (query i after) with
    | .error e =>
      some (.error (Bytes.text "failed to fetch page after uid \"" ++ cursorText after ++ Bytes.text "\": " ++ e),i + 1)
    | .ok (pubkeys,lastUID,rowCount) =>
      if rowCount = 0 then some (.ok allPubkeys,i + 1)
      else if rowCount < pageSize then some (.ok (allPubkeys ++ pubkeys),i + 1)
      else if lastUID = 0 ∨ lastUID = after then some (.ok (allPubkeys ++ pubkeys),i + 1)
      else fetchAllPubkeysFromDgraph pageSize query fuel (i + 1) lastUID (allPubkeys ++ pubkeys)

def getHardcodedPubkeys : List Str :=
  [Bytes.text "f6b07746e51d757fce1a030ef6fbe5dae6805df857f26ddce4e414bc3f983c4d",
    Bytes.text "de6a2fe67d4407511f23d5d8f8dbfd29967b9a345cfed912fdfedf7fbabf570d",
    Bytes.text "d91191e30e00444b942c0e82cad470b32af171764c2275bee0bd99377efd4075",
    Bytes.text "a0dda882fb89732b04793a2c989435fcd89ee559e81291074450edbd9b15621b",
    Bytes.text "ba1838441e720ee91360d38321a19cbf8596e6540cfa045c9c5d429f1a2b9e3a"]

-- The first occurrence of each key stays.
def addUnseen (result : List Str) (key : Str) : List Str := if key ∈ result then result else result ++ [key]

def mergePubkeys (dgraphKeys hardcodedKeys : List Str) : List Str := hardcodedKeys.foldl addUnseen (dgraphKeys.foldl addUnseen [])

def hexTo32ByteArray (hexStr : Str) : Option Bytes32 :=
  match Bytes.decodeHex hexStr with
  | none => none
  | some data => if size : data.length = 32 then some ⟨data,size⟩ else none

-- Strings that are no keys are skipped.
def getAll (pageSize : Nat) (query : Nat → Nat → Except Str (List Row)) (fuel : Nat) : Option (Except Str (List Bytes32) × Nat) :=
  (fetchAllPubkeysFromDgraph pageSize query fuel 0 0 []).map fun (answer,requests) =>
    match answer with
    | .error e => (.error (Bytes.text "failed to fetch pubkeys from Dgraph: " ++ e),requests)
    | .ok dgraphPubkeys => (.ok ((mergePubkeys dgraphPubkeys getHardcodedPubkeys).filterMap hexTo32ByteArray),requests)

-- A store that may be at another state for every request; no request fails unless it is said to.
def serve (db : Nat → Profiles) (pageSize : Nat) (fails : Nat → Option Str) (i after : Nat) : Except Str (List Row) :=
  match fails i with
  | some e => .error e
  | none => .ok ((db i).page after pageSize)

section Walk
variable {pageSize : Nat} {db : Nat → Profiles} {fails : Nat → Option Str}

-- What a walk that has read all gathers from here on, and at which requests.
structure Gathered (db : Nat → Profiles) (i after : Nat) (all keys : List Str) (n : Nat) : Prop where
  kept : ∀ pk ∈ all, pk ∈ keys
  sound : ∀ pk ∈ keys, pk ∈ all ∨ ∃ j, i ≤ j ∧ j < n ∧ ∃ row ∈ (db j).rows, row.pubkey = pk
  complete : ∀ row, (∀ j, i ≤ j → j < n → row ∈ (db j).rows) → after < row.uid → row.pubkey ≠ [] → row.pubkey ∈ keys

def named (rows : List Row) : List Str := (rows.map Row.pubkey).filter (· ≠ [])

theorem mem_named {rows : List Row} {pk : Str} : pk ∈ named rows ↔ (∃ row ∈ rows, row.pubkey = pk) ∧ pk ≠ [] := by
  simp [named]

theorem page_subset (after limit : Nat) (d : Profiles) : ∀ row ∈ d.page after limit, row ∈ d.rows ∧ after < row.uid := by
  intro row member
  obtain ⟨inside,later⟩ := List.mem_filter.mp (List.mem_of_mem_take member)
  exact ⟨inside,of_decide_eq_true later⟩

-- The last page of a walk.
theorem gathered_last {i after : Nat} {all : List Str} (whole : ∀ row ∈ (db i).rows, after < row.uid → row ∈ (db i).page after pageSize) :
    Gathered db i after all (all ++ named ((db i).page after pageSize)) (i + 1) := by
  refine ⟨fun pk old => List.mem_append_left _ old,fun pk member => ?_,fun row there later given => ?_⟩
  · refine (List.mem_append.mp member).imp_right fun new => ?_
    obtain ⟨⟨row,inside,same⟩,_⟩ := mem_named.mp new
    exact ⟨i,Nat.le_refl i,Nat.lt_succ_self i,row,(page_subset _ _ _ row inside).1,same⟩
  · have inside := whole row (there i (Nat.le_refl i) (Nat.lt_succ_self i)) later
    exact List.mem_append_right _ (mem_named.mpr ⟨⟨row,inside,rfl⟩,given⟩)

theorem page_short {i after : Nat} (short : ((db i).page after pageSize).length < pageSize) :
    (db i).page after pageSize = beyond Row.uid (db i).rows after := by
  have few : (beyond Row.uid (db i).rows after).length ≤ pageSize := by
    rw [Profiles.page,List.length_take] at short
    omega
  exact List.take_of_length_le few

theorem whole_short {i after : Nat} (short : ((db i).page after pageSize).length < pageSize) :
    ∀ row ∈ (db i).rows, after < row.uid → row ∈ (db i).page after pageSize := by
  intro row member later
  rw [page_short short]
  exact List.mem_filter.mpr ⟨member,decide_eq_true later⟩

theorem page_last {i after : Nat} {last : Row} (found : ((db i).page after pageSize).getLast? = some last) :
    after < last.uid ∧ lastKey Row.uid after ((db i).page after pageSize) = last.uid := by
  refine ⟨(page_subset _ _ _ last (List.mem_of_getLast? found)).2,?_⟩
  rw [lastKey,found]
  rfl

theorem gathered_more {i after n last : Nat} {all keys : List Str} (positive : 0 < pageSize)
    (full : ((db i).page after pageSize).length = pageSize) (final : lastKey Row.uid after ((db i).page after pageSize) = last)
    (bound : i < n) (rest : Gathered db (i + 1) last (all ++ named ((db i).page after pageSize)) keys n) :
    Gathered db i after all keys n := by
  refine ⟨fun pk old => rest.kept pk (List.mem_append_left _ old),fun pk member => ?_,fun row there later given => ?_⟩
  · rcases rest.sound pk member with before | ⟨j,least,less,row,inside,same⟩
    · refine (List.mem_append.mp before).imp_right fun new => ?_
      obtain ⟨⟨row,inside,same⟩,_⟩ := mem_named.mp new
      exact ⟨i,Nat.le_refl i,bound,row,(page_subset _ _ _ row inside).1,same⟩
    · exact .inr ⟨j,Nat.le_of_succ_le least,less,row,inside,same⟩
  · rcases page_or_beyond Row.uid (db i).ordered (there i (Nat.le_refl i) bound) later positive full with page | beyond
    · exact rest.kept _ (List.mem_append_right _ (mem_named.mpr ⟨⟨row,page,rfl⟩,given⟩))
    · change lastKey Row.uid after ((db i).page after pageSize) < row.uid at beyond
      rw [final] at beyond
      exact rest.complete row (fun j least => there j (Nat.le_of_succ_le least)) beyond given

-- One request of the walk, where it does not fail.
theorem fetch_step (fuel i after : Nat) (all : List Str) (answered : fails i = none) :
    fetchAllPubkeysFromDgraph pageSize (serve db pageSize fails) (fuel + 1) i after all =
      match ((db i).page after pageSize).getLast? with
      | none => some (.ok all,i + 1)
      | some last =>
        if ((db i).page after pageSize).length < pageSize then some (.ok (all ++ named ((db i).page after pageSize)),i + 1)
        else fetchAllPubkeysFromDgraph pageSize (serve db pageSize fails) fuel (i + 1) last.uid (all ++ named ((db i).page after pageSize)) := by
  rw [fetchAllPubkeysFromDgraph,serve,answered]
  simp only [fetchPubkeysPage,Except.map]
  cases found : ((db i).page after pageSize).getLast? with
  | none => rw [if_pos (by rw [List.getLast?_eq_none_iff.mp found]; rfl)]
  | some last =>
    have some_rows : ((db i).page after pageSize).length ≠ 0 := by
      intro none
      rw [List.length_eq_zero_iff.mp none] at found
      cases found
    have later := (page_last found).1
    rw [if_neg some_rows]
    simp only [Option.map_some,Option.getD_some]
    rw [if_neg (show ¬(last.uid = 0 ∨ last.uid = after) by omega)]
    rfl

theorem walk_gathered (positive : 0 < pageSize) {fuel i after n : Nat} {all keys : List Str}
    (read : fetchAllPubkeysFromDgraph pageSize (serve db pageSize fails) fuel i after all = some (.ok keys,n)) :
    i < n ∧ Gathered db i after all keys n := by
  induction fuel generalizing i after all with
  | zero => cases read
  | succ fuel ih =>
    cases failed : fails i with
    | some e =>
      rw [fetchAllPubkeysFromDgraph,serve,failed] at read
      cases read
    | none =>
      rw [fetch_step fuel i after all failed] at read
      cases found : ((db i).page after pageSize).getLast? with
      | none =>
        rw [found] at read
        cases read
        have empty := List.getLast?_eq_none_iff.mp found
        have last : Gathered db i after keys (keys ++ named ((db i).page after pageSize)) (i + 1) :=
          gathered_last (whole_short (by rw [empty]; exact positive))
        rw [empty,named,List.map_nil,List.filter_nil,List.append_nil] at last
        exact ⟨Nat.lt_succ_self i,last⟩
      | some last =>
        rw [found] at read
        simp only at read
        split at read
        · next short =>
          cases read
          exact ⟨Nat.lt_succ_self i,gathered_last (whole_short short)⟩
        · next long =>
          obtain ⟨bound,rest⟩ := ih read
          have most : ((db i).page after pageSize).length ≤ pageSize := List.length_take_le _ _
          exact ⟨by omega,gathered_more positive (by omega) (page_last found).2 (by omega) rest⟩

-- The cursor rises with every request, so uids that stay below a bound end the walk.
theorem walk_ends {bound : Nat} (below : ∀ j, ∀ row ∈ (db j).rows, row.uid ≤ bound) (fuel i after : Nat) (all : List Str)
    (enough : bound < after + fuel) (reached : after ≤ bound) :
    ∃ answer, fetchAllPubkeysFromDgraph pageSize (serve db pageSize fails) fuel i after all = some answer := by
  induction fuel generalizing i after all with
  | zero => omega
  | succ fuel ih =>
    cases failed : fails i with
    | some e =>
      rw [fetchAllPubkeysFromDgraph,serve,failed]
      exact ⟨_,rfl⟩
    | none =>
      rw [fetch_step fuel i after all failed]
      cases found : ((db i).page after pageSize).getLast? with
      | none => exact ⟨_,rfl⟩
      | some last =>
        simp only
        split
        · exact ⟨_,rfl⟩
        · have later := (page_last found).1
          have high := below i last (page_subset _ _ _ last (List.mem_of_getLast? found)).1
          exact ih (i + 1) last.uid _ (by omega) high

theorem mem_addUnseen (keys result : List Str) {pk : Str} : pk ∈ keys.foldl addUnseen result ↔ pk ∈ result ∨ pk ∈ keys := by
  induction keys generalizing result with
  | nil => simp
  | cons key rest ih =>
    rw [List.foldl_cons,ih,addUnseen]
    split
    · next seen =>
      rw [List.mem_cons]
      constructor
      · exact Or.imp_right .inr
      · rintro (old | rfl | later)
        · exact .inl old
        · exact .inl seen
        · exact .inr later
    · rw [List.mem_append,List.mem_singleton,List.mem_cons,or_assoc]

theorem mem_mergePubkeys {dgraphKeys hardcodedKeys : List Str} {pk : Str} :
    pk ∈ mergePubkeys dgraphKeys hardcodedKeys ↔ pk ∈ dgraphKeys ∨ pk ∈ hardcodedKeys := by
  rw [mergePubkeys,mem_addUnseen,mem_addUnseen]
  simp

theorem hexTo32ByteArray_given {pk : Str} {k : Bytes32} (decoded : hexTo32ByteArray pk = some k) : pk ≠ [] := by
  rintro rfl
  cases decoded

-- The keys of a walk: each was read or is hardcoded, and no profile that stood through the walk is missed.
theorem walk_keys (positive : 0 < pageSize) {fuel n : Nat} {keys : List Bytes32}
    (read : getAll pageSize (serve db pageSize fails) fuel = some (.ok keys,n)) :
    (∀ k ∈ keys, (∃ j < n, ∃ row ∈ (db j).rows, hexTo32ByteArray row.pubkey = some k) ∨
      ∃ pk ∈ getHardcodedPubkeys, hexTo32ByteArray pk = some k) ∧
    (∀ row, (∀ j < n, row ∈ (db j).rows) → ∀ k, hexTo32ByteArray row.pubkey = some k → k ∈ keys) ∧
    ∀ pk ∈ getHardcodedPubkeys, ∀ k, hexTo32ByteArray pk = some k → k ∈ keys := by
  obtain ⟨⟨answer,m⟩,walked,same⟩ := Option.map_eq_some_iff.mp read
  cases answer with
  | error e => cases same
  | ok pubkeys =>
    cases same
    obtain ⟨seen,gathered⟩ := walk_gathered positive walked
    refine ⟨fun k member => ?_,fun row there k decoded => ?_,fun pk hard k decoded => ?_⟩
    · obtain ⟨pk,merged,decoded⟩ := List.mem_filterMap.mp member
      rcases mem_mergePubkeys.mp merged with read | hard
      · obtain old | ⟨j,_,less,row,inside,rfl⟩ := gathered.sound pk read
        · cases old
        · exact .inl ⟨j,less,row,inside,decoded⟩
      · exact .inr ⟨pk,hard,decoded⟩
    · have present := (db 0).positive row (there 0 seen)
      have found := gathered.complete row (fun j _ less => there j less) present (hexTo32ByteArray_given decoded)
      exact List.mem_filterMap.mpr ⟨_,mem_mergePubkeys.mpr (.inl found),decoded⟩
    · exact List.mem_filterMap.mpr ⟨pk,mem_mergePubkeys.mpr (.inr hard),decoded⟩

-- A walk with a failed request gives no list at all.
theorem walk_unfailed {fuel i after n : Nat} {all keys : List Str}
    (read : fetchAllPubkeysFromDgraph pageSize (serve db pageSize fails) fuel i after all = some (.ok keys,n)) :
    ∀ j, i ≤ j → j < n → fails j = none := by
  induction fuel generalizing i after all with
  | zero => cases read
  | succ fuel ih =>
    cases failed : fails i with
    | some e =>
      rw [fetchAllPubkeysFromDgraph,serve,failed] at read
      cases read
    | none =>
      have own : ∀ j, i ≤ j → j < i + 1 → fails j = none := by
        intro j least less
        obtain rfl : j = i := by omega
        exact failed
      rw [fetch_step fuel i after all failed] at read
      split at read
      · cases read; exact own
      · split at read
        · cases read; exact own
        · intro j least less
          by_cases here : j = i
          · rw [here]
            exact failed
          · exact ih read j (by omega) less

theorem getAll_exact (positive : 0 < pageSize) :
    (∀ fuel keys n, getAll pageSize (serve db pageSize fails) fuel = some (.ok keys,n) →
      (∀ k ∈ keys, (∃ j < n, ∃ row ∈ (db j).rows, hexTo32ByteArray row.pubkey = some k) ∨
        ∃ pk ∈ getHardcodedPubkeys, hexTo32ByteArray pk = some k) ∧
      (∀ row, (∀ j < n, row ∈ (db j).rows) → ∀ k, hexTo32ByteArray row.pubkey = some k → k ∈ keys) ∧
      (∀ pk ∈ getHardcodedPubkeys, ∀ k, hexTo32ByteArray pk = some k → k ∈ keys) ∧
      ∀ j < n, fails j = none) ∧
    ∀ bound, (∀ j, ∀ row ∈ (db j).rows, row.uid ≤ bound) →
      ∃ answer, getAll pageSize (serve db pageSize fails) (bound + 1) = some answer := by
  refine ⟨fun fuel keys n read => ?_,fun bound below => ?_⟩
  · obtain ⟨sound,complete,hardcoded⟩ := walk_keys positive read
    refine ⟨sound,complete,hardcoded,fun j less => ?_⟩
    obtain ⟨⟨answer,m⟩,walked,same⟩ := Option.map_eq_some_iff.mp read
    cases answer with
    | error e => cases same
    | ok pubkeys =>
      cases same
      exact walk_unfailed walked j (Nat.zero_le j) less
  · obtain ⟨answer,walked⟩ : ∃ answer, fetchAllPubkeysFromDgraph pageSize (serve db pageSize fails) (bound + 1) 0 0 [] = some answer :=
      walk_ends below (bound + 1) 0 0 [] (by omega) (by omega)
    exact ⟨_,Option.map_eq_some_iff.mpr ⟨answer,walked,rfl⟩⟩

end Walk

-- Two profiles, the second one made after the first page was read.
def early : Profiles := ⟨[⟨1,List.replicate 64 97⟩],by decide,by decide⟩

def late : Profiles := ⟨[⟨1,List.replicate 64 97⟩,⟨2,List.replicate 64 98⟩],by decide,by decide⟩

def growing (i : Nat) : Profiles := if i = 0 then early else late

theorem getAll_exact_sample : ∃ keys n, getAll 1 (serve growing 1 fun _ => none) 3 = some (.ok keys,n) ∧
    ∀ k, hexTo32ByteArray (List.replicate 64 97) = some k → k ∈ keys := by
  obtain ⟨walks,ends⟩ := @getAll_exact 1 growing (fun _ => none) (by decide)
  have three : (getAll 1 (serve growing 1 fun _ => none) 3).any (fun answer => answer.1.isOk && answer.2 = 3) = true := by decide +kernel
  obtain ⟨⟨answer,n⟩,read,ok⟩ := (Option.any_eq_true _ _).mp three
  cases answer with
  | error e => cases ok
  | ok keys =>
    obtain ⟨-,complete,-⟩ := walks 3 keys n read
    refine ⟨keys,n,read,complete ⟨1,List.replicate 64 97⟩ fun j less => ?_⟩
    unfold growing
    split <;> decide

end DeepFry.Whitelist.Repository
