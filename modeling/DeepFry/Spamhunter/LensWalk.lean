import DeepFry.Lib.Paging
import DeepFry.Query.Resolvers
import DeepFry.Spamhunter.WholeWalk

namespace DeepFry.Spamhunter
open Actor Machine Lmdb Bytes
open DeepFry.Query (Author distinctAuthors)

section Keys
variable {db : Multimap .Event__pubkey} {limit : Nat} {after : Option Bytes}

def authorKeys (db : Multimap .Event__pubkey) : List Bytes :=
  ((db.entries.map fun entry => entry.1.take 32).dedup).insertionSort fun a b => a ≤ b

theorem mem_authorKeys {pk : Bytes} : pk ∈ authorKeys db ↔ Author db pk := by
  simp [authorKeys,Author]

theorem authorKeys_rising (db : Multimap .Event__pubkey) : (authorKeys db).Pairwise (· < ·) := by
  have ordered : (authorKeys db).Pairwise fun a b => a ≤ b := List.pairwise_insertionSort _ _
  have distinct : (authorKeys db).Nodup := (List.perm_insertionSort _ _).nodup_iff.mpr (List.nodup_dedup _)
  exact (ordered.and distinct).imp fun both => lt_of_le_of_ne both.1 both.2

-- The place a cursor stands at in the keys.
def place (db : Multimap .Event__pubkey) (after : Option Bytes) : Nat :=
  match after with
  | none => 0
  | some bound => (authorKeys db).countP fun pk => decide (pk ≤ bound)

theorem drop_place : ∀ pk, pk ∈ (authorKeys db).drop (place db after) ↔ Author db pk ∧ ∀ bound, after = some bound → bound < pk := by
  intro pk
  cases after with
  | none => simp [place,mem_authorKeys]
  | some bound =>
    rw [place,Paging.rising_drop (authorKeys_rising db),List.mem_filter,mem_authorKeys]
    simp

-- A page of the resolver against the keys from its cursor on.
theorem page_front (positive : 0 < limit) (wide : ∀ bound, after = some bound → bound.length = 32) :
    ∃ rest, (authorKeys db).drop (place db after) = (distinctAuthors db after limit).1 ++ rest ∧
      ((distinctAuthors db after limit).2 = none → rest = []) ∧
      ∀ last, (distinctAuthors db after limit).2 = some last →
        place db (some last) = place db after + (distinctAuthors db after limit).1.length := by
  obtain ⟨rising,member,complete,next⟩ := (@DeepFry.Query.distinctAuthors_page db) positive wide
  generalize (distinctAuthors db after limit).1 = page at *
  generalize (distinctAuthors db after limit).2 = cursor at *
  have ordered : ((authorKeys db).drop (place db after)).Pairwise (· < ·) := (authorKeys_rising db).drop
  have front : page <+: (authorKeys db).drop (place db after) := by
    refine Paging.rising_prefix rising ordered (fun pk listed => (drop_place pk).mpr (member pk listed)) ?_
    intro pk listed
    obtain ⟨author,above⟩ := (drop_place pk).mp listed
    refine (complete pk author above).imp_right ?_
    rintro ⟨last,given,below⟩ other here
    exact ((next last given).2 other here).trans_lt below
  obtain ⟨rest,whole⟩ := front
  refine ⟨rest,whole.symm,?_,?_⟩
  · intro ended
    refine List.eq_nil_iff_forall_not_mem.mpr fun pk listed => ?_
    rw [← whole] at ordered
    have here : pk ∈ (authorKeys db).drop (place db after) := whole ▸ List.mem_append_right _ listed
    obtain ⟨author,above⟩ := (drop_place pk).mp here
    rcases complete pk author above with early | ⟨last,given,_⟩
    · exact lt_irrefl pk ((List.pairwise_append.mp ordered).2.2 pk early pk listed)
    · rw [ended] at given
      cases given
  · intro last given
    obtain ⟨listed,top⟩ := next last given
    have split : authorKeys db = (authorKeys db).take (place db after) ++ (page ++ rest) := by rw [whole,List.take_append_drop]
    have climbing := authorKeys_rising db
    rw [split] at climbing
    have counted := Paging.rising_count climbing listed top
    rw [← split,List.length_take] at counted
    have inside : place db after ≤ (authorKeys db).length := by
      cases after with
      | none => exact Nat.zero_le _
      | some bound => exact List.countP_le_length
    rw [place,counted,Nat.min_eq_left inside]

end Keys

section Lens
variable {db : Multimap .Event__pubkey}

def LIMIT : Int32 := 500

-- What the client makes of the resolver's answer.
def lensPage (db : Multimap .Event__pubkey) (after : Option Str) : Except ClientError AuthorsPage :=
  match DeepFry.Query.Resolvers.authors db after (some LIMIT) with
  | .ok page => .ok ⟨page.authors,page.endCursor⟩
  | .error e => .error (.Graphql e.code e.message)

-- The place a cursor text stands at; a refused one stands behind every key.
def lensPlace (db : Multimap .Event__pubkey) (after : Option Str) : Nat :=
  match DeepFry.Query.Resolvers.authorCursor after with
  | .ok cursor => place db cursor
  | .error _ => (authorKeys db).length

theorem authorCursor_wide {after : Option Str} {cursor : Option Bytes} (read : DeepFry.Query.Resolvers.authorCursor after = .ok cursor) :
    ∀ bound, cursor = some bound → bound.length = 32 := by
  unfold DeepFry.Query.Resolvers.authorCursor at read
  split at read
  · cases read
    rintro bound ⟨⟩
  · split at read
    · cases read
    · split at read
      · next width =>
        cases read
        rintro bound ⟨⟩
        exact width
      · cases read

theorem authorCursor_encoded {bound : Bytes} (width : bound.length = 32) :
    DeepFry.Query.Resolvers.authorCursor (some (hexEncode bound)) = .ok (some bound) := by
  simp only [DeepFry.Query.Resolvers.authorCursor,decodeHex_hexEncode,if_pos width]

theorem lensPage_refused {after : Option Str} {e : DeepFry.Query.Resolvers.GqlError}
    (refused : DeepFry.Query.Resolvers.authorCursor after = .error e) : lensPage db after = .error (.Graphql e.code e.message) := by
  rw [lensPage,DeepFry.Query.Resolvers.authors,refused]
  rfl

theorem lensPage_served {after : Option Str} {cursor : Option Bytes} (read : DeepFry.Query.Resolvers.authorCursor after = .ok cursor) :
    lensPage db after = .ok ⟨(distinctAuthors db cursor 500).1.map hexEncode,(distinctAuthors db cursor 500).2.map hexEncode⟩ := by
  have whole : DeepFry.Query.Resolvers.effectiveLimit (some LIMIT) = 500 := by decide
  rw [lensPage,DeepFry.Query.Resolvers.authors,read]
  simp only [Except.map,whole]

theorem lensPlace_read {after : Option Str} {cursor : Option Bytes} (read : DeepFry.Query.Resolvers.authorCursor after = .ok cursor) :
    lensPlace db after = place db cursor := by
  rw [lensPlace,read]

theorem page_wide (cursor : Option Bytes) (wide : ∀ bound, cursor = some bound → bound.length = 32) {last : Bytes}
    (given : (distinctAuthors db cursor 500).2 = some last) : last.length = 32 := by
  obtain ⟨_,member,_,next⟩ := (@DeepFry.Query.distinctAuthors_page db 500) (by decide) wide
  exact DeepFry.Query.author_width (member last (next last given).1).1

-- The lens as a server of the walk.
def lens (db : Multimap .Event__pubkey) : Server where
  keys := (authorKeys db).map hexEncode
  serve after := (lensPage db after).toOption.getD ⟨[],none⟩
  position := lensPlace db
  start := rfl
  serves after := by
    cases read : DeepFry.Query.Resolvers.authorCursor after with
    | error e =>
      rw [lensPage_refused read]
      exact List.nil_prefix
    | ok cursor =>
      obtain ⟨rest,whole,_,_⟩ := @page_front db 500 cursor (by decide) (authorCursor_wide read)
      rw [lensPage_served read,lensPlace_read read,← List.map_drop,whole,List.map_append]
      exact List.prefix_append _ _
  onward after text given := by
    cases read : DeepFry.Query.Resolvers.authorCursor after with
    | error e =>
      rw [lensPage_refused read] at given
      cases given
    | ok cursor =>
      obtain ⟨_,_,_,onward⟩ := @page_front db 500 cursor (by decide) (authorCursor_wide read)
      rw [lensPage_served read] at given ⊢
      obtain ⟨last,found,rfl⟩ := Option.map_eq_some_iff.mp given
      have width := page_wide cursor (authorCursor_wide read) found
      rw [lensPlace_read (authorCursor_encoded width),lensPlace_read read]
      exact (onward last found).trans (congrArg _ (List.length_map hexEncode).symm)
  ending after ended := by
    cases read : DeepFry.Query.Resolvers.authorCursor after with
    | error e =>
      rw [lensPage_refused read,lensPlace,read,List.length_map]
      exact Nat.le_refl _
    | ok cursor =>
      obtain ⟨rest,whole,last,_⟩ := @page_front db 500 cursor (by decide) (authorCursor_wide read)
      rw [lensPage_served read] at ended ⊢
      have none_left := last (Option.map_eq_none_iff.mp ended)
      have lengths := congrArg List.length whole
      rw [none_left,List.append_nil,List.length_drop] at lengths
      rw [lensPlace_read read,List.length_map]
      have size : ((Except.ok (⟨(distinctAuthors db cursor 500).1.map hexEncode,(distinctAuthors db cursor 500).2.map hexEncode⟩ : AuthorsPage) :
          Except ClientError AuthorsPage).toOption.getD ⟨[],none⟩).authors.length = (distinctAuthors db cursor 500).1.length := List.length_map _
      rw [size]
      omega

end Lens

section Enumeration
variable {F : Type} {codec : Codec} {dictCache : DictCache} {snapshot : Lmdb.Snapshot codec dictCache}

-- Every write succeeds and no page limit is set; a page that arrives is what the lens answers for the cursor asked with.
def served (db : Multimap .Event__pubkey) (s : System F) : Action F → Bool
  | .fail | .storeError => false
  | .start _ _ _ limit => limit.isNone
  | .page (.ok page) =>
    match s.phase with
    | .fetch w _ => (lensPage db w.after).toOption == some page
    | _ => true
  | _ => true

theorem served_steady {db : Multimap .Event__pubkey} {s : System F} {action : Action F} (given : served db s action = true) :
    steady (lens db) s action = true := by
  cases action with
  | page answer =>
    cases answer with
    | error e => rfl
    | ok page =>
      simp only [served,steady] at given ⊢
      cases phase : s.phase with
      | fetch w attempt =>
        rw [phase] at given
        have answered : (lensPage db w.after).toOption = some page := eq_of_beq given
        simp only [lens,answered]
        exact decide_eq_true rfl
      | _ => rfl
  | fail | storeError => cases given
  | start _ _ _ limit => exact given
  | _ => rfl

theorem stored_author {pk : Bytes} : Author (snapshot.index .Event__pubkey).toMultimap pk ↔ ∃ event ∈ snapshot.events, event.pubkey = pk := by
  constructor
  · rintro ⟨entry,listed,rfl⟩
    obtain ⟨event,stored,value,owned,rfl⟩ := mem_listing.mp listed
    obtain rfl := List.mem_singleton.mp owned
    exact ⟨event,stored,(List.take_left' event.pubkeyWidth).symm⟩
  · rintro ⟨event,stored,rfl⟩
    refine ⟨(compositeKey event.pubkey event.createdAt,event.levId),mem_listing.mpr ⟨event,stored,event.pubkey,?_,rfl⟩,?_⟩
    · exact List.mem_singleton_self _
    · exact List.take_left' event.pubkeyWidth

theorem hexDigit_lower {n : Nat} (half : n < 16) : (48 ≤ hexDigit n ∧ hexDigit n ≤ 57) ∨ (97 ≤ hexDigit n ∧ hexDigit n ≤ 102) := by
  interval_cases n <;> decide

theorem hexEncode_lower (pk : Bytes) : ∀ b ∈ hexEncode pk, (48 ≤ b ∧ b ≤ 57) ∨ (97 ≤ b ∧ b ≤ 102) := by
  induction pk with
  | nil => exact fun b member => absurd member List.not_mem_nil
  | cons x rest ih =>
    have byte := UInt8.toNat_lt x
    have high : x.toNat / 16 < 16 := by omega
    intro b member
    rcases List.mem_cons.mp member with rfl | member
    · exact hexDigit_lower high
    · rcases List.mem_cons.mp member with rfl | member
      · exact hexDigit_lower (Nat.mod_lt _ (by decide))
      · exact ih b member

theorem hexEncode_valid {pk : Bytes} (width : pk.length = 32) : isValidPubkey (hexEncode pk) = true := by
  have length := decodeHex_length (decodeHex_hexEncode pk)
  have lower : (hexEncode pk).all (fun b => decide ((48 ≤ b ∧ b ≤ 57) ∨ (97 ≤ b ∧ b ≤ 102))) = true :=
    List.all_eq_true.mpr fun b member => decide_eq_true (hexEncode_lower pk b member)
  rw [isValidPubkey,length,width,lower]
  rfl

theorem lens_holds {pk : Str} : (lens (snapshot.index .Event__pubkey).toMultimap).holds pk ↔
    ∃ event ∈ snapshot.events, pk = hexEncode event.pubkey := by
  constructor
  · rintro ⟨listed,_⟩
    obtain ⟨author,known,rfl⟩ := List.mem_map.mp listed
    obtain ⟨event,stored,rfl⟩ := stored_author.mp (mem_authorKeys.mp known)
    exact ⟨event,stored,rfl⟩
  · rintro ⟨event,stored,rfl⟩
    exact ⟨List.mem_map_of_mem (mem_authorKeys.mpr (stored_author.mpr ⟨event,stored,rfl⟩)),hexEncode_valid event.pubkeyWidth⟩

theorem served_reached {db : Multimap .Event__pubkey} {start s : System F × Option Nat}
    (path : Reached (traced noteWalk step) (fun s action => served db s.1 action = true) start s) :
    Reached (traced noteWalk step) (fun s action => steady (lens db) s.1 action = true) start s := by
  induction path with
  | refl => exact .refl
  | step _ allowed moved ih => exact .step ih (served_steady allowed) moved

-- Whatever fails, crashes and is resumed on the way, the table never holds a pubkey without an event, and an enumeration that ends
-- has the author of every stored event, each once.
theorem lens_enumeration {start : System F} (before : Before (lens (snapshot.index .Event__pubkey).toMultimap) start)
    {s : System F × Option Nat}
    (path : Reached (traced noteWalk step) (fun s action => served (snapshot.index .Event__pubkey).toMultimap s.1 action = true) (start,none) s) :
    (∀ pk ∈ s.1.store.committed.pubkey, ∃ event ∈ snapshot.events, pk = hexEncode event.pubkey) ∧
      ∀ runId, s.1.phase = .enumerated runId → s.1.store.committed.pubkey.keys.Nodup ∧
        ∀ pk, pk ∈ s.1.store.committed.pubkey.keys ↔ ∃ event ∈ snapshot.events, pk = hexEncode event.pubkey := by
  obtain ⟨walked,_⟩ := walked_reached before (served_reached path)
  refine ⟨fun pk known => lens_holds.mp (walked.known pk known),fun runId complete => ⟨AList.keys_nodup _,fun pk => ?_⟩⟩
  have landed := walked.paged
  rw [Paged,complete] at landed
  rw [← AList.mem_keys]
  exact ⟨fun known => lens_holds.mp (walked.known pk known),fun stored => landed pk (lens_holds.mpr stored)⟩

end Enumeration

-- Two notes of one author; the first request finds the lens unavailable.
def sampleWalk : List (Action Unit) :=
  [.start false 0 [] none,.stats (.ok 0),.proceed 0,.page (.error .Unavailable),.page (.ok ⟨[hexEncode (List.replicate 32 7)],none⟩),
    .proceed 0,.proceed 0,.receive,.receive,.begin,.commit,.proceed 0,.stats (.ok 0),.proceed 0]

theorem lens_enumeration_sample : ∃ s : System Unit × Option Nat, s.1.phase = .enumerated 1 ∧
    ∀ pk, pk ∈ s.1.store.committed.pubkey.keys ↔ ∃ event ∈ sampleSnapshot.events, pk = hexEncode event.pubkey := by
  obtain ⟨s,path,found⟩ := replay_final (traced noteWalk step)
    (fun s action => served (sampleSnapshot.index .Event__pubkey).toMultimap s.1 action = true) (System.empty,none) sampleWalk
    (fun s => enumeratedRun s.1.phase = some 1) (by decide +kernel) (by decide +kernel)
  have complete := enumeratedRun_some (of_decide_eq_true found)
  have before : Before (lens (sampleSnapshot.index .Event__pubkey).toMultimap) (System.empty : System Unit) :=
    ⟨rfl,rfl,fun pk stored => absurd stored (AList.notMem_empty pk),fun run stored => absurd stored List.not_mem_nil⟩
  exact ⟨s,complete,((lens_enumeration before path).2 1 complete).2⟩

end DeepFry.Spamhunter
