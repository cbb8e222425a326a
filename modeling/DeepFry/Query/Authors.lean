import DeepFry.Lib.SkipScan
import DeepFry.Lmdb.Scan

namespace DeepFry.Query
open Lmdb Bytes

-- The source walks from the last byte to the first; here the least significant byte comes first.
def carryUp : Bytes → Option Bytes
  | [] => none
  | b :: rest => if b = 255 then (carryUp rest).map (0 :: ·) else some ((b + 1) :: rest)

def incrementBe (pk : Bytes) : Option Bytes := (carryUp pk.reverse).map List.reverse

def makeSeekKey (pk : Bytes) : Bytes := pk ++ List.replicate 8 0

-- The seek-skip loop: one seek an author, then past all of the author's entries.
def authorsLoop (db : Multimap .Event__pubkey) : Nat → Bytes → List Bytes
  | 0,_ => []
  | limit+1,seekKey =>
    match (db.range (.Included seekKey)).head? with
    | none => []
    | some (key,_) =>
      if key.length < 32 then []
      else
        let pubkey := key.take 32
        pubkey ::
          match incrementBe pubkey with
          | some nextPk => authorsLoop db limit (makeSeekKey nextPk)
          | none => []

def distinctAuthors (db : Multimap .Event__pubkey) (after : Option Bytes) (limit : Nat) : List Bytes × Option Bytes :=
  let initialPk := match after with
    | some pk => incrementBe pk
    | none => some (List.replicate 32 0)
  match initialPk with
  | none => ([],none)
  | some pk =>
    let result := authorsLoop db limit (makeSeekKey pk)
    (result,if result.length = limit then result.getLast? else none)

-- Follow the cursor page by page, at most maxPages pages.
def allAuthors (db : Multimap .Event__pubkey) (limit : Nat) : Nat → Option Bytes → Option (List Bytes)
  | 0,_ => none
  | maxPages+1,after =>
    match distinctAuthors db after limit with
    | (authors,none) => some authors
    | (authors,some last) => (allAuthors db limit maxPages (some last)).map (authors ++ ·)

theorem carryUp_value (bytes : Bytes) :
    (∀ next, carryUp bytes = some next → next.length = bytes.length ∧ fromLe next = fromLe bytes + 1) ∧
      (carryUp bytes = none → fromLe bytes + 1 = 256^bytes.length) := by
  induction bytes with
  | nil => simp [carryUp,fromLe]
  | cons b rest ih =>
    obtain ⟨carried,overflowed⟩ := ih
    by_cases full : b = 255
    · subst full
      constructor
      · intro next same
        obtain ⟨tail,read,rfl⟩ := Option.map_eq_some_iff.mp ((if_pos rfl).symm.trans same)
        obtain ⟨width,value⟩ := carried tail read
        simp only [List.length_cons,width,fromLe,value,true_and]
        change 0 + _ = 255 + _ + 1
        omega
      · intro same
        have top := overflowed (Option.map_eq_none_iff.mp ((if_pos rfl).symm.trans same))
        simp only [fromLe,List.length_cons,Nat.pow_succ',← top]
        change 255 + _ + 1 = _
        omega
    · have small : b.toNat < 255 := by
        have bound := UInt8.toNat_lt b
        have apart : b.toNat ≠ 255 := fun same => full (UInt8.toNat_inj.mp same)
        omega
      have stepped : (b + 1).toNat = b.toNat + 1 := by
        rw [UInt8.toNat_add]
        exact Nat.mod_eq_of_lt (by change b.toNat + 1 < 256; omega)
      constructor
      · intro next same
        cases (if_neg full).symm.trans same
        simp only [List.length_cons,fromLe,stepped,true_and]
        omega
      · intro same
        cases (if_neg full).symm.trans same

theorem incrementBe_length {pk next : Bytes} (same : incrementBe pk = some next) : next.length = pk.length := by
  obtain ⟨digits,read,rfl⟩ := Option.map_eq_some_iff.mp same
  rw [List.length_reverse,((carryUp_value _).1 _ read).1,List.length_reverse]

-- Among the byte strings of one width, increment_be is the successor.
theorem increment_successor (width : Nat) :
    SkipScan.Successor (fun pk : Bytes => pk.length = width) incrementBe where
  next := by
    intro pk next known same
    refine ⟨(incrementBe_length same).trans known,fun other wide => ?_⟩
    obtain ⟨digits,read,rfl⟩ := Option.map_eq_some_iff.mp same
    obtain ⟨long,value⟩ := (carryUp_value _).1 _ read
    rw [List.length_reverse] at long
    rw [← not_lt,lt_bigEndian (by rw [List.length_reverse,long,known,wide]),lt_bigEndian (by rw [known,wide]),
      List.reverse_reverse,value]
    omega
  last := by
    intro pk known same other wide
    have top := (carryUp_value _).2 (Option.map_eq_none_iff.mp same)
    have bound := fromLe_bound other.reverse
    rw [List.length_reverse] at top bound
    rw [lt_bigEndian (by rw [known,wide])]
    rw [known] at top
    rw [wide] at bound
    omega

section Walk
variable {db : Multimap .Event__pubkey} {limit : Nat}

-- The pubkeys of the index.
def Author (db : Multimap .Event__pubkey) (pk : Bytes) : Prop := ∃ entry ∈ db.entries, entry.1.take 32 = pk

theorem author_value {entry : Entry} (stored : entry ∈ db.entries) : valuePart entry.1 = entry.1.take 32 := by
  have width : entry.1.length = 40 := db.width entry stored
  simp [valuePart,stem,width]

theorem author_width {pk : Bytes} (author : Author db pk) : pk.length = 32 := by
  obtain ⟨entry,stored,rfl⟩ := author
  have width : entry.1.length = 40 := db.width entry stored
  simp [width]

theorem makeSeekKey_composite (pk : Bytes) : makeSeekKey pk = compositeKey pk 0 := rfl

-- The entries from a seek key on are those of the pubkeys at or above its pubkey.
theorem mem_seek {pk : Bytes} (width : pk.length = 32) {entry : Entry} :
    entry ∈ db.range (.Included (makeSeekKey pk)) ↔ entry ∈ db.entries ∧ pk ≤ entry.1.take 32 := by
  rw [Multimap.range,List.mem_filter,makeSeekKey_composite]
  refine and_congr_right fun stored => ?_
  have seekable : IndexName.Layout .Event__pubkey (compositeKey pk 0) :=
    (@composite_layout .Event__pubkey) width
  have start : createdAtFromKey (compositeKey pk 0) = 0 := composite_createdAt pk (by decide)
  rw [Bound.aboveLower,bne_iff_ne,Ne,cmp_lt (db.width entry stored) seekable,keyRank_lt,composite_value,start,
    author_value stored]
  simp only [IndexName.valueRank,Prod.Lex.toLex_lt_toLex,Nat.not_lt_zero,and_false,or_false,not_lt]

-- Where a seek lands, as a pubkey.
def seekAuthor (db : Multimap .Event__pubkey) (pk : Bytes) : Option Bytes :=
  (db.range (.Included (makeSeekKey pk))).head?.map fun entry => entry.1.take 32

theorem seekAuthor_least {pk found : Bytes} (width : pk.length = 32) (sought : seekAuthor db pk = some found) :
    Author db found ∧ pk ≤ found ∧ ∀ other, Author db other → pk ≤ other → found ≤ other := by
  obtain ⟨entry,top,rfl⟩ := Option.map_eq_some_iff.mp sought
  obtain ⟨rest,listed⟩ := List.head?_eq_some_iff.mp top
  obtain ⟨stored,above⟩ := (mem_seek width).mp (List.mem_of_head? top)
  refine ⟨⟨entry,stored,rfl⟩,above,?_⟩
  rintro _ ⟨other,present,rfl⟩ reached
  have later := (mem_seek width).mpr ⟨present,reached⟩
  have rising : (db.range (.Included (makeSeekKey pk))).Pairwise _ := db.rising.filter _
  rw [listed] at later rising
  rcases List.mem_cons.mp later with rfl | tail
  · exact le_refl _
  · rcases (List.pairwise_cons.mp rising).1 other tail with less | ⟨same,_⟩
    · rw [keyRank_lt,author_value stored,author_value present] at less
      rcases less with less | ⟨same,_⟩
      · exact (by simpa [IndexName.valueRank,Prod.Lex.toLex_lt_toLex] using less : _ < _).le
      · exact (by simpa [IndexName.valueRank] using same : _ = _).le
    · rw [same]

theorem seekAuthor_missing {pk : Bytes} (width : pk.length = 32) (sought : seekAuthor db pk = none) :
    ∀ other, Author db other → ¬ pk ≤ other := by
  rintro _ ⟨entry,stored,rfl⟩ reached
  have listed := (mem_seek width).mpr ⟨stored,reached⟩
  rw [List.head?_eq_none_iff.mp (Option.map_eq_none_iff.mp sought)] at listed
  cases listed

theorem seek_seeks (db : Multimap .Event__pubkey) :
    SkipScan.Seeks (Author db) (fun pk : Bytes => pk.length = 32) (seekAuthor db) :=
  ⟨seekAuthor_least,seekAuthor_missing⟩

-- The loop of the source is the skip scan over the pubkeys.
theorem authorsLoop_walk (limit : Nat) {pk : Bytes} (width : pk.length = 32) :
    authorsLoop db limit (makeSeekKey pk) = SkipScan.walk (seekAuthor db) incrementBe limit pk := by
  induction limit generalizing pk with
  | zero => rfl
  | succ limit ih =>
    unfold authorsLoop SkipScan.walk
    cases top : (db.range (.Included (makeSeekKey pk))).head? with
    | none => simp [seekAuthor,top]
    | some entry =>
      obtain ⟨stored,_⟩ := (mem_seek width).mp (List.mem_of_head? top)
      have long : entry.1.length = 40 := db.width entry stored
      have wide : (entry.1.take 32).length = 32 := by simp [long]
      simp only [seekAuthor,top,Option.map_some,long]
      cases following : incrementBe (entry.1.take 32) with
      | none => simp
      | some next => simp [ih ((incrementBe_length following).trans wide)]

theorem authorsLoop_walked (limit : Nat) {pk : Bytes} (width : pk.length = 32) :
    SkipScan.Walked (Author db) limit pk (authorsLoop db limit (makeSeekKey pk)) := by
  rw [authorsLoop_walk limit width]
  exact SkipScan.walk_walked (seek_seeks db) (increment_successor 32) (fun _ => author_width) limit width

-- A page after a cursor: the authors above it, as many as the limit, and the last one as the
-- cursor when the page is full.
structure AuthorsPage (db : Multimap .Event__pubkey) (after : Option Bytes) (authors : List Bytes)
    (cursor : Option Bytes) : Prop where
  rising : authors.Pairwise (· < ·)
  member : ∀ pk ∈ authors, Author db pk ∧ ∀ bound, after = some bound → bound < pk
  complete : ∀ pk, Author db pk → (∀ bound, after = some bound → bound < pk) →
    pk ∈ authors ∨ ∃ last, cursor = some last ∧ last < pk
  next : ∀ last, cursor = some last → last ∈ authors ∧ ∀ pk ∈ authors, pk ≤ last

theorem walked_page (positive : 0 < limit) {after : Option Bytes} {start : Bytes} {authors : List Bytes}
    (starts : ∀ pk, Author db pk → (start ≤ pk ↔ ∀ bound, after = some bound → bound < pk))
    (walked : SkipScan.Walked (Author db) limit start authors) :
    AuthorsPage db after authors (if authors.length = limit then authors.getLast? else none) := by
  obtain ⟨rising,bounded,member,complete⟩ := walked
  have top : ∀ last, authors.getLast? = some last → last ∈ authors ∧ ∀ pk ∈ authors, pk ≤ last := by
    intro last final
    refine ⟨List.mem_of_getLast? final,fun pk listed => ?_⟩
    obtain ⟨front,rfl⟩ := List.getLast?_eq_some_iff.mp final
    rcases List.mem_append.mp listed with earlier | here
    · exact ((List.pairwise_append.mp rising).2.2 pk earlier last (by simp)).le
    · exact (List.mem_singleton.mp here).le
  refine ⟨rising,?_,?_,?_⟩
  · intro pk listed
    obtain ⟨author,above⟩ := member pk listed
    exact ⟨author,(starts pk author).mp above⟩
  · intro pk author above
    refine (complete pk author ((starts pk author).mpr above)).imp_right ?_
    rintro ⟨full,below⟩
    obtain ⟨last,final⟩ : ∃ last, authors.getLast? = some last :=
      ⟨_,List.getLast?_eq_some_getLast (List.length_pos_iff.mp (by omega))⟩
    exact ⟨last,by rw [if_pos full,final],below last (top last final).1⟩
  · intro last cursor
    split at cursor
    · exact top last cursor
    · cases cursor

theorem distinctAuthors_page (positive : 0 < limit) {after : Option Bytes}
    (wide : ∀ bound, after = some bound → bound.length = 32) :
    AuthorsPage db after (distinctAuthors db after limit).1 (distinctAuthors db after limit).2 := by
  unfold distinctAuthors
  cases after with
  | none =>
    refine walked_page positive ?_ (authorsLoop_walked limit (by simp))
    intro pk author
    simp only [reduceCtorEq,false_implies,implies_true,iff_true]
    have zero : fromLe (List.replicate 32 (0 : UInt8)).reverse = 0 := by decide
    rw [← not_lt,lt_bigEndian (by simp [author_width author]),zero]
    exact Nat.not_lt_zero _
  | some bound =>
    have width := wide bound rfl
    cases following : incrementBe bound with
    | none =>
      simp only [following]
      refine ⟨.nil,by simp,?_,by simp⟩
      intro pk author above
      exact absurd (above bound rfl) ((increment_successor 32).last width following pk (author_width author))
    | some start =>
      simp only [following]
      obtain ⟨startWidth,step⟩ := (increment_successor 32).next width following
      refine walked_page positive ?_ (authorsLoop_walked limit startWidth)
      intro pk author
      rw [step pk (author_width author)]
      simp

-- The authors a walk has still to read after a cursor.
def remaining (db : Multimap .Event__pubkey) (after : Option Bytes) : Finset Bytes :=
  (db.entries.map fun entry => entry.1.take 32).toFinset.filter fun pk => ∀ bound ∈ after, bound < pk

theorem mem_remaining {after : Option Bytes} {pk : Bytes} :
    pk ∈ remaining db after ↔ Author db pk ∧ ∀ bound, after = some bound → bound < pk := by
  simp [remaining,Author]

theorem allAuthors_walk (positive : 0 < limit) {after : Option Bytes}
    (wide : ∀ bound, after = some bound → bound.length = 32) :
    ∃ maxPages authors, allAuthors db limit maxPages after = some authors ∧ authors.Pairwise (· < ·) ∧
      ∀ pk, pk ∈ authors ↔ Author db pk ∧ ∀ bound, after = some bound → bound < pk := by
  induction left : (remaining db after).card using Nat.strong_induction_on generalizing after with
  | _ count ih =>
    obtain ⟨rising,member,complete,next⟩ := (@distinctAuthors_page db) positive wide
    rcases page : distinctAuthors db after limit with ⟨authors,cursor⟩
    rw [page] at rising member complete next
    cases cursor with
    | none =>
      refine ⟨1,authors,by simp [allAuthors,page],rising,fun pk => ⟨member pk,fun known => ?_⟩⟩
      refine (complete pk known.1 known.2).resolve_right ?_
      rintro ⟨_,impossible,_⟩
      cases impossible
    | some last =>
      obtain ⟨listed,top⟩ := next last rfl
      obtain ⟨author,above⟩ := member last listed
      -- The last author of a full page is no longer to be read after it.
      have fewer : (remaining db (some last)).card < count := by
        rw [← left]
        refine Finset.card_lt_card ⟨?_,fun back => ?_⟩
        · intro pk inside
          obtain ⟨known,later⟩ := mem_remaining.mp inside
          exact mem_remaining.mpr ⟨known,fun bound same => (above bound same).trans (later last rfl)⟩
        · have here := (mem_remaining.mp (back (mem_remaining.mpr ⟨author,above⟩))).2 last rfl
          exact lt_irrefl _ here
      have lastWide : ∀ bound, some last = some bound → bound.length = 32 := by
        rintro bound ⟨⟩
        exact author_width author
      obtain ⟨maxPages,rest,walked,climbing,inside⟩ := ih _ fewer lastWide rfl
      refine ⟨maxPages + 1,authors ++ rest,by simp [allAuthors,page,walked],?_,?_⟩
      · refine List.pairwise_append.mpr ⟨rising,climbing,fun old prior new later => ?_⟩
        exact (top old prior).trans_lt (((inside new).mp later).2 last rfl)
      · intro pk
        rw [List.mem_append,inside]
        constructor
        · rintro (here | ⟨known,later⟩)
          · exact member pk here
          · exact ⟨known,fun bound same => (above bound same).trans (later last rfl)⟩
        · rintro ⟨known,later⟩
          refine (complete pk known later).imp_right ?_
          rintro ⟨other,same,below⟩
          cases same
          refine ⟨known,?_⟩
          rintro bound ⟨⟩
          exact below

end Walk

-- From no cursor the pages list every pubkey of the index once, in byte order.
theorem distinct_authors_exact (db : Multimap .Event__pubkey) {limit : Nat} (positive : 0 < limit) :
    ∃ maxPages authors, allAuthors db limit maxPages none = some authors ∧ authors.Pairwise (· < ·) ∧
      ∀ pk, pk ∈ authors ↔ ∃ entry ∈ db.entries, entry.1.take 32 = pk := by
  obtain ⟨maxPages,authors,walked,rising,member⟩ :=
    (@allAuthors_walk db limit positive none) (by rintro bound ⟨⟩)
  refine ⟨maxPages,authors,walked,rising,fun pk => (member pk).trans ?_⟩
  simp [Author]

-- An author whose increment carries through every byte but the first, and the greatest pubkey.
def edgeAuthors : Multimap .Event__pubkey where
  entries := [(compositeKey (7 :: List.replicate 31 0xff) 5,1),(compositeKey (7 :: List.replicate 31 0xff) 6,2),
    (compositeKey (List.replicate 32 0xff) 5,3)]
  width := by decide
  sorted := by decide +kernel

theorem distinct_authors_edge : ∃ maxPages authors,
    allAuthors edgeAuthors 1 maxPages none = some authors ∧ authors.Pairwise (· < ·) ∧
      ∀ pk, pk ∈ authors ↔ ∃ entry ∈ edgeAuthors.entries, entry.1.take 32 = pk :=
  distinct_authors_exact edgeAuthors (by decide)

end DeepFry.Query
