import DeepFry.Query.Deletion

namespace DeepFry.Query
open Lmdb Bytes
variable {codec : Codec} {dictCache : DictCache} {filter : NostrFilter} {batchSize : Nat}

-- A store that does not change while it is read, under a clock that stands still.
def still (snapshot : Snapshot codec dictCache) (now : Nat) : History codec dictCache where
  snapshot := fun _ => snapshot
  now := fun _ => now
  named := fun _ _ _ first _ second same => List.inj_on_of_nodup_map snapshot.unique first second same

theorem history_clean (history : History codec dictCache) (fixed : filter.indexName.FixedWidth) :
    Clean history filter :=
  fun _ known => .inl fun t => fixed_clean fixed ((history.world t).env.index filter.indexName) (startValues_layout known)

theorem still_succeeds (snapshot : Snapshot codec dictCache) (now : Nat) (positive : 0 < batchSize) (tick : Nat)
    (cursor : Option PageCursor) : ∃ page,
      executeQueryInternal codec dictCache (still snapshot now).world filter tick cursor batchSize = .ok page := by
  cases ran : executeQueryInternal codec dictCache (still snapshot now).world filter tick cursor batchSize with
  | ok page => exact ⟨page,rfl⟩
  | error error =>
    obtain ⟨levId,_,_,_,_,_,⟨event,stored,named⟩,gone⟩ :=
      ((@executeQuery_kept _ _ _ (still snapshot now)) positive).1 error ran
    exact absurd named (gone event stored)

-- The levIds of a falling list of stored events are distinct: one levId has one position.
theorem genuine_levIds {history : History codec dictCache} {start : Nat} {listed : List Survivor}
    (genuine : ∀ survivor ∈ listed, Genuine history filter start survivor)
    (falling : listed.Pairwise fun a b => b.1.rank < a.1.rank) : (listed.map fun survivor => survivor.1.2).Nodup := by
  rw [List.Nodup,List.pairwise_map]
  refine falling.imp_of_mem ?_
  intro a b left right less same
  obtain ⟨⟨s,_,first,storedA,placeA,_⟩,_⟩ := genuine a left
  obtain ⟨⟨t,_,second,storedB,placeB,_⟩,_⟩ := genuine b right
  have equal : first = second := history.named s t first storedA second storedB
    ((congrArg Prod.snd placeA).trans (same.trans (congrArg Prod.snd placeB).symm))
  rw [← placeA,← placeB,equal] at less
  exact lt_irrefl _ less

-- Over a store that stands still the pages are exactly what the filter is routed to.
theorem still_pages (snapshot : Snapshot codec dictCache) (now : Nat)
    (separate : ∀ value ∈ filter.values, Separate (snapshot.index filter.indexName) value)
    (small : filter.upper < 2^64) (positive : 0 < batchSize) :
    ∃ maxPages pages,
      paginateAll codec dictCache (still snapshot now).world filter batchSize maxPages 0 none = .ok (some pages) ∧
      (survivors pages).Pairwise (fun a b => b.1.rank < a.1.rank) ∧
      ∀ position decoded, (position,decoded) ∈ survivors pages ↔ ∃ event ∈ snapshot.events,
        event.position = position ∧ event.decode = .ok decoded ∧ filter.Matches decoded.event ∧
          isExpired now decoded.event = false ∧ Routed filter event := by
  have clean : Clean (still snapshot now) filter :=
    fun value known => (separate value known).imp (fun guarded _ => guarded) fun mute _ => mute
  have range : InRange filter none := by
    rintro place ⟨⟩
  obtain ⟨maxPages,pages,ran⟩ := (@paginateAll_ends _ _ _ _ _ 0) positive clean small
    (succeeds_of_reads fun tick cursor => still_succeeds snapshot now positive tick cursor) range
  obtain ⟨_,walked⟩ := paginateAll_walk positive clean small range ran
  refine ⟨maxPages,pages,ran,walked.falling,?_⟩
  intro position decoded
  constructor
  · intro member
    obtain ⟨⟨_,_,event,stored,place,decodes,routed⟩,fits,_,_,unexpired⟩ := walked.genuine _ member
    exact ⟨event,stored,place,decodes,fits,unexpired,routed⟩
  · rintro ⟨event,stored,rfl,decodes,fits,unexpired,routed⟩
    refine walked.complete event decoded ⟨fun _ _ _ => stored,decodes,fits,fun _ _ _ => unexpired,routed⟩ ?_
    rintro bound ⟨⟩

theorem pagination_exact (snapshot : Snapshot codec dictCache) (now : Nat)
    (fixed : filter.indexName.FixedWidth) (small : filter.upper < 2^64) (positive : 0 < batchSize) :
    ∃ maxPages pages,
      paginateAll codec dictCache (still snapshot now).world filter batchSize maxPages 0 none = .ok (some pages) ∧
      (survivors pages).Pairwise (fun a b => b.1.rank < a.1.rank) ∧
      ∀ position decoded, (position,decoded) ∈ survivors pages ↔ ∃ event ∈ snapshot.events,
        event.position = position ∧ event.decode = .ok decoded ∧ filter.Matches decoded.event ∧
          isExpired now decoded.event = false := by
  obtain ⟨maxPages,pages,ran,falling,member⟩ := still_pages snapshot now
    (fun _ known => .inl (fixed_clean fixed (snapshot.index filter.indexName) (startValues_layout known))) small positive
  refine ⟨maxPages,pages,ran,falling,fun position decoded => (member position decoded).trans ?_⟩
  constructor
  · rintro ⟨event,stored,place,decodes,fits,unexpired,_⟩
    exact ⟨event,stored,place,decodes,fits,unexpired⟩
  · rintro ⟨event,stored,place,decodes,fits,unexpired⟩
    exact ⟨event,stored,place,decodes,fits,unexpired,fixed_routed fixed decodes fits⟩

-- Two notes of one second, one note a page, one entry a window.
theorem pagination_exact_sample : ∃ maxPages pages,
    paginateAll (noteCodec sampleNotes) noDicts (still sampleSnapshot 100).world {limit := 1} 1 maxPages 0 none =
      .ok (some pages) ∧
    (survivors pages).Pairwise (fun a b => b.1.rank < a.1.rank) ∧
    ∀ position decoded, (position,decoded) ∈ survivors pages ↔ ∃ event ∈ sampleSnapshot.events,
      event.position = position ∧ event.decode = .ok decoded ∧
        NostrFilter.Matches {limit := 1} decoded.event ∧ isExpired 100 decoded.event = false :=
  pagination_exact sampleSnapshot 100 (by decide) (by decide) (by decide)

-- Over a store that changes while it is read: where no query of the walk fails, the walk ends.
theorem concurrent_pagination (history : History codec dictCache) (fixed : filter.indexName.FixedWidth)
    (small : filter.upper < 2^64) (positive : 0 < batchSize) (tick : Nat)
    (succeeds : Succeeds codec dictCache history.world filter batchSize tick none) :
    ∃ maxPages pages, paginateAll codec dictCache history.world filter batchSize maxPages tick none = .ok (some pages) ∧
      (survivors pages).Pairwise (fun a b => b.1.rank < a.1.rank) ∧
      ((survivors pages).map fun survivor => survivor.1.2).Nodup ∧
      ∀ event decoded, (∀ t, tick ≤ t → t < finish tick pages → event ∈ (history.snapshot t).events) →
        event.decode = .ok decoded → filter.Matches decoded.event →
        (∀ t, tick ≤ t → t < finish tick pages → isExpired (history.now t) decoded.event = false) →
        (event.position,decoded) ∈ survivors pages := by
  have range : InRange filter none := by
    rintro place ⟨⟩
  obtain ⟨maxPages,pages,ran⟩ := paginateAll_ends positive (history_clean history fixed) small succeeds range
  obtain ⟨_,walked⟩ := paginateAll_walk positive (history_clean history fixed) small range ran
  refine ⟨maxPages,pages,ran,walked.falling,genuine_levIds walked.genuine walked.falling,?_⟩
  intro event decoded stored decodes fits unexpired
  refine walked.complete event decoded ⟨stored,decodes,fits,unexpired,fixed_routed fixed decodes fits⟩ ?_
  rintro bound ⟨⟩

theorem pruned_succeeds : Succeeds (noteCodec sampleNotes) noDicts (pruned 5).world {limit := 1} 1 0 none := by
  have walked : ((paginateAll (noteCodec sampleNotes) noDicts (pruned 5).world {limit := 1} 1 3 0 none).toOption.bind
      id).isSome = true := by decide +kernel
  cases ran : paginateAll (noteCodec sampleNotes) noDicts (pruned 5).world {limit := 1} 1 3 0 none with
  | error error =>
    rw [ran] at walked
    cases walked
  | ok found =>
    cases found with
    | none =>
      rw [ran] at walked
      cases walked
    | some pages => exact succeeds_of_ran ran

-- The second note is deleted once its page is out.
theorem concurrent_pagination_sample : ∃ maxPages pages,
    paginateAll (noteCodec sampleNotes) noDicts (pruned 5).world {limit := 1} 1 maxPages 0 none = .ok (some pages) ∧
    (survivors pages).Pairwise (fun a b => b.1.rank < a.1.rank) ∧
    ((survivors pages).map fun survivor => survivor.1.2).Nodup ∧
    ∀ event decoded, (∀ t, 0 ≤ t → t < finish 0 pages → event ∈ ((pruned 5).snapshot t).events) →
      event.decode = .ok decoded → NostrFilter.Matches {limit := 1} decoded.event →
      (∀ t, 0 ≤ t → t < finish 0 pages → isExpired ((pruned 5).now t) decoded.event = false) →
      (event.position,decoded) ∈ survivors pages :=
  concurrent_pagination (pruned 5) (by decide) (by decide) (by decide) 0 pruned_succeeds

end DeepFry.Query
