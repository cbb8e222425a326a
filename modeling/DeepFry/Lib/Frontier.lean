import Mathlib.Order.Defs.LinearOrder
import Mathlib.Data.Finset.Card
import Mathlib.Data.List.Basic
import Mathlib.Tactic

namespace DeepFry.Frontier
variable {α σ κ : Type*}

section Heap
variable [LE κ] [DecidableLE κ] (rank : α → κ)

-- A max-heap up to the order of its equal elements: pop takes a greatest element.
def popMax : List α → Option (α × List α)
  | [] => none
  | item :: rest =>
    match popMax rest with
    | none => some (item,[])
    | some (best,others) =>
      if rank best ≤ rank item then some (item,best :: others) else some (best,item :: others)

theorem popMax_none {heap : List α} (empty : popMax rank heap = none) : heap = [] := by
  cases heap with
  | nil => rfl
  | cons item rest =>
    unfold popMax at empty
    split at empty
    · cases empty
    · split at empty <;> cases empty

theorem popMax_perm {heap others : List α} {best : α} (popped : popMax rank heap = some (best,others)) :
    (best :: others).Perm heap := by
  induction heap generalizing best others with
  | nil => cases popped
  | cons item rest ih =>
    unfold popMax at popped
    cases inner : popMax rank rest with
    | none =>
      simp only [inner,Option.some.injEq,Prod.mk.injEq] at popped
      obtain ⟨rfl,rfl⟩ := popped
      rw [popMax_none rank inner]
    | some pair =>
      obtain ⟨top,tail⟩ := pair
      have prior := ih inner
      simp only [inner] at popped
      split at popped
      · obtain ⟨rfl,rfl⟩ := Prod.mk.inj (Option.some.inj popped)
        exact prior.cons _
      · obtain ⟨rfl,rfl⟩ := Prod.mk.inj (Option.some.inj popped)
        exact (List.Perm.swap _ _ _).trans (prior.cons _)

end Heap

theorem popMax_top [LinearOrder κ] (rank : α → κ) {heap others : List α} {best : α}
    (popped : popMax rank heap = some (best,others)) : ∀ item ∈ heap, rank item ≤ rank best := by
  induction heap generalizing best others with
  | nil => cases popped
  | cons item rest ih =>
    unfold popMax at popped
    cases inner : popMax rank rest with
    | none =>
      simp only [inner,Option.some.injEq,Prod.mk.injEq] at popped
      obtain ⟨rfl,rfl⟩ := popped
      simp [popMax_none rank inner]
    | some pair =>
      obtain ⟨top,tail⟩ := pair
      have prior := ih inner
      simp only [inner] at popped
      split at popped
      · rename_i less
        obtain ⟨rfl,rfl⟩ := Prod.mk.inj (Option.some.inj popped)
        intro other member
        rcases List.mem_cons.mp member with rfl | later
        · exact le_refl _
        · exact (prior other later).trans less
      · rename_i more
        obtain ⟨rfl,rfl⟩ := Prod.mk.inj (Option.some.inj popped)
        intro other member
        rcases List.mem_cons.mp member with rfl | later
        · exact (not_le.mp more).le
        · exact prior other later

-- Numbered sources that each show a head; advancing a source consumes its head and may reload
-- the source from outside. The heap holds one (head, source) pair for every source that has one.
structure Feed (σ α : Type*) where
  peek : σ → Nat → Option α
  advance : σ → Nat → σ

def Feed.reload (feed : Feed σ α) (state : σ) (source : Nat) (heap : List (α × Nat)) : List (α × Nat) :=
  match feed.peek state source with
  | none => heap
  | some head => (head,source) :: heap

-- Frontier emission: pop the greatest head, emit it, and unless the limit is reached advance its
-- source and push the new head.
def drain [LE κ] [DecidableLE κ] (feed : Feed σ α) (rank : α → κ) :
    Nat → σ → List (α × Nat) → List α × σ
  | 0,state,_ => ([],state)
  | limit+1,state,heap =>
    match popMax (rank ·.1) heap with
    | none => ([],state)
    | some ((head,source),others) =>
      if limit = 0 then ([head],state)
      else
        let next := feed.advance state source
        let (rest,final) := drain feed rank limit next (feed.reload next source others)
        (head :: rest,final)

def Heads (feed : Feed σ α) (state : σ) (heap : List (α × Nat)) : Prop :=
  (∀ head source, (head,source) ∈ heap ↔ feed.peek state source = some head) ∧
    heap.Pairwise (fun a b => a.2 ≠ b.2)

-- The contract of a feed. `reach` bounds what a source may still emit, `ahead` is what it still
-- owes, and `live` closes the run backwards (a later live state makes the earlier one live).
structure Lawful [LinearOrder κ] (feed : Feed σ α) (rank : α → κ) (ok live : σ → Prop)
    (reach ahead : σ → Nat → α → Prop) : Prop where
  peek_reach : ∀ {s i a}, ok s → feed.peek s i = some a → reach s i a
  advance_ok : ∀ {s i a}, ok s → feed.peek s i = some a → ok (feed.advance s i)
  advance_other : ∀ {s i j}, j ≠ i → feed.peek (feed.advance s i) j = feed.peek s j
  advance_reach : ∀ {s i a j b}, ok s → feed.peek s i = some a → reach (feed.advance s i) j b →
    reach s j b ∧ (j = i → rank b < rank a)
  reach_peek : ∀ {s i b}, ok s → reach s i b → ∃ a, feed.peek s i = some a ∧ rank b ≤ rank a
  live_back : ∀ {s i}, live (feed.advance s i) → live s
  ahead_peek : ∀ {s i b}, ok s → ahead s i b → ∃ a, feed.peek s i = some a ∧ rank b ≤ rank a
  ahead_advance : ∀ {s i a j b}, ok s → live (feed.advance s i) → feed.peek s i = some a →
    ahead s j b → (j = i ∧ b = a) ∨ ahead (feed.advance s i) j b

section Emission
variable [LE κ] [DecidableLE κ] {feed : Feed σ α} {rank : α → κ} {ok : σ → Prop} {shows : σ → α → Prop}

-- Whatever a state may show, and goes on showing in later states, is all that gets emitted.
theorem drain_shows (shown : ∀ {s i a}, ok s → feed.peek s i = some a → shows s a)
    (kept : ∀ {s i}, ok s → ok (feed.advance s i)) (stays : ∀ {s i a}, ok s → shows s a → shows (feed.advance s i) a)
    (limit : Nat) (state : σ) (heap : List (α × Nat)) (fine : ok state) (known : ∀ pair ∈ heap, shows state pair.1) :
    ok (drain feed rank limit state heap).2 ∧
      ∀ item, (item ∈ (drain feed rank limit state heap).1 ∨ shows state item) →
        shows (drain feed rank limit state heap).2 item := by
  induction limit generalizing state heap with
  | zero => exact ⟨fine,by simp [drain]⟩
  | succ limit ih =>
    unfold drain
    split
    · exact ⟨fine,by simp⟩
    · rename_i head source others popped
      have heads : ∀ pair ∈ (head,source) :: others, shows state pair.1 :=
        fun pair member => known pair ((popMax_perm _ popped).subset member)
      split
      · refine ⟨fine,?_⟩
        rintro item (member | here)
        · rw [List.mem_singleton.mp member]
          exact heads (head,source) (by simp)
        · exact here
      · have next := kept (i := source) fine
        have reloaded : ∀ pair ∈ feed.reload (feed.advance state source) source others,
            shows (feed.advance state source) pair.1 := by
          intro pair member
          unfold Feed.reload at member
          split at member
          · exact stays fine (heads pair (List.mem_cons_of_mem _ member))
          · rename_i fresh here
            rcases List.mem_cons.mp member with rfl | later
            · exact shown next here
            · exact stays fine (heads pair (List.mem_cons_of_mem _ later))
        obtain ⟨final,rest⟩ := ih _ _ next reloaded
        refine ⟨final,?_⟩
        rintro item (member | here)
        · rcases List.mem_cons.mp member with rfl | later
          · exact rest _ (.inr (stays fine (heads (item,source) (by simp))))
          · exact rest item (.inl later)
        · exact rest item (.inr (stays fine here))

end Emission

section Laws
variable [LinearOrder κ] {feed : Feed σ α} {rank : α → κ} {ok live : σ → Prop}
  {reach ahead : σ → Nat → α → Prop}

theorem Heads.perm {state : σ} {heap other : List (α × Nat)} (heads : Heads feed state heap)
    (same : other.Perm heap) : Heads feed state other :=
  ⟨fun head source => by rw [same.mem_iff]; exact heads.1 head source,
    (same.symm.pairwise_iff (fun h => Ne.symm h)).mp heads.2⟩

theorem Heads.next {state : σ} {head : α} {source : Nat} {others : List (α × Nat)}
    (heads : Heads feed state ((head,source) :: others))
    (frame : ∀ j, j ≠ source → feed.peek (feed.advance state source) j = feed.peek state j) :
    Heads feed (feed.advance state source)
      (feed.reload (feed.advance state source) source others) := by
  obtain ⟨exact_heads,distinct⟩ := heads
  obtain ⟨apart,rest⟩ := List.pairwise_cons.mp distinct
  have stays : ∀ item j, (item,j) ∈ others ↔ j ≠ source ∧ feed.peek (feed.advance state source) j = some item := by
    intro item j
    constructor
    · intro member
      have other : j ≠ source := (apart _ member).symm
      exact ⟨other,by rw [frame j other]; exact (exact_heads item j).mp (List.mem_cons_of_mem _ member)⟩
    · rintro ⟨other,shown⟩
      rw [frame j other] at shown
      rcases List.mem_cons.mp ((exact_heads item j).mpr shown) with same | member
      · exact absurd (Prod.mk.inj same).2 other
      · exact member
  unfold Feed.reload
  cases shown : feed.peek (feed.advance state source) source with
  | none =>
    refine ⟨fun item j => ?_,rest⟩
    rw [stays item j]
    constructor
    · exact And.right
    · intro here
      refine ⟨?_,here⟩
      rintro rfl
      rw [shown] at here
      cases here
  | some fresh =>
    refine ⟨fun item j => ?_,List.pairwise_cons.mpr ⟨?_,rest⟩⟩
    · rw [List.mem_cons,stays item j]
      constructor
      · rintro (same | later)
        · obtain ⟨rfl,rfl⟩ := Prod.mk.inj same
          exact shown
        · exact later.2
      · intro here
        by_cases same : j = source
        · subst same
          rw [shown] at here
          exact .inl (by rw [Option.some.inj here])
        · exact .inr ⟨same,here⟩
    · rintro ⟨item,j⟩ member same
      exact ((stays item j).mp member).1 same.symm

theorem drain_live (law : Lawful feed rank ok live reach ahead) (limit : Nat) (state : σ)
    (heap : List (α × Nat)) (alive : live (drain feed rank limit state heap).2) : live state := by
  induction limit generalizing state heap with
  | zero => exact alive
  | succ limit ih =>
    unfold drain at alive
    split at alive
    · exact alive
    · split at alive
      · exact alive
      · exact law.live_back (ih _ _ alive)

theorem drain_length (limit : Nat) (state : σ) (heap : List (α × Nat)) :
    (drain feed rank limit state heap).1.length ≤ limit := by
  induction limit generalizing state heap with
  | zero => simp [drain]
  | succ limit ih =>
    unfold drain
    split
    · simp
    · split
      · simp
      · simpa using ih _ _

-- Everything emitted was within reach of some source.
theorem drain_sound (law : Lawful feed rank ok live reach ahead) (limit : Nat) (state : σ)
    (heap : List (α × Nat)) (fine : ok state) (heads : Heads feed state heap) :
    ∀ item ∈ (drain feed rank limit state heap).1, ∃ source, reach state source item := by
  induction limit generalizing state heap with
  | zero => simp [drain]
  | succ limit ih =>
    intro item member
    unfold drain at member
    split at member
    · cases member
    · rename_i head source others popped
      have shown := (heads.perm (popMax_perm _ popped)).1 head source |>.mp (by simp)
      split at member
      · simp only [List.mem_singleton] at member
        exact ⟨source,by rw [member]; exact law.peek_reach fine shown⟩
      · rcases List.mem_cons.mp member with rfl | later
        · exact ⟨source,law.peek_reach fine shown⟩
        · have next := (heads.perm (popMax_perm _ popped)).next fun _ apart => law.advance_other apart
          obtain ⟨j,within⟩ := ih _ _ (law.advance_ok fine shown) next item later
          exact ⟨j,(law.advance_reach fine shown within).1⟩

-- Emission falls in rank, and two emitted items of one rank come from two sources.
theorem drain_sorted (law : Lawful feed rank ok live reach ahead) (limit : Nat) (state : σ)
    (heap : List (α × Nat)) (fine : ok state) (heads : Heads feed state heap) :
    (drain feed rank limit state heap).1.Pairwise fun a b => rank b ≤ rank a ∧
      (rank b = rank a → ∃ i j, i ≠ j ∧ reach state i a ∧ reach state j b) := by
  induction limit generalizing state heap with
  | zero => simp [drain]
  | succ limit ih =>
    unfold drain
    split
    · exact List.Pairwise.nil
    · rename_i head source others popped
      have front := heads.perm (popMax_perm _ popped)
      have shown := (front.1 head source).mp (by simp)
      split
      · exact List.pairwise_singleton _ _
      · have next := front.next fun _ apart => law.advance_other apart
        have fineNext := law.advance_ok fine shown
        refine List.pairwise_cons.mpr ⟨?_,?_⟩
        · intro item member
          obtain ⟨j,within⟩ := drain_sound law _ _ _ fineNext next item member
          obtain ⟨before,same⟩ := law.advance_reach fine shown within
          by_cases own : j = source
          · exact ⟨(same own).le,fun equal => absurd equal (same own).ne⟩
          · refine ⟨?_,fun _ => ⟨source,j,Ne.symm own,law.peek_reach fine shown,before⟩⟩
            -- The head of another source stands in the heap, so the popped head is above it.
            obtain ⟨top,other,under⟩ := law.reach_peek fine before
            exact under.trans (popMax_top _ popped _ ((heads.1 top j).mpr other))
        · refine (ih _ _ fineNext next).imp ?_
          rintro a b ⟨less,apart⟩
          refine ⟨less,fun equal => ?_⟩
          obtain ⟨i,j,differ,left,right⟩ := apart equal
          exact ⟨i,j,differ,(law.advance_reach fine shown left).1,(law.advance_reach fine shown right).1⟩

-- Whatever a source owes is emitted, unless the limit stops the run with everything emitted at
-- or above it.
theorem drain_complete (law : Lawful feed rank ok live reach ahead) (limit : Nat) (state : σ)
    (heap : List (α × Nat)) (fine : ok state) (heads : Heads feed state heap)
    (alive : live (drain feed rank limit state heap).2) {source : Nat} {item : α}
    (owed : ahead state source item) :
    item ∈ (drain feed rank limit state heap).1 ∨
      (drain feed rank limit state heap).1.length = limit ∧
        ∀ other ∈ (drain feed rank limit state heap).1, rank item ≤ rank other := by
  induction limit generalizing state heap with
  | zero => exact .inr ⟨by simp [drain],by simp [drain]⟩
  | succ limit ih =>
    obtain ⟨top,shownTop,under⟩ := law.ahead_peek fine owed
    have inHeap := (heads.1 top source).mpr shownTop
    unfold drain at alive ⊢
    split
    · rename_i empty
      rw [popMax_none _ empty] at inHeap
      cases inHeap
    · rename_i head first others popped
      have front := heads.perm (popMax_perm _ popped)
      have shown := (front.1 head first).mp (by simp)
      have above : rank item ≤ rank head := under.trans (popMax_top _ popped _ inHeap)
      simp only [popped] at alive
      split
      · rename_i last
        subst last
        exact .inr ⟨by simp,by simpa using above⟩
      · rename_i more
        simp only [more,if_false] at alive
        have next := front.next fun _ apart => law.advance_other apart
        have aliveNext := drain_live law _ _ _ alive
        rcases law.ahead_advance fine aliveNext shown owed with ⟨_,rfl⟩ | still
        · exact .inl (by simp)
        · rcases ih _ _ (law.advance_ok fine shown) next alive still with found | ⟨full,below⟩
          · exact .inl (List.mem_cons_of_mem _ found)
          · refine .inr ⟨by simpa using full,?_⟩
            intro other member
            rcases List.mem_cons.mp member with rfl | later
            · exact above
            · exact below other later

-- Sources that each promise one item: the run emits it as often, unless the limit stops it.
theorem drain_count [BEq α] [LawfulBEq α] {promises : σ → Nat → Prop} {item : α}
    (kept_ok : ∀ {s i a}, ok s → feed.peek s i = some a → ok (feed.advance s i))
    (frame : ∀ {s i j}, j ≠ i → feed.peek (feed.advance s i) j = feed.peek s j)
    (shown : ∀ {s i}, ok s → promises s i → ∃ a, feed.peek s i = some a)
    (kept : ∀ {s i j a}, ok s → feed.peek s i = some a → promises s j → j = i ∧ a = item ∨ promises (feed.advance s i) j)
    (limit : Nat) (state : σ) (heap : List (α × Nat)) (fine : ok state) (heads : Heads feed state heap)
    (sources : Finset Nat) (promised : ∀ source ∈ sources, promises state source) :
    sources.card ≤ (drain feed rank limit state heap).1.count item ∨
      (drain feed rank limit state heap).1.length = limit := by
  classical
  induction limit generalizing state heap sources with
  | zero => exact .inr (by simp [drain])
  | succ limit ih =>
    unfold drain
    split
    · rename_i empty
      refine .inl ?_
      have none_left : sources = ∅ := by
        refine Finset.eq_empty_of_forall_notMem fun source member => ?_
        obtain ⟨a,here⟩ := shown fine (promised source member)
        have inHeap := (heads.1 a source).mpr here
        rw [popMax_none _ empty] at inHeap
        cases inHeap
      simp [none_left]
    · rename_i head source others popped
      have front := heads.perm (popMax_perm _ popped)
      have here := (front.1 head source).mp (by simp)
      split
      · rename_i last
        exact .inr (by simp [last])
      · have next := front.next fun _ apart => frame apart
        have following : ∀ other ∈ (if head = item then sources.erase source else sources),
            promises (feed.advance state source) other := by
          intro other member
          have known : other ∈ sources := by
            split at member
            · exact Finset.mem_of_mem_erase member
            · exact member
          rcases kept fine here (promised other known) with ⟨same,emitted⟩ | still
          · rw [if_pos emitted] at member
            exact absurd same (Finset.ne_of_mem_erase member)
          · exact still
        rcases ih _ _ (kept_ok fine here) next _ following with enough | full
        · refine .inl ?_
          rw [List.count_cons]
          by_cases emitted : head = item
          · have fewer := Finset.pred_card_le_card_erase (s := sources) (a := source)
            simp only [emitted,if_true] at enough
            simp only [emitted,beq_self_eq_true,if_true]
            omega
          · simp only [if_neg emitted] at enough
            omega
        · exact .inr (by simpa using full)

end Laws
end DeepFry.Frontier
