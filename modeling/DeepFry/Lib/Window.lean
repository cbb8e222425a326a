import Mathlib.Order.Defs.LinearOrder
import Mathlib.Data.List.Basic
import Mathlib.Data.List.TakeWhile
import Mathlib.Tactic

namespace DeepFry.Window
variable {α κ ρ : Type*} (group : α → κ)

section Fill
variable [DecidableEq κ]

-- A window takes `size` items and then drains the group of the last one, so that it always
-- ends on a group boundary.
def fill (size : Nat) : List α → List α → List α
  | results,[] => results
  | results,item :: rest =>
    if size ≤ results.length ∧ results.getLast?.map group ≠ some (group item) then results
    else fill size (results ++ [item]) rest

end Fill

-- What one window leaves: the items after it, the first of which starts another group.
structure Cut (window rest items : List α) : Prop where
  split : items = window ++ rest
  boundary : ∀ last ∈ window.getLast?, ∀ next ∈ rest.head?, group last ≠ group next

section Fill
variable [DecidableEq κ]

theorem fill_cut (size : Nat) (results items : List α) (started : 0 < size ∨ results ≠ []) :
    ∃ rest, Cut group (fill group size results items) rest (results ++ items) := by
  induction items generalizing results with
  | nil => exact ⟨[],by simp [fill],by simp⟩
  | cons item rest ih =>
    unfold fill
    split
    · rename_i full
      refine ⟨item :: rest,rfl,?_⟩
      intro last final next head
      simp only [List.head?_cons,Option.mem_def,Option.some.injEq] at head
      subst head
      intro same
      exact full.2 (by rw [Option.mem_def.mp final,Option.map_some,same])
    · obtain ⟨tail,cut⟩ := ih (results ++ [item]) (.inr (by simp))
      exact ⟨tail,by simpa using cut.split,cut.boundary⟩

theorem fill_grows (size : Nat) (results items : List α) :
    ∃ taken, fill group size results items = results ++ taken := by
  induction items generalizing results with
  | nil => exact ⟨[],by simp [fill]⟩
  | cons item rest ih =>
    unfold fill
    split
    · exact ⟨[],by simp⟩
    · obtain ⟨taken,eq⟩ := ih (results ++ [item])
      exact ⟨item :: taken,by simpa using eq⟩

-- Items that complete the size and end on a group boundary are the whole window.
theorem fill_exact (size : Nat) (results taken rest : List α) (full : results.length + taken.length = size)
    (boundary : ∀ last ∈ (results ++ taken).getLast?, ∀ next ∈ rest.head?, group last ≠ group next)
    (started : results ++ taken ≠ []) : fill group size results (taken ++ rest) = results ++ taken := by
  induction taken generalizing results with
  | nil =>
    cases rest with
    | nil => simp [fill]
    | cons next tail =>
      rw [List.append_nil] at started boundary
      have last := List.getLast?_eq_some_getLast started
      have apart := boundary _ last next (by simp)
      rw [List.nil_append,List.append_nil,fill,if_pos]
      refine ⟨by simpa using full.ge,?_⟩
      rw [last,Option.map_some]
      exact fun same => apart (Option.some.inj same)
  | cons item tail ih =>
    have open_window : ¬(size ≤ results.length ∧ results.getLast?.map group ≠ some (group item)) := by
      rintro ⟨reached,_⟩
      simp only [List.length_cons] at full
      omega
    have count : (results ++ [item]).length + tail.length = size := by
      simp only [List.length_append,List.length_cons,List.length_nil] at full ⊢
      omega
    rw [List.cons_append,fill,if_neg open_window,ih (results ++ [item]) count (by simpa using boundary) (by simp)]
    simp

theorem fill_nonempty {size : Nat} (positive : 0 < size) {items : List α} (some_item : items ≠ []) :
    fill group size [] items ≠ [] := by
  cases items with
  | nil => exact absurd rfl some_item
  | cons item rest =>
    have first : ¬(size ≤ ([] : List α).length ∧
        ([] : List α).getLast?.map group ≠ some (group item)) := by
      simp; omega
    rw [fill,if_neg first]
    obtain ⟨taken,eq⟩ := fill_grows group size ([] ++ [item]) rest
    rw [eq]
    simp

end Fill

-- Groups come in strictly falling rank and every group is contiguous.
def Falling [LT ρ] (rank : κ → ρ) (items : List α) : Prop :=
  items.Pairwise (fun a b => group a = group b ∨ rank (group b) < rank (group a))

variable {group}

theorem Cut.below [Preorder ρ] {rank : κ → ρ} {window rest items : List α}
    (cut : Cut group window rest items) (falling : Falling group rank items)
    {last : α} (final : last ∈ window.getLast?) {item : α} (later : item ∈ rest) :
    rank (group item) < rank (group last) := by
  obtain ⟨split,boundary⟩ := cut
  subst split
  obtain ⟨_,ordered,across⟩ := List.pairwise_append.mp falling
  have present : last ∈ window := List.mem_of_mem_getLast? final
  cases rest with
  | nil => cases later
  | cons next tail =>
    have differs := boundary last final next (by simp)
    have step : rank (group next) < rank (group last) :=
      (across last present next (by simp)).resolve_left differs
    rcases List.mem_cons.mp later with rfl | deeper
    · exact step
    · rcases (List.pairwise_cons.mp ordered).1 item deeper with same | less
      · rwa [← same]
      · exact less.trans step

theorem Cut.above [Preorder ρ] {rank : κ → ρ} {window rest items : List α}
    (cut : Cut group window rest items) (falling : Falling group rank items)
    {last : α} (final : last ∈ window.getLast?) {item : α} (member : item ∈ window) :
    rank (group last) ≤ rank (group item) := by
  obtain ⟨split,_⟩ := cut
  subst split
  have ordered := (List.pairwise_append.mp falling).1
  obtain ⟨front,rfl⟩ : ∃ front, window = front ++ [last] := by
    obtain ⟨nonempty,eq⟩ := List.mem_getLast?_eq_getLast final
    exact ⟨window.dropLast,by rw [eq,List.dropLast_append_getLast nonempty]⟩
  rcases List.mem_append.mp member with earlier | here
  · rcases (List.pairwise_append.mp ordered).2.2 item earlier last (by simp) with same | less
    · rw [same]
    · exact less.le
  · simp only [List.mem_singleton] at here
    rw [here]

-- What a window leaves is what stands below its last group.
theorem Cut.rest_filter [Preorder ρ] {rank : κ → ρ} {window rest items : List α} (cut : Cut group window rest items)
    (falling : Falling group rank items) {last : α} (final : last ∈ window.getLast?) (below : α → Bool)
    (means : ∀ item ∈ items, below item = true ↔ rank (group item) < rank (group last)) : rest = items.filter below := by
  have inside : ∀ item, item ∈ window ∨ item ∈ rest → item ∈ items := by
    intro item member
    rw [cut.split]
    exact List.mem_append.mpr member
  have none : window.filter below = [] := by
    apply List.filter_eq_nil_iff.mpr
    intro item member passes
    have less := (means item (inside item (.inl member))).mp passes
    exact absurd (less.trans_le (cut.above falling final member)) (lt_irrefl _)
  have every : rest.filter below = rest := by
    apply List.filter_eq_self.mpr
    intro item member
    exact (means item (inside item (.inr member))).mpr (cut.below falling final member)
  rw [cut.split,List.filter_append,none,every,List.nil_append]

-- A walk that stops at the first refused item keeps every item whose forerunners pass.
theorem mem_takeWhile {R : α → α → Prop} {accept : α → Bool} {items : List α} (ordered : items.Pairwise R)
    {item : α} (member : item ∈ items) (accepted : accept item = true)
    (closed : ∀ before ∈ items, R before item → accept before = true) : item ∈ items.takeWhile accept := by
  induction items with
  | nil => cases member
  | cons head rest ih =>
    obtain ⟨first,tail⟩ := List.pairwise_cons.mp ordered
    rcases List.mem_cons.mp member with rfl | later
    · simp [accepted]
    · have passes := closed head (by simp) (first item later)
      rw [List.takeWhile_cons_of_pos passes]
      exact List.mem_cons_of_mem _ (ih tail later fun before here => closed before (by simp [here]))

end DeepFry.Window
