import Mathlib.Order.Defs.LinearOrder
import Mathlib.Tactic

namespace DeepFry.SkipScan
variable {κ : Type*} [LinearOrder κ]

-- One seek an item: the least item at or above a mark, whose successor is the next mark.
def walk (seek succ : κ → Option κ) : Nat → κ → List κ
  | 0,_ => []
  | limit+1,mark =>
    match seek mark with
    | none => []
    | some item => item ::
      match succ item with
      | none => []
      | some next => walk seek succ limit next

structure Seeks (present valid : κ → Prop) (seek : κ → Option κ) : Prop where
  found : ∀ {mark item}, valid mark → seek mark = some item →
    present item ∧ mark ≤ item ∧ ∀ other, present other → mark ≤ other → item ≤ other
  missing : ∀ {mark}, valid mark → seek mark = none → ∀ other, present other → ¬ mark ≤ other

-- The successor separates an item from all items above it; the last item has none.
structure Successor (valid : κ → Prop) (succ : κ → Option κ) : Prop where
  next : ∀ {item mark}, valid item → succ item = some mark →
    valid mark ∧ ∀ other, valid other → (mark ≤ other ↔ item < other)
  last : ∀ {item}, valid item → succ item = none → ∀ other, valid other → ¬ item < other

-- A walk holds every item from its mark on, or as many as its limit with nothing left out between.
structure Walked (present : κ → Prop) (limit : Nat) (mark : κ) (items : List κ) : Prop where
  rising : items.Pairwise (· < ·)
  bounded : items.length ≤ limit
  member : ∀ item ∈ items, present item ∧ mark ≤ item
  complete : ∀ item, present item → mark ≤ item →
    item ∈ items ∨ items.length = limit ∧ ∀ other ∈ items, other < item

theorem walk_walked {present valid : κ → Prop} {seek succ : κ → Option κ} (seeks : Seeks present valid seek)
    (successor : Successor valid succ) (known : ∀ item, present item → valid item) (limit : Nat) {mark : κ} (fine : valid mark) :
    Walked present limit mark (walk seek succ limit mark) := by
  induction limit generalizing mark with
  | zero => exact ⟨.nil,le_refl _,by simp [walk],fun _ _ _ => .inr ⟨rfl,by simp [walk]⟩⟩
  | succ limit ih =>
    unfold walk
    cases sought : seek mark with
    | none => exact ⟨.nil,by simp,by simp,fun item here above => absurd above (seeks.missing fine sought item here)⟩
    | some item =>
      obtain ⟨here,above,least⟩ := seeks.found fine sought
      cases following : succ item with
      | none =>
        simp only [following]
        refine ⟨List.pairwise_singleton _ _,by simp,fun other listed => ?_,?_⟩
        · rw [List.mem_singleton.mp listed]
          exact ⟨here,above⟩
        · intro other there reached
          have under := successor.last (known item here) following other (known other there)
          exact .inl (List.mem_singleton.mpr (le_antisymm (not_lt.mp under) (least other there reached)))
      | some next =>
        simp only [following]
        obtain ⟨nextFine,step⟩ := successor.next (known item here) following
        obtain ⟨rising,bounded,member,complete⟩ := ih nextFine
        have later : ∀ other ∈ walk seek succ limit next, item < other :=
          fun other tail => (step other (known other (member other tail).1)).mp (member other tail).2
        refine ⟨List.pairwise_cons.mpr ⟨later,rising⟩,by simpa using bounded,?_,?_⟩
        · intro other listed
          rcases List.mem_cons.mp listed with rfl | tail
          · exact ⟨here,above⟩
          · exact ⟨(member other tail).1,above.trans (later other tail).le⟩
        · intro other there reached
          rcases (least other there reached).eq_or_lt with rfl | less
          · exact .inl (by simp)
          · refine (complete other there ((step other (known other there)).mpr less)).imp (List.mem_cons_of_mem _) ?_
            rintro ⟨full,below⟩
            refine ⟨by simpa using full,fun earlier listed => ?_⟩
            rcases List.mem_cons.mp listed with rfl | tail
            · exact less
            · exact below earlier tail

end DeepFry.SkipScan
