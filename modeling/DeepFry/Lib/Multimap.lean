import Mathlib.Data.List.AList
import Mathlib.Tactic

namespace DeepFry.Multimap

-- Library layer: maps that grow by one item: a map from a key to its items, and a map from a key to their number.
variable {κ ν : Type} [DecidableEq κ]

def append (k : κ) (x : ν) (m : AList fun _ : κ => List ν) : AList fun _ : κ => List ν := m.insert k ((m.lookup k).getD [] ++ [x])

def pairs (entries : List (Σ _ : κ, List ν)) : List (κ × ν) := entries.flatMap fun entry => entry.2.map fun x => (entry.1,x)

def tick (k : κ) (m : AList fun _ : κ => Nat) : AList fun _ : κ => Nat := m.insert k ((m.lookup k).getD 0 + 1)

omit [DecidableEq κ] in
theorem pairs_perm {entries others : List (Σ _ : κ, List ν)} (same : entries.Perm others) : (pairs entries).Perm (pairs others) :=
  same.flatMap_right _

omit [DecidableEq κ] in
theorem pairs_cons (k : κ) (xs : List ν) (entries : List (Σ _ : κ, List ν)) :
    pairs (⟨k,xs⟩ :: entries) = xs.map (fun x => (k,x)) ++ pairs entries := rfl

omit [DecidableEq κ] in
theorem pairs_append_list (entries others : List (Σ _ : κ, List ν)) : pairs (entries ++ others) = pairs entries ++ pairs others :=
  List.flatMap_append

-- One more item under its key, wherever the key stands.
theorem pairs_append (k : κ) (x : ν) (m : AList fun _ : κ => List ν) : (pairs (append k x m).entries).Perm ((k,x) :: pairs m.entries) := by
  rw [append,AList.entries_insert,pairs_cons]
  by_cases known : k ∈ m
  · obtain ⟨xs,first,last,_,held,rest⟩ := List.exists_of_kerase known
    have found : m.lookup k = some xs := by
      rw [AList.mem_lookup_iff.mpr]
      rw [held]
      simp
    rw [found,rest,held,pairs_append_list,pairs_append_list,pairs_cons]
    simp only [Option.getD_some,List.map_append,List.map_cons,List.map_nil]
    rw [List.append_assoc,List.singleton_append]
    refine List.perm_middle.trans ?_
    apply List.Perm.cons
    rw [← List.append_assoc,← List.append_assoc]
    apply List.Perm.append_right
    exact List.perm_append_comm
  · have missing : m.lookup k = none := AList.lookup_eq_none.mpr known
    have rest : m.entries.kerase k = m.entries := List.kerase_of_notMem_keys known
    rw [missing,rest]
    simp

theorem lookup_tick (k other : κ) (m : AList fun _ : κ => Nat) :
    ((tick k m).lookup other).getD 0 = (m.lookup other).getD 0 + if k = other then 1 else 0 := by
  unfold tick
  by_cases same : k = other
  · subst same
    rw [AList.lookup_insert,if_pos rfl]
    rfl
  · rw [AList.lookup_insert_ne (fun equal => same equal.symm),if_neg same]
    rfl

theorem mem_tick {k other : κ} {m : AList fun _ : κ => Nat} : other ∈ tick k m ↔ other = k ∨ other ∈ m := AList.mem_insert m

-- Items that count under their key, one tick each.
section Ticks
variable {ι : Type} (counts : ι → Bool) (key : ι → κ)

def tickAll (items : List ι) (m : AList fun _ : κ => Nat) : AList fun _ : κ => Nat :=
  items.foldl (fun m x => if counts x then tick (key x) m else m) m

theorem lookup_tickAll (items : List ι) (m : AList fun _ : κ => Nat) (k : κ) :
    ((tickAll counts key items m).lookup k).getD 0 = (m.lookup k).getD 0 + items.countP fun x => counts x && decide (key x = k) := by
  induction items generalizing m with
  | nil => simp [tickAll]
  | cons x items ih =>
    have first : tickAll counts key (x :: items) m = tickAll counts key items (if counts x then tick (key x) m else m) := rfl
    rw [first,ih,List.countP_cons]
    by_cases on : counts x = true
    · rw [if_pos on,lookup_tick,on,Bool.true_and]
      simp only [decide_eq_true_eq]
      omega
    · simp [on]

end Ticks

-- Every number in the map is that of some item.
def Positive (m : AList fun _ : κ => Nat) : Prop := ∀ k, k ∈ m ↔ 0 < (m.lookup k).getD 0

theorem Positive.empty : Positive (∅ : AList fun _ : κ => Nat) := by
  intro k
  simp [AList.lookup_empty,AList.notMem_empty]

theorem Positive.tick {m : AList fun _ : κ => Nat} (positive : Positive m) (k : κ) : Positive (tick k m) := by
  intro other
  rw [mem_tick,lookup_tick,positive other]
  split
  · rename_i same
    simp [same]
  · rename_i apart
    constructor
    · intro either
      exact either.resolve_left fun equal => apart equal.symm
    · exact .inr

theorem Positive.tickAll {ι : Type} {m : AList fun _ : κ => Nat} (positive : Positive m) (counts : ι → Bool) (key : ι → κ) (items : List ι) :
    Positive (tickAll counts key items m) := by
  induction items generalizing m with
  | nil => exact positive
  | cons x items ih =>
    apply ih
    by_cases on : counts x = true
    · simpa only [if_pos on] using positive.tick (key x)
    · simpa only [if_neg on] using positive

theorem Positive.lookup {m : AList fun _ : κ => Nat} (positive : Positive m) {k : κ} {n : Nat} :
    m.lookup k = some n ↔ 0 < n ∧ (m.lookup k).getD 0 = n := by
  have known := positive k
  cases found : m.lookup k with
  | none =>
    simp only [Option.getD_none]
    constructor
    · intro none
      cases none
    · intro both
      omega
  | some count =>
    rw [found,← AList.lookup_isSome,found] at known
    have some_pos : 0 < count := known.mp rfl
    simp only [Option.getD_some,Option.some.injEq]
    constructor
    · intro same
      exact ⟨by omega,same⟩
    · exact And.right

end DeepFry.Multimap
