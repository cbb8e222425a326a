import Mathlib.Data.List.Basic
import Mathlib.Tactic

namespace DeepFry.Ring

-- Library layer: a ring of slots that is written round and round, read back from the newest item on.
variable {α : Type} {slots items : List α} {index : Nat} {blank x : α}

def newest (slots : List α) (index : Nat) : List α := (slots.take index).reverse ++ (slots.drop index).reverse

-- The slots hold the last items that were put, and blanks behind them.
structure Holds (blank : α) (slots : List α) (index : Nat) (items : List α) : Prop where
  inside : index < slots.length
  recent : newest slots index = (items.reverse ++ List.replicate slots.length blank).take slots.length

theorem newest_length (slots : List α) (index : Nat) : (newest slots index).length = slots.length := by
  rw [newest,List.length_append,List.length_reverse,List.length_reverse,← List.length_append,List.take_append_drop]

theorem newest_perm (slots : List α) (index : Nat) : (newest slots index).Perm slots := by
  have sides : (newest slots index).Perm (slots.take index ++ slots.drop index) := (List.reverse_perm _).append (List.reverse_perm _)
  rwa [List.take_append_drop] at sides

theorem newest_put (inside : index < slots.length) :
    newest (slots.set index x) ((index + 1) % slots.length) = x :: (newest slots index).dropLast := by
  obtain ⟨front,old,back,rfl,width⟩ : ∃ front old back, slots = front ++ old :: back ∧ front.length = index := by
    refine ⟨slots.take index,slots[index],slots.drop (index + 1),?_,?_⟩
    · rw [List.getElem_cons_drop,List.take_append_drop]
    · rw [List.length_take,Nat.min_eq_left inside.le]
  subst width
  have before : newest (front ++ old :: back) front.length = (front.reverse ++ back.reverse) ++ [old] := by
    rw [newest,List.take_left,List.drop_left,List.reverse_cons,List.append_assoc]
  rw [before,List.dropLast_concat,List.set_append_right _ _ (Nat.le_refl _),Nat.sub_self,List.set_cons_zero]
  cases back with
  | nil =>
    have around : (front.length + 1) % (front ++ [old]).length = 0 := by simp
    rw [around,newest]
    simp
  | cons next rest =>
    have onward : (front.length + 1) % (front ++ old :: next :: rest).length = front.length + 1 :=
      Nat.mod_eq_of_lt (by simp)
    have split : front ++ x :: next :: rest = (front ++ [x]) ++ next :: rest := by simp
    have width : front.length + 1 = (front ++ [x]).length := by simp
    rw [onward,split,width,newest,List.take_left,List.drop_left]
    simp

theorem Holds.start {n : Nat} (positive : 0 < n) : Holds blank (List.replicate n blank) 0 [] := by
  refine ⟨by simpa using positive,?_⟩
  rw [newest]
  simp

theorem Holds.put (holds : Holds blank slots index items) : Holds blank (slots.set index x) ((index + 1) % slots.length) (items ++ [x]) := by
  obtain ⟨inside,recent⟩ := holds
  refine ⟨by rw [List.length_set]; exact Nat.mod_lt _ (by omega),?_⟩
  obtain ⟨n,size⟩ : ∃ n, slots.length = n + 1 := ⟨slots.length - 1,by omega⟩
  rw [newest_put inside,recent,List.length_set,List.reverse_append,size]
  have long : n + 1 ≤ (items.reverse ++ List.replicate (n + 1) blank).length := by simp
  rw [List.dropLast_eq_take,List.length_take,Nat.min_eq_left long,List.take_take]
  simp

-- Reading backwards slot by slot.
theorem read_newest (inside : index < slots.length) :
    ((List.range slots.length).map fun i => slots.getD ((index + slots.length - i - 1) % slots.length) blank) = newest slots index := by
  refine List.ext_getElem (by simp [newest_length]) fun i low high => ?_
  rw [List.length_map,List.length_range] at low
  rw [List.getElem_map,List.getElem_range]
  simp only [newest]
  by_cases early : i < index
  · have place : (index + slots.length - i - 1) % slots.length = index - 1 - i := by
      rw [show index + slots.length - i - 1 = (index - 1 - i) + slots.length by omega,Nat.add_mod_right,Nat.mod_eq_of_lt (by omega)]
    rw [List.getElem_append_left (by simp; omega),List.getElem_reverse,List.getElem_take,place,List.getD_eq_getElem?_getD,List.getElem?_eq_getElem (by omega),Option.getD_some]
    congr 1
    simp
    omega
  · have place : (index + slots.length - i - 1) % slots.length = index + slots.length - i - 1 := Nat.mod_eq_of_lt (by omega)
    have taken : (slots.take index).reverse.length = index := by simp; omega
    rw [List.getElem_append_right (by omega),List.getElem_reverse,List.getElem_drop,place,List.getD_eq_getElem?_getD,List.getElem?_eq_getElem (by omega),Option.getD_some]
    congr 1
    rw [List.length_drop,taken]
    omega

end DeepFry.Ring
