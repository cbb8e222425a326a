import Mathlib.Order.Lattice
import Mathlib.Tactic

namespace DeepFry.Paging

-- Library layer: a list that is read page by page, until a page comes back short.
variable {κ ρ α β : Type} {fetch : κ → List α} {next : κ → List α → κ} {size : Nat}

-- What the pages from a cursor on hold together.
inductive Rows (fetch : κ → List α) (next : κ → List α → κ) (size : Nat) : κ → List α → Prop where
  | last (cursor : κ) : (fetch cursor).length < size → Rows fetch next size cursor (fetch cursor)
  | more (cursor : κ) (rest : List α) : 0 < size → (fetch cursor).length = size →
      Rows fetch next size (next cursor (fetch cursor)) rest → Rows fetch next size cursor (fetch cursor ++ rest)

-- A cursor that only stands for another one.
theorem Rows.decoded (decode : ρ → κ) {cursor : ρ} {rows : List α} (read : Rows fetch next size (decode cursor) rows) {fetch' : ρ → List α}
    {next' : ρ → List α → ρ} (fetches : ∀ c, fetch' c = fetch (decode c))
    (advances : ∀ c, decode (next' c (fetch' c)) = next (decode c) (fetch' c)) : Rows fetch' next' size cursor rows := by
  generalize start : decode cursor = first at read
  induction read generalizing cursor with
  | last c short =>
    subst start
    rw [← fetches] at short ⊢
    exact .last cursor short
  | more c rest positive full _ ih =>
    subst start
    rw [← fetches] at full ih ⊢
    exact .more cursor rest positive full (ih (advances cursor))

theorem Rows.map (f : α → β) {fetch' : κ → List β} {next' : κ → List β → κ} (fetches : ∀ c, fetch' c = (fetch c).map f)
    (advances : ∀ c, next' c (fetch' c) = next c (fetch c)) {cursor : κ} {rows : List α} (read : Rows fetch next size cursor rows) :
    Rows fetch' next' size cursor (rows.map f) := by
  induction read with
  | last c short =>
    rw [← fetches]
    apply Rows.last
    rwa [fetches,List.length_map]
  | more c rest positive full _ ih =>
    rw [List.map_append,← fetches]
    apply Rows.more c _ positive
    · rwa [fetches,List.length_map]
    · rwa [advances]

-- Pages by offset.
theorem offset_rows (items : List α) (positive : 0 < size) (offset : Nat) :
    Rows (fun o => (items.drop o).take size) (fun o _ => o + size) size offset (items.drop offset) := by
  generalize left : items.length - offset = n
  induction n using Nat.strong_induction_on generalizing offset with
  | _ n ih =>
    by_cases short : (items.drop offset).length < size
    · have whole : (items.drop offset).take size = items.drop offset := List.take_of_length_le short.le
      have read : Rows (fun o => (items.drop o).take size) (fun o _ => o + size) size offset _ := .last offset (by rw [whole]; exact short)
      rwa [whole] at read
    · have enough : size ≤ items.length - offset := by
        rw [List.length_drop] at short
        omega
      have rest := ih (items.length - (offset + size)) (by omega) (offset + size) rfl
      have full : ((items.drop offset).take size).length = size := by
        rw [List.length_take,List.length_drop]
        omega
      have read : Rows (fun o => (items.drop o).take size) (fun o _ => o + size) size offset _ := .more offset _ positive full rest
      have split : (items.drop offset).take size ++ items.drop (offset + size) = items.drop offset := by
        rw [← List.drop_drop]
        exact List.take_append_drop size _
      rwa [split] at read

section Keyed
variable [LinearOrder κ] (key : α → κ)

def beyond (items : List α) (cursor : κ) : List α := items.filter fun item => decide (cursor < key item)

def lastKey (cursor : κ) (page : List α) : κ := (page.getLast?.map key).getD cursor

-- Beyond the last key of a page lies what the page left.
theorem beyond_lastKey {items : List α} (ordered : items.Pairwise fun a b => key a < key b) {cursor : κ}
    (positive : 0 < size) (full : ((beyond key items cursor).take size).length = size) :
    beyond key items (lastKey key cursor ((beyond key items cursor).take size)) = (beyond key items cursor).drop size := by
  generalize kept : beyond key items cursor = rows at full ⊢
  have sorted : rows.Pairwise fun a b => key a < key b := by
    rw [← kept]
    exact ordered.filter _
  rcases List.eq_nil_or_concat (rows.take size) with none | ⟨init,last,split⟩
  · rw [none] at full
    simp only [List.length_nil] at full
    omega
  · rw [List.concat_eq_append] at split
    have final : lastKey key cursor (rows.take size) = key last := by simp [lastKey,split]
    rw [← List.take_append_drop size rows,split,List.pairwise_append] at sorted
    have after : cursor < key last := by
      have member : last ∈ rows := List.mem_of_mem_take (i := size) (by rw [split]; simp)
      rw [← kept,beyond,List.mem_filter] at member
      exact of_decide_eq_true member.2
    have inner : beyond key items (key last) = rows.filter fun item => decide (key last < key item) := by
      rw [← kept,beyond,beyond,List.filter_filter]
      apply List.filter_congr
      intro item _
      by_cases later : key last < key item
      · simp [later,after.trans later]
      · simp [later]
    rw [final,inner]
    conv_lhs => rw [← List.take_append_drop size rows]
    rw [List.filter_append,split]
    have dropped : (init ++ [last]).filter (fun item => decide (key last < key item)) = [] := by
      apply List.filter_eq_nil_iff.mpr
      intro item member later
      have later := of_decide_eq_true later
      rcases List.mem_append.mp member with before | same
      · exact absurd later (lt_asymm ((List.pairwise_append.mp sorted.1).2.2 item before last (by simp)))
      · rw [List.mem_singleton.mp same] at later
        exact lt_irrefl _ later
    have rest : (rows.drop size).filter (fun item => decide (key last < key item)) = rows.drop size := by
      apply List.filter_eq_self.mpr
      intro item member
      exact decide_eq_true (sorted.2.2 last (by simp) item member)
    rw [dropped,rest,List.nil_append]

-- A full page leaves an item beyond its last key, unless it holds it.
theorem page_or_beyond {items : List α} (ordered : items.Pairwise fun a b => key a < key b) {cursor : κ} {item : α}
    (member : item ∈ items) (after : cursor < key item) (positive : 0 < size)
    (full : ((beyond key items cursor).take size).length = size) :
    item ∈ (beyond key items cursor).take size ∨ lastKey key cursor ((beyond key items cursor).take size) < key item := by
  have there : item ∈ beyond key items cursor := List.mem_filter.mpr ⟨member,decide_eq_true after⟩
  rw [← List.take_append_drop size (beyond key items cursor)] at there
  rcases List.mem_append.mp there with page | later
  · exact .inl page
  · rw [← beyond_lastKey key ordered positive full] at later
    exact .inr (of_decide_eq_true (List.mem_filter.mp later).2)

-- Pages after the last key that was read, over rows in the order of their keys.
theorem after_rows {items : List α} (ordered : items.Pairwise fun a b => key a < key b) (positive : 0 < size) (cursor : κ) :
    Rows (fun c => (beyond key items c).take size) (lastKey key) size cursor (beyond key items cursor) := by
  generalize left : (beyond key items cursor).length = n
  induction n using Nat.strong_induction_on generalizing cursor with
  | _ n ih =>
    by_cases short : n < size
    · have whole : (beyond key items cursor).take size = beyond key items cursor := List.take_of_length_le (by omega)
      have read : Rows (fun c => (beyond key items c).take size) (lastKey key) size cursor _ := .last cursor (by rw [whole,left]; exact short)
      rwa [whole] at read
    · have full : ((beyond key items cursor).take size).length = size := by
        rw [List.length_take]
        omega
      have dropped := beyond_lastKey key ordered positive full
      have fewer : ((beyond key items cursor).drop size).length < n := by
        rw [List.length_drop]
        omega
      have rest := ih _ fewer (lastKey key cursor ((beyond key items cursor).take size)) (by rw [dropped])
      have read : Rows (fun c => (beyond key items c).take size) (lastKey key) size cursor _ := .more cursor _ positive full rest
      rw [dropped,List.take_append_drop] at read
      exact read
end Keyed

section Rising
variable {ρ : Type} [LinearOrder ρ] {page rows : List ρ}

-- A rising page that leaves out nothing below what it holds is the front of the rows it is taken from.
theorem rising_prefix (rising : page.Pairwise (· < ·)) (ordered : rows.Pairwise (· < ·)) (inside : ∀ k ∈ page, k ∈ rows)
    (closed : ∀ k ∈ rows, k ∈ page ∨ ∀ other ∈ page, other < k) : page <+: rows := by
  induction rows generalizing page with
  | nil => rw [List.eq_nil_iff_forall_not_mem.mpr fun k member => List.not_mem_nil (inside k member)]
  | cons k rest ih =>
    cases page with
    | nil => exact List.nil_prefix
    | cons p later =>
      obtain ⟨first,climbing⟩ := List.pairwise_cons.mp rising
      obtain ⟨least,onward⟩ := List.pairwise_cons.mp ordered
      have above : k ≤ p := by
        rcases List.mem_cons.mp (inside p List.mem_cons_self) with same | below
        · exact same.ge
        · exact (least p below).le
      have same : p = k := by
        rcases closed k List.mem_cons_self with listed | past
        · rcases List.mem_cons.mp listed with same | below
          · exact same.symm
          · exact absurd (first k below) (not_lt.mpr above)
        · exact absurd (past p List.mem_cons_self) (not_lt.mpr above)
      subst same
      refine List.cons_prefix_cons.mpr ⟨rfl,ih climbing onward ?_ ?_⟩
      · intro x member
        exact (List.mem_cons.mp (inside x (List.mem_cons_of_mem _ member))).resolve_left (first x member).ne'
      · intro x member
        rcases closed x (List.mem_cons_of_mem _ member) with listed | past
        · exact .inl ((List.mem_cons.mp listed).resolve_left (least x member).ne')
        · exact .inr fun other here => past other (List.mem_cons_of_mem _ here)

theorem rising_drop (ordered : rows.Pairwise (· < ·)) (c : ρ) :
    rows.drop (rows.countP fun k => decide (k ≤ c)) = rows.filter fun k => decide (c < k) := by
  induction rows with
  | nil => rfl
  | cons k rest ih =>
    obtain ⟨least,ordered⟩ := List.pairwise_cons.mp ordered
    by_cases low : k ≤ c
    · rw [List.countP_cons_of_pos (by simpa using low),List.drop_succ_cons,ih ordered,List.filter_cons_of_neg (by simpa using low)]
    · have high : c < k := not_le.mp low
      have higher : ∀ x ∈ rest, c < x := fun x member => high.trans (least x member)
      have zero : (rest.countP fun k => decide (k ≤ c)) = 0 :=
        List.countP_eq_zero.mpr fun x member => by simpa using higher x member
      rw [List.countP_cons_of_neg (by simpa using high),zero,List.drop_zero,List.filter_cons_of_pos (by simpa using high),
        List.filter_eq_self.mpr fun x member => by simpa using higher x member]

-- As many rows as stand up to the last of a page.
theorem rising_count {front rest : List ρ} (ordered : (front ++ (page ++ rest)).Pairwise (· < ·)) {last : ρ} (listed : last ∈ page)
    (top : ∀ k ∈ page, k ≤ last) : ((front ++ (page ++ rest)).countP fun k => decide (k ≤ last)) = front.length + page.length := by
  obtain ⟨_,behind,before⟩ := List.pairwise_append.mp ordered
  obtain ⟨_,_,after⟩ := List.pairwise_append.mp behind
  have early : (front.countP fun k => decide (k ≤ last)) = front.length :=
    List.countP_eq_length.mpr fun k member => by simpa using (before k member last (List.mem_append_left _ listed)).le
  have here : (page.countP fun k => decide (k ≤ last)) = page.length :=
    List.countP_eq_length.mpr fun k member => by simpa using top k member
  have late : (rest.countP fun k => decide (k ≤ last)) = 0 :=
    List.countP_eq_zero.mpr fun k member => by simpa using after last listed k member
  rw [List.countP_append,List.countP_append,early,here,late]
  omega

end Rising

end DeepFry.Paging
