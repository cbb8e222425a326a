import DeepFry.Explorer.LevelGraph

namespace DeepFry.Explorer.Louvain
open Modularity

-- The local-moving phase of one level: the labels, the running degree sums, and what the sweep has gained.
structure Moving (size : Nat) where
  comm : Fin size → Fin size
  sigmaTot : Fin size → ℚ
  moved : Bool
  sweepMoved : Bool
  gain : ℚ

section Moving

variable {n size : Nat}

def start (g : LevelGraph n size) : Moving size := ⟨id,g.degree,false,false,0⟩

-- The labels while v is out of its community: the -1 of v is never a key, since v is not its own neighbour.
def out (comm : Fin size → Fin size) (v : Fin size) : Fin size → Option (Fin size) :=
  Function.update (fun u => some (comm u)) v none

def countNeighbor (comm : Fin size → Option (Fin size)) (sums : List (Fin size × ℚ)) (edge : Fin size × ℚ) :
    List (Fin size × ℚ) :=
  match comm edge.1 with
  | some c => Tally.add c edge.2 sums
  | none => sums

def kIn (g : LevelGraph n size) (comm : Fin size → Option (Fin size)) (v : Fin size) : List (Fin size × ℚ) :=
  (g.neighbors v).foldl (countNeighbor comm) []

def candidateGain (g : LevelGraph n size) (sigmaTot : Fin size → ℚ) (v c : Fin size) (ki : ℚ) : ℚ :=
  ki / g.totalW - sigmaTot c * g.degree v / (2 * g.totalW * g.totalW)

def choose (g : LevelGraph n size) (sigmaTot : Fin size → ℚ) (v cur : Fin size) (baseGain : ℚ)
    (candidates : List (Fin size × ℚ)) : Fin size × ℚ :=
  candidates.foldl (fun best candidate =>
    let dq := candidateGain g sigmaTot v candidate.1 candidate.2
    if dq > best.2 + 1 / 10 ^ 12 ∧ dq > baseGain then (candidate.1,dq) else best) (cur,0)

def visit (g : LevelGraph n size) (order : Tally.Order (Fin size × ℚ)) (state : Moving size) (v : Fin size) :
    Moving size :=
  let cur := state.comm v
  let sigmaTot := bump state.sigmaTot cur (-g.degree v)
  let kIn := kIn g (out state.comm v) v
  let baseGain := candidateGain g sigmaTot v cur (Tally.lookup cur kIn)
  let best := choose g sigmaTot v cur baseGain (order.order kIn)
  let changed := decide (best.1 ≠ cur)
  ⟨Function.update state.comm v best.1,bump sigmaTot best.1 (g.degree v),state.moved || changed,
    state.sweepMoved || changed,if changed then state.gain + (best.2 - baseGain) else state.gain⟩

def beginSweep (state : Moving size) : Moving size := {state with sweepMoved := false,gain := 0}

def sweepOnce (g : LevelGraph n size) (order : Fin size → Tally.Order (Fin size × ℚ)) (state : Moving size) :
    Moving size :=
  (List.finRange size).foldl (fun state v => visit g (order v) state v) (beginSweep state)

-- The second number is the sweeps that are left.
def sweeps (g : LevelGraph n size) (order : Nat → Fin size → Tally.Order (Fin size × ℚ)) (epsilon : ℚ) :
    Nat → Nat → Moving size → Moving size
  | _,0,state => state
  | sweep,left+1,state =>
    let swept := sweepOnce g (order sweep) state
    if swept.sweepMoved = false ∨ swept.gain < epsilon then swept else sweeps g order epsilon (sweep + 1) left swept

def localMoving (g : LevelGraph n size) (order : Nat → Fin size → Tally.Order (Fin size × ℚ)) (epsilon : ℚ)
    (maxSweeps : Nat) : (Fin size → Fin size) × Bool :=
  if 2 * g.totalW = 0 then (id,false)
  else
    let state := sweeps g order epsilon 0 maxSweeps (start g)
    (state.comm,state.moved)

-- The states of the phase, with any node next and any order of its map; the sweeps are among them.
inductive Reached (g : LevelGraph n size) : Moving size → Prop
  | start : Reached g (start g)
  | sweep {state : Moving size} : Reached g state → Reached g (beginSweep state)
  | visit {state : Moving size} (order : Tally.Order (Fin size × ℚ)) (v : Fin size) :
    Reached g state → Reached g (visit g order state v)

theorem sweepOnce_reached {g : LevelGraph n size} (order : Fin size → Tally.Order (Fin size × ℚ)) {state : Moving size}
    (reached : Reached g state) : Reached g (sweepOnce g order state) := by
  have fold : ∀ (nodes : List (Fin size)) (state : Moving size), Reached g state →
      Reached g (nodes.foldl (fun state v => visit g (order v) state v) state) := by
    intro nodes
    induction nodes with
    | nil =>
      intro state reached
      exact reached
    | cons v rest ih =>
      intro state reached
      exact ih _ (.visit (order v) v reached)
  exact fold _ _ (.sweep reached)

theorem sweeps_reached {g : LevelGraph n size} (order : Nat → Fin size → Tally.Order (Fin size × ℚ)) (epsilon : ℚ)
    (sweep left : Nat) {state : Moving size} (reached : Reached g state) :
    Reached g (sweeps g order epsilon sweep left state) := by
  induction left generalizing sweep state with
  | zero => exact reached
  | succ left ih =>
    have swept := sweepOnce_reached (order sweep) reached
    simp only [sweeps]
    split
    · exact swept
    · exact ih (sweep + 1) swept

theorem localMoving_reached (g : LevelGraph n size) (order : Nat → Fin size → Tally.Order (Fin size × ℚ)) (epsilon : ℚ)
    (maxSweeps : Nat) : ∃ state, Reached g state ∧ (localMoving g order epsilon maxSweeps).1 = state.comm := by
  unfold localMoving
  split
  · exact ⟨start g,.start,rfl⟩
  · exact ⟨_,sweeps_reached order epsilon 0 maxSweeps .start,rfl⟩

theorem kIn_keys (g : LevelGraph n size) (comm : Fin size → Option (Fin size)) (v : Fin size) :
    ((kIn g comm v).map Prod.fst).Nodup := by
  have fold : ∀ (edges sums : List (Fin size × ℚ)), (sums.map Prod.fst).Nodup →
      ((edges.foldl (countNeighbor comm) sums).map Prod.fst).Nodup := by
    intro edges
    induction edges with
    | nil =>
      intro sums keyed
      exact keyed
    | cons edge rest ih =>
      intro sums keyed
      apply ih
      unfold countNeighbor
      split
      · exact Tally.keys_add keyed
      · exact keyed
  exact fold _ _ List.nodup_nil

-- A candidate is the label of a neighbour.
theorem kIn_mem {g : LevelGraph n size} {comm : Fin size → Fin size} {v : Fin size} {entry : Fin size × ℚ}
    (member : entry ∈ kIn g (out comm v) v) : ∃ edge ∈ g.neighbors v, comm edge.1 = entry.1 := by
  have fold : ∀ (edges sums : List (Fin size × ℚ)), entry ∈ edges.foldl (countNeighbor (out comm v)) sums →
      (∃ old ∈ sums, entry.1 = old.1) ∨ ∃ edge ∈ edges, comm edge.1 = entry.1 := by
    intro edges
    induction edges with
    | nil =>
      intro sums member
      exact .inl ⟨entry,member,rfl⟩
    | cons edge rest ih =>
      intro sums member
      obtain ⟨old,there,same⟩ | ⟨later,there,same⟩ := ih _ member
      · by_cases here : edge.1 = v
        · have skipped : out comm v edge.1 = none := by simp [out,here]
          rw [countNeighbor,skipped] at there
          exact .inl ⟨old,there,same⟩
        · have labelled : out comm v edge.1 = some (comm edge.1) := by simp [out,here]
          rw [countNeighbor,labelled] at there
          obtain fresh | ⟨older,before,equal⟩ := Tally.mem_add there
          · exact .inr ⟨edge,List.mem_cons_self,(same.trans fresh).symm⟩
          · exact .inl ⟨older,before,same.trans equal⟩
      · exact .inr ⟨later,List.mem_cons_of_mem _ there,same⟩
  obtain ⟨_,none,_⟩ | found := fold _ _ member
  · exact absurd none List.not_mem_nil
  · exact found

theorem kIn_near {g : LevelGraph n size} {A : Weights (Fin size)} (carries : Carries g A) (comm : Fin size → Fin size)
    (v c : Fin size) : Tally.lookup c (kIn g (out comm v) v) = near A comm v c := by
  have fold : ∀ edges sums : List (Fin size × ℚ), Tally.lookup c (edges.foldl (countNeighbor (out comm v)) sums) =
      Tally.lookup c sums + Tally.total edges fun u => if u ≠ v ∧ comm u = c then (1 : ℚ) else 0 := by
    intro edges
    induction edges with
    | nil =>
      intro sums
      simp [Tally.total]
    | cons edge rest ih =>
      intro sums
      rw [List.foldl_cons,ih]
      unfold Tally.total
      rw [List.map_cons,List.sum_cons,← add_assoc]
      congr 1
      by_cases here : edge.1 = v
      · have skipped : out comm v edge.1 = none := by simp [out,here]
        rw [countNeighbor,skipped]
        simp [here]
      · have labelled : out comm v edge.1 = some (comm edge.1) := by simp [out,here]
        rw [countNeighbor,labelled]
        simp only [Tally.lookup_add]
        simp [here]
  unfold kIn
  rw [fold,Tally.total_fiber]
  simp only [Tally.lookup,zero_add]
  unfold near
  apply Finset.sum_congr rfl
  intro u _
  by_cases here : u ≠ v ∧ comm u = c
  · rw [if_pos here,if_pos here,← carries.weights]
    simp [LevelGraph.weights,Ne.symm here.1]
  · rw [if_neg here,if_neg here,smul_zero]

-- The sums are the degrees of the labels' nodes.
def Balanced (g : LevelGraph n size) (state : Moving size) : Prop :=
  ∀ c, state.sigmaTot c = ∑ u, if state.comm u = c then g.degree u else 0

theorem removed_outside {g : LevelGraph n size} {A : Weights (Fin size)} (carries : Carries g A) {state : Moving size}
    (balanced : Balanced g state) (v c : Fin size) :
    bump state.sigmaTot (state.comm v) (-g.degree v) c = outside A state.comm v c := by
  have total := outside_add A state.comm v c
  rw [bump_apply,balanced c,carries.degree,total]
  by_cases here : state.comm v = c
  · simp [here]
  · simp [here,Ne.symm here]

theorem visit_balanced {g : LevelGraph n size} {A : Weights (Fin size)} (carries : Carries g A) {state : Moving size}
    (balanced : Balanced g state) (order : Tally.Order (Fin size × ℚ)) (v : Fin size) :
    Balanced g (visit g order state v) := by
  intro c
  unfold visit
  dsimp only
  rw [bump_apply,removed_outside carries balanced,carries.degree,outside_add A _ v c,outside_update,Function.update_self]
  simp only [eq_comm]

theorem candidateGain_share {g : LevelGraph n size} {A : Weights (Fin size)} (carries : Carries g A)
    {sigmaTot : Fin size → ℚ} {comm : Fin size → Fin size} {v c : Fin size} (sums : sigmaTot c = outside A comm v c) :
    candidateGain g sigmaTot v c (near A comm v c) =
      2 * (near A comm v c / volume A - Modularity.degree A v * outside A comm v c / volume A ^ 2) := by
  unfold candidateGain
  rw [← carries.totalW,carries.degree,sums]
  ring

theorem choose_gain (g : LevelGraph n size) (sigmaTot : Fin size → ℚ) (v cur : Fin size) (baseGain : ℚ)
    (candidates : List (Fin size × ℚ)) : (choose g sigmaTot v cur baseGain candidates).1 = cur ∨
      ∃ candidate ∈ candidates, (choose g sigmaTot v cur baseGain candidates).1 = candidate.1 ∧
        baseGain < candidateGain g sigmaTot v candidate.1 candidate.2 := by
  have fold : ∀ (later : List (Fin size × ℚ)) (best : Fin size × ℚ), (∀ candidate ∈ later, candidate ∈ candidates) →
      (best.1 = cur ∨ ∃ candidate ∈ candidates, best.1 = candidate.1 ∧
        baseGain < candidateGain g sigmaTot v candidate.1 candidate.2) →
      let chosen := later.foldl (fun best candidate =>
        let dq := candidateGain g sigmaTot v candidate.1 candidate.2
        if dq > best.2 + 1 / 10 ^ 12 ∧ dq > baseGain then (candidate.1,dq) else best) best
      chosen.1 = cur ∨ ∃ candidate ∈ candidates, chosen.1 = candidate.1 ∧
        baseGain < candidateGain g sigmaTot v candidate.1 candidate.2 := by
    intro later
    induction later with
    | nil =>
      intro best _ held
      exact held
    | cons candidate rest ih =>
      intro best listed held
      apply ih _ fun other member => listed other (List.mem_cons_of_mem candidate member)
      dsimp only
      split
      · rename_i better
        exact .inr ⟨candidate,listed candidate List.mem_cons_self,rfl,better.2⟩
      · exact held
  exact fold candidates (cur,0) (fun _ member => member) (.inl rfl)

-- What a visit does: nothing to the labels, or a move to a neighbour's label that gains.
theorem visit_moves {g : LevelGraph n size} {A : Weights (Fin size)} (carries : Carries g A)
    (sym : ∀ u v, A u v = A v u) {state : Moving size} (balanced : Balanced g state)
    (order : Tally.Order (Fin size × ℚ)) (v : Fin size) : (visit g order state v).comm = state.comm ∨
      ∃ edge ∈ g.neighbors v, (visit g order state v).comm = Function.update state.comm v (state.comm edge.1) ∧
        Modularity.modularity A state.comm < Modularity.modularity A (visit g order state v).comm := by
  unfold visit
  dsimp only
  obtain stay | ⟨candidate,member,chosen,better⟩ := choose_gain g
    (bump state.sigmaTot (state.comm v) (-g.degree v)) v (state.comm v)
    (candidateGain g (bump state.sigmaTot (state.comm v) (-g.degree v)) v (state.comm v)
      (Tally.lookup (state.comm v) (kIn g (out state.comm v) v))) (order.order (kIn g (out state.comm v) v))
  · left
    rw [stay,Function.update_eq_self]
  · right
    have entered := (order.complete _).mem_iff.mp member
    obtain ⟨edge,there,labelled⟩ := kIn_mem entered
    rw [chosen]
    refine ⟨edge,there,by rw [labelled],?_⟩
    rw [← Tally.lookup_mem (kIn_keys g _ v) entered,kIn_near carries,kIn_near carries,
      candidateGain_share carries (removed_outside carries balanced v _),
      candidateGain_share carries (removed_outside carries balanced v _)] at better
    rw [modularity_update sym]
    linarith

-- The phase as a whole: balanced sums, labels shared only by related nodes, and no modularity lost.
structure Improved (g : LevelGraph n size) (A : Weights (Fin size)) (R : Fin size → Fin size → Prop)
    (state : Moving size) : Prop where
  balanced : Balanced g state
  related : ∀ u v, state.comm u = state.comm v → R u v
  improved : Modularity.modularity A id ≤ Modularity.modularity A state.comm

theorem start_improved {g : LevelGraph n size} (A : Weights (Fin size)) {R : Fin size → Fin size → Prop}
    (equivalence : Equivalence R) : Improved g A R (start g) := by
  refine ⟨?_,?_,le_refl _⟩
  · intro c
    have own : ∀ u, (if (start g).comm u = c then g.degree u else 0) = if u = c then g.degree u else 0 := fun _ => rfl
    simp only [own]
    simp [start]
  · intro u v same
    have equal : u = v := same
    rw [equal]
    exact equivalence.refl v

theorem visit_improved {g : LevelGraph n size} {A : Weights (Fin size)} (carries : Carries g A)
    (sym : ∀ u v, A u v = A v u) {R : Fin size → Fin size → Prop} (equivalence : Equivalence R) (within : Within g R)
    {state : Moving size} (improved : Improved g A R state) (order : Tally.Order (Fin size × ℚ)) (v : Fin size) :
    Improved g A R (visit g order state v) := by
  have balanced := visit_balanced carries improved.balanced order v
  obtain stay | ⟨edge,there,moved,gained⟩ := visit_moves carries sym improved.balanced order v
  · refine ⟨balanced,?_,?_⟩ <;> rw [stay]
    · exact improved.related
    · exact improved.improved
  · refine ⟨balanced,?_,improved.improved.trans gained.le⟩
    have near := within v edge there
    rw [moved]
    -- v now has the label of a neighbour, and with it that neighbour's company.
    have joined : ∀ w, w ≠ v → state.comm w = state.comm edge.1 → R v w := by
      intro w _ same
      exact equivalence.trans near (improved.related _ _ same.symm)
    intro u w same
    by_cases first : u = v
    · subst first
      by_cases second : w = u
      · rw [second]
        exact equivalence.refl u
      · rw [Function.update_self,Function.update_of_ne second] at same
        exact joined w second same.symm
    · rw [Function.update_of_ne first] at same
      by_cases second : w = v
      · subst second
        rw [Function.update_self] at same
        exact equivalence.symm (joined u first same)
      · rw [Function.update_of_ne second] at same
        exact improved.related u w same

theorem reached_improved {g : LevelGraph n size} {A : Weights (Fin size)} (carries : Carries g A)
    (sym : ∀ u v, A u v = A v u) {R : Fin size → Fin size → Prop} (equivalence : Equivalence R) (within : Within g R)
    {state : Moving size} (reached : Reached g state) : Improved g A R state := by
  induction reached with
  | start => exact start_improved A equivalence
  | sweep _ ih => exact ⟨ih.balanced,ih.related,ih.improved⟩
  | visit order v _ ih => exact visit_improved carries sym equivalence within ih order v

end Moving

end DeepFry.Explorer.Louvain
