import Mathlib.Logic.Relation
import Mathlib.Tactic

namespace DeepFry.Machine

-- Library layer: runs of a partial step function whose actions are admitted state by state.

variable {σ α : Type*} {step : σ → α → Option σ} {admitted : σ → α → Prop} {start : σ}

inductive Reached (step : σ → α → Option σ) (admitted : σ → α → Prop) (start : σ) : σ → Prop where
  | refl : Reached step admitted start start
  | step {s next : σ} {action : α} : Reached step admitted start s → admitted s action →
      step s action = some next → Reached step admitted start next

theorem Reached.head {action : α} {middle s : σ} (allowed : admitted start action) (moved : step start action = some middle)
    (path : Reached step admitted middle s) : Reached step admitted start s := by
  induction path with
  | refl => exact .step .refl allowed moved
  | step _ again later ih => exact .step ih again later

theorem Reached.trans {middle s : σ} (first : Reached step admitted start middle) (second : Reached step admitted middle s) :
    Reached step admitted start s := by
  induction second with
  | refl => exact first
  | step _ allowed moved ih => exact .step ih allowed moved

theorem Reached.invariant (good : σ → Prop) (initial : good start)
    (kept : ∀ {s action next}, good s → admitted s action → step s action = some next → good next)
    {s : σ} (path : Reached step admitted start s) : good s := by
  induction path with
  | refl => exact initial
  | step _ allowed moved ih => exact kept ih allowed moved

def replay (step : σ → α → Option σ) : σ → List α → Option σ
  | s,[] => some s
  | s,action :: rest => (step s action).bind (replay step · rest)

-- The executable check that every action of a replay is admitted where it happens.
def admits (step : σ → α → Option σ) (admitted : σ → α → Prop) [∀ s action, Decidable (admitted s action)] :
    σ → List α → Bool
  | _,[] => true
  | s,action :: rest => decide (admitted s action) && (step s action).all (admits step admitted · rest)

theorem replay_reached [∀ s action, Decidable (admitted s action)] {s final : σ} {actions : List α}
    (path : Reached step admitted start s) (checked : admits step admitted s actions = true)
    (replayed : replay step s actions = some final) : Reached step admitted start final := by
  induction actions generalizing s with
  | nil => cases replayed; exact path
  | cons action rest ih =>
    obtain ⟨next,moved,later⟩ := Option.bind_eq_some_iff.mp replayed
    simp only [admits,Bool.and_eq_true,decide_eq_true_eq,moved,Option.all_some] at checked
    exact ih (.step path checked.1 moved) checked.2 later

-- One evaluated run: an admitted replay whose final state passes a check.
theorem replay_final (step : σ → α → Option σ) (admitted : σ → α → Prop) [∀ s action, Decidable (admitted s action)]
    (start : σ) (actions : List α) (check : σ → Bool)
    (checked : admits step admitted start actions = true) (passed : (replay step start actions).any check = true) :
    ∃ final, Reached step admitted start final ∧ check final = true := by
  obtain ⟨final,replayed,good⟩ := (Option.any_eq_true _ _).mp passed
  exact ⟨final,replay_reached .refl checked replayed,good⟩

-- A machine that carries along what an observer notes of each step.
def traced {γ : Type*} (note : σ → α → γ → γ) (step : σ → α → Option σ) (traced : σ × γ) (action : α) : Option (σ × γ) :=
  (step traced.1 action).map (·,note traced.1 action traced.2)

theorem traced_parts {γ : Type*} {note : σ → α → γ → γ} {s next : σ × γ} {action : α}
    (moved : traced note step s action = some next) : step s.1 action = some next.1 ∧ next.2 = note s.1 action s.2 := by
  obtain ⟨after,stepped,rfl⟩ := Option.map_eq_some_iff.mp moved
  exact ⟨stepped,rfl⟩

-- Whatever admitted steps are taken, the goal is met before they run out.
inductive Inevitable (step : σ → α → Option σ) (admitted : σ → α → Prop) (goal : σ → Prop) : σ → Prop where
  | now {s : σ} : goal s → Inevitable step admitted goal s
  | later {s : σ} : (∃ action next, admitted s action ∧ step s action = some next) →
      (∀ action next, admitted s action → step s action = some next → Inevitable step admitted goal next) →
      Inevitable step admitted goal s

-- An invariant under which a step is left until the goal is met, and a number that every step lowers.
theorem Inevitable.of_measure {goal : σ → Prop} (good : σ → Prop) (measure : σ → Nat)
    (kept : ∀ {s action next}, good s → admitted s action → step s action = some next → good next)
    (down : ∀ {s action next}, good s → admitted s action → step s action = some next → measure next < measure s)
    (live : ∀ {s}, good s → ¬ goal s → ∃ action next, admitted s action ∧ step s action = some next)
    {s : σ} (initial : good s) : Inevitable step admitted goal s := by
  generalize size : measure s = m
  induction m using Nat.strongRecOn generalizing s with
  | ind m ih =>
    by_cases met : goal s
    · exact .now met
    · refine .later (live initial met) ?_
      intro action next allowed moved
      have less := down initial allowed moved
      exact ih (measure next) (by omega) (kept initial allowed moved) rfl

end DeepFry.Machine
