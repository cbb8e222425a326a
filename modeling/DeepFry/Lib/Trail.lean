import Mathlib.Tactic

namespace DeepFry.Trail

-- Library layer: fetches in a row, each of which asks for what the one before it pointed at.
variable {κ π : Type*}

def Linked (next : π → κ) : κ → List (κ × π) → Prop
  | _,[] => True
  | cursor,fetched :: rest => fetched.1 = cursor ∧ Linked next (next fetched.2) rest

-- What a trail points at.
def tip (next : π → κ) : κ → List (κ × π) → κ
  | cursor,[] => cursor
  | _,fetched :: rest => tip next (next fetched.2) rest

theorem linked_concat {next : π → κ} {start : κ} {trail : List (κ × π)} {fetched : κ × π} :
    Linked next start (trail ++ [fetched]) ↔ Linked next start trail ∧ fetched.1 = tip next start trail := by
  induction trail generalizing start with
  | nil => simp [Linked,tip]
  | cons first rest ih => simp [Linked,tip,ih,and_assoc]

theorem tip_concat (next : π → κ) (start : κ) (trail : List (κ × π)) (fetched : κ × π) :
    tip next start (trail ++ [fetched]) = next fetched.2 := by
  induction trail generalizing start with
  | nil => rfl
  | cons first rest ih => exact ih (next first.2)

end DeepFry.Trail
