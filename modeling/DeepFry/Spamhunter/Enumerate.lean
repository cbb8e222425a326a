import DeepFry.Spamhunter.Store

namespace DeepFry.Spamhunter

inductive ClientError where
  | Unavailable
  | PayloadTooLarge
  | Transport (message : Str)
  | Graphql (code : Option Str) (message : Str)
deriving DecidableEq

structure AuthorsPage where
  authors : List Str
  endCursor : Option Str
deriving DecidableEq

def MAX_ATTEMPTS : Nat := 5

def isRetryable : ClientError → Bool
  | .Unavailable => true
  | .Transport _ => true
  | .Graphql none _ => true
  | .PayloadTooLarge => false
  | .Graphql (some _) _ => false

-- What one reply does to the retry loop that is at the given attempt.
inductive Retry (α : Type) where
  | returns (v : α)
  | again (attempt : Nat)
  | fails (e : ClientError)

def retry {α : Type} (attempt : Nat) : Except ClientError α → Retry α
  | .ok v => .returns v
  | .error e => if isRetryable e ∧ attempt < MAX_ATTEMPTS then .again (attempt + 1) else .fails e

def isValidPubkey (pk : Str) : Bool :=
  pk.length = 64 ∧ pk.all fun b => (48 ≤ b ∧ b ≤ 57) ∨ (97 ≤ b ∧ b ≤ 102)

def valid (page : AuthorsPage) : List Str := page.authors.filter isValidPubkey

-- INVALID_CURSOR on a cursor that was in play.
def restarts (after : Option Str) : ClientError → Bool
  | .Graphql (some c) _ => c = Bytes.text "INVALID_CURSOR" ∧ after.isSome
  | _ => false

-- The local variables of one enumeration.
structure Walk where
  runId : Nat
  after : Option Str
  existingStart : Option Int
  limit : Option Nat
  count : Nat

def startFresh (now : Int) (configJson : Str) (limit : Option Nat) (t : Runs) : Walk × Runs :=
  (⟨t.sequence + 1,none,none,limit,0⟩,beginRun now configJson t)

def continueRun (run : Run) (configJson : Str) (limit : Option Nat) (t : Runs) : Walk × Runs :=
  (⟨run.runId,run.lastCursor,run.maxLevIdStart,limit,0⟩,setRunConfigJson t run.runId configJson)

-- Resume selection: the walk to run and the run table it leaves.
def select (resume : Bool) (now : Int) (configJson : Str) (limit : Option Nat) (t : Runs) : Walk × Runs :=
  if resume then
    match latestUnfinishedRun t with
    | some run => continueRun run configJson limit t
    | none => startFresh now configJson limit t
  else startFresh now configJson limit t

def Walk.limited (w : Walk) : Bool :=
  match w.limit with
  | some lim => lim ≤ w.count
  | none => false

section Retry
variable {α : Type} {attempt : Nat} {reply : Except ClientError α}

theorem retry_returns {v : α} (returned : retry attempt reply = .returns v) : reply = .ok v := by
  cases reply with
  | ok w => cases returned; rfl
  | error e =>
    simp only [retry] at returned
    split at returned <;> cases returned

end Retry

theorem select_cases (resume : Bool) (now : Int) (configJson : Str) (limit : Option Nat) (t : Runs) :
    (∃ run, resume = true ∧ latestUnfinishedRun t = some run ∧
        select resume now configJson limit t = continueRun run configJson limit t) ∨
      ((resume = true → latestUnfinishedRun t = none) ∧
        select resume now configJson limit t = startFresh now configJson limit t) := by
  cases resume with
  | false => exact .inr ⟨nofun,rfl⟩
  | true =>
    cases latest : latestUnfinishedRun t with
    | none => exact .inr ⟨fun _ => rfl,by simp only [select,latest,if_true]⟩
    | some run => exact .inl ⟨run,rfl,rfl,by simp only [select,latest,if_true]⟩

end DeepFry.Spamhunter
