import DeepFry.Rescue.Outcome

namespace DeepFry.Rescue.Check
open Machine Export

-- Phase 2: one request for each pubkey, as many at a time as the semaphore lets through.
inductive Reply where
  | unreachable
  | status (code : Nat)
  | undecodable
  | body (whitelisted : Bool)
deriving Repr,DecidableEq

-- false on any error.
def isWhitelisted : Reply → Bool
  | .body whitelisted => whitelisted
  | _ => false

structure State where
  pubkeys : List Bytes
  running : List Bytes
  answers : List (Bytes × Reply)
deriving Repr,DecidableEq

inductive Action where
  | spawn
  | answer (pubkey : Bytes) (reply : Reply)
deriving Repr,DecidableEq

def concurrencyOf (configured : Int) : Nat := if configured ≤ 0 then 8 else configured.toNat

def start (pubkeys : List Bytes) : State := ⟨pubkeys,[],[]⟩

def step (concurrency : Nat) (s : State) : Action → Option State
  | .spawn =>
    match s.pubkeys with
    | pubkey :: rest =>
      if s.running.length < concurrency then some {s with pubkeys := rest,running := s.running ++ [pubkey]} else none
    | [] => none
  | .answer pubkey reply =>
    if pubkey ∈ s.running then
      some {s with running := s.running.erase pubkey,answers := s.answers ++ [(pubkey,reply)]}
    else none

structure Done (s : State) : Prop where
  pubkeys : s.pubkeys = []
  running : s.running = []

-- out[r.pubkey] = eventsByPubkey[r.pubkey], for the results that say so.
def whitelisted (eventsByPubkey : List (Bytes × List RawEvent)) (answers : List (Bytes × Reply)) :
    List (Bytes × List RawEvent) :=
  answers.filterMap fun answer =>
    if isWhitelisted answer.2 then some (answer.1,(eventsByPubkey.lookup answer.1).getD []) else none

def answeredWhitelisted (answers : List (Bytes × Reply)) (pubkey : Bytes) : Prop := (pubkey,Reply.body true) ∈ answers

-- Every pubkey is waiting, asked or answered, and once.
theorem step_asked {concurrency : Nat} {s next : State} {action : Action} (moved : step concurrency s action = some next) :
    (next.pubkeys ++ next.running ++ next.answers.map Prod.fst).Perm
      (s.pubkeys ++ s.running ++ s.answers.map Prod.fst) := by
  cases action with
  | spawn =>
    simp only [step] at moved
    split at moved
    · rename_i pubkey rest queue
      obtain ⟨_,same⟩ := Option.ite_none_right_eq_some.mp moved
      cases same
      rw [queue]
      apply List.Perm.append_right
      rw [← List.append_assoc,List.cons_append]
      exact List.perm_append_singleton pubkey (rest ++ s.running)
    · cases moved
  | answer pubkey reply =>
    simp only [step] at moved
    obtain ⟨member,same⟩ := Option.ite_none_right_eq_some.mp moved
    cases same
    have first := List.perm_cons_erase member
    simp only [List.map_append,List.map_cons,List.map_nil]
    have rotated : (s.running.erase pubkey ++ (s.answers.map Prod.fst ++ [pubkey])).Perm
        (s.running ++ s.answers.map Prod.fst) := by
      rw [← List.append_assoc]
      exact (List.perm_append_singleton pubkey _).trans (first.symm.append_right _)
    rw [List.append_assoc,List.append_assoc]
    exact rotated.append_left s.pubkeys

theorem reached_asked {concurrency : Nat} {pubkeys : List Bytes} {s : State}
    (path : Reached (step concurrency) (fun _ _ => True) (start pubkeys) s) :
    (s.pubkeys ++ s.running ++ s.answers.map Prod.fst).Perm pubkeys := by
  apply path.invariant fun s => (s.pubkeys ++ s.running ++ s.answers.map Prod.fst).Perm pubkeys
  · simp [start]
  · intro s action next asked _ moved
    exact (step_asked moved).trans asked

theorem done_asked {concurrency : Nat} {pubkeys : List Bytes} {s : State}
    (path : Reached (step concurrency) (fun _ _ => True) (start pubkeys) s) (done : Done s) :
    (s.answers.map Prod.fst).Perm pubkeys := by
  have asked := reached_asked path
  rw [done.pubkeys,done.running] at asked
  exact asked

theorem isWhitelisted_body {reply : Reply} (yes : isWhitelisted reply = true) : reply = .body true := by
  cases reply with
  | body whitelisted =>
    have same : whitelisted = true := yes
    rw [same]
  | _ => cases yes

end DeepFry.Rescue.Check
