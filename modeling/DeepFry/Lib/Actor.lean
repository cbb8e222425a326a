import Mathlib.Data.List.Basic
import Mathlib.Tactic

namespace DeepFry.Actor

-- Library layer: one writer thread that drains a message queue into a buffer and commits the buffer
-- as one transaction. A failed transaction ends the thread, and nothing queued is ever applied.

inductive Stage (μ : Type) where
  | draining (buf : List μ)
  | committing (buf : List μ)
  | ended

structure Thread (δ μ : Type) where
  committed : δ
  stage : Stage μ
  queue : List μ

variable {δ μ : Type}

def fresh (committed : δ) : Thread δ μ := ⟨committed,.draining [],[]⟩

def Stage.buffer : Stage μ → List μ
  | .draining buf | .committing buf => buf
  | .ended => []

def Stage.live : Stage μ → Bool
  | .ended => false
  | _ => true

def send (a : Thread δ μ) (message : μ) : Option (Thread δ μ) :=
  if a.stage.live then some { a with queue := a.queue ++ [message] } else none

def receive (batch : Nat) (a : Thread δ μ) : Option (Thread δ μ) :=
  match a.stage,a.queue with
  | .draining buf,message :: rest =>
    if buf.length < batch then some { a with stage := .draining (buf ++ [message]), queue := rest } else none
  | _,_ => none

def begin (batch : Nat) (a : Thread δ μ) : Option (Thread δ μ) :=
  match a.stage with
  | .draining buf =>
    if buf ≠ [] ∧ (a.queue = [] ∨ buf.length = batch) then some { a with stage := .committing buf } else none
  | _ => none

def commit (execute : μ → δ → δ) (a : Thread δ μ) : Option (Thread δ μ) :=
  match a.stage with
  | .committing buf =>
    some { a with committed := buf.foldl (fun db message => execute message db) a.committed, stage := .draining [] }
  | _ => none

def fail (a : Thread δ μ) : Option (Thread δ μ) :=
  match a.stage with
  | .committing _ => some { a with stage := .ended }
  | _ => none

-- The queue is empty and closed, and nothing is buffered.
def stop (a : Thread δ μ) : Option (Thread δ μ) :=
  match a.stage,a.queue with
  | .draining [],[] => some { a with stage := .ended }
  | _,_ => none

def outstanding (a : Thread δ μ) : List μ := a.stage.buffer ++ a.queue

-- What the data becomes once every outstanding message has been committed.
def settled (execute : μ → δ → δ) (a : Thread δ μ) : δ :=
  (outstanding a).foldl (fun db message => execute message db) a.committed

section Moves
variable {execute : μ → δ → δ} {batch : Nat} {a next : Thread δ μ} {message : μ}

theorem settled_idle (idle : outstanding a = []) : settled execute a = a.committed := by
  rw [settled,idle,List.foldl_nil]

theorem send_parts (sent : send a message = some next) :
    a.stage.live = true ∧ next.committed = a.committed ∧ next.stage = a.stage ∧
      outstanding next = outstanding a ++ [message] := by
  unfold send at sent
  split at sent
  · rename_i live
    cases sent
    exact ⟨live,rfl,rfl,by simp [outstanding]⟩
  · cases sent

theorem settled_send (sent : send a message = some next) : settled execute next = execute message (settled execute a) := by
  obtain ⟨_,same,_,more⟩ := send_parts sent
  rw [settled,same,more,List.foldl_concat]
  rfl

theorem send_none (refused : send a message = none) : a.stage = .ended := by
  unfold send at refused
  cases stage : a.stage with
  | ended => rfl
  | draining buf => simp [stage,Stage.live] at refused
  | committing buf => simp [stage,Stage.live] at refused

theorem receive_parts (received : receive batch a = some next) :
    next.committed = a.committed ∧ outstanding next = outstanding a ∧ a.stage.live = true ∧ next.stage.live = true := by
  unfold receive at received
  split at received
  · rename_i buf message rest stage queue
    split at received
    · cases received
      exact ⟨rfl,by simp [outstanding,stage,queue,Stage.buffer],by rw [stage]; rfl,rfl⟩
    · cases received
  · cases received

theorem begin_parts (began : begin batch a = some next) :
    next.committed = a.committed ∧ outstanding next = outstanding a ∧ a.stage.live = true ∧ next.stage.live = true := by
  unfold begin at began
  split at began
  · rename_i buf stage
    split at began
    · cases began
      exact ⟨rfl,by simp [outstanding,stage,Stage.buffer],by rw [stage]; rfl,rfl⟩
    · cases began
  · cases began

theorem commit_parts (committed : commit execute a = some next) :
    a.stage = .committing a.stage.buffer ∧ next.stage = .draining [] ∧ next.queue = a.queue ∧
      next.committed = a.stage.buffer.foldl (fun db message => execute message db) a.committed := by
  unfold commit at committed
  split at committed
  · rename_i buf stage
    cases committed
    exact ⟨by rw [stage]; rfl,rfl,rfl,by rw [stage]; rfl⟩
  · cases committed

theorem settled_commit (committed : commit execute a = some next) : settled execute next = settled execute a := by
  obtain ⟨_,stage,queue,data⟩ := commit_parts committed
  rw [settled,settled,outstanding,outstanding,stage,queue,data,List.foldl_append,List.foldl_append]
  rfl

theorem fail_parts (failed : fail a = some next) :
    next.committed = a.committed ∧ next.stage = .ended ∧ next.queue = a.queue ∧ a.stage.live = true := by
  unfold fail at failed
  split at failed
  · rename_i buf stage
    cases failed
    exact ⟨rfl,rfl,rfl,by rw [stage]; rfl⟩
  · cases failed

theorem stop_parts (stopped : stop a = some next) :
    outstanding a = [] ∧ next.committed = a.committed ∧ next.stage = .ended ∧ outstanding next = [] := by
  unfold stop at stopped
  split at stopped
  · rename_i stage queue
    cases stopped
    exact ⟨by rw [outstanding,stage,queue]; rfl,rfl,rfl,by rw [outstanding,queue]; rfl⟩
  · cases stopped

-- A property of the data that no message undoes is kept by a whole batch.
theorem foldl_keeps {holds : δ → Prop} (stable : ∀ message db, holds db → holds (execute message db))
    (batch : List μ) {db : δ} (now : holds db) : holds (batch.foldl (fun db message => execute message db) db) := by
  induction batch generalizing db with
  | nil => exact now
  | cons message rest ih => exact ih (stable message db now)

theorem commit_keeps {holds : δ → Prop} (stable : ∀ message db, holds db → holds (execute message db))
    (committed : commit execute a = some next) (now : holds a.committed) : holds next.committed := by
  rw [(commit_parts committed).2.2.2]
  exact foldl_keeps stable _ now

end Moves
end DeepFry.Actor
