import DeepFry.Lib.Actor
import DeepFry.Lib.Bytes
import Mathlib.Data.List.AList
import Mathlib.Data.List.MinMax

namespace DeepFry.Spamhunter
abbrev Str := Bytes
abbrev Table (κ ν : Type) := AList fun _ : κ => ν

-- Scores and layer values are floating point; nothing in the store computes with them.
variable {F : Type}

structure SubScore (F : Type) where
  layer : Str
  value : F
  evidence : Option Str
deriving DecidableEq

structure Persist (F : Type) where
  runId : Nat
  pubkey : Str
  score : F
  whitelisted : Bool
  suspected : Bool
  subscores : List (SubScore F)
deriving DecidableEq

structure Fingerprint where
  runId : Nat
  pubkey : Str
  contentHash : Int
  simhash : Int
deriving DecidableEq

inductive WriteMsg (F : Type) where
  | Score (p : Persist F)
  | Pubkeys (pks : List Str)
  | Fingerprints (fps : List Fingerprint)
  | Flush
deriving DecidableEq

structure Score (F : Type) where
  score : F
  whitelisted : Bool
  suspected : Bool
deriving DecidableEq

structure Signal (F : Type) where
  value : F
  evidence : Option Str
deriving DecidableEq

-- The tables that only the writer thread touches, by their primary keys.
structure Tables (F : Type) where
  pubkey : Table Str Unit
  score : Table (Nat × Str) (Score F)
  signal : Table (Nat × Str × Str) (Signal F)
  fingerprint : Table (Nat × Str × Int) Int

def Tables.empty : Tables F := ⟨∅,∅,∅,∅⟩

def upPubkey (pk : Str) (db : Tables F) : Tables F :=
  if pk ∈ db.pubkey then db else { db with pubkey := db.pubkey.insert pk () }

def upScore (p : Persist F) (db : Tables F) : Tables F :=
  { db with score := db.score.insert (p.runId,p.pubkey) ⟨p.score,p.whitelisted,p.suspected⟩ }

def upSignal (p : Persist F) (db : Tables F) (s : SubScore F) : Tables F :=
  { db with signal := db.signal.insert (p.runId,p.pubkey,s.layer) ⟨s.value,s.evidence⟩ }

def upFingerprint (fp : Fingerprint) (db : Tables F) : Tables F :=
  { db with fingerprint := db.fingerprint.insert (fp.runId,fp.pubkey,fp.contentHash) fp.simhash }

def execute : WriteMsg F → Tables F → Tables F
  | .Score p,db => p.subscores.foldl (upSignal p) (upScore p (upPubkey p.pubkey db))
  | .Pubkeys pks,db => pks.foldl (fun db pk => upPubkey pk db) db
  | .Fingerprints fps,db => fps.foldl (fun db fp => upFingerprint fp (upPubkey fp.pubkey db)) db
  | .Flush,db => db

-- SELECT pubkey FROM pubkey ORDER BY pubkey
def readPubkeys (db : Tables F) : List Str := db.pubkey.keys.insertionSort (· ≤ ·)

inductive RunStatus where
  | running
  | aborted
  | done
deriving DecidableEq

structure Run where
  runId : Nat
  startedAt : Int
  finishedAt : Option Int
  maxLevIdStart : Option Int
  maxLevIdEnd : Option Int
  lastCursor : Option Str
  configJson : Str
  status : RunStatus
deriving DecidableEq

-- The run table with its AUTOINCREMENT sequence: no id is ever given twice.
structure Runs where
  rows : List Run
  sequence : Nat
  keyed : (rows.map (·.runId)).Nodup
  issued : ∀ run ∈ rows, run.runId ≤ sequence

def Runs.empty : Runs := ⟨[],0,List.nodup_nil,by simp⟩

def Runs.row (t : Runs) (runId : Nat) : Option Run := t.rows.find? (·.runId = runId)

def Runs.update (t : Runs) (runId : Nat) (set : Run → Run) (keeps : ∀ run, (set run).runId = run.runId) : Runs where
  rows := t.rows.map fun run => if run.runId = runId then set run else run
  sequence := t.sequence
  keyed := by
    have same : (fun run : Run => run.runId) ∘ (fun run => if run.runId = runId then set run else run) = (·.runId) := by
      funext run
      by_cases here : run.runId = runId <;> simp [here,keeps]
    rw [List.map_map,same]
    exact t.keyed
  issued := by
    intro run member
    obtain ⟨old,stored,rfl⟩ := List.mem_map.mp member
    have bound := t.issued old stored
    by_cases here : old.runId = runId
    · rw [if_pos here,keeps]; exact bound
    · rw [if_neg here]; exact bound

def beginRun (now : Int) (configJson : Str) (t : Runs) : Runs where
  rows := t.rows ++ [⟨t.sequence + 1,now,none,none,none,none,configJson,.running⟩]
  sequence := t.sequence + 1
  keyed := by
    rw [List.map_append,List.nodup_append]
    refine ⟨t.keyed,List.nodup_singleton _,?_⟩
    intro old present new last
    obtain ⟨run,stored,rfl⟩ := List.mem_map.mp present
    have bound := t.issued run stored
    cases List.mem_singleton.mp last
    change run.runId ≠ t.sequence + 1
    omega
  issued := by
    intro run member
    rcases List.mem_append.mp member with old | new
    · exact (t.issued run old).trans (Nat.le_succ _)
    · cases List.mem_singleton.mp new
      exact le_refl _

def latestUnfinishedRun (t : Runs) : Option Run := (t.rows.filter (·.status ≠ .done)).argmax (·.runId)

def setRunCursor (t : Runs) (runId : Nat) (cursor : Str) : Runs :=
  t.update runId (fun run => { run with lastCursor := some cursor }) fun _ => rfl

def setRunMaxLevStart (t : Runs) (runId : Nat) (v : Int) : Runs :=
  t.update runId (fun run => { run with maxLevIdStart := some v }) fun _ => rfl

def setRunConfigJson (t : Runs) (runId : Nat) (configJson : Str) : Runs :=
  t.update runId (fun run => { run with configJson }) fun _ => rfl

def setRunMaxLevEnd (t : Runs) (runId : Nat) (v : Int) : Runs :=
  t.update runId (fun run => { run with maxLevIdEnd := some v }) fun _ => rfl

def markRunAborted (t : Runs) (runId : Nat) (now : Int) : Runs :=
  t.update runId (fun run => { run with status := .aborted, finishedAt := some now }) fun _ => rfl

-- none: the UPDATE did not match exactly one row.
def markRunDone (t : Runs) (runId : Nat) (now maxLevIdEnd : Int) : Option Runs :=
  if (t.rows.filter (·.runId = runId)).length = 1 then
    some (t.update runId (fun run => { run with status := .done, finishedAt := some now, maxLevIdEnd := some maxLevIdEnd })
      fun _ => rfl)
  else none

-- Read back max_lev_id_end; a missing row and a null column give none alike.
def readMaxLevEnd (t : Runs) (runId : Nat) : Option Int := (t.row runId).bind (·.maxLevIdEnd)

-- Rows that reference a run are refused unless the run row is there.
def foreignKeys (t : Runs) : WriteMsg F → Bool
  | .Score p => (t.row p.runId).isSome
  | .Fingerprints fps => fps.all fun fp => (t.row fp.runId).isSome
  | .Pubkeys _ | .Flush => true

section Writer
@[simp] theorem upPubkey_pubkey (pk other : Str) (db : Tables F) :
    other ∈ (upPubkey pk db).pubkey ↔ other = pk ∨ other ∈ db.pubkey := by
  unfold upPubkey
  split
  · rename_i present
    constructor
    · exact .inr
    · rintro (rfl | old)
      · exact present
      · exact old
  · simp

@[simp] theorem upPubkey_score (pk : Str) (db : Tables F) : (upPubkey pk db).score = db.score := by
  unfold upPubkey; split <;> rfl

@[simp] theorem upPubkey_signal (pk : Str) (db : Tables F) : (upPubkey pk db).signal = db.signal := by
  unfold upPubkey; split <;> rfl

@[simp] theorem upSignals_pubkey (p : Persist F) (subscores : List (SubScore F)) (db : Tables F) :
    (subscores.foldl (upSignal p) db).pubkey = db.pubkey := by
  induction subscores generalizing db with
  | nil => rfl
  | cons s rest ih => exact ih _

@[simp] theorem upSignals_score (p : Persist F) (subscores : List (SubScore F)) (db : Tables F) :
    (subscores.foldl (upSignal p) db).score = db.score := by
  induction subscores generalizing db with
  | nil => rfl
  | cons s rest ih => exact ih _

theorem upPubkeys_pubkey (pks : List Str) (other : Str) (db : Tables F) :
    other ∈ (pks.foldl (fun db pk => upPubkey pk db) db).pubkey ↔ other ∈ pks ∨ other ∈ db.pubkey := by
  induction pks generalizing db with
  | nil => simp
  | cons pk rest ih => rw [List.foldl_cons,ih,upPubkey_pubkey,List.mem_cons]; tauto

@[simp] theorem upPubkeys_score (pks : List Str) (db : Tables F) :
    (pks.foldl (fun db pk => upPubkey pk db) db).score = db.score := by
  induction pks generalizing db with
  | nil => rfl
  | cons pk rest ih => rw [List.foldl_cons,ih,upPubkey_score]

@[simp] theorem upPubkeys_signal (pks : List Str) (db : Tables F) :
    (pks.foldl (fun db pk => upPubkey pk db) db).signal = db.signal := by
  induction pks generalizing db with
  | nil => rfl
  | cons pk rest ih => rw [List.foldl_cons,ih,upPubkey_signal]

theorem upFingerprints_parts (fps : List Fingerprint) (db : Tables F) :
    let next := fps.foldl (fun db fp => upFingerprint fp (upPubkey fp.pubkey db)) db
    next.score = db.score ∧ next.signal = db.signal ∧
      ∀ other, other ∈ next.pubkey ↔ other ∈ fps.map (·.pubkey) ∨ other ∈ db.pubkey := by
  induction fps generalizing db with
  | nil => simp
  | cons fp rest ih =>
    obtain ⟨score,signal,pubkey⟩ := ih (upFingerprint fp (upPubkey fp.pubkey db))
    refine ⟨score.trans (upPubkey_score _ _),signal.trans (upPubkey_signal _ _),fun other => ?_⟩
    have one : other ∈ (upFingerprint fp (upPubkey fp.pubkey db)).pubkey ↔ other = fp.pubkey ∨ other ∈ db.pubkey :=
      upPubkey_pubkey _ _ _
    rw [List.foldl_cons,pubkey,one,List.map_cons,List.mem_cons]
    tauto

-- The pubkeys a message brings.
def brings : WriteMsg F → List Str
  | .Score p => [p.pubkey]
  | .Pubkeys pks => pks
  | .Fingerprints fps => fps.map (·.pubkey)
  | .Flush => []

theorem execute_pubkey (message : WriteMsg F) (other : Str) (db : Tables F) :
    other ∈ (execute message db).pubkey ↔ other ∈ brings message ∨ other ∈ db.pubkey := by
  cases message with
  | Score p =>
    have same : (execute (.Score p) db).pubkey = (upPubkey p.pubkey db).pubkey := upSignals_pubkey _ _ _
    rw [same,upPubkey_pubkey,brings,List.mem_singleton]
  | Pubkeys pks => exact upPubkeys_pubkey _ _ _
  | Fingerprints fps => exact (upFingerprints_parts fps db).2.2 other
  | Flush => simp [execute,brings]

end Writer

section Runs
variable {t : Runs} {runId : Nat} {set : Run → Run} {keeps : ∀ run, (set run).runId = run.runId}

theorem mem_update {run : Run} :
    run ∈ (t.update runId set keeps).rows ↔ ∃ old ∈ t.rows, (if old.runId = runId then set old else old) = run :=
  List.mem_map

theorem rows_unique {left right : Run} (first : left ∈ t.rows) (second : right ∈ t.rows)
    (same : left.runId = right.runId) : left = right := List.inj_on_of_nodup_map t.keyed first second same

theorem row_some {run : Run} : t.row runId = some run ↔ run ∈ t.rows ∧ run.runId = runId := by
  constructor
  · intro found
    exact ⟨List.mem_of_find?_eq_some found,by simpa using List.find?_some found⟩
  · rintro ⟨stored,rfl⟩
    cases found : t.row run.runId with
    | none =>
      have apart := List.find?_eq_none.mp found run stored
      simp at apart
    | some other =>
      have known : other.runId = run.runId := by simpa using List.find?_some found
      rw [rows_unique (List.mem_of_find?_eq_some found) stored known]

theorem latest_some {run : Run} (latest : latestUnfinishedRun t = some run) :
    run ∈ t.rows ∧ run.status ≠ .done ∧ ∀ other ∈ t.rows, other.status ≠ .done → other.runId ≤ run.runId := by
  have chosen := List.mem_filter.mp (List.argmax_mem latest)
  refine ⟨chosen.1,by simpa using chosen.2,fun other stored open_ => ?_⟩
  exact List.le_of_mem_argmax (List.mem_filter.mpr ⟨stored,by simpa using open_⟩) latest

theorem latest_none (latest : latestUnfinishedRun t = none) : ∀ run ∈ t.rows, run.status = .done := by
  intro run stored
  by_contra open_
  have absent := List.filter_eq_nil_iff.mp (List.argmax_eq_none.mp latest) run stored
  exact absent (by simpa using open_)

-- A write that leaves every run its cursor, and adds no run.
def Calm (t next : Runs) : Prop :=
  next.sequence = t.sequence ∧ ∀ run ∈ next.rows, ∃ old ∈ t.rows, run.runId = old.runId ∧ run.lastCursor = old.lastCursor

theorem Calm.refl (t : Runs) : Calm t t := ⟨rfl,fun run stored => ⟨run,stored,rfl,rfl⟩⟩

theorem calm_update (t : Runs) (runId : Nat) (set : Run → Run) (keeps : ∀ run, (set run).runId = run.runId)
    (same : ∀ run, (set run).lastCursor = run.lastCursor) : Calm t (t.update runId set keeps) := by
  refine ⟨rfl,fun run member => ?_⟩
  obtain ⟨old,stored,rfl⟩ := mem_update.mp member
  refine ⟨old,stored,?_⟩
  by_cases here : old.runId = runId
  · rw [if_pos here,same,keeps]; exact ⟨rfl,rfl⟩
  · rw [if_neg here]; exact ⟨rfl,rfl⟩

theorem calm_config (t : Runs) (runId : Nat) (configJson : Str) : Calm t (setRunConfigJson t runId configJson) :=
  calm_update t _ _ _ fun _ => rfl

theorem calm_maxLevStart (t : Runs) (runId : Nat) (v : Int) : Calm t (setRunMaxLevStart t runId v) :=
  calm_update t _ _ _ fun _ => rfl

theorem calm_maxLevEnd (t : Runs) (runId : Nat) (v : Int) : Calm t (setRunMaxLevEnd t runId v) :=
  calm_update t _ _ _ fun _ => rfl

theorem calm_aborted (t : Runs) (runId : Nat) (now : Int) : Calm t (markRunAborted t runId now) :=
  calm_update t _ _ _ fun _ => rfl

theorem calm_done {t next : Runs} {runId : Nat} {now maxLevIdEnd : Int}
    (marked : markRunDone t runId now maxLevIdEnd = some next) : Calm t next := by
  unfold markRunDone at marked
  split at marked <;> cases marked
  exact calm_update t _ _ _ fun _ => rfl

-- A write that marks no run done.
def Unclosed (t next : Runs) : Prop :=
  ∀ run ∈ next.rows, run.status = .done → ∃ old ∈ t.rows, old.runId = run.runId ∧ old.status = .done

theorem Unclosed.refl (t : Runs) : Unclosed t t := fun run stored closed => ⟨run,stored,rfl,closed⟩

theorem unclosed_update (t : Runs) (runId : Nat) (set : Run → Run) (keeps : ∀ run, (set run).runId = run.runId)
    (same : ∀ run, (set run).status = .done → run.status = .done) : Unclosed t (t.update runId set keeps) := by
  intro run member closed
  obtain ⟨old,stored,rfl⟩ := mem_update.mp member
  refine ⟨old,stored,?_⟩
  by_cases here : old.runId = runId
  · rw [if_pos here] at closed ⊢; exact ⟨(keeps old).symm,same old closed⟩
  · rw [if_neg here] at closed ⊢; exact ⟨rfl,closed⟩

theorem unclosed_config (t : Runs) (runId : Nat) (configJson : Str) : Unclosed t (setRunConfigJson t runId configJson) :=
  unclosed_update t _ _ _ fun _ done => done

theorem unclosed_maxLevStart (t : Runs) (runId : Nat) (v : Int) : Unclosed t (setRunMaxLevStart t runId v) :=
  unclosed_update t _ _ _ fun _ done => done

theorem unclosed_maxLevEnd (t : Runs) (runId : Nat) (v : Int) : Unclosed t (setRunMaxLevEnd t runId v) :=
  unclosed_update t _ _ _ fun _ done => done

theorem unclosed_cursor (t : Runs) (runId : Nat) (cursor : Str) : Unclosed t (setRunCursor t runId cursor) :=
  unclosed_update t _ _ _ fun _ done => done

theorem unclosed_aborted (t : Runs) (runId : Nat) (now : Int) : Unclosed t (markRunAborted t runId now) :=
  unclosed_update t _ _ _ nofun

theorem unclosed_begin (t : Runs) (now : Int) (configJson : Str) : Unclosed t (beginRun now configJson t) := by
  intro run member closed
  rcases List.mem_append.mp member with old | new
  · exact ⟨run,old,rfl,closed⟩
  · cases List.mem_singleton.mp new; cases closed

def Open (t : Runs) (runId : Nat) : Prop := ∀ run ∈ t.rows, run.runId = runId → run.status ≠ .done

theorem Open.unclosed {t after : Runs} {runId : Nat} (unclosed : Unclosed t after) (opened : Open t runId) :
    Open after runId := by
  intro run stored same done
  obtain ⟨old,known,sameId,closed⟩ := unclosed run stored done
  exact opened old known (sameId.trans same) closed

theorem update_origin {run : Run} (member : run ∈ (t.update runId set keeps).rows) :
    ∃ old ∈ t.rows, old.runId = run.runId ∧ (run = old ∨ old.runId = runId ∧ run = set old) := by
  obtain ⟨old,stored,rfl⟩ := mem_update.mp member
  refine ⟨old,stored,?_⟩
  by_cases here : old.runId = runId
  · rw [if_pos here]; exact ⟨(keeps old).symm,.inr ⟨here,rfl⟩⟩
  · rw [if_neg here]; exact ⟨rfl,.inl rfl⟩

theorem cursor_origin {run : Run} {cursor : Str} (member : run ∈ (setRunCursor t runId cursor).rows) :
    run ∈ t.rows ∨ run.runId = runId ∧ run.lastCursor = some cursor := by
  rw [setRunCursor] at member
  obtain ⟨old,stored,same,rfl | ⟨here,rfl⟩⟩ := update_origin member
  · exact .inl stored
  · exact .inr ⟨same.symm.trans here,rfl⟩

end Runs
end DeepFry.Spamhunter
