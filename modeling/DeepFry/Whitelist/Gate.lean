import DeepFry.Lib.Machine
import DeepFry.Whitelist.Bloom

namespace DeepFry.Whitelist

section Gate
variable {B : Type} (lib : Library B) (sha256 : Bytes → Bytes32)

structure BloomEntry where
  etag : Str
  bytes : Bytes

-- built: the filter that was swapped in last, of which the snapshot is the written form.
structure Server (B : Type) where
  list : Option (List Bytes32)
  snapshot : Option BloomEntry
  built : Option (Filter B)

def rebuild (fp : UInt64) (keys : List Bytes32) : Except Str (Filter B) :=
  (keys.foldl (Builder.add lib) (newBuilder lib keys.length fp)).build lib sha256

def swapFilter (f : Filter B) (server : Server B) : Server B := { server with snapshot := some ⟨f.etag,f.writeTo⟩, built := some f }

-- UpdateKeys and the callback of main: a failed build keeps the filter before it.
def refresh (fp : UInt64) (keys : List Bytes32) (server : Server B) : Server B :=
  match rebuild lib sha256 fp keys with
  | .error _ => { server with list := some keys }
  | .ok f => swapFilter f { server with list := some keys }

inductive Response where
  | unavailable
  | notModified (etag : Str)
  | ok (etag : Str) (body : Bytes)
deriving DecidableEq

def handleBloom (server : Server B) (ifNoneMatch : Option Str) : Response :=
  match server.snapshot with
  | none => .unavailable
  | some snap => if ifNoneMatch.getD [] = snap.etag then .notModified snap.etag else .ok snap.etag snap.bytes

-- What becomes of the response on its way: it arrives, or a 200 with another body or one that breaks off, or something in its place.
inductive Wire where
  | delivered
  | altered (body : Bytes)
  | readError
  | transportError
  | status (code : Nat)
deriving DecidableEq

inductive Received where
  | notModified
  | unavailable
  | ok (body : Bytes)
  | readError
  | transportError
  | unexpected
deriving DecidableEq

def Wire.carry : Wire → Response → Received
  | .transportError,_ => .transportError
  | .status code,_ => if code = 503 then .unavailable else .unexpected
  | _,.unavailable => .unavailable
  | _,.notModified _ => .notModified
  | .altered body,.ok _ _ => .ok body
  | .readError,.ok _ _ => .readError
  | .delivered,.ok _ body => .ok body

inductive Stage where
  | create
  | write
  | close
  | rename
deriving DecidableEq

-- idle: between two fetch cycles. fetching: FetchOnce at its attempt. waiting: the server has answered that attempt, and the answer
-- is on its way. persisting: a 200 was accepted and its body is being written.
inductive Process where
  | down
  | idle
  | fetching (attempt : Nat)
  | waiting (attempt : Nat) (sent : Response)
  | persisting (body : Bytes) (stage : Stage)
deriving DecidableEq

-- file and tmp: bloomPath and bloomPath.tmp. refreshed: the key lists and rates of all refreshes. accepted: the bodies of all accepted 200s.
-- served: the filter that was being served when the server answered last.
structure World (B : Type) where
  server : Server B
  process : Process
  filter : Option (Filter B)
  file : Option Bytes
  tmp : Option Bytes
  refreshed : List (List Bytes32 × UInt64)
  accepted : List Bytes
  served : Option (Filter B)

-- A server that has not refreshed yet: its whitelist is empty.
def Server.fresh : Server B := ⟨some [],none,none⟩

def world (file tmp : Option Bytes) (refreshed : List (List Bytes32 × UInt64)) : World B where
  server := .fresh
  process := .down
  filter := none
  file := file
  tmp := tmp
  refreshed := refreshed
  accepted := []
  served := none

-- An absent or corrupt file is ignored.
def loadDisk (w : World B) : Option (Filter B) :=
  match w.file with
  | none => w.filter
  | some bytes =>
    match (readFilter lib bytes).1 with
    | .ok f => some f
    | .error _ => w.filter

inductive Verdict where
  | done
  | retry
deriving DecidableEq

-- A failed parse is done too: the body is discarded. An accepted body is stored before it is persisted.
def doFetch (received : Received) (w : World B) : Verdict × World B :=
  match received with
  | .notModified => (.done,{ w with process := .idle })
  | .unavailable => (.retry,w)
  | .readError => (.retry,w)
  | .transportError => (.retry,w)
  | .unexpected => (.retry,w)
  | .ok body =>
    match (readFilter lib body).1 with
    | .error _ => (.done,{ w with process := .idle })
    | .ok f => (.done,{ w with filter := some f, process := .persisting body .create, accepted := body :: w.accepted })

def response (w : World B) : Response := handleBloom w.server (w.filter.map Filter.etag)

def fetchOnce (retryCount attempt : Nat) (sent : Response) (wire : Wire) (w : World B) : World B :=
  match doFetch lib (wire.carry sent) w with
  | (.done,next) => next
  | (.retry,next) => { next with process := if attempt < retryCount then .fetching (attempt + 1) else .idle }

inductive Action where
  | refresh (fp : UInt64) (keys : List Bytes32)
  | restart
  | start
  | tick
  | answer
  | fetch (wire : Wire)
  | written (n : Nat)
  | persist (failed : Bool) (removed : Bool)
  | crash

-- One call of persist: os.Create empties the temporary file, and a failure after it removes that file as far as that succeeds.
def persist (failed removed : Bool) (body : Bytes) (stage : Stage) (w : World B) : World B :=
  if failed then
    { w with process := .idle, tmp := if stage ≠ .create ∧ removed then none else w.tmp }
  else match stage with
  | .create => { w with process := .persisting body .write, tmp := some [] }
  | .write => { w with process := .persisting body .close, tmp := some body }
  | .close => { w with process := .persisting body .rename }
  | .rename => { w with process := .idle, file := w.tmp, tmp := none }

-- restart is the server's, start and crash are the plugin's. answer: the handler loads its snapshot; what it answers arrives, or is lost,
-- later. written: part of the body is on disk while it is being written.
def step (retryCount : Nat) (w : World B) : Action → Option (World B)
  | .refresh fp keys => some { w with server := refresh lib sha256 fp keys w.server, refreshed := (keys,fp) :: w.refreshed }
  | .restart => some { w with server := .fresh }
  | .start => if w.process = .down then some { w with filter := loadDisk lib w, process := .fetching 0 } else none
  | .tick => if w.process = .idle then some { w with process := .fetching 0 } else none
  | .answer =>
    match w.process with
    | .fetching attempt => some { w with process := .waiting attempt (response w), served := w.server.built }
    | _ => none
  | .fetch wire =>
    match w.process with
    | .waiting attempt sent =>
      if wire = .status 200 ∨ wire = .status 304 then none else some (fetchOnce lib retryCount attempt sent wire w)
    | _ => none
  | .written n =>
    match w.process with
    | .persisting body .write => some { w with tmp := some (body.take n) }
    | _ => none
  | .persist failed removed =>
    match w.process with
    | .persisting body stage => some (persist failed removed body stage w)
    | _ => none
  | .crash => some { w with process := .down, filter := none }

-- IsWhitelisted of the BloomChecker; none: it waits for a first filter.
def checkerAnswers (unicode : Unicode) (w : World B) (s : Str) : Option Answer := w.filter.map fun f => f.containsHex lib unicode s

end Gate

section Fetching
variable {B : Type} {lib : Library B} {wire : Wire} {sent : Response} {body : Bytes} {w : World B}

theorem carry_status (code : Nat) (sent : Response) :
    (Wire.status code).carry sent = if code = 503 then .unavailable else .unexpected := by
  cases sent with
  | _ => rfl

-- A body that arrives is the one sent or an altered one.
theorem carry_ok (received : wire.carry sent = .ok body) :
    ∃ etag content, sent = .ok etag content ∧ (wire = .altered body ∨ wire = .delivered ∧ body = content) := by
  cases wire with
  | status code =>
    rw [carry_status] at received
    split at received
    · cases received
    · cases received
  | transportError => cases received
  | readError =>
    cases sent with
    | _ => cases received
  | delivered =>
    cases sent with
    | ok etag content =>
      cases received
      exact ⟨etag,_,rfl,.inr ⟨rfl,rfl⟩⟩
    | _ => cases received
  | altered other =>
    cases sent with
    | ok etag content =>
      cases received
      exact ⟨etag,content,rfl,.inl rfl⟩
    | _ => cases received

theorem carry_notModified (received : wire.carry sent = .notModified) : ∃ etag, sent = .notModified etag := by
  cases wire with
  | status code =>
    rw [carry_status] at received
    split at received
    · cases received
    · cases received
  | transportError => cases received
  | _ =>
    cases sent with
    | notModified etag => exact ⟨etag,rfl⟩
    | _ => cases received

theorem response_ok {etag : Str} (answered : response w = .ok etag body) :
    ∃ snap, w.server.snapshot = some snap ∧ snap.bytes = body ∧ (w.filter.map Filter.etag).getD [] ≠ snap.etag := by
  unfold response handleBloom at answered
  split at answered
  · cases answered
  · rename_i snap held
    split at answered
    · cases answered
    · rename_i differs
      cases answered
      exact ⟨snap,held,rfl,differs⟩

theorem response_notModified {etag : Str} (answered : response w = .notModified etag) :
    ∃ snap, w.server.snapshot = some snap ∧ (w.filter.map Filter.etag).getD [] = snap.etag := by
  unfold response handleBloom at answered
  split at answered
  · cases answered
  · rename_i snap held
    split at answered
    · rename_i same
      exact ⟨snap,held,same⟩
    · cases answered

-- What one attempt leaves: everything but the process as it was, or the filter of a body that was accepted.
inductive Fetched (lib : Library B) (received : Received) (w : World B) : World B → Prop where
  | kept (process : Process) : (∀ body stage, process ≠ .persisting body stage) → (∀ attempt sent, process ≠ .waiting attempt sent) →
      Fetched lib received w { w with process }
  | stored (body : Bytes) (f : Filter B) : received = .ok body → (readFilter lib body).1 = .ok f →
      Fetched lib received w { w with filter := some f, process := .persisting body .create, accepted := body :: w.accepted }

theorem fetchOnce_fetched (retryCount attempt : Nat) (sent : Response) (wire : Wire) (w : World B) :
    Fetched lib (wire.carry sent) w (fetchOnce lib retryCount attempt sent wire w) := by
  have again : ∀ received, Fetched lib received w
      { w with process := if attempt < retryCount then .fetching (attempt + 1) else .idle } := by
    intro received
    split
    · exact .kept _ (fun _ _ => nofun) fun _ _ => nofun
    · exact .kept _ (fun _ _ => nofun) fun _ _ => nofun
  unfold fetchOnce doFetch
  cases wire.carry sent with
  | notModified => exact .kept _ (fun _ _ => nofun) fun _ _ => nofun
  | unavailable | readError | transportError | unexpected => exact again _
  | ok body =>
    dsimp only
    cases read : (readFilter lib body).1 with
    | error e => exact .kept _ (fun _ _ => nofun) fun _ _ => nofun
    | ok f => exact .stored body f rfl read

-- What one step can do.
inductive Step (lib : Library B) (sha256 : Bytes → Bytes32) (retryCount : Nat) (w : World B) : Action → World B → Prop where
  | refresh (fp : UInt64) (keys : List Bytes32) : Step lib sha256 retryCount w (.refresh fp keys)
      { w with server := refresh lib sha256 fp keys w.server, refreshed := (keys,fp) :: w.refreshed }
  | restart : Step lib sha256 retryCount w .restart { w with server := .fresh }
  | start : w.process = .down → Step lib sha256 retryCount w .start { w with filter := loadDisk lib w, process := .fetching 0 }
  | tick : w.process = .idle → Step lib sha256 retryCount w .tick { w with process := .fetching 0 }
  | answer {attempt : Nat} : w.process = .fetching attempt →
      Step lib sha256 retryCount w .answer { w with process := .waiting attempt (response w), served := w.server.built }
  | fetch {next : World B} {attempt : Nat} {sent : Response} (wire : Wire) : w.process = .waiting attempt sent →
      Fetched lib (wire.carry sent) w next → Step lib sha256 retryCount w (.fetch wire) next
  | written {body : Bytes} (n : Nat) : w.process = .persisting body .write →
      Step lib sha256 retryCount w (.written n) { w with tmp := some (body.take n) }
  | persist {body : Bytes} {stage : Stage} (failed removed : Bool) : w.process = .persisting body stage →
      Step lib sha256 retryCount w (.persist failed removed) (persist failed removed body stage w)
  | crash : Step lib sha256 retryCount w .crash { w with process := .down, filter := none }

theorem step_cases {sha256 : Bytes → Bytes32} {retryCount : Nat} {next : World B} {action : Action}
    (moved : step lib sha256 retryCount w action = some next) : Step lib sha256 retryCount w action next := by
  unfold step at moved
  cases action with
  | refresh fp keys =>
    cases moved
    exact .refresh fp keys
  | restart =>
    cases moved
    exact .restart
  | start =>
    dsimp only at moved
    split at moved
    · cases moved
      exact .start ‹_›
    · cases moved
  | tick =>
    dsimp only at moved
    split at moved
    · cases moved
      exact .tick ‹_›
    · cases moved
  | answer =>
    dsimp only at moved
    split at moved
    · cases moved
      exact .answer ‹_›
    · cases moved
  | fetch wire =>
    dsimp only at moved
    split at moved
    · split at moved
      · cases moved
      · cases moved
        exact .fetch wire ‹_› (fetchOnce_fetched retryCount _ _ wire w)
    · cases moved
  | written n =>
    dsimp only at moved
    split at moved
    · cases moved
      exact .written n ‹_›
    · cases moved
  | persist failed removed =>
    dsimp only at moved
    split at moved
    · cases moved
      exact .persist failed removed ‹_›
    · cases moved
  | crash =>
    cases moved
    exact .crash
end Fetching

section Building
variable {B : Type} {lib : Library B} {sha256 : Bytes → Bytes32} {fp : UInt64} {keys : List Bytes32} {f : Filter B} {b : Builder B} {k : Bytes}

theorem build_ok (built : b.build lib sha256 = .ok f) :
    lib.marshalBinary b.bf = .ok f.payload ∧ f.bf = b.bf ∧ f.fp = b.fp ∧ f.gen = sha256 f.payload := by
  unfold Builder.build at built
  split at built
  · cases built
  · rename_i payload marshalled
    cases built
    exact ⟨marshalled,rfl,rfl,rfl⟩

theorem addAll_kept (lawful : lib.Lawful) (held : lib.test b.bf k = true) : lib.test (keys.foldl (Builder.add lib) b).bf k = true := by
  induction keys generalizing b with
  | nil => exact held
  | cons key rest ih => exact ih (lawful.kept _ _ _ held)

theorem addAll_added (lawful : lib.Lawful) {key : Bytes32} (member : key ∈ keys) :
    lib.test (keys.foldl (Builder.add lib) b).bf key.bytes = true := by
  induction keys generalizing b with
  | nil => cases member
  | cons first rest ih =>
    rcases List.mem_cons.mp member with rfl | later
    · exact addAll_kept (b := b.add lib key) lawful (lawful.added b.bf key.bytes)
    · exact ih later

-- The filter of a key list holds each of its keys.
theorem rebuild_contains (lawful : lib.Lawful) (built : rebuild lib sha256 fp keys = .ok f) {key : Bytes32} (member : key ∈ keys) :
    f.contains lib key.bytes = true := by
  obtain ⟨_,same,_⟩ := build_ok built
  unfold Filter.contains
  rw [same]
  exact addAll_added lawful member

theorem rebuild_marshalled (built : rebuild lib sha256 fp keys = .ok f) : lib.marshalBinary f.bf = .ok f.payload ∧ f.gen = sha256 f.payload := by
  obtain ⟨marshalled,same,_,gen⟩ := build_ok built
  exact ⟨same.symm ▸ marshalled,gen⟩

-- Reading the written form of a built filter gives that filter or nothing.
theorem reread (lawful : lib.Lawful) {g : Filter B} {rest : Bytes} (marshalled : lib.marshalBinary f.bf = .ok f.payload)
    (read : readFilter lib f.writeTo = (.ok g,rest)) : g = f := by
  obtain ⟨written,_,short,readable⟩ := readFilter_ok read
  have short : g.payload.length < 2^63 := by
    unfold maxPayloadBytes at short
    omega
  obtain ⟨rate,gen,payload⟩ := writeTo_injective short (lib.sliced _ _ marshalled) written.symm
  have binary : g.bf = f.bf := by
    rw [payload,lawful.inverts _ _ marshalled] at readable
    exact (Except.ok.inj readable).symm
  cases g
  cases f
  dsimp only at rate gen payload binary
  rw [rate,gen,payload,binary]
end Building
end DeepFry.Whitelist
