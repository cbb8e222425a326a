import DeepFry.Lib.Decimal
import Mathlib.Tactic

namespace DeepFry.EventForwarder
abbrev Str := Bytes

-- Durations are in nanoseconds, and so are times, counted from the Unix epoch.
def SECOND : Int := 1000000000

def MAX_DURATION : Int := 365 * 24 * 3600 * SECOND

-- time.Duration(n) * time.Second in 64 bits.
def seconds (n : Int) : Int := Int.bmod (n * SECOND) (2^64)

def unix (t : Int) : Int := t / SECOND

-- January 1 of year 1, where the zero time stands and Truncate counts from.
def ZERO_TIME : Int := -62135596800 * SECOND

def truncate (t d : Int) : Int := if d ≤ 0 then t else t - (t - ZERO_TIME) % d

-- What the time package reads from its calendar and zones: an RFC3339 time, and a time some years later.
structure TimePackage where
  parse : Str → Option Int
  addYears : Int → Int → Int

structure Config where
  sourceRelayURL : Str
  deepFryRelayURL : Str
  nostrSecretKey : Str
  windowSeconds : Int
  maxBatch : Int
  maxCatchupLagSeconds : Int
  startTime : Str
deriving DecidableEq

def Config.validate (tp : TimePackage) (c : Config) : Except Str Unit :=
  if c.sourceRelayURL = [] then .error (Bytes.text "SOURCE_RELAY_URL is required")
  else if c.deepFryRelayURL = [] then .error (Bytes.text "DEEPFRY_RELAY_URL is required")
  else if c.nostrSecretKey = [] then .error (Bytes.text "NOSTR_SYNC_SECKEY is required")
  else if c.startTime ≠ [] ∧ tp.parse c.startTime = none then
    .error (Bytes.text "SYNC_START_TIME must be in RFC3339 format (e.g., 2020-01-01T00:00:00Z)")
  else .ok ()

structure Window where
  From : Int
  To : Int
deriving DecidableEq

inductive Value where
  | time (t : Int)
  | window (w : Window)
  | duration (d : Int)
deriving DecidableEq

structure WindowValidationError where
  field : Str
  value : Value
  message : Str
deriving DecidableEq

-- An error with the texts it was wrapped in.
inductive Failure where
  | plain (message : Str)
  | validation (e : WindowValidationError)
  | wrapped (context : Str) (cause : Failure)
deriving DecidableEq

def Window.validate (w : Window) : Except WindowValidationError Unit :=
  if w.From = ZERO_TIME then .error ⟨Bytes.text "From",.time w.From,Bytes.text "window start time cannot be zero"⟩
  else if w.To = ZERO_TIME then .error ⟨Bytes.text "To",.time w.To,Bytes.text "window end time cannot be zero"⟩
  else if ¬ w.From < w.To then .error ⟨Bytes.text "From/To",.window w,Bytes.text "window start time must be before end time"⟩
  else if w.To - w.From < SECOND then
    .error ⟨Bytes.text "Duration",.duration (w.To - w.From),Bytes.text "window duration cannot be less than 1 second"⟩
  else if w.To - w.From > MAX_DURATION then
    .error ⟨Bytes.text "Duration",.duration (w.To - w.From),Bytes.text "window duration cannot exceed 1 year"⟩
  else .ok ()

theorem validate_ok (w : Window) : w.validate = .ok () ↔
    w.From ≠ ZERO_TIME ∧ w.To ≠ ZERO_TIME ∧ SECOND ≤ w.To - w.From ∧ w.To - w.From ≤ MAX_DURATION := by
  have positive : 0 < SECOND := by decide
  unfold Window.validate
  constructor
  · intro valid
    split at valid
    · cases valid
    · rename_i started
      split at valid
      · cases valid
      · rename_i ended
        split at valid
        · cases valid
        · split at valid
          · cases valid
          · rename_i long
            split at valid
            · cases valid
            · rename_i short
              exact ⟨started,ended,by omega,by omega⟩
  · intro ⟨started,ended,long,short⟩
    rw [if_neg started,if_neg ended,if_neg (by omega),if_neg (by omega),if_neg (by omega)]

def validateDuration (d : Int) : Except WindowValidationError Unit :=
  if d ≤ 0 then .error ⟨Bytes.text "Duration",.duration d,Bytes.text "duration must be positive"⟩
  else if d < SECOND then .error ⟨Bytes.text "Duration",.duration d,Bytes.text "duration cannot be less than 1 second"⟩
  else if d > MAX_DURATION then .error ⟨Bytes.text "Duration",.duration d,Bytes.text "duration cannot exceed 1 year"⟩
  else .ok ()

def validateTimestamp (tp : TimePackage) (now t : Int) : Except WindowValidationError Unit :=
  if t = ZERO_TIME then .error ⟨Bytes.text "Timestamp",.time t,Bytes.text "timestamp cannot be zero"⟩
  else if t < tp.addYears now (-10) then
    .error ⟨Bytes.text "Timestamp",.time t,Bytes.text "timestamp cannot be more than 10 years in the past"⟩
  else if t > tp.addYears now 1 then
    .error ⟨Bytes.text "Timestamp",.time t,Bytes.text "timestamp cannot be more than 1 year in the future"⟩
  else .ok ()

def Window.next (w : Window) (d : Int) : Window := ⟨w.To,w.To + d⟩

def newWindow (now : Int) (d : Int) : Window := ⟨truncate now d,truncate now d + d⟩

def newWindowFromStart (startTime : Int) (d : Int) : Window := ⟨startTime,startTime + d⟩

def validated (w : Window) : Except WindowValidationError Window := w.validate.map fun _ => w

def safeNewWindow (now : Int) (d : Int) : Except WindowValidationError Window := do
  validateDuration d
  validated (newWindow now d)

def safeNewWindowFromStart (tp : TimePackage) (now startTime : Int) (d : Int) : Except WindowValidationError Window := do
  validateTimestamp tp now startTime
  validateDuration d
  validated (newWindowFromStart startTime d)

def Window.safeNext (w : Window) (d : Int) : Except Failure Window := do
  w.validate.mapError fun e => .wrapped (Bytes.text "invalid source window") (.validation e)
  (validateDuration d).mapError .validation
  (validated (w.next d)).mapError fun e => .wrapped (Bytes.text "invalid resulting window") (.validation e)

-- The event of kind 30078 that DeepFry holds for the forwarder's key and the source's URL.
structure SyncEvent where
  createdAt : Int
  tags : List (List Str)
deriving DecidableEq

def syncEvent (sourceURL : Str) (createdAt : Int) (w : Window) : SyncEvent where
  createdAt := createdAt
  tags := [
    [Bytes.text "d",sourceURL],
    [Bytes.text "from",Decimal.formatInt (unix w.From)],
    [Bytes.text "to",Decimal.formatInt (unix w.To)]]

-- The second item of the last tag of that name.
def lastTag (name : Str) (tags : List (List Str)) : Str :=
  tags.foldl (fun found tag => match tag with
    | head :: value :: _ => if head = name then value else found
    | _ => found) []

def parseWindow (e : SyncEvent) : Except Failure Window :=
  let fromStr := lastTag (Bytes.text "from") e.tags
  let toStr := lastTag (Bytes.text "to") e.tags
  if fromStr = [] ∨ toStr = [] then .error (.plain (Bytes.text "missing from/to tags in sync event"))
  else match Decimal.parseInt fromStr with
    | none => .error (.wrapped (Bytes.text "invalid from timestamp") (.plain fromStr))
    | some fromUnix => match Decimal.parseInt toStr with
      | none => .error (.wrapped (Bytes.text "invalid to timestamp") (.plain toStr))
      | some toUnix => .ok ⟨fromUnix * SECOND,toUnix * SECOND⟩

theorem formatInt_nonempty (value : Int) : Decimal.formatInt value ≠ [] := by
  cases value with
  | ofNat n =>
    obtain ⟨b,rest,written,_⟩ := Decimal.digits_head n
    exact fun empty => List.cons_ne_nil b rest (written.symm.trans empty)
  | negSucc n => exact List.cons_ne_nil _ _

theorem syncEvent_from (sourceURL : Str) (createdAt : Int) (w : Window) :
    lastTag (Bytes.text "from") (syncEvent sourceURL createdAt w).tags = Decimal.formatInt (unix w.From) := rfl

theorem syncEvent_to (sourceURL : Str) (createdAt : Int) (w : Window) :
    lastTag (Bytes.text "to") (syncEvent sourceURL createdAt w).tags = Decimal.formatInt (unix w.To) := rfl

-- What is read back of a recorded window is the window at whole seconds, as far as its times fit 64 bits.
theorem parseWindow_syncEvent (sourceURL : Str) (createdAt : Int) (w : Window) (start : Decimal.fits (unix w.From) = true)
    (finish : Decimal.fits (unix w.To) = true) :
    parseWindow (syncEvent sourceURL createdAt w) = .ok ⟨unix w.From * SECOND,unix w.To * SECOND⟩ := by
  unfold parseWindow
  dsimp only
  rw [syncEvent_from,syncEvent_to,if_neg fun empty => empty.elim (formatInt_nonempty _) (formatInt_nonempty _),
    Decimal.parseInt_formatInt,if_pos start,Decimal.parseInt_formatInt,if_pos finish]

theorem parseWindow_exact {sourceURL : Str} {createdAt : Int} {w last : Window}
    (parsed : parseWindow (syncEvent sourceURL createdAt w) = .ok last) : last = ⟨unix w.From * SECOND,unix w.To * SECOND⟩ := by
  unfold parseWindow at parsed
  dsimp only at parsed
  rw [syncEvent_from,syncEvent_to,if_neg fun empty => empty.elim (formatInt_nonempty _) (formatInt_nonempty _)] at parsed
  split at parsed
  · cases parsed
  · rename_i first start
    split at parsed
    · cases parsed
    · rename_i second finish
      cases parsed
      rw [Decimal.parseInt_exact start,Decimal.parseInt_exact finish]

-- queryError: what QuerySync failed with.
def getLastWindow (queryError : Option Str) (stored : Option SyncEvent) : Except Failure (Option Window) :=
  match queryError,stored with
  | some error,_ => .error (.wrapped (Bytes.text "failed to query sync events") (.plain error))
  | none,none => .ok none
  | none,some e => (parseWindow e).map some

def Config.windowDuration (c : Config) : Int := seconds c.windowSeconds

def getOrCreate (tp : TimePackage) (c : Config) (now : Int) (queryError : Option Str) (stored : Option SyncEvent) :
    Except Failure Window := do
  (validateDuration c.windowDuration).mapError fun e => .wrapped (Bytes.text "invalid window configuration") (.validation e)
  if c.startTime ≠ [] then
    match tp.parse c.startTime with
    | none => .error (.wrapped (Bytes.text "invalid start time format in window manager (expected RFC3339)") (.plain c.startTime))
    | some startTime =>
      (safeNewWindowFromStart tp now startTime c.windowDuration).mapError fun e =>
        .wrapped (Bytes.text "failed to create window from start time") (.validation e)
  else
    match ← (getLastWindow queryError stored).mapError (.wrapped (Bytes.text "failed to get last sync window")) with
    | none =>
      (safeNewWindow now c.windowDuration).mapError fun e => .wrapped (Bytes.text "failed to create initial window") (.validation e)
    | some lastWindow =>
      (lastWindow.safeNext c.windowDuration).mapError (.wrapped (Bytes.text "failed to advance from last window"))

-- An invalid step falls back to the plain one.
def advance (c : Config) (w : Window) : Window :=
  match w.safeNext c.windowDuration with
  | .ok next => next
  | .error _ => w.next c.windowDuration

end DeepFry.EventForwarder
