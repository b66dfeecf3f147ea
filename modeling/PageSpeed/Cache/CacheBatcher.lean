import PageSpeed.Cache.CacheInterface
import PageSpeed.Lib.Bag
import PageSpeed.Lib.Machine

/-!
The batcher of `kernel/cache/cache_batcher.cc` with its lookups at the backend.
An action is one critical section of the batcher's mutex or one call between
the backend and a callback; any order of them is a run.
-/

namespace PageSpeed

open Bag

abbrev Callback := ℕ

structure CacheBatcher where
  maxParallelLookups : ℕ
  maxPendingGets : ℕ
  inFlight : ListMap GoogleString Callback
  queued : ListMap GoogleString Callback
  lastBatchSize : ℤ
  numInFlightGroups : ℤ
  numInFlightKeys : ℤ
  numPendingGets : ℤ
  shutdown : Bool
  droppedGets : ℕ
  coalescedGets : ℕ
  queuedGets : ℕ

namespace CacheBatcher

def canIssueGet (b : CacheBatcher) : Bool :=
  !b.shutdown && decide (b.numInFlightGroups < b.maxParallelLookups)

def canQueueCallback (b : CacheBatcher) : Bool :=
  !b.shutdown && decide (b.numPendingGets < b.maxPendingGets)

structure CallbackRecord where
  callback : Callback
  available : Bool
  state : KeyState

structure MultiCallback where
  key : GoogleString
  group : ℕ
  saved : List CallbackRecord
  reporting : Bool

/-- The lookup has yet to take its key out of `in_flight_`. -/
def MultiCallback.waiting (m : MultiCallback) : Bool := m.saved.isEmpty && !m.reporting

/-- The batcher, the `MultiCallback`s handed to the backend, and the outstanding lookups of each `Group`;
`completing` groups are about to call `GroupComplete`, and the callbacks of `dropping` to be told
`kNotFound`. `passed` and `reported` remember every callback given to `Get` and every `Done` call. -/
structure System extends CacheBatcher where
  lookups : List MultiCallback
  outstandingLookups : ℕ → ℤ
  nextGroup : ℕ
  completing : ℕ
  dropping : List Callback
  passed : List Callback
  reported : List (Callback × KeyState)
  checkFailed : Bool

def System.new (maxParallelLookups maxPendingGets : ℕ) : System where
  maxParallelLookups := maxParallelLookups
  maxPendingGets := maxPendingGets
  inFlight := ∅
  queued := ∅
  lastBatchSize := -1
  numInFlightGroups := 0
  numInFlightKeys := 0
  numPendingGets := 0
  shutdown := false
  droppedGets := 0
  coalescedGets := 0
  queuedGets := 0
  lookups := []
  outstandingLookups := fun _ => 0
  nextGroup := 0
  completing := 0
  dropping := []
  passed := []
  reported := []
  checkFailed := false

/-- A new `Group` with one `MultiCallback` for each key. -/
def System.startGroup (s : System) (keys : List GoogleString) : System :=
  { s with
    lookups := s.lookups ++ keys.map fun key => ⟨key, s.nextGroup, [], false⟩
    outstandingLookups := Function.update s.outstandingLookups s.nextGroup keys.length
    nextGroup := s.nextGroup + 1 }

def System.get (s : System) (key : GoogleString) (callback : Callback) : System :=
  if s.canQueueCallback ∧ key ∈ s.inFlight then
    { s with
      inFlight := push s.inFlight key callback
      numPendingGets := s.numPendingGets + 1
      coalescedGets := s.coalescedGets + 1
      passed := callback :: s.passed }
  else if s.canIssueGet then
    System.startGroup
      { s with
        numInFlightGroups := s.numInFlightGroups + 1
        numPendingGets := s.numPendingGets + 1
        numInFlightKeys := s.numInFlightKeys + 1
        inFlight := push s.inFlight key callback
        passed := callback :: s.passed } [key]
  else if s.canQueueCallback then
    { s with
      queued := push s.queued key callback
      queuedGets := s.queuedGets + 1
      numPendingGets := s.numPendingGets + 1
      passed := callback :: s.passed }
  else { s with dropping := callback :: s.dropping, passed := callback :: s.passed }

def System.moveQueuedKeys (s : System) : System :=
  { s with
    numInFlightKeys := s.numInFlightKeys + s.queued.entries.length
    inFlight := s.queued.entries.foldl emplace s.inFlight
    queued := ∅ }

def System.createRequestForQueuedKeys (s : System) : System := (s.startGroup s.queued.keys).moveQueuedKeys

def System.groupComplete (s : System) : System :=
  if s.queued.entries.isEmpty then { s with numInFlightGroups := s.numInFlightGroups - 1 }
  else System.createRequestForQueuedKeys { s with lastBatchSize := s.queued.entries.length }

def System.shutDown (s : System) : System :=
  if s.queued.entries.isEmpty then { s with shutdown := true }
  else
    System.createRequestForQueuedKeys
      { s with shutdown := true, numInFlightGroups := s.numInFlightGroups + 1 }

/-- `valid` is what each callback's own `ValidateCandidate` says. -/
def CallbackRecord.validate (valid : Callback → Bool) (state : KeyState) (r : CallbackRecord) : CallbackRecord :=
  if r.available then r
  else
    let result := validateAndReportResult state (valid r.callback)
    { r with available := result = .available, state := result }

/-- `ValidateCandidate` of the lookup at `i`, with the `CHECK` of `ExtractInFlightKeys`. -/
def System.validateCandidate (s : System) (i : ℕ) (m : MultiCallback) (valid : Callback → Bool)
    (state : KeyState) : System :=
  if m.saved.isEmpty then
    match s.inFlight.lookup m.key with
    | none => { s with checkFailed := true }
    | some callbacks =>
      { s with
        inFlight := s.inFlight.erase m.key
        lookups := s.lookups.set i
          { m with saved := callbacks.map fun c => CallbackRecord.validate valid state ⟨c, false, state⟩ } }
  else { s with lookups := s.lookups.set i { m with saved := m.saved.map (CallbackRecord.validate valid state) } }

inductive Action where
  | get (key : GoogleString) (callback : Callback)
  | validateCandidate (i : ℕ) (valid : Callback → Bool) (state : KeyState)
  | done (i : ℕ)
  | callbackDone (i : ℕ)
  | groupDone (i : ℕ)
  | groupComplete
  | reportDropped (i : ℕ)
  | shutDown

/-- The backend calls `ValidateCandidate` at least once before `Done`. -/
def step (s : System) (a : Action) : Option System :=
  if s.checkFailed then none
  else match a with
  | .get key callback => some (s.get key callback)
  | .validateCandidate i valid state =>
    match s.lookups[i]? with
    | some m => if m.reporting then none else some (s.validateCandidate i m valid state)
    | none => none
  | .done i =>
    match s.lookups[i]? with
    | some m =>
      if m.reporting ∨ m.saved.isEmpty then none
      else some { s with
        numPendingGets := s.numPendingGets - m.saved.length
        numInFlightKeys := s.numInFlightKeys - 1
        lookups := s.lookups.set i { m with reporting := true } }
    | none => none
  | .callbackDone i =>
    match s.lookups[i]? with
    | some ⟨key, group, r :: saved, true⟩ =>
      some { s with
        lookups := s.lookups.set i ⟨key, group, saved, true⟩
        reported := (r.callback, r.state) :: s.reported }
    | _ => none
  | .groupDone i =>
    match s.lookups[i]? with
    | some ⟨_, group, [], true⟩ =>
      some { s with
        lookups := s.lookups.eraseIdx i
        outstandingLookups := Function.update s.outstandingLookups group (s.outstandingLookups group - 1)
        completing := if s.outstandingLookups group - 1 = 0 then s.completing + 1 else s.completing }
    | _ => none
  | .groupComplete =>
    match s.completing with
    | n + 1 => some (System.groupComplete { s with completing := n })
    | 0 => none
  | .reportDropped i =>
    match s.dropping[i]? with
    | some callback =>
      some { s with
        dropping := s.dropping.eraseIdx i
        reported := (callback, .notFound) :: s.reported
        droppedGets := s.droppedGets + 1 }
    | none => none
  | .shutDown => some s.shutDown

end CacheBatcher

end PageSpeed
