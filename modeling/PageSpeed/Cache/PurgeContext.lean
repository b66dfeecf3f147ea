import PageSpeed.Cache.PurgeFile
import PageSpeed.Cache.PurgeObjects
import PageSpeed.Lib.Bag

/-!
The update protocol of `kernel/cache/purge_context.cc`. Clients call from any number of
threads, and every task goes on with its next step at any time: locks are granted at any
time, also to several updates at once, as they can be stolen. Other processes write the
file at any time.
-/

namespace PageSpeed.PurgeContext

open PurgeFile

def kMaxContentionRetries : ℕ := 2

structure Config where
  text : Int64Text
  enablePurge : Bool
  maxBytesInCache : ℕ
  requestBatchingDelayMs : ℤ

inductive Purge where
  | url (url : GoogleString) (timestampMs : Int64)
  | global (timestampMs : Int64)
deriving DecidableEq

structure PurgeCallback where
  number : ℕ
  purge : Purge
deriving DecidableEq

structure File where
  contents : GoogleString
  mtimeMs : Int64

structure Update where
  returnPurges : ℕ
  buffer : GoogleString
  callbacks : List PurgeCallback
  failures : ℕ

structure Verified where
  contents : GoogleString
  nowMs : ℤ

inductive Task where
  | waitForTimerAndGrabLock
  | alarm
  | grabLockAndUpdate
  | lockRequest
  | readPurgeFile
  | modifyPurgeSet (purgesFromFile : PurgeSet)
  | writePurgeFile (update : Update)
  | verify (update : Update)
  | handleWriteFailure (update : Update)
  | runCallbacks (success : Bool) (message : String) (verified : Option Verified) (callbacks : List PurgeCallback)

def Task.update : Task → Option Update
  | .writePurgeFile u | .verify u | .handleWriteFailure u => some u
  | _ => none

structure Ran where
  callback : PurgeCallback
  success : Bool
  message : String
  verified : Option Verified

structure Statistics where
  cancellations : ℕ := 0
  contentions : ℕ := 0
  fileParseFailures : ℕ := 0
  fileStats : ℕ := 0
  fileWriteFailures : ℕ := 0
  fileWrites : ℕ := 0
  purgeIndex : ℕ := 0

structure State where
  sets : PurgeObjects
  updates : ℕ
  returned : List ℕ
  pendingCallbacks : List PurgeCallback
  numConsecutiveFailures : ℕ
  waitingForInterprocessLock : Bool
  statistics : Statistics
  file : Option File
  nowMs : ℤ
  tasks : List Task
  latestMs : ℤ
  requested : List PurgeCallback
  ran : List Ran

def State.new (c : Config) (file : Option File) : State where
  sets := .new fun _ => c.maxBytesInCache
  updates := 0
  returned := []
  pendingCallbacks := []
  numConsecutiveFailures := 0
  waitingForInterprocessLock := false
  statistics := {}
  file := file
  nowMs := 0
  tasks := []
  latestMs := 0
  requested := []
  ran := []

inductive Action where
  | addPurgeUrl (url : GoogleString) (timestampMs : Int64)
  | setCachePurgeGlobalTimestampMs (timestampMs : Int64)
  | proceed (task : ℕ)
  | fail (task : ℕ)
  | cancel (task : ℕ)
  | returnUpdate (returnPurges : ℕ)
  | writeFile (file : Option File)
  | setNowMs (nowMs : ℤ)

namespace State

variable (c : Config) (s : State)

def pendingPurges : PurgeSet := (s.sets.object 0).set

/-- An eviction from the pending set would go through a helper, or to a set, that was in the `return_purges` of an
update that has returned. -/
def dangles : Bool :=
  s.returned.contains (s.sets.object 0).lruHelper || s.returned.contains (s.sets.notified 0)

/-- There is no next state once an eviction has used what is gone. -/
def evicting (sets : Option PurgeObjects) (evictions : ℕ) : Option PurgeObjects :=
  sets.filter fun o => !s.dangles || (o.object 0).set.lru.stats.numEvictions == evictions

def setTask (i : ℕ) (task : Task) : State := { s with tasks := s.tasks.set i task }

def request (purge : Purge) : PurgeCallback × State :=
  (⟨s.requested.length, purge⟩, { s with requested := s.requested ++ [⟨s.requested.length, purge⟩] })

/-- What `SetCachePurgeGlobalTimestampMs` and `AddPurgeUrl` do with the mutex after they changed the pending set. -/
def addCallback (callback : PurgeCallback) (timestampMs : Int64) : State :=
  let t := { s with
    pendingCallbacks := s.pendingCallbacks ++ [callback]
    latestMs := max s.latestMs timestampMs.toInt }
  if s.waitingForInterprocessLock then t
  else { t with waitingForInterprocessLock := true, tasks := s.tasks ++ [.waitForTimerAndGrabLock] }

def setCachePurgeGlobalTimestampMs (timestampMs : Int64) : Option State :=
  let (callback, s) := s.request (.global timestampMs)
  (s.sets.updateGlobalInvalidationTimestampMs 0 timestampMs).map fun sets =>
    { s with sets := sets }.addCallback callback timestampMs

def addPurgeUrl (url : GoogleString) (timestampMs : Int64) : Option State :=
  let (callback, s) := s.request (.url url timestampMs)
  if c.enablePurge then
    (s.evicting (s.sets.put 0 url timestampMs) s.pendingPurges.lru.stats.numEvictions).map fun sets => { s with sets := sets }.addCallback callback timestampMs
  else some { s with ran := s.ran ++ [⟨callback, false, "EnableCachePurge is off", none⟩] }

/-- `ReadPurgeFile`, with the number of parse failures; `read` is whether the file system reads the file. -/
def readPurgeFile (read : Bool) : Option (ℕ × PurgeSet) :=
  match if read then s.file else none with
  | none => some (0, .new c.maxBytesInCache)
  | some file =>
    if c.enablePurge then readBuffer c.text c.maxBytesInCache s.nowMs file.contents
    else ((PurgeSet.new c.maxBytesInCache).updateGlobalInvalidationTimestampMs file.mtimeMs).map fun r => (0, r.2)

def read (i : ℕ) (read : Bool) : Option State :=
  (s.readPurgeFile c read).map fun r => { s.setTask i (.modifyPurgeSet r.2) with
    latestMs := max s.latestMs r.2.lastInvalidationTimestampMs.toInt
    statistics := { s.statistics with
      fileStats := s.statistics.fileStats + 1
      fileParseFailures := s.statistics.fileParseFailures + r.1 } }

def modifyPurgeSet (i : ℕ) (purgesFromFile : PurgeSet) : Option State :=
  (purgesFromFile.merge s.pendingPurges).map fun purges =>
    { s.setTask i (.writePurgeFile ⟨s.updates + 1, writeBuffer c.text purges, s.pendingCallbacks,
        s.numConsecutiveFailures⟩) with
      sets := (s.sets.swap (s.updates + 1) 0).clear 0
      updates := s.updates + 1
      pendingCallbacks := []
      numConsecutiveFailures := 0
      waitingForInterprocessLock := false }

def countWrite : State := { s with statistics.fileWrites := s.statistics.fileWrites + 1 }

def writePurgeFile (i : ℕ) (u : Update) : State :=
  { s.countWrite.setTask i (.verify u) with file := some ⟨u.buffer, Int64.ofInt (s.nowMs / 1000 * 1000)⟩ }

def contention (i : ℕ) (u : Update) : State :=
  { s.setTask i (.handleWriteFailure u) with statistics.contentions := s.statistics.contentions + 1 }

def verify (i : ℕ) (u : Update) : State :=
  if s.file.map File.contents = some u.buffer then
    { s.setTask i (.runCallbacks true "" (some ⟨u.buffer, s.nowMs⟩) u.callbacks) with
      statistics.purgeIndex := s.statistics.purgeIndex + if u.callbacks = [] then 0 else 1 }
  else s.contention i u

def handleWriteFailure (i : ℕ) (u : Update) : Option State :=
  if s.numConsecutiveFailures + (u.failures + 1) ≤ kMaxContentionRetries then
    let t := { s with numConsecutiveFailures := s.numConsecutiveFailures + (u.failures + 1) }
    if s.waitingForInterprocessLock then
      (s.evicting (s.sets.merge 0 u.returnPurges) 0).map fun sets => { t.setTask i (.runCallbacks false "" none []) with
        sets := sets
        pendingCallbacks := s.pendingCallbacks ++ u.callbacks }
    else
      some { t.setTask i (if s.pendingCallbacks = [] then .grabLockAndUpdate
          else .runCallbacks false "" none s.pendingCallbacks) with
        sets := s.sets.swap 0 u.returnPurges
        pendingCallbacks := u.callbacks
        waitingForInterprocessLock := true }
  else
    some { s.setTask i (.runCallbacks false "" none u.callbacks) with
      numConsecutiveFailures := 0
      statistics.fileWriteFailures := s.statistics.fileWriteFailures + u.callbacks.length }

def cancelCachePurgeFile (i : ℕ) : State :=
  { s.setTask i (.runCallbacks false "timeout" none s.pendingCallbacks) with
    sets := s.sets.clear 0
    pendingCallbacks := []
    waitingForInterprocessLock := false
    statistics.cancellations := s.statistics.cancellations + s.pendingCallbacks.length }

def proceed (i : ℕ) : Task → Option State
  | .waitForTimerAndGrabLock =>
    some (s.setTask i (if c.requestBatchingDelayMs = 0 then .grabLockAndUpdate else .alarm))
  | .alarm => some (s.setTask i .grabLockAndUpdate)
  | .grabLockAndUpdate => some (s.setTask i .lockRequest)
  | .lockRequest => some (s.setTask i .readPurgeFile)
  | .readPurgeFile => s.read c i true
  | .modifyPurgeSet purgesFromFile => s.modifyPurgeSet c i purgesFromFile
  | .writePurgeFile u => some (s.writePurgeFile i u)
  | .verify u => some (s.verify i u)
  | .handleWriteFailure u => s.handleWriteFailure i u
  | .runCallbacks success message verified (callback :: callbacks) =>
    some { s.setTask i (.runCallbacks success message verified callbacks) with
      ran := s.ran ++ [⟨callback, success, message, verified⟩] }
  | .runCallbacks _ _ _ [] => none

def fail (i : ℕ) : Task → Option State
  | .readPurgeFile => s.read c i false
  | .writePurgeFile u => some (s.countWrite.contention i u)
  | .verify u => some (s.contention i u)
  | _ => none

def cancel (i : ℕ) : Task → Option State
  | .alarm | .lockRequest => some (s.cancelCachePurgeFile i)
  | _ => none

/-- `UpdateCachePurgeFile` returns, some time after it has last used its `return_purges`. -/
def returnUpdate (returnPurges : ℕ) : Option State :=
  if 0 < returnPurges ∧ returnPurges ≤ s.updates ∧
      ∀ task ∈ s.tasks, task.update.map Update.returnPurges ≠ some returnPurges then
    some { s with returned := s.returned ++ [returnPurges] }
  else none

end State

def step (c : Config) (s : State) : Action → Option State
  | .addPurgeUrl url timestampMs => s.addPurgeUrl c url timestampMs
  | .setCachePurgeGlobalTimestampMs timestampMs => s.setCachePurgeGlobalTimestampMs timestampMs
  | .proceed i => (s.tasks[i]?).bind (s.proceed c i)
  | .fail i => (s.tasks[i]?).bind (s.fail c i)
  | .cancel i => (s.tasks[i]?).bind (s.cancel i)
  | .returnUpdate returnPurges => s.returnUpdate returnPurges
  | .writeFile file => some { s with file := file }
  | .setNowMs nowMs => some { s with nowMs := nowMs }

end PageSpeed.PurgeContext
