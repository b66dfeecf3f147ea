import PageSpeed.Basic
import PageSpeed.Lib.Bag
import PageSpeed.Lib.Machine

/-!
`NamedLockScheduleRewriteController` (`rewriter/named_lock_schedule_rewrite_controller.cc`). A thread is where it
stands between two critical sections or calls; a run takes the threads in any order. The lock manager answers
each request when and as it likes.
-/

namespace PageSpeed

namespace NamedLockScheduleRewriteController

abbrev Callback := ℕ
abbrev NamedLock := ℕ

structure LockInfo where
  serial : ℕ
  lock : Option NamedLock := none
  pendingCallbacks : Finset Callback := ∅
  pinCount : ℤ := 0

abbrev LockMap := AList fun _ : GoogleString => LockInfo

inductive Pc where
  | scheduleRewrite (key : GoogleString) (callback : Callback)
  | lockTimedWait (key : GoogleString) (callback : Callback)
  | lockRequested (key : GoogleString) (callback : Callback) (lock : NamedLock)
  | lockObtained (key : GoogleString) (callback : Callback) (lock : NamedLock)
  | lockFailed (key : GoogleString) (callback : Callback)
  | callRun (key : GoogleString) (callback : Callback)
  | callCancel (callback : Callback)
  | notifyRewriteComplete (key : GoogleString)
  | unlock (key : GoogleString) (serial : ℕ)
  | unpin (key : GoogleString) (serial : ℕ)
  | shutDown
  | cancelAll (callbacks : List Callback)
  | done
deriving DecidableEq

end NamedLockScheduleRewriteController

/-- The fields after `locksCurrentlyHeld` remember the run: the callbacks that were scheduled, run and cancelled,
the keys of callbacks that were run and not yet followed by a notification, and the keys of locks that came after
`ShutDown` and no notification released. `fault` is set by the use of an entry that is gone. -/
structure NamedLockScheduleRewriteController where
  locks : NamedLockScheduleRewriteController.LockMap := ∅
  shutDown : Bool := false
  locksGranted : ℕ := 0
  locksDenied : ℕ := 0
  locksStolen : ℕ := 0
  locksReleasedWhenNotHeld : ℕ := 0
  locksCurrentlyHeld : ℤ := 0
  nextSerial : ℕ := 0
  nextLock : NamedLockScheduleRewriteController.NamedLock := 0
  pcs : List NamedLockScheduleRewriteController.Pc := []
  shutDownCalled : Bool := false
  scheduled : List NamedLockScheduleRewriteController.Callback := []
  ran : List NamedLockScheduleRewriteController.Callback := []
  cancelled : List NamedLockScheduleRewriteController.Callback := []
  owed : Multiset GoogleString := 0
  late : Finset GoogleString := ∅
  fault : Bool := false

namespace NamedLockScheduleRewriteController

def getLockInfo (c : NamedLockScheduleRewriteController) (key : GoogleString) :
    LockInfo × NamedLockScheduleRewriteController :=
  match c.locks.lookup key with
  | some info => (info, c)
  | none =>
    let info : LockInfo := { serial := c.nextSerial }
    (info, { c with locks := c.locks.insert key info, nextSerial := c.nextSerial + 1 })

def setLockInfo (c : NamedLockScheduleRewriteController) (key : GoogleString) (info : LockInfo) :
    NamedLockScheduleRewriteController := { c with locks := c.locks.insert key info }

def unused (info : LockInfo) : Bool :=
  info.lock.isNone && decide (info.pinCount ≤ 0) && decide (info.pendingCallbacks = ∅)

def deleteInfoIfUnused (c : NamedLockScheduleRewriteController) (info : LockInfo) (key : GoogleString) :
    NamedLockScheduleRewriteController :=
  if unused info then { c with locks := c.locks.erase key } else c

def setPc (c : NamedLockScheduleRewriteController) (i : ℕ) (pc : Pc) : NamedLockScheduleRewriteController :=
  { c with pcs := c.pcs.set i pc }

/-- The critical section of `LockObtained`. -/
def lockObtained (c : NamedLockScheduleRewriteController) (key : GoogleString) (callback : Callback)
    (lock : NamedLock) : NamedLockScheduleRewriteController :=
  let info := (c.getLockInfo key).1
  let c := (c.getLockInfo key).2
  let c := c.setLockInfo key
    { info with lock := some lock, pendingCallbacks := info.pendingCallbacks.erase callback }
  let c :=
    if info.lock.isSome then
      { c with locksStolen := c.locksStolen + 1, locksCurrentlyHeld := c.locksCurrentlyHeld - 1 }
    else c
  if c.shutDown then { c with late := insert key c.late } else c

/-- The critical section of `LockFailed`. -/
def lockFailed (c : NamedLockScheduleRewriteController) (key : GoogleString) (callback : Callback) :
    NamedLockScheduleRewriteController :=
  let info := (c.getLockInfo key).1
  let c := (c.getLockInfo key).2
  let info := { info with pendingCallbacks := info.pendingCallbacks.erase callback }
  (c.setLockInfo key info).deleteInfoIfUnused info key

/-- The critical section of `ScheduleRewrite`, unless the controller is shut down. -/
def scheduleRewrite (c : NamedLockScheduleRewriteController) (key : GoogleString) (callback : Callback) :
    NamedLockScheduleRewriteController :=
  let info := (c.getLockInfo key).1
  let c := (c.getLockInfo key).2
  c.setLockInfo key { info with pendingCallbacks := insert callback info.pendingCallbacks }

/-- The first critical section of `NotifyRewriteComplete`, and where the call goes from there. -/
def notifyRewriteComplete (c : NamedLockScheduleRewriteController) (key : GoogleString) :
    Pc × NamedLockScheduleRewriteController :=
  let info := (c.getLockInfo key).1
  let c := (c.getLockInfo key).2
  if info.lock.isNone then
    let c := c.deleteInfoIfUnused info key
    (.done, { c with locksReleasedWhenNotHeld := c.locksReleasedWhenNotHeld + 1, late := c.late.erase key })
  else
    let c := c.setLockInfo key { info with lock := none, pinCount := info.pinCount + 1 }
    (.unlock key info.serial, { c with late := c.late.erase key })

def unpin (c : NamedLockScheduleRewriteController) (key : GoogleString) (serial : ℕ) :
    NamedLockScheduleRewriteController :=
  match c.locks.lookup key with
  | some info =>
    if info.serial = serial then
      let info := { info with pinCount := info.pinCount - 1 }
      (c.setLockInfo key info).deleteInfoIfUnused info key
    else { c with fault := true }
  | none => { c with fault := true }

/-- The callbacks that `ShutDown` takes over, entry by entry. -/
def pendingCallbacks (locks : LockMap) : Multiset Callback :=
  (locks.entries.map fun e => e.2.pendingCallbacks.val).sum

inductive Action
  | scheduleRewrite (key : GoogleString) (callback : Callback)
  | notifyRewriteComplete (key : GoogleString)
  | shutDown
  | grant (i : ℕ)
  | deny (i : ℕ)
  | advance (i : ℕ)
  | collect (i : ℕ) (callbacks : List Callback)

def start (c : NamedLockScheduleRewriteController) (pc : Pc) : NamedLockScheduleRewriteController :=
  { c with pcs := c.pcs ++ [pc] }

def advance (c : NamedLockScheduleRewriteController) (i : ℕ) : Pc → Option NamedLockScheduleRewriteController
  | .scheduleRewrite key callback =>
    if c.shutDown then some (c.setPc i (.callCancel callback))
    else some ((c.scheduleRewrite key callback).setPc i (.lockTimedWait key callback))
  | .lockTimedWait key callback =>
    some ({ c with nextLock := c.nextLock + 1 }.setPc i (.lockRequested key callback c.nextLock))
  | .lockObtained key callback lock =>
    let pc := if c.shutDown then .done else .callRun key callback
    some ((c.lockObtained key callback lock).setPc i pc)
  | .lockFailed key callback =>
    let pc := if c.shutDown then .done else .callCancel callback
    some ((c.lockFailed key callback).setPc i pc)
  | .callRun key callback =>
    some ({ c with ran := c.ran ++ [callback], owed := key ::ₘ c.owed }.setPc i .done)
  | .callCancel callback => some ({ c with cancelled := c.cancelled ++ [callback] }.setPc i .done)
  | .notifyRewriteComplete key =>
    let (pc, c) := c.notifyRewriteComplete key
    some (c.setPc i pc)
  | .unlock key serial =>
    some ({ c with locksCurrentlyHeld := c.locksCurrentlyHeld - 1 }.setPc i (.unpin key serial))
  | .unpin key serial => some ((c.unpin key serial).setPc i .done)
  | .cancelAll (callback :: callbacks) =>
    some ({ c with cancelled := c.cancelled ++ [callback] }.setPc i (.cancelAll callbacks))
  | .cancelAll [] => some (c.setPc i .done)
  | .lockRequested _ _ _ | .shutDown | .done => none

/-- A callback is scheduled once, and `ShutDown` is called once. The order in which `ShutDown` finds the pending
callbacks is that of a hash map, any at all. -/
def step (c : NamedLockScheduleRewriteController) : Action → Option NamedLockScheduleRewriteController
  | .scheduleRewrite key callback =>
    if callback ∈ c.scheduled then none
    else some ({ c with scheduled := c.scheduled ++ [callback] }.start (.scheduleRewrite key callback))
  | .notifyRewriteComplete key =>
    some ({ c with owed := c.owed.erase key }.start (.notifyRewriteComplete key))
  | .shutDown => if c.shutDownCalled then none else some ({ c with shutDownCalled := true }.start .shutDown)
  | .grant i =>
    match c.pcs[i]? with
    | some (.lockRequested key callback lock) =>
      some ({ c with locksGranted := c.locksGranted + 1, locksCurrentlyHeld := c.locksCurrentlyHeld + 1 }.setPc i
        (.lockObtained key callback lock))
    | _ => none
  | .deny i =>
    match c.pcs[i]? with
    | some (.lockRequested key callback _) =>
      some ({ c with locksDenied := c.locksDenied + 1 }.setPc i (.lockFailed key callback))
    | _ => none
  | .collect i callbacks =>
    match c.pcs[i]? with
    | some .shutDown =>
      if (callbacks : Multiset Callback) = pendingCallbacks c.locks then
        some ({ c with shutDown := true }.setPc i (.cancelAll callbacks))
      else none
    | _ => none
  | .advance i => (c.pcs[i]?).bind (c.advance i)

end NamedLockScheduleRewriteController

end PageSpeed
