import PageSpeed.Lib.Machine
import PageSpeed.Lib.OrderedSet
import Mathlib.Data.Prod.Lex

/-!
Named locks in one process (`kernel/util/mem_lock.cc`, `mem_lock_state.cc` and
`mem_lock_manager.cc`). Callbacks are client code and may call back, so that each
callback ends a step: the loops and destructors that wait for it to return are kept
on a stack, and client code may act in any way until it returns.
-/

namespace PageSpeed.MemLock

open OrderedSet

def kDoNotSteal : ℤ := -1

def kNotHeld : ℤ := -1

def kNotPending : ℤ := -1

structure Lock (Name : Type) where
  name : Name
  callback : Option ℕ
  cancelTimeMs : ℤ
  grantTimeMs : ℤ
  stealMs : ℤ
  wakeupTimeMs : ℤ

namespace Lock

variable {Name : Type}

def clear (x : Lock Name) : Lock Name := ⟨x.name, none, 0, kNotHeld, 0, kNotPending⟩

def held (x : Lock Name) : Bool := x.grantTimeMs != kNotHeld

def canSteal (x : Lock Name) : Bool := x.stealMs != kDoNotSteal

def isPending (x : Lock Name) : Bool := x.wakeupTimeMs != kNotPending

def shouldCancelOnWakeup (x : Lock Name) : Bool := x.cancelTimeMs == x.wakeupTimeMs

def calculateWakeupTime (x : Lock Name) (heldLockGrantTimeMs : ℤ) : Lock Name :=
  { x with
    wakeupTimeMs :=
      if x.canSteal = false ∨ heldLockGrantTimeMs = kNotHeld then x.cancelTimeMs
      else min x.cancelTimeMs (x.stealMs + heldLockGrantTimeMs) }

end Lock

structure LockState where
  currentOwner : Option ℕ
  lockCount : ℕ
  pendingLocks : List ℕ
  pendingSteals : List ℕ
  managed : Bool

def LockState.none : LockState := ⟨Option.none, 0, [], [], false⟩

inductive Life where
  | unborn
  | alive
  | dying
  | deleted
deriving DecidableEq

inductive Task (Name : Type) where
  | wakeup (nowMs : ℤ)
  | destroyStates (next : Option Name)
  | denyPending (n : Name)

inductive Frame (Name : Type) where
  | wakeup (nowMs : ℤ) (stealer : Option ℕ)
  | removeLock (i : ℕ)
  | denyPending (n : Name)

inductive Failure where
  | check
  | nullManager
  | dangling
  | corruptedSet
deriving DecidableEq

structure Steal where
  grantTimeMs : ℤ
  stealMs : ℤ
  atMs : ℤ

/-- Locks are numbered by their `sequence_`. `corrupted` records that the order of the manager's `pending_locks_` was
changed under it, `called` the callbacks that were run (or cancelled), and `task` the loop that is running, if
client code is not. -/
structure State (Name : Type) where
  lock : ℕ → Lock Name
  life : ℕ → Life
  sequence : ℕ
  lockState : Name → LockState
  lockStateMap : List Name
  pendingLocks : List ℕ
  corrupted : Bool
  manager : Life
  clock : ℤ
  task : Option (Task Name)
  stack : List (Frame Name)
  requests : ℕ
  called : List (ℕ × Bool)
  steals : List Steal
  failed : Option Failure

variable {Name : Type}

def State.new [Inhabited Name] (clock : ℤ) : State Name where
  lock _ := ⟨default, none, 0, kNotHeld, 0, kNotPending⟩
  life _ := .unborn
  sequence := 0
  lockState _ := LockState.none
  lockStateMap := []
  pendingLocks := []
  corrupted := false
  manager := .alive
  clock := clock
  task := none
  stack := []
  requests := 0
  called := []
  steals := []
  failed := none

inductive Action (Name : Type) where
  | createNamedLock (n : Name)
  | lockTimedWaitStealOld (i : ℕ) (waitMs stealMs : ℤ)
  | unlock (i : ℕ)
  | destroyLock (i : ℕ)
  | wakeup
  | destroyManager
  | callbackReturns
  | iterate
  | advance (ms : ℕ)

variable [LinearOrder Name]

namespace State

def setLock (s : State Name) (i : ℕ) (x : Lock Name) : State Name :=
  { s with lock := Function.update s.lock i x }

def setState (s : State Name) (n : Name) (st : LockState) : State Name :=
  { s with lockState := Function.update s.lockState n st }

/-- The `lock_state_` of a lock. -/
def stateOf (s : State Name) (i : ℕ) : LockState := s.lockState (s.lock i).name

/-- `Comparator` orders by the wakeup time, then by `StableCompare`. -/
def wakeupKey (s : State Name) (i : ℕ) : ℤ ×ₗ Name ×ₗ ℕ :=
  toLex ((s.lock i).wakeupTimeMs, toLex ((s.lock i).name, i))

def stealKey (s : State Name) (i : ℕ) : ℤ ×ₗ Name ×ₗ ℕ :=
  toLex ((s.lock i).stealMs, toLex ((s.lock i).name, i))

def clear (s : State Name) (i : ℕ) : State Name :=
  { s.setLock i (s.lock i).clear with corrupted := s.corrupted || decide (i ∈ s.pendingLocks) }

def removePendingLock (s : State Name) (i : ℕ) : Except Failure (State Name) :=
  if s.corrupted then .error .corruptedSet
  else .ok { s with pendingLocks := erase s.wakeupKey i s.pendingLocks }

def addPendingLock (s : State Name) (i : ℕ) : Except Failure (State Name) :=
  if s.corrupted then .error .corruptedSet
  else .ok { s with pendingLocks := OrderedSet.insert s.wakeupKey i s.pendingLocks }

def unscheduleLock (s : State Name) (i : ℕ) : Except Failure (State Name) :=
  let st := s.stateOf i
  let t := s.setState (s.lock i).name
    { st with
      pendingLocks := erase s.wakeupKey i st.pendingLocks
      pendingSteals := erase s.stealKey i st.pendingSteals }
  if st.managed then t.removePendingLock i else .ok t

def insertLock (s : State Name) (i : ℕ) : Except Failure (State Name) :=
  let st := s.stateOf i
  let t := s.setState (s.lock i).name
    { st with
      pendingLocks := OrderedSet.insert s.wakeupKey i st.pendingLocks
      pendingSteals :=
        if (s.lock i).canSteal then OrderedSet.insert s.stealKey i st.pendingSteals else st.pendingSteals }
  if st.managed then t.addPendingLock i else .error .nullManager

def calculateWakeupTime (s : State Name) (heldLockGrantTimeMs : ℤ) (i : ℕ) : State Name :=
  s.setLock i ((s.lock i).calculateWakeupTime heldLockGrantTimeMs)

def rescheduleLock (s : State Name) (heldLockGrantTimeMs : ℤ) (i : ℕ) : Except Failure (State Name) :=
  (s.unscheduleLock i).bind fun t => (t.calculateWakeupTime heldLockGrantTimeMs i).insertLock i

/-- `Grant` and `Deny`, which leaves the lock with no grant time. -/
def respond (s : State Name) (i : ℕ) (grantTimeMs : ℤ) (granted : Bool) : Except Failure (State Name) :=
  (s.unscheduleLock i).bind fun t =>
    match (t.lock i).callback with
    | none => .error .check
    | some r =>
      if (t.lock i).held ∨ (t.lock i).isPending = false then .error .check
      else
        let u := t.clear i
        .ok { u.setLock i { u.lock i with grantTimeMs := grantTimeMs } with called := u.called ++ [(r, granted)] }

def grant (s : State Name) (i : ℕ) (grantTimeMs : ℤ) : Except Failure (State Name) := s.respond i grantTimeMs true

def deny (s : State Name) (i : ℕ) : Except Failure (State Name) := s.respond i kNotHeld false

def establishStealer (s : State Name) (n : Name) (grantTimeMs : ℤ) (p : ℕ) : Except Failure (State Name) :=
  let st := s.lockState n
  let steals := erase s.stealKey p st.pendingSteals
  let t := s.setState n { st with pendingSteals := steals }
  match steals with
  | [] => .ok t
  | stealer :: _ => t.rescheduleLock grantTimeMs stealer

def handOver (s : State Name) (n : Name) (p : ℕ) (rest : List ℕ) : Except Failure (State Name) :=
  let st := s.lockState n
  ((s.setState n { st with currentOwner := some p, pendingLocks := rest }).removePendingLock p).bind fun t =>
    (if (t.lock p).canSteal then t.establishStealer n t.clock p else .ok t).bind fun u => u.grant p u.clock

/-- `MemLockState::Unlock`. -/
def unlockState (s : State Name) (n : Name) : Except Failure (State Name) :=
  match (s.lockState n).currentOwner with
  | none => .error .check
  | some o =>
    let t := s.clear o
    match (t.lockState n).pendingLocks with
    | [] => .ok (t.setState n { t.lockState n with currentOwner := none })
    | p :: rest => if (t.lockState n).managed then t.handOver n p rest else .error .nullManager

/-- `MemLock::Unlock`. -/
def unlock (s : State Name) (i : ℕ) : Except Failure (State Name) :=
  if (s.lock i).held then s.unlockState (s.lock i).name else .ok s

def stealLock (s : State Name) (i : ℕ) : Except Failure (State Name) :=
  match (s.stateOf i).currentOwner with
  | none => .error .check
  | some o =>
    if (s.lock o).held ∧ (s.stateOf o).pendingLocks ≠ [] then
      (s.unlock o).map fun t =>
        { t with steals := t.steals ++ [⟨(s.lock o).grantTimeMs, (s.lock i).stealMs, s.clock⟩] }
    else .error .check

/-- One round of `MemLockManager::Wakeup`. -/
def wakeup (s : State Name) (nowMs : ℤ) : Except Failure (State Name) :=
  if s.corrupted then .error .corruptedSet
  else
    match s.pendingLocks with
    | [] => .ok { s with task := none }
    | i :: _ =>
      let x := s.lock i
      if nowMs < x.wakeupTimeMs then .ok { s with task := none }
      else if x.shouldCancelOnWakeup then
        (s.deny i).map fun t => { t with task := none, stack := .wakeup nowMs none :: t.stack }
      else if x.canSteal then
        (s.stealLock i).map fun t => { t with task := none, stack := .wakeup nowMs (some i) :: t.stack }
      else .error .check

/-- Would the lock `i` displace the first one that waits to steal? -/
def displaceStealer (s : State Name) (i : ℕ) : Except Failure (State Name) :=
  match (s.stateOf i).pendingSteals with
  | [] => .ok s
  | p :: _ =>
    if s.stealKey i < s.stealKey p then s.rescheduleLock kNotHeld p
    else .ok (s.calculateWakeupTime kNotHeld i)

def scheduleLock (s : State Name) (i : ℕ) : Except Failure (State Name) :=
  match (s.stateOf i).currentOwner with
  | none => .error .check
  | some o =>
    if (s.lock i).isPending then .error .check
    else
      let t := s.calculateWakeupTime (s.lock o).grantTimeMs i
      (if (t.lock i).canSteal then t.displaceStealer i else .ok t).bind fun u =>
        (u.insertLock i).map fun v => { v with task := some (.wakeup v.clock) }

def lockTimedWaitStealOld (s : State Name) (i : ℕ) (waitMs stealMs : ℤ) : Except Failure (State Name) :=
  let r := s.requests
  let x := s.lock i
  let st := s.stateOf i
  let s := { s with requests := r + 1 }
  if x.held ∨ x.isPending then .ok { s with called := s.called ++ [(r, false)] }
  else if st.managed = false then .error .nullManager
  else
    match st.currentOwner with
    | none =>
      .ok { (s.setLock i { x with grantTimeMs := s.clock }).setState x.name { st with currentOwner := some i } with
        called := s.called ++ [(r, true)] }
    | some _ =>
      if x.callback.isSome then .error .check
      else
        (s.setLock i { x with cancelTimeMs := s.clock + waitMs, stealMs := stealMs, callback := some r }).scheduleLock i

def removeLock (s : State Name) (i : ℕ) : Except Failure (State Name) :=
  let n := (s.lock i).name
  let st := s.lockState n
  let t := { s with life := Function.update s.life i .deleted }
  if st.lockCount = 1 then
    if st.pendingLocks ≠ [] ∨ st.pendingSteals ≠ [] ∨ (st.managed ∧ n ∉ s.lockStateMap) then .error .check
    else .ok { t.setState n LockState.none with
      lockStateMap := if st.managed then erase id n s.lockStateMap else s.lockStateMap }
  else .ok (t.setState n { st with lockCount := st.lockCount - 1 })

/-- `~MemLock`. -/
def destroyLock (s : State Name) (i : ℕ) : Except Failure (State Name) :=
  let t := { s with life := Function.update s.life i .dying }
  if (s.lock i).isPending then
    (t.deny i).map fun u => { u with stack := .removeLock i :: u.stack }
  else if (s.lock i).held then
    (t.unlockState (s.lock i).name).bind fun u =>
      if (s.stateOf i).pendingLocks = [] then u.removeLock i
      else .ok { u with stack := .removeLock i :: u.stack }
  else t.removeLock i

def createNamedLock (s : State Name) (n : Name) : State Name :=
  let st := s.lockState n
  { s.setState n { st with lockCount := st.lockCount + 1, managed := true } with
    lock := Function.update s.lock s.sequence ⟨n, none, 0, kNotHeld, 0, kNotPending⟩
    life := Function.update s.life s.sequence .alive
    sequence := s.sequence + 1
    lockStateMap := OrderedSet.insert id n s.lockStateMap }

def iterate (s : State Name) : Task Name → Except Failure (State Name)
  | .wakeup nowMs => s.wakeup nowMs
  | .destroyStates none => .ok { s with manager := .deleted, task := none }
  | .destroyStates (some n) =>
    let st := s.lockState n
    if st.managed then .ok { s.setState n { st with managed := false } with task := some (.denyPending n) }
    else .error .check
  | .denyPending n =>
    match (s.lockState n).pendingLocks with
    | [] => .ok { s with task := some (.destroyStates (s.lockStateMap.find? (n < ·))) }
    | i :: _ => (s.deny i).map fun t => { t with task := none, stack := .denyPending n :: t.stack }

def resume (s : State Name) : Frame Name → Except Failure (State Name)
  | .wakeup nowMs stealer =>
    if stealer.any fun i => (s.stateOf i).currentOwner ≠ some i then .error .check
    else if s.manager = .deleted then .error .dangling
    else .ok { s with task := some (.wakeup nowMs) }
  | .removeLock i => s.removeLock i
  | .denyPending n =>
    if (s.lockState n).lockCount = 0 then .error .dangling
    else .ok { s with task := some (.denyPending n) }

def act (s : State Name) : Action Name → Option (Except Failure (State Name))
  | .advance ms => some (.ok { s with clock := s.clock + ms })
  | .iterate => s.task.map s.iterate
  | a =>
    if s.task.isSome then none
    else
      match a with
      | .createNamedLock n => if s.manager = .alive then some (.ok (s.createNamedLock n)) else none
      | .lockTimedWaitStealOld i waitMs stealMs =>
        if s.life i = .alive then some (s.lockTimedWaitStealOld i waitMs stealMs) else none
      | .unlock i => if s.life i = .alive then some (s.unlock i) else none
      | .destroyLock i => if s.life i = .alive then some (s.destroyLock i) else none
      | .wakeup => if s.manager = .alive then some (.ok { s with task := some (.wakeup s.clock) }) else none
      | .destroyManager =>
        if s.manager = .alive then
          some (.ok { s with manager := .dying, task := some (.destroyStates s.lockStateMap.head?) })
        else none
      | .callbackReturns =>
        match s.stack with
        | [] => none
        | f :: stack => some ({ s with stack := stack }.resume f)
      | _ => none

end State

def step (s : State Name) (a : Action Name) : Option (State Name) :=
  if s.failed.isSome then none
  else
    (s.act a).map fun
      | .ok t => t
      | .error f => { s with failed := some f }

end PageSpeed.MemLock
