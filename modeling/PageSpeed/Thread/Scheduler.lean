import PageSpeed.Lib.Bag
import PageSpeed.Lib.Machine
import PageSpeed.Lib.OrderedSet
import Mathlib.Data.Prod.Lex

/-!
The scheduler of alarms (`kernel/thread/scheduler.cc`) with any number of threads.
Each thread has the stack of its calls of scheduler code and of callbacks; client code
runs when the stack is empty or a callback is on top. A step needs the scheduler mutex
where the code does, so that a thread that holds it is not interrupted in what it guards.
-/

namespace PageSpeed.Scheduler

open OrderedSet

inductive Kind where
  | function
  | condVarTimeout
  | condVarCallbackTimeout
deriving DecidableEq

structure Alarm where
  kind : Kind
  wakeupTimeUs : ℤ
  index : ℕ
  inWaitDispatch : Bool

inductive Caller where
  | client
  | addAlarmAtUs
  | blockingTimedWait (alarm originalSignalCount : ℕ) (wakeupTimeUs : ℤ)
  | processAlarms (timeoutUs finishUs : ℤ)

inductive Frame where
  | runAlarms (call : ℕ) (ranAlarms : Bool) (caller : Caller)
  | signal (toDispatch : List ℕ)
  | function (alarm : ℕ)
  | relock
  | runCallback (alarm : ℕ) (savedInWaitDispatch : Bool)
  | cancelCallback (alarm : ℕ)
  | await (caller : Caller)

structure Start where
  call : ℕ
  alarm : ℕ
  inserted : ℕ
  nowUs : ℤ

structure State where
  alarm : ℕ → Alarm
  inserted : ℕ
  outstandingAlarms : List ℕ
  waitingAlarms : List ℕ
  signalCount : ℕ
  timedOut : ℕ → Bool
  clock : ℤ
  holder : Option ℕ
  threads : List (List Frame)
  calls : ℕ
  starts : List Start
  cancels : List ℕ
  freed : List ℕ

def State.new (threads : ℕ) (clock : ℤ) : State where
  alarm _ := ⟨.function, 0, 0, false⟩
  inserted := 0
  outstandingAlarms := []
  waitingAlarms := []
  signalCount := 0
  timedOut _ := false
  clock := clock
  holder := none
  threads := List.replicate threads []
  calls := 0
  starts := []
  cancels := []
  freed := []

inductive Call where
  | lock
  | unlock
  | addAlarmAtUs (wakeupTimeUs : ℤ)
  | addAlarmAtUsMutexHeld (wakeupTimeUs : ℤ)
  | cancelAlarm (alarm : ℕ)
  | timedWaitMs (timeoutMs : ℤ)
  | blockingTimedWaitUs (timeoutUs : ℤ)
  | signal
  | runAlarms
  | processAlarmsOrWaitUs (timeoutUs : ℤ)
  | callbackReturns
  | proceed

inductive Action where
  | setClock (us : ℤ)
  | thread (t : ℕ) (call : Call)

namespace State

/-- `CompareAlarms`. -/
def key (s : State) (a : ℕ) : ℤ ×ₗ ℕ := toLex ((s.alarm a).wakeupTimeUs, (s.alarm a).index)

def setStack (s : State) (t : ℕ) (stack : List Frame) : State := { s with threads := s.threads.set t stack }

def free (s : State) (a : ℕ) : State := { s with freed := s.freed ++ [a] }

/-- The `index_` of the new alarm is a `uint32`. -/
def insertAlarmAtUsMutexHeld (s : State) (wakeupTimeUs : ℤ) (kind : Kind) : State :=
  let t := { s with
    alarm := Function.update s.alarm (s.inserted + 1) ⟨kind, wakeupTimeUs, (s.inserted + 1) % 2 ^ 32, false⟩
    inserted := s.inserted + 1 }
  { t with outstandingAlarms := OrderedSet.insert t.key (s.inserted + 1) s.outstandingAlarms }

def insertWaiting (s : State) : State :=
  { s with waitingAlarms := OrderedSet.insert s.key s.inserted s.waitingAlarms }

def cancelWaiting (s : State) (a : ℕ) : State := { s with waitingAlarms := erase s.key a s.waitingAlarms }

/-- Starts a `RunAlarms` on top of the stack. -/
def callRunAlarms (s : State) (t : ℕ) (stack : List Frame) (caller : Caller) : State :=
  { s.setStack t (.runAlarms s.calls false caller :: stack) with calls := s.calls + 1 }

/-- `RunAlarm` of the alarms; `stack` is that of the caller. -/
def runAlarm (s : State) (t : ℕ) (stack : List Frame) (a : ℕ) : State :=
  match (s.alarm a).kind with
  | .function => { s.setStack t (.function a :: stack) with holder := none }
  | .condVarTimeout =>
    let u := ({ s with timedOut := Function.update s.timedOut a true }.cancelWaiting a).setStack t stack
    if (s.alarm a).inWaitDispatch then u else u.free a
  | .condVarCallbackTimeout =>
    (s.cancelWaiting a).setStack t (.runCallback a (s.alarm a).inWaitDispatch :: stack)

/-- `CancelAlarm` of the alarms. -/
def cancelAlarm (s : State) (t : ℕ) (stack : List Frame) (a : ℕ) : State :=
  match (s.alarm a).kind with
  | .function => { s.setStack t (.function a :: stack) with holder := none }
  | .condVarTimeout => (s.setStack t stack).free a
  | .condVarCallbackTimeout => s.setStack t (.cancelCallback a :: stack)

/-- `Scheduler::CancelAlarm`, or `none` where it returns false. -/
def tryCancelAlarm (s : State) (t : ℕ) (stack : List Frame) (a : ℕ) : Option State :=
  if s.outstandingAlarms.any fun b => s.key b = s.key a then
    some ({ s with
      outstandingAlarms := erase s.key a s.outstandingAlarms
      cancels := s.cancels ++ [a] }.cancelAlarm t stack a)
  else none

def awaitWakeupUntilUs (s : State) (t : ℕ) (stack : List Frame) (caller : Caller) (wakeupTimeUs : ℤ) : State :=
  if s.clock < wakeupTimeUs then { s.setStack t (.await caller :: stack) with holder := none }
  else s.callRunAlarms t stack caller

/-- `RunAlarms` returns to its caller. -/
def returnFromRunAlarms (s : State) (t : ℕ) (stack : List Frame) (ranAlarms : Bool) (nextWakeupUs : ℤ) :
    Caller → State
  | .client => s.setStack t stack
  | .addAlarmAtUs => { s.setStack t stack with holder := none }
  | .blockingTimedWait a originalSignalCount wakeupTimeUs =>
    if s.signalCount = originalSignalCount ∧ s.timedOut a = false ∧ 0 < nextWakeupUs then
      s.awaitWakeupUntilUs t stack (.blockingTimedWait a originalSignalCount wakeupTimeUs)
        (min wakeupTimeUs nextWakeupUs)
    else s.setStack t stack
  | .processAlarms timeoutUs finishUs =>
    if 0 < timeoutUs ∧ ranAlarms = false then
      s.awaitWakeupUntilUs t stack .client
        (if nextWakeupUs = 0 ∨ finishUs < nextWakeupUs then finishUs else nextWakeupUs)
    else s.setStack t stack

/-- One round of `RunAlarms`. -/
def runAlarms (s : State) (t : ℕ) (stack : List Frame) (call : ℕ) (ranAlarms : Bool) (caller : Caller) : State :=
  match s.outstandingAlarms with
  | [] => s.returnFromRunAlarms t stack ranAlarms 0 caller
  | a :: rest =>
    if s.clock < (s.alarm a).wakeupTimeUs then
      s.returnFromRunAlarms t stack ranAlarms (s.alarm a).wakeupTimeUs caller
    else
      ({ s with
        outstandingAlarms := rest
        starts := s.starts ++ [⟨call, a, s.inserted, s.clock⟩] } : State).runAlarm t
          (.runAlarms call true caller :: stack) a

/-- One round of the loop of `Signal`. -/
def dispatchWaiting (s : State) (t : ℕ) (stack : List Frame) : List ℕ → State
  | [] => s.callRunAlarms t stack .client
  | a :: toDispatch =>
    (s.tryCancelAlarm t (.signal toDispatch :: stack) a).getD ((s.setStack t (.signal toDispatch :: stack)).free a)

/-- `Signal` up to its loop. -/
def signal (s : State) (t : ℕ) (stack : List Frame) : State :=
  { s.setStack t (.signal s.waitingAlarms :: stack) with
    signalCount := s.signalCount + 1
    waitingAlarms := []
    alarm := fun a =>
      if a ∈ s.waitingAlarms then { s.alarm a with inWaitDispatch := true } else s.alarm a }

def proceed (s : State) (t : ℕ) : List Frame → Option State
  | .runAlarms call ranAlarms caller :: stack =>
    if s.holder = some t then some (s.runAlarms t stack call ranAlarms caller) else none
  | .signal toDispatch :: stack =>
    if s.holder = some t then some (s.dispatchWaiting t stack toDispatch) else none
  | .relock :: stack => if s.holder = none then some { s.setStack t stack with holder := some t } else none
  | .await caller :: stack =>
    if s.holder = none then some ({ s with holder := some t }.callRunAlarms t stack caller) else none
  | _ => none

def callbackReturns (s : State) (t : ℕ) : List Frame → Option State
  | .function a :: stack =>
    if s.holder = some t then none else some ((s.setStack t (.relock :: stack)).free a)
  | .runCallback a savedInWaitDispatch :: stack =>
    if s.holder = some t then
      some (if savedInWaitDispatch then s.setStack t stack else (s.setStack t stack).free a)
    else none
  | .cancelCallback a :: stack =>
    if s.holder = some t then some ((s.setStack t stack).free a) else none
  | _ => none

def clientRuns : List Frame → Bool
  | [] | .function _ :: _ | .runCallback _ _ :: _ | .cancelCallback _ :: _ => true
  | _ => false

def clientCall (s : State) (t : ℕ) (stack : List Frame) : Call → Option State
  | .lock => if s.holder = none then some { s with holder := some t } else none
  | .addAlarmAtUs wakeupTimeUs =>
    if s.holder = none then
      some ({ s.insertAlarmAtUsMutexHeld wakeupTimeUs .function with holder := some t }.callRunAlarms t stack
        .addAlarmAtUs)
    else none
  | call =>
    if s.holder = some t then
      match call with
      | .unlock => some { s with holder := none }
      | .addAlarmAtUsMutexHeld wakeupTimeUs => some (s.insertAlarmAtUsMutexHeld wakeupTimeUs .function)
      | .cancelAlarm a =>
        if 0 < a ∧ a ≤ s.inserted ∧ (s.alarm a).kind = .function ∧ a ∉ s.freed then
          some ((s.tryCancelAlarm t stack a).getD s)
        else none
      | .timedWaitMs timeoutMs =>
        some ((s.insertAlarmAtUsMutexHeld (s.clock + timeoutMs * 1000) .condVarCallbackTimeout).insertWaiting.callRunAlarms
          t stack .client)
      | .blockingTimedWaitUs timeoutUs =>
        some ((s.insertAlarmAtUsMutexHeld (s.clock + timeoutUs) .condVarTimeout).insertWaiting.callRunAlarms t stack
          (.blockingTimedWait (s.inserted + 1) s.signalCount (s.clock + timeoutUs)))
      | .signal => some (s.signal t stack)
      | .runAlarms => some (s.callRunAlarms t stack .client)
      | .processAlarmsOrWaitUs timeoutUs =>
        some (s.callRunAlarms t stack (.processAlarms timeoutUs (s.clock + timeoutUs)))
      | _ => none
    else none

end State

def step (s : State) : Action → Option State
  | .setClock us => some { s with clock := us }
  | .thread t call =>
    (s.threads[t]?).bind fun stack =>
      match call with
      | .proceed => s.proceed t stack
      | .callbackReturns => s.callbackReturns t stack
      | call => if State.clientRuns stack then s.clientCall t stack call else none

end PageSpeed.Scheduler
