import PageSpeed.Basic
import PageSpeed.Lib.Machine

/-!
`pagespeed/system/circuit_breaker.cc`. A thread is where its call stands between
two accesses to the atomics or the clock. What the calls did is kept in a log,
the latest first.
-/

namespace PageSpeed

namespace CircuitBreaker

structure Config where
  failureThreshold : ℤ := 5
  successThreshold : ℤ := 2
  timeoutMs : ℤ := 30000

inductive State where
  | closed | open | halfOpen
  deriving DecidableEq

inductive Event where
  | started (call : ℕ)
  | returned (call : ℕ) (allowed : Bool) (nowMs : ℤ)
  | entered (call : ℕ) (successCount : ℤ)
  | reset (call : ℕ)
  | counted
  | opened (openTimeMs : ℤ)
  | closed
  deriving DecidableEq

inductive Pc where
  | idle
  | allowRequest (call : ℕ)
  | allowNow (call : ℕ)
  | allowOpenTime (call : ℕ) (nowMs : ℤ)
  | allowExchange (call : ℕ) (openTimeMs nowMs : ℤ)
  | allowReset (call : ℕ)
  | allowReload (call : ℕ)
  | recordSuccess
  | resetFailures
  | countSuccess (opens : ℕ)
  | closeFailures (opens : ℕ)
  | closeSuccesses (opens : ℕ)
  | closeState (opens : ℕ)
  | recordFailure
  | countFailure
  | openNow
  | openTime (nowMs : ℤ)
  | openState (nowMs : ℤ)
  | openFailures
  deriving DecidableEq

end CircuitBreaker

open CircuitBreaker

structure CircuitBreaker where
  state : State
  failureCount : ℤ
  successCount : ℤ
  openTimeMs : ℤ

namespace CircuitBreaker

def new : CircuitBreaker := ⟨.closed, 0, 0, 0⟩

structure World where
  breaker : CircuitBreaker
  nowMs : ℤ
  pc : ℕ → Pc
  calls : ℕ
  log : List Event

inductive Action where
  | tick (ms : ℕ)
  | allowRequest (thread : ℕ)
  | recordSuccess (thread : ℕ)
  | recordFailure (thread : ℕ)
  | proceed (thread : ℕ)

def Event.isOpened : Event → Bool
  | .opened _ => true
  | _ => false

def opens (log : List Event) : ℕ := log.countP Event.isOpened

namespace World

variable (config : Config) (w : World) (t : ℕ)

def goto (pc : Pc) : World := { w with pc := Function.update w.pc t pc }

def note (event : Event) : World := { w with log := event :: w.log }

def answer (call : ℕ) (allowed : Bool) : World := (w.note (.returned call allowed w.nowMs)).goto t .idle

def setState (state : State) : World := { w with breaker := { w.breaker with state := state } }

def setFailureCount (n : ℤ) : World := { w with breaker := { w.breaker with failureCount := n } }

def setSuccessCount (n : ℤ) : World := { w with breaker := { w.breaker with successCount := n } }

def setOpenTime (ms : ℤ) : World := { w with breaker := { w.breaker with openTimeMs := ms } }

/-- `AllowRequest` -/
def allow : Pc → Option World
  | .allowRequest call =>
    match w.breaker.state with
    | .closed => some (w.answer t call true)
    | .open => some (w.goto t (.allowNow call))
    | .halfOpen => some (w.answer t call true)
  | .allowNow call => some (w.goto t (.allowOpenTime call w.nowMs))
  | .allowOpenTime call nowMs =>
    if config.timeoutMs ≤ nowMs - w.breaker.openTimeMs then
      some (w.goto t (.allowExchange call w.breaker.openTimeMs nowMs))
    else some (w.answer t call false)
  | .allowExchange call _ _ =>
    if w.breaker.state = .open then
      some (((w.setState .halfOpen).note (.entered call w.breaker.successCount)).goto t (.allowReset call))
    else some (w.goto t (.allowReload call))
  | .allowReset call => some (((w.setSuccessCount 0).note (.reset call)).answer t call true)
  | .allowReload call => some (w.answer t call (decide (w.breaker.state ≠ .open)))
  | _ => none

/-- `RecordSuccess` and `TransitionToClosed` -/
def succeed : Pc → Option World
  | .recordSuccess =>
    match w.breaker.state with
    | .closed => some (w.goto t .resetFailures)
    | .halfOpen => some (w.goto t (.countSuccess (opens w.log)))
    | .open => some (w.goto t .idle)
  | .resetFailures => some ((w.setFailureCount 0).goto t .idle)
  | .countSuccess opens =>
    let newCount := w.breaker.successCount + 1
    let w := (w.setSuccessCount newCount).note .counted
    some (w.goto t (if config.successThreshold ≤ newCount then .closeFailures opens else .idle))
  | .closeFailures opens => some ((w.setFailureCount 0).goto t (.closeSuccesses opens))
  | .closeSuccesses opens => some ((w.setSuccessCount 0).goto t (.closeState opens))
  | .closeState _ => some (((w.setState .closed).note .closed).goto t .idle)
  | _ => none

/-- `RecordFailure` and `TransitionToOpen` -/
def failed : Pc → Option World
  | .recordFailure =>
    match w.breaker.state with
    | .closed => some (w.goto t .countFailure)
    | .halfOpen => some (w.goto t .openNow)
    | .open => some (w.goto t .idle)
  | .countFailure =>
    let newCount := w.breaker.failureCount + 1
    some ((w.setFailureCount newCount).goto t (if config.failureThreshold ≤ newCount then .openNow else .idle))
  | .openNow => some (w.goto t (.openTime w.nowMs))
  | .openTime nowMs => some ((w.setOpenTime nowMs).goto t (.openState nowMs))
  | .openState nowMs => some (((w.setState .open).note (.opened nowMs)).goto t .openFailures)
  | .openFailures => some ((w.setFailureCount 0).goto t .idle)
  | _ => none

def proceed : Option World :=
  (w.allow config t (w.pc t)).orElse fun _ => (w.succeed config t (w.pc t)).orElse fun _ => w.failed config t (w.pc t)

def step : Action → Option World
  | .tick ms => some { w with nowMs := w.nowMs + ms }
  | .allowRequest t =>
    if w.pc t = .idle then some ({ w.note (.started w.calls) with calls := w.calls + 1 }.goto t (.allowRequest w.calls))
    else none
  | .recordSuccess t => if w.pc t = .idle then some (w.goto t .recordSuccess) else none
  | .recordFailure t => if w.pc t = .idle then some (w.goto t .recordFailure) else none
  | .proceed t => w.proceed config t

def start (nowMs : ℤ) : World := ⟨new, nowMs, fun _ => .idle, 0, []⟩

end World

end CircuitBreaker

end PageSpeed
