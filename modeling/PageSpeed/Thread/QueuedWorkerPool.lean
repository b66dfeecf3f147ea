import PageSpeed.Basic
import PageSpeed.Lib.Machine

/-!
The worker pool of `kernel/thread/queued_worker_pool.cc` and the work threads of
`kernel/thread/worker.cc`. A thread is where it stands between two critical
sections or calls of a function; a run takes them in any order. What a function
does when it is called is left to the callers, who may start calls at any time.
-/

namespace PageSpeed

abbrev Func := ℕ

namespace QueuedWorkerPool

structure Sequence where
  workQueue : List Func
  shutdown : Bool
  active : Bool
  hasPool : Bool
  maxQueueSize : ℕ
  waveform : ℤ
  added : List Func
  taken : List Func
  started : List Func

def unboundedQueue : ℕ := 0

/-- A sequence that `NewSequence` has not made yet. -/
def Sequence.unallocated : Sequence := ⟨[], true, false, false, unboundedQueue, 0, [], [], []⟩

def Sequence.reset (q : Sequence) : Sequence := { q with shutdown := false, active := false }

def Sequence.construct (q : Sequence) : Sequence := { q.reset with hasPool := true, maxQueueSize := unboundedQueue }

def Sequence.overflows (q : Sequence) : Bool :=
  q.maxQueueSize != unboundedQueue && decide (q.maxQueueSize ≤ q.workQueue.length)

def Sequence.push (q : Sequence) (f : Func) : Sequence :=
  { q with workQueue := q.workQueue ++ [f], added := q.added ++ [f] }

structure Worker where
  started : Bool
  exit : Bool
  deleted : Bool
  tasks : List ℕ

inductive Pc where
  | add (s : ℕ) (f : Func)
  | addCancel (f : Func) (s : ℕ) (queue : Bool) (delta : ℤ)
  | queueSequence (s : ℕ) (delta : ℤ)
  | dropCancel (d n s : ℕ) (delta : ℤ)
  | dropCallCancel (f : Func) (d n s : ℕ) (delta : ℤ)
  | dropWaveform (d n s : ℕ) (delta : ℤ)
  | runInWorkThread (w s : ℕ) (delta : ℤ)
  | updateWaveform (s : ℕ) (delta : ℤ)
  | cancelPendingFunctions (s : ℕ)
  | cancelPendingWaveform (s : ℕ) (fs : List Func)
  | cancelQueue (fs : List Func)
  | freeSequence (s : ℕ)
  | pushFree (s : ℕ)
  | newSequence
  | done
  | idle (w : ℕ)
  | nextFunction (s w : ℕ)
  | nextWaveform (f : Func) (s w : ℕ)
  | callRun (f : Func) (s w : ℕ)
  | running (f : Func) (s w : ℕ)
  | drain (s w : ℕ) (hadPending : Bool) (n : ℕ)
  | drainCallCancel (f : Func) (s w : ℕ) (hadPending : Bool) (n : ℕ)
  | release (s w n : ℕ)
  | drainWaveform (s w n : ℕ)
  | assign (w : ℕ)
deriving DecidableEq

def Pc.worker : Pc → Option ℕ
  | .idle w | .nextFunction _ w | .nextWaveform _ _ w | .callRun _ _ w | .running _ _ w | .drain _ w _ _
  | .drainCallCancel _ _ w _ _ | .release _ w _ | .drainWaveform _ w _ | .assign w => some w
  | _ => none

inductive MainPc where
  | notStarted
  | initiate
  | initiateSequence (k : ℕ)
  | waitSequence (k : ℕ)
  | waitActive (k : ℕ)
  | drain (k n : ℕ)
  | callCancel (f : Func) (k n : ℕ)
  | updateWaveform (k n : ℕ)
  | joinActive
  | joinAvailable (ws : List ℕ)
  | shutDownWorker (w : ℕ) (rest : Option (List ℕ))
  | joinWorker (w : ℕ) (rest : Option (List ℕ))
  | complete
deriving DecidableEq

def MainPc.afterWorker : Option (List ℕ) → MainPc
  | none => .joinActive
  | some ws => .joinAvailable ws

end QueuedWorkerPool

open QueuedWorkerPool

structure QueuedWorkerPool where
  maxWorkers : ℕ
  loadSheddingThreshold : Option ℕ
  queueSize : Bool
  shutdown : Bool
  activeWorkers : List ℕ
  availableWorkers : List ℕ
  queuedSequences : List ℕ
  freeSequences : List ℕ
  numSequences : ℕ
  sequences : ℕ → Sequence
  numWorkers : ℕ
  workers : ℕ → Worker
  passed : List Func
  ran : List Func
  cancelled : List Func
  crashed : Bool

namespace QueuedWorkerPool

def new (maxWorkers : ℕ) (loadSheddingThreshold : Option ℕ) (queueSize : Bool) : QueuedWorkerPool where
  maxWorkers := maxWorkers
  loadSheddingThreshold := loadSheddingThreshold
  queueSize := queueSize
  shutdown := false
  activeWorkers := []
  availableWorkers := []
  queuedSequences := []
  freeSequences := []
  numSequences := 0
  sequences := fun _ => Sequence.unallocated
  numWorkers := 0
  workers := fun _ => ⟨false, false, false, []⟩
  passed := []
  ran := []
  cancelled := []
  crashed := false

def setSequence (p : QueuedWorkerPool) (s : ℕ) (q : Sequence) : QueuedWorkerPool :=
  { p with sequences := Function.update p.sequences s q }

def setWorker (p : QueuedWorkerPool) (w : ℕ) (v : Worker) : QueuedWorkerPool :=
  { p with workers := Function.update p.workers w v }

def waveform (p : QueuedWorkerPool) (s : ℕ) (delta : ℤ) : QueuedWorkerPool :=
  if p.queueSize then
    p.setSequence s { p.sequences s with waveform := (p.sequences s).waveform + delta }
  else p

def callCancel (p : QueuedWorkerPool) (f : Func) : QueuedWorkerPool := { p with cancelled := f :: p.cancelled }

def callRun (p : QueuedWorkerPool) (f : Func) (s : ℕ) : QueuedWorkerPool :=
  { p.setSequence s { p.sequences s with started := (p.sequences s).started ++ [f] } with ran := f :: p.ran }

/-- A null `pool_` or a deleted worker is used; no thread takes another step. -/
def crash (p : QueuedWorkerPool) : QueuedWorkerPool := { p with crashed := true }

/-- The critical section of `Sequence::Add`; a full queue gives up its oldest function. -/
def add (p : QueuedWorkerPool) (s : ℕ) (f : Func) : QueuedWorkerPool × Pc :=
  let q := p.sequences s
  if q.shutdown then (p, .addCancel f s false 0)
  else if q.overflows then
    let q' := { q with workQueue := q.workQueue.tail }.push f
    (p.setSequence s q', .addCancel (q.workQueue.headD f) s (!q'.active && decide (q'.workQueue.length = 1)) 0)
  else
    let q' := q.push f
    (p.setSequence s q',
      if !q'.active && decide (q'.workQueue.length = 1) then .queueSequence s 1 else .updateWaveform s 1)

def sheds (p : QueuedWorkerPool) : Bool :=
  match p.loadSheddingThreshold with
  | some x => decide (x < p.queuedSequences.length + 1)
  | none => false

/-- The critical section of `QueueSequence`; `ok` says whether a new thread could be started. -/
def queueSequence (p : QueuedWorkerPool) (s : ℕ) (delta : ℤ) (ok : Bool) : QueuedWorkerPool × Pc × List Pc :=
  match p.availableWorkers.getLast? with
  | some w =>
    ({ p with availableWorkers := p.availableWorkers.dropLast, activeWorkers := p.activeWorkers.insert w },
      .runInWorkThread w s delta, [])
  | none =>
    if p.activeWorkers.length < p.maxWorkers then
      let w := p.numWorkers
      ({ p with
          numWorkers := w + 1
          workers := Function.update p.workers w ⟨ok, false, false, []⟩
          activeWorkers := p.activeWorkers.insert w },
        .runInWorkThread w s delta, if ok then [.idle w] else [])
    else if p.sheds then
      ({ p with queuedSequences := (p.queuedSequences ++ [s]).tail },
        .dropCancel (p.queuedSequences.headD s) 0 s delta, [])
    else ({ p with queuedSequences := p.queuedSequences ++ [s] }, .updateWaveform s delta, [])

/-- `NextFunction` on a sequence that is shut down, with the mutex held; `n` functions are cancelled. -/
def drainStep (p : QueuedWorkerPool) (s w : ℕ) (hadPending : Bool) (n : ℕ) : QueuedWorkerPool × Pc :=
  let q := p.sequences s
  match q.workQueue with
  | f :: rest => (p.setSequence s { q with workQueue := rest }, .drainCallCancel f s w hadPending (n + 1))
  | [] =>
    if q.active || hadPending then
      (p.setSequence s { q with active := false }, if q.hasPool then .release s w n else .drainWaveform s w n)
    else (p, .drainWaveform s w n)

def nextFunction (p : QueuedWorkerPool) (s w : ℕ) : QueuedWorkerPool × Pc :=
  let q := p.sequences s
  if q.shutdown then p.drainStep s w (!q.workQueue.isEmpty) 0
  else
    match q.workQueue with
    | [] => (p.setSequence s { q with active := false }, .assign w)
    | f :: rest =>
      (p.setSequence s { q with workQueue := rest, active := true, taken := q.taken ++ [f] }, .nextWaveform f s w)

def assignWorkerToNextSequence (p : QueuedWorkerPool) (w : ℕ) : QueuedWorkerPool × Pc :=
  if p.shutdown then (p, .idle w)
  else
    match p.queuedSequences with
    | [] =>
      ({ p with activeWorkers := p.activeWorkers.erase w, availableWorkers := p.availableWorkers ++ [w] }, .idle w)
    | s :: rest => ({ p with queuedSequences := rest }, .nextFunction s w)

def newSequence (p : QueuedWorkerPool) : QueuedWorkerPool :=
  if p.shutdown then p
  else
    match p.freeSequences.getLast? with
    | none =>
      { p.setSequence p.numSequences (p.sequences p.numSequences).construct with
        numSequences := p.numSequences + 1 }
    | some s => { p.setSequence s (p.sequences s).reset with freeSequences := p.freeSequences.dropLast }

def exec (p : QueuedWorkerPool) (ok : Bool) : Pc → Option (QueuedWorkerPool × Pc × List Pc)
  | .add s f => let r := p.add s f; some (r.1, r.2, [])
  | .addCancel f s queue delta =>
    some (p.callCancel f, if queue then .queueSequence s delta else .updateWaveform s delta, [])
  | .queueSequence s delta =>
    if (p.sequences s).hasPool then some (p.queueSequence s delta ok)
    else some (p.crash, .queueSequence s delta, [])
  | .dropCancel d n s delta =>
    match (p.sequences d).workQueue with
    | f :: rest =>
      some (p.setSequence d { p.sequences d with workQueue := rest }, .dropCallCancel f d (n + 1) s delta, [])
    | [] => some (p, .dropWaveform d n s delta, [])
  | .dropCallCancel f d n s delta => some (p.callCancel f, .dropCancel d n s delta, [])
  | .dropWaveform d n s delta => some (p.waveform d (-n), .updateWaveform s delta, [])
  | .runInWorkThread w s delta =>
    if (p.workers w).deleted then some (p.crash, .runInWorkThread w s delta, [])
    else if (p.workers w).started then
      some (p.setWorker w { p.workers w with tasks := (p.workers w).tasks ++ [s] }, .updateWaveform s delta, [])
    else some (p, .updateWaveform s delta, [])
  | .updateWaveform s delta => some (p.waveform s delta, .done, [])
  | .cancelPendingFunctions s =>
    some (p.setSequence s { p.sequences s with workQueue := [] },
      .cancelPendingWaveform s (p.sequences s).workQueue, [])
  | .cancelPendingWaveform s fs => some (p.waveform s (-fs.length), .cancelQueue fs, [])
  | .cancelQueue fs =>
    match fs with
    | f :: rest => some (p.callCancel f, .cancelQueue rest, [])
    | [] => some (p, .done, [])
  | .freeSequence s =>
    let q := p.sequences s
    some (p.setSequence s { q with shutdown := true },
      if !q.active && q.workQueue.isEmpty then .pushFree s else .done, [])
  | .pushFree s => some ({ p with freeSequences := p.freeSequences ++ [s] }, .done, [])
  | .newSequence => some (p.newSequence, .done, [])
  | .done => none
  | .idle w =>
    if (p.workers w).exit then some (p, .done, [])
    else
      match (p.workers w).tasks with
      | s :: rest => some (p.setWorker w { p.workers w with tasks := rest }, .nextFunction s w, [])
      | [] => none
  | .nextFunction s w => let r := p.nextFunction s w; some (r.1, r.2, [])
  | .nextWaveform f s w => some (p.waveform s (-1), .callRun f s w, [])
  | .callRun f s w => some (p.callRun f s, .running f s w, [])
  | .running _ s w => some (p, .nextFunction s w, [])
  | .drain s w hadPending n => let r := p.drainStep s w hadPending n; some (r.1, r.2, [])
  | .drainCallCancel f s w hadPending n => some (p.callCancel f, .drain s w hadPending n, [])
  | .release s w n =>
    some (if p.shutdown then p else { p with freeSequences := p.freeSequences ++ [s] }, .drainWaveform s w n, [])
  | .drainWaveform s w n => some (p.waveform s (-n), .assign w, [])
  | .assign w => let r := p.assignWorkerToNextSequence w; some (r.1, r.2, [])

/-- `WaitForShutDown` once no function of the sequence is active, with the mutex held. -/
def waitDrain (p : QueuedWorkerPool) (k n : ℕ) : QueuedWorkerPool × MainPc :=
  match (p.sequences k).workQueue with
  | f :: rest => (p.setSequence k { p.sequences k with workQueue := rest }, .callCancel f k (n + 1))
  | [] => (p, .updateWaveform k n)

/-- One step of `ShutDown`. `choice` is the worker that the set of active workers gives first. -/
def execMain (p : QueuedWorkerPool) (threads : List Pc) (choice : ℕ) : MainPc → Option (QueuedWorkerPool × MainPc)
  | .notStarted => none
  | .initiate => some ({ p with shutdown := true }, .initiateSequence 0)
  | .initiateSequence k =>
    if k < p.numSequences then
      some (p.setSequence k { p.sequences k with shutdown := true }, .initiateSequence (k + 1))
    else some (p, .waitSequence 0)
  | .waitSequence k =>
    if k < p.numSequences then
      let p := p.setSequence k { p.sequences k with shutdown := true, hasPool := false }
      some (if (p.sequences k).active then (p, .waitActive k) else p.waitDrain k 0)
    else some (p, .joinActive)
  | .waitActive k => if (p.sequences k).active then none else some (p.waitDrain k 0)
  | .drain k n => some (p.waitDrain k n)
  | .callCancel f k n => some (p.callCancel f, .drain k n)
  | .updateWaveform k n => some (p.waveform k (-n), .waitSequence (k + 1))
  | .joinActive =>
    match p.activeWorkers with
    | [] => some (p, .joinAvailable p.availableWorkers)
    | _ :: _ =>
      match p.activeWorkers[choice]? with
      | some w => some ({ p with activeWorkers := p.activeWorkers.erase w }, .shutDownWorker w none)
      | none => none
  | .joinAvailable ws =>
    match ws with
    | [] => some ({ p with availableWorkers := [] }, .complete)
    | w :: ws => some (p, .shutDownWorker w (some ws))
  | .shutDownWorker w rest =>
    let v := p.workers w
    if v.exit || !v.started then some (p.setWorker w { v with deleted := true }, .afterWorker rest)
    else some (p.setWorker w { v with exit := true }, .joinWorker w rest)
  | .joinWorker w rest =>
    if threads.any fun pc => pc.worker = some w then none
    else
      some (p.setWorker w { p.workers w with started := false, deleted := true, tasks := [] }, .afterWorker rest)
  | .complete => none

structure State extends QueuedWorkerPool where
  threads : List Pc
  main : MainPc

def State.new (maxWorkers : ℕ) (loadSheddingThreshold : Option ℕ) (queueSize : Bool) : State :=
  { QueuedWorkerPool.new maxWorkers loadSheddingThreshold queueSize with threads := [], main := .notStarted }

inductive Action where
  | add (s : ℕ) (f : Func)
  | cancelPendingFunctions (s : ℕ)
  | freeSequence (s : ℕ)
  | newSequence
  | setMaxQueueSize (s n : ℕ)
  | shutDown
  | thread (i : ℕ) (ok : Bool)
  | main (choice : ℕ)

def step (t : State) (a : Action) : Option State :=
  if t.crashed then none
  else match a with
  | .add s f =>
    if s < t.numSequences then some { t with threads := t.threads ++ [.add s f], passed := f :: t.passed } else none
  | .cancelPendingFunctions s =>
    if s < t.numSequences then some { t with threads := t.threads ++ [.cancelPendingFunctions s] } else none
  | .freeSequence s =>
    if s < t.numSequences then some { t with threads := t.threads ++ [.freeSequence s] } else none
  | .newSequence => some { t with threads := t.threads ++ [.newSequence] }
  | .setMaxQueueSize s n =>
    if s < t.numSequences then
      some { t with toQueuedWorkerPool := t.setSequence s { t.sequences s with maxQueueSize := n } }
    else none
  | .shutDown => if t.main = .notStarted then some { t with main := .initiate } else none
  | .thread i ok =>
    match t.threads[i]? with
    | some pc =>
      (t.exec ok pc).map fun r =>
        { t with toQueuedWorkerPool := r.1, threads := t.threads.set i r.2.1 ++ r.2.2 }
    | none => none
  | .main choice =>
    (t.execMain t.threads choice t.main).map fun r => { t with toQueuedWorkerPool := r.1, main := r.2 }

end QueuedWorkerPool

end PageSpeed
