import PageSpeed.Thread.QueuedWorkerPool
import PageSpeed.Lib.Bag
import Mathlib.Tactic.Abel

/-!
What a thread can do in one step, and what becomes of the functions that are added to a
sequence and of the deltas that are sent to the waveform of the queue size.
-/

namespace PageSpeed.QueuedWorkerPool

open Bag

variable {p p' : QueuedWorkerPool} {q q' : Sequence} {ok : Bool} {pc pc' : Pc} {spawned : List Pc}

/-- The critical sections in which a worker cancels the functions of a sequence that is shut down. -/
inductive Drains (p : QueuedWorkerPool) : Pc → ℕ → ℕ → Bool → ℕ → Prop
  | drain (s w : ℕ) (hadPending : Bool) (n : ℕ) : Drains p (.drain s w hadPending n) s w hadPending n
  | nextFunction (s w : ℕ) (hsh : (p.sequences s).shutdown = true) :
    Drains p (.nextFunction s w) s w (!(p.sequences s).workQueue.isEmpty) 0

/-- What a thread can do in one step. -/
inductive Executes (p : QueuedWorkerPool) : Pc → QueuedWorkerPool → Pc → List Pc → Prop
  | addRefused {s f} (hsh : (p.sequences s).shutdown = true) : Executes p (.add s f) p (.addCancel f s false 0) []
  | addOverflows {s f} (hsh : ¬(p.sequences s).shutdown = true) (hover : (p.sequences s).overflows = true) :
    Executes p (.add s f) (p.setSequence s ({ p.sequences s with workQueue := (p.sequences s).workQueue.tail }.push f))
      (.addCancel ((p.sequences s).workQueue.headD f) s
        (!(p.sequences s).active && decide (((p.sequences s).workQueue.tail ++ [f]).length = 1)) 0) []
  | addPushes {s f} (hsh : ¬(p.sequences s).shutdown = true) :
    Executes p (.add s f) (p.setSequence s ((p.sequences s).push f))
      (if !(p.sequences s).active && decide (((p.sequences s).workQueue ++ [f]).length = 1) then .queueSequence s 1
        else .updateWaveform s 1) []
  | addCancel {f s queue delta} : Executes p (.addCancel f s queue delta) (p.callCancel f)
      (if queue then .queueSequence s delta else .updateWaveform s delta) []
  | queueCrashes {s delta} : Executes p (.queueSequence s delta) p.crash (.queueSequence s delta) []
  | queueWakes {s delta w} (hpool : (p.sequences s).hasPool = true) (hw : p.availableWorkers.getLast? = some w) :
    Executes p (.queueSequence s delta)
      { p with availableWorkers := p.availableWorkers.dropLast, activeWorkers := p.activeWorkers.insert w }
      (.runInWorkThread w s delta) []
  | queueHires {s delta} (ok : Bool) (hpool : (p.sequences s).hasPool = true) (hw : p.availableWorkers = []) :
    Executes p (.queueSequence s delta)
      { p with
        numWorkers := p.numWorkers + 1
        workers := Function.update p.workers p.numWorkers ⟨ok, false, false, []⟩
        activeWorkers := p.activeWorkers.insert p.numWorkers }
      (.runInWorkThread p.numWorkers s delta) (if ok then [.idle p.numWorkers] else [])
  | queueSheds {s delta} (hpool : (p.sequences s).hasPool = true) :
    Executes p (.queueSequence s delta) { p with queuedSequences := (p.queuedSequences ++ [s]).tail }
      (.dropCancel (p.queuedSequences.headD s) 0 s delta) []
  | queueWaits {s delta} (hpool : (p.sequences s).hasPool = true) :
    Executes p (.queueSequence s delta) { p with queuedSequences := p.queuedSequences ++ [s] } (.updateWaveform s delta) []
  | dropFunction {d n s delta f rest} (hq : (p.sequences d).workQueue = f :: rest) :
    Executes p (.dropCancel d n s delta) (p.setSequence d { p.sequences d with workQueue := rest })
      (.dropCallCancel f d (n + 1) s delta) []
  | dropDone {d n s delta} : Executes p (.dropCancel d n s delta) p (.dropWaveform d n s delta) []
  | dropCallCancel {f d n s delta} :
    Executes p (.dropCallCancel f d n s delta) (p.callCancel f) (.dropCancel d n s delta) []
  | dropWaveform {d n s delta} : Executes p (.dropWaveform d n s delta) (p.waveform d (-n)) (.updateWaveform s delta) []
  | runCrashes {w s delta} : Executes p (.runInWorkThread w s delta) p.crash (.runInWorkThread w s delta) []
  | runQueues {w s delta} (hst : (p.workers w).started = true) :
    Executes p (.runInWorkThread w s delta)
      (p.setWorker w { p.workers w with tasks := (p.workers w).tasks ++ [s] }) (.updateWaveform s delta) []
  | runDrops {w s delta} : Executes p (.runInWorkThread w s delta) p (.updateWaveform s delta) []
  | updateWaveform {s delta} : Executes p (.updateWaveform s delta) (p.waveform s delta) .done []
  | cancelPendingFunctions {s} : Executes p (.cancelPendingFunctions s)
      (p.setSequence s { p.sequences s with workQueue := [] }) (.cancelPendingWaveform s (p.sequences s).workQueue) []
  | cancelPendingWaveform {s fs} :
    Executes p (.cancelPendingWaveform s fs) (p.waveform s (-fs.length)) (.cancelQueue fs) []
  | cancelFunction {f rest} : Executes p (.cancelQueue (f :: rest)) (p.callCancel f) (.cancelQueue rest) []
  | cancelDone : Executes p (.cancelQueue []) p .done []
  | freeSequence {s} : Executes p (.freeSequence s) (p.setSequence s { p.sequences s with shutdown := true })
      (if !(p.sequences s).active && (p.sequences s).workQueue.isEmpty then .pushFree s else .done) []
  | pushFree {s} : Executes p (.pushFree s) { p with freeSequences := p.freeSequences ++ [s] } .done []
  | newRefused : Executes p .newSequence p .done []
  | newConstructs (hsh : ¬p.shutdown = true) :
    Executes p .newSequence
      { p.setSequence p.numSequences (p.sequences p.numSequences).construct with numSequences := p.numSequences + 1 }
      .done []
  | newRecycles {s} (hsh : ¬p.shutdown = true) (hlast : p.freeSequences.getLast? = some s) :
    Executes p .newSequence { p.setSequence s (p.sequences s).reset with freeSequences := p.freeSequences.dropLast } .done []
  | idleExits {w} : Executes p (.idle w) p .done []
  | idleTakes {w s rest} (hq : (p.workers w).tasks = s :: rest) :
    Executes p (.idle w) (p.setWorker w { p.workers w with tasks := rest }) (.nextFunction s w) []
  | nextStops {s w} (hq : (p.sequences s).workQueue = []) :
    Executes p (.nextFunction s w) (p.setSequence s { p.sequences s with active := false }) (.assign w) []
  | nextTakes {s w f rest} (hsh : ¬(p.sequences s).shutdown = true) (hq : (p.sequences s).workQueue = f :: rest) :
    Executes p (.nextFunction s w) (p.setSequence s
      { p.sequences s with workQueue := rest, active := true, taken := (p.sequences s).taken ++ [f] })
      (.nextWaveform f s w) []
  | nextWaveform {f s w} : Executes p (.nextWaveform f s w) (p.waveform s (-1)) (.callRun f s w) []
  | callRun {f s w} : Executes p (.callRun f s w) (p.callRun f s) (.running f s w) []
  | running {f s w} : Executes p (.running f s w) p (.nextFunction s w) []
  | drainFunction {pc s w hadPending n f rest} (hpc : Drains p pc s w hadPending n)
    (hq : (p.sequences s).workQueue = f :: rest) :
    Executes p pc (p.setSequence s { p.sequences s with workQueue := rest }) (.drainCallCancel f s w hadPending (n + 1)) []
  | drainStops {pc s w hadPending n} (hpc : Drains p pc s w hadPending n) :
    Executes p pc (p.setSequence s { p.sequences s with active := false })
      (if (p.sequences s).hasPool then .release s w n else .drainWaveform s w n) []
  | drainDone {pc s w hadPending n} (hpc : Drains p pc s w hadPending n) : Executes p pc p (.drainWaveform s w n) []
  | drainCallCancel {f s w hadPending n} :
    Executes p (.drainCallCancel f s w hadPending n) (p.callCancel f) (.drain s w hadPending n) []
  | release {s w n} : Executes p (.release s w n)
      (if p.shutdown then p else { p with freeSequences := p.freeSequences ++ [s] }) (.drainWaveform s w n) []
  | drainWaveform {s w n} : Executes p (.drainWaveform s w n) (p.waveform s (-n)) (.assign w) []
  | assignRefused {w} : Executes p (.assign w) p (.idle w) []
  | assignRetires {w} (hsh : ¬p.shutdown = true) (hq : p.queuedSequences = []) :
    Executes p (.assign w)
      { p with activeWorkers := p.activeWorkers.erase w, availableWorkers := p.availableWorkers ++ [w] } (.idle w) []
  | assignTakes {w s rest} (hsh : ¬p.shutdown = true) (hq : p.queuedSequences = s :: rest) :
    Executes p (.assign w) { p with queuedSequences := rest } (.nextFunction s w) []

theorem drainStep_executes {s w n : ℕ} {hadPending : Bool} (hpc : Drains p pc s w hadPending n)
    (h : p.drainStep s w hadPending n = (p', pc')) : Executes p pc p' pc' [] := by
  unfold drainStep at h
  dsimp only at h
  split at h
  · cases h
    exact .drainFunction hpc (by assumption)
  · split at h
    · cases h
      exact .drainStops hpc
    · cases h
      exact .drainDone hpc

theorem exec_cases (h : p.exec ok pc = some (p', pc', spawned)) : Executes p pc p' pc' spawned := by
  unfold exec at h
  cases pc with
  | done => cases h
  | addCancel | dropCallCancel | dropWaveform | updateWaveform | cancelPendingFunctions | cancelPendingWaveform
  | freeSequence | pushFree | nextWaveform | callRun | running | drainCallCancel | release | drainWaveform =>
    cases h
    constructor
  | add s f =>
    dsimp only at h
    generalize hr : p.add s f = r at h
    unfold add at hr
    dsimp only at hr
    split at hr
    · subst hr
      cases h
      exact .addRefused ‹_›
    · split at hr <;> subst hr <;> cases h
      · exact .addOverflows ‹_› ‹_›
      · exact .addPushes ‹_›
  | queueSequence s delta =>
    dsimp only at h
    split_ifs at h with hpool
    · unfold queueSequence at h
      split at h
      · cases h
        exact .queueWakes hpool ‹_›
      · split at h
        · cases h
          exact .queueHires ok hpool (List.getLast?_eq_none_iff.mp ‹_›)
        · split at h <;> cases h
          · exact .queueSheds hpool
          · exact .queueWaits hpool
    · cases h
      exact .queueCrashes
  | dropCancel d n s delta =>
    dsimp only at h
    split at h <;> cases h
    · exact .dropFunction ‹_›
    · exact .dropDone
  | runInWorkThread w s delta =>
    dsimp only at h
    split_ifs at h with hdeleted hst <;> cases h
    · exact .runCrashes
    · exact .runQueues hst
    · exact .runDrops
  | cancelQueue fs => cases fs <;> cases h <;> constructor
  | newSequence =>
    cases h
    unfold newSequence
    split
    · exact .newRefused
    · split
      · exact .newConstructs ‹_›
      · exact .newRecycles ‹_› ‹_›
  | idle w =>
    dsimp only at h
    split at h
    · cases h
      exact .idleExits
    · split at h <;> cases h
      exact .idleTakes ‹_›
  | nextFunction s w =>
    dsimp only at h
    generalize hr : p.nextFunction s w = r at h
    cases h
    unfold nextFunction at hr
    dsimp only at hr
    split at hr
    · exact drainStep_executes (.nextFunction s w ‹_›) hr
    · split at hr <;> subst hr
      · exact .nextStops ‹_›
      · exact .nextTakes ‹_› ‹_›
  | drain s w hadPending n => cases h; exact drainStep_executes (.drain s w hadPending n) rfl
  | assign w =>
    dsimp only at h
    generalize hr : p.assignWorkerToNextSequence w = r at h
    cases h
    unfold assignWorkerToNextSequence at hr
    split at hr
    · subst hr
      exact .assignRefused
    · split at hr <;> subst hr
      · exact .assignRetires ‹_› ‹_›
      · exact .assignTakes ‹_› ‹_›

/-- The state after one step of thread `i`. -/
def State.after (t : State) (i : ℕ) (p' : QueuedWorkerPool) (pc' : Pc) (spawned : List Pc) : State :=
  { t with toQueuedWorkerPool := p', threads := t.threads.set i pc' ++ spawned }

theorem after_total {t : State} {i : ℕ} {M : Type*} [AddCommMonoid M] (hi : t.threads[i]? = some pc)
    (p' : QueuedWorkerPool) (pc' : Pc) (spawned : List Pc) (φ : Pc → M) :
    ∃ r, total φ t.threads = φ pc + r ∧
      total φ (t.after i p' pc' spawned).threads = φ pc' + r + total φ spawned := by
  obtain ⟨r, hr, hset⟩ := total_set hi φ
  refine ⟨r, hr, ?_⟩
  change total φ (t.threads.set i pc' ++ spawned) = _
  rw [total_append, hset]

theorem setSequence_sequences {R : Sequence → Sequence → Prop} (hrefl : ∀ q, R q q) {s' : ℕ}
    (hq : R (p.sequences s') q) (s : ℕ) : R (p.sequences s) ((p.setSequence s' q).sequences s) := by
  change R _ (Function.update p.sequences s' q s)
  by_cases hs : s = s'
  · subst hs
    rw [Function.update_self]
    exact hq
  · rw [Function.update_of_ne hs]
    exact hrefl _

/-- At most the size of the queue that was sent to the waveform differs. -/
def Still (q q' : Sequence) : Prop := ∃ waveform, q' = { q with waveform := waveform }

theorem Still.refl (q : Sequence) : Still q q := ⟨q.waveform, rfl⟩

theorem waveform_still (p : QueuedWorkerPool) (s' : ℕ) (delta : ℤ) (s : ℕ) :
    Still (p.sequences s) ((p.waveform s' delta).sequences s) := by
  unfold waveform
  split_ifs
  · exact setSequence_sequences Still.refl ⟨_, rfl⟩ s
  · exact Still.refl _

def Pc.edits : Pc → Bool
  | .add _ _ | .dropCancel _ _ _ _ | .cancelPendingFunctions _ | .freeSequence _ | .newSequence | .nextFunction _ _
  | .callRun _ _ _ | .drain _ _ _ _ => true
  | _ => false

theorem Executes.still (h : Executes p pc p' pc' spawned) (hedits : pc.edits = false) (s : ℕ) :
    Still (p.sequences s) (p'.sequences s) := by
  cases h with
  | addRefused | addOverflows | addPushes | dropFunction | dropDone | cancelPendingFunctions | freeSequence | newRefused
  | newConstructs | newRecycles | nextStops | nextTakes | callRun => cases hedits
  | drainFunction hpc | drainStops hpc | drainDone hpc => cases hpc <;> cases hedits
  | dropWaveform | updateWaveform | cancelPendingWaveform | nextWaveform | drainWaveform => exact waveform_still p _ _ s
  | release => split_ifs <;> exact Still.refl _
  | _ => exact Still.refl _

structure SameSetting (p p' : QueuedWorkerPool) : Prop where
  queueSize : p'.queueSize = p.queueSize
  shutdown : p'.shutdown = p.shutdown
  passed : p'.passed = p.passed
  numSequences : p'.numSequences = p.numSequences

/-- `p'` differs from `p` at most in what belongs to the sequences and in the calls that were made. -/
def SameWorkers (p p' : QueuedWorkerPool) : Prop :=
  p'.workers = p.workers ∧ p'.numWorkers = p.numWorkers ∧ p'.activeWorkers = p.activeWorkers ∧
    p'.availableWorkers = p.availableWorkers

theorem waveform_same (p : QueuedWorkerPool) (s : ℕ) (delta : ℤ) :
    SameWorkers p (p.waveform s delta) ∧ SameSetting p (p.waveform s delta) := by
  unfold waveform
  split_ifs <;> exact ⟨⟨rfl, rfl, rfl, rfl⟩, ⟨rfl, rfl, rfl, rfl⟩⟩

def Pc.managesWorkers : Pc → Bool
  | .queueSequence _ _ | .runInWorkThread _ _ _ | .idle _ | .assign _ => true
  | _ => false

def Pc.makes : Pc → Bool
  | .newSequence => true
  | _ => false

theorem Executes.sameSetting (h : Executes p pc p' pc' spawned) (hmakes : pc.makes = false) : SameSetting p p' := by
  cases h with
  | newRefused | newConstructs | newRecycles => cases hmakes
  | dropWaveform | updateWaveform | cancelPendingWaveform | nextWaveform | drainWaveform =>
    exact (waveform_same _ _ _).2
  | release => split_ifs <;> exact ⟨rfl, rfl, rfl, rfl⟩
  | _ => exact ⟨rfl, rfl, rfl, rfl⟩

theorem Executes.setting (h : Executes p pc p' pc' spawned) :
    p'.queueSize = p.queueSize ∧ p'.passed = p.passed ∧ p.numSequences ≤ p'.numSequences := by
  cases hmakes : pc.makes with
  | false =>
    have hs := h.sameSetting hmakes
    exact ⟨hs.queueSize, hs.passed, hs.numSequences.ge⟩
  | true =>
    cases h with
    | newConstructs => exact ⟨rfl, rfl, Nat.le_succ _⟩
    | newRefused | newRecycles => exact ⟨rfl, rfl, le_rfl⟩
    | drainFunction hpc | drainStops hpc | drainDone hpc => cases hpc <;> cases hmakes
    | _ => cases hmakes

def Pc.hand : Pc → Multiset Func
  | .add _ f | .addCancel f _ _ _ | .dropCallCancel f _ _ _ _ | .nextWaveform f _ _ | .callRun f _ _
  | .drainCallCancel f _ _ _ _ => {f}
  | .cancelPendingWaveform _ fs | .cancelQueue fs => fs
  | _ => 0

def MainPc.hand : MainPc → Multiset Func
  | .callCancel f _ _ => {f}
  | _ => 0

def Pc.delta (s : ℕ) : Pc → ℤ
  | .addCancel _ s' _ delta | .queueSequence s' delta | .runInWorkThread _ s' delta | .updateWaveform s' delta =>
    if s' = s then delta else 0
  | .dropCancel d n s' delta | .dropCallCancel _ d n s' delta | .dropWaveform d n s' delta =>
    (if s' = s then delta else 0) - if d = s then (n : ℤ) else 0
  | .cancelPendingWaveform s' fs => if s' = s then -(fs.length : ℤ) else 0
  | .nextWaveform _ s' _ => if s' = s then -1 else 0
  | .drain s' _ _ n | .drainCallCancel _ s' _ _ n | .release s' _ n | .drainWaveform s' _ n =>
    if s' = s then -(n : ℤ) else 0
  | _ => 0

def MainPc.delta (s : ℕ) : MainPc → ℤ
  | .drain k n | .callCancel _ k n | .updateWaveform k n => if k = s then -(n : ℤ) else 0
  | _ => 0

def settled (p : QueuedWorkerPool) : Multiset Func :=
  ∑ s ∈ Finset.range p.numSequences, ((p.sequences s).workQueue : Multiset Func) + (p.ran : Multiset Func) +
    (p.cancelled : Multiset Func)

def gap (p : QueuedWorkerPool) (s : ℕ) : ℤ := (p.sequences s).waveform - (p.sequences s).workQueue.length

def Unallocated (p : QueuedWorkerPool) : Prop :=
  ∀ s, p.numSequences ≤ s →
    (p.sequences s).shutdown = true ∧ (p.sequences s).workQueue = [] ∧ (p.sequences s).hasPool = false

theorem Unallocated.lt (hun : Unallocated p) {s : ℕ} (hsh : ¬(p.sequences s).shutdown = true) : s < p.numSequences := by
  by_contra hlt
  exact hsh (hun s (Nat.not_lt.mp hlt)).1

theorem setSequence_settled (hun : Unallocated p) {s : ℕ} (hq : p.numSequences ≤ s → q.workQueue = []) :
    (p.setSequence s q).settled + ((p.sequences s).workQueue : Multiset Func) =
      p.settled + (q.workQueue : Multiset Func) := by
  by_cases hs : s < p.numSequences
  · have h := sum_update hs (fun q : Sequence => (q.workQueue : Multiset Func)) p.sequences q
    unfold settled
    change ∑ x ∈ Finset.range p.numSequences, ((Function.update p.sequences s q x).workQueue : Multiset Func) +
      (p.ran : Multiset Func) + (p.cancelled : Multiset Func) + _ = _
    calc
      _ = (∑ x ∈ Finset.range p.numSequences, ((Function.update p.sequences s q x).workQueue : Multiset Func) +
          ((p.sequences s).workQueue : Multiset Func)) + (p.ran : Multiset Func) + (p.cancelled : Multiset Func) := by
        abel
      _ = _ := by rw [h]; abel
  · have hle := Nat.not_lt.mp hs
    rw [hq hle, (hun s hle).2.1]
    have hsum : ∑ x ∈ Finset.range p.numSequences, ((Function.update p.sequences s q x).workQueue : Multiset Func) =
        ∑ x ∈ Finset.range p.numSequences, ((p.sequences x).workQueue : Multiset Func) := by
      apply Finset.sum_congr rfl
      intro x hx
      have hxs : x ≠ s := fun hxs => hs (hxs ▸ Finset.mem_range.mp hx)
      rw [Function.update_of_ne hxs]
    unfold settled
    exact congrArg (· + (p.ran : Multiset Func) + (p.cancelled : Multiset Func) + 0) hsum

theorem setSequence_settled_same (hun : Unallocated p) {s : ℕ}
    (hq : q.workQueue = (p.sequences s).workQueue) : (p.setSequence s q).settled = p.settled := by
  have h := setSequence_settled hun (s := s) (q := q) fun hle => hq.trans (hun s hle).2.1
  rw [hq] at h
  exact Multiset.add_left_inj.mp h

theorem setSequence_settled_pop (hun : Unallocated p) {s : ℕ} {f : Func}
    (hq : (p.sequences s).workQueue = f :: q.workQueue) : (p.setSequence s q).settled + {f} = p.settled := by
  have hlt : s < p.numSequences := by
    by_contra hlt
    rw [(hun s (Nat.not_lt.mp hlt)).2.1] at hq
    cases hq
  have h := setSequence_settled hun (s := s) (q := q) fun hle => absurd hlt (Nat.not_lt.mpr hle)
  rw [hq, ← Multiset.cons_coe, ← Multiset.singleton_add, ← add_assoc] at h
  exact Multiset.add_left_inj.mp h

theorem waveform_settled (hun : Unallocated p) (s : ℕ) (delta : ℤ) : (p.waveform s delta).settled = p.settled := by
  unfold waveform
  split_ifs
  · exact setSequence_settled_same hun rfl
  · rfl

theorem callCancel_settled (p : QueuedWorkerPool) (f : Func) : (p.callCancel f).settled = p.settled + {f} := by
  change ∑ s ∈ Finset.range p.numSequences, ((p.sequences s).workQueue : Multiset Func) + (p.ran : Multiset Func) +
    ((f :: p.cancelled : List Func) : Multiset Func) = _
  rw [← Multiset.cons_coe, ← Multiset.singleton_add]
  unfold settled
  abel

theorem overflows_cons (h : q.overflows = true) (f : Func) :
    q.workQueue = q.workQueue.headD f :: q.workQueue.tail := by
  unfold Sequence.overflows at h
  obtain ⟨h1, h2⟩ := Bool.and_eq_true_iff.mp h
  have hmax : q.maxQueueSize ≠ 0 := by simpa [unboundedQueue] using h1
  have hlen := of_decide_eq_true h2
  cases hq : q.workQueue with
  | nil => rw [hq] at hlen; exact absurd (Nat.le_zero.mp hlen) hmax
  | cons g rest => rfl

theorem callRun_settled (hun : Unallocated p) (f : Func) (s : ℕ) : (p.callRun f s).settled = p.settled + {f} := by
  have hran : ∀ q : QueuedWorkerPool, settled { q with ran := f :: q.ran } = q.settled + {f} := by
    intro q
    change ∑ s ∈ Finset.range q.numSequences, ((q.sequences s).workQueue : Multiset Func) +
      ((f :: q.ran : List Func) : Multiset Func) + (q.cancelled : Multiset Func) = _
    rw [← Multiset.cons_coe, ← Multiset.singleton_add]
    unfold settled
    abel
  have hsame := setSequence_settled_same hun (s := s)
    (q := { p.sequences s with started := (p.sequences s).started ++ [f] }) rfl
  rw [← hsame]
  exact hran _

theorem construct_settled (hun : Unallocated p) :
    settled { p.setSequence p.numSequences (p.sequences p.numSequences).construct with
      numSequences := p.numSequences + 1 } = p.settled := by
  have hsame := setSequence_settled_same hun (s := p.numSequences) (q := (p.sequences p.numSequences).construct) rfl
  refine Eq.trans ?_ hsame
  unfold settled
  change ∑ x ∈ Finset.range (p.numSequences + 1), _ + _ + _ = _
  rw [Finset.sum_range_succ]
  have hnil : ((p.setSequence p.numSequences (p.sequences p.numSequences).construct).sequences
      p.numSequences).workQueue = [] := by
    change (Function.update p.sequences p.numSequences _ p.numSequences).workQueue = []
    rw [Function.update_self]
    exact (hun p.numSequences le_rfl).2.1
  rw [hnil, Multiset.coe_nil, Multiset.add_zero]
  rfl

theorem Executes.settled (h : Executes p pc p' pc' spawned) (hun : Unallocated p) :
    p'.settled + pc'.hand + total Pc.hand spawned = p.settled + pc.hand := by
  have hzero : ∀ x : Multiset Func, x + total Pc.hand [] = x := Multiset.add_zero
  have hsame : ∀ s q, q.workQueue = (p.sequences s).workQueue →
      (p.setSequence s q).settled + 0 + total Pc.hand [] = p.settled + 0 :=
    fun s q hq => (hzero _).trans (congrArg (· + 0) (setSequence_settled_same hun hq))
  cases h with
  | addOverflows hsh hover =>
    rename_i s f
    have hset := setSequence_settled hun (s := s)
      (q := { p.sequences s with workQueue := (p.sequences s).workQueue.tail }.push f)
      fun hle => absurd (hun.lt hsh) (Nat.not_lt.mpr hle)
    have hqueue : ((p.sequences s).workQueue : Multiset Func) =
        {(p.sequences s).workQueue.headD f} + ((p.sequences s).workQueue.tail : List Func) := by
      conv_lhs => rw [overflows_cons hover f]
      rfl
    change _ + _ = p.settled + (((p.sequences s).workQueue.tail ++ [f] : List Func) : Multiset Func) at hset
    rw [hqueue, ← Multiset.coe_add, Multiset.coe_singleton] at hset
    rw [← add_assoc, add_comm (((p.sequences s).workQueue.tail : List Func) : Multiset Func), ← add_assoc] at hset
    exact (hzero _).trans (Multiset.add_left_inj.mp hset)
  | addPushes hsh =>
    rename_i s f
    have hset := setSequence_settled hun (s := s) (q := (p.sequences s).push f)
      fun hle => absurd (hun.lt hsh) (Nat.not_lt.mpr hle)
    change _ + _ = p.settled + (((p.sequences s).workQueue ++ [f] : List Func) : Multiset Func) at hset
    rw [← Multiset.coe_add, Multiset.coe_singleton, ← add_assoc, add_right_comm] at hset
    have hset := Multiset.add_left_inj.mp hset
    split_ifs <;> exact (hzero _).trans ((Multiset.add_zero _).trans hset)
  | addCancel => rw [hzero, callCancel_settled]; split_ifs <;> exact Multiset.add_zero _
  | dropCallCancel | drainCallCancel => rw [hzero, callCancel_settled]; exact Multiset.add_zero _
  | cancelFunction => rw [hzero, callCancel_settled, add_assoc]; rfl
  | dropWaveform | updateWaveform | cancelPendingWaveform | nextWaveform | drainWaveform =>
    rw [hzero, waveform_settled hun]
    rfl
  | queueHires ok => cases ok <;> exact hzero _
  | dropFunction hq | nextTakes _ hq => exact (hzero _).trans ((setSequence_settled_pop hun hq).trans (Multiset.add_zero _).symm)
  | drainFunction hpc hq => cases hpc <;> exact (hzero _).trans ((setSequence_settled_pop hun hq).trans (Multiset.add_zero _).symm)
  | drainStops hpc => cases hpc <;> split_ifs <;> exact hsame _ _ rfl
  | drainDone hpc => cases hpc <;> exact hzero _
  | cancelPendingFunctions => exact (hzero _).trans (setSequence_settled hun fun _ => rfl)
  | freeSequence => split_ifs <;> exact hsame _ _ rfl
  | nextStops | newRecycles => exact hsame _ _ rfl
  | newConstructs => exact (hzero _).trans (congrArg (· + (0 : Multiset Func)) (construct_settled hun))
  | callRun => rw [hzero, callRun_settled hun]; exact Multiset.add_zero _
  | release => split_ifs <;> exact hzero _
  | _ => exact hzero _

theorem setSequence_gap (p : QueuedWorkerPool) (s' : ℕ) (q : Sequence) (s : ℕ) :
    (p.setSequence s' q).gap s = p.gap s +
      if s' = s then q.waveform - (p.sequences s').waveform + (p.sequences s').workQueue.length - q.workQueue.length
      else 0 := by
  unfold gap
  change (Function.update p.sequences s' q s).waveform - ((Function.update p.sequences s' q s).workQueue.length : ℤ) = _
  by_cases hs : s' = s
  · subst hs
    rw [Function.update_self, if_pos rfl]
    omega
  · rw [Function.update_of_ne (Ne.symm hs), if_neg hs]
    omega

theorem waveform_gap (hqs : p.queueSize = true) (s' : ℕ) (delta : ℤ) (s : ℕ) :
    (p.waveform s' delta).gap s = p.gap s + if s' = s then delta else 0 := by
  unfold waveform
  rw [if_pos hqs, setSequence_gap]
  by_cases hs : s' = s
  · rw [if_pos hs, if_pos hs]
    simp only []
    omega
  · rw [if_neg hs, if_neg hs]

theorem Executes.gap (h : Executes p pc p' pc' spawned) (hqs : p.queueSize = true) (s : ℕ) :
    p'.gap s + pc'.delta s + total (Pc.delta s) spawned = p.gap s + pc.delta s := by
  have hzero : ∀ x : ℤ, x + total (Pc.delta s) [] = x := Int.add_zero
  cases h with
  | addOverflows hsh hover =>
    rename_i s' f
    have hlen := congrArg List.length (overflows_cons hover f)
    rw [List.length_cons] at hlen
    rw [hzero, setSequence_gap]
    simp only [Pc.delta, Sequence.push, List.length_append, List.length_singleton, hlen]
    split_ifs <;> push_cast <;> omega
  | addPushes =>
    rw [hzero, setSequence_gap]
    simp only [Sequence.push, List.length_append, List.length_singleton]
    split_ifs <;> simp only [Pc.delta] <;> split_ifs <;> push_cast <;> omega
  | addCancel => split_ifs <;> exact hzero _
  | queueHires ok => cases ok <;> exact hzero _
  | queueSheds =>
    rw [hzero]
    simp only [Pc.delta]
    split_ifs <;> simp [gap]
  | dropFunction hq | nextTakes _ hq =>
    rw [hzero, setSequence_gap]
    simp only [Pc.delta, hq, List.length_cons]
    split_ifs <;> push_cast <;> omega
  | drainFunction hpc hq =>
    rw [hzero, setSequence_gap]
    cases hpc <;> simp only [Pc.delta, hq, List.length_cons] <;> split_ifs <;> push_cast <;> omega
  | drainStops hpc =>
    rw [hzero, setSequence_gap]
    cases hpc <;> split_ifs <;> simp [Pc.delta, *]
  | addRefused => simp [Pc.delta, total]
  | drainDone hpc => cases hpc <;> simp [Pc.delta, total]
  | dropWaveform =>
    rw [hzero, waveform_gap hqs]
    simp only [Pc.delta]
    split_ifs <;> omega
  | updateWaveform | nextWaveform | cancelPendingWaveform | drainWaveform =>
    rw [hzero, waveform_gap hqs]
    exact Int.add_zero _
  | cancelPendingFunctions =>
    rw [hzero, setSequence_gap]
    simp only [Pc.delta, List.length_nil]
    split_ifs <;> push_cast <;> omega
  | freeSequence =>
    rw [hzero, setSequence_gap]
    split_ifs <;> simp [Pc.delta]
  | nextStops =>
    rw [hzero, setSequence_gap]
    simp [Pc.delta]
  | newConstructs | newRecycles =>
    refine (hzero _).trans (congrArg (· + (0 : ℤ)) ((setSequence_gap p _ _ s).trans ?_))
    simp [Sequence.construct, Sequence.reset]
  | callRun =>
    refine (hzero _).trans (congrArg (· + (0 : ℤ)) ((setSequence_gap p _ _ s).trans ?_))
    simp
  | release => split_ifs <;> exact hzero _
  | _ => exact hzero _

def Keeps (q q' : Sequence) : Prop :=
  (q'.hasPool = true → q.hasPool = true) ∧
    (q.shutdown = true → q'.shutdown = true ∧ q'.workQueue.Sublist q.workQueue)

theorem Keeps.refl (q : Sequence) : Keeps q q := ⟨id, fun h => ⟨h, List.Sublist.refl _⟩⟩

theorem Keeps.of_still : Still q q' → Keeps q q' := by
  rintro ⟨waveform, rfl⟩
  exact ⟨id, fun h => ⟨h, List.Sublist.refl _⟩⟩

theorem setSequence_keeps {s' : ℕ} (hq : Keeps (p.sequences s') q) (s : ℕ) :
    Keeps (p.sequences s) ((p.setSequence s' q).sequences s) := setSequence_sequences Keeps.refl hq s

theorem Executes.keeps (h : Executes p pc p' pc' spawned) (hmakes : pc.makes = false) (s : ℕ) :
    Keeps (p.sequences s) (p'.sequences s) := by
  have hset : ∀ s' q, q.hasPool = (p.sequences s').hasPool →
      ((p.sequences s').shutdown = true → q.shutdown = true ∧ q.workQueue.Sublist (p.sequences s').workQueue) →
        Keeps (p.sequences s) ((p.setSequence s' q).sequences s) :=
    fun s' q hpool hq => setSequence_keeps ⟨fun h => hpool ▸ h, hq⟩ s
  cases hedits : pc.edits with
  | false => exact Keeps.of_still (h.still hedits s)
  | true =>
    cases h with
    | addRefused | dropDone | drainDone => exact Keeps.refl _
    | addOverflows hsh | addPushes hsh | nextTakes hsh => exact hset _ _ rfl fun h => absurd h hsh
    | dropFunction hq | drainFunction _ hq => exact hset _ _ rfl fun h => ⟨h, hq ▸ List.sublist_cons_self _ _⟩
    | cancelPendingFunctions => exact hset _ _ rfl fun h => ⟨h, List.nil_sublist _⟩
    | freeSequence => exact hset _ _ rfl fun _ => ⟨rfl, List.Sublist.refl _⟩
    | nextStops | drainStops | callRun => exact hset _ _ rfl fun h => ⟨h, List.Sublist.refl _⟩
    | newRefused | newConstructs | newRecycles => cases hmakes
    | _ => cases hedits

theorem Unallocated.of_keeps (hun : Unallocated p) (hn : p'.numSequences = p.numSequences)
    (hkeeps : ∀ s, Keeps (p.sequences s) (p'.sequences s)) : Unallocated p' := by
  intro s hle
  obtain ⟨hsh, hq, hpool⟩ := hun s (hn ▸ hle)
  obtain ⟨hsh', hsub⟩ := (hkeeps s).2 hsh
  rw [hq, List.sublist_nil] at hsub
  refine ⟨hsh', hsub, ?_⟩
  rw [← Bool.not_eq_true]
  intro hpool'
  rw [(hkeeps s).1 hpool'] at hpool
  cases hpool

theorem Executes.unallocated (h : Executes p pc p' pc' spawned) (hun : Unallocated p)
    (hfree : ∀ s ∈ p.freeSequences, s < p.numSequences) : Unallocated p' := by
  cases hmakes : pc.makes with
  | false => exact hun.of_keeps (h.sameSetting hmakes).numSequences (h.keeps hmakes)
  | true =>
    have hset : ∀ {s s' : ℕ} {q : Sequence}, s ≠ s' → p.numSequences ≤ s →
        (Function.update p.sequences s' q s).shutdown = true ∧ (Function.update p.sequences s' q s).workQueue = [] ∧
          (Function.update p.sequences s' q s).hasPool = false := by
      intro s s' q hne hle
      rw [Function.update_of_ne hne]
      exact hun s hle
    cases h with
    | newRefused => exact hun
    | newConstructs =>
      intro s hle
      have hlt : p.numSequences < s := hle
      exact hset (Nat.ne_of_gt hlt) (Nat.le_of_lt hlt)
    | newRecycles _ hlast =>
      intro s hle
      refine hset ?_ hle
      rintro rfl
      exact absurd (hfree s (List.mem_of_getLast? hlast)) (Nat.not_lt.mpr hle)
    | drainFunction hpc | drainStops hpc | drainDone hpc => cases hpc <;> cases hmakes
    | _ => cases hmakes

def Pc.frees : Pc → Option ℕ
  | .freeSequence s | .pushFree s | .release s _ _ => some s
  | _ => none

/-- The sequence whose shut down queue a worker is cancelling. -/
def Pc.drains : Pc → Option ℕ
  | .drain s _ _ _ | .drainCallCancel _ s _ _ _ => some s
  | _ => none

/-- Where a thread that frees or drains a sequence comes from, and what is in the free list. -/
structure Origin (p : QueuedWorkerPool) (pc pc' : Pc) (spawned : List Pc) (freeSequences : List ℕ) : Prop where
  frees : ∀ s, pc'.frees = some s → pc.frees = some s ∨ (p.sequences s).hasPool = true
  drains : ∀ s, pc'.drains = some s → pc.drains = some s ∨ (p.sequences s).shutdown = true
  spawned : ∀ pc'' ∈ spawned, pc''.frees = none ∧ pc''.drains = none
  free : ∀ s ∈ freeSequences, s ∈ p.freeSequences ∨ pc.frees = some s

theorem Drains.shutdown {s w n : ℕ} {hadPending : Bool} (h : Drains p pc s w hadPending n) :
    pc.drains = some s ∨ (p.sequences s).shutdown = true := by
  cases h with
  | drain => exact Or.inl rfl
  | nextFunction _ _ hsh => exact Or.inr hsh

theorem Executes.origin (h : Executes p pc p' pc' spawned) : Origin p pc pc' spawned p'.freeSequences := by
  have hplain : ∀ {pc'' : Pc} {free}, pc''.frees = none → pc''.drains = none → free = p.freeSequences →
      Origin p pc pc'' [] free := by
    rintro pc'' free hf hd rfl
    exact ⟨by simp [hf], by simp [hd], nofun, fun _ => Or.inl⟩
  have hpush : ∀ {s' : ℕ} {pc'' : Pc}, pc.frees = some s' → pc''.frees = none → pc''.drains = none →
      Origin p pc pc'' [] (p.freeSequences ++ [s']) := by
    intro s' pc'' hs hf hd
    refine ⟨by simp [hf], by simp [hd], nofun, fun s hmem => ?_⟩
    exact (List.mem_append.mp hmem).imp id fun hmem => by rw [List.mem_singleton.mp hmem, hs]
  cases h with
  | addPushes | addCancel => split_ifs <;> exact hplain rfl rfl rfl
  | queueHires ok => exact ⟨nofun, nofun, by cases ok <;> simp [Pc.frees, Pc.drains], fun _ => Or.inl⟩
  | dropWaveform | updateWaveform | cancelPendingWaveform | nextWaveform | drainWaveform =>
    apply hplain rfl rfl
    unfold waveform
    split_ifs <;> rfl
  | freeSequence =>
    split_ifs
    · exact ⟨fun _ => Or.inl, nofun, nofun, fun _ => Or.inl⟩
    · exact hplain rfl rfl rfl
  | pushFree => exact hpush rfl rfl rfl
  | release =>
    split_ifs
    · exact hplain rfl rfl rfl
    · exact hpush rfl rfl rfl
  | newRecycles => exact ⟨nofun, nofun, nofun, fun s hs => Or.inl (List.mem_of_mem_dropLast hs)⟩
  | drainFunction hpc => exact ⟨nofun, fun s h => Option.some.inj h ▸ hpc.shutdown, nofun, fun _ => Or.inl⟩
  | drainStops =>
    split_ifs with hpool
    · exact ⟨fun s h => Or.inr (Option.some.inj h ▸ hpool), nofun, nofun, fun _ => Or.inl⟩
    · exact hplain rfl rfl rfl
  | drainCallCancel => exact ⟨nofun, fun _ => Or.inl, nofun, fun _ => Or.inl⟩
  | _ => exact hplain rfl rfl rfl

/-- `WaitForShutDown` takes `pool_` away from the sequence. -/
def cutOff (p : QueuedWorkerPool) (k : ℕ) : QueuedWorkerPool :=
  p.setSequence k { p.sequences k with shutdown := true, hasPool := false }

/-- What `ShutDown` can do in one step. -/
inductive ExecutesMain (p : QueuedWorkerPool) (threads : List Pc) : MainPc → QueuedWorkerPool → MainPc → Prop
  | initiate : ExecutesMain p threads .initiate { p with shutdown := true } (.initiateSequence 0)
  | tells {k} : ExecutesMain p threads (.initiateSequence k)
      (p.setSequence k { p.sequences k with shutdown := true }) (.initiateSequence (k + 1))
  | told {k} (hk : ¬k < p.numSequences) : ExecutesMain p threads (.initiateSequence k) p (.waitSequence 0)
  | cutsOff {k} : ExecutesMain p threads (.waitSequence k) (p.cutOff k) (.waitActive k)
  | cutsAndDrains {k} :
    ExecutesMain p threads (.waitSequence k) ((p.cutOff k).waitDrain k 0).1 ((p.cutOff k).waitDrain k 0).2
  | emptied {k} (hk : ¬k < p.numSequences) : ExecutesMain p threads (.waitSequence k) p .joinActive
  | waitActive {k} : ExecutesMain p threads (.waitActive k) (p.waitDrain k 0).1 (p.waitDrain k 0).2
  | drain {k n} : ExecutesMain p threads (.drain k n) (p.waitDrain k n).1 (p.waitDrain k n).2
  | callCancel {f k n} : ExecutesMain p threads (.callCancel f k n) (p.callCancel f) (.drain k n)
  | updateWaveform {k n} :
    ExecutesMain p threads (.updateWaveform k n) (p.waveform k (-n)) (.waitSequence (k + 1))
  | activeJoined (hw : p.activeWorkers = []) :
    ExecutesMain p threads .joinActive p (.joinAvailable p.availableWorkers)
  | joinsActive {w} : ExecutesMain p threads .joinActive { p with activeWorkers := p.activeWorkers.erase w }
      (.shutDownWorker w none)
  | completes : ExecutesMain p threads (.joinAvailable []) { p with availableWorkers := [] } .complete
  | joinsAvailable {w ws} : ExecutesMain p threads (.joinAvailable (w :: ws)) p (.shutDownWorker w (some ws))
  | deletes {w rest} (hv : ((p.workers w).exit || !(p.workers w).started) = true) :
    ExecutesMain p threads (.shutDownWorker w rest) (p.setWorker w { p.workers w with deleted := true })
      (.afterWorker rest)
  | exits {w rest} :
    ExecutesMain p threads (.shutDownWorker w rest) (p.setWorker w { p.workers w with exit := true }) (.joinWorker w rest)
  | joins {w rest} (hnone : ∀ pc ∈ threads, pc.worker ≠ some w) : ExecutesMain p threads (.joinWorker w rest)
      (p.setWorker w { p.workers w with started := false, deleted := true, tasks := [] }) (.afterWorker rest)

theorem execMain_cases {threads : List Pc} {choice : ℕ} {m m' : MainPc}
    (h : p.execMain threads choice m = some (p', m')) : ExecutesMain p threads m p' m' := by
  unfold execMain at h
  cases m with
  | notStarted | complete => cases h
  | initiate | callCancel | updateWaveform => cases h; constructor
  | initiateSequence k =>
    dsimp only at h
    split_ifs at h with hk <;> cases h
    · exact .tells
    · exact .told hk
  | waitSequence k =>
    dsimp only at h
    split_ifs at h with hk hactive
    · cases h
      exact .cutsOff
    · obtain ⟨rfl, rfl⟩ := Prod.mk.inj (Option.some.inj h)
      exact .cutsAndDrains
    · cases h
      exact .emptied hk
  | waitActive k =>
    dsimp only at h
    split_ifs at h
    obtain ⟨rfl, rfl⟩ := Prod.mk.inj (Option.some.inj h)
    exact .waitActive
  | drain k n =>
    obtain ⟨rfl, rfl⟩ := Prod.mk.inj (Option.some.inj h)
    exact .drain
  | joinActive =>
    dsimp only at h
    split at h
    · cases h
      exact .activeJoined ‹_›
    · split at h <;> cases h
      exact .joinsActive
  | joinAvailable ws => cases ws <;> cases h <;> constructor
  | shutDownWorker w rest =>
    dsimp only at h
    split_ifs at h with hv <;> cases h
    · exact .deletes hv
    · exact .exits
  | joinWorker w rest =>
    dsimp only at h
    split_ifs at h with hany
    cases h
    exact .joins fun pc hpc hw => hany (List.any_eq_true.mpr ⟨pc, hpc, decide_eq_true hw⟩)

theorem waitDrain_settled (hun : Unallocated p) (k n : ℕ) :
    (p.waitDrain k n).1.settled + (p.waitDrain k n).2.hand = p.settled := by
  cases hq : (p.sequences k).workQueue with
  | nil => simp only [waitDrain, hq]; exact Multiset.add_zero _
  | cons f rest =>
    simp only [waitDrain, hq]
    exact setSequence_settled_pop hun (q := { p.sequences k with workQueue := rest }) hq

theorem waitDrain_gap (p : QueuedWorkerPool) (k n s : ℕ) :
    (p.waitDrain k n).1.gap s + (p.waitDrain k n).2.delta s = p.gap s + if k = s then -(n : ℤ) else 0 := by
  cases hq : (p.sequences k).workQueue with
  | nil => simp only [waitDrain, hq]; rfl
  | cons f rest =>
    simp only [waitDrain, hq, setSequence_gap, MainPc.delta, List.length_cons]
    split_ifs <;> push_cast <;> omega

theorem waitDrain_keeps (p : QueuedWorkerPool) (k n s : ℕ) :
    Keeps (p.sequences s) ((p.waitDrain k n).1.sequences s) := by
  cases hq : (p.sequences k).workQueue with
  | nil => simp only [waitDrain, hq]; exact Keeps.refl _
  | cons f rest =>
    simp only [waitDrain, hq]
    apply setSequence_keeps
    exact ⟨id, fun h => ⟨h, hq ▸ List.sublist_cons_self f rest⟩⟩

theorem Keeps.trans {q' q'' : Sequence} (h : Keeps q q') (h' : Keeps q' q'') : Keeps q q'' := by
  refine ⟨fun hp => h.1 (h'.1 hp), fun hsh => ?_⟩
  obtain ⟨hsh', hsub⟩ := h.2 hsh
  obtain ⟨hsh'', hsub'⟩ := h'.2 hsh'
  exact ⟨hsh'', hsub'.trans hsub⟩

structure MainEffect (p p' : QueuedWorkerPool) (m m' : MainPc) : Prop where
  settled : p'.settled + m'.hand = p.settled + m.hand
  gap : p.queueSize = true → ∀ s, p'.gap s + m'.delta s = p.gap s + m.delta s
  keeps : ∀ s, Keeps (p.sequences s) (p'.sequences s)
  queueSize : p'.queueSize = p.queueSize
  passed : p'.passed = p.passed
  numSequences : p'.numSequences = p.numSequences
  freeSequences : p'.freeSequences = p.freeSequences

theorem waitDrain_effect (hun : Unallocated p) {k n : ℕ} {m : MainPc} (hhand : m.hand = 0)
    (hdelta : ∀ s, m.delta s = if k = s then -(n : ℤ) else 0) :
    MainEffect p (p.waitDrain k n).1 m (p.waitDrain k n).2 where
  settled := by rw [waitDrain_settled hun, hhand, Multiset.add_zero]
  gap := fun _ s => by rw [waitDrain_gap, hdelta]
  keeps := waitDrain_keeps p k n
  queueSize := by unfold waitDrain; cases (p.sequences k).workQueue <;> rfl
  passed := by unfold waitDrain; cases (p.sequences k).workQueue <;> rfl
  numSequences := by unfold waitDrain; cases (p.sequences k).workQueue <;> rfl
  freeSequences := by unfold waitDrain; cases (p.sequences k).workQueue <;> rfl

theorem MainEffect.trans {p'' : QueuedWorkerPool} {m m' m'' : MainPc} (h : MainEffect p p' m m')
    (h' : MainEffect p' p'' m' m'') : MainEffect p p'' m m'' where
  settled := h'.settled.trans h.settled
  gap := fun hq s => (h'.gap (h.queueSize.trans hq) s).trans (h.gap hq s)
  keeps := fun s => (h.keeps s).trans (h'.keeps s)
  queueSize := h'.queueSize.trans h.queueSize
  passed := h'.passed.trans h.passed
  numSequences := h'.numSequences.trans h.numSequences
  freeSequences := h'.freeSequences.trans h.freeSequences

theorem ExecutesMain.effect {threads : List Pc} {m m' : MainPc} (h : ExecutesMain p threads m p' m')
    (hun : Unallocated p) : MainEffect p p' m m' := by
  have hset : ∀ k q, q.workQueue = (p.sequences k).workQueue → q.waveform = (p.sequences k).waveform →
      Keeps (p.sequences k) q → ∀ {m m' : MainPc}, m.hand = m'.hand → (∀ s, m.delta s = m'.delta s) →
      MainEffect p (p.setSequence k q) m m' := by
    intro k q hq hw hk m m' hhand hdelta
    refine ⟨?_, fun _ s => ?_, setSequence_keeps hk, rfl, rfl, rfl, rfl⟩
    · rw [setSequence_settled_same hun hq, hhand]
    · rw [setSequence_gap, hq, hw, hdelta]
      split_ifs <;> omega
  have hcut : ∀ k, MainEffect p (p.cutOff k) (.waitSequence k) (.waitActive k) := by
    intro k
    refine hset k { p.sequences k with shutdown := true, hasPool := false } rfl rfl ?_ rfl fun _ => rfl
    exact ⟨fun h => (by cases h), fun _ => ⟨rfl, List.Sublist.refl _⟩⟩
  have hactive : ∀ {p} {k : ℕ}, Unallocated p → MainEffect p (p.waitDrain k 0).1 (.waitActive k) (p.waitDrain k 0).2 :=
    fun hun => waitDrain_effect hun rfl fun s => by split_ifs <;> rfl
  cases h with
  | @tells k =>
    refine hset k { p.sequences k with shutdown := true } rfl rfl ?_ rfl fun _ => rfl
    exact ⟨id, fun _ => ⟨rfl, List.Sublist.refl _⟩⟩
  | cutsOff => exact hcut _
  | cutsAndDrains => exact (hcut _).trans (hactive (hun.of_keeps (hcut _).numSequences (hcut _).keeps))
  | waitActive => exact hactive hun
  | drain => exact waitDrain_effect hun rfl fun _ => rfl
  | callCancel =>
    refine ⟨?_, fun _ _ => rfl, fun _ => Keeps.refl _, rfl, rfl, rfl, rfl⟩
    rw [callCancel_settled]
    exact Multiset.add_zero _
  | updateWaveform =>
    obtain ⟨hqs, hsh, hp, hn⟩ := (waveform_same p _ _).2
    refine ⟨?_, fun hq s => ?_, fun s => Keeps.of_still (waveform_still p _ _ s), hqs, hp, hn, ?_⟩
    · rw [waveform_settled hun]
      rfl
    · rw [waveform_gap hq]
      exact Int.add_zero _
    · unfold waveform
      split_ifs <;> rfl
  | deletes | joins =>
    rename_i rest _
    cases rest <;> exact ⟨rfl, fun _ _ => rfl, fun _ => Keeps.refl _, rfl, rfl, rfl, rfl⟩
  | _ => exact ⟨rfl, fun _ _ => rfl, fun _ => Keeps.refl _, rfl, rfl, rfl, rfl⟩

def Pc.starts : Pc → Bool
  | .add _ _ | .cancelPendingFunctions _ | .freeSequence _ | .newSequence => true
  | _ => false

theorem step_cases {t t' : State} {a : Action} (h : step t a = some t') :
    (∃ (pc : Pc) (passed : List Func), pc.starts = true ∧ (∀ s, pc.frees = some s → s < t.numSequences) ∧
      (passed : Multiset Func) = t.passed + pc.hand ∧ t' = { t with threads := t.threads ++ [pc], passed := passed }) ∨
    (∃ s n, t' = { t with toQueuedWorkerPool := t.setSequence s { t.sequences s with maxQueueSize := n } }) ∨
    (t.main = .notStarted ∧ t' = { t with main := .initiate }) ∨
    (∃ i ok pc p' pc' spawned, a = .thread i ok ∧ t.threads[i]? = some pc ∧
      Executes t.toQueuedWorkerPool pc p' pc' spawned ∧ t' = t.after i p' pc' spawned) ∨
    (∃ p' m', ExecutesMain t.toQueuedWorkerPool t.threads t.main p' m' ∧
      t' = { t with toQueuedWorkerPool := p', main := m' }) := by
  unfold step at h
  by_cases hcrash : t.crashed = true
  · rw [if_pos hcrash] at h
    cases h
  rw [if_neg hcrash] at h
  cases a with
  | add s f =>
    dsimp only at h
    split_ifs at h
    refine Or.inl ⟨.add s f, f :: t.passed, rfl, nofun, ?_, (Option.some.inj h).symm⟩
    rw [← Multiset.cons_coe, ← Multiset.singleton_add, add_comm]
    rfl
  | cancelPendingFunctions s =>
    dsimp only at h
    split_ifs at h
    exact Or.inl ⟨.cancelPendingFunctions s, t.passed, rfl, nofun, (Multiset.add_zero _).symm, (Option.some.inj h).symm⟩
  | freeSequence s =>
    dsimp only at h
    split_ifs at h with hlt
    refine Or.inl ⟨.freeSequence s, t.passed, rfl, fun s' h => ?_, (Multiset.add_zero _).symm, (Option.some.inj h).symm⟩
    cases h
    exact hlt
  | newSequence =>
    exact Or.inl ⟨.newSequence, t.passed, rfl, nofun, (Multiset.add_zero _).symm, (Option.some.inj h).symm⟩
  | setMaxQueueSize s n =>
    dsimp only at h
    split_ifs at h
    exact Or.inr (Or.inl ⟨s, n, (Option.some.inj h).symm⟩)
  | shutDown =>
    dsimp only at h
    split_ifs at h with hmain
    exact Or.inr (Or.inr (Or.inl ⟨hmain, (Option.some.inj h).symm⟩))
  | thread i ok =>
    cases hi : t.threads[i]? with
    | none => simp only [hi] at h; cases h
    | some pc =>
      simp only [hi] at h
      obtain ⟨⟨p', pc', spawned⟩, hexec, rfl⟩ := Option.map_eq_some_iff.mp h
      exact Or.inr (Or.inr (Or.inr (Or.inl ⟨i, ok, pc, p', pc', spawned, rfl, hi, exec_cases hexec, rfl⟩)))
  | main choice =>
    obtain ⟨⟨p', m'⟩, hexec, rfl⟩ := Option.map_eq_some_iff.mp h
    exact Or.inr (Or.inr (Or.inr (Or.inr ⟨p', m', execMain_cases hexec, rfl⟩)))

structure Conserved (t : State) : Prop where
  unallocated : Unallocated t.toQueuedWorkerPool
  free : ∀ s ∈ t.freeSequences, s < t.numSequences
  frees : ∀ pc ∈ t.threads, ∀ s, pc.frees = some s → s < t.numSequences
  functions : (t.passed : Multiset Func) = t.settled + total Pc.hand t.threads + t.main.hand
  deltas : t.queueSize = true → ∀ s, t.gap s + total (Pc.delta s) t.threads + t.main.delta s = 0

theorem new_conserved (maxWorkers : ℕ) (loadSheddingThreshold : Option ℕ) (queueSize : Bool) :
    Conserved (State.new maxWorkers loadSheddingThreshold queueSize) where
  unallocated := fun _ _ => ⟨rfl, rfl, rfl⟩
  free := by simp [State.new, QueuedWorkerPool.new]
  frees := by simp [State.new]
  functions := rfl
  deltas := fun _ _ => rfl

theorem after_conserved {t : State} {i : ℕ}
    (ht : Conserved t) (hi : t.threads[i]? = some pc) (h : Executes t.toQueuedWorkerPool pc p' pc' spawned) :
    Conserved (t.after i p' pc' spawned) := by
  have hmem : pc ∈ t.threads := List.mem_of_getElem? hi
  have hlt : ∀ s, (t.sequences s).hasPool = true → s < t.numSequences := by
    intro s hpool
    by_contra hlt
    rw [(ht.unallocated s (Nat.not_lt.mp hlt)).2.2] at hpool
    cases hpool
  obtain ⟨hfrees', -, hspawned, hfree'⟩ := h.origin
  obtain ⟨hqs, hpassed, hnum⟩ := h.setting
  refine ⟨h.unallocated ht.unallocated ht.free, ?_, ?_, ?_, ?_⟩
  · intro s hs
    obtain hs | hs := hfree' s hs
    · exact (ht.free s hs).trans_le hnum
    · exact (ht.frees pc hmem s hs).trans_le hnum
  · intro pc'' hpc'' s hs
    obtain hpc'' | hpc'' := List.mem_append.mp hpc''
    · obtain hpc'' | rfl := List.mem_or_eq_of_mem_set hpc''
      · exact (ht.frees pc'' hpc'' s hs).trans_le hnum
      · obtain hs | hs := hfrees' s hs
        · exact (ht.frees pc hmem s hs).trans_le hnum
        · exact (hlt s hs).trans_le hnum
    · rw [(hspawned pc'' hpc'').1] at hs
      cases hs
  · obtain ⟨r, hr, hafter⟩ := after_total hi p' pc' spawned Pc.hand
    have hexec := h.settled ht.unallocated
    have hf := ht.functions
    rw [hr] at hf
    change (p'.passed : Multiset Func) = p'.settled + total Pc.hand (t.after i p' pc' spawned).threads + t.main.hand
    rw [hpassed, hafter, hf]
    calc
      t.settled + (pc.hand + r) + t.main.hand = (t.settled + pc.hand) + r + t.main.hand := by abel
      _ = (p'.settled + pc'.hand + total Pc.hand spawned) + r + t.main.hand := by rw [hexec]
      _ = _ := by abel
  · intro hq s
    obtain ⟨r, hr, hafter⟩ := after_total hi p' pc' spawned (Pc.delta s)
    have hq' : t.queueSize = true := hqs ▸ hq
    have hexec := h.gap hq' s
    have hd := ht.deltas hq' s
    rw [hr] at hd
    change p'.gap s + total (Pc.delta s) (t.after i p' pc' spawned).threads + t.main.delta s = 0
    rw [hafter]
    omega

theorem step_conserved {t t' : State} {a : Action} (ht : Conserved t) (h : step t a = some t') : Conserved t' := by
  obtain ⟨pc, passed, hpc, hfrees, hpassed, rfl⟩ | ⟨s, n, rfl⟩ | ⟨hmain, rfl⟩ |
    ⟨i, ok, pc, p', pc', spawned, -, hi, hexec, rfl⟩ | ⟨p', m', hexec, rfl⟩ := step_cases h
  · refine ⟨ht.unallocated, ht.free, fun pc' hpc' s hs => ?_, ?_, fun hq s => ?_⟩
    · obtain hpc' | hpc' := List.mem_append.mp hpc'
      · exact ht.frees pc' hpc' s hs
      · rw [List.mem_singleton.mp hpc'] at hs
        exact hfrees s hs
    · have hone : total Pc.hand [pc] = pc.hand := by simp [total]
      change (passed : Multiset Func) = t.settled + total Pc.hand (t.threads ++ [pc]) + t.main.hand
      rw [hpassed, ht.functions, total_append, hone]
      abel
    · have hone : total (Pc.delta s) [pc] = 0 := by
        cases pc <;> first | rfl | cases hpc
      change t.gap s + total (Pc.delta s) (t.threads ++ [pc]) + t.main.delta s = 0
      rw [total_append, hone, Int.add_zero]
      exact ht.deltas hq s
  · have hkeeps : ∀ s', Keeps (t.sequences s')
        ((t.setSequence s { t.sequences s with maxQueueSize := n }).sequences s') := by
      apply setSequence_keeps
      exact ⟨id, fun h => ⟨h, List.Sublist.refl _⟩⟩
    refine ⟨ht.unallocated.of_keeps rfl hkeeps, ht.free, ht.frees, ?_, fun hq s' => ?_⟩
    · have hsame := setSequence_settled_same ht.unallocated (s := s)
        (q := { t.sequences s with maxQueueSize := n }) rfl
      exact ht.functions.trans (congrArg (· + total Pc.hand t.threads + t.main.hand) hsame.symm)
    · have hgap := setSequence_gap t.toQueuedWorkerPool s { t.sequences s with maxQueueSize := n } s'
      have hd := ht.deltas hq s'
      have hzero : (if s = s' then (t.sequences s).waveform - (t.sequences s).waveform +
          ((t.sequences s).workQueue.length : ℤ) - (t.sequences s).workQueue.length else 0) = 0 := by
        split_ifs <;> omega
      simp only [hzero, Int.add_zero] at hgap
      exact (congrArg (· + total (Pc.delta s') t.threads + t.main.delta s') hgap).trans hd
  · refine ⟨ht.unallocated, ht.free, ht.frees, ?_, fun hq s => ?_⟩
    · have hf := ht.functions
      rw [hmain] at hf
      exact hf
    · have hd := ht.deltas hq s
      rw [hmain] at hd
      exact hd
  · exact after_conserved ht hi hexec
  · have he := hexec.effect ht.unallocated
    refine ⟨ht.unallocated.of_keeps he.numSequences he.keeps, ?_, ?_, ?_, fun hq s => ?_⟩
    · intro s hs
      exact (ht.free s (he.freeSequences ▸ hs)).trans_le he.numSequences.ge
    · intro pc hpc s hs
      exact (ht.frees pc hpc s hs).trans_le he.numSequences.ge
    · have hf := ht.functions
      have hs := he.settled
      change (p'.passed : Multiset Func) = p'.settled + total Pc.hand t.threads + m'.hand
      rw [he.passed, hf]
      calc
        _ = (t.settled + t.main.hand) + total Pc.hand t.threads := by abel
        _ = (p'.settled + m'.hand) + total Pc.hand t.threads := by rw [hs]
        _ = _ := by abel
    · have hq' : t.queueSize = true := he.queueSize ▸ hq
      have hd := ht.deltas hq' s
      have hg := he.gap hq' s
      change p'.gap s + total (Pc.delta s) t.threads + m'.delta s = 0
      omega

end PageSpeed.QueuedWorkerPool
