import PageSpeed.Thread.PoolShutDown
import Mathlib.Algebra.Order.BigOperators.Group.Finset

/-!
How many dispatches of a sequence a run of the pool can have at once, and the
order in which the functions of a sequence start.
-/

namespace PageSpeed.QueuedWorkerPool

open Bag

def Pc.dispatch (s : ℕ) : Pc → ℕ
  | .runInWorkThread _ s' _ | .nextFunction s' _ | .nextWaveform _ s' _ | .callRun _ s' _ | .running _ s' _
  | .drain s' _ _ _ | .drainCallCancel _ s' _ _ _ => if s' = s then 1 else 0
  | _ => 0

/-- A dispatch of the sequence, or a call of `Add` that is going to make one. -/
def Pc.announces (s : ℕ) : Pc → ℕ
  | .addCancel _ s' true _ | .queueSequence s' _ | .runInWorkThread _ s' _ | .nextFunction s' _ | .nextWaveform _ s' _
  | .callRun _ s' _ | .running _ s' _ | .drain s' _ _ _ | .drainCallCancel _ s' _ _ _ => if s' = s then 1 else 0
  | _ => 0

def Pc.handed (s : ℕ) : Pc → Multiset Func
  | .nextWaveform f s' _ | .callRun f s' _ => if s' = s then {f} else 0
  | _ => 0

def Pc.runs (s : ℕ) : Pc → Bool
  | .running _ s' _ => s' == s
  | _ => false

def queuedDispatches (p : QueuedWorkerPool) (s : ℕ) : ℕ :=
  p.queuedSequences.count s + ∑ w ∈ Finset.range p.numWorkers, (p.workers w).tasks.count s

/-- How often the sequence is in `queued_sequences_` or handed to a worker. -/
def State.dispatches (t : State) (s : ℕ) : ℕ := t.queuedDispatches s + total (Pc.dispatch s) t.threads

def State.announced (t : State) (s : ℕ) : ℕ := t.queuedDispatches s + total (Pc.announces s) t.threads

/-- A dispatch of the sequence is on its way, and no worker has taken a function of it yet. -/
def State.pending (t : State) (s : ℕ) : Bool :=
  decide (0 < t.announced s) && !(t.sequences s).active && !(t.sequences s).shutdown

/-- The critical section that the thread enters next does not empty the queue of a sequence, nor hand the
sequence out again, while a dispatch of it is pending. -/
def State.spares (t : State) : Pc → Bool
  | .cancelPendingFunctions s => !t.pending s
  | .add s _ => !((t.sequences s).overflows && (t.sequences s).workQueue.tail.isEmpty && t.pending s)
  | .dropCancel d _ _ _ => !(decide ((t.sequences d).workQueue.length = 1) && t.pending d)
  | .newSequence => t.shutdown || t.freeSequences.getLast?.all fun s => decide (t.announced s = 0)
  | _ => true

def Spares (t : State) (a : Action) : Prop :=
  (match a with
    | .thread i _ => t.threads[i]?.all t.spares
    | _ => true) = true

instance (t : State) (a : Action) : Decidable (Spares t a) := inferInstanceAs (Decidable (_ = true))

variable {p p' : QueuedWorkerPool} {pc pc' : Pc} {spawned : List Pc} {s : ℕ}

theorem dispatch_le_announces (s : ℕ) (pc : Pc) : pc.dispatch s ≤ pc.announces s := by
  cases pc <;> first | exact le_rfl | exact Nat.zero_le _

theorem dispatches_le_announced (t : State) (s : ℕ) : t.dispatches s ≤ t.announced s :=
  Nat.add_le_add_left (List.sum_le_sum fun pc _ => dispatch_le_announces s pc) _

theorem waveform_dispatches (p : QueuedWorkerPool) (s' : ℕ) (delta : ℤ) (s : ℕ) :
    (p.waveform s' delta).queuedDispatches s = p.queuedDispatches s := by
  unfold waveform
  split_ifs <;> rfl

theorem setWorker_dispatches {w : ℕ} (hw : w < p.numWorkers) (v : Worker) (s : ℕ) :
    (p.setWorker w v).queuedDispatches s + (p.workers w).tasks.count s = p.queuedDispatches s + v.tasks.count s := by
  have h := sum_update hw (fun v : Worker => v.tasks.count s) p.workers v
  unfold queuedDispatches
  change p.queuedSequences.count s +
    ∑ x ∈ Finset.range p.numWorkers, (Function.update p.workers w v x).tasks.count s + _ = _
  omega

/-- No thread has been made for the workers that are still to come. -/
def Fresh (p : QueuedWorkerPool) : Prop :=
  ∀ w, p.numWorkers ≤ w → (p.workers w).started = false ∧ (p.workers w).tasks = []

theorem newWorker_dispatches (p : QueuedWorkerPool) (ok : Bool) (active : List ℕ) (s : ℕ) :
    queuedDispatches { p with
      numWorkers := p.numWorkers + 1
      workers := Function.update p.workers p.numWorkers ⟨ok, false, false, []⟩
      activeWorkers := active } s = p.queuedDispatches s := by
  have hsum : ∑ w ∈ Finset.range p.numWorkers,
      (Function.update p.workers p.numWorkers ⟨ok, false, false, []⟩ w).tasks.count s =
        ∑ w ∈ Finset.range p.numWorkers, (p.workers w).tasks.count s := by
    apply Finset.sum_congr rfl
    intro w hw
    rw [Function.update_of_ne (Nat.ne_of_lt (Finset.mem_range.mp hw))]
  unfold queuedDispatches
  simp only [Finset.sum_range_succ, hsum, Function.update_self, List.count_nil, Nat.add_zero]

theorem Executes.announces (h : Executes p pc p' pc' spawned) (hfresh : Fresh p) (hadd : ∀ s f, pc ≠ .add s f)
    (s : ℕ) :
    p'.queuedDispatches s + pc'.announces s + total (Pc.announces s) spawned ≤
      p.queuedDispatches s + pc.announces s := by
  cases h with
  | addRefused | addOverflows | addPushes => exact absurd rfl (hadd _ _)
  | @addCancel f s' queue => cases queue <;> exact le_rfl
  | queueHires ok =>
    rw [newWorker_dispatches]
    cases ok <;> exact le_rfl
  | queueSheds =>
    rename_i s' _ _
    have htail := (List.tail_sublist (p.queuedSequences ++ [s'])).count_le s
    simp only [List.count_append, List.count_singleton, beq_iff_eq] at htail
    simp only [queuedDispatches, Pc.announces, total, List.map_nil, List.sum_nil]
    omega
  | queueWaits =>
    simp only [queuedDispatches, Pc.announces, total, List.map_nil, List.sum_nil, List.count_append, List.count_singleton,
      beq_iff_eq]
    omega
  | @runQueues w s' _ hst =>
    have hw : w < p.numWorkers := by
      by_contra hw
      rw [(hfresh w (Nat.not_lt.mp hw)).1] at hst
      cases hst
    have hset := setWorker_dispatches hw { p.workers w with tasks := (p.workers w).tasks ++ [s'] } s
    simp only [List.count_append, List.count_singleton, beq_iff_eq] at hset
    simp only [Pc.announces, total, List.map_nil, List.sum_nil]
    omega
  | @idleTakes w s' rest hq =>
    have hw : w < p.numWorkers := by
      by_contra hw
      rw [(hfresh w (Nat.not_lt.mp hw)).2] at hq
      cases hq
    have hset := setWorker_dispatches hw { p.workers w with tasks := rest } s
    simp only [hq, List.count_cons, beq_iff_eq] at hset
    simp only [Pc.announces, total, List.map_nil, List.sum_nil]
    omega
  | dropWaveform | updateWaveform | cancelPendingWaveform | nextWaveform | drainWaveform =>
    rw [waveform_dispatches]
    exact le_rfl
  | freeSequence | release => split_ifs <;> exact le_rfl
  | runDrops | nextStops => exact Nat.le_add_right _ _
  | drainFunction hd => cases hd <;> exact le_rfl
  | drainStops hd => cases hd <;> split_ifs <;> exact Nat.le_add_right _ _
  | drainDone hd => cases hd <;> exact Nat.le_add_right _ _
  | assignTakes _ hq =>
    simp only [queuedDispatches, hq, Pc.announces, total, List.map_nil, List.sum_nil, List.count_cons, beq_iff_eq]
    omega
  | _ => exact le_rfl

theorem after_announced {t : State} {i : ℕ} (hi : t.threads[i]? = some pc) (p' : QueuedWorkerPool) (pc' : Pc)
    (spawned : List Pc) (s : ℕ) :
    (t.after i p' pc' spawned).announced s + (t.queuedDispatches s + pc.announces s) =
      t.announced s + (p'.queuedDispatches s + pc'.announces s + total (Pc.announces s) spawned) := by
  obtain ⟨r, hr, hafter⟩ := after_total hi p' pc' spawned (Pc.announces s)
  unfold State.announced
  rw [hr, hafter]
  change p'.queuedDispatches s + _ + _ = _
  omega

theorem ExecutesMain.dispatches {threads : List Pc} {m m' : MainPc} (h : ExecutesMain p threads m p' m') (s : ℕ) :
    p'.queuedDispatches s ≤ p.queuedDispatches s := by
  have hsame : ∀ p'', SameWorkers p p'' ∧ p''.queuedSequences = p.queuedSequences →
      p''.queuedDispatches s ≤ p.queuedDispatches s := by
    rintro p'' ⟨⟨hw, hn, -, -⟩, hq⟩
    unfold queuedDispatches
    rw [hw, hn, hq]
  have hworker : ∀ w v, v.tasks.Sublist (p.workers w).tasks →
      (p.setWorker w v).queuedDispatches s ≤ p.queuedDispatches s := by
    intro w v htasks
    refine Nat.add_le_add_left (Finset.sum_le_sum fun x _ => ?_) _
    change (Function.update p.workers w v x).tasks.count s ≤ _
    by_cases hx : x = w
    · rw [hx, Function.update_self]
      exact htasks.count_le s
    · rw [Function.update_of_ne hx]
  cases h with
  | cutsAndDrains => exact hsame _ (waitDrain_sameWorkers (p.cutOff _) _ _)
  | waitActive | drain => exact hsame _ (waitDrain_sameWorkers p _ _)
  | updateWaveform => rw [waveform_dispatches]
  | deletes | exits => exact hworker _ _ (List.Sublist.refl _)
  | joins => exact hworker _ _ (List.nil_sublist _)
  | _ => exact le_rfl

/-- The next `Add` makes a dispatch of the sequence. -/
def Sequence.Idle (q : Sequence) : Prop := q.active = false ∧ q.shutdown = false ∧ q.workQueue = []

structure Guarded (t : State) : Prop where
  one : ∀ s, t.announced s ≤ 1
  waiting : ∀ s, (t.sequences s).Idle → t.announced s = 0
  drains : ∀ pc ∈ t.threads, ∀ s, pc.drains = some s → (t.sequences s).shutdown = true
  allocated : ∀ s, t.numSequences ≤ s → t.announced s = 0

theorem new_guarded (maxWorkers : ℕ) (loadSheddingThreshold : Option ℕ) (queueSize : Bool) :
    Guarded (State.new maxWorkers loadSheddingThreshold queueSize) where
  one := fun _ => Nat.zero_le _
  waiting := fun _ _ => rfl
  drains := nofun
  allocated := fun _ _ => rfl

theorem Guarded.of_le {t t' : State} (ht : Guarded t) (hnum : t.numSequences ≤ t'.numSequences)
    (hann : ∀ s, t'.announced s ≤ t.announced s)
    (hidle : ∀ s, (t'.sequences s).Idle → (t.sequences s).Idle ∨ t'.announced s = 0)
    (hdrains : ∀ pc ∈ t'.threads, ∀ s, pc.drains = some s → (t'.sequences s).shutdown = true) : Guarded t' where
  one := fun s => (hann s).trans (ht.one s)
  waiting := by
    intro s h
    obtain h | h := hidle s h
    · exact Nat.le_zero.mp (ht.waiting s h ▸ hann s)
    · exact h
  drains := hdrains
  allocated := fun s hle => Nat.le_zero.mp (ht.allocated s (hnum.trans hle) ▸ hann s)

theorem setSequence_idle {s' : ℕ} {q : Sequence} {A : ℕ → Prop} (hq : q.Idle → (p.sequences s').Idle ∨ A s') (s : ℕ)
    (h : ((p.setSequence s' q).sequences s).Idle) : (p.sequences s).Idle ∨ A s := by
  change (Function.update p.sequences s' q s).Idle at h
  by_cases hs : s = s'
  · subst hs
    rw [Function.update_self] at h
    exact hq h
  · rw [Function.update_of_ne hs] at h
    exact Or.inl h

section Thread

variable {t : State} {i : ℕ}

theorem State.announced_of_spared (h : (!t.pending s) = true) (hactive : (t.sequences s).active = false)
    (hshutdown : (t.sequences s).shutdown = false) : t.announced s = 0 := by
  simpa [State.pending, hactive, hshutdown] using h

/-- A sequence is only handed out again when no dispatch of it is left. -/
theorem Executes.sequences_of_announced (h : Executes t.toQueuedWorkerPool pc p' pc' spawned) (hmakes : pc.makes = true)
    (ht : Guarded t) (hspares : t.spares pc = true) (hs : t.announced s ≠ 0) : p'.sequences s = t.sequences s := by
  cases h with
  | newRefused => rfl
  | newConstructs =>
    apply Function.update_of_ne
    rintro rfl
    exact hs (ht.allocated _ le_rfl)
  | newRecycles hopen hlast =>
    apply Function.update_of_ne
    rintro rfl
    apply hs
    simpa [State.spares, hopen, hlast] using hspares
  | drainFunction hd | drainStops hd | drainDone hd => cases hd <;> cases hmakes
  | _ => cases hmakes

theorem Executes.idle (h : Executes t.toQueuedWorkerPool pc p' pc' spawned) (ht : Guarded t)
    (hi : t.threads[i]? = some pc) (hspares : t.spares pc = true) (hadd : ∀ s f, pc ≠ .add s f)
    (hann : ∀ s, (t.after i p' pc' spawned).announced s ≤ t.announced s) (hidle : (p'.sequences s).Idle) :
    (t.sequences s).Idle ∨ (t.after i p' pc' spawned).announced s = 0 := by
  have hzero : ∀ s, t.announced s = 0 → (t.after i p' pc' spawned).announced s = 0 :=
    fun s h => Nat.le_zero.mp (h ▸ hann s)
  have hset : ∀ s' q, p'.sequences = (t.setSequence s' q).sequences →
      (q.Idle → (t.sequences s').Idle ∨ (t.after i p' pc' spawned).announced s' = 0) →
      (t.sequences s).Idle ∨ (t.after i p' pc' spawned).announced s = 0 := by
    intro s' q hp hq
    rw [hp] at hidle
    exact setSequence_idle (A := fun s => (t.after i p' pc' spawned).announced s = 0) hq s hidle
  have hshut : ∀ {s' w n hadPending}, Drains t.toQueuedWorkerPool pc s' w hadPending n →
      (t.sequences s').shutdown = true :=
    fun hd => hd.shutdown.elim (ht.drains pc (List.mem_of_getElem? hi) _) id
  cases hedits : pc.edits with
  | false =>
    obtain ⟨waveform, hstill⟩ := h.still hedits s
    rw [hstill] at hidle
    exact Or.inl hidle
  | true =>
    by_cases hmakes : pc.makes = true
    · by_cases hs : t.announced s = 0
      · exact Or.inr (hzero s hs)
      · rw [h.sequences_of_announced hmakes ht hspares hs] at hidle
        exact Or.inl hidle
    cases h with
    | addRefused | addOverflows | addPushes => exact absurd rfl (hadd _ _)
    | callRun => exact hset _ _ rfl fun hq => Or.inl hq
    | freeSequence => exact hset _ _ rfl fun hq => by cases hq.2.1
    | cancelPendingFunctions =>
      exact hset _ _ rfl fun hq => Or.inr (hzero _ (State.announced_of_spared hspares hq.1 hq.2.1))
    | dropDone | drainDone => exact Or.inl hidle
    | dropFunction hqueue =>
      refine hset _ _ rfl fun hq => ?_
      obtain ⟨hactive, hshutdown, rfl⟩ := hq
      refine Or.inr (hzero _ (State.announced_of_spared ?_ hactive hshutdown))
      simpa [State.spares, hqueue] using hspares
    | newRefused | newConstructs | newRecycles => exact absurd rfl hmakes
    | drainFunction hd | drainStops hd =>
      refine hset _ _ rfl fun hq => ?_
      cases (hshut hd).symm.trans hq.2.1
    | nextTakes => exact hset _ _ rfl fun hq => by cases hq.1
    | @nextStops s' w =>
      -- the worker that finds the queue empty held the only dispatch of the sequence
      refine hset _ _ rfl fun _ => Or.inr ?_
      have hbal := after_announced hi (t.setSequence s' { t.sequences s' with active := false }) (.assign w) [] s'
      have hone := ht.one s'
      have hpc : (Pc.nextFunction s' w).announces s' = 1 := if_pos rfl
      have hpc' : (Pc.assign w).announces s' + total (Pc.announces s') [] = 0 := rfl
      have hqueued : (t.setSequence s' { t.sequences s' with active := false }).queuedDispatches s' =
        t.queuedDispatches s' := rfl
      omega
    | _ => cases hedits

theorem announced_of_drains (hpc : pc ∈ t.threads) (hs : pc.drains = some s) : t.announced s ≠ 0 := by
  obtain ⟨i, hi⟩ := List.mem_iff_getElem?.mp hpc
  obtain ⟨r, hr, -⟩ := total_set hi (Pc.announces s)
  have hone : pc.announces s = 1 := by
    cases pc <;> cases hs <;> exact if_pos rfl
  unfold State.announced
  omega

theorem after_guarded (ht : Guarded t) (hfresh : Fresh t.toQueuedWorkerPool) (hi : t.threads[i]? = some pc)
    (hspares : t.spares pc = true) (hadd : ∀ s f, pc ≠ .add s f)
    (h : Executes t.toQueuedWorkerPool pc p' pc' spawned) : Guarded (t.after i p' pc' spawned) := by
  have hann : ∀ s, (t.after i p' pc' spawned).announced s ≤ t.announced s := by
    intro s
    have hbal := after_announced hi p' pc' spawned s
    have hexec := h.announces hfresh hadd s
    omega
  obtain ⟨-, hdrains, hspawned, -⟩ := h.origin
  have hshut : ∀ pc'' ∈ t.threads, ∀ s, pc''.drains = some s → (t.sequences s).shutdown = true →
      (p'.sequences s).shutdown = true := by
    intro pc'' hpc'' s hs hsh
    cases hmakes : pc.makes with
    | false => exact ((h.keeps hmakes s).2 hsh).1
    | true =>
      rw [h.sequences_of_announced hmakes ht hspares (announced_of_drains hpc'' hs)]
      exact hsh
  refine ht.of_le h.setting.2.2 hann (fun s => h.idle ht hi hspares hadd hann) fun pc'' hpc'' s hs => ?_
  obtain hpc'' | rfl | hpc'' := mem_after hpc''
  · exact hshut pc'' hpc'' s hs (ht.drains pc'' hpc'' s hs)
  · have hmakes : pc.makes = false := by
      cases h with
      | newRefused | newConstructs | newRecycles => cases hs
      | drainFunction hd | drainStops hd | drainDone hd => cases hd <;> rfl
      | _ => rfl
    obtain hs | hsh := hdrains s hs
    · exact ((h.keeps hmakes s).2 (ht.drains pc (List.mem_of_getElem? hi) s hs)).1
    · exact ((h.keeps hmakes s).2 hsh).1
  · rw [(hspawned pc'' hpc'').2] at hs
    cases hs

theorem addCancel_announces (f : Func) (s' : ℕ) (queue : Bool) (delta : ℤ) (s : ℕ) :
    (Pc.addCancel f s' queue delta).announces s = if s' = s then if queue = true then 1 else 0 else 0 := by
  cases queue
  · exact (ite_self 0).symm
  · rfl

/-- `Add` makes a dispatch only for a sequence that has none. -/
theorem after_guarded_push {s' : ℕ} {f : Func} {q : Sequence} (ht : Guarded t) (hs : s' < t.numSequences)
    (hi : t.threads[i]? = some (.add s' f)) (hqueue : q.workQueue ≠ [])
    (hshutdown : q.shutdown = (t.sequences s').shutdown) (hdrains : pc'.drains = none)
    (hself : pc'.announces s' = 0 ∨ pc'.announces s' = 1 ∧ t.announced s' = 0)
    (hother : ∀ s, s ≠ s' → pc'.announces s = 0) : Guarded (t.after i (t.setSequence s' q) pc' []) := by
  have hann : ∀ s, (t.after i (t.setSequence s' q) pc' []).announced s = t.announced s + pc'.announces s := by
    intro s
    have hbal := after_announced hi (t.setSequence s' q) pc' [] s
    have hqueued : (t.setSequence s' q).queuedDispatches s = t.queuedDispatches s := rfl
    have hnone : (Pc.add s' f).announces s + total (Pc.announces s) [] = 0 := rfl
    omega
  refine ⟨fun s => ?_, fun s hidle => ?_, fun pc hmem s hd => ?_, fun s hle => ?_⟩
  · have hone := ht.one s
    rw [hann]
    by_cases h : s = s'
    · subst h
      omega
    · rw [hother s h]
      exact hone
  · change (Function.update t.sequences s' q s).Idle at hidle
    by_cases h : s = s'
    · rw [h, Function.update_self] at hidle
      exact absurd hidle.2.2 hqueue
    · rw [Function.update_of_ne h] at hidle
      rw [hann, hother s h, ht.waiting s hidle]
  · obtain hmem | rfl | hmem := mem_after hmem
    · have hsh := ht.drains pc hmem s hd
      exact setSequence_sequences (R := fun q q' => q.shutdown = true → q'.shutdown = true) (fun _ => id)
        (fun h => hshutdown.trans h) s hsh
    · rw [hdrains] at hd
      cases hd
    · cases hmem
  · have hle : t.numSequences ≤ s := hle
    rw [hann, hother s (by omega), ht.allocated s hle]

theorem after_guarded_add {s' : ℕ} {f : Func} (ht : Guarded t) (hun : Unallocated t.toQueuedWorkerPool)
    (hi : t.threads[i]? = some (.add s' f)) (hspares : t.spares (.add s' f) = true)
    (h : Executes t.toQueuedWorkerPool (.add s' f) p' pc' spawned) : Guarded (t.after i p' pc' spawned) := by
  cases h with
  | addRefused hsh =>
    refine ht.of_le le_rfl (fun s => ?_) (fun _ => Or.inl) fun pc'' hpc'' s hs => ?_
    · have hbal := after_announced hi t.toQueuedWorkerPool (.addCancel f s' false 0) [] s
      have hnone : (Pc.add s' f).announces s + (Pc.addCancel f s' false 0).announces s +
        total (Pc.announces s) [] = 0 := rfl
      omega
    · obtain hpc'' | rfl | hpc'' := mem_after hpc''
      · exact ht.drains pc'' hpc'' s hs
      · cases hs
      · cases hpc''
  | addOverflows hsh hover =>
    apply after_guarded_push ht (hun.lt hsh) hi
    · simp [Sequence.push]
    · rfl
    · rfl
    · rw [addCancel_announces, if_pos rfl]
      by_cases hb : (!(t.sequences s').active && decide (((t.sequences s').workQueue.tail ++ [f]).length = 1)) = true
      · obtain ⟨hactive, hlen⟩ := Bool.and_eq_true_iff.mp hb
        have htail : (t.sequences s').workQueue.tail = [] := by
          rw [← List.length_eq_zero_iff]
          simpa using of_decide_eq_true hlen
        refine Or.inr ⟨if_pos hb, State.announced_of_spared ?_ (by simpa using hactive) ((Bool.not_eq_true _).mp hsh)⟩
        simpa [State.spares, hover, htail] using hspares
      · exact Or.inl (if_neg hb)
    · intro s hs
      rw [addCancel_announces, if_neg hs.symm]
  | addPushes hsh =>
    split_ifs with hb
    · obtain ⟨hactive, hlen⟩ := Bool.and_eq_true_iff.mp hb
      have hempty : (t.sequences s').workQueue = [] := by simpa using of_decide_eq_true hlen
      have hzero := ht.waiting s' ⟨by simpa using hactive, (Bool.not_eq_true _).mp hsh, hempty⟩
      exact after_guarded_push ht (hun.lt hsh) hi (by simp [Sequence.push]) rfl rfl (Or.inr ⟨if_pos rfl, hzero⟩)
        fun s hs => if_neg hs.symm
    · exact after_guarded_push ht (hun.lt hsh) hi (by simp [Sequence.push]) rfl rfl (Or.inl rfl) fun _ _ => rfl
  | drainFunction hd | drainStops hd | drainDone hd => cases hd

end Thread

theorem ExecutesMain.idle {threads : List Pc} {m m' : MainPc} (h : ExecutesMain p threads m p' m') (hun : Unallocated p)
    (htold : m.told s → (p.sequences s).shutdown = true) (hidle : (p'.sequences s).Idle) : (p.sequences s).Idle := by
  by_cases hm : m.told s
  · have hsh := (((h.effect hun).keeps s).2 (htold hm)).1
    rw [hidle.2.1] at hsh
    cases hsh
  · cases h with
    | initiate | told => exact hidle
    | tells =>
      refine (setSequence_idle (A := fun _ => False) (fun hq => ?_) s hidle).resolve_right id
      cases hq.2.1
    | _ => exact absurd trivial hm

theorem Staffed.fresh_tasks {t : State} (ht : Staffed t) : Fresh t.toQueuedWorkerPool := by
  intro w hle
  obtain ⟨hst, hbusy⟩ := ht.fresh w hle
  exact ⟨hst, List.length_eq_zero_iff.mp (Nat.eq_zero_of_add_eq_zero hbusy).2⟩

theorem step_guarded {t t' : State} {a : Action} (hspares : Spares t a) (hcons : Conserved t) (hstaged : Staged t)
    (hfresh : Fresh t.toQueuedWorkerPool) (ht : Guarded t) (h : step t a = some t') : Guarded t' := by
  obtain ⟨pc, passed, hpc, -, -, rfl⟩ | ⟨s, n, rfl⟩ | ⟨hmain, rfl⟩ |
    ⟨i, ok, pc, p', pc', spawned, rfl, hi, hexec, rfl⟩ | ⟨p', m', hexec, rfl⟩ := step_cases h
  · have hnone : (∀ s, pc.announces s = 0) ∧ pc.drains = none := by
      cases pc <;> first | exact ⟨fun _ => rfl, rfl⟩ | cases hpc
    refine ht.of_le le_rfl (fun s => ?_) (fun _ => Or.inl) fun pc' hpc' s hs => ?_
    · have hone : total (Pc.announces s) [pc] = 0 := by simp [total, hnone.1]
      simp only [State.announced, total_append, hone]
      exact le_rfl
    · obtain hpc' | hpc' := List.mem_append.mp hpc'
      · exact ht.drains pc' hpc' s hs
      · rw [List.mem_singleton.mp hpc', hnone.2] at hs
        cases hs
  · refine ht.of_le le_rfl (fun _ => le_rfl) (fun s' h => ?_) fun pc hpc s' hs => ?_
    · refine setSequence_idle (A := fun _ => _) (fun hq => ?_) s' h
      exact Or.inl hq
    · refine setSequence_sequences (R := fun q q' => q.shutdown = true → q'.shutdown = true) (fun _ => id) ?_ s'
        (ht.drains pc hpc s' hs)
      exact id
  · exact ⟨ht.one, ht.waiting, ht.drains, ht.allocated⟩
  · have hspares : t.spares pc = true := by
      simpa [Spares, hi] using hspares
    by_cases hadd : ∃ s f, pc = .add s f
    · obtain ⟨s, f, rfl⟩ := hadd
      exact after_guarded_add ht hcons.unallocated hi hspares hexec
    · exact after_guarded ht hfresh hi hspares (fun s f hpc => hadd ⟨s, f, hpc⟩) hexec
  · have heffect := hexec.effect hcons.unallocated
    refine ht.of_le heffect.numSequences.ge (fun s => ?_) (fun s h => ?_) fun pc hpc s hs => ?_
    · exact Nat.add_le_add_right (hexec.dispatches s) _
    · exact Or.inl (hexec.idle hcons.unallocated (hstaged.told s) h)
    · exact ((heffect.keeps s).2 (ht.drains pc hpc s hs)).1

structure Quiet (q q' : Sequence) : Prop where
  added : q'.added = q.added
  taken : q'.taken = q.taken
  started : q'.started = q.started
  workQueue : q'.workQueue.Sublist q.workQueue

theorem Quiet.refl (q : Sequence) : Quiet q q := ⟨rfl, rfl, rfl, List.Sublist.refl _⟩

theorem Quiet.trans {q q' q'' : Sequence} (h : Quiet q q') (h' : Quiet q' q'') : Quiet q q'' :=
  ⟨h'.added.trans h.added, h'.taken.trans h.taken, h'.started.trans h.started, h'.workQueue.trans h.workQueue⟩

theorem setSequence_quiet {s : ℕ} {q : Sequence} (h : Quiet (p.sequences s) q) (s' : ℕ) :
    Quiet (p.sequences s') ((p.setSequence s q).sequences s') := setSequence_sequences Quiet.refl h s'

theorem Quiet.of_still {q q' : Sequence} : Still q q' → Quiet q q' := by
  rintro ⟨waveform, rfl⟩
  exact ⟨rfl, rfl, rfl, List.Sublist.refl _⟩

/-- The steps that move a function along its sequence. -/
def Pc.moves : Pc → Pc → Bool
  | .add _ _, _ | .callRun _ _ _, _ | .nextFunction _ _, .nextWaveform _ _ _ => true
  | _, _ => false

theorem Executes.quiet (h : Executes p pc p' pc' spawned) (hmoves : pc.moves pc' = false) (s : ℕ) :
    Quiet (p.sequences s) (p'.sequences s) := by
  cases hedits : pc.edits with
  | false => exact Quiet.of_still (h.still hedits s)
  | true =>
    cases h with
    | addRefused | addOverflows | addPushes | callRun | nextTakes => cases hmoves
    | dropDone | drainDone | newRefused => exact Quiet.refl _
    | cancelPendingFunctions =>
      apply setSequence_quiet
      exact ⟨rfl, rfl, rfl, List.nil_sublist _⟩
    | dropFunction hq | drainFunction _ hq =>
      apply setSequence_quiet
      exact ⟨rfl, rfl, rfl, hq ▸ List.sublist_cons_self _ _⟩
    | freeSequence | newConstructs | newRecycles | drainStops | nextStops =>
      apply setSequence_quiet
      exact ⟨rfl, rfl, rfl, List.Sublist.refl _⟩
    | _ => cases hedits

theorem waitDrain_quiet (p : QueuedWorkerPool) (k n s : ℕ) :
    Quiet (p.sequences s) ((p.waitDrain k n).1.sequences s) := by
  cases hq : (p.sequences k).workQueue with
  | nil => simp only [waitDrain, hq]; exact Quiet.refl _
  | cons f rest =>
    simp only [waitDrain, hq]
    apply setSequence_quiet
    exact ⟨rfl, rfl, rfl, hq ▸ List.sublist_cons_self f rest⟩

theorem ExecutesMain.quiet {threads : List Pc} {m m' : MainPc} (h : ExecutesMain p threads m p' m') (s : ℕ) :
    Quiet (p.sequences s) (p'.sequences s) := by
  cases h with
  | tells | cutsOff =>
    apply setSequence_quiet
    exact ⟨rfl, rfl, rfl, List.Sublist.refl _⟩
  | cutsAndDrains =>
    refine Quiet.trans (setSequence_quiet ?_ s) (waitDrain_quiet (p.cutOff _) _ 0 s)
    exact ⟨rfl, rfl, rfl, List.Sublist.refl _⟩
  | waitActive | drain => exact waitDrain_quiet p _ _ s
  | updateWaveform => exact Quiet.of_still (waveform_still _ _ _ s)
  | _ => exact Quiet.refl _

structure Serial (t : State) : Prop where
  queued : ∀ s, ((t.sequences s).taken ++ (t.sequences s).workQueue).Sublist (t.sequences s).added
  handed : ∀ s, ∃ l : List Func, (t.sequences s).taken = (t.sequences s).started ++ l ∧
    (l : Multiset Func) = total (Pc.handed s) t.threads

theorem new_serial (maxWorkers : ℕ) (loadSheddingThreshold : Option ℕ) (queueSize : Bool) :
    Serial (State.new maxWorkers loadSheddingThreshold queueSize) where
  queued := fun _ => List.Sublist.refl _
  handed := fun _ => ⟨[], rfl, rfl⟩

theorem card_handed_le (s : ℕ) (pc : Pc) : (pc.handed s).card ≤ pc.dispatch s := by
  cases pc <;> simp only [Pc.handed, Pc.dispatch, Multiset.card_zero, Nat.zero_le]
  all_goals split_ifs <;> simp

theorem card_total_handed_le (s : ℕ) (l : List Pc) :
    (total (Pc.handed s) l).card ≤ total (Pc.dispatch s) l := by
  induction l with
  | nil => exact le_rfl
  | cons pc l ih =>
    have hpc := card_handed_le s pc
    change (pc.handed s + total (Pc.handed s) l).card ≤ pc.dispatch s + total (Pc.dispatch s) l
    rw [Multiset.card_add]
    omega

theorem Serial.of_quiet {t t' : State} (ht : Serial t) (hquiet : ∀ s, Quiet (t.sequences s) (t'.sequences s))
    (hhanded : ∀ s, total (Pc.handed s) t'.threads = total (Pc.handed s) t.threads) : Serial t' where
  queued := by
    intro s
    rw [(hquiet s).taken, (hquiet s).added]
    exact ((List.Sublist.refl _).append (hquiet s).workQueue).trans (ht.queued s)
  handed := by
    intro s
    obtain ⟨l, hl, hbag⟩ := ht.handed s
    exact ⟨l, by rw [(hquiet s).taken, (hquiet s).started, hl], by rw [hhanded, hbag]⟩

theorem Executes.handed (h : Executes p pc p' pc' spawned) (hmoves : pc.moves pc' = false) (s : ℕ) :
    pc'.handed s + total (Pc.handed s) spawned = pc.handed s := by
  cases h with
  | addRefused | addOverflows | addPushes | callRun | nextTakes => cases hmoves
  | queueHires ok => cases ok <;> rfl
  | addCancel | freeSequence => split_ifs <;> rfl
  | nextWaveform => exact Multiset.add_zero _
  | drainFunction hd | drainDone hd => cases hd <;> rfl
  | drainStops hd => cases hd <;> split_ifs <;> rfl
  | _ => rfl

section Thread

variable {t : State} {i : ℕ}

theorem after_handed_same (hi : t.threads[i]? = some pc) {s : ℕ} (hpc : pc.handed s = 0) (hpc' : pc'.handed s = 0) :
    total (Pc.handed s) (t.after i p' pc' []).threads = total (Pc.handed s) t.threads := by
  obtain ⟨r, hr, hafter⟩ := after_total hi p' pc' [] (Pc.handed s)
  rw [hr, hafter, hpc, hpc']
  exact Multiset.add_zero _

theorem rest_handed_zero (hle : t.dispatches s ≤ 1) (hi : t.threads[i]? = some pc) (hpc : pc.dispatch s = 1)
    {r : Multiset Func} (hr : total (Pc.handed s) t.threads = pc.handed s + r) : r = 0 := by
  obtain ⟨rd, hrd, hset⟩ := total_set hi (Pc.dispatch s)
  obtain ⟨rh, hrh, hseth⟩ := total_set hi (Pc.handed s)
  unfold State.dispatches at hle
  have hcard := card_total_handed_le s (t.threads.set i .done)
  rw [hset, hseth] at hcard
  have hdone : Pc.done.dispatch s = 0 := rfl
  have hdoneh : Pc.done.handed s = 0 := rfl
  rw [hdone, hdoneh, Multiset.zero_add] at hcard
  have hrd0 : rd = 0 := by omega
  rw [hrd0, Nat.add_zero, Nat.le_zero, Multiset.card_eq_zero] at hcard
  rw [hrh, hcard] at hr
  exact (Multiset.add_right_inj.mp hr).symm

theorem Serial.after_set {s' : ℕ} {q : Sequence} (ht : Serial t) (hi : t.threads[i]? = some pc)
    (hp : p'.sequences = Function.update t.sequences s' q) (hqueued : (q.taken ++ q.workQueue).Sublist q.added)
    (hself : ∃ l : List Func, q.taken = q.started ++ l ∧
      (l : Multiset Func) = total (Pc.handed s') (t.after i p' pc' []).threads)
    (hother : ∀ s, s ≠ s' → pc.handed s = 0 ∧ pc'.handed s = 0) : Serial (t.after i p' pc' []) := by
  have hsame : (t.after i p' pc' []).sequences s' = q := (congrFun hp s').trans (Function.update_self ..)
  have hrest : ∀ s, s ≠ s' → (t.after i p' pc' []).sequences s = t.sequences s :=
    fun s hs => (congrFun hp s).trans (Function.update_of_ne hs ..)
  refine ⟨fun s => ?_, fun s => ?_⟩ <;> by_cases hs : s = s'
  · rw [hs, hsame]
    exact hqueued
  · rw [hrest s hs]
    exact ht.queued s
  · rw [hs, hsame]
    exact hself
  · rw [hrest s hs, after_handed_same hi (hother s hs).1 (hother s hs).2]
    exact ht.handed s

theorem after_serial (ht : Serial t) (hone : ∀ s, t.dispatches s ≤ 1) (hi : t.threads[i]? = some pc)
    (h : Executes t.toQueuedWorkerPool pc p' pc' spawned) : Serial (t.after i p' pc' spawned) := by
  -- pushing keeps the order, also when the oldest function has been given up
  have hpush : ∀ {s' f q pc'}, pc = .add s' f → Quiet (t.sequences s') q → (∀ s, pc'.handed s = 0) →
      Serial (t.after i (t.setSequence s' (q.push f)) pc' []) := by
    rintro s' f q pc' rfl hq hpc'
    obtain ⟨l, hl, hbag⟩ := ht.handed s'
    refine ht.after_set hi rfl ?_ ⟨l, ?_, ?_⟩ fun s _ => ⟨rfl, hpc' s⟩
    · change (q.taken ++ (q.workQueue ++ [f])).Sublist (q.added ++ [f])
      rw [hq.taken, hq.added, ← List.append_assoc]
      exact (((List.Sublist.refl _).append hq.workQueue).trans (ht.queued s')).append (List.Sublist.refl _)
    · change q.taken = q.started ++ l
      rw [hq.taken, hq.started, hl]
    · exact hbag.trans (after_handed_same hi rfl (hpc' s')).symm
  cases hm : pc.moves pc' with
  | false =>
    refine ht.of_quiet (h.quiet hm) fun s => ?_
    obtain ⟨r, hr, hafter⟩ := after_total hi p' pc' spawned (Pc.handed s)
    rw [hr, hafter, ← h.handed hm s]
    ac_rfl
  | true =>
    cases h with
    | addRefused => exact ht.of_quiet (fun _ => Quiet.refl _) fun s => after_handed_same hi rfl rfl
    | addOverflows =>
      refine hpush rfl ?_ fun _ => rfl
      exact ⟨rfl, rfl, rfl, List.tail_sublist _⟩
    | addPushes =>
      refine hpush rfl (Quiet.refl _) fun s => ?_
      split_ifs <;> rfl
    | @nextTakes s' w f rest _ hq =>
      obtain ⟨l, hl, hbag⟩ := ht.handed s'
      refine ht.after_set hi rfl ?_ ⟨[f], ?_, ?_⟩ fun s hs => ⟨rfl, if_neg hs.symm⟩
      · have hqueued := ht.queued s'
        rw [hq] at hqueued
        simpa using hqueued
      all_goals
        obtain ⟨r, hr, hafter⟩ := after_total hi (t.setSequence s' { t.sequences s' with
          workQueue := rest, active := true, taken := (t.sequences s').taken ++ [f] }) (.nextWaveform f s' w) []
          (Pc.handed s')
        have hzero := rest_handed_zero (hone s') hi (if_pos rfl) hr
      · rw [hr, hzero] at hbag
        change (t.sequences s').taken ++ [f] = (t.sequences s').started ++ [f]
        rw [hl, (Multiset.coe_eq_zero l).mp hbag, List.append_nil]
      · rw [hafter, hzero]
        simp [Pc.handed, total]
    | @callRun f s' w =>
      obtain ⟨l, hl, hbag⟩ := ht.handed s'
      obtain ⟨r, hr, hafter⟩ := after_total hi (t.callRun f s') (.running f s' w) [] (Pc.handed s')
      have hzero := rest_handed_zero (hone s') hi (if_pos rfl) hr
      have hlone : l = [f] := by
        rw [hr, hzero] at hbag
        apply Multiset.coe_eq_singleton.mp
        simpa [Pc.handed] using hbag
      refine ht.after_set hi rfl (ht.queued s') ⟨[], ?_, ?_⟩ fun s hs => ⟨if_neg hs.symm, rfl⟩
      · change (t.sequences s').taken = (t.sequences s').started ++ [f] ++ []
        rw [hl, hlone, List.append_nil]
      · rw [hafter, hzero]
        simp [Pc.handed, total]
    | drainFunction hd | drainDone hd => cases hd <;> cases hm
    | drainStops hd => cases hd <;> split_ifs at hm <;> cases hm
    | _ => cases hm

end Thread

theorem step_serial {t t' : State} {a : Action} (hone : ∀ s, t.dispatches s ≤ 1) (ht : Serial t)
    (h : step t a = some t') : Serial t' := by
  obtain ⟨pc, passed, hpc, -, -, rfl⟩ | ⟨s, n, rfl⟩ | ⟨hmain, rfl⟩ |
    ⟨i, ok, pc, p', pc', spawned, rfl, hi, hexec, rfl⟩ | ⟨p', m', hexec, rfl⟩ := step_cases h
  · refine ht.of_quiet (fun _ => Quiet.refl _) fun s => ?_
    have hnone : total (Pc.handed s) [pc] = 0 := by
      cases pc <;> first | rfl | cases hpc
    rw [total_append, hnone, Multiset.add_zero]
  · refine ht.of_quiet (setSequence_quiet ?_) fun _ => rfl
    exact ⟨rfl, rfl, rfl, List.Sublist.refl _⟩
  · exact ht.of_quiet (fun _ => Quiet.refl _) fun _ => rfl
  · exact after_serial ht hone hi hexec
  · exact ht.of_quiet hexec.quiet fun _ => rfl

structure Serialized (t : State) : Prop where
  oneDispatch : ∀ s, t.dispatches s ≤ 1
  oneRunning : ∀ s, t.threads.countP (Pc.runs s) ≤ 1
  inOrder : ∀ s, (t.sequences s).started.Sublist (t.sequences s).added

theorem countP_runs_le (s : ℕ) (l : List Pc) : l.countP (Pc.runs s) ≤ total (Pc.dispatch s) l := by
  induction l with
  | nil => exact le_rfl
  | cons pc l ih =>
    have hpc : (if Pc.runs s pc = true then 1 else 0) ≤ pc.dispatch s := by
      cases pc <;> simp [Pc.runs, Pc.dispatch]
    rw [List.countP_cons]
    change _ ≤ pc.dispatch s + total (Pc.dispatch s) l
    omega

theorem Serial.serialized {t : State} (hone : ∀ s, t.dispatches s ≤ 1) (ht : Serial t) : Serialized t where
  oneDispatch := hone
  oneRunning := by
    intro s
    have hle := hone s
    have hruns := countP_runs_le s t.threads
    unfold State.dispatches at hle
    omega
  inOrder := by
    intro s
    obtain ⟨l, hl, -⟩ := ht.handed s
    have hstarted : (t.sequences s).started.Sublist (t.sequences s).taken := by
      rw [hl]
      exact List.sublist_append_left _ _
    exact (hstarted.trans (List.sublist_append_left _ _)).trans (ht.queued s)

/-- In a run that never empties the queue of a sequence, nor hands the sequence out again, while a dispatch of it
is pending, every state is serialized. -/
theorem serialized_of_spares (maxWorkers : ℕ) (loadSheddingThreshold : Option ℕ) (queueSize : Bool)
    (as : List Action) (t : State)
    (hspares : Machine.Meets step Spares (State.new maxWorkers loadSheddingThreshold queueSize) as)
    (h : Machine.run step (State.new maxWorkers loadSheddingThreshold queueSize) as = some t) : Serialized t := by
  have hinv : ∀ t a t', Spares t a → ((Conserved t ∧ Staged t ∧ Staffed t) ∧ Guarded t ∧ Serial t) →
      step t a = some t' → (Conserved t' ∧ Staged t' ∧ Staffed t') ∧ Guarded t' ∧ Serial t' := by
    rintro t a t' hspares ⟨⟨hcons, hstaged, hstaffed⟩, hguarded, hserial⟩ hstep
    refine ⟨⟨step_conserved hcons hstep, step_staged hstaged hcons.unallocated hstep, step_staffed hstaffed hstep⟩,
      step_guarded hspares hcons hstaged hstaffed.fresh_tasks hguarded hstep, step_serial (fun s => ?_) hserial hstep⟩
    exact (dispatches_le_announced t s).trans (hguarded.one s)
  obtain ⟨-, hguarded, hserial⟩ := Machine.run_invariant hinv
    ⟨⟨new_conserved _ _ _, new_staged _ _ _, new_staffed _ _ _⟩, new_guarded _ _ _, new_serial _ _ _⟩ hspares h
  exact hserial.serialized fun s => (dispatches_le_announced t s).trans (hguarded.one s)

def cancelledRun : List Action :=
  [.newSequence, .thread 0 true, .add 0 1, .thread 1 true, .thread 1 true, .thread 1 true, .thread 1 true,
    .add 0 2, .thread 3 true, .thread 3 true, .thread 2 true, .thread 2 true, .add 0 3, .thread 4 true,
    .cancelPendingFunctions 0, .thread 5 true, .thread 5 true, .add 0 4, .thread 6 true, .thread 2 true,
    .thread 2 true, .thread 2 true, .thread 2 true, .thread 2 true, .thread 2 true]

theorem serialized_of_spares_cancelled : ∃ t, Machine.run step (State.new 2 none true) cancelledRun = some t ∧
    (t.sequences 0).added = [1, 2, 3, 4] ∧ (t.sequences 0).started = [1, 4] ∧ Serialized t :=
  ⟨_, rfl, rfl, rfl, serialized_of_spares 2 none true cancelledRun _ (by decide) rfl⟩

/-- `CancelPendingFunctions` empties the queue before the first worker looks at it, and the next `Add`
dispatches the sequence to a second worker. -/
theorem two_functions_running :
    ∃ t, Machine.run step (State.new 2 none true)
        [.newSequence, .thread 0 true, .add 0 1, .thread 1 true, .thread 1 true, .thread 1 true, .thread 1 true,
          .cancelPendingFunctions 0, .thread 3 true, .thread 3 true, .thread 3 true, .thread 3 true,
          .add 0 2, .thread 4 true, .thread 4 true, .thread 4 true, .thread 4 true,
          .thread 2 true, .thread 2 true, .thread 2 true, .thread 2 true,
          .add 0 3, .thread 6 true, .thread 6 true,
          .thread 5 true, .thread 5 true, .thread 5 true, .thread 5 true] = some t ∧
      t.threads.countP (Pc.runs 0) = 2 :=
  ⟨_, rfl, by decide⟩

end PageSpeed.QueuedWorkerPool
