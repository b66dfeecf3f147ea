import PageSpeed.Thread.FunctionConservation

/-!
How far the thread that shuts the pool down has come, what the workers are doing
meanwhile, and what is left of the functions when it is done.
-/

namespace PageSpeed.QueuedWorkerPool

open Bag

def MainPc.begun : MainPc → Bool
  | .notStarted | .initiate => false
  | _ => true

/-- The sequences that `InitiateShutDown` has reached. -/
def MainPc.told (s : ℕ) : MainPc → Prop
  | .notStarted | .initiate => False
  | .initiateSequence k => s < k
  | _ => True

/-- The sequences whose `pool_` has been cleared. -/
def MainPc.cutOff (s : ℕ) : MainPc → Prop
  | .notStarted | .initiate | .initiateSequence _ => False
  | .waitSequence k => s < k
  | .waitActive k | .drain k _ | .callCancel _ k _ | .updateWaveform k _ => s ≤ k
  | _ => True

def MainPc.emptied (s : ℕ) : MainPc → Prop
  | .notStarted | .initiate | .initiateSequence _ => False
  | .waitSequence k | .waitActive k | .drain k _ | .callCancel _ k _ => s < k
  | .updateWaveform k _ => s ≤ k
  | _ => True

def MainPc.joined : MainPc → Bool
  | .joinAvailable _ | .shutDownWorker _ (some _) | .joinWorker _ (some _) | .complete => true
  | _ => false

variable {m : MainPc} {s choice : ℕ} {t' : State} {p : QueuedWorkerPool}

theorem MainPc.told_of_emptied (h : m.emptied s) : m.told s := by
  cases m <;> trivial

theorem MainPc.told_of_cutOff (h : m.cutOff s) : m.told s := by
  cases m <;> trivial

theorem MainPc.begun_of_told (h : m.told s) : m.begun = true := by
  cases m <;> first | rfl | exact h.elim

theorem MainPc.cutOff_of_joined (h : m.joined = true) (s : ℕ) : m.cutOff s := by
  cases m <;> trivial

structure Staged (t : State) : Prop where
  shutdown : t.main.begun = true → t.shutdown = true
  told : ∀ s, t.main.told s → (t.sequences s).shutdown = true
  cutOff : ∀ s, t.main.cutOff s → (t.sequences s).hasPool = false
  emptied : ∀ s, t.main.emptied s → (t.sequences s).workQueue = []
  joined : t.main.joined = true → t.activeWorkers = []

theorem new_staged (maxWorkers : ℕ) (loadSheddingThreshold : Option ℕ) (queueSize : Bool) :
    Staged (State.new maxWorkers loadSheddingThreshold queueSize) where
  shutdown := fun h => by cases h
  told := fun _ h => h.elim
  cutOff := fun _ h => h.elim
  emptied := fun _ h => h.elim
  joined := fun h => by cases h

theorem Staged.of_keeps {t : State} (ht : Staged t) (hmain : t'.main = t.main)
    (hsh : t.shutdown = true → t'.shutdown = true)
    (hkeeps : t.shutdown = true → ∀ s, Keeps (t.sequences s) (t'.sequences s))
    (hactive : t.main.joined = true → t'.activeWorkers = t.activeWorkers) : Staged t' := by
  have hk : ∀ s, t.main.told s → Keeps (t.sequences s) (t'.sequences s) := fun s h =>
    hkeeps (ht.shutdown (MainPc.begun_of_told h)) s
  refine ⟨?_, ?_, ?_, ?_, ?_⟩
  · intro h
    rw [hmain] at h
    exact hsh (ht.shutdown h)
  · intro s h
    rw [hmain] at h
    exact ((hk s h).2 (ht.told s h)).1
  · intro s h
    rw [hmain] at h
    rw [← Bool.not_eq_true]
    intro hpool
    have := (hk s (MainPc.told_of_cutOff h)).1 hpool
    rw [ht.cutOff s h] at this
    cases this
  · intro s h
    rw [hmain] at h
    have htold := MainPc.told_of_emptied h
    have hsub := ((hk s htold).2 (ht.told s htold)).2
    rw [ht.emptied s h] at hsub
    exact List.sublist_nil.mp hsub
  · intro h
    rw [hmain] at h
    rw [hactive h]
    exact ht.joined h

theorem Executes.keeps_of_shutdown {p' : QueuedWorkerPool} {pc pc' : Pc} {spawned : List Pc}
    (h : Executes p pc p' pc' spawned) (hsh : p.shutdown = true) :
    p'.shutdown = true ∧ ∀ s, Keeps (p.sequences s) (p'.sequences s) := by
  cases hmakes : pc.makes with
  | false => exact ⟨(h.sameSetting hmakes).shutdown.trans hsh, h.keeps hmakes⟩
  | true =>
    cases h with
    | newRefused => exact ⟨hsh, fun _ => Keeps.refl _⟩
    | newConstructs hopen | newRecycles hopen => exact absurd hsh hopen
    | drainFunction hpc | drainStops hpc | drainDone hpc => cases hpc <;> cases hmakes
    | _ => cases hmakes

theorem Executes.activeWorkers {p' : QueuedWorkerPool} {pc pc' : Pc} {spawned : List Pc}
    (h : Executes p pc p' pc' spawned) (hsh : p.shutdown = true) (hcut : ∀ s, (p.sequences s).hasPool = false) :
    p'.activeWorkers = p.activeWorkers := by
  cases h with
  | queueWakes hpool | queueHires _ hpool =>
    rw [hcut] at hpool
    cases hpool
  | assignRetires hopen => exact absurd hsh hopen
  | dropWaveform | updateWaveform | cancelPendingWaveform | nextWaveform | drainWaveform =>
    exact (waveform_same _ _ _).1.2.2.1
  | release => rw [if_pos hsh]
  | _ => rfl

theorem after_staged {t : State} {p' : QueuedWorkerPool} {i : ℕ} {pc pc' : Pc} {spawned : List Pc}
    (ht : Staged t) (h : Executes t.toQueuedWorkerPool pc p' pc' spawned) : Staged (t.after i p' pc' spawned) := by
  refine ht.of_keeps rfl ?_ ?_ ?_
  · intro hsh
    exact (h.keeps_of_shutdown hsh).1
  · intro hsh
    exact (h.keeps_of_shutdown hsh).2
  · intro hjoined
    have hcut : ∀ s, t.main.cutOff s := MainPc.cutOff_of_joined hjoined
    have hsh := ht.shutdown (MainPc.begun_of_told (MainPc.told_of_cutOff (hcut 0)))
    exact h.activeWorkers hsh fun s => ht.cutOff s (hcut s)

structure Advances (p' : QueuedWorkerPool) (m m' : MainPc) : Prop where
  shutdown : m'.begun = true → m.begun = true ∨ p'.shutdown = true
  told : ∀ s, m'.told s → m.told s ∨ (p'.sequences s).shutdown = true
  cutOff : ∀ s, m'.cutOff s → m.cutOff s ∨ (p'.sequences s).hasPool = false
  emptied : ∀ s, m'.emptied s → m.emptied s ∨ (p'.sequences s).workQueue = []
  joined : m'.joined = true → m.joined = true ∨ p'.activeWorkers = []

theorem waitDrain_advances {k n : ℕ} (hbegun : m.begun = true)
    (htold : ∀ s, m.told s) (hcut : ∀ s, s ≤ k → m.cutOff s ∨ (p.sequences s).hasPool = false)
    (hempty : ∀ s, s < k → m.emptied s) : Advances (p.waitDrain k n).1 m (p.waitDrain k n).2 := by
  cases hq : (p.sequences k).workQueue with
  | nil =>
    simp only [waitDrain, hq]
    refine ⟨fun _ => Or.inl hbegun, fun s _ => Or.inl (htold s), fun s h => hcut s h, fun s h => ?_, fun h => by cases h⟩
    obtain h | rfl := Nat.lt_or_eq_of_le h
    · exact Or.inl (hempty s h)
    · exact Or.inr hq
  | cons f rest =>
    simp only [waitDrain, hq]
    refine ⟨fun _ => Or.inl hbegun, fun s _ => Or.inl (htold s), fun s h => ?_, fun s h => Or.inl (hempty s h),
      fun h => by cases h⟩
    obtain hm | hpool := hcut s h
    · exact Or.inl hm
    · refine Or.inr ?_
      change (Function.update p.sequences k _ s).hasPool = false
      by_cases hs : s = k
      · subst hs
        rw [Function.update_self]
        exact hpool
      · rw [Function.update_of_ne hs]
        exact hpool

theorem Advances.same {p' : QueuedWorkerPool} {m' : MainPc} (hbegun : m.begun = true)
    (htold : ∀ s, m.told s) (hcut : ∀ s, m'.cutOff s → m.cutOff s) (hempty : ∀ s, m'.emptied s → m.emptied s)
    (hjoined : m'.joined = true → m.joined = true) : Advances p' m m' :=
  ⟨fun _ => Or.inl hbegun, fun s _ => Or.inl (htold s), fun s h => Or.inl (hcut s h), fun s h => Or.inl (hempty s h),
    fun h => Or.inl (hjoined h)⟩

theorem ExecutesMain.advances {p' : QueuedWorkerPool} {threads : List Pc} {m' : MainPc}
    (h : ExecutesMain p threads m p' m') (hun : Unallocated p) : Advances p' m m' := by
  have hcut : ∀ k s, s ≤ k → (MainPc.waitSequence k).cutOff s ∨ ((p.cutOff k).sequences s).hasPool = false := by
    intro k s hs
    obtain hs | rfl := Nat.lt_or_eq_of_le hs
    · exact Or.inl hs
    · refine Or.inr ?_
      change (Function.update p.sequences s _ s).hasPool = false
      rw [Function.update_self]
  cases h with
  | initiate =>
    exact ⟨fun _ => Or.inr rfl, fun s h => absurd h (Nat.not_lt_zero s), fun _ h => h.elim, fun _ h => h.elim, nofun⟩
  | tells =>
    refine ⟨fun _ => Or.inl rfl, fun s hs => ?_, fun _ h => h.elim, fun _ h => h.elim, nofun⟩
    obtain hs | rfl := Nat.lt_or_eq_of_le (Nat.le_of_lt_succ hs)
    · exact Or.inl hs
    · refine Or.inr ?_
      change (Function.update p.sequences s _ s).shutdown = true
      rw [Function.update_self]
  | @told k hk =>
    refine ⟨fun _ => Or.inl rfl, fun s _ => ?_, fun s h => absurd h (Nat.not_lt_zero s),
      fun s h => absurd h (Nat.not_lt_zero s), nofun⟩
    by_cases hs : s < k
    · exact Or.inl hs
    · exact Or.inr (hun s (by omega)).1
  | cutsOff => exact ⟨fun _ => Or.inl rfl, fun _ _ => Or.inl trivial, hcut _, fun _ hs => Or.inl hs, nofun⟩
  | cutsAndDrains => exact waitDrain_advances rfl (fun _ => trivial) (hcut _) fun _ hs => hs
  | @emptied k hk =>
    have hrest : ∀ s, s < k ∨ p.numSequences ≤ s := fun s => by omega
    refine ⟨fun _ => Or.inl rfl, fun _ _ => Or.inl trivial, fun s _ => ?_, fun s _ => ?_, nofun⟩
    · exact (hrest s).imp id fun hs => (hun s hs).2.2
    · exact (hrest s).imp id fun hs => (hun s hs).2.1
  | waitActive | drain => exact waitDrain_advances rfl (fun _ => trivial) (fun _ hs => Or.inl hs) fun _ hs => hs
  | updateWaveform =>
    exact .same rfl (fun _ => trivial) (fun _ => Nat.le_of_lt_succ) (fun _ => Nat.le_of_lt_succ) id
  | activeJoined hw =>
    exact ⟨fun _ => Or.inl rfl, fun _ _ => Or.inl trivial, fun _ _ => Or.inl trivial, fun _ _ => Or.inl trivial,
      fun _ => Or.inr hw⟩
  | deletes | joins =>
    rename_i rest _
    cases rest <;> exact .same rfl (fun _ => trivial) (fun _ _ => trivial) (fun _ _ => trivial) id
  | exits =>
    rename_i rest
    cases rest <;> exact .same rfl (fun _ => trivial) (fun _ _ => trivial) (fun _ _ => trivial) id
  | _ => exact .same rfl (fun _ => trivial) (fun _ => id) (fun _ => id) id

theorem waitDrain_sameWorkers (p : QueuedWorkerPool) (k n : ℕ) :
    SameWorkers p (p.waitDrain k n).1 ∧ (p.waitDrain k n).1.queuedSequences = p.queuedSequences := by
  unfold waitDrain
  cases (p.sequences k).workQueue <;> exact ⟨⟨rfl, rfl, rfl, rfl⟩, rfl⟩

theorem ExecutesMain.pool {p' : QueuedWorkerPool} {threads : List Pc} {m' : MainPc}
    (h : ExecutesMain p threads m p' m') :
    (p.shutdown = true → p'.shutdown = true) ∧ p'.activeWorkers.Sublist p.activeWorkers := by
  have hdrain : ∀ {p₀ : QueuedWorkerPool} {k n}, p₀.shutdown = p.shutdown → p₀.activeWorkers = p.activeWorkers →
      (p.shutdown = true → (p₀.waitDrain k n).1.shutdown = true) ∧
        (p₀.waitDrain k n).1.activeWorkers.Sublist p.activeWorkers := by
    intro p₀ k n hsh hact
    rw [← hsh, ← hact]
    unfold waitDrain
    cases (p₀.sequences k).workQueue <;> exact ⟨id, List.Sublist.refl _⟩
  cases h with
  | initiate => exact ⟨fun _ => rfl, List.Sublist.refl _⟩
  | cutsAndDrains | waitActive | drain => exact hdrain rfl rfl
  | updateWaveform =>
    obtain ⟨⟨-, -, hactive, -⟩, hsetting⟩ := waveform_same p _ _
    exact ⟨fun hsh => hsetting.shutdown.trans hsh, hactive ▸ List.Sublist.refl _⟩
  | joinsActive => exact ⟨id, List.erase_sublist⟩
  | _ => exact ⟨id, List.Sublist.refl _⟩

theorem main_staged {t : State} {p' : QueuedWorkerPool} {m' : MainPc} (ht : Staged t)
    (hun : Unallocated t.toQueuedWorkerPool) (h : ExecutesMain t.toQueuedWorkerPool t.threads t.main p' m') :
    Staged { t with toQueuedWorkerPool := p', main := m' } := by
  have hadv := h.advances hun
  have hkeeps := (h.effect hun).keeps
  obtain ⟨hsh, hactive⟩ := h.pool
  refine ⟨?_, ?_, ?_, ?_, ?_⟩
  · intro hb
    obtain hb | hb := hadv.shutdown hb
    · exact hsh (ht.shutdown hb)
    · exact hb
  · intro s hs
    obtain hs | hs := hadv.told s hs
    · exact ((hkeeps s).2 (ht.told s hs)).1
    · exact hs
  · intro s hs
    obtain hs | hs := hadv.cutOff s hs
    · rw [← Bool.not_eq_true]
      intro hpool
      have hpool := (hkeeps s).1 hpool
      rw [ht.cutOff s hs] at hpool
      cases hpool
    · exact hs
  · intro s hs
    obtain hs | hs := hadv.emptied s hs
    · have hsub := ((hkeeps s).2 (ht.told s (MainPc.told_of_emptied hs))).2
      rw [ht.emptied s hs] at hsub
      exact List.sublist_nil.mp hsub
    · exact hs
  · intro hj
    obtain hj | hj := hadv.joined hj
    · exact List.sublist_nil.mp (ht.joined hj ▸ hactive)
    · exact hj

theorem step_staged {t : State} {a : Action} (ht : Staged t) (hun : Unallocated t.toQueuedWorkerPool)
    (h : step t a = some t') : Staged t' := by
  obtain ⟨pc, passed, -, -, -, rfl⟩ | ⟨s, n, rfl⟩ | ⟨hmain, rfl⟩ | ⟨i, ok, pc, p', pc', spawned, -, -, hexec, rfl⟩ |
    ⟨p', m', hexec, rfl⟩ := step_cases h
  · exact ht.of_keeps rfl id (fun _ _ => Keeps.refl _) fun _ => rfl
  · refine ht.of_keeps rfl id (fun _ => setSequence_keeps ?_) fun _ => rfl
    exact ⟨id, fun h => ⟨h, List.Sublist.refl _⟩⟩
  · exact ⟨nofun, fun _ h => h.elim, fun _ h => h.elim, fun _ h => h.elim, nofun⟩
  · exact after_staged ht hexec
  · exact main_staged ht hun hexec

def Pc.busy (w : ℕ) : Pc → ℕ
  | .runInWorkThread w' _ _ | .nextFunction _ w' | .nextWaveform _ _ w' | .callRun _ _ w' | .running _ _ w'
  | .drain _ w' _ _ | .drainCallCancel _ _ w' _ _ | .release _ w' _ | .drainWaveform _ w' _ | .assign w' =>
    if w' = w then 1 else 0
  | _ => 0

def State.busy (t : State) (w : ℕ) : ℕ := total (Pc.busy w) t.threads + (t.workers w).tasks.length

def MainPc.joins : MainPc → Option ℕ
  | .shutDownWorker w none | .joinWorker w none => some w
  | _ => none

structure Staffed (t : State) : Prop where
  busy_le : ∀ w, t.busy w ≤ 1
  employed : ∀ w, 0 < t.busy w → w ∈ t.activeWorkers ∨ t.main.joins = some w ∨ (t.workers w).deleted = true
  available : ∀ w ∈ t.availableWorkers, w < t.numWorkers ∧ t.busy w = 0
  nodup : t.availableWorkers.Nodup
  stopped : ∀ w, (t.workers w).started = false →
    (t.workers w).tasks = [] ∧ ∀ pc ∈ t.threads, pc.worker ≠ some w
  deleted : ∀ w, (t.workers w).deleted = true → (t.workers w).started = false
  exit : ∀ w, (t.workers w).exit = true → (t.workers w).started = true → ∃ rest, t.main = .joinWorker w rest
  fresh : ∀ w, t.numWorkers ≤ w → (t.workers w).started = false ∧ t.busy w = 0

theorem new_staffed (maxWorkers : ℕ) (loadSheddingThreshold : Option ℕ) (queueSize : Bool) :
    Staffed (State.new maxWorkers loadSheddingThreshold queueSize) where
  busy_le := fun _ => Nat.zero_le _
  employed := fun _ h => absurd h (lt_irrefl 0)
  available := nofun
  nodup := List.nodup_nil
  stopped := fun _ _ => ⟨rfl, nofun⟩
  deleted := nofun
  exit := nofun
  fresh := fun _ _ => ⟨rfl, rfl⟩

theorem after_busy {t : State} {i : ℕ} {pc : Pc} (hi : t.threads[i]? = some pc) (p' : QueuedWorkerPool) (pc' : Pc)
    (spawned : List Pc) (w : ℕ) :
    (t.after i p' pc' spawned).busy w + (pc.busy w + (t.workers w).tasks.length) =
      t.busy w + (pc'.busy w + total (Pc.busy w) spawned + (p'.workers w).tasks.length) := by
  obtain ⟨r, hr, hafter⟩ := after_total hi p' pc' spawned (Pc.busy w)
  unfold State.busy
  rw [hr, hafter]
  change _ + (p'.workers w).tasks.length + _ = _
  omega

theorem mem_after {t : State} {i : ℕ} {p' : QueuedWorkerPool} {pc pc' : Pc} {spawned : List Pc}
    (h : pc ∈ (t.after i p' pc' spawned).threads) : pc ∈ t.threads ∨ pc = pc' ∨ pc ∈ spawned := by
  obtain h | h := List.mem_append.mp h
  · exact (List.mem_or_eq_of_mem_set h).imp id Or.inl
  · exact Or.inr (Or.inr h)

section Thread

variable {t : State} {p' : QueuedWorkerPool} {i : ℕ} {pc pc' : Pc} {spawned : List Pc}

theorem Staffed.after (ht : Staffed t) (hi : t.threads[i]? = some pc) (hnum : p'.numWorkers = t.numWorkers)
    (hactive : p'.activeWorkers = t.activeWorkers) (havail : p'.availableWorkers = t.availableWorkers)
    (hflags : ∀ w, (p'.workers w).started = (t.workers w).started ∧ (p'.workers w).exit = (t.workers w).exit ∧
      (p'.workers w).deleted = (t.workers w).deleted)
    (htasks : ∀ w, (t.workers w).started = false → (p'.workers w).tasks = [])
    (hworker : ∀ w, pc'.worker = some w → pc.worker = some w)
    (hbusy : ∀ w, pc'.busy w + (p'.workers w).tasks.length ≤ pc.busy w + (t.workers w).tasks.length) :
    Staffed (t.after i p' pc' []) := by
  have hle : ∀ w, (t.after i p' pc' []).busy w ≤ t.busy w := by
    intro w
    have h := after_busy hi p' pc' [] w
    have hw := hbusy w
    simp only [total, List.map_nil, List.sum_nil] at h
    omega
  refine ⟨?_, ?_, ?_, ?_, ?_, ?_, ?_, ?_⟩
  · intro w
    exact (hle w).trans (ht.busy_le w)
  · intro w h
    have h := ht.employed w (h.trans_le (hle w))
    change w ∈ p'.activeWorkers ∨ t.main.joins = some w ∨ (p'.workers w).deleted = true
    rw [hactive, (hflags w).2.2]
    exact h
  · intro w h
    change w ∈ p'.availableWorkers at h
    rw [havail] at h
    obtain ⟨hlt, h⟩ := ht.available w h
    exact ⟨hnum ▸ hlt, Nat.le_zero.mp (h ▸ hle w)⟩
  · change p'.availableWorkers.Nodup
    rw [havail]
    exact ht.nodup
  · intro w h
    replace h : (t.workers w).started = false := (hflags w).1.symm.trans h
    refine ⟨htasks w h, fun pc'' hpc'' hw => ?_⟩
    obtain hpc'' | rfl | hpc'' := mem_after hpc''
    · exact (ht.stopped w h).2 pc'' hpc'' hw
    · exact (ht.stopped w h).2 pc (List.mem_of_getElem? hi) (hworker w hw)
    · cases hpc''
  · intro w h
    exact (hflags w).1.trans (ht.deleted w ((hflags w).2.2 ▸ h))
  · intro w h hst
    exact ht.exit w ((hflags w).2.1 ▸ h) ((hflags w).1 ▸ hst)
  · intro w h
    have h := ht.fresh w (hnum ▸ h)
    exact ⟨(hflags w).1.trans h.1, Nat.le_zero.mp (h.2 ▸ hle w)⟩

theorem Staffed.after_same (ht : Staffed t) (hi : t.threads[i]? = some pc)
    (hsame : SameWorkers t.toQueuedWorkerPool p') (hworker : ∀ w, pc'.worker = some w → pc.worker = some w)
    (hbusy : ∀ w, pc'.busy w ≤ pc.busy w) : Staffed (t.after i p' pc' []) := by
  obtain ⟨hw, hn, hactive, havail⟩ := hsame
  refine ht.after hi hn hactive havail ?_ ?_ hworker ?_
  · intro w
    rw [hw]
    exact ⟨rfl, rfl, rfl⟩
  · intro w hst
    rw [hw]
    exact (ht.stopped w hst).1
  · intro w
    rw [hw]
    exact Nat.add_le_add_right (hbusy w) _

theorem Executes.sameWorkers (h : Executes p pc p' pc' spawned) (hpc : pc.managesWorkers = false) :
    SameWorkers p p' ∧ spawned = [] ∧ pc'.worker = pc.worker ∧ ∀ w, pc'.busy w = pc.busy w := by
  have hsame : SameWorkers p p := ⟨rfl, rfl, rfl, rfl⟩
  cases h with
  | queueCrashes | queueWakes | queueHires | queueSheds | queueWaits | runCrashes | runQueues | runDrops | idleExits
  | idleTakes | assignRefused | assignRetires | assignTakes => cases hpc
  | addPushes | addCancel | freeSequence | release => split_ifs <;> exact ⟨hsame, rfl, rfl, fun _ => rfl⟩
  | dropWaveform | updateWaveform | cancelPendingWaveform | nextWaveform | drainWaveform =>
    exact ⟨(waveform_same _ _ _).1, rfl, rfl, fun _ => rfl⟩
  | drainFunction hd | drainDone hd => cases hd <;> exact ⟨hsame, rfl, rfl, fun _ => rfl⟩
  | drainStops hd => cases hd <;> split_ifs <;> exact ⟨hsame, rfl, rfl, fun _ => rfl⟩
  | _ => exact ⟨hsame, rfl, rfl, fun _ => rfl⟩

variable {s w : ℕ} {delta : ℤ}

theorem Staffed.after_tasks {tasks : List ℕ} (ht : Staffed t) (hi : t.threads[i]? = some pc)
    (hst : (t.workers w).started = true) (hworker : ∀ w', pc'.worker = some w' → pc.worker = some w')
    (hbusy : pc'.busy w + tasks.length ≤ pc.busy w + (t.workers w).tasks.length)
    (hother : ∀ w', w' ≠ w → pc'.busy w' ≤ pc.busy w') :
    Staffed (t.after i (t.setWorker w { t.workers w with tasks := tasks }) pc' []) := by
  have hself : (t.setWorker w { t.workers w with tasks := tasks }).workers w = { t.workers w with tasks := tasks } :=
    Function.update_self _ _ _
  have hset : ∀ w', w' ≠ w →
      (t.setWorker w { t.workers w with tasks := tasks }).workers w' = t.workers w' :=
    fun w' hw => Function.update_of_ne hw _ _
  refine ht.after hi rfl rfl rfl ?_ ?_ hworker ?_
  · intro w'
    by_cases hw : w' = w
    · rw [hw, hself]
      exact ⟨rfl, rfl, rfl⟩
    · rw [hset w' hw]
      exact ⟨rfl, rfl, rfl⟩
  · intro w' h
    have hw : w' ≠ w := by
      rintro rfl
      rw [hst] at h
      cases h
    rw [hset w' hw]
    exact (ht.stopped w' h).1
  · intro w'
    by_cases hw : w' = w
    · rw [hw, hself]
      exact hbusy
    · rw [hset w' hw]
      exact Nat.add_le_add_right (hother w' hw) _

theorem Staffed.retire (ht : Staffed t) (hi : t.threads[i]? = some (.assign w)) (hw : p'.workers = t.workers)
    (hnum : p'.numWorkers = t.numWorkers) (hactive : p'.activeWorkers = t.activeWorkers.erase w)
    (havail : p'.availableWorkers = t.availableWorkers ++ [w]) : Staffed (t.after i p' (.idle w) []) := by
  have hbusy : ∀ w', (t.after i p' (.idle w) []).busy w' + (if w = w' then 1 else 0) = t.busy w' := by
    intro w'
    have h := after_busy hi p' (.idle w) [] w'
    simp only [Pc.busy, total, List.map_nil, List.sum_nil, hw] at h
    omega
  have hzero : (t.after i p' (.idle w) []).busy w = 0 := by
    have h := hbusy w
    have hle := ht.busy_le w
    rw [if_pos rfl] at h
    omega
  refine ⟨?_, ?_, ?_, ?_, ?_, ?_, ?_, ?_⟩
  · intro w'
    have h := hbusy w'
    have hle := ht.busy_le w'
    omega
  · intro w' h
    have hne : w' ≠ w := by
      rintro rfl
      omega
    have hemp := ht.employed w' (by have := hbusy w'; omega)
    change w' ∈ p'.activeWorkers ∨ t.main.joins = some w' ∨ (p'.workers w').deleted = true
    rw [hactive, hw]
    exact hemp.imp (fun hmem => (List.mem_erase_of_ne hne).mpr hmem) id
  · intro w' h
    change w' ∈ p'.availableWorkers at h
    rw [havail] at h
    change w' < p'.numWorkers ∧ _
    rw [hnum]
    obtain h | h := List.mem_append.mp h
    · obtain ⟨hlt, h⟩ := ht.available w' h
      have := hbusy w'
      exact ⟨hlt, by omega⟩
    · rw [List.mem_singleton.mp h]
      refine ⟨?_, hzero⟩
      by_contra hlt
      have h := hbusy w
      rw [if_pos rfl, (ht.fresh w (Nat.not_lt.mp hlt)).2] at h
      cases h
  · change p'.availableWorkers.Nodup
    rw [havail]
    refine List.nodup_append.mpr ⟨ht.nodup, List.nodup_singleton w, ?_⟩
    rintro a ha b hb rfl
    rw [List.mem_singleton.mp hb] at ha
    have h := hbusy w
    rw [(ht.available w ha).2, if_pos rfl] at h
    omega
  · intro w' h
    change (p'.workers w').started = false at h
    rw [hw] at h
    refine ⟨(congrArg (Worker.tasks <| · w') hw).trans (ht.stopped w' h).1, fun pc'' hpc'' hw' => ?_⟩
    obtain hpc'' | rfl | hpc'' := mem_after hpc''
    · exact (ht.stopped w' h).2 pc'' hpc'' hw'
    · exact (ht.stopped w' h).2 _ (List.mem_of_getElem? hi) hw'
    · cases hpc''
  · intro w' h
    change (p'.workers w').deleted = true at h
    change (p'.workers w').started = false
    rw [hw] at h ⊢
    exact ht.deleted w' h
  · intro w' h hst
    change (p'.workers w').exit = true at h
    change (p'.workers w').started = true at hst
    rw [hw] at h hst
    exact ht.exit w' h hst
  · intro w' h
    have h := ht.fresh w' (hnum ▸ h)
    refine ⟨(congrArg (Worker.started <| · w') hw).trans h.1, ?_⟩
    have := hbusy w'
    omega

theorem Staffed.hire (ht : Staffed t) (hi : t.threads[i]? = some (.queueSequence s delta))
    (hfree : t.busy w = 0) (hactive : p'.activeWorkers = t.activeWorkers.insert w)
    (hw : w ∉ p'.availableWorkers) (hsub : p'.availableWorkers.Sublist t.availableWorkers)
    (hother : ∀ w', w' ≠ w → p'.workers w' = t.workers w') (htasks : (p'.workers w).tasks = [])
    (hstopped : (p'.workers w).started = false → ∀ pc ∈ t.threads ++ spawned, pc.worker ≠ some w)
    (hdeleted : (p'.workers w).deleted = true → (p'.workers w).started = false)
    (hexit : (p'.workers w).exit = true → (p'.workers w).started = true → ∃ rest, t.main = .joinWorker w rest)
    (hnum : ∀ w', p'.numWorkers ≤ w' → w' ≠ w ∧ t.numWorkers ≤ w') (hspawned : ∀ pc ∈ spawned, pc = .idle w) :
    Staffed (t.after i p' (.runInWorkThread w s delta) spawned) := by
  have hnone : ∀ w', total (Pc.busy w') spawned = 0 := by
    intro w'
    refine List.sum_eq_zero fun x hx => ?_
    obtain ⟨pc, hpc, rfl⟩ := List.mem_map.mp hx
    rw [hspawned pc hpc]
    rfl
  have hself : (t.workers w).tasks = [] := List.length_eq_zero_iff.mp (Nat.eq_zero_of_add_eq_zero hfree).2
  have hbusy : ∀ w', (t.after i p' (.runInWorkThread w s delta) spawned).busy w' =
      t.busy w' + if w = w' then 1 else 0 := by
    intro w'
    have h := after_busy hi p' (.runInWorkThread w s delta) spawned w'
    have htw : (p'.workers w').tasks = (t.workers w').tasks := by
      by_cases hw' : w' = w
      · rw [hw', htasks, hself]
      · rw [hother w' hw']
    rw [hnone, htw] at h
    have hpc : (Pc.queueSequence s delta).busy w' = 0 := rfl
    have hpc' : (Pc.runInWorkThread w s delta).busy w' = if w = w' then 1 else 0 := rfl
    omega
  refine ⟨?_, ?_, ?_, ?_, ?_, ?_, ?_, ?_⟩
  · intro w'
    rw [hbusy]
    split_ifs with hww
    · rw [← hww, hfree]
    · exact ht.busy_le w'
  · intro w' h
    change w' ∈ p'.activeWorkers ∨ t.main.joins = some w' ∨ (p'.workers w').deleted = true
    rw [hactive]
    by_cases hww : w' = w
    · exact Or.inl (hww ▸ List.mem_insert_self)
    · rw [hbusy, if_neg (Ne.symm hww), Nat.add_zero] at h
      rw [hother w' hww]
      exact (ht.employed w' h).imp (fun hmem => List.mem_insert_of_mem hmem) id
  · intro w' h
    have hww : w' ≠ w := fun hww => hw (hww ▸ h)
    rw [hbusy, if_neg (Ne.symm hww)]
    obtain ⟨hlt, h⟩ := ht.available w' (hsub.subset h)
    refine ⟨?_, h⟩
    by_contra hle
    exact absurd (hnum w' (Nat.not_lt.mp hle)).2 (Nat.not_le.mpr hlt)
  · exact hsub.nodup ht.nodup
  · intro w' h
    change (p'.workers w').started = false at h
    change (p'.workers w').tasks = [] ∧ _
    by_cases hww : w' = w
    · subst hww
      refine ⟨htasks, fun pc hpc hpw => ?_⟩
      obtain hpc | rfl | hpc := mem_after hpc
      · exact hstopped h pc (List.mem_append_left _ hpc) hpw
      · cases hpw
      · exact hstopped h pc (List.mem_append_right _ hpc) hpw
    · rw [hother w' hww] at h ⊢
      refine ⟨(ht.stopped w' h).1, fun pc hpc hpw => ?_⟩
      obtain hpc | rfl | hpc := mem_after hpc
      · exact (ht.stopped w' h).2 pc hpc hpw
      · cases hpw
      · rw [hspawned pc hpc] at hpw
        exact hww (Option.some.inj hpw).symm
  · intro w' h
    change (p'.workers w').deleted = true at h
    change (p'.workers w').started = false
    by_cases hww : w' = w
    · subst hww
      exact hdeleted h
    · rw [hother w' hww] at h ⊢
      exact ht.deleted w' h
  · intro w' h hst
    change (p'.workers w').exit = true at h
    change (p'.workers w').started = true at hst
    by_cases hww : w' = w
    · subst hww
      exact hexit h hst
    · rw [hother w' hww] at h hst
      exact ht.exit w' h hst
  · intro w' h
    obtain ⟨hww, hle⟩ := hnum w' h
    rw [hbusy, if_neg (Ne.symm hww)]
    change (p'.workers w').started = false ∧ _
    rw [hother w' hww]
    exact ht.fresh w' hle

theorem after_staffed (ht : Staffed t) (hi : t.threads[i]? = some pc)
    (h : Executes t.toQueuedWorkerPool pc p' pc' spawned) : Staffed (t.after i p' pc' spawned) := by
  have hsame : SameWorkers t.toQueuedWorkerPool t.toQueuedWorkerPool := ⟨rfl, rfl, rfl, rfl⟩
  cases hpc : pc.managesWorkers with
  | false =>
    obtain ⟨hw, rfl, hworker, hbusy⟩ := h.sameWorkers hpc
    exact ht.after_same hi hw (fun _ => hworker ▸ id) fun w => (hbusy w).le
  | true =>
    cases h with
    | queueCrashes | runCrashes | assignTakes => exact ht.after_same hi hsame (fun _ => id) fun _ => le_rfl
    | queueSheds | queueWaits | runDrops | idleExits =>
      exact ht.after_same hi hsame (fun _ h => by cases h) fun _ => Nat.zero_le _
    | assignRefused => exact ht.after_same hi hsame (fun _ => id) fun _ => Nat.zero_le _
    | @queueWakes s delta w _ hav =>
      have hmem : w ∈ t.availableWorkers := List.mem_of_getLast? hav
      have hlast : t.availableWorkers = t.availableWorkers.dropLast ++ [w] := (List.dropLast_append_getLast? w hav).symm
      have hnodup := ht.nodup
      rw [hlast] at hnodup
      have hnot : w ∉ t.availableWorkers.dropLast := fun h =>
        (List.nodup_append.mp hnodup).2.2 w h w (List.mem_singleton_self w) rfl
      obtain ⟨hlt, hzero⟩ := ht.available w hmem
      have htasks := List.length_eq_zero_iff.mp (Nat.eq_zero_of_add_eq_zero hzero).2
      refine ht.hire hi hzero rfl hnot (List.dropLast_sublist _) (fun _ _ => rfl) htasks ?_ (ht.deleted w) (ht.exit w)
        ?_ (fun _ h => by cases h)
      · intro hst
        rw [List.append_nil]
        exact (ht.stopped w hst).2
      · intro w' hle
        exact ⟨Nat.ne_of_gt (hlt.trans_le hle), hle⟩
    | queueHires ok _ hnil =>
      have hfresh := ht.fresh t.numWorkers le_rfl
      refine ht.hire hi hfresh.2 rfl ?_ (List.Sublist.refl _) ?_ ?_ ?_ ?_ ?_ ?_ ?_
      · change t.numWorkers ∉ t.availableWorkers
        rw [hnil]
        exact List.not_mem_nil
      · intro w' hw
        exact Function.update_of_ne hw _ _
      · simp only [Function.update_self]
      · intro hst pc hpc
        simp only [Function.update_self] at hst
        subst hst
        exact (ht.stopped _ hfresh.1).2 pc (List.append_nil t.threads ▸ hpc)
      · simp only [Function.update_self]
        rintro ⟨⟩
      · simp only [Function.update_self]
        rintro ⟨⟩
      · intro w' hle
        have hlt : t.numWorkers < w' := hle
        exact ⟨Nat.ne_of_gt hlt, Nat.le_of_lt hlt⟩
      · intro pc hpc
        cases ok
        · cases hpc
        · exact List.mem_singleton.mp hpc
    | runQueues hst =>
      refine ht.after_tasks hi hst (fun _ h => by cases h) ?_ fun _ _ => Nat.zero_le _
      simp only [List.length_append, List.length_singleton, Pc.busy, if_true]
      omega
    | @idleTakes w s rest hq =>
      have hst : (t.workers w).started = true := by
        rw [← Bool.not_eq_false]
        intro hst
        rw [(ht.stopped w hst).1] at hq
        cases hq
      refine ht.after_tasks hi hst (fun _ => id) ?_ fun w' hw => ?_
      · simp only [hq, List.length_cons, Pc.busy, if_true]
        omega
      · simp only [Pc.busy, if_neg (Ne.symm hw), le_refl]
    | assignRetires => exact ht.retire hi rfl rfl rfl rfl
    | drainFunction hd | drainStops hd | drainDone hd => cases hd <;> cases hpc
    | _ => cases hpc

end Thread

section Main

variable {t : State} {p' : QueuedWorkerPool} {m' : MainPc}

theorem Staffed.main (ht : Staffed t) (hw : p'.workers = t.workers) (hnum : p'.numWorkers = t.numWorkers)
    (hactive : ∀ w ∈ t.activeWorkers, w ∈ p'.activeWorkers ∨ m'.joins = some w)
    (havail : p'.availableWorkers.Sublist t.availableWorkers)
    (hjoins : ∀ w, t.main.joins = some w → m'.joins = some w ∨ (t.workers w).deleted = true)
    (hexit : ∀ w rest, t.main ≠ .joinWorker w rest) :
    Staffed { t with toQueuedWorkerPool := p', main := m' } := by
  have hbusy : ∀ w, State.busy { t with toQueuedWorkerPool := p', main := m' } w = t.busy w := by
    intro w
    unfold State.busy
    rw [hw]
  refine ⟨?_, ?_, ?_, havail.nodup ht.nodup, ?_, ?_, ?_, ?_⟩
  · intro w
    rw [hbusy]
    exact ht.busy_le w
  · intro w h
    rw [hbusy] at h
    change w ∈ p'.activeWorkers ∨ m'.joins = some w ∨ (p'.workers w).deleted = true
    rw [hw]
    obtain h | h | h := ht.employed w h
    · exact (hactive w h).imp id Or.inl
    · exact Or.inr (hjoins w h)
    · exact Or.inr (Or.inr h)
  · intro w h
    rw [hbusy]
    change w < p'.numWorkers ∧ _
    rw [hnum]
    exact ht.available w (havail.subset h)
  · change ∀ w, (p'.workers w).started = false → (p'.workers w).tasks = [] ∧ _
    rw [hw]
    exact ht.stopped
  · change ∀ w, (p'.workers w).deleted = true → (p'.workers w).started = false
    rw [hw]
    exact ht.deleted
  · change ∀ w, (p'.workers w).exit = true → (p'.workers w).started = true → _
    rw [hw]
    intro w h hst
    obtain ⟨rest, hmain⟩ := ht.exit w h hst
    exact absurd hmain (hexit w rest)
  · intro w h
    rw [hbusy]
    change (p'.workers w).started = false ∧ _
    rw [hw]
    exact ht.fresh w (hnum ▸ h)

theorem Staffed.main_worker {w : ℕ} {v : Worker} (ht : Staffed t)
    (htasks : v.tasks = [] ∨ v.tasks = (t.workers w).tasks)
    (hstarted : v.started = true → (t.workers w).started = true)
    (hstopped : v.started = false → v.tasks = [] ∧ ∀ pc ∈ t.threads, pc.worker ≠ some w)
    (hdeleted : v.deleted = true → v.started = false)
    (hjoins : t.main.joins = some w → m'.joins = some w ∨ v.deleted = true)
    (hkept : (t.workers w).deleted = true → v.deleted = true)
    (hone : ∀ w', t.main.joins = some w' → w' = w)
    (hexit : v.exit = true → v.started = true → ∃ rest, m' = .joinWorker w rest)
    (hmain : ∀ w' rest, t.main = .joinWorker w' rest → w' = w) :
    Staffed { t with toQueuedWorkerPool := t.setWorker w v, main := m' } := by
  have hself : (t.setWorker w v).workers w = v := Function.update_self _ _ _
  have hother : ∀ w', w' ≠ w → (t.setWorker w v).workers w' = t.workers w' :=
    fun w' hw => Function.update_of_ne hw _ _
  have hworker : ∀ Q : ℕ → Worker → Prop, Q w v → (∀ w', w' ≠ w → Q w' (t.workers w')) →
      ∀ w', Q w' ((t.setWorker w v).workers w') := by
    intro Q hw hrest w'
    by_cases h : w' = w
    · rw [h, hself]
      exact hw
    · rw [hother w' h]
      exact hrest w' h
  have hbusy : ∀ w', State.busy { t with toQueuedWorkerPool := t.setWorker w v, main := m' } w' ≤ t.busy w' := by
    intro w'
    unfold State.busy
    by_cases hw : w' = w
    · subst hw
      rw [hself]
      obtain h | h := htasks
      · rw [h]
        exact Nat.le_add_right _ _
      · rw [h]
    · rw [hother w' hw]
  refine ⟨?_, ?_, ?_, ht.nodup, ?_, ?_, ?_, ?_⟩
  · intro w'
    exact (hbusy w').trans (ht.busy_le w')
  · intro w' h
    have hemp := ht.employed w' (h.trans_le (hbusy w'))
    change w' ∈ t.activeWorkers ∨ m'.joins = some w' ∨ ((t.setWorker w v).workers w').deleted = true
    by_cases hw : w' = w
    · subst hw
      rw [hself]
      obtain h | h | h := hemp
      · exact Or.inl h
      · exact Or.inr (hjoins h)
      · exact Or.inr (Or.inr (hkept h))
    · rw [hother w' hw]
      obtain h | h | h := hemp
      · exact Or.inl h
      · exact absurd (hone w' h) hw
      · exact Or.inr (Or.inr h)
  · intro w' h
    obtain ⟨hlt, h⟩ := ht.available w' h
    exact ⟨hlt, Nat.le_zero.mp (h ▸ hbusy w')⟩
  · exact hworker (fun w' x => x.started = false → x.tasks = [] ∧ ∀ pc ∈ t.threads, pc.worker ≠ some w') hstopped
      fun w' _ => ht.stopped w'
  · exact hworker (fun _ x => x.deleted = true → x.started = false) hdeleted fun w' _ => ht.deleted w'
  · refine hworker (fun w' x => x.exit = true → x.started = true → ∃ rest, m' = .joinWorker w' rest) hexit
      fun w' hw h hst => ?_
    obtain ⟨rest, hrest⟩ := ht.exit w' h hst
    exact absurd (hmain w' rest hrest) hw
  · intro w' h
    obtain ⟨hst, hzero⟩ := ht.fresh w' h
    refine ⟨?_, Nat.le_zero.mp (hzero ▸ hbusy w')⟩
    refine hworker (fun w' x => (t.workers w').started = false → x.started = false) (fun hst => ?_) (fun _ _ => id) w' hst
    rw [← Bool.not_eq_true]
    intro hv
    rw [hstarted hv] at hst
    cases hst

theorem main_staffed (ht : Staffed t) (h : ExecutesMain t.toQueuedWorkerPool t.threads t.main p' m') :
    Staffed { t with toQueuedWorkerPool := p', main := m' } := by
  generalize hmain : t.main = m at h
  have hsame : SameWorkers t.toQueuedWorkerPool p' → (∀ w, m.joins ≠ some w) →
      (∀ w rest, m ≠ .joinWorker w rest) → Staffed { t with toQueuedWorkerPool := p', main := m' } := by
    rintro ⟨hw, hn, hactive, havail⟩ hjoins hexit
    refine ht.main hw hn ?_ (havail ▸ List.Sublist.refl _) ?_ (hmain ▸ hexit)
    · intro w h
      exact Or.inl (hactive ▸ h)
    · intro w h
      exact absurd (hmain ▸ h) (hjoins w)
  have hone : ∀ {w rest}, m = .shutDownWorker w rest ∨ m = .joinWorker w rest → ∀ w', t.main.joins = some w' → w' = w := by
    intro w rest hm w' hw
    rw [hmain] at hw
    obtain rfl | rfl := hm <;> cases rest <;> cases hw <;> rfl
  cases h with
  | cutsAndDrains | waitActive | drain =>
    exact hsame (waitDrain_sameWorkers _ _ _).1 (fun _ h => by cases h) fun _ _ h => by cases h
  | updateWaveform => exact hsame (waveform_same _ _ _).1 (fun _ h => by cases h) fun _ _ h => by cases h
  | @joinsActive w =>
    refine ht.main rfl rfl (fun x hx => ?_) (List.Sublist.refl _) ?_ ?_
    · by_cases hxw : x = w
      · exact Or.inr (congrArg some hxw.symm)
      · exact Or.inl ((List.mem_erase_of_ne hxw).mpr hx)
    · rw [hmain]
      rintro _ ⟨⟩
    · rw [hmain]
      rintro _ _ ⟨⟩
  | completes =>
    refine ht.main rfl rfl (fun _ h => Or.inl h) (List.nil_sublist _) ?_ ?_
    · rw [hmain]
      rintro _ ⟨⟩
    · rw [hmain]
      rintro _ _ ⟨⟩
  | @deletes w rest hv =>
    have hst : (t.workers w).started = false := by
      cases hst : (t.workers w).started with
      | false => rfl
      | true =>
        rw [hst, Bool.not_true, Bool.or_false] at hv
        obtain ⟨rest', hmain'⟩ := ht.exit w hv hst
        cases hmain.symm.trans hmain'
    exact ht.main_worker (Or.inr rfl) id (fun _ => ht.stopped w hst) (fun _ => hst) (fun _ => Or.inr rfl)
      (fun _ => rfl) (hone (Or.inl rfl)) (fun _ h => by rw [hst] at h; cases h) fun w' rest' h => by
        cases hmain.symm.trans h
  | @exits w rest =>
    refine ht.main_worker (Or.inr rfl) id (ht.stopped w) (ht.deleted w) (fun hj => Or.inl ?_) id (hone (Or.inl rfl))
      (fun _ _ => ⟨rest, rfl⟩) fun w' rest' h => by cases hmain.symm.trans h
    rw [hmain] at hj
    cases rest <;> cases hj
    rfl
  | @joins w rest hnone =>
    refine ht.main_worker (Or.inl rfl) (fun h => by cases h) (fun _ => ⟨rfl, hnone⟩) (fun _ => rfl) (fun _ => Or.inr rfl)
      (fun _ => rfl) (hone (Or.inr rfl)) (fun _ h => by cases h) fun w' rest' hw => ?_
    cases hmain.symm.trans hw
    rfl
  | _ => exact hsame ⟨rfl, rfl, rfl, rfl⟩ (fun _ h => by cases h) fun _ _ h => by cases h

end Main

theorem step_staffed {t : State} {a : Action} (ht : Staffed t) (h : step t a = some t') : Staffed t' := by
  obtain ⟨pc, passed, hpc, -, -, rfl⟩ | ⟨s, n, rfl⟩ | ⟨hmain, rfl⟩ | ⟨i, ok, pc, p', pc', spawned, -, hi, hexec, rfl⟩ |
    ⟨p', m', hexec, rfl⟩ := step_cases h
  · have hworker : pc.worker = none ∧ ∀ w, pc.busy w = 0 := by
      cases pc <;> first | exact ⟨rfl, fun _ => rfl⟩ | cases hpc
    have hbusy : ∀ w, State.busy { t with threads := t.threads ++ [pc], passed := passed } w = t.busy w := by
      intro w
      unfold State.busy
      have hone : total (Pc.busy w) [pc] = 0 := by simp [total, hworker.2]
      rw [total_append, hone, Nat.add_zero]
    refine ⟨?_, ?_, ?_, ht.nodup, ?_, ht.deleted, ht.exit, ?_⟩
    · intro w
      rw [hbusy]
      exact ht.busy_le w
    · intro w h
      rw [hbusy] at h
      exact ht.employed w h
    · intro w h
      rw [hbusy]
      exact ht.available w h
    · intro w h
      refine ⟨(ht.stopped w h).1, fun pc' hpc' => ?_⟩
      obtain hpc' | hpc' := List.mem_append.mp hpc'
      · exact (ht.stopped w h).2 pc' hpc'
      · rw [List.mem_singleton.mp hpc', hworker.1]
        rintro ⟨⟩
    · intro w h
      rw [hbusy]
      exact ht.fresh w h
  · exact ⟨ht.busy_le, ht.employed, ht.available, ht.nodup, ht.stopped, ht.deleted, ht.exit, ht.fresh⟩
  · refine ht.main rfl rfl (fun _ h => Or.inl h) (List.Sublist.refl _) ?_ ?_
    · intro w h
      rw [hmain] at h
      cases h
    · intro w rest h
      rw [hmain] at h
      cases h
  · exact after_staffed ht hi hexec
  · exact main_staffed ht hexec

theorem busy_of_hand {pc : Pc} {w : ℕ} (hw : pc.worker = some w) (hhand : pc.hand ≠ 0) : pc.busy w = 1 := by
  cases pc <;> first | exact absurd rfl hhand | cases hw
  all_goals exact if_pos rfl

theorem hand_of_complete {t : State} (hstaffed : Staffed t) (hstaged : Staged t) (hmain : t.main = .complete) {pc : Pc}
    (hpc : pc ∈ t.threads) {w : ℕ} (hw : pc.worker = some w) : pc.hand = 0 := by
  by_contra hhand
  have hbusy : 0 < t.busy w := by
    obtain ⟨i, hi⟩ := List.mem_iff_getElem?.mp hpc
    obtain ⟨r, hr, -⟩ := total_set hi (Pc.busy w)
    rw [busy_of_hand hw hhand] at hr
    unfold State.busy
    omega
  obtain h | h | h := hstaffed.employed w hbusy
  · rw [hstaged.joined (by rw [hmain]; rfl)] at h
    cases h
  · rw [hmain] at h
    cases h
  · exact (hstaffed.stopped w (hstaffed.deleted w h)).2 pc hpc hw

theorem settled_of_complete {t : State} (hstaged : Staged t) (hmain : t.main = .complete) :
    t.settled = (t.ran : Multiset Func) + (t.cancelled : Multiset Func) := by
  unfold settled
  have hsum : ∑ s ∈ Finset.range t.numSequences, ((t.sequences s).workQueue : Multiset Func) = 0 := by
    refine Finset.sum_eq_zero fun s _ => ?_
    rw [hstaged.emptied s (by rw [hmain]; trivial)]
    rfl
  rw [hsum, zero_add]

def State.clientHand (t : State) : Multiset Func :=
  total Pc.hand (t.threads.filter fun pc => pc.worker.isNone)

def MainPc.rests : MainPc → Bool
  | .notStarted | .waitSequence 0 | .complete => true
  | _ => false

def State.AtRest (t : State) : Prop :=
  (∀ pc ∈ t.threads, pc = .done ∨ ∃ w, pc = .idle w) ∧ t.main.rests = true

theorem AtRest.delta {t : State} (h : t.AtRest) (s : ℕ) :
    total (Pc.delta s) t.threads = 0 ∧ t.main.delta s = 0 := by
  constructor
  · refine List.sum_eq_zero fun x hx => ?_
    obtain ⟨pc, hpc, rfl⟩ := List.mem_map.mp hx
    obtain rfl | ⟨w, rfl⟩ := h.1 pc hpc <;> rfl
  · have hrests := h.2
    cases hmain : t.main <;> rw [hmain] at hrests <;> first | rfl | cases hrests

theorem run_invariants {maxWorkers : ℕ} {loadSheddingThreshold : Option ℕ} {queueSize : Bool} {as : List Action}
    {t : State} (h : Machine.run step (State.new maxWorkers loadSheddingThreshold queueSize) as = some t) :
    Conserved t ∧ Staged t ∧ Staffed t := by
  have hinv : ∀ t a t', True → Conserved t ∧ Staged t ∧ Staffed t → step t a = some t' →
      Conserved t' ∧ Staged t' ∧ Staffed t' := by
    rintro t a t' - ⟨hcons, hstaged, hstaffed⟩ hstep
    exact ⟨step_conserved hcons hstep, step_staged hstaged hcons.unallocated hstep, step_staffed hstaffed hstep⟩
  exact Machine.run_invariant hinv ⟨new_conserved _ _ _, new_staged _ _ _, new_staffed _ _ _⟩ (Machine.meets_true as) h

/-- Once the shutdown is complete every function passed to `Add` has been run or cancelled once, up to those
that a call of a client still has in hand; and at rest the deltas sent make up the length of the queue. -/
theorem functions_and_deltas_conserved (maxWorkers : ℕ) (loadSheddingThreshold : Option ℕ) (queueSize : Bool)
    (as : List Action) (t : State)
    (h : Machine.run step (State.new maxWorkers loadSheddingThreshold queueSize) as = some t) :
    (t.main = .complete → ∀ f, t.passed.count f = t.ran.count f + t.cancelled.count f + t.clientHand.count f) ∧
      (t.AtRest → t.queueSize = true → ∀ s, (t.sequences s).waveform = (t.sequences s).workQueue.length) := by
  obtain ⟨hcons, hstaged, hstaffed⟩ := run_invariants h
  constructor
  · intro hmain f
    have hclient : t.clientHand = total Pc.hand t.threads := by
      refine total_filter fun pc hpc hworker => ?_
      obtain ⟨w, hw⟩ := Option.isSome_iff_exists.mp (by simpa using hworker)
      exact hand_of_complete hstaffed hstaged hmain hpc hw
    have hf := hcons.functions
    rw [settled_of_complete hstaged hmain, ← hclient, hmain] at hf
    have hcount := congrArg (Multiset.count f) hf
    simpa [MainPc.hand] using hcount
  · intro hrest hqs s
    obtain ⟨hthreads, hmain⟩ := AtRest.delta hrest s
    have hd := hcons.deltas hqs s
    rw [hthreads, hmain] at hd
    unfold gap at hd
    omega

def interruptedRun : List Action :=
  [.newSequence, .thread 0 true, .add 0 7, .thread 1 true, .thread 1 true, .thread 1 true, .thread 1 true,
    .add 0 8, .thread 3 true, .thread 2 true, .thread 2 true, .thread 2 true, .thread 2 true, .thread 3 true,
    .shutDown, .main 0, .main 0, .main 0, .main 0, .thread 2 true, .thread 2 true, .thread 2 true, .thread 2 true,
    .thread 2 true, .thread 2 true, .main 0, .main 0, .main 0, .main 0, .main 0, .thread 2 true, .main 0,
    .main 0, .main 0]

theorem functions_and_deltas_conserved_interrupted : ∃ t,
    Machine.run step (State.new 1 none true) interruptedRun = some t ∧ t.main = .complete ∧ t.ran = [7] ∧
      t.cancelled = [8] ∧
      ((t.main = .complete →
          ∀ f, t.passed.count f = t.ran.count f + t.cancelled.count f + t.clientHand.count f) ∧
        (t.AtRest → t.queueSize = true →
          ∀ s, (t.sequences s).waveform = (t.sequences s).workQueue.length)) :=
  ⟨_, rfl, rfl, rfl, rfl, functions_and_deltas_conserved 1 none true interruptedRun _ rfl⟩

/-- `Add` is refused by the shutdown and has not yet cancelled its function when the shutdown completes. -/
theorem add_not_cancelled_by_shut_down : ∃ t,
    Machine.run step (State.new 1 none true)
      [.newSequence, .thread 0 true, .add 0 7, .shutDown, .main 0, .main 0, .main 0, .thread 1 true, .main 0, .main 0,
        .main 0, .main 0, .main 0] = some t ∧
      t.main = .complete ∧ t.passed = [7] ∧ t.ran = [] ∧ t.cancelled = [] :=
  ⟨_, rfl, rfl, rfl, rfl, rfl⟩

end PageSpeed.QueuedWorkerPool
