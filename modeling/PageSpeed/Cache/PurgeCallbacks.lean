import PageSpeed.Cache.PurgeContext
import Mathlib.Tactic.Abel

/-!
Every callback of a purge context is run once, and a request for the lock is outstanding
exactly while purges are pending.
-/

namespace PageSpeed.PurgeContext

def Task.callbacks : Task → Multiset PurgeCallback
  | .writePurgeFile u | .verify u | .handleWriteFailure u => u.callbacks
  | .runCallbacks _ _ _ callbacks => callbacks
  | _ => 0

def Task.outstanding : Task → ℕ
  | .waitForTimerAndGrabLock | .alarm | .grabLockAndUpdate | .lockRequest | .readPurgeFile | .modifyPurgeSet _ => 1
  | _ => 0

def Task.Filled : Task → Prop
  | .writePurgeFile u | .verify u | .handleWriteFailure u => u.callbacks ≠ []
  | _ => True

namespace State

variable {c : Config} {s u : State} {i : ℕ} {old new : Task}

def ranCallbacks (s : State) : List PurgeCallback := s.ran.map Ran.callback

def outstanding (s : State) : ℕ := Bag.total Task.outstanding s.tasks

structure Conserved (s : State) : Prop where
  once : (s.pendingCallbacks : Multiset PurgeCallback) + Bag.total Task.callbacks s.tasks +
    (s.ranCallbacks : Multiset PurgeCallback) = (s.requested : Multiset PurgeCallback)
  numbered : s.requested.map PurgeCallback.number = List.range s.requested.length
  outstanding : s.outstanding = if s.waitingForInterprocessLock then 1 else 0
  waiting : s.waitingForInterprocessLock = true ↔ s.pendingCallbacks ≠ []
  filled : ∀ task ∈ s.tasks, task.Filled

structure Moves (s u : State) (old new : Task) : Prop where
  requested : u.requested = s.requested
  callbacks : (u.pendingCallbacks : Multiset PurgeCallback) + new.callbacks + (u.ranCallbacks : Multiset PurgeCallback) =
    s.pendingCallbacks + old.callbacks + (s.ranCallbacks : Multiset PurgeCallback)
  outstanding : new.outstanding + (if s.waitingForInterprocessLock then 1 else 0) =
    old.outstanding + if u.waitingForInterprocessLock then 1 else 0
  waiting : u.waitingForInterprocessLock = true ↔ u.pendingCallbacks ≠ []
  filled : new.Filled

theorem Conserved.task (h : Conserved s) (hold : s.tasks[i]? = some old) (hset : u.tasks = s.tasks.set i new)
    (hm : Moves s u old new) : Conserved u := by
  obtain ⟨r, hs, hr⟩ := Bag.total_set hold Task.callbacks
  obtain ⟨n, hn, hn'⟩ := Bag.total_set hold Task.outstanding
  refine ⟨?_, ?_, ?_, hm.waiting, fun task htask => ?_⟩
  · have honce := h.once
    rw [hset, hr, hm.requested, ← honce, hs]
    have hcallbacks := congrArg (· + r) hm.callbacks
    rw [← add_assoc, ← add_assoc, add_right_comm, add_right_comm (b := r)]
    exact hcallbacks
  · rw [hm.requested]
    exact h.numbered
  · have hsum := h.outstanding
    have houtstanding := hm.outstanding
    unfold State.outstanding at hsum ⊢
    rw [hset, hn']
    rw [hn] at hsum
    omega
  · rw [hset] at htask
    obtain htask | rfl := List.mem_or_eq_of_mem_set htask
    · exact h.filled task htask
    · exact hm.filled

theorem Conserved.waiting_of_outstanding (h : Conserved s) (hold : s.tasks[i]? = some old) (hone : old.outstanding = 1) :
    s.waitingForInterprocessLock = true := by
  obtain ⟨n, hn, -⟩ := Bag.total_set hold Task.outstanding
  have hsum := h.outstanding
  unfold State.outstanding at hsum
  by_contra hnot
  rw [if_neg hnot, hn, hone] at hsum
  omega

theorem Conserved.moves (h : Conserved s) (hrequested : u.requested = s.requested)
    (hpending : u.pendingCallbacks = s.pendingCallbacks) (hran : u.ran = s.ran)
    (hwaiting : u.waitingForInterprocessLock = s.waitingForInterprocessLock) (hcallbacks : new.callbacks = old.callbacks)
    (houtstanding : new.outstanding = old.outstanding) (hfilled : new.Filled) : Moves s u old new := by
  refine ⟨hrequested, ?_, ?_, ?_, hfilled⟩
  · unfold ranCallbacks
    rw [hpending, hran, hcallbacks]
  · rw [hwaiting, houtstanding]
  · rw [hwaiting, hpending]
    exact h.waiting

theorem request_conserved (h : Conserved s) (purge : Purge) (timestampMs : Int64) (sets : PurgeObjects) :
    Conserved ({ (s.request purge).2 with sets := sets }.addCallback (s.request purge).1 timestampMs) := by
  obtain ⟨callback, hcallback⟩ : ∃ callback : PurgeCallback, callback = ⟨s.requested.length, purge⟩ := ⟨_, rfl⟩
  have hnumbered : (s.requested ++ [callback]).map PurgeCallback.number = List.range (s.requested ++ [callback]).length := by
    rw [List.map_append, h.numbered, List.length_append, List.length_singleton, List.range_succ, hcallback]
    rfl
  have hcounted : ∀ tasks, Bag.total Task.callbacks tasks = Bag.total Task.callbacks s.tasks →
      ((s.pendingCallbacks ++ [callback] : List PurgeCallback) : Multiset PurgeCallback) +
        Bag.total Task.callbacks tasks + (s.ranCallbacks : Multiset PurgeCallback) =
          ((s.requested ++ [callback] : List PurgeCallback) : Multiset PurgeCallback) := by
    intro tasks htasks
    rw [htasks, ← Multiset.coe_add, ← Multiset.coe_add, ← h.once]
    abel
  have hne : s.pendingCallbacks ++ [callback] ≠ [] := List.append_ne_nil_of_right_ne_nil _ (List.cons_ne_nil _ _)
  unfold addCallback request
  rw [← hcallback]
  simp only
  split_ifs with hwaiting
  · exact ⟨hcounted s.tasks rfl, hnumbered, h.outstanding, iff_of_true hwaiting hne, h.filled⟩
  · refine ⟨hcounted _ ?_, hnumbered, ?_, iff_of_true rfl hne, fun task htask => ?_⟩
    · rw [Bag.total_append]
      exact add_zero _
    · have hsum := h.outstanding
      rw [if_neg hwaiting] at hsum
      unfold State.outstanding at hsum ⊢
      rw [Bag.total_append, hsum]
      rfl
    · obtain htask | htask := List.mem_append.mp htask
      · exact h.filled task htask
      · rw [List.mem_singleton.mp htask]
        trivial

theorem setCachePurgeGlobalTimestampMs_conserved {timestampMs : Int64} (h : Conserved s)
    (hu : s.setCachePurgeGlobalTimestampMs timestampMs = some u) : Conserved u := by
  obtain ⟨sets, -, rfl⟩ := Option.map_eq_some_iff.mp hu
  exact request_conserved h _ timestampMs sets

theorem addPurgeUrl_conserved {url : GoogleString} {timestampMs : Int64} (h : Conserved s)
    (hu : s.addPurgeUrl c url timestampMs = some u) : Conserved u := by
  unfold addPurgeUrl at hu
  simp only at hu
  split_ifs at hu
  · obtain ⟨sets, -, rfl⟩ := Option.map_eq_some_iff.mp hu
    exact request_conserved h _ timestampMs sets
  · obtain rfl := Option.some.inj hu
    refine ⟨?_, ?_, h.outstanding, h.waiting, h.filled⟩
    · unfold ranCallbacks request
      simp only [List.map_append, List.map_cons, List.map_nil, ← Multiset.coe_add]
      rw [← h.once]
      unfold ranCallbacks
      abel
    · unfold request
      simp only
      rw [List.map_append, h.numbered, List.length_append, List.length_singleton, List.range_succ]
      rfl

theorem read_conserved {ok : Bool} (h : Conserved s) (hold : s.tasks[i]? = some .readPurgeFile)
    (hu : s.read c i ok = some u) : Conserved u := by
  obtain ⟨r, -, rfl⟩ := Option.map_eq_some_iff.mp hu
  exact h.task hold rfl (h.moves rfl rfl rfl rfl rfl rfl trivial)

theorem contention_conserved {v : Update} (h : Conserved s) (hold : s.tasks[i]? = some old)
    (hcallbacks : old.callbacks = v.callbacks) (houtstanding : old.outstanding = 0) (hne : v.callbacks ≠ []) :
    Conserved (s.contention i v) :=
  h.task hold rfl (h.moves rfl rfl rfl rfl hcallbacks.symm houtstanding.symm hne)

theorem modifyPurgeSet_conserved {purges : PurgeSet} (h : Conserved s)
    (hold : s.tasks[i]? = some (.modifyPurgeSet purges)) (hu : s.modifyPurgeSet c i purges = some u) :
    Conserved u := by
  obtain ⟨merged, -, rfl⟩ := Option.map_eq_some_iff.mp hu
  have hwaiting := h.waiting_of_outstanding hold rfl
  refine h.task hold rfl ⟨rfl, ?_, ?_, iff_of_false Bool.false_ne_true (not_not_intro rfl), h.waiting.mp hwaiting⟩
  · change (0 : Multiset PurgeCallback) + s.pendingCallbacks + s.ranCallbacks = s.pendingCallbacks + 0 + s.ranCallbacks
    abel
  · rw [if_pos hwaiting]
    rfl

theorem cancelCachePurgeFile_conserved (h : Conserved s) (hold : s.tasks[i]? = some old)
    (hcallbacks : old.callbacks = 0) (hone : old.outstanding = 1) : Conserved (s.cancelCachePurgeFile i) := by
  have hwaiting := h.waiting_of_outstanding hold hone
  refine h.task hold rfl ⟨rfl, ?_, ?_, iff_of_false Bool.false_ne_true (not_not_intro rfl), trivial⟩
  · rw [hcallbacks]
    change (0 : Multiset PurgeCallback) + s.pendingCallbacks + s.ranCallbacks = s.pendingCallbacks + 0 + s.ranCallbacks
    abel
  · rw [if_pos hwaiting, hone]
    rfl

theorem handleWriteFailure_conserved {v : Update} (h : Conserved s)
    (hold : s.tasks[i]? = some (.handleWriteFailure v)) (hu : s.handleWriteFailure i v = some u) : Conserved u := by
  have hne : v.callbacks ≠ [] := h.filled _ (List.mem_of_getElem? hold)
  unfold handleWriteFailure at hu
  simp only at hu
  split_ifs at hu with hretry hwaiting hnone
  · obtain ⟨sets, -, rfl⟩ := Option.map_eq_some_iff.mp hu
    refine h.task hold rfl ⟨rfl, ?_, rfl, iff_of_true hwaiting (List.append_ne_nil_of_right_ne_nil _ hne), trivial⟩
    change ((s.pendingCallbacks ++ v.callbacks : List PurgeCallback) : Multiset PurgeCallback) + 0 + s.ranCallbacks = _
    rw [add_zero, ← Multiset.coe_add]
    rfl
  · obtain rfl := Option.some.inj hu
    refine h.task hold rfl ⟨rfl, ?_, ?_, iff_of_true rfl hne, trivial⟩
    · rw [hnone]
      change (v.callbacks : Multiset PurgeCallback) + 0 + s.ranCallbacks = 0 + v.callbacks + s.ranCallbacks
      abel
    · rw [if_neg hwaiting]
      rfl
  · exact absurd (h.waiting.mpr hnone) hwaiting
  · obtain rfl := Option.some.inj hu
    exact h.task hold rfl (h.moves rfl rfl rfl rfl rfl rfl trivial)

theorem proceed_conserved (h : Conserved s) (hold : s.tasks[i]? = some old) (hu : s.proceed c i old = some u) :
    Conserved u := by
  have hfilled := h.filled old (List.mem_of_getElem? hold)
  cases old with
  | waitForTimerAndGrabLock =>
    obtain rfl := Option.some.inj hu
    refine h.task hold rfl (h.moves rfl rfl rfl rfl ?_ ?_ ?_)
    · split_ifs <;> rfl
    · split_ifs <;> rfl
    · split_ifs <;> trivial
  | alarm =>
    obtain rfl := Option.some.inj hu
    exact h.task hold rfl (h.moves rfl rfl rfl rfl rfl rfl trivial)
  | grabLockAndUpdate =>
    obtain rfl := Option.some.inj hu
    exact h.task hold rfl (h.moves rfl rfl rfl rfl rfl rfl trivial)
  | lockRequest =>
    obtain rfl := Option.some.inj hu
    exact h.task hold rfl (h.moves rfl rfl rfl rfl rfl rfl trivial)
  | readPurgeFile => exact read_conserved h hold hu
  | modifyPurgeSet purges => exact modifyPurgeSet_conserved h hold hu
  | writePurgeFile v =>
    obtain rfl := Option.some.inj hu
    exact h.task hold rfl (h.moves rfl rfl rfl rfl rfl rfl hfilled)
  | verify v =>
    obtain rfl := Option.some.inj hu
    unfold verify
    by_cases hsame : s.file.map File.contents = some v.buffer
    · rw [if_pos hsame]
      exact h.task hold rfl (h.moves rfl rfl rfl rfl rfl rfl trivial)
    · rw [if_neg hsame]
      exact contention_conserved h hold rfl rfl hfilled
  | handleWriteFailure v => exact handleWriteFailure_conserved h hold hu
  | runCallbacks success message verified callbacks =>
    cases callbacks with
    | nil => cases hu
    | cons callback callbacks =>
      obtain rfl := Option.some.inj hu
      refine h.task hold rfl ⟨rfl, ?_, rfl, h.waiting, trivial⟩
      unfold ranCallbacks
      simp only [List.map_append, List.map_cons, List.map_nil, ← Multiset.coe_add]
      change (s.pendingCallbacks : Multiset PurgeCallback) + callbacks + (_ + {callback}) =
        s.pendingCallbacks + (callback ::ₘ (callbacks : Multiset PurgeCallback)) + _
      rw [← Multiset.singleton_add]
      abel

theorem fail_conserved (h : Conserved s) (hold : s.tasks[i]? = some old) (hu : s.fail c i old = some u) :
    Conserved u := by
  have hfilled := h.filled old (List.mem_of_getElem? hold)
  unfold fail at hu
  split at hu
  next => exact read_conserved h hold hu
  next v =>
    obtain rfl := Option.some.inj hu
    have hcount : Conserved s.countWrite := ⟨h.once, h.numbered, h.outstanding, h.waiting, h.filled⟩
    exact contention_conserved hcount hold rfl rfl hfilled
  next v =>
    obtain rfl := Option.some.inj hu
    exact contention_conserved h hold rfl rfl hfilled
  next => cases hu

theorem step_conserved {a : Action} (h : Conserved s) (hu : step c s a = some u) : Conserved u := by
  cases a with
  | addPurgeUrl url timestampMs => exact addPurgeUrl_conserved h hu
  | setCachePurgeGlobalTimestampMs timestampMs => exact setCachePurgeGlobalTimestampMs_conserved h hu
  | proceed i =>
    obtain ⟨old, hold, hu⟩ := Option.bind_eq_some_iff.mp hu
    exact proceed_conserved h hold hu
  | fail i =>
    obtain ⟨old, hold, hu⟩ := Option.bind_eq_some_iff.mp hu
    exact fail_conserved h hold hu
  | cancel i =>
    obtain ⟨old, hold, hu⟩ := Option.bind_eq_some_iff.mp hu
    unfold cancel at hu
    split at hu
    next =>
      obtain rfl := Option.some.inj hu
      exact cancelCachePurgeFile_conserved h hold rfl rfl
    next =>
      obtain rfl := Option.some.inj hu
      exact cancelCachePurgeFile_conserved h hold rfl rfl
    next => cases hu
  | returnUpdate k =>
    obtain ⟨-, ⟨⟩⟩ := Option.ite_none_right_eq_some.mp hu
    exact ⟨h.once, h.numbered, h.outstanding, h.waiting, h.filled⟩
  | writeFile file =>
    obtain rfl := Option.some.inj hu
    exact ⟨h.once, h.numbered, h.outstanding, h.waiting, h.filled⟩
  | setNowMs nowMs =>
    obtain rfl := Option.some.inj hu
    exact ⟨h.once, h.numbered, h.outstanding, h.waiting, h.filled⟩

theorem new_conserved (c : Config) (file : Option File) : Conserved (State.new c file) :=
  ⟨rfl, rfl, rfl, iff_of_false Bool.false_ne_true (not_not_intro rfl), nofun⟩

def Idle (s : State) : Prop := ∀ task ∈ s.tasks, ∃ success message verified, task = .runCallbacks success message verified []

structure RunOnce (s : State) : Prop where
  once : ∀ callback ∈ s.requested, s.pendingCallbacks.count callback + (Bag.total Task.callbacks s.tasks).count callback +
    s.ranCallbacks.count callback = 1
  only : ∀ callback ∈ s.ranCallbacks, callback ∈ s.requested
  idle : s.Idle → s.ranCallbacks.Perm s.requested

structure Waiting (s : State) : Prop where
  outstanding : s.outstanding = if s.waitingForInterprocessLock then 1 else 0
  pending : s.waitingForInterprocessLock = true ↔ s.pendingCallbacks ≠ []
  iff : s.waitingForInterprocessLock = true ↔ s.outstanding = 1 ∧ s.pendingCallbacks ≠ []

theorem Conserved.runOnce (h : Conserved s) : RunOnce s := by
  have hnodup : s.requested.Nodup := by
    refine List.Nodup.of_map PurgeCallback.number ?_
    rw [h.numbered]
    exact List.nodup_range
  refine ⟨fun callback hmem => ?_, fun callback hmem => ?_, fun hidle => ?_⟩
  · have hcount := congrArg (Multiset.count callback) h.once
    simp only [Multiset.count_add, Multiset.coe_count] at hcount
    rw [hcount]
    exact List.count_eq_one_of_mem hnodup hmem
  · have hsub : callback ∈ (s.requested : Multiset PurgeCallback) := by
      rw [← h.once]
      exact Multiset.mem_add.mpr (Or.inr hmem)
    exact hsub
  · have hzero : Bag.total Task.callbacks s.tasks = 0 := by
      refine List.sum_eq_zero fun m hm => ?_
      obtain ⟨task, htask, rfl⟩ := List.mem_map.mp hm
      obtain ⟨success, message, verified, rfl⟩ := hidle task htask
      rfl
    have hnone : s.outstanding = 0 := by
      refine List.sum_eq_zero fun m hm => ?_
      obtain ⟨task, htask, rfl⟩ := List.mem_map.mp hm
      obtain ⟨success, message, verified, rfl⟩ := hidle task htask
      rfl
    have hpending : s.pendingCallbacks = [] := by
      by_contra hne
      have hone := h.outstanding
      rw [if_pos (h.waiting.mpr hne), hnone] at hone
      cases hone
    have honce := h.once
    rw [hzero, hpending] at honce
    refine Multiset.coe_eq_coe.mp (Eq.trans ?_ honce)
    exact (zero_add _).symm

theorem Conserved.waits (h : Conserved s) : Waiting s := by
  refine ⟨h.outstanding, h.waiting, fun hw => ⟨?_, h.waiting.mp hw⟩, fun hw => h.waiting.mpr hw.2⟩
  rw [h.outstanding, if_pos hw]

end State

end PageSpeed.PurgeContext
