import PageSpeed.Cache.PurgeCallbacks
import PageSpeed.Cache.PurgeRequests

/-!
When a callback of a purge context that is run with success has its purge in the file. Sets
that an update has taken are kept in order with the pending one, to which they may go back.
-/

namespace PageSpeed.PurgeContext

open PurgeSet PurgeFile PurgeObjects

def Purge.Holds (purge : Purge) (P : GoogleString → Int64 → Prop) : Prop :=
  match purge with
  | .url key timestampMs => P key timestampMs
  | .global timestampMs => ∀ key, P key timestampMs

theorem Purge.Holds.mono {purge : Purge} {P Q : GoogleString → Int64 → Prop} (h : purge.Holds P)
    (hPQ : ∀ key t, P key t → Q key t) : purge.Holds Q := by
  cases purge with
  | url key timestampMs => exact hPQ key timestampMs h
  | global timestampMs => exact fun key => hPQ key timestampMs (h key)

def Effective (c : Config) (v : Verified) (purge : Purge) : Prop :=
  ∃ n s, readBuffer c.text c.maxBytesInCache v.nowMs v.contents = some (n, s) ∧ purge.Holds fun url t => s.isValid url t = false

def Task.numbers (task : Task) : Multiset ℕ :=
  match task.update with
  | some u => {u.returnPurges}
  | none => 0

namespace State

def returnPurges (s : State) (u : Update) : PurgeSet := (s.sets.object u.returnPurges).set

structure MergesBack (s : State) (u : Update) : Prop where
  notified : s.sets.notified 0 = 0 ∧ s.dangles = false ∨ MergeEvictless s.pendingPurges (s.returnPurges u)
  latest : ∀ task ∈ s.tasks, ∀ v, task.update = some v → v.returnPurges ≠ u.returnPurges →
    ∀ url t, (s.returnPurges v).Purged url t → ∃ url', s.pendingPurges.Purged url' t ∨ (s.returnPurges u).Purged url' t

def Safe (c : Config) (s : State) : Action → Prop
  | .addPurgeUrl url timestampMs => c.enablePurge = true →
    10 ∉ url ∧ timestampMs.toInt ≤ s.nowMs + clockSkewAllowanceMs.toInt ∧
    (s.pendingPurges.isValid url timestampMs = false ∨
      s.pendingPurges.lastInvalidationTimestampMs.toInt - timestampMs.toInt ≤ clockSkewAllowanceMs.toInt ∧
        url.length + 8 < c.maxBytesInCache) ∧
    (s.sets.notified 0 = 0 ∧ s.dangles = false ∨
      Evictless s.pendingPurges url (stdMax timestampMs s.pendingPurges.lastInvalidationTimestampMs))
  | .setCachePurgeGlobalTimestampMs timestampMs =>
    timestampMs.toInt ≤ s.nowMs + clockSkewAllowanceMs.toInt ∧
    (timestampMs ≤ s.pendingPurges.globalInvalidationTimestampMs ∨
      s.pendingPurges.lastInvalidationTimestampMs.toInt - timestampMs.toInt ≤ clockSkewAllowanceMs.toInt)
  | .proceed i => ∀ task ∈ s.tasks[i]?, match task with
    | .readPurgeFile => c.enablePurge = true ∧ ∀ file ∈ s.file, file.contents.length < 2 ^ 32
    | .verify u => u.buffer.length < 2 ^ 32
    | .handleWriteFailure u =>
      s.numConsecutiveFailures + (u.failures + 1) ≤ kMaxContentionRetries → s.waitingForInterprocessLock = true →
        s.MergesBack u
    | _ => True
  | .setNowMs nowMs => s.latestMs ≤ nowMs + clockSkewAllowanceMs.toInt
  | _ => True

variable {c : Config} {s u : State} {i : ℕ} {old new : Task}

structure Kept (c : Config) (s : State) (v : Update) : Prop where
  ordered : Ordered c.maxBytesInCache
    { s.returnPurges v with lastInvalidationTimestampMs := s.pendingPurges.lastInvalidationTimestampMs }
  newline : ∀ e ∈ (s.returnPurges v).lru.entries, 10 ∉ e.1
  covered : ∀ callback ∈ v.callbacks, callback.purge.Holds (s.returnPurges v).Purged
  number : 0 < v.returnPurges ∧ v.returnPurges ≤ s.updates

structure Written (c : Config) (latestMs : ℤ) (v : Update) (purges : PurgeSet) : Prop where
  ordered : Ordered c.maxBytesInCache purges
  newline : ∀ e ∈ purges.lru.entries, 10 ∉ e.1
  positive : ∀ e ∈ purges.lru.entries, 0 ≤ e.2
  aboveGlobal : purges.AboveGlobal
  last : purges.lastInvalidationTimestampMs.toInt ≤ latestMs
  buffer : v.buffer = writeBuffer c.text purges
  covered : ∀ callback ∈ v.callbacks, callback.purge.Holds purges.Purged

structure Input (c : Config) (latestMs : ℤ) (purges : PurgeSet) : Prop where
  ordered : Ordered c.maxBytesInCache purges
  newline : ∀ e ∈ purges.lru.entries, 10 ∉ e.1
  last : purges.lastInvalidationTimestampMs.toInt ≤ latestMs

def Promised (c : Config) (verified : Option Verified) (callback : PurgeCallback) : Prop :=
  ∃ v, verified = some v ∧ Effective c v callback.purge

def Sound (c : Config) (s : State) : Task → Prop
  | .modifyPurgeSet purges => Input c s.latestMs purges
  | .writePurgeFile v | .verify v => Kept c s v ∧ ∃ purges, Written c s.latestMs v purges
  | .handleWriteFailure v => Kept c s v
  | .runCallbacks success _ verified callbacks => success = true → ∀ callback ∈ callbacks, Promised c verified callback
  | _ => True

structure Good (c : Config) (s : State) : Prop where
  pending : Input c s.latestMs s.pendingPurges
  time : s.latestMs ≤ s.nowMs + clockSkewAllowanceMs.toInt
  positive : 0 ≤ s.latestMs
  covered : ∀ callback ∈ s.pendingCallbacks, callback.purge.Holds s.pendingPurges.Purged
  tasks : ∀ task ∈ s.tasks, Sound c s task
  fresh : ∀ k, s.updates < k → (s.sets.object k).set = .new c.maxBytesInCache
  distinct : (Bag.total Task.numbers s.tasks).Nodup
  ran : ∀ r ∈ s.ran, r.success = true → Promised c r.verified r.callback

theorem ordered_of_purged {maxSize : ℕ} {p : PurgeSet} {a b : Int64}
    (h : Ordered maxSize { p with lastInvalidationTimestampMs := a }) (hb : ∀ url t, p.Purged url t → t ≤ b) :
    Ordered maxSize { p with lastInvalidationTimestampMs := b } :=
  ⟨h.wellFormed, h.maxBytes, h.sorted, fun e he => hb e.1 e.2 (Or.inr ⟨e.2, he, Int64.le_refl _⟩), h.fits,
    hb [] _ (Or.inl (Int64.le_refl _)), h.initial⟩

variable {v : Update} {purges : PurgeSet} {timestampMs : Int64}

theorem Kept.move (h : Kept c s v)
    (hlast : ∀ url t, (s.returnPurges v).Purged url t → t ≤ u.pendingPurges.lastInvalidationTimestampMs)
    (hupdates : s.updates ≤ u.updates) (hsame : u.returnPurges v = s.returnPurges v) : Kept c u v := by
  have hordered := ordered_of_purged h.ordered hlast
  refine ⟨?_, ?_, ?_, h.number.1, h.number.2.trans hupdates⟩
  · rw [hsame]
    exact hordered
  · rw [hsame]
    exact h.newline
  · rw [hsame]
    exact h.covered

theorem Kept.le_last (h : Kept c s v) {url : GoogleString} {t : Int64}
    (ht : (s.returnPurges v).Purged url t) : t ≤ s.pendingPurges.lastInvalidationTimestampMs :=
  purged_le_last h.ordered ht

theorem Written.mono {m n : ℤ} (h : Written c m v purges) (hmn : m ≤ n) :
    Written c n v purges := ⟨h.ordered, h.newline, h.positive, h.aboveGlobal, h.last.trans hmn, h.buffer, h.covered⟩

theorem Input.mono {m n : ℤ} (h : Input c m purges) (hmn : m ≤ n) : Input c n purges :=
  ⟨h.ordered, h.newline, h.last.trans hmn⟩

theorem Sound.kept {task : Task} (h : Sound c s task) (hv : task.update = some v) : Kept c s v := by
  cases task with
  | writePurgeFile w =>
    obtain rfl := Option.some.inj hv
    exact h.1
  | verify w =>
    obtain rfl := Option.some.inj hv
    exact h.1
  | handleWriteFailure w =>
    obtain rfl := Option.some.inj hv
    exact h
  | _ => cases hv

theorem Sound.move {task : Task} (h : Sound c s task) (hlatest : s.latestMs ≤ u.latestMs)
    (hkept : ∀ v, task.update = some v → Kept c u v) : Sound c u task := by
  cases task with
  | modifyPurgeSet purges => exact Input.mono h hlatest
  | writePurgeFile v =>
    obtain ⟨-, purges, hwritten⟩ := h
    exact ⟨hkept v rfl, purges, hwritten.mono hlatest⟩
  | verify v =>
    obtain ⟨-, purges, hwritten⟩ := h
    exact ⟨hkept v rfl, purges, hwritten.mono hlatest⟩
  | handleWriteFailure v => exact hkept v rfl
  | runCallbacks success message verified callbacks => exact h
  | waitForTimerAndGrabLock => trivial
  | alarm => trivial
  | grabLockAndUpdate => trivial
  | lockRequest => trivial
  | readPurgeFile => trivial

theorem Sound.mono {task : Task} (h : Sound c s task)
    (hlast : s.pendingPurges.lastInvalidationTimestampMs ≤ u.pendingPurges.lastInvalidationTimestampMs)
    (hlatest : s.latestMs ≤ u.latestMs) (hupdates : s.updates ≤ u.updates)
    (hsame : ∀ v, task.update = some v → u.returnPurges v = s.returnPurges v) : Sound c u task :=
  h.move hlatest fun v hv =>
    (h.kept hv).move (fun _ _ ht => Int64.le_trans ((h.kept hv).le_last ht) hlast) hupdates (hsame v hv)

theorem returnPurges_of_sets (h : u.sets = s.sets) (v : Update) : u.returnPurges v = s.returnPurges v := by
  unfold returnPurges
  rw [h]

theorem Sound.of_sets {task : Task} (h : Sound c s task) (hsets : u.sets = s.sets) (hlatest : s.latestMs ≤ u.latestMs)
    (hupdates : u.updates = s.updates) : Sound c u task := by
  refine h.mono ?_ hlatest hupdates.ge fun v _ => returnPurges_of_sets hsets v
  unfold pendingPurges
  rw [hsets]
  exact Int64.le_refl _

theorem Good.task (h : Good c s) (hold : s.tasks[i]? = some old) (htasks : u.tasks = s.tasks.set i new)
    (hsets : u.sets = s.sets) (hpending : u.pendingCallbacks = s.pendingCallbacks) (hupdates : u.updates = s.updates)
    (hlatest : s.latestMs ≤ u.latestMs) (htime : u.latestMs ≤ u.nowMs + clockSkewAllowanceMs.toInt)
    (hnumbers : new.numbers ≤ old.numbers) (hnew : Sound c u new)
    (hran : ∀ r ∈ u.ran, r ∈ s.ran ∨ (r.success = true → Promised c r.verified r.callback)) : Good c u := by
  have hpurges : u.pendingPurges = s.pendingPurges := by
    unfold pendingPurges
    rw [hsets]
  refine ⟨?_, htime, h.positive.trans hlatest, ?_, fun task htask => ?_, ?_, ?_, fun r hr => ?_⟩
  · rw [hpurges]
    exact h.pending.mono hlatest
  · rw [hpurges, hpending]
    exact h.covered
  · rw [htasks] at htask
    obtain htask | rfl := List.mem_or_eq_of_mem_set htask
    · exact (h.tasks task htask).of_sets hsets hlatest hupdates
    · exact hnew
  · rw [hsets, hupdates]
    exact h.fresh
  · obtain ⟨r, hs, hset⟩ := Bag.total_set hold Task.numbers
    have hdistinct := h.distinct
    rw [htasks, hset]
    rw [hs] at hdistinct
    exact Multiset.nodup_of_le (add_le_add_left hnumbers r) hdistinct
  · exact (hran r hr).elim (h.ran r) id

theorem addCallback_good {callback : PurgeCallback} (h : Good c s)
    (htime : timestampMs.toInt ≤ s.nowMs + clockSkewAllowanceMs.toInt)
    (hholds : callback.purge.Holds s.pendingPurges.Purged) : Good c (s.addCallback callback timestampMs) := by
  have hcovered : ∀ other ∈ s.pendingCallbacks ++ [callback], other.purge.Holds s.pendingPurges.Purged := by
    intro other hmem
    obtain hmem | hmem := List.mem_append.mp hmem
    · exact h.covered other hmem
    · rw [List.mem_singleton.mp hmem]
      exact hholds
  have hlatest : s.latestMs ≤ max s.latestMs timestampMs.toInt := le_max_left _ _
  unfold addCallback
  simp only
  split_ifs
  · exact ⟨h.pending.mono hlatest, max_le h.time htime, h.positive.trans hlatest, hcovered,
      fun task htask => (h.tasks task htask).of_sets rfl hlatest rfl, h.fresh, h.distinct, h.ran⟩
  · refine ⟨h.pending.mono hlatest, max_le h.time htime, h.positive.trans hlatest, hcovered, fun task htask => ?_,
      h.fresh, ?_, h.ran⟩
    · obtain htask | htask := List.mem_append.mp htask
      · exact (h.tasks task htask).of_sets rfl hlatest rfl
      · rw [List.mem_singleton.mp htask]
        trivial
    · rw [Bag.total_append]
      have hzero : Bag.total Task.numbers [.waitForTimerAndGrabLock] = 0 := rfl
      rw [hzero, add_zero]
      exact h.distinct

theorem request_good (h : Good c s) {purge : Purge} {sets : PurgeObjects} {t : PurgeSet}
    (hsets : Sets s.sets sets 0 t) (hrequested : Requested c.maxBytesInCache s.pendingPurges t timestampMs)
    (hnewline : ∀ e ∈ t.lru.entries, 10 ∉ e.1) (htime : timestampMs.toInt ≤ s.nowMs + clockSkewAllowanceMs.toInt)
    (hholds : purge.Holds t.Purged) :
    Good c ({ (s.request purge).2 with sets := sets }.addCallback (s.request purge).1 timestampMs) := by
  -- The times of the set are within the bound that the callback brings.
  obtain ⟨u, hu⟩ : ∃ u : State, u = { (s.request purge).2 with
      sets := sets
      latestMs := max s.latestMs timestampMs.toInt } := ⟨_, rfl⟩
  have hadd : { (s.request purge).2 with sets := sets }.addCallback (s.request purge).1 timestampMs =
      u.addCallback (s.request purge).1 timestampMs := by
    rw [hu]
    unfold addCallback request
    simp only [max_assoc, max_self]
  have hpurges : u.pendingPurges = t := by
    rw [hu]
    unfold pendingPurges
    rw [hsets.self]
  have hlatest : s.latestMs ≤ u.latestMs := by
    rw [hu]
    exact le_max_left _ _
  have hgood : Good c u := by
    refine ⟨?_, ?_, h.positive.trans hlatest, ?_, fun task htask => ?_, ?_, ?_, ?_⟩
    · rw [hpurges]
      refine ⟨hrequested.ordered, hnewline, hrequested.bound _ (h.pending.last.trans hlatest) ?_⟩
      rw [hu]
      exact le_max_right _ _
    · rw [hu]
      exact max_le h.time htime
    · rw [hpurges, hu]
      exact fun callback hmem => (h.covered callback hmem).mono hrequested.mono
    · rw [hu] at htask
      have hsound := h.tasks task htask
      refine hsound.mono ?_ hlatest (by rw [hu]; exact le_refl _) fun v hv => ?_
      · rw [hpurges]
        exact hrequested.last
      · have hpos := (hsound.kept hv).number.1
        rw [hu]
        unfold returnPurges
        rw [hsets.other _ (Nat.pos_iff_ne_zero.mp hpos)]
    · rw [hu]
      intro k hk
      have hpos : k ≠ 0 := (Nat.lt_of_le_of_lt (Nat.zero_le _) hk).ne'
      change (sets.object k).set = _
      rw [hsets.other k hpos]
      exact h.fresh k hk
    · rw [hu]
      exact h.distinct
    · rw [hu]
      exact h.ran
  rw [hadd]
  refine addCallback_good hgood ?_ ?_
  · rw [hu]
    exact htime
  · rw [hpurges]
    exact hholds

theorem setCachePurgeGlobalTimestampMs_good (h : Good c s)
    (hsafe : Safe c s (.setCachePurgeGlobalTimestampMs timestampMs))
    (hu : s.setCachePurgeGlobalTimestampMs timestampMs = some u) : Good c u := by
  obtain ⟨sets, hsets, rfl⟩ := Option.map_eq_some_iff.mp hu
  obtain ⟨r, hr, rfl⟩ := Option.map_eq_some_iff.mp hsets
  obtain ⟨hrequested, hlru⟩ := updateGlobal_requested h.pending.ordered hr
  refine request_good h (modify_sets s.sets 0 fun _ => r.2) hrequested ?_ hsafe.1
    (updateGlobal_purged h.pending.ordered hr hsafe.2)
  rw [hlru]
  exact h.pending.newline

theorem addPurgeUrl_good {url : GoogleString} (h : Good c s)
    (hsafe : Safe c s (.addPurgeUrl url timestampMs)) (hu : s.addPurgeUrl c url timestampMs = some u) : Good c u := by
  unfold addPurgeUrl at hu
  simp only at hu
  split_ifs at hu with henabled
  · obtain ⟨hnewline, htime, heffect, hnotified⟩ := hsafe henabled
    obtain ⟨sets, hput, rfl⟩ := Option.map_eq_some_iff.mp hu
    obtain ⟨hput, -⟩ := Option.filter_eq_some_iff.mp hput
    obtain ⟨r, hr, hsets⟩ := put_sets h.pending.ordered.wellFormed (hnotified.imp And.left id) hput
    obtain ⟨hrequested, hmem⟩ := put_requested h.pending.ordered hr
    refine request_good h hsets hrequested (fun e he => ?_) htime (put_purged h.pending.ordered hr heffect)
    obtain he | he := hmem e he
    · exact h.pending.newline e he
    · rw [he]
      exact hnewline
  · obtain rfl := Option.some.inj hu
    refine ⟨h.pending, h.time, h.positive, h.covered, fun task htask => ?_, h.fresh, h.distinct, fun r hr hsuccess => ?_⟩
    · exact (h.tasks task htask).mono (Int64.le_refl _) (le_refl _) (le_refl _) fun _ _ => rfl
    · obtain hr | hr := List.mem_append.mp hr
      · exact h.ran r hr hsuccess
      · rw [List.mem_singleton.mp hr] at hsuccess
        cases hsuccess

theorem readPurgeFile_fromFile {ok : Bool} {r : ℕ × PurgeSet} (h : Good c s)
    (hsafe : ok = true → c.enablePurge = true ∧ ∀ file ∈ s.file, file.contents.length < 2 ^ 32)
    (hr : s.readPurgeFile c ok = some r) : FromFile c.maxBytesInCache s.nowMs r.2 := by
  have hnow : 0 ≤ s.nowMs + clockSkewAllowanceMs.toInt := h.positive.trans h.time
  unfold readPurgeFile at hr
  cases ok with
  | false =>
    obtain rfl := Option.some.inj hr
    exact new_fromFile hnow
  | true =>
    obtain ⟨henabled, hshort⟩ := hsafe rfl
    rw [if_pos rfl] at hr
    cases hfile : s.file with
    | none =>
      rw [hfile] at hr
      obtain rfl := Option.some.inj hr
      exact new_fromFile hnow
    | some file =>
      rw [hfile] at hr
      simp only [henabled, if_true] at hr
      exact readBuffer_fromFile hnow (hshort file hfile) hr

theorem read_good {ok : Bool} (h : Good c s) (hold : s.tasks[i]? = some .readPurgeFile)
    (hsafe : ok = true → c.enablePurge = true ∧ ∀ file ∈ s.file, file.contents.length < 2 ^ 32)
    (hu : s.read c i ok = some u) : Good c u := by
  obtain ⟨r, hr, rfl⟩ := Option.map_eq_some_iff.mp hu
  have hfrom := readPurgeFile_fromFile h hsafe hr
  refine h.task hold rfl rfl rfl rfl (le_max_left _ _) (max_le h.time hfrom.last) (le_refl _) ?_ fun r hr => Or.inl hr
  exact ⟨hfrom.ordered, hfrom.newline, le_max_right _ _⟩

theorem merged_input {n : ℤ} {p q merged : PurgeSet} (hp : Input c n p) (hq : Input c n q)
    (hmerged : Merged c.maxBytesInCache p q merged) : Input c n merged := by
  have hbound : ∀ p : PurgeSet, Input c n p → p.globalInvalidationTimestampMs.toInt ≤ n ∧
      ∀ e ∈ p.lru.entries, e.2.toInt ≤ n := fun p hp =>
    ⟨(Int64.le_iff_toInt_le.mp hp.ordered.global).trans hp.last, fun e he =>
      (Int64.le_iff_toInt_le.mp (hp.ordered.recent e he)).trans hp.last⟩
  refine ⟨hmerged.ordered, fun e he => (hmerged.mem e he).1.elim (hp.newline e) (hq.newline e), ?_⟩
  obtain hlast | ⟨e, he, hlast⟩ := hmerged.last
  · rw [hlast]
    exact stdMax_toInt_le (hbound p hp).1 (hbound q hq).1
  · rw [hlast]
    exact he.elim ((hbound p hp).2 e) ((hbound q hq).2 e)

theorem written_of_merged {merged : PurgeSet} (h : Good c s) (hinput : Input c s.latestMs purges)
    (hmerged : Merged c.maxBytesInCache purges s.pendingPurges merged) (hbuffer : v.buffer = writeBuffer c.text merged)
    (hcallbacks : v.callbacks = s.pendingCallbacks) : Written c s.latestMs v merged := by
  obtain ⟨hordered, hnewline, hlast⟩ := merged_input hinput h.pending hmerged
  refine ⟨hordered, hnewline, fun e he => (hmerged.mem e he).2, hmerged.aboveGlobal, hlast, hbuffer, ?_⟩
  rw [hcallbacks]
  exact fun callback hmem => (h.covered callback hmem).mono fun key t ht => hmerged.purged key t (Or.inr ht)

theorem swap_sets (o : PurgeObjects) {j k : ℕ} (h : j ≠ k) :
    ((o.swap j k).object j).set = { (o.object k).set with
        lastInvalidationTimestampMs := (o.object j).set.lastInvalidationTimestampMs } ∧
      ((o.swap j k).object k).set = { (o.object j).set with
        lastInvalidationTimestampMs := (o.object k).set.lastInvalidationTimestampMs } ∧
      ∀ l, l ≠ j → l ≠ k → (o.swap j k).object l = o.object l := by
  unfold PurgeObjects.swap
  refine ⟨?_, ?_, fun l hj hk => ?_⟩
  · simp only [Function.update_of_ne h, Function.update_self]
  · simp only [Function.update_self]
  · simp only [Function.update_of_ne hk, Function.update_of_ne hj]

theorem clear_input {latestMs : ℤ} {o : PurgeObjects} {j : ℕ} (hordered : Ordered c.maxBytesInCache (o.object j).set)
    (hlast : (o.object j).set.lastInvalidationTimestampMs.toInt ≤ latestMs) :
    Input c latestMs ((o.clear j).object j).set ∧ ((o.clear j).object j).set.lastInvalidationTimestampMs =
      (o.object j).set.lastInvalidationTimestampMs := by
  unfold PurgeObjects.clear
  rw [modify_self]
  refine ⟨⟨⟨LRUCacheBase.clear_wellFormed _, hordered.maxBytes, List.Pairwise.nil, nofun, nofun, ?_, ?_⟩, nofun, hlast⟩, rfl⟩
  · exact Int64.le_trans hordered.initial hordered.global
  · exact Int64.le_refl _

theorem mem_numbers {task : Task} {k : ℕ} : k ∈ task.numbers ↔ ∃ v, task.update = some v ∧ v.returnPurges = k := by
  unfold Task.numbers
  cases task.update with
  | none => simp
  | some v => simp [eq_comm]

theorem new_ordered_last {maxSize : ℕ} {lastMs : Int64} (h : initialTimestampMs ≤ lastMs) :
    Ordered maxSize { PurgeSet.new maxSize with lastInvalidationTimestampMs := lastMs } :=
  ⟨(new_ordered maxSize).wellFormed, rfl, List.Pairwise.nil, nofun, nofun, h, Int64.le_refl _⟩

theorem modifyPurgeSet_good (h : Good c s) (hold : s.tasks[i]? = some (.modifyPurgeSet purges))
    (hu : s.modifyPurgeSet c i purges = some u) : Good c u := by
  obtain ⟨merged, hmerge, rfl⟩ := Option.map_eq_some_iff.mp hu
  have hinput : Input c s.latestMs purges := h.tasks _ (List.mem_of_getElem? hold)
  obtain ⟨merged', hmerge', hmerged⟩ := merge_merged hinput.ordered h.pending.ordered
  obtain rfl := Option.some.inj (hmerge.symm.trans hmerge')
  have hne : s.updates + 1 ≠ 0 := Nat.succ_ne_zero _
  obtain ⟨htaken, hfreed, hothers⟩ := swap_sets s.sets hne
  have hfresh := h.fresh (s.updates + 1) (Nat.lt_succ_self _)
  obtain ⟨sets, hsets⟩ : ∃ sets, sets = s.sets.swap (s.updates + 1) 0 := ⟨_, rfl⟩
  rw [← hsets] at htaken hfreed hothers
  have hcleared : ∀ k ≠ 0, (sets.clear 0).object k = sets.object k := fun k hk => modify_of_ne sets hk _
  have hempty : Ordered c.maxBytesInCache (sets.object 0).set := by
    rw [hfreed, hfresh]
    exact new_ordered_last (Int64.le_trans h.pending.ordered.initial h.pending.ordered.global)
  have hlast : (sets.object 0).set.lastInvalidationTimestampMs = s.pendingPurges.lastInvalidationTimestampMs := by
    rw [hfreed]
    rfl
  obtain ⟨hpending, hpendingLast⟩ := clear_input hempty (hlast.symm ▸ h.pending.last)
  have htaken' : ((sets.clear 0).object (s.updates + 1)).set = { s.pendingPurges with
      lastInvalidationTimestampMs := (s.sets.object (s.updates + 1)).set.lastInvalidationTimestampMs } := by
    rw [hcleared _ hne, htaken]
    rfl
  have hwritten := written_of_merged (v := ⟨s.updates + 1, writeBuffer c.text merged, s.pendingCallbacks,
    s.numConsecutiveFailures⟩) h hinput hmerged rfl rfl
  rw [← hsets]
  refine ⟨hpending, h.time, h.positive, nofun, fun task htask => ?_, fun k hk => ?_, ?_, h.ran⟩
  · obtain htask | rfl := List.mem_or_eq_of_mem_set htask
    · have hsound := h.tasks task htask
      refine hsound.mono ?_ (le_refl _) (Nat.le_succ _) fun v hv => ?_
      · exact (hpendingLast.trans hlast).symm ▸ Int64.le_refl _
      · have hnumber := (hsound.kept hv).number
        have hzero : v.returnPurges ≠ 0 := Nat.pos_iff_ne_zero.mp hnumber.1
        unfold returnPurges
        change ((sets.clear 0).object v.returnPurges).set = _
        rw [hcleared _ hzero, hothers _ (Nat.ne_of_lt (Nat.lt_succ_of_le hnumber.2)) hzero]
    · refine ⟨⟨?_, ?_, ?_, Nat.succ_pos _, le_refl _⟩, merged, hwritten⟩
      · have hordered := h.pending.ordered
        unfold returnPurges pendingPurges
        change Ordered _ { ((sets.clear 0).object (s.updates + 1)).set with
          lastInvalidationTimestampMs := ((sets.clear 0).object 0).set.lastInvalidationTimestampMs }
        rw [htaken', hpendingLast, hlast]
        exact hordered
      · change ∀ e ∈ ((sets.clear 0).object (s.updates + 1)).set.lru.entries, 10 ∉ e.1
        rw [htaken']
        exact h.pending.newline
      · change ∀ callback ∈ s.pendingCallbacks, callback.purge.Holds ((sets.clear 0).object (s.updates + 1)).set.Purged
        rw [htaken']
        exact h.covered
  · have hk' : s.updates + 1 < k := hk
    change ((sets.clear 0).object k).set = _
    rw [hcleared k (by omega), hothers k (by omega) (by omega)]
    exact h.fresh k (by omega)
  · obtain ⟨r, hs, hset⟩ := Bag.total_set hold Task.numbers
    have hdistinct := h.distinct
    have hzero : Task.numbers (.modifyPurgeSet purges) = 0 := rfl
    change (Bag.total Task.numbers (s.tasks.set i _)).Nodup
    rw [hset, ← zero_add r, ← hzero, ← hs]
    refine Multiset.nodup_cons.mpr ⟨fun hmem => ?_, hdistinct⟩
    obtain ⟨task, htask, hnumber⟩ := Bag.mem_total.mp hmem
    obtain ⟨v, hv, hk⟩ := mem_numbers.mp hnumber
    have hle := ((h.tasks task htask).kept hv).number.2
    rw [hk] at hle
    exact absurd hle (Nat.not_succ_le_self s.updates)

theorem cancelCachePurgeFile_good (h : Good c s) (hold : s.tasks[i]? = some old) : Good c (s.cancelCachePurgeFile i) := by
  obtain ⟨hpending, hlast⟩ := clear_input h.pending.ordered h.pending.last
  have hcleared : ∀ k ≠ 0, (s.sets.clear 0).object k = s.sets.object k := fun k hk => modify_of_ne s.sets hk _
  refine ⟨hpending, h.time, h.positive, nofun, fun task htask => ?_, fun k hk => ?_, ?_, h.ran⟩
  · obtain htask | rfl := List.mem_or_eq_of_mem_set htask
    · have hsound := h.tasks task htask
      refine hsound.mono ?_ (le_refl _) (le_refl _) fun v hv => ?_
      · exact hlast.symm ▸ Int64.le_refl _
      · unfold returnPurges
        change ((s.sets.clear 0).object v.returnPurges).set = _
        rw [hcleared _ (Nat.pos_iff_ne_zero.mp (hsound.kept hv).number.1)]
    · exact fun hsuccess => absurd hsuccess Bool.false_ne_true
  · have hk' : s.updates < k := hk
    change ((s.sets.clear 0).object k).set = _
    rw [hcleared k (by omega)]
    exact h.fresh k hk
  · obtain ⟨r, hs, hset⟩ := Bag.total_set hold Task.numbers
    have hdistinct := h.distinct
    rw [hs] at hdistinct
    change (Bag.total Task.numbers (s.tasks.set i _)).Nodup
    rw [hset]
    exact Multiset.nodup_of_le (add_le_add_left (Multiset.zero_le _) r) hdistinct

theorem distinct_of_failed (h : Good c s) (hold : s.tasks[i]? = some (.handleWriteFailure v))
    (hnone : new.update = none) : (Bag.total Task.numbers (s.tasks.set i new)).Nodup ∧
      ∀ task ∈ s.tasks.set i new, ∀ w, task.update = some w → w.returnPurges ≠ v.returnPurges := by
  obtain ⟨r, hs, hset⟩ := Bag.total_set hold Task.numbers
  have hdistinct := h.distinct
  have hnumbers : new.numbers = 0 := by
    unfold Task.numbers
    rw [hnone]
  have hsingle : Task.numbers (.handleWriteFailure v) = {v.returnPurges} := rfl
  rw [hs, hsingle, Multiset.singleton_add, Multiset.nodup_cons] at hdistinct
  have htotal : Bag.total Task.numbers (s.tasks.set i new) = r := by rw [hset, hnumbers, zero_add]
  refine ⟨htotal ▸ hdistinct.2, fun task htask w hw heq => hdistinct.1 ?_⟩
  rw [← htotal]
  exact Bag.mem_total.mpr ⟨task, htask, mem_numbers.mpr ⟨w, hw, heq⟩⟩

theorem mergeBack_good {sets : PurgeObjects} {failures : ℕ} {callbacks : List PurgeCallback} (h : Good c s)
    (hold : s.tasks[i]? = some (.handleWriteFailure v)) (hback : s.MergesBack v)
    (hmerge : s.sets.merge 0 v.returnPurges = some sets) (hnew : new.update = none) (hsound : ∀ u, Sound c u new)
    (hcallbacks : callbacks = s.pendingCallbacks ++ v.callbacks) :
    Good c { s with
      sets := sets
      pendingCallbacks := callbacks
      numConsecutiveFailures := failures
      tasks := s.tasks.set i new } := by
  have hkept : Kept c s v := h.tasks _ (List.mem_of_getElem? hold)
  obtain ⟨t, ht, hsets⟩ := merge_sets h.pending.ordered hkept.ordered (hback.notified.imp And.left id) hmerge
  obtain ⟨t', ht', hmerged⟩ := merge_merged h.pending.ordered hkept.ordered
  obtain rfl := Option.some.inj (ht.symm.trans ht')
  have hset : (sets.object 0).set = t := by rw [hsets.self]
  have hinput : Input c s.latestMs t := merged_input h.pending ⟨hkept.ordered, hkept.newline, h.pending.last⟩ hmerged
  obtain ⟨hdistinct, hdifferent⟩ := distinct_of_failed h hold hnew
  refine ⟨?_, h.time, h.positive, fun callback hmem => ?_, fun task htask => ?_, fun k hk => ?_, hdistinct, h.ran⟩
  · change Input c s.latestMs (sets.object 0).set
    rw [hset]
    exact hinput
  · change callback.purge.Holds (sets.object 0).set.Purged
    rw [hset]
    rw [hcallbacks] at hmem
    obtain hmem | hmem := List.mem_append.mp hmem
    · exact (h.covered callback hmem).mono fun key u hu => hmerged.purged key u (Or.inl hu)
    · exact (hkept.covered callback hmem).mono fun key u hu => hmerged.purged key u (Or.inr hu)
  · have hother := hdifferent task htask
    obtain htask | rfl := List.mem_or_eq_of_mem_set htask
    · have hsound := h.tasks task htask
      refine hsound.move (le_refl _) fun w hw => (hsound.kept hw).move (fun url u hu => ?_) (le_refl _) ?_
      · obtain ⟨url', hurl⟩ := hback.latest task htask w hw (hother w hw) url u hu
        change u ≤ (sets.object 0).set.lastInvalidationTimestampMs
        rw [hset]
        exact purged_le_last hmerged.ordered (hmerged.purged url' u hurl)
      · unfold returnPurges
        change (sets.object w.returnPurges).set = _
        rw [hsets.other _ (Nat.pos_iff_ne_zero.mp (hsound.kept hw).number.1)]
    · exact hsound _
  · have hk' : s.updates < k := hk
    change (sets.object k).set = _
    rw [hsets.other k (by omega)]
    exact h.fresh k hk

theorem swapBack_good {failures : ℕ} (h : Good c s) (hold : s.tasks[i]? = some (.handleWriteFailure v))
    (hnew : new.update = none) (hsound : ∀ u, Sound c u new) :
    Good c { s with
      sets := s.sets.swap 0 v.returnPurges
      pendingCallbacks := v.callbacks
      waitingForInterprocessLock := true
      numConsecutiveFailures := failures
      tasks := s.tasks.set i new } := by
  have hkept : Kept c s v := h.tasks _ (List.mem_of_getElem? hold)
  have hpos : 0 ≠ v.returnPurges := (Nat.pos_iff_ne_zero.mp hkept.number.1).symm
  obtain ⟨hback, -, hothers⟩ := swap_sets s.sets hpos
  obtain ⟨hdistinct, hdifferent⟩ := distinct_of_failed h hold hnew
  refine ⟨?_, h.time, h.positive, fun callback hmem => ?_, fun task htask => ?_, fun k hk => ?_, hdistinct, h.ran⟩
  · change Input c s.latestMs ((s.sets.swap 0 v.returnPurges).object 0).set
    rw [hback]
    exact ⟨hkept.ordered, hkept.newline, h.pending.last⟩
  · change callback.purge.Holds ((s.sets.swap 0 v.returnPurges).object 0).set.Purged
    rw [hback]
    exact hkept.covered callback hmem
  · have hother := hdifferent task htask
    obtain htask | rfl := List.mem_or_eq_of_mem_set htask
    · have hsound := h.tasks task htask
      refine hsound.mono ?_ (le_refl _) (le_refl _) fun w hw => ?_
      · change _ ≤ ((s.sets.swap 0 v.returnPurges).object 0).set.lastInvalidationTimestampMs
        rw [hback]
        exact Int64.le_refl _
      · unfold returnPurges
        change ((s.sets.swap 0 v.returnPurges).object w.returnPurges).set = _
        rw [hothers _ (Nat.pos_iff_ne_zero.mp (hsound.kept hw).number.1) (hother w hw)]
    · exact hsound _
  · have hk' : s.updates < k := hk
    have hle := hkept.number.2
    change ((s.sets.swap 0 v.returnPurges).object k).set = _
    rw [hothers k (by omega) (by omega)]
    exact h.fresh k hk

theorem sound_failed {message : String} {verified : Option Verified} {callbacks : List PurgeCallback} (s : State) :
    Sound c s (.runCallbacks false message verified callbacks) := fun hsuccess => absurd hsuccess Bool.false_ne_true

theorem handleWriteFailure_good (h : Good c s) (hold : s.tasks[i]? = some (.handleWriteFailure v))
    (hsafe : s.numConsecutiveFailures + (v.failures + 1) ≤ kMaxContentionRetries → s.waitingForInterprocessLock = true →
      s.MergesBack v) (hu : s.handleWriteFailure i v = some u) : Good c u := by
  unfold handleWriteFailure at hu
  simp only at hu
  split_ifs at hu with hretry hwaiting hnone
  · obtain ⟨sets, hmerge, rfl⟩ := Option.map_eq_some_iff.mp hu
    exact mergeBack_good h hold (hsafe hretry hwaiting) (Option.filter_eq_some_iff.mp hmerge).1 rfl sound_failed rfl
  · obtain rfl := Option.some.inj hu
    exact swapBack_good h hold rfl fun _ => trivial
  · obtain rfl := Option.some.inj hu
    exact swapBack_good h hold rfl sound_failed
  · obtain rfl := Option.some.inj hu
    exact h.task hold rfl rfl rfl rfl (le_refl _) h.time (Multiset.zero_le _) (sound_failed _) fun r hr => Or.inl hr

theorem contention_good (h : Good c s) (hold : s.tasks[i]? = some old) (hnumbers : {v.returnPurges} ≤ old.numbers)
    (hkept : Kept c s v) : Good c (s.contention i v) := by
  have hsound : Sound c s (.handleWriteFailure v) := hkept
  exact h.task hold rfl rfl rfl rfl (le_refl _) h.time hnumbers (hsound.of_sets rfl (le_refl _) rfl) fun r hr => Or.inl hr

theorem effective_of_written {callback : PurgeCallback} (hlaw : c.text.Lawful)
    (h : Good c s) (hwritten : Written c s.latestMs v purges) (hshort : v.buffer.length < 2 ^ 32)
    (hmem : callback ∈ v.callbacks) : Effective c ⟨v.buffer, s.nowMs⟩ callback.purge := by
  have hreadable : Readable c.text s.nowMs purges :=
    ⟨hwritten.newline, hwritten.positive, hwritten.aboveGlobal, hwritten.last.trans h.time, hwritten.buffer ▸ hshort⟩
  obtain ⟨t, ht, hordered, hpurged⟩ := readBuffer_writeBuffer hlaw hwritten.ordered hreadable
  refine ⟨0, t, ?_, ?_⟩
  · rw [hwritten.buffer]
    exact ht
  · exact (hwritten.covered callback hmem).mono fun key u hu =>
      (isValid_eq_false hordered.wellFormed key u).mpr (hpurged key u hu)

theorem verify_good (hlaw : c.text.Lawful) (h : Good c s) (hold : s.tasks[i]? = some (.verify v))
    (hshort : v.buffer.length < 2 ^ 32) : Good c (s.verify i v) := by
  obtain ⟨hkept, purges, hwritten⟩ := h.tasks _ (List.mem_of_getElem? hold)
  unfold verify
  by_cases hsame : s.file.map File.contents = some v.buffer
  · rw [if_pos hsame]
    refine h.task hold rfl rfl rfl rfl (le_refl _) h.time (Multiset.zero_le _) ?_ fun r hr => Or.inl hr
    exact fun _ callback hmem => ⟨_, rfl, effective_of_written hlaw h hwritten hshort hmem⟩
  · rw [if_neg hsame]
    exact contention_good h hold (le_refl _) hkept

theorem proceed_good (hlaw : c.text.Lawful) (h : Good c s) (hold : s.tasks[i]? = some old)
    (hsafe : Safe c s (.proceed i)) (hu : s.proceed c i old = some u) : Good c u := by
  have hsafe := hsafe old hold
  have hsound := h.tasks old (List.mem_of_getElem? hold)
  have hquiet : ∀ {new : Task}, new.numbers = 0 → Sound c (s.setTask i new) new → Good c (s.setTask i new) :=
    fun hnumbers hnew => h.task hold rfl rfl rfl rfl (le_refl _) h.time (hnumbers ▸ Multiset.zero_le _) hnew
      fun r hr => Or.inl hr
  cases old with
  | waitForTimerAndGrabLock =>
    obtain rfl := Option.some.inj hu
    split_ifs
    · exact hquiet rfl trivial
    · exact hquiet rfl trivial
  | alarm =>
    obtain rfl := Option.some.inj hu
    exact hquiet rfl trivial
  | grabLockAndUpdate =>
    obtain rfl := Option.some.inj hu
    exact hquiet rfl trivial
  | lockRequest =>
    obtain rfl := Option.some.inj hu
    exact hquiet rfl trivial
  | readPurgeFile => exact read_good h hold (fun _ => hsafe) hu
  | modifyPurgeSet purges => exact modifyPurgeSet_good h hold hu
  | writePurgeFile v =>
    obtain rfl := Option.some.inj hu
    have hverify : Sound c s (.verify v) := hsound
    exact h.task hold rfl rfl rfl rfl (le_refl _) h.time (le_refl _) (hverify.of_sets rfl (le_refl _) rfl)
      fun r hr => Or.inl hr
  | verify v =>
    obtain rfl := Option.some.inj hu
    exact verify_good hlaw h hold hsafe
  | handleWriteFailure v => exact handleWriteFailure_good h hold hsafe hu
  | runCallbacks success message verified callbacks =>
    cases callbacks with
    | nil => cases hu
    | cons callback callbacks =>
      obtain rfl := Option.some.inj hu
      refine h.task hold rfl rfl rfl rfl (le_refl _) h.time (le_refl _) ?_ fun r hr => ?_
      · exact fun hsuccess other hmem => hsound hsuccess other (List.mem_cons_of_mem _ hmem)
      · obtain hr | hr := List.mem_append.mp hr
        · exact Or.inl hr
        · rw [List.mem_singleton.mp hr]
          exact Or.inr fun hsuccess => hsound hsuccess callback List.mem_cons_self

theorem fail_good (h : Good c s) (hold : s.tasks[i]? = some old) (hu : s.fail c i old = some u) : Good c u := by
  have hsound := h.tasks old (List.mem_of_getElem? hold)
  unfold fail at hu
  split at hu
  next => exact read_good h hold (fun hok => absurd hok Bool.false_ne_true) hu
  next v =>
    obtain rfl := Option.some.inj hu
    have hcount : Good c s.countWrite := ⟨h.pending, h.time, h.positive, h.covered,
      fun task htask => (h.tasks task htask).of_sets rfl (le_refl _) rfl, h.fresh, h.distinct, h.ran⟩
    exact contention_good hcount hold (le_refl _) ((hcount.tasks _ (List.mem_of_getElem? hold)).kept rfl)
  next v =>
    obtain rfl := Option.some.inj hu
    exact contention_good h hold (le_refl _) hsound.1
  next => cases hu

theorem step_good {a : Action} (hlaw : c.text.Lawful) (h : Good c s) (hsafe : Safe c s a) (hu : step c s a = some u) :
    Good c u := by
  cases a with
  | addPurgeUrl url timestampMs => exact addPurgeUrl_good h hsafe hu
  | setCachePurgeGlobalTimestampMs timestampMs => exact setCachePurgeGlobalTimestampMs_good h hsafe hu
  | proceed i =>
    obtain ⟨old, hold, hu⟩ := Option.bind_eq_some_iff.mp hu
    exact proceed_good hlaw h hold hsafe hu
  | fail i =>
    obtain ⟨old, hold, hu⟩ := Option.bind_eq_some_iff.mp hu
    exact fail_good h hold hu
  | cancel i =>
    obtain ⟨old, hold, hu⟩ := Option.bind_eq_some_iff.mp hu
    unfold cancel at hu
    split at hu
    next =>
      obtain rfl := Option.some.inj hu
      exact cancelCachePurgeFile_good h hold
    next =>
      obtain rfl := Option.some.inj hu
      exact cancelCachePurgeFile_good h hold
    next => cases hu
  | returnUpdate k =>
    obtain ⟨-, ⟨⟩⟩ := Option.ite_none_right_eq_some.mp hu
    exact ⟨h.pending, h.time, h.positive, h.covered, fun task htask => (h.tasks task htask).of_sets rfl (le_refl _) rfl,
      h.fresh, h.distinct, h.ran⟩
  | writeFile file =>
    obtain rfl := Option.some.inj hu
    exact ⟨h.pending, h.time, h.positive, h.covered, fun task htask => (h.tasks task htask).of_sets rfl (le_refl _) rfl,
      h.fresh, h.distinct, h.ran⟩
  | setNowMs nowMs =>
    obtain rfl := Option.some.inj hu
    exact ⟨h.pending, hsafe, h.positive, h.covered, fun task htask => (h.tasks task htask).of_sets rfl (le_refl _) rfl,
      h.fresh, h.distinct, h.ran⟩

theorem new_good (c : Config) (file : Option File) : Good c (State.new c file) :=
  ⟨⟨new_ordered _, nofun, le_refl _⟩, show (0 : ℤ) ≤ 0 + clockSkewAllowanceMs.toInt by decide, le_refl _, nofun, nofun,
    fun _ _ => rfl, Multiset.nodup_zero, nofun⟩

end State

open State in
/-- In every run each callback is run once, and the flag says whether a request is outstanding. In a run of safe steps,
success means that the contents that were verified have the purge. -/
theorem updates_run_once (c : Config) (hlaw : c.text.Lawful) (file : Option File) (as : List Action) (u : State)
    (hrun : Machine.run (step c) (State.new c file) as = some u) :
    u.RunOnce ∧ u.Waiting ∧ (Machine.Meets (step c) (Safe c) (State.new c file) as →
      ∀ r ∈ u.ran, r.success = true → Promised c r.verified r.callback) := by
  have hconserved : ∀ s a u, True → State.Conserved s → step c s a = some u → State.Conserved u :=
    fun _ _ _ _ h hu => step_conserved h hu
  have hgood : ∀ s a u, Safe c s a → Good c s → step c s a = some u → Good c u :=
    fun _ _ _ hsafe h hu => step_good hlaw h hsafe hu
  have h := Machine.run_invariant hconserved (new_conserved c file) (Machine.meets_true as) hrun
  exact ⟨h.runOnce, h.waits, fun hm => (Machine.run_invariant hgood (new_good c file) hm hrun).ran⟩

namespace State

theorem modifyPurgeSet_of_empty {c : Config} {s u : State} {i : ℕ} {purges merged : PurgeSet}
    (hempty : purges.lru.entries = []) (htask : s.tasks[i]? = some (.modifyPurgeSet purges))
    (hmerged : putAll ⟨stdMax purges.globalInvalidationTimestampMs s.pendingPurges.globalInvalidationTimestampMs,
      stdMax purges.globalInvalidationTimestampMs s.pendingPurges.globalInvalidationTimestampMs,
      purges.lru.clear.clearStats⟩ (s.pendingPurges.lru.entries.filter fun e =>
        decide (stdMax purges.globalInvalidationTimestampMs s.pendingPurges.globalInvalidationTimestampMs < e.2)) =
          some merged)
    (hu : u = { s.setTask i (.writePurgeFile ⟨s.updates + 1, writeBuffer c.text merged, s.pendingCallbacks,
        s.numConsecutiveFailures⟩) with
      sets := (s.sets.swap (s.updates + 1) 0).clear 0
      updates := s.updates + 1
      pendingCallbacks := []
      numConsecutiveFailures := 0
      waitingForInterprocessLock := false }) : step c s (.proceed i) = some u := by
  have hmerge : purges.merge s.pendingPurges = some merged := by
    rw [PurgeSet.merge, mergeContext, hempty, List.nil_merge]
    exact hmerged
  change (s.tasks[i]?).bind (s.proceed c i) = some u
  rw [htask, Option.bind_some]
  change s.modifyPurgeSet c i purges = some u
  rw [modifyPurgeSet, hmerge, hu]
  rfl

end State

def smallConfig : Config := ⟨Decimal.text, true, 100, 0⟩

def purgeRun : List Action :=
  [.setNowMs 700000, .addPurgeUrl [97] 660001, .proceed 0, .proceed 0, .proceed 0, .proceed 0, .proceed 0, .proceed 0,
    .proceed 0, .proceed 0]

theorem updates_run_once_written :
    ∃ u, Machine.run (step smallConfig) (State.new smallConfig none) purgeRun = some u ∧ u.ran.map Ran.success = [true] ∧
      u.RunOnce ∧ u.Waiting ∧ ∀ r ∈ u.ran, r.success = true → State.Promised smallConfig r.verified r.callback := by
  have hrun : ∃ u, Machine.run (step smallConfig) (State.new smallConfig none) purgeRun = some u ∧
      u.ran.map Ran.success = [true] := by
    have hsplit : purgeRun = purgeRun.take 6 ++ purgeRun.drop 6 := rfl
    rw [hsplit]
    refine ⟨_, Machine.run_append.mpr ⟨_, rfl, Machine.run_cons.mpr
      ⟨_, State.modifyPurgeSet_of_empty rfl rfl rfl rfl, rfl⟩⟩, rfl⟩
  have hmeets : Machine.Meets (step smallConfig) (State.Safe smallConfig) (State.new smallConfig none) purgeRun := by
    refine Machine.meets_cons (show (0 : ℤ) ≤ 700000 + clockSkewAllowanceMs.toInt by decide) rfl ?_
    refine Machine.meets_cons (fun _ => ⟨by decide, by decide, Or.inr (by decide), Or.inl ⟨rfl, rfl⟩⟩) rfl ?_
    refine Machine.meets_cons (by rintro _ ⟨⟩; trivial) rfl (Machine.meets_cons (by rintro _ ⟨⟩; trivial) rfl ?_)
    refine Machine.meets_cons (by rintro _ ⟨⟩; trivial) rfl ?_
    refine Machine.meets_cons (by rintro _ ⟨⟩; exact ⟨rfl, nofun⟩) rfl ?_
    refine Machine.meets_cons (by rintro _ ⟨⟩; trivial) (State.modifyPurgeSet_of_empty rfl rfl rfl rfl) ?_
    refine Machine.meets_cons (by rintro _ ⟨⟩; trivial) rfl ?_
    refine Machine.meets_cons (by rintro _ ⟨⟩; decide) rfl (Machine.meets_cons (by rintro _ ⟨⟩; trivial) rfl trivial)
  obtain ⟨u, hu, hsuccess⟩ := hrun
  obtain ⟨honce, hwaiting, hpromised⟩ := updates_run_once smallConfig Decimal.lawful none purgeRun u hu
  exact ⟨u, hu, hsuccess, honce, hwaiting, hpromised hmeets⟩

def backwardsRun : List Action :=
  [.setNowMs 700000, .addPurgeUrl [97] 660001, .addPurgeUrl [98] 1, .proceed 0, .proceed 0, .proceed 0, .proceed 0,
    .proceed 0, .proceed 0, .proceed 0, .proceed 0, .proceed 0]

theorem dropped_purge_succeeds :
    ∃ u, Machine.run (step smallConfig) (State.new smallConfig none) backwardsRun = some u ∧
      ¬ ∀ r ∈ u.ran, r.success = true → State.Promised smallConfig r.verified r.callback := by
  have hsplit : backwardsRun = backwardsRun.take 7 ++ backwardsRun.drop 7 := rfl
  rw [hsplit]
  refine ⟨_, Machine.run_append.mpr ⟨_, rfl, Machine.run_cons.mpr
    ⟨_, State.modifyPurgeSet_of_empty rfl rfl rfl rfl, rfl⟩⟩, fun hall => ?_⟩
  obtain ⟨v, hv, n, s, hread, hholds⟩ := hall ⟨⟨1, .url [98] 1⟩, true, "", some ⟨[45, 49, 10, 54, 54, 48, 48, 48, 49, 32,
    97, 10], 700000⟩⟩ (List.mem_cons_of_mem _ List.mem_cons_self) rfl
  obtain rfl := Option.some.inj hv
  have hread : readBuffer Decimal.text 100 700000 [45, 49, 10, 54, 54, 48, 48, 48, 49, 32, 97, 10] = some (n, s) := hread
  have hvalid : (readBuffer Decimal.text 100 700000 [45, 49, 10, 54, 54, 48, 48, 48, 49, 32, 97, 10]).map
      (fun r => r.2.isValid [98] 1) = some true := by decide
  rw [hread] at hvalid
  have hfalse : s.isValid [98] 1 = false := hholds
  rw [Option.map_some, hfalse] at hvalid
  cases hvalid

end PageSpeed.PurgeContext
