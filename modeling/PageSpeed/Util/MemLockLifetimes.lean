import PageSpeed.Util.MemLockChanges
import Mathlib.Data.Finset.Card

/-!
Lifetimes of locks and of their manager, and the invariant of all runs.
-/

namespace PageSpeed.MemLock

open OrderedSet

section Lifetimes

variable {Name : Type} {s t : State Name} {i o p r : ℕ} {n : Name} {l : List ℕ}

def Frame.removing : Frame Name → Option ℕ
  | .removeLock i => some i
  | _ => none

def Frame.denying : Frame Name → Option Name
  | .denyPending n => some n
  | _ => none

structure LocksEq (s t : State Name) : Prop where
  lock : t.lock = s.lock
  currentOwner : ∀ m, (t.lockState m).currentOwner = (s.lockState m).currentOwner
  pendingLocks : ∀ m, (t.lockState m).pendingLocks = (s.lockState m).pendingLocks
  pendingSteals : ∀ m, (t.lockState m).pendingSteals = (s.lockState m).pendingSteals

def Calm (task : Option (Task Name)) : Prop := ∀ x ∈ task, ∃ nowMs, x = .wakeup nowMs

theorem calm_none : Calm (none : Option (Task Name)) := nofun

theorem calm_wakeup (nowMs : ℤ) : Calm (some (.wakeup nowMs : Task Name)) := by
  rintro x hx
  exact ⟨nowMs, (Option.some.inj hx).symm⟩

theorem Keeps.reframe (h : Keeps s t) (task : Option (Task Name)) (stack : List (Frame Name)) (steals : List Steal) :
    Keeps s { t with task := task, stack := stack, steals := steals } :=
  ⟨h.life, h.sequence, h.lockStateMap, h.manager, h.clock, h.name, h.lockCount, h.managed, h.pending, h.held, h.corrupted⟩

theorem Keeps.refl (s : State Name) : Keeps s s :=
  ⟨rfl, rfl, rfl, rfl, rfl, fun _ => rfl, fun _ => rfl, fun _ => rfl, fun _ => Or.inl, fun _ => Or.inl, Or.inl rfl⟩

variable [LinearOrder Name]

/-- The locks of a name that `lock_count_` counts. -/
def State.counted (s : State Name) (n : Name) : Finset ℕ :=
  (Finset.range s.sequence).filter fun i => (s.lock i).name = n ∧ s.life i ≠ .deleted

structure Lives (s : State Name) : Prop where
  alive : ∀ i, s.life i ≠ .alive → ¬ Pending s i ∧ (s.lock i).held = false
  unborn : ∀ i, s.life i = .unborn ↔ s.sequence ≤ i
  counted : ∀ n, (s.lockState n).lockCount = (s.counted n).card
  removing : (s.stack.filterMap Frame.removing).Nodup
  dying : ∀ i ∈ s.stack.filterMap Frame.removing, s.life i = .dying

theorem Lives.lockCount_ne_zero (h : Lives s) (hb : s.life i ≠ .unborn) (hd : s.life i ≠ .deleted) :
    (s.stateOf i).lockCount ≠ 0 := by
  unfold State.stateOf
  rw [h.counted]
  refine Finset.card_ne_zero.mpr ⟨i, ?_⟩
  have hlt : i < s.sequence := not_le.mp fun hle => hb ((h.unborn i).mpr hle)
  exact Finset.mem_filter.mpr ⟨Finset.mem_range.mpr hlt, rfl, hd⟩

theorem Lives.of_keeps (h : Lives s) (hk : Keeps s t)
    (hstack : t.stack.filterMap Frame.removing = s.stack.filterMap Frame.removing) : Lives t := by
  refine ⟨fun i hi => ⟨fun hp => ?_, ?_⟩, fun i => ?_, fun n => ?_, ?_, fun i hi => ?_⟩
  · rw [hk.life] at hi
    obtain hp | ⟨halive, -⟩ := hk.pending i hp
    · exact (h.alive i hi).1 hp
    · exact hi halive
  · rw [hk.life] at hi
    refine Bool.eq_false_iff.mpr fun hheld => ?_
    obtain hheld | hp | halive := hk.held i hheld
    · exact Bool.noConfusion ((h.alive i hi).2.symm.trans hheld)
    · exact (h.alive i hi).1 hp
    · exact hi halive
  · rw [hk.life, hk.sequence]
    exact h.unborn i
  · have hcounted : t.counted n = s.counted n := by
      unfold State.counted
      rw [hk.sequence, hk.life]
      refine Finset.filter_congr fun i _ => ?_
      rw [hk.name]
    rw [hk.lockCount, hcounted]
    exact h.counted n
  · rw [hstack]
    exact h.removing
  · rw [hk.life]
    exact h.dying i (hstack ▸ hi)

structure Drained (s : State Name) (done current : Name → Prop) : Prop where
  map : Ordered id s.lockStateMap
  managed : ∀ m, (s.lockState m).managed = true ↔ m ∈ s.lockStateMap ∧ ¬ done m ∧ ¬ current m
  pendingLocks : ∀ m, (s.lockState m).managed = false → ¬ current m → (s.lockState m).pendingLocks = []

inductive Phase (s : State Name) : Prop where
  | alive (hm : s.manager = .alive) (htask : Calm s.task) (hstack : s.stack.filterMap Frame.denying = [])
      (hc : s.corrupted = false) (hd : Drained s (fun _ => False) fun _ => False)
      (hcount : ∀ m, (s.lockState m).lockCount ≠ 0 → (s.lockState m).managed = true)
  | next (n : Option Name) (hm : s.manager = .dying) (htask : s.task = some (.destroyStates n))
      (hstack : s.stack.filterMap Frame.denying = []) (hd : Drained s (fun m => ∀ k ∈ n, m < k) fun _ => False)
      (hn : ∀ k ∈ n, k ∈ s.lockStateMap)
  | denying (n : Name) (hm : s.manager = .dying) (htask : s.task = some (.denyPending n))
      (hstack : s.stack.filterMap Frame.denying = []) (hd : Drained s (· < n) (· = n))
  | waiting (n : Name) (hm : s.manager = .dying) (htask : Calm s.task)
      (hstack : s.stack.filterMap Frame.denying = [n]) (hd : Drained s (· < n) (· = n))
  | deleted (hm : s.manager = .deleted) (htask : Calm s.task) (hstack : s.stack.filterMap Frame.denying = [])
      (hd : Drained s (fun _ => True) fun _ => False)

theorem Drained.of_keeps {done current : Name → Prop} (hs : Core s) (ht : Core t) (hk : Keeps s t)
    (h : Drained s done current) : Drained t done current := by
  refine ⟨hk.lockStateMap ▸ h.map, fun m => ?_, fun m hm hcur => ?_⟩
  · rw [hk.managed, hk.lockStateMap]
    exact h.managed m
  · rw [hk.managed] at hm
    have hnil := h.pendingLocks m hm hcur
    refine List.eq_nil_iff_forall_not_mem.mpr fun j hj => ?_
    obtain ⟨hname, hpending⟩ := (ht.sets.pending m j).mp hj
    rw [hk.name] at hname
    obtain hp | ⟨-, hmanaged⟩ := hk.pending j hpending
    · have hmem := (hs.sets.pending m j).mpr ⟨hname, hp⟩
      rw [hnil] at hmem
      cases hmem
    · unfold State.stateOf at hmanaged
      rw [hname, hm] at hmanaged
      cases hmanaged

theorem Lives.managed_of_pending (h : Lives s) (hcount : ∀ m, (s.lockState m).lockCount ≠ 0 →
    (s.lockState m).managed = true) (hp : Pending s i) : (s.stateOf i).managed = true := by
  have halive : s.life i = .alive := by
    by_contra hne
    exact (h.alive i hne).1 hp
  exact hcount _ (h.lockCount_ne_zero (by rw [halive]; exact nofun) (by rw [halive]; exact nofun))

theorem Phase.of_keeps (hs : Core s) (ht : Core t) (hl : (∀ m, (s.lockState m).lockCount ≠ 0 →
    (s.lockState m).managed = true) → ∀ j, Pending s j → (s.stateOf j).managed = true) (hk : Keeps s t)
    (hcalm : Calm s.task) (hcalm' : Calm t.task) (hstack : t.stack.filterMap Frame.denying = s.stack.filterMap Frame.denying)
    (h : Phase s) : Phase t := by
  cases h with
  | alive hm htask hstack₀ hc hd hcount =>
    refine .alive (hk.manager.trans hm) hcalm' (hstack.trans hstack₀) ?_ (hd.of_keeps hs ht hk) fun m hm => ?_
    · obtain hsame | ⟨j, hp, hmanaged⟩ := hk.corrupted
      · exact hsame.trans hc
      · exact Bool.noConfusion (hmanaged.symm.trans (hl hcount j hp))
    · rw [hk.lockCount] at hm
      rw [hk.managed]
      exact hcount m hm
  | next _ _ htask | denying _ _ htask =>
    obtain ⟨_, hx⟩ := hcalm _ htask
    cases hx
  | waiting n hm htask hstack₀ hd =>
    exact .waiting n (hk.manager.trans hm) hcalm' (hstack.trans hstack₀) (hd.of_keeps hs ht hk)
  | deleted hm htask hstack₀ hd =>
    exact .deleted (hk.manager.trans hm) hcalm' (hstack.trans hstack₀) (hd.of_keeps hs ht hk)

theorem Phase.of_eq (h : Phase s) (hm : t.manager = s.manager) (htask : t.task = s.task)
    (hstack : t.stack.filterMap Frame.denying = s.stack.filterMap Frame.denying) (hc : t.corrupted = s.corrupted)
    (hmap : t.lockStateMap = s.lockStateMap) (hstate : t.lockState = s.lockState) : Phase t := by
  have hdrained : ∀ {done current : Name → Prop}, Drained s done current → Drained t done current := by
    intro done current hd
    refine ⟨hmap ▸ hd.map, ?_, ?_⟩
    · rw [hmap, hstate]
      exact hd.managed
    · rw [hstate]
      exact hd.pendingLocks
  cases h with
  | alive hm₀ htask₀ hstack₀ hc₀ hd hcount =>
    exact .alive (hm.trans hm₀) (htask ▸ htask₀) (hstack.trans hstack₀) (hc.trans hc₀) (hdrained hd) (hstate ▸ hcount)
  | next n hm₀ htask₀ hstack₀ hd hn =>
    exact .next n (hm.trans hm₀) (htask.trans htask₀) (hstack.trans hstack₀) (hdrained hd) (hmap ▸ hn)
  | denying n hm₀ htask₀ hstack₀ hd =>
    exact .denying n (hm.trans hm₀) (htask.trans htask₀) (hstack.trans hstack₀) (hdrained hd)
  | waiting n hm₀ htask₀ hstack₀ hd =>
    exact .waiting n (hm.trans hm₀) (htask ▸ htask₀) (hstack.trans hstack₀) (hdrained hd)
  | deleted hm₀ htask₀ hstack₀ hd =>
    exact .deleted (hm.trans hm₀) (htask ▸ htask₀) (hstack.trans hstack₀) (hdrained hd)

theorem Core.reframe (h : Core s) (task : Option (Task Name)) (stack : List (Frame Name)) (steals : List Steal) :
    Core { s with task := task, stack := stack, steals := steals } :=
  h.of_eq rfl (fun _ => rfl) (fun _ => rfl) (fun _ => rfl) rfl rfl (le_refl _) rfl rfl

structure Consistent (s : State Name) : Prop where
  core : Core s
  lives : Lives s
  phase : Phase s

theorem Consistent.of_keeps (h : Consistent s) (hcalm : Calm s.task) (ht : Core t) (hk : Keeps s t)
    (hcalm' : Calm t.task) (hr : t.stack.filterMap Frame.removing = s.stack.filterMap Frame.removing)
    (hd : t.stack.filterMap Frame.denying = s.stack.filterMap Frame.denying) : Consistent t :=
  ⟨ht, h.lives.of_keeps hk hr,
    h.phase.of_keeps h.core ht (fun hcount _ hp => h.lives.managed_of_pending hcount hp) hk hcalm hcalm' hd⟩

theorem Consistent.change (h : Consistent s) (hcalm : Calm s.task) (hch : Change s t) (hcalm' : Calm t.task)
    (hstack : t.stack = s.stack) : Consistent t :=
  h.of_keeps hcalm (hch.core h.core) (hch.keeps h.core) hcalm' (by rw [hstack]) (by rw [hstack])

theorem Consistent.fail (h : Consistent s) (f : Failure) : Consistent { s with failed := some f } := by
  refine ⟨h.core.of_eq rfl (fun _ => rfl) (fun _ => rfl) (fun _ => rfl) rfl rfl (le_refl _) rfl rfl,
    ⟨h.lives.alive, h.lives.unborn, h.lives.counted, h.lives.removing, h.lives.dying⟩, ?_⟩
  exact h.phase.of_eq rfl rfl rfl rfl rfl rfl

theorem Consistent.advance (h : Consistent s) (ms : ℕ) : Consistent { s with clock := s.clock + ms } := by
  have hle : s.clock ≤ s.clock + ms := by omega
  refine ⟨h.core.of_eq rfl (fun _ => rfl) (fun _ => rfl) (fun _ => rfl) rfl rfl hle rfl rfl,
    ⟨h.lives.alive, h.lives.unborn, h.lives.counted, h.lives.removing, h.lives.dying⟩, ?_⟩
  exact h.phase.of_eq rfl rfl rfl rfl rfl rfl

theorem Consistent.woken {nowMs : ℤ} (h : Consistent s) (hcalm : Calm s.task) (hw : Woken s nowMs t) : Consistent t := by
  cases hw with
  | done => exact h.of_keeps hcalm (h.core.reframe none s.stack s.steals) ((Keeps.refl s).reframe _ _ _) calm_none rfl rfl
  | denied i r hp hr =>
    have hch : Change s (s.responded i kNotHeld r false) := .deny i r hp hr
    exact h.of_keeps hcalm ((hch.core h.core).reframe _ _ _) ((hch.keeps h.core).reframe _ _ _) calm_none rfl rfl
  | stolen i o r l l' t hi hfirst hdue hsteal ho hr hh =>
    have hch : Change s t := .release _ o t (.handed i r l' t ho hfirst hr hh)
    have hstack : t.stack = s.stack := by rw [hh.eq]
    refine h.of_keeps hcalm ((hch.core h.core).reframe _ _ _) ((hch.keeps h.core).reframe _ _ _) calm_none ?_ ?_
    · rw [← hstack]
      rfl
    · rw [← hstack]
      rfl

end Lifetimes

section Destruction

variable {Name : Type} [LinearOrder Name] {s t u : State Name} {i : ℕ} {n : Name}

theorem find?_first {l : List Name} {q : Name → Bool} {k m : Name} (h : Ordered id l) (hk : l.find? q = some k)
    (hm : m ∈ l) (hq : q m = true) : k ≤ m := by
  induction l with
  | nil => cases hm
  | cons x l ih =>
    obtain ⟨hx, hl⟩ := List.pairwise_cons.mp h
    by_cases hqx : q x = true
    · rw [List.find?_cons_of_pos hqx] at hk
      obtain rfl := Option.some.inj hk
      exact h.first_le hm
    · rw [List.find?_cons_of_neg hqx] at hk
      obtain rfl | hm := List.mem_cons.mp hm
      · exact absurd hq hqx
      · exact ih hl hk hm

theorem Lives.reframe (h : Lives s) (manager : Life) (task : Option (Task Name)) {stack : List (Frame Name)}
    (hstack : stack.filterMap Frame.removing = s.stack.filterMap Frame.removing) :
    Lives { s with manager := manager, task := task, stack := stack } := by
  refine ⟨h.alive, h.unborn, h.counted, ?_, fun i hi => ?_⟩
  · exact hstack ▸ h.removing
  · exact h.dying i (hstack ▸ hi)

theorem Core.retask (h : Core s) (manager : Life) (task : Option (Task Name)) (stack : List (Frame Name)) :
    Core { s with manager := manager, task := task, stack := stack } :=
  h.of_eq rfl (fun _ => rfl) (fun _ => rfl) (fun _ => rfl) rfl rfl (le_refl _) rfl rfl

theorem Drained.reframe {done current : Name → Prop} (h : Drained s done current) (manager : Life)
    (task : Option (Task Name)) (stack : List (Frame Name)) :
    Drained { s with manager := manager, task := task, stack := stack } done current :=
  ⟨h.map, h.managed, h.pendingLocks⟩

theorem Drained.mono {done done' current : Name → Prop} (h : Drained s done current) (hiff : ∀ m, done' m ↔ done m) :
    Drained s done' current := by
  obtain rfl : done' = done := funext fun m => propext (hiff m)
  exact h

theorem Consistent.destroyManager (h : Consistent s) (hm : s.manager = .alive) :
    Consistent { s with manager := .dying, task := some (.destroyStates s.lockStateMap.head?) } := by
  cases h.phase with
  | alive _ htask hstack hc hd hcount =>
    refine ⟨h.core.retask _ _ _, h.lives.reframe _ _ rfl, .next s.lockStateMap.head? rfl rfl hstack ?_
      fun k hk => List.mem_of_mem_head? hk⟩
    refine ⟨hd.map, fun m => ?_, fun m hm _ => hd.pendingLocks m hm id⟩
    refine (hd.managed m).trans ?_
    cases hl : s.lockStateMap with
    | nil => simp
    | cons k l =>
      have hord : Ordered id (k :: l) := hl ▸ hd.map
      constructor
      · rintro ⟨hmem, -⟩
        exact ⟨hmem, fun hlt => (hlt k rfl).not_ge (hord.first_le hmem), id⟩
      · rintro ⟨hmem, -⟩
        exact ⟨hmem, id, id⟩
  | next _ hm' | denying _ hm' | waiting _ hm' | deleted hm' => cases hm.symm.trans hm'

theorem Consistent.iterate_states {k : Option Name} (h : Consistent s) (htask : s.task = some (.destroyStates k)) :
    ∃ t, s.iterate (.destroyStates k) = .ok t ∧ Consistent t ∧ LocksEq s t ∧
      t = { s with lockState := t.lockState, manager := t.manager, task := t.task } ∧
      (∀ m, (t.lockState m).lockCount = (s.lockState m).lockCount) ∧ s.manager = .dying ∧
      ∀ nowMs, t.task ≠ some (.wakeup nowMs) := by
  cases h.phase with
  | alive _ hcalm | waiting _ _ hcalm | deleted _ hcalm =>
    obtain ⟨_, hx⟩ := hcalm (.destroyStates k) htask
    cases hx
  | next n hm htask' hstack hd hn =>
    have hkn : k = n := by
      have heq := Option.some.inj (htask.symm.trans htask')
      cases heq
      rfl
    subst hkn
    cases k with
    | none =>
      refine ⟨_, rfl, ⟨h.core.retask _ _ _, h.lives.reframe _ _ rfl, .deleted rfl calm_none hstack ?_⟩,
        ⟨rfl, fun _ => rfl, fun _ => rfl, fun _ => rfl⟩, rfl, fun _ => rfl, hm, fun _ h => by cases h⟩
      exact (hd.mono fun m => iff_of_true trivial (by rintro _ ⟨⟩)).reframe _ _ _
    | some n =>
      have hmanaged : (s.lockState n).managed = true :=
        (hd.managed n).mpr ⟨hn n rfl, fun hlt => lt_irrefl n (hlt n rfl), id⟩
      have hstate : ∀ m, ((s.setState n { s.lockState n with managed := false }).lockState m) =
          { s.lockState m with managed := if m = n then false else (s.lockState m).managed } := by
        intro m
        by_cases hmn : m = n
        · subst hmn
          simp [State.setState]
        · simp [State.setState, hmn]
      have howner : ∀ m, ((s.setState n { s.lockState n with managed := false }).lockState m).currentOwner =
          (s.lockState m).currentOwner := fun m => (congrArg LockState.currentOwner (hstate m)).trans rfl
      have hlocks : ∀ m, ((s.setState n { s.lockState n with managed := false }).lockState m).pendingLocks =
          (s.lockState m).pendingLocks := fun m => (congrArg LockState.pendingLocks (hstate m)).trans rfl
      have hsteals : ∀ m, ((s.setState n { s.lockState n with managed := false }).lockState m).pendingSteals =
          (s.lockState m).pendingSteals := fun m => (congrArg LockState.pendingSteals (hstate m)).trans rfl
      refine ⟨{ s.setState n { s.lockState n with managed := false } with task := some (.denyPending n) }, if_pos hmanaged,
        ⟨?_, ?_, ?_⟩, ⟨rfl, howner, hlocks, hsteals⟩, rfl, fun m => ?_, hm, fun _ h => by cases h⟩
      · exact h.core.of_eq rfl howner hlocks hsteals rfl rfl (le_refl _) rfl rfl
      · refine ⟨h.lives.alive, h.lives.unborn, fun m => ?_, h.lives.removing, h.lives.dying⟩
        exact (congrArg LockState.lockCount (hstate m)).trans (h.lives.counted m)
      · refine .denying n hm rfl hstack ⟨hd.map, fun m => ?_, fun m hm' hmn => ?_⟩
        · have heq := congrArg LockState.managed (hstate m)
          change ((s.setState n { s.lockState n with managed := false }).lockState m).managed = true ↔
            m ∈ s.lockStateMap ∧ ¬ m < n ∧ ¬ m = n
          rw [heq]
          by_cases hmn : m = n
          · simp [hmn]
          · simp only [if_neg hmn, hd.managed m]
            constructor
            · rintro ⟨hmem, hnot, -⟩
              exact ⟨hmem, fun hlt => hnot fun k hk => Option.some.inj hk ▸ hlt, hmn⟩
            · rintro ⟨hmem, hnot, -⟩
              exact ⟨hmem, fun hall => hnot (hall n rfl), id⟩
        · have hm'' : (s.lockState m).managed = false := by
            have heq := (congrArg LockState.managed (hstate m)).symm.trans hm'
            simpa [hmn] using heq
          exact (hlocks m).trans (hd.pendingLocks m hm'' id)
      · exact (congrArg LockState.lockCount (hstate m)).trans rfl
  | denying n _ htask' _ _ => cases htask.symm.trans htask'

theorem Consistent.iterate_denyPending (h : Consistent s) (htask : s.task = some (.denyPending n)) :
    ∃ t, s.iterate (.denyPending n) = .ok t ∧ Consistent t ∧ s.manager = .dying ∧
      ((∃ k, t = { s with task := some (.destroyStates k) }) ∨
        ∃ i r, Pending s i ∧ (s.lock i).callback = some r ∧ (s.lock i).name = n ∧
          t = { s.responded i kNotHeld r false with task := none, stack := .denyPending n :: s.stack }) := by
  cases h.phase with
  | alive _ hcalm | waiting _ _ hcalm | deleted _ hcalm =>
    obtain ⟨_, hx⟩ := hcalm (.denyPending n) htask
    cases hx
  | next k _ htask' _ _ _ => cases htask.symm.trans htask'
  | denying n' hm htask' hstack hd =>
    obtain rfl : n = n' := by
      cases htask.symm.trans htask'
      rfl
    have hunmanaged : (s.lockState n).managed = false :=
      Bool.eq_false_iff.mpr fun hyes => ((hd.managed n).mp hyes).2.2 rfl
    cases hl : (s.lockState n).pendingLocks with
    | nil =>
      refine ⟨{ s with task := some (.destroyStates (s.lockStateMap.find? (n < ·))) }, ?_, ⟨h.core.retask _ _ _,
        h.lives.reframe _ _ rfl, .next (s.lockStateMap.find? (n < ·)) hm rfl hstack ⟨hd.map, fun m => ?_, fun m hm' _ => ?_⟩
        fun k hk => List.mem_of_find?_eq_some hk⟩, hm, Or.inl ⟨_, rfl⟩⟩
      · unfold State.iterate
        simp only [hl]
      · refine (hd.managed m).trans ?_
        constructor
        · rintro ⟨hmem, hnlt, hne⟩
          have hlt : n < m := lt_of_le_of_ne (not_lt.mp hnlt) (Ne.symm hne)
          refine ⟨hmem, fun hall => ?_, id⟩
          cases hk : s.lockStateMap.find? (n < ·) with
          | none =>
            have hnot := List.find?_eq_none.mp hk m hmem
            simp [hlt] at hnot
          | some k => exact (hall k hk).not_ge (find?_first hd.map hk hmem (by simpa using hlt))
        · rintro ⟨hmem, hnot, -⟩
          obtain ⟨k, hk⟩ := not_forall.mp hnot
          obtain ⟨hk, hkm⟩ := Classical.not_imp.mp hk
          have hnk : n < k := by simpa using List.find?_some hk
          have hnm : n < m := lt_of_lt_of_le hnk (not_lt.mp hkm)
          exact ⟨hmem, hnm.not_gt, hnm.ne'⟩
      · by_cases hmn : m = n
        · rw [hmn]
          exact hl
        · exact hd.pendingLocks m hm' hmn
    | cons i l =>
      obtain ⟨hname, hpending⟩ := h.core.first_pending hl
      obtain ⟨r, hr, hdeny, hch⟩ | ⟨-, hmanaged, -⟩ := deny_cases h.core hpending
      · have hcore := hch.core h.core
        have hk := hch.keeps h.core
        refine ⟨{ s.responded i kNotHeld r false with task := none, stack := .denyPending n :: s.stack }, ?_,
          ⟨hcore.reframe none (.denyPending n :: s.stack) s.steals,
            h.lives.of_keeps (hk.reframe none (.denyPending n :: s.stack) s.steals) rfl, ?_⟩, hm,
          Or.inr ⟨i, r, hpending, hr, hname, rfl⟩⟩
        · unfold State.iterate
          simp only [hl]
          rw [hdeny]
          rfl
        · refine .waiting n hm calm_none ?_ ?_
          · change n :: s.stack.filterMap Frame.denying = [n]
            rw [hstack]
          · exact (hd.of_keeps h.core hcore hk).reframe _ _ _
      · unfold State.stateOf at hmanaged
        rw [hname, hunmanaged] at hmanaged
        cases hmanaged

end Destruction

section Lifecycle

variable {Name : Type} [LinearOrder Name] {s t u : State Name} {i : ℕ} {n : Name}

theorem lockState_create (s : State Name) (n m : Name) :
    (s.createNamedLock n).lockState m =
      if m = n then { s.lockState n with lockCount := (s.lockState n).lockCount + 1, managed := true }
      else s.lockState m := by
  by_cases hm : m = n <;> simp [State.createNamedLock, State.setState, hm]

theorem Consistent.create (h : Consistent s) (hm : s.manager = .alive) :
    Consistent (s.createNamedLock n) := by
  have hborn : s.life s.sequence = .unborn := (h.lives.unborn s.sequence).mpr (le_refl _)
  obtain ⟨hnot, hheld⟩ := h.lives.alive s.sequence (by rw [hborn]; exact nofun)
  have hself : (s.createNamedLock n).lock s.sequence = ⟨n, none, 0, kNotHeld, 0, kNotPending⟩ :=
    Function.update_self s.sequence _ _
  have hother : ∀ j, j ≠ s.sequence → (s.createNamedLock n).lock j = s.lock j := fun j hj => Function.update_of_ne hj _ _
  have hstate := lockState_create s n
  have hsame : ∀ m, ((s.createNamedLock n).lockState m).currentOwner = (s.lockState m).currentOwner ∧
      ((s.createNamedLock n).lockState m).pendingLocks = (s.lockState m).pendingLocks ∧
      ((s.createNamedLock n).lockState m).pendingSteals = (s.lockState m).pendingSteals := by
    intro m
    rw [hstate]
    split_ifs with hmn
    · rw [hmn]
      exact ⟨rfl, rfl, rfl⟩
    · exact ⟨rfl, rfl, rfl⟩
  have hP : ∀ j, Pending (s.createNamedLock n) j ↔ Pending s j := by
    intro j
    by_cases hj : j = s.sequence
    · subst hj
      refine iff_of_false (fun hp => ?_) hnot
      unfold Pending at hp
      rw [hself] at hp
      cases hp
    · unfold Pending
      rw [hother j hj]
  refine ⟨⟨?_, fun j => ?_, h.core.clock, fun m j => ?_, fun j hj => ?_, ?_⟩, ⟨fun j hj => ?_, fun j => ?_, fun m => ?_,
    h.lives.removing, fun j hj => ?_⟩, ?_⟩
  · exact ((h.core.sets.setLock ⟨n, none, 0, kNotHeld, 0, kNotPending⟩ hnot hnot).congr hP hP).of_eq rfl (fun m => (hsame m).2.1)
      (fun m => (hsame m).2.2) rfl id
  · by_cases hj : j = s.sequence
    · subst hj
      rw [hself]
      exact Lock.sound_clear ⟨n, none, 0, kNotHeld, 0, kNotPending⟩ _
    · rw [hother j hj]
      exact h.core.sound j
  · rw [(hsame m).1]
    by_cases hj : j = s.sequence
    · subst hj
      rw [hself, h.core.owner]
      refine iff_of_false (fun hboth => ?_) fun hboth => ?_
      · exact Bool.noConfusion (hheld.symm.trans hboth.2)
      · cases hboth.2
    · rw [hother j hj]
      exact h.core.owner m j
  · have hjs := (hP j).mp hj
    have hne : j ≠ s.sequence := fun he => hnot (he ▸ hjs)
    unfold State.stateOf
    rw [(hsame _).1, hother j hne]
    exact h.core.waits j hjs
  · have hcb : (fun j => ((s.createNamedLock n).lock j).callback) = fun j => (s.lock j).callback := by
      funext j
      by_cases hj : j = s.sequence
      · subst hj
        rw [hself, h.core.callback_eq_none hnot]
      · rw [hother j hj]
    change Requests s.called s.requests fun j => ((s.createNamedLock n).lock j).callback
    rw [hcb]
    exact h.core.requests
  · change Function.update s.life s.sequence .alive j ≠ .alive at hj
    by_cases hjs : j = s.sequence
    · subst hjs
      rw [Function.update_self] at hj
      exact absurd rfl hj
    · rw [Function.update_of_ne hjs] at hj
      rw [hP, hother j hjs]
      exact h.lives.alive j hj
  · change Function.update s.life s.sequence .alive j = .unborn ↔ s.sequence + 1 ≤ j
    by_cases hjs : j = s.sequence
    · subst hjs
      rw [Function.update_self]
      exact iff_of_false nofun (by omega)
    · rw [Function.update_of_ne hjs, h.lives.unborn]
      omega
  · have hlife : ∀ j, j < s.sequence → (s.createNamedLock n).life j = s.life j := fun j hj =>
      Function.update_of_ne hj.ne _ _
    have hfilter : (Finset.range s.sequence).filter (fun j => ((s.createNamedLock n).lock j).name = m ∧
        (s.createNamedLock n).life j ≠ .deleted) = s.counted m := by
      refine Finset.filter_congr fun j hj => ?_
      have hlt := Finset.mem_range.mp hj
      rw [hother j hlt.ne, hlife j hlt]
    have hnew : (s.createNamedLock n).life s.sequence = .alive := Function.update_self s.sequence _ _
    change _ = ((Finset.range (s.sequence + 1)).filter (fun j => ((s.createNamedLock n).lock j).name = m ∧
      (s.createNamedLock n).life j ≠ .deleted)).card
    rw [Finset.range_add_one, Finset.filter_insert, hfilter, hstate]
    by_cases hmn : m = n
    · subst hmn
      have hin : ((s.createNamedLock m).lock s.sequence).name = m ∧ (s.createNamedLock m).life s.sequence ≠ .deleted := by
        rw [hself, hnew]
        exact ⟨rfl, nofun⟩
      have hout : s.sequence ∉ s.counted m := fun hmem => by
        have hlt := Finset.mem_range.mp (Finset.mem_filter.mp hmem).1
        omega
      rw [if_pos rfl, if_pos hin, Finset.card_insert_of_notMem hout, ← h.lives.counted]
    · have hout : ¬ (((s.createNamedLock n).lock s.sequence).name = m ∧
          (s.createNamedLock n).life s.sequence ≠ .deleted) := by
        rw [hself]
        exact fun hboth => hmn hboth.1.symm
      rw [if_neg hmn, if_neg hout]
      exact h.lives.counted m
  · have hdying := h.lives.dying j hj
    have hne : j ≠ s.sequence := by
      rintro rfl
      cases hborn.symm.trans hdying
    exact (Function.update_of_ne hne _ _).trans hdying
  · cases h.phase with
    | alive hm htask hstack hc hd hcount =>
      refine .alive hm htask hstack hc ⟨insert_ordered hd.map, fun m => ?_, fun m hm' _ => ?_⟩
        fun m hm' => ?_
      · change ((s.createNamedLock n).lockState m).managed = true ↔
          m ∈ OrderedSet.insert id n s.lockStateMap ∧ ¬ False ∧ ¬ False
        rw [mem_insert Function.injective_id, hstate]
        by_cases hmn : m = n
        · simp [hmn]
        · rw [if_neg hmn, hd.managed m]
          simp [hmn]
      · rw [(hsame m).2.1]
        rw [hstate] at hm'
        split_ifs at hm' with hmn
        exact hd.pendingLocks m hm' id
      · rw [hstate] at hm' ⊢
        split_ifs at hm' ⊢ with hmn
        · rfl
        · exact hcount m hm'
    | next _ hm' | denying _ hm' | waiting _ hm' | deleted hm' => cases hm.symm.trans hm'

theorem Consistent.last_lock (h : Consistent s) (hi : s.life i = .dying) (hone : (s.stateOf i).lockCount = 1) :
    (s.stateOf i).currentOwner = none ∧ (s.stateOf i).pendingLocks = [] ∧ (s.stateOf i).pendingSteals = [] := by
  have honly : ∀ j, s.life j = .alive → (s.lock j).name ≠ (s.lock i).name := by
    intro j hj hname
    have hcard : (s.counted (s.lock i).name).card = 1 := (h.lives.counted _).symm.trans hone
    obtain ⟨k, hk⟩ := Finset.card_eq_one.mp hcard
    have hmem : ∀ j', s.life j' ≠ .unborn → s.life j' ≠ .deleted → (s.lock j').name = (s.lock i).name → j' = k := by
      intro j' hb hd hn
      have hlt : j' < s.sequence := not_le.mp fun hle => hb ((h.lives.unborn j').mpr hle)
      have hin : j' ∈ s.counted (s.lock i).name := Finset.mem_filter.mpr ⟨Finset.mem_range.mpr hlt, hn, hd⟩
      rw [hk] at hin
      exact Finset.mem_singleton.mp hin
    have hik := hmem i (by rw [hi]; exact nofun) (by rw [hi]; exact nofun) rfl
    have hjk := hmem j (by rw [hj]; exact nofun) (by rw [hj]; exact nofun) hname
    rw [hjk.trans hik.symm, hi] at hj
    cases hj
  have hpending : ∀ j, Pending s j → (s.lock j).name ≠ (s.lock i).name := by
    intro j hp
    refine honly j ?_
    by_contra hne
    exact (h.lives.alive j hne).1 hp
  refine ⟨?_, ?_, ?_⟩
  · by_contra hne
    obtain ⟨o, ho⟩ := Option.ne_none_iff_exists'.mp hne
    obtain ⟨hname, hheld⟩ := (h.core.owner _ o).mp ho
    refine honly o ?_ hname
    by_contra hno
    exact Bool.noConfusion ((h.lives.alive o hno).2.symm.trans hheld)
  · refine List.eq_nil_iff_forall_not_mem.mpr fun j hj => ?_
    obtain ⟨hname, hp⟩ := (h.core.sets.pending _ j).mp hj
    exact hpending j hp hname
  · refine List.eq_nil_iff_forall_not_mem.mpr fun j hj => ?_
    obtain ⟨hname, hp, -⟩ := (h.core.sets.steals _ j).mp hj
    exact hpending j hp hname

structure Removed (s : State Name) (i : ℕ) (t : State Name) : Prop where
  eq : t = { s with life := t.life, lockState := t.lockState, lockStateMap := t.lockStateMap }
  life : t.life = Function.update s.life i .deleted
  currentOwner : ∀ m, (t.lockState m).currentOwner = (s.lockState m).currentOwner
  pendingLocks : ∀ m, (t.lockState m).pendingLocks = (s.lockState m).pendingLocks
  pendingSteals : ∀ m, (t.lockState m).pendingSteals = (s.lockState m).pendingSteals
  lockCount : ∀ m, (t.lockState m).lockCount =
    if m = (s.lock i).name then (s.lockState m).lockCount - 1 else (s.lockState m).lockCount
  managed : ∀ m, (t.lockState m).managed = true ↔
    (s.lockState m).managed = true ∧ (m = (s.lock i).name → (s.lockState m).lockCount ≠ 1)
  map : ∀ m, m ∈ t.lockStateMap ↔ m ∈ s.lockStateMap ∧
    (m = (s.lock i).name → (s.lockState m).managed = true → (s.lockState m).lockCount ≠ 1)
  ordered : Ordered id s.lockStateMap → Ordered id t.lockStateMap

theorem Consistent.removeLock_eq (h : Consistent s) (hi : s.life i = .dying)
    (hmap : (s.stateOf i).managed = true → (s.lock i).name ∈ s.lockStateMap) :
    ∃ t, s.removeLock i = .ok t ∧ Removed s i t := by
  by_cases hone : (s.stateOf i).lockCount = 1
  · obtain ⟨hown, hlocks, hsteals⟩ := h.last_lock hi hone
    have hone' : (s.lockState (s.lock i).name).lockCount = 1 := hone
    have hnot : ¬ ((s.lockState (s.lock i).name).pendingLocks ≠ [] ∨ (s.lockState (s.lock i).name).pendingSteals ≠ [] ∨
        ((s.lockState (s.lock i).name).managed = true ∧ (s.lock i).name ∉ s.lockStateMap)) := by
      rintro (hne | hne | ⟨hm, hnm⟩)
      · exact hne hlocks
      · exact hne hsteals
      · exact hnm (hmap hm)
    have hstate : ∀ m, ({ s with life := Function.update s.life i .deleted }.setState (s.lock i).name
        LockState.none).lockState m = if m = (s.lock i).name then LockState.none else s.lockState m := by
      intro m
      by_cases hm : m = (s.lock i).name <;> simp [State.setState, hm]
    refine ⟨{ { s with life := Function.update s.life i .deleted }.setState (s.lock i).name LockState.none with
        lockStateMap := if (s.lockState (s.lock i).name).managed then erase id (s.lock i).name s.lockStateMap
          else s.lockStateMap }, ?_, ⟨rfl, rfl, fun m => ?_, fun m => ?_, fun m => ?_, fun m => ?_, fun m => ?_,
      fun m => ?_, fun hord => ?_⟩⟩
    · unfold State.removeLock
      simp only [hone', if_true, if_neg hnot]
    · rw [hstate]
      split_ifs with hm
      · rw [hm]
        exact hown.symm
      · rfl
    · rw [hstate]
      split_ifs with hm
      · rw [hm]
        exact hlocks.symm
      · rfl
    · rw [hstate]
      split_ifs with hm
      · rw [hm]
        exact hsteals.symm
      · rfl
    · rw [hstate]
      split_ifs with hm
      · rw [hm, hone']
        rfl
      · rfl
    · rw [hstate]
      split_ifs with hm
      · refine iff_of_false Bool.false_ne_true fun hboth => hboth.2 hm ?_
        rw [hm]
        exact hone
      · simp [hm]
    · change m ∈ (if (s.lockState (s.lock i).name).managed then erase id (s.lock i).name s.lockStateMap
        else s.lockStateMap) ↔ _
      split_ifs with hm
      · rw [mem_erase Function.injective_id]
        refine and_congr_right fun _ => ⟨fun hne heq => absurd heq hne, fun hall heq => ?_⟩
        refine hall heq ?_ ?_
        · rw [heq]
          exact hm
        · rw [heq]
          exact hone
      · refine (and_iff_left fun heq hm' => ?_).symm
        rw [heq] at hm'
        exact absurd hm' hm
    · change Ordered id (if (s.lockState (s.lock i).name).managed then erase id (s.lock i).name s.lockStateMap
        else s.lockStateMap)
      split_ifs
      · exact erase_ordered hord
      · exact hord
  · have hone' : ¬ (s.lockState (s.lock i).name).lockCount = 1 := hone
    have hstate : ∀ m, ({ s with life := Function.update s.life i .deleted }.setState (s.lock i).name
        { s.stateOf i with lockCount := (s.stateOf i).lockCount - 1 }).lockState m =
        { s.lockState m with lockCount :=
            if m = (s.lock i).name then (s.lockState m).lockCount - 1 else (s.lockState m).lockCount } := by
      intro m
      by_cases hm : m = (s.lock i).name <;> simp [State.setState, State.stateOf, hm]
    have hkeep : ∀ m, m = (s.lock i).name → (s.lockState m).lockCount ≠ 1 := by
      rintro m rfl
      exact hone'
    refine ⟨{ s with life := Function.update s.life i .deleted }.setState (s.lock i).name
        { s.stateOf i with lockCount := (s.stateOf i).lockCount - 1 }, ?_, ⟨rfl, rfl, fun m => ?_, fun m => ?_,
      fun m => ?_, fun m => ?_, fun m => ?_, fun m => ?_, id⟩⟩
    · unfold State.removeLock
      simp only [hone', if_false]
      rfl
    · rw [hstate]
    · rw [hstate]
    · rw [hstate]
    · rw [hstate]
    · rw [hstate]
      exact (and_iff_left (hkeep m)).symm
    · exact (and_iff_left fun heq _ => hkeep m heq).symm

theorem Consistent.removed (h : Consistent s) (hcalm : Calm s.task) (hi : s.life i = .dying)
    (hnot : i ∉ s.stack.filterMap Frame.removing) (hr : Removed s i t) : Consistent t := by
  have heq := hr.eq
  have hlock : t.lock = s.lock := by rw [heq]
  have hstack : t.stack = s.stack := by rw [heq]
  have htask : t.task = s.task := by rw [heq]
  have hmanager : t.manager = s.manager := by rw [heq]
  have hcorrupted : t.corrupted = s.corrupted := by rw [heq]
  have hborn : i < s.sequence := by
    refine not_le.mp fun hle => ?_
    cases hi.symm.trans ((h.lives.unborn i).mpr hle)
  have hother : ∀ j, j ≠ i → t.life j = s.life j := by
    intro j hj
    rw [hr.life, Function.update_of_ne hj]
  have hself : t.life i = .deleted := by rw [hr.life, Function.update_self]
  have hdrained : ∀ {done current : Name → Prop}, Drained s done current → Drained t done current := by
    intro done current hd
    refine ⟨hr.ordered hd.map, fun m => ?_, fun m hm hcur => ?_⟩
    · rw [hr.managed, hr.map, hd.managed m]
      constructor
      · rintro ⟨⟨hmem, hdone, hcur⟩, hone⟩
        exact ⟨⟨hmem, fun hmn _ => hone hmn⟩, hdone, hcur⟩
      · rintro ⟨⟨hmem, hone⟩, hdone, hcur⟩
        exact ⟨⟨hmem, hdone, hcur⟩, fun hmn => hone hmn ⟨hmem, hdone, hcur⟩⟩
    · rw [hr.pendingLocks]
      cases hms : (s.lockState m).managed with
      | false => exact hd.pendingLocks m hms hcur
      | true =>
        by_cases hmn : m = (s.lock i).name
        · subst hmn
          have hone : (s.stateOf i).lockCount = 1 := by
            by_contra hne
            have hyes := (hr.managed (s.lock i).name).mpr ⟨hms, fun _ => hne⟩
            exact Bool.noConfusion (hm.symm.trans hyes)
          exact (h.last_lock hi hone).2.1
        · have hyes := (hr.managed m).mpr ⟨hms, fun he => absurd he hmn⟩
          exact Bool.noConfusion (hm.symm.trans hyes)
  refine ⟨?_, ⟨fun j hj => ?_, fun j => ?_, fun m => ?_, ?_, fun j hj => ?_⟩, ?_⟩
  · refine h.core.of_eq hlock hr.currentOwner hr.pendingLocks hr.pendingSteals ?_ hcorrupted ?_ ?_ ?_
    · rw [heq]
    · rw [heq]
    · rw [heq]
    · rw [heq]
  · unfold Pending
    rw [hlock]
    by_cases hji : j = i
    · subst hji
      exact h.lives.alive j (by rw [hi]; exact nofun)
    · rw [hother j hji] at hj
      exact h.lives.alive j hj
  · have hsequence : t.sequence = s.sequence := by rw [heq]
    rw [hsequence]
    by_cases hji : j = i
    · subst hji
      rw [hself]
      exact iff_of_false nofun hborn.not_ge
    · rw [hother j hji]
      exact h.lives.unborn j
  · have hsequence : t.sequence = s.sequence := by rw [heq]
    have hcounted : t.counted m = (s.counted m).erase i := by
      ext j
      simp only [State.counted, Finset.mem_erase, Finset.mem_filter, hsequence, hlock]
      by_cases hji : j = i
      · subst hji
        simp [hself]
      · simp [hji, hother j hji]
    rw [hr.lockCount, hcounted, h.lives.counted]
    split_ifs with hm
    · subst hm
      have hmem : i ∈ s.counted (s.lock i).name :=
        Finset.mem_filter.mpr ⟨Finset.mem_range.mpr hborn, rfl, by rw [hi]; exact nofun⟩
      rw [Finset.card_erase_of_mem hmem]
    · have hmem : i ∉ s.counted m := fun hmem => hm (Finset.mem_filter.mp hmem).2.1.symm
      rw [Finset.erase_eq_of_notMem hmem]
  · rw [hstack]
    exact h.lives.removing
  · rw [hstack] at hj
    rw [hother j fun he => hnot (he ▸ hj)]
    exact h.lives.dying j hj
  · cases h.phase with
    | alive hm hcalm' hstack₀ hc hd hcount =>
      refine .alive (hmanager.trans hm) (htask ▸ hcalm') (hstack ▸ hstack₀) (hcorrupted.trans hc) (hdrained hd)
        fun m hm => ?_
      rw [hr.lockCount] at hm
      refine (hr.managed m).mpr ⟨hcount m fun hzero => ?_, fun hmn hone => ?_⟩
      · rw [hzero] at hm
        split_ifs at hm <;> exact hm rfl
      · rw [if_pos hmn, hone] at hm
        exact hm rfl
    | next _ _ htask' | denying _ _ htask' =>
      obtain ⟨_, hx⟩ := hcalm _ htask'
      cases hx
    | waiting n hm hcalm' hstack₀ hd =>
      exact .waiting n (hmanager.trans hm) (htask ▸ hcalm') (hstack ▸ hstack₀) (hdrained hd)
    | deleted hm hcalm' hstack₀ hd =>
      exact .deleted (hmanager.trans hm) (htask ▸ hcalm') (hstack ▸ hstack₀) (hdrained hd)

theorem Phase.mem_map (h : Phase s) (hm : (s.lockState n).managed = true) : n ∈ s.lockStateMap := by
  cases h with
  | alive _ _ _ _ hd | next _ _ _ _ hd | denying _ _ _ _ hd | waiting _ _ _ _ hd | deleted _ _ _ hd =>
    exact ((hd.managed n).mp hm).1

inductive Parted (s : State Name) (i : ℕ) : State Name → Prop where
  | quiet (hp : ¬ Pending s i) (hh : (s.lock i).held = false) :
      Parted s i { s with life := Function.update s.life i .dying }
  | denied (r : ℕ) (hp : Pending s i) (hr : (s.lock i).callback = some r) :
      Parted s i ({ s with life := Function.update s.life i .dying }.responded i kNotHeld r false)
  | released (t : State Name) (hh : (s.lock i).held = true)
      (hrel : Released { s with life := Function.update s.life i .dying } (s.lock i).name i t) : Parted s i t

/-- `u` is where the destructor of lock `i` gets to `RemoveLock`, or to the callback that it still has to make. -/
structure Leaving (s : State Name) (i : ℕ) (u : State Name) : Prop where
  consistent : Consistent u
  dying : u.life i = .dying
  fresh : i ∉ u.stack.filterMap Frame.removing
  parted : Parted s i u
  keeps : Keeps { s with life := Function.update s.life i .dying } u
  task : u.task = s.task
  still : u.stack = s.stack ∧ u.steals = s.steals ∧ u.failed = s.failed
  owners : ∀ m j, j ≠ i → (s.lockState m).currentOwner = some j → (u.lockState m).currentOwner = some j

theorem Consistent.leaving (h : Consistent s) (hcalm : Calm s.task) (hi : s.life i = .alive) (hu : Core u)
    (hparted : Parted s i u) (hk : Keeps { s with life := Function.update s.life i .dying } u) (htask : u.task = s.task)
    (hp : ¬ Pending u i) (hh : (u.lock i).held = false)
    (hstill : u.stack = s.stack ∧ u.steals = s.steals ∧ u.failed = s.failed)
    (howners : ∀ m j, j ≠ i → (s.lockState m).currentOwner = some j → (u.lockState m).currentOwner = some j) :
    Leaving s i u := by
  have hstack := hstill.1
  have hfresh : i ∉ s.stack.filterMap Frame.removing := by
    intro hmem
    cases hi.symm.trans (h.lives.dying i hmem)
  have hself : u.life i = .dying := by
    rw [hk.life]
    exact Function.update_self i _ _
  have hother : ∀ j, j ≠ i → u.life j = s.life j := by
    intro j hj
    rw [hk.life]
    exact Function.update_of_ne hj _ _
  have hcore : Core { s with life := Function.update s.life i .dying } :=
    h.core.of_eq rfl (fun _ => rfl) (fun _ => rfl) (fun _ => rfl) rfl rfl (le_refl _) rfl rfl
  have hphase : Phase { s with life := Function.update s.life i .dying } := h.phase.of_eq rfl rfl rfl rfl rfl rfl
  refine ⟨⟨hu, ⟨fun j hj => ?_, fun j => ?_, fun m => ?_, ?_, fun j hj => ?_⟩, ?_⟩, hself, hstack.symm ▸ hfresh, hparted, hk,
    htask, hstill, howners⟩
  · by_cases hji : j = i
    · subst hji
      exact ⟨hp, hh⟩
    · rw [hother j hji] at hj
      have hlife : Function.update s.life i .dying j = s.life j := Function.update_of_ne hji _ _
      obtain ⟨hnp, hnh⟩ := h.lives.alive j hj
      refine ⟨fun hpj => ?_, Bool.eq_false_iff.mpr fun hhj => ?_⟩
      · obtain hps | ⟨halive, -⟩ := hk.pending j hpj
        · exact hnp hps
        · exact hj (hlife.symm.trans halive)
      · obtain hhs | hps | halive := hk.held j hhj
        · exact Bool.noConfusion (hnh.symm.trans hhs)
        · exact hnp hps
        · exact hj (hlife.symm.trans halive)
  · rw [hk.sequence]
    by_cases hji : j = i
    · subst hji
      rw [hself]
      refine iff_of_false nofun fun hle => ?_
      cases hi.symm.trans ((h.lives.unborn j).mpr hle)
    · rw [hother j hji]
      exact h.lives.unborn j
  · have hcounted : u.counted m = s.counted m := by
      unfold State.counted
      rw [hk.sequence]
      refine Finset.filter_congr fun j _ => ?_
      rw [hk.name]
      by_cases hji : j = i
      · subst hji
        rw [hself, hi]
        simp
      · rw [hother j hji]
    rw [hk.lockCount, hcounted]
    exact h.lives.counted m
  · rw [hstack]
    exact h.lives.removing
  · rw [hstack] at hj
    rw [hother j fun he => hfresh (he ▸ hj)]
    exact h.lives.dying j hj
  · refine hphase.of_keeps hcore hu (fun hcount j hpj => ?_) hk hcalm (htask ▸ hcalm) ?_
    · exact h.lives.managed_of_pending hcount hpj
    · rw [hstack]

theorem Consistent.push_removeLock (h : Consistent s) (hi : s.life i = .dying)
    (hfresh : i ∉ s.stack.filterMap Frame.removing) : Consistent { s with stack := .removeLock i :: s.stack } := by
  refine ⟨h.core.reframe _ _ _, ⟨h.lives.alive, h.lives.unborn, h.lives.counted, ?_, fun j hj => ?_⟩, ?_⟩
  · exact List.nodup_cons.mpr ⟨hfresh, h.lives.removing⟩
  · obtain rfl | hj := List.mem_cons.mp hj
    · exact hi
    · exact h.lives.dying j hj
  · exact h.phase.of_eq rfl rfl rfl rfl rfl rfl

theorem Removed.locksEq (hr : Removed s i t) : LocksEq s t :=
  ⟨by rw [hr.eq], hr.currentOwner, hr.pendingLocks, hr.pendingSteals⟩

structure Destroyed (s : State Name) (i : ℕ) (t : State Name) : Prop where
  consistent : Consistent t
  locks : ∃ u, Parted s i u ∧ LocksEq u t
  task : t.task = s.task
  manager : t.manager = s.manager
  clock : t.clock = s.clock
  steals : t.steals = s.steals
  failed : t.failed = s.failed
  stack : t.stack = s.stack ∨ t.stack = .removeLock i :: s.stack
  owners : ∀ m j, j ≠ i → (s.lockState m).currentOwner = some j → (t.lockState m).currentOwner = some j
  lockCount : ∀ m, (s.lockState m).lockCount ≠ 0 → (m = (s.lock i).name → (s.lockState m).lockCount ≠ 1 ∨
    Pending s i ∨ ((s.lock i).held = true ∧ (s.stateOf i).pendingLocks ≠ [])) → (t.lockState m).lockCount ≠ 0
  name : ∀ j, (t.lock j).name = (s.lock j).name

theorem Leaving.removed (h : Leaving s i u) (hcalm : Calm s.task)
    (hnone : ¬ Pending s i ∧ ((s.lock i).held = true → (s.stateOf i).pendingLocks = [])) :
    ∃ t, u.removeLock i = .ok t ∧ Destroyed s i t := by
  obtain ⟨t, ht, hr⟩ := h.consistent.removeLock_eq h.dying fun hm => h.consistent.phase.mem_map hm
  have heq := hr.eq
  obtain ⟨hstack, hsteals, hfailed⟩ := h.still
  refine ⟨t, ht, h.consistent.removed (h.task ▸ hcalm) h.dying h.fresh hr, ⟨u, h.parted, hr.locksEq⟩, ?_, ?_, ?_, ?_, ?_,
    Or.inl ?_, fun m j hj ho => ?_, fun m hm hlast => ?_, fun j => ?_⟩
  · rw [heq]
    exact h.task
  · rw [heq]
    exact h.keeps.manager
  · rw [heq]
    exact h.keeps.clock
  · rw [heq]
    exact hsteals
  · rw [heq]
    exact hfailed
  · rw [heq]
    exact hstack
  · rw [hr.currentOwner]
    exact h.owners m j hj ho
  · have hsame : (u.lockState m).lockCount = (s.lockState m).lockCount := h.keeps.lockCount m
    rw [hr.lockCount, hsame, h.keeps.name]
    split_ifs with hmn
    · obtain hone | hp | ⟨hheld, hne⟩ := hlast hmn
      · omega
      · exact absurd hp hnone.1
      · exact absurd (hnone.2 hheld) hne
    · exact hm
  · rw [hr.locksEq.lock]
    exact h.keeps.name j

theorem Leaving.pushed (h : Leaving s i u) : Destroyed s i { u with stack := .removeLock i :: u.stack } := by
  obtain ⟨hstack, hsteals, hfailed⟩ := h.still
  refine ⟨h.consistent.push_removeLock h.dying h.fresh, ⟨u, h.parted, rfl, fun _ => rfl, fun _ => rfl, fun _ => rfl⟩,
    h.task, h.keeps.manager, h.keeps.clock, hsteals, hfailed, Or.inr ?_, h.owners, fun m hm _ => ?_, h.keeps.name⟩
  · exact congrArg (Frame.removeLock i :: ·) hstack
  · have hsame : (u.lockState m).lockCount = (s.lockState m).lockCount := h.keeps.lockCount m
    exact hsame ▸ hm

theorem destroyLock_cases (h : Consistent s) (hcalm : Calm s.task) (hi : s.life i = .alive) :
    (∃ t, s.destroyLock i = .ok t ∧ Destroyed s i t) ∨
      ∃ f, s.destroyLock i = .error f ∧
        ((Pending s i ∧ (s.stateOf i).managed = true ∧ s.corrupted = true) ∨
          ((s.lock i).held = true ∧ (s.stateOf i).pendingLocks ≠ [] ∧
            ((s.stateOf i).managed = false ∨ s.corrupted = true))) := by
  have hcore : Core { s with life := Function.update s.life i .dying } :=
    h.core.of_eq rfl (fun _ => rfl) (fun _ => rfl) (fun _ => rfl) rfl rfl (le_refl _) rfl rfl
  by_cases hp : (s.lock i).isPending = true
  · obtain ⟨r, hr, hdeny, hch⟩ | ⟨hdeny, hm, hc⟩ := deny_cases hcore hp
    · have hu := hch.core hcore
      have hk := hch.keeps hcore
      have hlock := lock_responded { s with life := Function.update s.life i .dying } i kNotHeld r false
      have hself : ({ s with life := Function.update s.life i .dying }.responded i kNotHeld r false).lock i =
          (s.lock i).clear := by
        rw [hlock, Function.update_self]
        rfl
      have hleaving := h.leaving hcalm hi hu (.denied r hp hr) hk rfl (by unfold Pending; rw [hself]; exact nofun)
        (by rw [hself]; rfl) ⟨rfl, rfl, rfl⟩ fun m j _ ho => by
          rw [(sameElse_responded _ i kNotHeld r false).currentOwner]
          exact ho
      refine Or.inl ⟨_, ?_, hleaving.pushed⟩
      unfold State.destroyLock
      simp only [if_pos hp, hdeny]
      rfl
    · refine Or.inr ⟨.corruptedSet, ?_, Or.inl ⟨hp, hm, hc⟩⟩
      unfold State.destroyLock
      simp only [if_pos hp, hdeny]
      rfl
  · by_cases hh : (s.lock i).held = true
    · have ho : (s.stateOf i).currentOwner = some i := (h.core.owner _ i).mpr ⟨rfl, hh⟩
      obtain ⟨u, hu, hrel, hpu, hhu, htask, howners⟩ | ⟨f, hf, hne, hbad⟩ := unlockState_cases hcore ho
      · have hch : Change { s with life := Function.update s.life i .dying } u := .release _ i u hrel
        have hk := hch.keeps hcore
        have hothers : ∀ m j, j ≠ i → (s.lockState m).currentOwner = some j → (u.lockState m).currentOwner = some j := by
          intro m j hj hoj
          by_cases hmn : m = (s.lock i).name
          · subst hmn
            exact absurd (Option.some.inj (hoj.symm.trans ho)) hj
          · rw [howners m hmn]
            exact hoj
        have hleaving := h.leaving hcalm hi (hch.core hcore) (.released u hh hrel) hk htask hpu hhu hch.still hothers
        by_cases hl : (s.stateOf i).pendingLocks = []
        · obtain ⟨t, ht, hd⟩ := hleaving.removed hcalm ⟨hp, fun _ => hl⟩
          refine Or.inl ⟨t, ?_, hd⟩
          unfold State.destroyLock
          simp only [if_neg hp, if_pos hh, hu, Except.bind, if_pos hl]
          exact ht
        · refine Or.inl ⟨_, ?_, hleaving.pushed⟩
          unfold State.destroyLock
          simp only [if_neg hp, if_pos hh, hu, Except.bind, if_neg hl]
      · refine Or.inr ⟨f, ?_, Or.inr ⟨hh, hne, hbad⟩⟩
        unfold State.destroyLock
        simp only [if_neg hp, if_pos hh, hf]
        rfl
    · have hfree := Bool.eq_false_iff.mpr hh
      have hleaving := h.leaving hcalm hi hcore (.quiet hp hfree) (Keeps.refl _) rfl hp hfree ⟨rfl, rfl, rfl⟩
        fun _ _ _ ho => ho
      obtain ⟨t, ht, hd⟩ := hleaving.removed hcalm ⟨hp, fun hyes => absurd hyes hh⟩
      refine Or.inl ⟨t, ?_, hd⟩
      unfold State.destroyLock
      simp only [if_neg hp, if_neg hh]
      exact ht

end Lifecycle

section Steps

variable {Name : Type} [LinearOrder Name] {s t : State Name} {a : Action Name}

/-- Times are counted from 1970 on, and `kDoNotSteal` is the only negative steal time. -/
def Timed (s : State Name) : Action Name → Prop
  | .lockTimedWaitStealOld _ waitMs stealMs => 0 ≤ s.clock + waitMs ∧ kDoNotSteal ≤ stealMs
  | _ => True

inductive Acts (s : State Name) : Action Name → State Name → Prop where
  | advance (ms : ℕ) : Acts s (.advance ms) { s with clock := s.clock + ms }
  | create (n : Name) (hm : s.manager = .alive) (htask : s.task = none) :
      Acts s (.createNamedLock n) (s.createNamedLock n)
  | request (i : ℕ) (w st : ℤ) (t : State Name) (htask : s.task = none) (hreq : Requested s i t)
      (howners : OwnersStay s t)
      (hnext : t.task = none ∨ t.task = some (.wakeup s.clock) ∧ (s.stateOf i).currentOwner ≠ none ∧
        s.corrupted = false ∧ (s.lock i).held = false ∧ ¬ Pending s i) :
      Acts s (.lockTimedWaitStealOld i w st) t
  | idle (i : ℕ) (htask : s.task = none) (hheld : (s.lock i).held = false) : Acts s (.unlock i) s
  | unlock (i : ℕ) (t : State Name) (htask : s.task = none) (hheld : (s.lock i).held = true)
      (hrel : Released s (s.lock i).name i t) (hnext : t.task = none)
      (howners : ∀ m, m ≠ (s.lock i).name → (t.lockState m).currentOwner = (s.lockState m).currentOwner) :
      Acts s (.unlock i) t
  | destroy (i : ℕ) (t : State Name) (htask : s.task = none) (hd : Destroyed s i t) : Acts s (.destroyLock i) t
  | wakeup (hm : s.manager = .alive) (htask : s.task = none) :
      Acts s .wakeup { s with task := some (.wakeup s.clock) }
  | destroyManager (hm : s.manager = .alive) (htask : s.task = none) :
      Acts s .destroyManager { s with manager := .dying, task := some (.destroyStates s.lockStateMap.head?) }
  | resumeWakeup (nowMs : ℤ) (stealer : Option ℕ) (stack : List (Frame Name)) (htask : s.task = none)
      (hstack : s.stack = .wakeup nowMs stealer :: stack) (hm : s.manager ≠ .deleted) :
      Acts s .callbackReturns { s with stack := stack, task := some (.wakeup nowMs) }
  | resumeRemove (i : ℕ) (stack : List (Frame Name)) (t : State Name) (htask : s.task = none)
      (hstack : s.stack = .removeLock i :: stack) (hr : Removed { s with stack := stack } i t) :
      Acts s .callbackReturns t
  | resumeDeny (n : Name) (stack : List (Frame Name)) (htask : s.task = none)
      (hstack : s.stack = .denyPending n :: stack) :
      Acts s .callbackReturns { s with stack := stack, task := some (.denyPending n) }
  | woken (nowMs : ℤ) (t : State Name) (htask : s.task = some (.wakeup nowMs)) (hw : Woken s nowMs t) :
      Acts s .iterate t
  | states (t : State Name) (hlocks : LocksEq s t)
      (heq : t = { s with lockState := t.lockState, manager := t.manager, task := t.task })
      (hcount : ∀ m, (t.lockState m).lockCount = (s.lockState m).lockCount) (hm : s.manager = .dying)
      (hnext : ∀ nowMs, t.task ≠ some (.wakeup nowMs)) : Acts s .iterate t
  | drained (k : Option Name) (hm : s.manager = .dying) : Acts s .iterate { s with task := some (.destroyStates k) }
  | denied (n : Name) (i r : ℕ) (hm : s.manager = .dying) (hp : Pending s i) (hr : (s.lock i).callback = some r)
      (hn : (s.lock i).name = n) :
      Acts s .iterate { s.responded i kNotHeld r false with task := none, stack := .denyPending n :: s.stack }

def Fails (s : State Name) : Action Name → Prop
  | .lockTimedWaitStealOld i _ _ => s.life i = .alive ∧ (s.lock i).held = false ∧ ¬ Pending s i ∧
      ((s.stateOf i).managed = false ∨ ((s.stateOf i).currentOwner ≠ none ∧ s.corrupted = true))
  | .unlock i => (s.lock i).held = true ∧ (s.stateOf i).pendingLocks ≠ [] ∧
      ((s.stateOf i).managed = false ∨ s.corrupted = true)
  | .destroyLock i => (Pending s i ∧ (s.stateOf i).managed = true ∧ s.corrupted = true) ∨
      ((s.lock i).held = true ∧ (s.stateOf i).pendingLocks ≠ [] ∧
        ((s.stateOf i).managed = false ∨ s.corrupted = true))
  | .iterate => ∃ nowMs, s.task = some (.wakeup nowMs) ∧
      (s.corrupted = true ∨ ∃ i, Pending s i ∧ (s.stateOf i).managed = false)
  | .callbackReturns =>
      (∃ nowMs i stack, s.stack = .wakeup nowMs (some i) :: stack ∧ (s.stateOf i).currentOwner ≠ some i) ∨
        (∃ nowMs stealer stack, s.stack = .wakeup nowMs stealer :: stack ∧ s.manager = .deleted) ∨
        ∃ n stack, s.stack = .denyPending n :: stack ∧ (s.lockState n).lockCount = 0
  | _ => False

theorem step_eq (hstep : step s a = some t) :
    s.failed = none ∧ (s.act a = some (.ok t) ∨ ∃ f, s.act a = some (.error f) ∧ t = { s with failed := some f }) := by
  unfold step at hstep
  split_ifs at hstep with hfailed
  refine ⟨Option.not_isSome_iff_eq_none.mp hfailed, ?_⟩
  obtain ⟨r, hr, ht⟩ := Option.map_eq_some_iff.mp hstep
  cases r with
  | ok u => exact Or.inl (hr.trans (by rw [show u = t from ht]))
  | error f => exact Or.inr ⟨f, hr, ht.symm⟩

theorem act_callbackReturns {r : Except Failure (State Name)} (h : Consistent s) (htask : s.task = none)
    {f : Frame Name} {stack : List (Frame Name)} (hstack : s.stack = f :: stack)
    (hact : { s with stack := stack }.resume f = r) :
    (∃ t, r = .ok t ∧ Acts s .callbackReturns t ∧ Consistent t) ∨ ∃ e, r = .error e ∧ Fails s .callbackReturns := by
  have hremoving := h.lives.removing
  have hdying := h.lives.dying
  rw [hstack] at hremoving hdying
  cases f with
  | wakeup nowMs stealer =>
    change (if (stealer.any fun i => (s.stateOf i).currentOwner ≠ some i) = true then .error .check
      else if s.manager = .deleted then .error .dangling
      else .ok { s with stack := stack, task := some (.wakeup nowMs) }) = r at hact
    split_ifs at hact with hcheck hdel
    · subst hact
      refine Or.inr ⟨_, rfl, Or.inl ?_⟩
      cases stealer with
      | none => cases hcheck
      | some i => exact ⟨nowMs, i, stack, hstack, of_decide_eq_true hcheck⟩
    · subst hact
      exact Or.inr ⟨_, rfl, Or.inr (Or.inl ⟨nowMs, stealer, stack, hstack, hdel⟩)⟩
    · subst hact
      refine Or.inl ⟨_, rfl, .resumeWakeup nowMs stealer stack htask hstack hdel, ?_⟩
      refine h.of_keeps (htask ▸ calm_none) (h.core.reframe (some (.wakeup nowMs)) stack s.steals)
        ((Keeps.refl s).reframe (some (.wakeup nowMs)) stack s.steals) (calm_wakeup nowMs) ?_ ?_ <;> rw [hstack] <;> rfl
  | removeLock i =>
    have hi : s.life i = .dying := hdying i List.mem_cons_self
    have hcons : Consistent { s with stack := stack } := by
      refine ⟨h.core.reframe s.task stack s.steals, ⟨h.lives.alive, h.lives.unborn, h.lives.counted, ?_, fun j hj => ?_⟩, ?_⟩
      · exact (List.nodup_cons.mp hremoving).2
      · exact hdying j (List.mem_cons_of_mem _ hj)
      · refine h.phase.of_eq rfl rfl ?_ rfl rfl rfl
        rw [hstack]
        rfl
    obtain ⟨t, ht, hr⟩ := hcons.removeLock_eq hi fun hm => hcons.phase.mem_map hm
    have heq : r = .ok t := hact.symm.trans ht
    exact Or.inl ⟨t, heq, .resumeRemove i stack t htask hstack hr,
      hcons.removed (htask ▸ calm_none) hi (List.nodup_cons.mp hremoving).1 hr⟩
  | denyPending n =>
    change (if (s.lockState n).lockCount = 0 then .error .dangling
      else .ok { s with stack := stack, task := some (.denyPending n) }) = r at hact
    split_ifs at hact with hcount
    · subst hact
      exact Or.inr ⟨_, rfl, Or.inr (Or.inr ⟨n, stack, hstack, hcount⟩)⟩
    · subst hact
      refine Or.inl ⟨_, rfl, .resumeDeny n stack htask hstack, ?_⟩
      have hframes : s.stack.filterMap Frame.denying = n :: stack.filterMap Frame.denying := by
        rw [hstack]
        rfl
      have hrem : stack.filterMap Frame.removing = s.stack.filterMap Frame.removing := by
        rw [hstack]
        rfl
      refine ⟨h.core.reframe _ _ _, h.lives.reframe s.manager _ hrem, ?_⟩
      cases h.phase with
      | alive _ _ hnone _ _ _ => cases hframes.symm.trans hnone
      | next _ _ htask' _ _ _ => cases htask.symm.trans htask'
      | denying _ _ htask' _ _ => cases htask.symm.trans htask'
      | waiting n' hm _ hone hd =>
        obtain ⟨rfl, hrest⟩ := List.cons.inj (hframes.symm.trans hone)
        exact .denying n hm rfl hrest (hd.reframe _ _ _)
      | deleted _ _ hnone _ => cases hframes.symm.trans hnone

theorem act_cases {r : Except Failure (State Name)} (h : Consistent s) (hok : Timed s a) (hact : s.act a = some r) :
    (∃ t, r = .ok t ∧ Acts s a t ∧ Consistent t) ∨ ∃ f, r = .error f ∧ Fails s a := by
  have hclient : (∀ ms, a ≠ .advance ms) → a ≠ .iterate → s.task = none := by
    intro hadvance hiterate
    by_contra hne
    have hsome : s.task.isSome = true := Option.isSome_iff_ne_none.mpr hne
    cases a <;> simp [State.act, hsome] at hact hadvance hiterate
  cases a with
  | advance ms =>
    obtain rfl := Option.some.inj hact
    exact Or.inl ⟨_, rfl, .advance ms, h.advance ms⟩
  | iterate =>
    obtain ⟨task, htask, hr⟩ := Option.map_eq_some_iff.mp hact
    cases task with
    | wakeup nowMs =>
      obtain ⟨t, ht, hw⟩ | ⟨f, hf, hbad⟩ := wakeup_cases h.core nowMs
      · refine Or.inl ⟨t, hr.symm.trans ht, .woken nowMs t htask hw, h.woken ?_ hw⟩
        rw [htask]
        exact calm_wakeup nowMs
      · exact Or.inr ⟨f, hr.symm.trans hf, nowMs, htask, hbad⟩
    | destroyStates k =>
      obtain ⟨t, ht, hcons, hlocks, heq, hcount, hm, hnext⟩ := h.iterate_states htask
      exact Or.inl ⟨t, hr.symm.trans ht, .states t hlocks heq hcount hm hnext, hcons⟩
    | denyPending n =>
      obtain ⟨t, ht, hcons, hm, ⟨k, rfl⟩ | ⟨i, r', hp, hcb, hn, rfl⟩⟩ := h.iterate_denyPending htask
      · exact Or.inl ⟨_, hr.symm.trans ht, .drained k hm, hcons⟩
      · exact Or.inl ⟨_, hr.symm.trans ht, .denied n i r' hm hp hcb hn, hcons⟩
  | createNamedLock n =>
    have htask := hclient nofun nofun
    simp only [State.act, htask, Option.isSome_none, Bool.false_eq_true, if_false] at hact
    split_ifs at hact with hm
    obtain rfl := Option.some.inj hact
    exact Or.inl ⟨_, rfl, .create n hm htask, h.create hm⟩
  | lockTimedWaitStealOld i w st =>
    have htask := hclient nofun nofun
    simp only [State.act, htask, Option.isSome_none, Bool.false_eq_true, if_false] at hact
    split_ifs at hact with hlife
    have hr := Option.some.inj hact
    obtain ⟨t, ht, hreq, howners, hnext⟩ | ⟨f, hf, hbad⟩ := request_cases h.core hlife hok.1 hok.2
    · rw [htask] at hnext
      have hch : Change s t := .request i t hreq
      refine Or.inl ⟨t, hr.symm.trans ht, .request i w st t htask hreq howners hnext, ?_⟩
      refine h.change (htask ▸ calm_none) hch ?_ hch.still.1
      obtain hnone | ⟨hwake, -⟩ := hnext
      · rw [hnone]
        exact calm_none
      · rw [hwake]
        exact calm_wakeup s.clock
    · exact Or.inr ⟨f, hr.symm.trans hf, hlife, hbad⟩
  | unlock i =>
    have htask := hclient nofun nofun
    simp only [State.act, htask, Option.isSome_none, Bool.false_eq_true, if_false] at hact
    split_ifs at hact with hlife
    have hr := Option.some.inj hact
    unfold State.unlock at hr
    split_ifs at hr with hheld
    · have ho : (s.stateOf i).currentOwner = some i := (h.core.owner _ i).mpr ⟨rfl, hheld⟩
      obtain ⟨t, ht, hrel, -, -, hnext, howners⟩ | ⟨f, hf, hbad⟩ := unlockState_cases h.core ho
      · have hch : Change s t := .release _ i t hrel
        refine Or.inl ⟨t, hr.symm.trans ht, .unlock i t htask hheld hrel (hnext.trans htask) howners, ?_⟩
        exact h.change (htask ▸ calm_none) hch ((hnext.trans htask) ▸ calm_none) hch.still.1
      · exact Or.inr ⟨f, hr.symm.trans hf, hheld, hbad⟩
    · exact Or.inl ⟨s, hr.symm, .idle i htask (Bool.eq_false_iff.mpr hheld), h⟩
  | destroyLock i =>
    have htask := hclient nofun nofun
    simp only [State.act, htask, Option.isSome_none, Bool.false_eq_true, if_false] at hact
    split_ifs at hact with hlife
    have hr := Option.some.inj hact
    obtain ⟨t, ht, hd⟩ | ⟨f, hf, hbad⟩ := destroyLock_cases h (htask ▸ calm_none) hlife
    · exact Or.inl ⟨t, hr.symm.trans ht, .destroy i t htask hd, hd.consistent⟩
    · exact Or.inr ⟨f, hr.symm.trans hf, hbad⟩
  | wakeup =>
    have htask := hclient nofun nofun
    simp only [State.act, htask, Option.isSome_none, Bool.false_eq_true, if_false] at hact
    split_ifs at hact with hm
    obtain rfl := Option.some.inj hact
    refine Or.inl ⟨_, rfl, .wakeup hm htask, ?_⟩
    exact h.of_keeps (htask ▸ calm_none) (h.core.reframe _ s.stack s.steals) ((Keeps.refl s).reframe _ s.stack s.steals)
      (calm_wakeup s.clock) rfl rfl
  | destroyManager =>
    have htask := hclient nofun nofun
    simp only [State.act, htask, Option.isSome_none, Bool.false_eq_true, if_false] at hact
    split_ifs at hact with hm
    obtain rfl := Option.some.inj hact
    exact Or.inl ⟨_, rfl, .destroyManager hm htask, h.destroyManager hm⟩
  | callbackReturns =>
    have htask := hclient nofun nofun
    cases hstack : s.stack with
    | nil => simp [State.act, htask, hstack] at hact
    | cons f stack =>
      have hnot : ¬ s.task.isSome = true := by simp [htask]
      simp only [State.act, if_neg hnot, hstack] at hact
      exact act_callbackReturns h htask hstack (Option.some.inj hact)

theorem step_cases (h : Consistent s) (hok : Timed s a) (hstep : step s a = some t) :
    s.failed = none ∧ ((Acts s a t ∧ Consistent t) ∨ ∃ f, t = { s with failed := some f } ∧ Fails s a) := by
  obtain ⟨hfailed, hact | ⟨f, hact, rfl⟩⟩ := step_eq hstep
  · refine ⟨hfailed, ?_⟩
    obtain ⟨u, hu, hacts, hcons⟩ | ⟨f, hf, -⟩ := act_cases h hok hact
    · cases hu
      exact Or.inl ⟨hacts, hcons⟩
    · cases hf
  · refine ⟨hfailed, Or.inr ⟨f, rfl, ?_⟩⟩
    obtain ⟨u, hu, -⟩ | ⟨f', -, hbad⟩ := act_cases h hok hact
    · cases hu
    · exact hbad

theorem step_consistent (h : Consistent s) (hok : Timed s a) (hstep : step s a = some t) : Consistent t := by
  obtain ⟨-, ⟨-, hcons⟩ | ⟨f, rfl, -⟩⟩ := step_cases h hok hstep
  · exact hcons
  · exact h.fail f

theorem new_consistent [Inhabited Name] {clock : ℤ} (hclock : 0 ≤ clock) : Consistent (State.new clock : State Name) := by
  refine ⟨⟨⟨?_, ?_, ?_, ?_, ?_, ?_⟩, fun _ => ?_, hclock, ?_, nofun, ?_⟩,
    ⟨fun _ _ => ⟨nofun, rfl⟩, ?_, ?_, List.nodup_nil, nofun⟩, ?_⟩
  · exact fun _ _ => iff_of_false nofun fun hp => nomatch hp.2
  · exact fun _ _ => iff_of_false nofun fun hp => nomatch hp.2.1
  · exact fun _ => List.Pairwise.nil
  · exact fun _ => List.Pairwise.nil
  · exact fun _ _ => iff_of_false nofun nofun
  · exact fun _ => List.Pairwise.nil
  · exact Lock.sound_clear (⟨default, none, 0, kNotHeld, 0, kNotPending⟩ : Lock Name) clock
  · exact fun _ _ => iff_of_false nofun fun hp => nomatch hp.2
  · exact ⟨List.nodup_nil, nofun, nofun, nofun, nofun⟩
  · exact fun _ => iff_of_true rfl (Nat.zero_le _)
  · exact fun _ => rfl
  · exact .alive rfl calm_none rfl rfl ⟨List.Pairwise.nil, fun _ => iff_of_false nofun nofun, fun _ _ _ => rfl⟩
      fun _ hm => absurd rfl hm

end Steps

end PageSpeed.MemLock
