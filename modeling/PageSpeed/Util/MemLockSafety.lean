import PageSpeed.Util.MemLockLifetimes

/-!
Safety of the in-process locks: exclusion, the sets of pending locks, and one answer to
each request, for callbacks that leave a lock that is being stolen or a manager that is
being destroyed to itself.
-/

namespace PageSpeed.MemLock

open OrderedSet

section Safety

variable {Name : Type} [LinearOrder Name] {s t : State Name} {a : Action Name}

/-- While the manager is being destroyed its map keeps the key of a name that is drained, and the key points into
the state of the name, which goes with the last lock. -/
def LeavesKey (s : State Name) (i : ℕ) : Prop :=
  s.manager = .dying ∧ (s.stateOf i).managed = false ∧ (s.stateOf i).lockCount = 1

/-- No step disturbs what waits for a callback to return: a lock that steals stays the owner, `Wakeup` keeps its
manager, and the destructor of the manager keeps the state whose pending locks it denies. Without a living manager no
request has to wait, and no lock is passed on. -/
def Undisturbed (s : State Name) (a : Action Name) : Prop :=
  Timed s a ∧ match a with
    | .lockTimedWaitStealOld i _ _ => (s.lock i).held = true ∨ Pending s i ∨ s.manager = .alive ∨
        ((s.stateOf i).managed = true ∧ (s.stateOf i).currentOwner = none)
    | .unlock i => (s.lock i).held = true → (∀ nowMs, .wakeup nowMs (some i) ∉ s.stack) ∧
        (s.manager = .alive ∨ (s.stateOf i).pendingLocks = [])
    | .destroyLock i => ((s.lock i).held = true → (∀ nowMs, .wakeup nowMs (some i) ∉ s.stack) ∧
          (s.manager = .alive ∨ (s.stateOf i).pendingLocks = [])) ∧
        (Pending s i → s.manager = .alive ∨ (s.stateOf i).managed = false) ∧
        (.denyPending (s.lock i).name ∈ s.stack → (s.stateOf i).lockCount ≠ 1 ∨ Pending s i) ∧
        (LeavesKey s i → Pending s i)
    | .destroyManager => ∀ nowMs stealer, .wakeup nowMs stealer ∉ s.stack
    | .callbackReturns => ∀ i stack, s.stack = .removeLock i :: stack → ¬ LeavesKey s i ∧
        (.denyPending (s.lock i).name ∈ stack → (s.stateOf i).lockCount ≠ 1)
    | .iterate => ∀ nowMs i l o, s.task = some (.wakeup nowMs) → s.pendingLocks = i :: l →
        (s.lock i).wakeupTimeMs ≤ nowMs → (s.lock i).cancelTimeMs ≠ (s.lock i).wakeupTimeMs →
        (s.stateOf i).currentOwner = some o → ∀ nowMs', .wakeup nowMs' (some o) ∉ s.stack
    | _ => True

structure Steady (s : State Name) : Prop where
  failed : s.failed = none
  stealing : ∀ nowMs i, .wakeup nowMs (some i) ∈ s.stack → (s.stateOf i).currentOwner = some i
  frames : ∀ nowMs stealer, .wakeup nowMs stealer ∈ s.stack → s.manager = .alive
  task : ∀ nowMs, s.task = some (.wakeup nowMs) → s.manager = .alive
  denying : ∀ n, .denyPending n ∈ s.stack → (s.lockState n).lockCount ≠ 0

theorem Phase.serves (hl : Lives s) (h : Phase s) (hm : s.manager = .alive) : s.corrupted = false ∧
    ∀ i, s.life i = .alive → (s.stateOf i).managed = true := by
  cases h with
  | alive _ _ _ hc hd hcount =>
    refine ⟨hc, fun i hi => hcount _ (hl.lockCount_ne_zero ?_ ?_)⟩
    · rw [hi]
      exact nofun
    · rw [hi]
      exact nofun
  | next _ hm' _ _ _ _ => cases hm.symm.trans hm'
  | denying _ hm' _ _ _ => cases hm.symm.trans hm'
  | waiting _ hm' _ _ _ => cases hm.symm.trans hm'
  | deleted hm' _ _ _ => cases hm.symm.trans hm'

variable {i : ℕ}

theorem Lives.alive_of_pending (h : Lives s) (hp : Pending s i) : s.life i = .alive := by
  by_contra hne
  exact (h.alive i hne).1 hp

theorem Lives.alive_of_held (h : Lives s) (hh : (s.lock i).held = true) : s.life i = .alive := by
  by_contra hne
  exact Bool.noConfusion ((h.alive i hne).2.symm.trans hh)

theorem not_fails (hc : Consistent s) (h : Steady s) (hok : Undisturbed s a) : ¬ Fails s a := by
  have hserves := hc.phase.serves hc.lives
  -- a lock that is released while others wait has a manager that serves them
  have hrelease : ∀ i, ((s.lock i).held = true → (∀ nowMs, .wakeup nowMs (some i) ∉ s.stack) ∧
      (s.manager = .alive ∨ (s.stateOf i).pendingLocks = [])) → ¬ ((s.lock i).held = true ∧
      (s.stateOf i).pendingLocks ≠ [] ∧ ((s.stateOf i).managed = false ∨ s.corrupted = true)) := by
    rintro i hi ⟨hheld, hne, hbad⟩
    obtain ⟨hcorrupted, hmanaged⟩ := hserves ((hi hheld).2.resolve_right hne)
    obtain hbad | hbad := hbad
    · exact Bool.noConfusion (hbad.symm.trans (hmanaged i (hc.lives.alive_of_held hheld)))
    · exact Bool.noConfusion (hcorrupted.symm.trans hbad)
  intro hfails
  cases a with
  | lockTimedWaitStealOld i w st =>
    obtain ⟨hlife, hheld, hpending, hbad⟩ := hfails
    obtain hyes | hyes | hm | ⟨hmanaged, hfree⟩ := hok.2
    · exact Bool.noConfusion (hheld.symm.trans hyes)
    · exact hpending hyes
    · obtain ⟨hcorrupted, hmanaged⟩ := hserves hm
      obtain hbad | ⟨-, hbad⟩ := hbad
      · exact Bool.noConfusion (hbad.symm.trans (hmanaged i hlife))
      · exact Bool.noConfusion (hcorrupted.symm.trans hbad)
    · obtain hbad | ⟨hbad, -⟩ := hbad
      · exact Bool.noConfusion (hbad.symm.trans hmanaged)
      · exact hbad hfree
  | unlock i => exact hrelease i hok.2 hfails
  | destroyLock i =>
    obtain ⟨hheld, hpending, -⟩ := hok.2
    obtain ⟨hp, hmanaged, hcorrupted⟩ | hbad := hfails
    · obtain hm | hm := hpending hp
      · exact Bool.noConfusion ((hserves hm).1.symm.trans hcorrupted)
      · exact Bool.noConfusion (hm.symm.trans hmanaged)
    · exact hrelease i hheld hbad
  | iterate =>
    obtain ⟨nowMs, htask, hbad⟩ := hfails
    obtain ⟨hcorrupted, hmanaged⟩ := hserves (h.task nowMs htask)
    obtain hbad | ⟨i, hp, hbad⟩ := hbad
    · exact Bool.noConfusion (hcorrupted.symm.trans hbad)
    · exact Bool.noConfusion (hbad.symm.trans (hmanaged i (hc.lives.alive_of_pending hp)))
  | callbackReturns =>
    obtain ⟨nowMs, i, stack, hstack, hbad⟩ | ⟨nowMs, stealer, stack, hstack, hbad⟩ | ⟨n, stack, hstack, hbad⟩ := hfails
    · refine hbad (h.stealing nowMs i ?_)
      rw [hstack]
      exact List.mem_cons_self
    · have hm : s.manager = .alive := by
        refine h.frames nowMs stealer ?_
        rw [hstack]
        exact List.mem_cons_self
      cases hm.symm.trans hbad
    · refine h.denying n ?_ hbad
      rw [hstack]
      exact List.mem_cons_self
  | createNamedLock n => exact hfails
  | wakeup => exact hfails
  | destroyManager => exact hfails
  | advance ms => exact hfails

theorem Steady.woken {nowMs : ℤ} (h : Steady s) (htask : s.task = some (.wakeup nowMs))
    (hok : Undisturbed s .iterate) (hw : Woken s nowMs t) : Steady t := by
  have hm := h.task nowMs htask
  have hdenying : ∀ stealer, ∀ n : Name, .denyPending n ∈ .wakeup nowMs stealer :: s.stack →
      (s.lockState n).lockCount ≠ 0 := by
    intro stealer n hmem
    obtain heq | hmem := List.mem_cons.mp hmem
    · cases heq
    · exact h.denying n hmem
  cases hw with
  | done => exact ⟨h.failed, h.stealing, h.frames, nofun, h.denying⟩
  | denied i r hp hr =>
    have hsame := sameElse_responded s i kNotHeld r false
    refine ⟨h.failed, fun now j hmem => ?_, fun _ _ _ => hm, nofun, fun n hmem => ?_⟩
    · unfold State.stateOf
      change ((s.responded i kNotHeld r false).lockState ((s.responded i kNotHeld r false).lock j).name).currentOwner = _
      rw [hsame.name, hsame.currentOwner]
      obtain heq | hmem := List.mem_cons.mp hmem
      · cases heq
      · exact h.stealing now j hmem
    · exact (hsame.lockCount n).symm ▸ hdenying none n hmem
  | stolen i o r l l' t hi hfirst hdue hsteal ho hr hh =>
    have heq := hh.eq
    have hfailed : t.failed = s.failed := by rw [heq]
    have hstack : t.stack = s.stack := by rw [heq]
    have hmanager : t.manager = s.manager := by rw [heq]
    refine ⟨hfailed.trans h.failed, fun now j hmem => ?_, fun _ _ _ => hmanager.trans hm, nofun, fun n hmem => ?_⟩
    · change (t.lockState (t.lock j).name).currentOwner = some j
      rw [hh.name, hh.currentOwner]
      rw [hstack] at hmem
      obtain heq | hrest := List.mem_cons.mp hmem
      · cases heq
        exact if_pos rfl
      · have hown := h.stealing now j hrest
        split_ifs with hn
        · -- the owner that is robbed would be stealing itself
          unfold State.stateOf at hown ho
          rw [hn] at hown
          obtain rfl := Option.some.inj (hown.symm.trans ho)
          exact absurd hrest (hok.2 nowMs i l j htask hi hdue hsteal ho now)
        · exact hown
    · rw [hstack] at hmem
      exact (hh.lockCount n).symm ▸ hdenying (some i) n hmem

theorem step_steady (hc : Consistent s) (h : Steady s) (hok : Undisturbed s a) (hstep : step s a = some t) : Steady t := by
  obtain ⟨-, ⟨hacts, -⟩ | ⟨f, -, hfails⟩⟩ := step_cases hc hok.1 hstep
  swap
  · exact absurd hfails (not_fails hc h hok)
  cases hacts with
  | advance ms => exact ⟨h.failed, h.stealing, h.frames, h.task, h.denying⟩
  | create n hm htask =>
    have hborn : s.life s.sequence = .unborn := (hc.lives.unborn s.sequence).mpr (le_refl _)
    have hheld := (hc.lives.alive s.sequence (by rw [hborn]; exact nofun)).2
    refine ⟨h.failed, fun now i hmem => ?_, h.frames, h.task, fun m hmem => ?_⟩
    · have hown := h.stealing now i hmem
      have hne : i ≠ s.sequence := by
        rintro rfl
        exact Bool.noConfusion (hheld.symm.trans ((hc.core.owner _ _).mp hown).2)
      have hlock : (s.createNamedLock n).lock i = s.lock i := Function.update_of_ne hne _ _
      unfold State.stateOf
      rw [hlock, lockState_create]
      split_ifs with hn
      · unfold State.stateOf at hown
        rw [hn] at hown
        exact hown
      · exact hown
    · rw [lockState_create]
      split_ifs
      · exact Nat.succ_ne_zero _
      · exact h.denying m hmem
  | request i w st _ htask hreq howners hnext =>
    obtain ⟨hstack, -, hfailed⟩ := (Change.request i t hreq).still
    have hkeeps := hreq.keeps hc.core
    refine ⟨hfailed.trans h.failed, fun now j hmem => ?_, fun now stealer hmem => ?_, fun now hnow => ?_, fun m hmem => ?_⟩
    · rw [hstack] at hmem
      unfold State.stateOf
      rw [hkeeps.name]
      exact howners _ j (h.stealing now j hmem)
    · rw [hstack] at hmem
      rw [hkeeps.manager]
      exact h.frames now stealer hmem
    · rw [hkeeps.manager]
      obtain hnone | ⟨-, hown, -, hheld, hpending⟩ := hnext
      · cases hnone.symm.trans hnow
      · obtain hyes | hyes | hm | ⟨-, hfree⟩ := hok.2
        · exact Bool.noConfusion (hheld.symm.trans hyes)
        · exact absurd hyes hpending
        · exact hm
        · exact absurd hfree hown
    · rw [hstack] at hmem
      rw [hkeeps.lockCount]
      exact h.denying m hmem
  | idle i htask hheld => exact h
  | unlock i _ htask hheld hrel hnext howners =>
    obtain ⟨hstack, -, hfailed⟩ := (Change.release _ i t hrel).still
    have hkeeps := hrel.keeps hc.core
    have ho : (s.stateOf i).currentOwner = some i := (hc.core.owner _ i).mpr ⟨rfl, hheld⟩
    refine ⟨hfailed.trans h.failed, fun now j hmem => ?_, fun now stealer hmem => ?_, fun now hnow => ?_, fun m hmem => ?_⟩
    · rw [hstack] at hmem
      have hown := h.stealing now j hmem
      have hne : (s.lock j).name ≠ (s.lock i).name := by
        intro hn
        unfold State.stateOf at hown ho
        rw [hn] at hown
        obtain rfl := Option.some.inj (hown.symm.trans ho)
        exact (hok.2 hheld).1 now hmem
      unfold State.stateOf
      rw [hkeeps.name, howners _ hne]
      exact hown
    · rw [hstack] at hmem
      rw [hkeeps.manager]
      exact h.frames now stealer hmem
    · cases hnext.symm.trans hnow
    · rw [hstack] at hmem
      rw [hkeeps.lockCount]
      exact h.denying m hmem
  | destroy i _ htask hd =>
    obtain ⟨hheld, -, hlast, -⟩ := hok.2
    have hmem : ∀ f : Frame Name, f ∈ t.stack → f = .removeLock i ∨ f ∈ s.stack := by
      intro f hf
      obtain hstack | hstack := hd.stack
      · rw [hstack] at hf
        exact Or.inr hf
      · rw [hstack] at hf
        exact List.mem_cons.mp hf
    refine ⟨hd.failed.trans h.failed, fun now j hf => ?_, fun now stealer hf => ?_, fun now hnow => ?_, fun m hf => ?_⟩
    · have hf := (hmem _ hf).resolve_left nofun
      have hown := h.stealing now j hf
      have hji : j ≠ i := by
        rintro rfl
        exact (hheld ((hc.core.owner _ j).mp hown).2).1 now hf
      unfold State.stateOf
      rw [hd.name]
      exact hd.owners _ j hji hown
    · rw [hd.manager]
      exact h.frames now stealer ((hmem _ hf).resolve_left nofun)
    · rw [hd.task, htask] at hnow
      cases hnow
    · have hf := (hmem _ hf).resolve_left nofun
      refine hd.lockCount m (h.denying m hf) fun hm => ?_
      subst hm
      exact (hlast hf).imp id Or.inl
  | wakeup hm htask => exact ⟨h.failed, h.stealing, h.frames, fun _ _ => hm, h.denying⟩
  | destroyManager hm htask =>
    exact ⟨h.failed, h.stealing, fun now stealer hmem => absurd hmem (hok.2 now stealer), nofun, h.denying⟩
  | resumeWakeup nowMs stealer stack htask hstack hm =>
    have hmem : ∀ f ∈ stack, f ∈ s.stack := fun f hf => by
      rw [hstack]
      exact List.mem_cons_of_mem _ hf
    refine ⟨h.failed, fun now i hf => h.stealing now i (hmem _ hf), fun now st hf => h.frames now st (hmem _ hf),
      fun _ _ => ?_, fun n hf => h.denying n (hmem _ hf)⟩
    refine h.frames nowMs stealer ?_
    rw [hstack]
    exact List.mem_cons_self
  | resumeRemove i stack _ htask hstack hr =>
    have heq := hr.eq
    have hts : t.stack = stack := by rw [heq]
    have hmem : ∀ f ∈ t.stack, f ∈ s.stack := fun f hf => by
      rw [hstack]
      exact List.mem_cons_of_mem _ (hts ▸ hf)
    refine ⟨?_, fun now j hf => ?_, fun now st hf => ?_, fun now hnow => ?_, fun n hf => ?_⟩
    · rw [heq]
      exact h.failed
    · unfold State.stateOf
      rw [hr.locksEq.lock, hr.currentOwner]
      exact h.stealing now j (hmem _ hf)
    · rw [heq]
      exact h.frames now st (hmem _ hf)
    · rw [heq] at hnow
      cases htask.symm.trans hnow
    · have hcount := h.denying n (hmem _ hf)
      rw [hr.lockCount]
      split_ifs with hn
      · have hone : (s.lockState n).lockCount ≠ 1 := by
          rw [hn]
          refine (hok.2 i stack hstack).2 ?_
          rw [hts, hn] at hf
          exact hf
        change (s.lockState n).lockCount - 1 ≠ 0
        omega
      · exact hcount
  | resumeDeny n stack htask hstack =>
    have hmem : ∀ f ∈ stack, f ∈ s.stack := fun f hf => by
      rw [hstack]
      exact List.mem_cons_of_mem _ hf
    exact ⟨h.failed, fun now i hf => h.stealing now i (hmem _ hf), fun now st hf => h.frames now st (hmem _ hf), nofun,
      fun n hf => h.denying n (hmem _ hf)⟩
  | woken nowMs _ htask hw => exact h.woken htask hok hw
  | states _ hlocks heq hcount hm hnext =>
    have hts : t.stack = s.stack := by rw [heq]
    refine ⟨?_, fun now i hf => ?_, fun now st hf => ?_, fun now hnow => absurd hnow (hnext now), fun n hf => ?_⟩
    · rw [heq]
      exact h.failed
    · rw [hts] at hf
      unfold State.stateOf
      rw [hlocks.lock, hlocks.currentOwner]
      exact h.stealing now i hf
    · rw [hts] at hf
      cases hm.symm.trans (h.frames now st hf)
    · rw [hts] at hf
      rw [hcount]
      exact h.denying n hf
  | drained k hm => exact ⟨h.failed, h.stealing, h.frames, nofun, h.denying⟩
  | denied n i r hm hp hr hn =>
    have hsame := sameElse_responded s i kNotHeld r false
    refine ⟨h.failed, fun now j hmem => ?_, fun now st hmem => ?_, nofun, fun m hmem => ?_⟩
    · obtain heq | hmem := List.mem_cons.mp hmem
      · cases heq
      · unfold State.stateOf
        change ((s.responded i kNotHeld r false).lockState
          ((s.responded i kNotHeld r false).lock j).name).currentOwner = _
        rw [hsame.name, hsame.currentOwner]
        exact h.stealing now j hmem
    · obtain heq | hmem := List.mem_cons.mp hmem
      · cases heq
      · exact h.frames now st hmem
    · refine (hsame.lockCount m).symm ▸ ?_
      obtain heq | hmem := List.mem_cons.mp hmem
      · cases heq
        have halive := hc.lives.alive_of_pending hp
        have hcount := hc.lives.lockCount_ne_zero (i := i) (by rw [halive]; exact nofun) (by rw [halive]; exact nofun)
        unfold State.stateOf at hcount
        rw [hn] at hcount
        exact hcount
      · exact h.denying m hmem

/-- At most one lock of a name is held, and others wait only for it. The manager's set of pending locks is the disjoint
union of those of the names, ordered by the wakeup times that the locks have now. Each request was answered once, or
its callback waits with one living lock; nothing waits when the manager is gone. No check has failed. -/
structure Safe (s : State Name) : Prop where
  exclusive : ∀ i j, (s.lock i).held = true → (s.lock j).held = true → (s.lock i).name = (s.lock j).name → i = j
  waits : ∀ i, Pending s i → ∃ j, j ≠ i ∧ (s.lock j).name = (s.lock i).name ∧ (s.lock j).held = true
  pending : ∀ n i, i ∈ (s.lockState n).pendingLocks ↔ (s.lock i).name = n ∧ Pending s i
  disjoint : ∀ m n i, i ∈ (s.lockState m).pendingLocks → i ∈ (s.lockState n).pendingLocks → m = n
  union : s.manager = .alive → ∀ i, i ∈ s.pendingLocks ↔ ∃ n, i ∈ (s.lockState n).pendingLocks
  stateOrdered : ∀ n, Ordered s.wakeupKey (s.lockState n).pendingLocks
  ordered : s.manager = .alive → Ordered s.wakeupKey s.pendingLocks
  issued : ∀ r ∈ s.called.map Prod.fst, r < s.requests
  answered : ∀ r < s.requests,
    ((s.called.map Prod.fst).count r = 1 ∧ ∀ i, (s.lock i).callback ≠ some r) ∨
    ((s.called.map Prod.fst).count r = 0 ∧ ∃ i, s.life i = .alive ∧ Pending s i ∧ ∀ j, (s.lock j).callback = some r ↔ j = i)
  abandoned : s.manager = .deleted → ∀ r < s.requests, (s.called.map Prod.fst).count r = 1
  checks : s.failed = none

theorem Core.pending_of_callback {r : ℕ} (h : Core s) (hr : (s.lock i).callback = some r) : Pending s i := by
  unfold Pending
  rw [(h.sound i).callback, hr]
  rfl

theorem Consistent.answered (h : Consistent s) (r : ℕ) (hr : r < s.requests) :
    ((s.called.map Prod.fst).count r = 1 ∧ ∀ i, (s.lock i).callback ≠ some r) ∨
    ((s.called.map Prod.fst).count r = 0 ∧
      ∃ i, s.life i = .alive ∧ Pending s i ∧ ∀ j, (s.lock j).callback = some r ↔ j = i) := by
  have hrequests := h.core.requests
  obtain hmem | ⟨i, hi⟩ := hrequests.answered r hr
  · exact .inl ⟨List.count_eq_one_of_mem hrequests.nodup hmem, fun i hi => (hrequests.waiting i r hi).2 hmem⟩
  · have hp := h.core.pending_of_callback hi
    refine .inr ⟨List.count_eq_zero_of_not_mem (hrequests.waiting i r hi).2, i, h.lives.alive_of_pending hp, hp, ?_⟩
    refine fun j => ⟨fun hj => hrequests.unique j i r hj hi, ?_⟩
    rintro rfl
    exact hi

theorem Phase.not_pending_of_deleted (hcore : Core s) (h : Phase s) (hm : s.manager = .deleted) : ¬ Pending s i := by
  cases h with
  | alive hm' _ _ _ _ _ => cases hm.symm.trans hm'
  | next _ hm' _ _ _ _ => cases hm.symm.trans hm'
  | denying _ hm' _ _ _ => cases hm.symm.trans hm'
  | waiting _ hm' _ _ _ => cases hm.symm.trans hm'
  | deleted _ _ _ hd =>
    intro hp
    have hmanaged : (s.stateOf i).managed = false :=
      Bool.eq_false_iff.mpr fun hmanaged => ((hd.managed _).mp hmanaged).2.1 trivial
    have hmem := (hcore.sets.pending _ i).mpr ⟨rfl, hp⟩
    rw [hd.pendingLocks _ hmanaged not_false] at hmem
    cases hmem

theorem safe_of_consistent (h : Consistent s) (hfailed : s.failed = none) : Safe s := by
  have hsets := h.core.sets
  refine ⟨fun i j hi hj hn => ?_, fun i hp => ?_, hsets.pending, fun m n i hm hn => ?_, fun hm i => ?_,
    hsets.pendingOrdered, fun hm => hsets.ordered (h.phase.serves h.lives hm).1, h.core.requests.issued, h.answered,
    fun hm r hr => ?_, hfailed⟩
  · have hi := (h.core.owner _ i).mpr ⟨rfl, hi⟩
    have hj := (h.core.owner _ j).mpr ⟨hn.symm, hj⟩
    exact Option.some.inj (hi.symm.trans hj)
  · obtain ⟨o, ho⟩ := Option.ne_none_iff_exists'.mp (h.core.waits i hp)
    obtain ⟨hname, hheld⟩ := (h.core.owner _ o).mp ho
    refine ⟨o, ?_, hname, hheld⟩
    rintro rfl
    exact h.core.owner_not_pending ho hp
  · exact ((hsets.pending m i).mp hm).1.symm.trans ((hsets.pending n i).mp hn).1
  · rw [hsets.members (h.phase.serves h.lives hm).1]
    constructor
    · exact fun hp => ⟨_, (hsets.pending _ i).mpr ⟨rfl, hp⟩⟩
    · rintro ⟨n, hn⟩
      exact ((hsets.pending n i).mp hn).2
  · obtain ⟨hone, -⟩ | ⟨-, i, -, hp, -⟩ := h.answered r hr
    · exact hone
    · exact absurd hp (h.phase.not_pending_of_deleted h.core hm)

/-- In runs of any number of locks and names, with callbacks that call back. -/
theorem locks_safe [Inhabited Name] (clock : ℤ) (as : List (Action Name)) (t : State Name) (hclock : 0 ≤ clock)
    (hrun : Machine.run step (State.new clock) as = some t)
    (hok : Machine.Meets step Undisturbed (State.new clock) as) : Safe t := by
  have hstep : ∀ (s : State Name) a u, Undisturbed s a → Consistent s ∧ Steady s → step s a = some u →
      Consistent u ∧ Steady u := fun s a u hG hI hu =>
    ⟨step_consistent hI.1 hG.1 hu, step_steady hI.1 hI.2 hG hu⟩
  have hinv := Machine.run_invariant hstep ⟨new_consistent hclock, rfl, nofun, nofun, nofun, nofun⟩ hok hrun
  exact safe_of_consistent hinv.1 hinv.2.failed

def quietStealRun : List (Action ℕ) :=
  [.createNamedLock 0, .createNamedLock 0, .lockTimedWaitStealOld 0 0 kDoNotSteal, .lockTimedWaitStealOld 1 5000 100,
    .iterate, .advance 100, .wakeup, .iterate, .callbackReturns, .iterate]

theorem locks_safe_after_steal :
    ∃ t : State ℕ, Machine.run step (State.new 0) quietStealRun = some t ∧ t.called = [(0, true), (1, true)] ∧ Safe t := by
  refine ⟨_, rfl, rfl, locks_safe 0 quietStealRun _ (le_refl 0) rfl ?_⟩
  refine Machine.meets_cons ⟨trivial, trivial⟩ rfl (Machine.meets_cons ⟨trivial, trivial⟩ rfl ?_)
  refine Machine.meets_cons ⟨⟨?_, ?_⟩, .inr (.inr (.inl rfl))⟩ rfl
    (Machine.meets_cons ⟨⟨?_, ?_⟩, .inr (.inr (.inl rfl))⟩ rfl ?_)
  · decide
  · decide
  · decide
  · decide
  · have hnone : ∀ (nowMs : ℤ) (o : ℕ), (.wakeup nowMs (some o) : Frame ℕ) ∉ ([] : List (Frame ℕ)) := nofun
    refine Machine.meets_cons ⟨trivial, fun _ _ _ o _ _ _ _ _ now => hnone now o⟩ rfl ?_
    refine Machine.meets_cons ⟨trivial, trivial⟩ rfl (Machine.meets_cons ⟨trivial, trivial⟩ rfl ?_)
    refine Machine.meets_cons ⟨trivial, fun _ _ _ o _ _ _ _ _ now => hnone now o⟩ rfl ?_
    refine Machine.meets_cons ⟨trivial, fun i stack hstack => ?_⟩ rfl ?_
    · cases hstack
    · exact Machine.meets_cons ⟨trivial, fun _ _ _ o _ _ _ _ _ now => hnone now o⟩ rfl trivial

def unlockingStealRun : List (Action ℕ) :=
  [.createNamedLock 0, .createNamedLock 0, .lockTimedWaitStealOld 0 0 kDoNotSteal, .lockTimedWaitStealOld 1 5000 100,
    .iterate, .advance 100, .wakeup, .iterate, .unlock 1, .callbackReturns]

theorem steal_check_fails_on_unlock :
    ∃ t : State ℕ, Machine.run step (State.new 0) unlockingStealRun = some t ∧ t.failed = some .check ∧ ¬ Safe t :=
  ⟨_, rfl, rfl, fun h => absurd h.checks nofun⟩

end Safety

end PageSpeed.MemLock
