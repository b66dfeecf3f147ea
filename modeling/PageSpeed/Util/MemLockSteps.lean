import PageSpeed.Util.MemLockSets

/-!
What granting, denying, handing on and requesting a lock does to the locks and the sets.
-/

namespace PageSpeed.MemLock

open OrderedSet

variable {Name : Type} {s t : State Name} {i o p r : ℕ} {n : Name} {Q R : ℕ → Prop}

structure SameElse (s t : State Name) : Prop where
  eq : t = { s with
    lock := t.lock, lockState := t.lockState, pendingLocks := t.pendingLocks, corrupted := t.corrupted,
    called := t.called }
  currentOwner : ∀ n, (t.lockState n).currentOwner = (s.lockState n).currentOwner
  lockCount : ∀ n, (t.lockState n).lockCount = (s.lockState n).lockCount
  managed : ∀ n, (t.lockState n).managed = (s.lockState n).managed
  name : ∀ i, (t.lock i).name = (s.lock i).name

theorem SameElse.trans {u : State Name} (h : SameElse s t) (h' : SameElse t u) : SameElse s u := by
  refine ⟨?_, fun n => (h'.currentOwner n).trans (h.currentOwner n), fun n => (h'.lockCount n).trans (h.lockCount n),
    fun n => (h'.managed n).trans (h.managed n), fun i => (h'.name i).trans (h.name i)⟩
  have heq := h'.eq
  rw [h.eq] at heq
  exact heq

theorem SameElse.stateOf_managed (h : SameElse s t) (i : ℕ) : (t.stateOf i).managed = (s.stateOf i).managed := by
  unfold State.stateOf
  rw [h.name, h.managed]

theorem sameElse_setLock (s : State Name) (i : ℕ) {x : Lock Name} (h : x.name = (s.lock i).name) :
    SameElse s (s.setLock i x) := by
  refine ⟨rfl, fun _ => rfl, fun _ => rfl, fun _ => rfl, fun j => ?_⟩
  by_cases hj : j = i
  · subst hj
    simpa [State.setLock] using h
  · simp [State.setLock, hj]

theorem sameElse_clear (s : State Name) (i : ℕ) : SameElse s (s.clear i) := by
  have h := sameElse_setLock s i (x := (s.lock i).clear) rfl
  exact ⟨rfl, fun _ => rfl, fun _ => rfl, fun _ => rfl, h.name⟩

theorem stealKey_calculateWakeupTime (s : State Name) (g : ℤ) (i : ℕ) :
    (s.calculateWakeupTime g i).stealKey = s.stealKey := by
  funext j
  by_cases hj : j = i
  · subst hj
    simp [State.stealKey, State.calculateWakeupTime, State.setLock, Lock.calculateWakeupTime]
  · simp [State.stealKey, State.calculateWakeupTime, State.setLock, hj]

theorem calculateWakeupTime_of_not_canSteal {x : Lock Name} (h : x.canSteal = false) (g : ℤ) :
    x.calculateWakeupTime g = x.calculateWakeupTime kNotHeld := by
  unfold Lock.calculateWakeupTime
  simp [h]

variable [LinearOrder Name]

theorem sameElse_unscheduled (s : State Name) (i : ℕ) : SameElse s (s.unscheduled i) := by
  refine ⟨rfl, fun n => ?_, fun n => ?_, fun n => ?_, fun _ => rfl⟩ <;>
    by_cases hn : n = (s.lock i).name <;> simp [State.unscheduled, State.setState, State.stateOf, hn]

theorem sameElse_inserted (s : State Name) (i : ℕ) : SameElse s (s.inserted i) := by
  refine ⟨rfl, fun n => ?_, fun n => ?_, fun n => ?_, fun _ => rfl⟩ <;>
    by_cases hn : n = (s.lock i).name <;> simp [State.inserted, State.setState, State.stateOf, hn]

theorem pendingSteals_unscheduled (s : State Name) (i : ℕ) (n : Name) :
    ((s.unscheduled i).lockState n).pendingSteals =
      if n = (s.lock i).name then erase s.stealKey i (s.stateOf i).pendingSteals
      else (s.lockState n).pendingSteals := by
  by_cases hn : n = (s.lock i).name <;> simp [State.unscheduled, State.setState, hn]

theorem pendingSteals_inserted (s : State Name) (i : ℕ) (n : Name) :
    ((s.inserted i).lockState n).pendingSteals =
      if n = (s.lock i).name ∧ (s.lock i).canSteal = true then
        OrderedSet.insert s.stealKey i (s.stateOf i).pendingSteals
      else (s.lockState n).pendingSteals := by
  by_cases hn : n = (s.lock i).name <;> by_cases hc : (s.lock i).canSteal = true <;>
    simp [State.inserted, State.setState, State.stateOf, hn, hc]

namespace State

def rescheduled (s : State Name) (heldLockGrantTimeMs : ℤ) (i : ℕ) : State Name :=
  ((s.unscheduled i).calculateWakeupTime heldLockGrantTimeMs i).inserted i

def responded (s : State Name) (i : ℕ) (grantTimeMs : ℤ) (r : ℕ) (granted : Bool) : State Name :=
  let u := (s.unscheduled i).clear i
  { u.setLock i { u.lock i with grantTimeMs := grantTimeMs } with called := u.called ++ [(r, granted)] }

end State

section Reschedule

variable {g : ℤ}

theorem rescheduleLock_eq (hm : (s.stateOf i).managed = true) (hc : s.corrupted = false) :
    s.rescheduleLock g i = .ok (s.rescheduled g i) := by
  have hname : ((s.lock i).calculateWakeupTime g).name = (s.lock i).name := rfl
  have hsame := (sameElse_unscheduled s i).trans (sameElse_setLock (s.unscheduled i) i hname)
  have hmanaged : (((s.unscheduled i).calculateWakeupTime g i).stateOf i).managed = true :=
    (hsame.stateOf_managed i).trans hm
  have hcorrupted : ((s.unscheduled i).calculateWakeupTime g i).corrupted = false := hc
  unfold State.rescheduleLock
  rw [unscheduleLock_eq, if_neg (fun h => Bool.noConfusion (hc.symm.trans h.2))]
  change State.insertLock _ i = _
  rw [insertLock_eq, if_pos hmanaged, hcorrupted]
  rfl

theorem lock_rescheduled (s : State Name) (g : ℤ) (i : ℕ) :
    (s.rescheduled g i).lock = Function.update s.lock i ((s.lock i).calculateWakeupTime g) := rfl

theorem sameElse_rescheduled (s : State Name) (g : ℤ) (i : ℕ) : SameElse s (s.rescheduled g i) := by
  have hname : ((s.lock i).calculateWakeupTime g).name = (s.lock i).name := rfl
  exact ((sameElse_unscheduled s i).trans (sameElse_setLock _ i hname)).trans (sameElse_inserted _ i)

theorem Sets.rescheduled (h : Sets s Q R) (hm : (s.stateOf i).managed = true) (hQ : Q i) (hR : R i) :
    Sets (s.rescheduled g i) Q R := by
  have hout := h.unscheduled (Or.inl hm)
  have hset : Sets ((s.unscheduled i).calculateWakeupTime g i) (fun j => Q j ∧ j ≠ i) (fun j => R j ∧ j ≠ i) :=
    hout.setLock _ (fun hj => hj.2 rfl) (fun hj => hj.2 rfl)
  refine hset.inserted.congr (fun j => ?_) (fun j => ?_)
  · by_cases hj : j = i
    · subst hj
      simp [hQ]
    · simp [hj]
  · by_cases hj : j = i
    · subst hj
      simp [hR]
    · simp [hj]

theorem pendingSteals_rescheduled {l : List ℕ} (h : Sets s Q R) (hfirst : (s.stateOf i).pendingSteals = i :: l)
    (n : Name) : ((s.rescheduled g i).lockState n).pendingSteals = (s.lockState n).pendingSteals := by
  have hord : Ordered s.stealKey (i :: l) := hfirst ▸ h.stealsOrdered (s.lock i).name
  have hmem : i ∈ (s.stateOf i).pendingSteals := by
    rw [hfirst]
    exact List.mem_cons_self
  have hcan : (s.lock i).canSteal = true := ((h.steals _ i).mp hmem).2.2
  have hlock : ((s.unscheduled i).calculateWakeupTime g i).lock i = (s.lock i).calculateWakeupTime g :=
    Function.update_self i _ _
  have hname : (((s.unscheduled i).calculateWakeupTime g i).lock i).name = (s.lock i).name := by
    rw [hlock]
    rfl
  unfold State.rescheduled
  rw [pendingSteals_inserted, stealKey_calculateWakeupTime]
  by_cases hn : n = (s.lock i).name
  · have hstate : (((s.unscheduled i).calculateWakeupTime g i).stateOf i).pendingSteals = l := by
      have hsteals := pendingSteals_unscheduled s i (s.lock i).name
      rw [if_pos rfl, hfirst, erase_first (stealKey_injective s) hord] at hsteals
      unfold State.stateOf
      rw [hname]
      exact hsteals
    have hfresh : OrderedSet.insert s.stealKey i l = i :: l :=
      insert_first fun y hy => (List.pairwise_cons.mp hord).1 y (List.mem_of_mem_head? hy)
    have hcond : n = (((s.unscheduled i).calculateWakeupTime g i).lock i).name ∧
        (((s.unscheduled i).calculateWakeupTime g i).lock i).canSteal = true := by
      refine ⟨hn.trans hname.symm, ?_⟩
      rw [hlock]
      exact hcan
    rw [if_pos hcond, hstate, hn]
    exact hfresh.trans hfirst.symm
  · rw [if_neg fun hcond => hn (hcond.1.trans hname)]
    exact (pendingSteals_unscheduled s i n).trans (if_neg hn)

end Reschedule

section Respond

variable {g : ℤ} {b : Bool}

theorem lock_responded (s : State Name) (i : ℕ) (g : ℤ) (r : ℕ) (b : Bool) :
    (s.responded i g r b).lock = Function.update s.lock i { (s.lock i).clear with grantTimeMs := g } := by
  funext j
  by_cases hj : j = i
  · subst hj
    simp [State.responded, State.setLock, State.clear, State.unscheduled, State.setState]
  · simp [State.responded, State.setLock, State.clear, State.unscheduled, State.setState, hj]

theorem sameElse_responded (s : State Name) (i : ℕ) (g : ℤ) (r : ℕ) (b : Bool) :
    SameElse s (s.responded i g r b) := by
  have h := (sameElse_unscheduled s i).trans (sameElse_clear (s.unscheduled i) i)
  refine ⟨rfl, h.currentOwner, h.lockCount, h.managed, fun j => ?_⟩
  rw [lock_responded]
  by_cases hj : j = i
  · subst hj
    rw [Function.update_self]
    rfl
  · rw [Function.update_of_ne hj]

theorem respond_eq (hr : (s.lock i).callback = some r) (hh : (s.lock i).held = false)
    (hp : (s.lock i).isPending = true) (hm : ¬ ((s.stateOf i).managed = true ∧ s.corrupted = true)) :
    s.respond i g b = .ok (s.responded i g r b) := by
  have hnot : ¬ (((s.unscheduled i).lock i).held = true ∨ ((s.unscheduled i).lock i).isPending = false) := by
    have hlock : (s.unscheduled i).lock i = s.lock i := rfl
    simp [hlock, hh, hp]
  have hcallback : ((s.unscheduled i).lock i).callback = some r := hr
  unfold State.respond
  rw [unscheduleLock_eq, if_neg hm]
  simp only [Except.bind, hcallback, if_neg hnot]
  rfl

theorem respond_error (hm : (s.stateOf i).managed = true) (hc : s.corrupted = true) :
    s.respond i g b = .error .corruptedSet := by
  unfold State.respond
  rw [unscheduleLock_eq, if_pos ⟨hm, hc⟩]
  rfl

theorem corrupted_responded (s : State Name) (i : ℕ) (g : ℤ) (r : ℕ) (b : Bool) :
    (s.responded i g r b).corrupted = (s.corrupted || decide (i ∈ (s.unscheduled i).pendingLocks)) := rfl

theorem Sets.responded (h : Sets s Q R) (hm : (s.stateOf i).managed = true ∨ Q i) :
    Sets (s.responded i g r b) (fun j => Q j ∧ j ≠ i) (fun j => R j ∧ j ≠ i) := by
  have hclear : ∀ c, ((s.responded i g r b).corrupted = false → c = false) → Sets { s with corrupted := c } Q R →
      ((s.stateOf i).managed = true ∨ c = true) →
      Sets (s.responded i g r b) (fun j => Q j ∧ j ≠ i) (fun j => R j ∧ j ≠ i) := by
    intro c hc hs hmanaged
    have hout := (hs.unscheduled hmanaged).setLock (i := i) { (s.lock i).clear with grantTimeMs := g }
      (fun hj => hj.2 rfl) (fun hj => hj.2 rfl)
    exact hout.of_eq (lock_responded s i g r b) (fun _ => rfl) (fun _ => rfl) rfl hc
  by_cases hmanaged : (s.stateOf i).managed = true
  · refine hclear s.corrupted (fun hc => ?_) h (Or.inl hmanaged)
    rw [corrupted_responded, Bool.or_eq_false_iff] at hc
    exact hc.1
  · refine hclear true (fun hc => ?_) h.corrupt (Or.inr rfl)
    rw [corrupted_responded, Bool.or_eq_false_iff] at hc
    have hmem : i ∈ (s.unscheduled i).pendingLocks := by
      simp only [State.unscheduled, if_neg hmanaged]
      exact (h.members hc.1 i).mpr (hm.resolve_left hmanaged)
    simp [hmem] at hc

end Respond

def Pending (s : State Name) (i : ℕ) : Prop := (s.lock i).isPending = true

structure Lock.Sound (x : Lock Name) (clock : ℤ) : Prop where
  callback : x.isPending = x.callback.isSome
  exclusive : x.isPending = true → x.held = false
  granted : x.held = true → 0 ≤ x.grantTimeMs ∧ x.grantTimeMs ≤ clock
  waiting : x.isPending = true → 0 ≤ x.cancelTimeMs ∧ kDoNotSteal ≤ x.stealMs
  wakes : x.isPending = true → x.wakeupTimeMs = x.cancelTimeMs ∨ x.canSteal = true

structure Requests (called : List (ℕ × Bool)) (requests : ℕ) (callback : ℕ → Option ℕ) : Prop where
  nodup : (called.map Prod.fst).Nodup
  issued : ∀ r ∈ called.map Prod.fst, r < requests
  waiting : ∀ i r, callback i = some r → r < requests ∧ r ∉ called.map Prod.fst
  unique : ∀ i j r, callback i = some r → callback j = some r → i = j
  answered : ∀ r < requests, r ∈ called.map Prod.fst ∨ ∃ i, callback i = some r

structure Core (s : State Name) : Prop where
  sets : Sets s (Pending s) (Pending s)
  sound : ∀ i, (s.lock i).Sound s.clock
  clock : 0 ≤ s.clock
  owner : ∀ n i, (s.lockState n).currentOwner = some i ↔ (s.lock i).name = n ∧ (s.lock i).held = true
  waits : ∀ i, Pending s i → (s.stateOf i).currentOwner ≠ none
  requests : Requests s.called s.requests fun i => (s.lock i).callback

theorem Core.owner_not_pending (h : Core s) (ho : (s.lockState n).currentOwner = some o) : ¬ Pending s o := by
  intro hp
  have hheld := ((h.owner n o).mp ho).2
  rw [(h.sound o).exclusive hp] at hheld
  cases hheld

theorem Core.corrupted_clear (h : Core s) (hi : ¬ Pending s i) : (s.clear i).corrupted = s.corrupted := by
  cases hc : s.corrupted with
  | true => simp [State.clear, hc]
  | false =>
    have hmem : i ∉ s.pendingLocks := fun hmem => hi ((h.sets.members hc i).mp hmem)
    simp [State.clear, hc, hmem]

theorem Core.sets_clear (h : Core s) (hi : ¬ Pending s i) : Sets (s.clear i) (Pending s) (Pending s) := by
  refine (h.sets.setLock (s.lock i).clear hi hi).of_eq rfl (fun _ => rfl) (fun _ => rfl) rfl ?_
  rw [h.corrupted_clear hi]
  exact id

section Unlock

theorem unlockState_alone (ho : (s.lockState n).currentOwner = some o) (hp : (s.lockState n).pendingLocks = []) :
    s.unlockState n = .ok ((s.clear o).setState n { s.lockState n with currentOwner := none }) := by
  have hp' : ((s.clear o).lockState n).pendingLocks = [] := hp
  unfold State.unlockState
  simp only [ho, hp']
  rw [hp]
  rfl

structure Handed (s : State Name) (n : Name) (o p r : ℕ) (t : State Name) : Prop where
  sets : Sets t (fun j => Pending s j ∧ j ≠ p) (fun j => Pending s j ∧ j ≠ p)
  lock_old : t.lock o = (s.lock o).clear
  lock_new : t.lock p = { (s.lock p).clear with grantTimeMs := s.clock }
  lock_else : ∀ j, j ≠ o → j ≠ p → t.lock j =
    if (s.lock p).canSteal = true ∧ (t.lockState n).pendingSteals.head? = some j then
      (s.lock j).calculateWakeupTime s.clock
    else s.lock j
  pendingSteals : (t.lockState n).pendingSteals = erase s.stealKey p (s.lockState n).pendingSteals
  elsewhere : ∀ m, m ≠ n → (t.lockState m).pendingSteals = (s.lockState m).pendingSteals
  currentOwner : ∀ m, (t.lockState m).currentOwner = if m = n then some p else (s.lockState m).currentOwner
  lockCount : ∀ m, (t.lockState m).lockCount = (s.lockState m).lockCount
  managed : ∀ m, (t.lockState m).managed = (s.lockState m).managed
  eq : t = { s with
    lock := t.lock, lockState := t.lockState, pendingLocks := t.pendingLocks, called := s.called ++ [(r, true)] }

def State.taken (s : State Name) (o p : ℕ) : State Name :=
  let t := (s.clear o).unscheduled p
  t.setState (s.lock p).name { t.lockState (s.lock p).name with currentOwner := some p }

variable {l : List ℕ}

theorem unlockState_eq (h : Core s) (ho : (s.lockState n).currentOwner = some o)
    (hp : (s.lockState n).pendingLocks = p :: l) (hm : (s.lockState n).managed = true) (hc : s.corrupted = false) :
    s.unlockState n =
      ((match (s.lock p).canSteal, ((s.taken o p).lockState n).pendingSteals with
        | true, stealer :: _ => (s.taken o p).rescheduleLock s.clock stealer
        | _, _ => .ok (s.taken o p)).bind fun v => v.grant p v.clock) := by
  have hmem : p ∈ (s.lockState n).pendingLocks := by
    rw [hp]
    exact List.mem_cons_self
  obtain ⟨hname, hpending⟩ := (h.sets.pending n p).mp hmem
  have hne : p ≠ o := fun he => h.owner_not_pending ho (he ▸ hpending)
  have hlock : (s.clear o).lock p = s.lock p := Function.update_of_ne hne _ _
  have hsets := h.sets_clear (h.owner_not_pending ho)
  have hcorrupted : (s.clear o).corrupted = false := (h.corrupted_clear (h.owner_not_pending ho)).trans hc
  have hfirst : erase (s.clear o).wakeupKey p (p :: l) = l :=
    erase_first (wakeupKey_injective _) (hp ▸ hsets.pendingOrdered n)
  have hp' : ((s.clear o).lockState n).pendingLocks = p :: l := hp
  have hm' : ((s.clear o).lockState n).managed = true := hm
  have hstate : (s.clear o).stateOf p = (s.clear o).lockState n := by
    unfold State.stateOf
    rw [hlock, hname]
  -- what `RemovePendingLock` and `pending_steals_.erase` leave
  have htaken : s.taken o p =
      { (s.clear o).setState n
          { (s.clear o).lockState n with
            currentOwner := some p
            pendingLocks := l
            pendingSteals := erase (s.clear o).stealKey p ((s.clear o).lockState n).pendingSteals } with
        pendingLocks := erase (s.clear o).wakeupKey p (s.clear o).pendingLocks } := by
    simp only [State.taken, State.unscheduled, State.setState, hlock, hname, hstate, hp', hm', hfirst, if_true,
      Function.update_self, Function.update_idem]
  have hsteals : ((s.taken o p).lockState n).pendingSteals =
      erase (s.clear o).stealKey p ((s.clear o).lockState n).pendingSteals := by
    rw [htaken]
    simp only [State.setState, Function.update_self]
  let st := (s.clear o).lockState n
  let u : State Name := { (s.clear o).setState n { st with currentOwner := some p, pendingLocks := l } with
    pendingLocks := erase (s.clear o).wakeupKey p (s.clear o).pendingLocks }
  have hremove : ((s.clear o).setState n { st with currentOwner := some p, pendingLocks := l }).removePendingLock p =
      .ok u := by
    have hnot : ¬ ((s.clear o).setState n { st with currentOwner := some p, pendingLocks := l }).corrupted = true := by
      simp [State.setState, hcorrupted]
    exact if_neg hnot
  have hcan : (u.lock p).canSteal = (s.lock p).canSteal := congrArg Lock.canSteal hlock
  have hu : s.unlockState n =
      (if (s.lock p).canSteal then u.establishStealer n u.clock p else .ok u).bind fun v => v.grant p v.clock := by
    unfold State.unlockState
    simp only [ho, hp', hm', if_true]
    unfold State.handOver
    change (((s.clear o).setState n { st with currentOwner := some p, pendingLocks := l }).removePendingLock p).bind _ = _
    rw [hremove, ← hcan]
    rfl
  have hust : (u.lockState n).pendingSteals = st.pendingSteals := by simp [u, State.setState]
  cases hcanp : (s.lock p).canSteal with
  | true =>
    have hestablish : u.setState n { u.lockState n with
        pendingSteals := erase u.stealKey p (u.lockState n).pendingSteals } = s.taken o p := by
      rw [htaken]
      simp only [u, State.setState, Function.update_self, Function.update_idem]
      rfl
    have hlist : erase u.stealKey p (u.lockState n).pendingSteals = ((s.taken o p).lockState n).pendingSteals := by
      rw [hsteals, hust]
      rfl
    rw [hu, if_pos hcanp, State.establishStealer, hestablish, hlist]
    cases ((s.taken o p).lockState n).pendingSteals <;> rfl
  | false =>
    have hnot : p ∉ st.pendingSteals := by
      intro hin
      have hsteal := ((h.sets.steals n p).mp hin).2.2
      rw [hcanp] at hsteal
      cases hsteal
    have hsame : u = s.taken o p := by
      rw [htaken, erase_of_notMem (stealKey_injective _) hnot]
    rw [hu, if_neg (by simp [hcanp]), hsame]

theorem corrupted_responded_of_managed {g : ℤ} {b : Bool} (hm : (s.stateOf i).managed = true) :
    (s.responded i g r b).corrupted = s.corrupted := by
  have hnot : i ∉ (s.unscheduled i).pendingLocks := by
    simp only [State.unscheduled, hm, if_true, mem_erase (wakeupKey_injective s)]
    exact fun h => h.2 rfl
  rw [corrupted_responded, decide_eq_false hnot, Bool.or_false]

section Taken

variable (h : Core s) (ho : (s.lockState n).currentOwner = some o)

include h ho

variable (hp : Pending s p) (hn : (s.lock p).name = n)

include hp hn

theorem taken_lockState (m : Name) :
    ((s.taken o p).lockState m).currentOwner = (if m = n then some p else (s.lockState m).currentOwner) ∧
      ((s.taken o p).lockState m).lockCount = (s.lockState m).lockCount ∧
      ((s.taken o p).lockState m).managed = (s.lockState m).managed ∧
      ((s.taken o p).lockState m).pendingSteals =
        if m = n then erase s.stealKey p (s.lockState n).pendingSteals else (s.lockState m).pendingSteals := by
  have hne : p ≠ o := fun he => h.owner_not_pending ho (he ▸ hp)
  have hlock : (s.clear o).lock p = s.lock p := Function.update_of_ne hne _ _
  by_cases hm : m = n
  · subst hm
    have hkey : erase (s.clear o).stealKey p (s.lockState m).pendingSteals =
        erase s.stealKey p (s.lockState m).pendingSteals := by
      unfold erase
      refine List.filter_congr fun j hj => ?_
      rw [decide_eq_decide, not_iff_not, (stealKey_injective _).eq_iff, (stealKey_injective _).eq_iff]
    simp only [State.taken, State.unscheduled, State.setState, hlock, hn, Function.update_self, State.stateOf, if_true]
    exact ⟨trivial, rfl, rfl, hkey⟩
  · simp only [State.taken, State.unscheduled, State.setState, hlock, hn, Function.update_of_ne hm, if_neg hm]
    exact ⟨rfl, rfl, rfl, rfl⟩

theorem taken_sets (hm : (s.lockState n).managed = true) :
    Sets (s.taken o p) (fun j => Pending s j ∧ j ≠ p) (fun j => Pending s j ∧ j ≠ p) := by
  have hne : p ≠ o := fun he => h.owner_not_pending ho (he ▸ hp)
  have hlock : (s.clear o).lock p = s.lock p := Function.update_of_ne hne _ _
  have hmanaged : ((s.clear o).stateOf p).managed = true := by
    unfold State.stateOf
    rw [hlock, hn]
    exact hm
  have hout := (h.sets_clear (h.owner_not_pending ho)).unscheduled (Or.inl hmanaged)
  refine hout.of_eq rfl (fun m => ?_) (fun m => ?_) rfl id
  · by_cases hmn : m = (s.lock p).name <;> simp [State.taken, State.setState, hmn]
  · by_cases hmn : m = (s.lock p).name <;> simp [State.taken, State.setState, hmn]

end Taken

structure Told (s : State Name) (n : Name) (o p : ℕ) (v : State Name) : Prop where
  sets : Sets v (fun j => Pending s j ∧ j ≠ p) (fun j => Pending s j ∧ j ≠ p)
  same : SameElse (s.taken o p) v
  lock_old : v.lock o = (s.lock o).clear
  lock_else : ∀ j, j ≠ o → v.lock j =
    if (s.lock p).canSteal = true ∧ (v.lockState n).pendingSteals.head? = some j then
      (s.lock j).calculateWakeupTime s.clock
    else s.lock j
  pendingSteals : ∀ m, (v.lockState m).pendingSteals = ((s.taken o p).lockState m).pendingSteals
  corrupted : v.corrupted = false
  called : v.called = s.called

theorem taken_told (h : Core s) (ho : (s.lockState n).currentOwner = some o) (hp : Pending s p)
    (hn : (s.lock p).name = n) (hm : (s.lockState n).managed = true) (hc : s.corrupted = false) :
    ∃ v, (match (s.lock p).canSteal, ((s.taken o p).lockState n).pendingSteals with
        | true, stealer :: _ => (s.taken o p).rescheduleLock s.clock stealer
        | _, _ => .ok (s.taken o p)) = .ok v ∧ Told s n o p v := by
  have hsets := taken_sets h ho hp hn hm
  have hcorrupted : (s.taken o p).corrupted = false := (h.corrupted_clear (h.owner_not_pending ho)).trans hc
  have hself : ∀ j, j ≠ o → (s.taken o p).lock j = s.lock j := fun j hj => Function.update_of_ne hj _ _
  have hunchanged : (¬ ((s.lock p).canSteal = true ∧ ((s.taken o p).lockState n).pendingSteals ≠ [])) →
      Told s n o p (s.taken o p) := by
    intro hnone
    refine ⟨hsets, ⟨rfl, fun _ => rfl, fun _ => rfl, fun _ => rfl, fun _ => rfl⟩, Function.update_self o _ _,
      fun j hj => ?_, fun _ => rfl, hcorrupted, rfl⟩
    rw [hself j hj, if_neg]
    rintro ⟨hcan, hhead⟩
    refine hnone ⟨hcan, fun hnil => ?_⟩
    rw [hnil] at hhead
    cases hhead
  cases hcan : (s.lock p).canSteal with
  | false => exact ⟨_, rfl, hunchanged fun hboth => Bool.noConfusion (hcan.symm.trans hboth.1)⟩
  | true =>
    cases hsteals : ((s.taken o p).lockState n).pendingSteals with
    | nil => exact ⟨_, rfl, hunchanged fun hboth => hboth.2 hsteals⟩
    | cons stealer l =>
      have hmem : stealer ∈ ((s.taken o p).lockState n).pendingSteals := by
        rw [hsteals]
        exact List.mem_cons_self
      obtain ⟨hname, hin, -⟩ := (hsets.steals n stealer).mp hmem
      have hfirst : ((s.taken o p).stateOf stealer).pendingSteals = stealer :: l := by
        unfold State.stateOf
        rw [hname]
        exact hsteals
      have hmanaged : ((s.taken o p).stateOf stealer).managed = true := by
        unfold State.stateOf
        rw [hname, (taken_lockState h ho hp hn n).2.2.1]
        exact hm
      have hstealer : stealer ≠ o := fun he => h.owner_not_pending ho (he ▸ hin.1)
      have hsame := pendingSteals_rescheduled (g := s.clock) hsets hfirst
      refine ⟨_, rescheduleLock_eq hmanaged hcorrupted, hsets.rescheduled hmanaged hin hin,
        sameElse_rescheduled _ _ _, ?_, fun j hj => ?_, hsame, hcorrupted, rfl⟩
      · rw [lock_rescheduled, Function.update_of_ne hstealer.symm]
        exact Function.update_self o _ _
      · rw [hsame, hsteals, lock_rescheduled]
        by_cases hjs : j = stealer
        · subst hjs
          rw [Function.update_self, if_pos ⟨hcan, rfl⟩, hself j hj]
        · have hnot : ¬ ((s.lock p).canSteal = true ∧ (stealer :: l).head? = some j) := fun hboth =>
            hjs (Option.some.inj hboth.2).symm
          rw [Function.update_of_ne hjs, if_neg hnot, hself j hj]

theorem unlockState_handed (h : Core s) (ho : (s.lockState n).currentOwner = some o)
    (hp : (s.lockState n).pendingLocks = p :: l) (hm : (s.lockState n).managed = true) (hc : s.corrupted = false) :
    ∃ t r, s.unlockState n = .ok t ∧ (s.lock p).callback = some r ∧ Handed s n o p r t := by
  have hmem : p ∈ (s.lockState n).pendingLocks := by
    rw [hp]
    exact List.mem_cons_self
  obtain ⟨hname, hpending⟩ := (h.sets.pending n p).mp hmem
  have hne : p ≠ o := fun he => h.owner_not_pending ho (he ▸ hpending)
  have hcallback := (h.sound p).callback
  rw [hpending] at hcallback
  obtain ⟨r, hr⟩ := Option.isSome_iff_exists.mp hcallback.symm
  have hstate := taken_lockState h ho hpending hname
  obtain ⟨v, hv, hold⟩ := taken_told h ho hpending hname hm hc
  -- the new owner is no longer among the locks that may be told
  have hvp : v.lock p = s.lock p := by
    rw [hold.lock_else p hne, if_neg]
    rintro ⟨-, hhead⟩
    have hin := (hold.sets.steals n p).mp (List.mem_of_mem_head? hhead)
    exact hin.2.1.2 rfl
  have hvmanaged : (v.stateOf p).managed = true := by
    unfold State.stateOf
    rw [hvp, hname, hold.same.managed, (hstate n).2.2.1]
    exact hm
  have hvclock : v.clock = s.clock := by
    rw [hold.same.eq]
    rfl
  have hgrant : v.grant p v.clock = .ok (v.responded p s.clock r true) := by
    rw [hvclock]
    refine respond_eq ?_ ?_ ?_ fun hboth => ?_
    · rw [hvp]
      exact hr
    · rw [hvp]
      exact (h.sound p).exclusive hpending
    · rw [hvp]
      exact hpending
    · rw [hold.corrupted] at hboth
      exact Bool.noConfusion hboth.2
  have hsame := sameElse_responded v p s.clock r true
  have hlock := lock_responded v p s.clock r true
  have hsteals : ∀ m, ((v.responded p s.clock r true).lockState m).pendingSteals = (v.lockState m).pendingSteals := by
    intro m
    have hun := pendingSteals_unscheduled v p m
    by_cases hmn : m = (v.lock p).name
    · have hnot : p ∉ (v.stateOf p).pendingSteals := fun hin => ((hold.sets.steals _ p).mp hin).2.1.2 rfl
      rw [if_pos hmn, erase_of_notMem (stealKey_injective v) hnot, State.stateOf, ← hmn] at hun
      exact hun
    · rw [if_neg hmn] at hun
      exact hun
  have hcorrupted := corrupted_responded_of_managed (g := s.clock) (r := r) (b := true) hvmanaged
  refine ⟨v.responded p s.clock r true, r, ?_, hr, ?_⟩
  · rw [unlockState_eq h ho hp hm hc, hv]
    exact hgrant
  · refine ⟨(hold.sets.responded (Or.inl hvmanaged)).congr (fun j => ?_) (fun j => ?_), ?_, ?_, fun j hjo hjp => ?_, ?_,
      fun m hmn => ?_, fun m => ?_, fun m => ?_, fun m => ?_, ?_⟩
    · tauto
    · tauto
    · rw [hlock, Function.update_of_ne hne.symm]
      exact hold.lock_old
    · rw [hlock, Function.update_self, hvp]
    · rw [hlock, Function.update_of_ne hjp, hsteals]
      exact hold.lock_else j hjo
    · rw [hsteals, hold.pendingSteals, (hstate n).2.2.2, if_pos rfl]
    · rw [hsteals, hold.pendingSteals, (hstate m).2.2.2, if_neg hmn]
    · rw [hsame.currentOwner, hold.same.currentOwner, (hstate m).1]
    · rw [hsame.lockCount, hold.same.lockCount, (hstate m).2.1]
    · rw [hsame.managed, hold.same.managed, (hstate m).2.2.1]
    · have hcalled : (v.responded p s.clock r true).called = s.called ++ [(r, true)] :=
        congrArg (· ++ [(r, true)]) hold.called
      refine (hold.same.trans hsame).eq.trans ?_
      rw [hcorrupted, hold.corrupted, ← hc, hcalled]
      rfl

end Unlock

section Request

variable {w st : ℤ}

def State.requesting (s : State Name) (i : ℕ) (waitMs stealMs : ℤ) : Lock Name :=
  { s.lock i with cancelTimeMs := s.clock + waitMs, stealMs := stealMs, callback := some s.requests }

structure Queued (s : State Name) (i : ℕ) (waitMs stealMs : ℤ) (o : ℕ) (t : State Name) : Prop where
  sets : Sets t (fun j => Pending s j ∨ j = i) (fun j => Pending s j ∨ j = i)
  lock :
    (t.lock i = (s.requesting i waitMs stealMs).calculateWakeupTime (s.lock o).grantTimeMs ∧
      (t.stateOf i).pendingSteals.head? = some i ∧ ∀ j, j ≠ i → t.lock j =
        if (s.stateOf i).pendingSteals.head? = some j then (s.lock j).calculateWakeupTime kNotHeld else s.lock j) ∨
    (t.lock i = (s.requesting i waitMs stealMs).calculateWakeupTime kNotHeld ∧
      (t.stateOf i).pendingSteals.head? = (s.stateOf i).pendingSteals.head? ∧ ∀ j, j ≠ i → t.lock j = s.lock j)
  elsewhere : ∀ m, m ≠ (s.lock i).name → (t.lockState m).pendingSteals = (s.lockState m).pendingSteals
  currentOwner : ∀ m, (t.lockState m).currentOwner = (s.lockState m).currentOwner
  lockCount : ∀ m, (t.lockState m).lockCount = (s.lockState m).lockCount
  managed : ∀ m, (t.lockState m).managed = (s.lockState m).managed
  eq : t = { s with
    lock := t.lock, lockState := t.lockState, pendingLocks := t.pendingLocks, requests := s.requests + 1,
    task := some (.wakeup s.clock) }

theorem stealKey_rescheduled (s : State Name) (g : ℤ) (i : ℕ) : (s.rescheduled g i).stealKey = s.stealKey :=
  stealKey_calculateWakeupTime (s.unscheduled i) g i

theorem scheduleLock_eq {x : Lock Name} (hx : s.lock i = x) (ho : (s.stateOf i).currentOwner = some o)
    (hp : x.isPending = false) :
    s.scheduleLock i =
      (if x.canSteal then (s.calculateWakeupTime (s.lock o).grantTimeMs i).displaceStealer i
        else .ok (s.calculateWakeupTime (s.lock o).grantTimeMs i)).bind fun u =>
        (u.insertLock i).map fun v => { v with task := some (.wakeup v.clock) } := by
  subst hx
  have hcan : ((s.calculateWakeupTime (s.lock o).grantTimeMs i).lock i).canSteal = (s.lock i).canSteal := by
    simp [State.calculateWakeupTime, State.setLock, Lock.calculateWakeupTime, Lock.canSteal]
  unfold State.scheduleLock
  simp only [ho, hp, hcan, Bool.false_eq_true, if_false]

structure Ranked (s : State Name) (P : ℕ → Prop) (i : ℕ) (x : Lock Name) (g : ℤ) (u : State Name) : Prop where
  sets : Sets u P P
  same : SameElse s u
  corrupted : u.corrupted = s.corrupted
  called : u.called = s.called
  steals : ∀ m, (u.lockState m).pendingSteals = (s.lockState m).pendingSteals
  stealKey : u.stealKey i = (s.calculateWakeupTime g i).stealKey i
  lock : (u.lock i = x.calculateWakeupTime g ∧ x.canSteal = true ∧
      (∀ p ∈ (s.stateOf i).pendingSteals.head?, u.stealKey i < u.stealKey p) ∧ ∀ j, j ≠ i → u.lock j =
        if (s.stateOf i).pendingSteals.head? = some j then (s.lock j).calculateWakeupTime kNotHeld else s.lock j) ∨
    (u.lock i = x.calculateWakeupTime kNotHeld ∧
      (x.canSteal = true → ∃ p ∈ (s.stateOf i).pendingSteals.head?, u.stealKey p < u.stealKey i) ∧
      ∀ j, j ≠ i → u.lock j = s.lock j)

theorem displaced_ranked {P : ℕ → Prop} {x : Lock Name} {g : ℤ} (h : Sets s P P) (hx : s.lock i = x) (hP : ¬ P i)
    (hm : (s.stateOf i).managed = true) (hc : s.corrupted = false) :
    ∃ u, (if x.canSteal then (s.calculateWakeupTime g i).displaceStealer i else .ok (s.calculateWakeupTime g i)) = .ok u ∧
      Ranked s P i x g u := by
  subst hx
  have hname : ((s.lock i).calculateWakeupTime g).name = (s.lock i).name := rfl
  have hsets : Sets (s.calculateWakeupTime g i) P P := h.setLock _ hP hP
  have hself : (s.calculateWakeupTime g i).lock i = (s.lock i).calculateWakeupTime g := Function.update_self i _ _
  have hother : ∀ j, j ≠ i → (s.calculateWakeupTime g i).lock j = s.lock j := fun j hj => Function.update_of_ne hj _ _
  have hsame : SameElse s (s.calculateWakeupTime g i) := sameElse_setLock s i hname
  have hstate : (s.calculateWakeupTime g i).stateOf i = s.stateOf i := by
    unfold State.stateOf
    rw [hsame.name]
    rfl
  cases hcan : (s.lock i).canSteal with
  | false =>
    refine ⟨_, rfl, hsets, hsame, rfl, rfl, fun _ => rfl, rfl, Or.inr ⟨?_, fun hyes => ?_, hother⟩⟩
    · rw [hself, calculateWakeupTime_of_not_canSteal hcan]
    · exact Bool.noConfusion (hcan.symm.trans hyes)
  | true =>
    rw [if_pos rfl]
    unfold State.displaceStealer
    rw [hstate]
    cases hsteals : (s.stateOf i).pendingSteals with
    | nil =>
      refine ⟨_, rfl, hsets, hsame, rfl, rfl, fun _ => rfl, rfl, Or.inl ⟨hself, hcan, ?_, fun j hj => ?_⟩⟩
      · rw [hsteals]
        exact nofun
      · rw [hsteals, if_neg nofun, hother j hj]
    | cons p l =>
      have hmem : p ∈ (s.stateOf i).pendingSteals := by
        rw [hsteals]
        exact List.mem_cons_self
      obtain ⟨hpname, hPp, -⟩ := (h.steals _ p).mp hmem
      have hpi : p ≠ i := fun he => hP (he ▸ hPp)
      have hpstate : (s.calculateWakeupTime g i).stateOf p = s.stateOf i := by
        unfold State.stateOf
        rw [hsame.name, hpname]
        rfl
      simp only []
      split_ifs with hlt
      · have hmanaged : ((s.calculateWakeupTime g i).stateOf p).managed = true := by
          rw [hpstate]
          exact hm
        have hfirst : ((s.calculateWakeupTime g i).stateOf p).pendingSteals = p :: l := by
          rw [hpstate]
          exact hsteals
        have hkey := stealKey_rescheduled (s.calculateWakeupTime g i) kNotHeld p
        refine ⟨_, rescheduleLock_eq hmanaged hc, hsets.rescheduled hmanaged hPp hPp,
          hsame.trans (sameElse_rescheduled _ _ _), rfl, rfl, pendingSteals_rescheduled hsets hfirst, ?_,
          Or.inl ⟨?_, hcan, ?_, fun j hj => ?_⟩⟩
        · rw [hkey]
        · rw [lock_rescheduled, Function.update_of_ne hpi.symm, hself]
        · rw [hkey, hsteals]
          rintro q hq
          obtain rfl := Option.some.inj hq
          exact hlt
        · rw [lock_rescheduled, hsteals]
          by_cases hjp : j = p
          · subst hjp
            rw [Function.update_self, hother j hj]
            exact (if_pos rfl).symm
          · have hnot : ¬ (p :: l).head? = some j := fun hhead => hjp (Option.some.inj hhead).symm
            rw [Function.update_of_ne hjp, if_neg hnot, hother j hj]
      · have hname' : (((s.calculateWakeupTime g i).lock i).calculateWakeupTime kNotHeld).name =
            ((s.calculateWakeupTime g i).lock i).name := rfl
        have hkey := stealKey_calculateWakeupTime (s.calculateWakeupTime g i) kNotHeld i
        refine ⟨_, rfl, hsets.setLock _ hP hP, hsame.trans (sameElse_setLock _ i hname'), rfl, rfl, fun _ => rfl, ?_,
          Or.inr ⟨?_, fun _ => ⟨p, ?_, ?_⟩, fun j hj => ?_⟩⟩
        · rw [hkey]
        · have hset : ((s.calculateWakeupTime g i).calculateWakeupTime kNotHeld i).lock i =
              ((s.calculateWakeupTime g i).lock i).calculateWakeupTime kNotHeld := Function.update_self i _ _
          rw [hset, hself]
          simp [Lock.calculateWakeupTime, Lock.canSteal]
        · rw [hsteals]
          rfl
        · rw [hkey]
          exact lt_of_le_of_ne (not_lt.mp hlt) fun he => hpi (stealKey_injective _ he)
        · exact (Function.update_of_ne hj _ _).trans (hother j hj)

theorem request_queued (h : Core s) (hi : ¬ Pending s i) (hheld : (s.lock i).held = false)
    (ho : (s.stateOf i).currentOwner = some o) (hm : (s.stateOf i).managed = true) (hc : s.corrupted = false) :
    ∃ t, s.lockTimedWaitStealOld i w st = .ok t ∧ Queued s i w st o t := by
  have hpending : (s.lock i).isPending = false := Bool.not_eq_true _ ▸ hi
  have hcallback : (s.lock i).callback.isSome = false := ((h.sound i).callback).symm.trans hpending
  let s₁ : State Name := { s with requests := s.requests + 1 }.setLock i (s.requesting i w st)
  have hlock₁ : s₁.lock i = s.requesting i w st := Function.update_self i _ _
  have hother₁ : ∀ j, j ≠ i → s₁.lock j = s.lock j := fun j hj => Function.update_of_ne hj _ _
  have hname₁ : (s₁.lock i).name = (s.lock i).name := by
    rw [hlock₁]
    rfl
  have hstate₁ : s₁.stateOf i = s.stateOf i := by
    unfold State.stateOf
    rw [hname₁]
    rfl
  have hoi : o ≠ i := by
    rintro rfl
    have hown := ((h.owner _ o).mp ho).2
    rw [hheld] at hown
    cases hown
  have hsets₁ : Sets s₁ (Pending s) (Pending s) :=
    (h.sets.of_eq (t := { s with requests := s.requests + 1 }) rfl (fun _ => rfl) (fun _ => rfl) rfl id).setLock _ hi hi
  obtain ⟨u, hu, hranked⟩ := displaced_ranked (g := (s.lock o).grantTimeMs) hsets₁ hlock₁ hi (hstate₁ ▸ hm) hc
  have humanaged : (u.stateOf i).managed = true := by
    rw [hranked.same.stateOf_managed, hstate₁]
    exact hm
  have hinsert : u.insertLock i = .ok (u.inserted i) := by
    rw [insertLock_eq, if_pos humanaged, hranked.corrupted]
    exact if_neg (by simp [s₁, State.setLock, hc])
  have huname : (u.lock i).name = (s.lock i).name := (hranked.same.name i).trans hname₁
  have husteals : (u.stateOf i).pendingSteals = (s.stateOf i).pendingSteals := by
    unfold State.stateOf
    rw [huname, hranked.steals]
    rfl
  have hstep : s.lockTimedWaitStealOld i w st =
      .ok { u.inserted i with task := some (.wakeup u.clock) } := by
    have hsched : s.lockTimedWaitStealOld i w st = s₁.scheduleLock i := by
      unfold State.lockTimedWaitStealOld
      simp only [hheld, hpending, ho, hm, hcallback, Bool.false_eq_true, or_self, if_false, Bool.true_eq_false]
      rfl
    have ho₁ : (s₁.stateOf i).currentOwner = some o := hstate₁ ▸ ho
    rw [hsched, scheduleLock_eq hlock₁ ho₁ hpending, hother₁ o hoi, hu]
    simp only [Except.bind, hinsert, Except.map]
    rfl
  have hsame := hranked.same.trans (sameElse_inserted u i)
  have hsteals := pendingSteals_inserted u i
  have hcan : (u.lock i).canSteal = (s.requesting i w st).canSteal := by
    obtain hlock | hlock := hranked.lock <;> rw [hlock.1] <;> rfl
  refine ⟨_, hstep, hranked.sets.inserted.of_eq rfl (fun _ => rfl) (fun _ => rfl) rfl id, ?_, fun m hne => ?_,
    hsame.currentOwner, hsame.lockCount, hsame.managed, ?_⟩
  · have hnew : (State.stateOf { u.inserted i with task := some (.wakeup u.clock) } i).pendingSteals =
        if (s.requesting i w st).canSteal = true then OrderedSet.insert u.stealKey i (s.stateOf i).pendingSteals
        else (s.stateOf i).pendingSteals := by
      rw [← husteals, ← hcan]
      refine (hsteals (u.lock i).name).trans ?_
      simp only [true_and]
      rfl
    rw [hnew]
    obtain ⟨hlock, hyes, hlt, hothers⟩ | ⟨hlock, hlt, hothers⟩ := hranked.lock
    · refine Or.inl ⟨hlock, ?_, fun j hj => ?_⟩
      · rw [hstate₁] at hlt
        rw [if_pos hyes, insert_first hlt]
        rfl
      · rw [hstate₁] at hothers
        exact (hothers j hj).trans (by rw [hother₁ j hj])
    · refine Or.inr ⟨hlock, ?_, fun j hj => (hothers j hj).trans (hother₁ j hj)⟩
      rw [hstate₁] at hlt
      split_ifs with hyes
      · obtain ⟨p, hp, hkey⟩ := hlt hyes
        cases hl : (s.stateOf i).pendingSteals with
        | nil =>
          rw [hl] at hp
          cases hp
        | cons q l =>
          rw [hl] at hp
          obtain rfl := Option.some.inj hp
          exact head?_insert hkey
      · rfl
  · have hne' : ¬ (m = (u.lock i).name ∧ (u.lock i).canSteal = true) := fun hboth => hne (hboth.1.trans huname)
    refine (hsteals m).trans ?_
    rw [if_neg hne', hranked.steals]
    rfl
  · have heq : u = { s with
        lock := u.lock, lockState := u.lockState, pendingLocks := u.pendingLocks, requests := s.requests + 1 } := by
      refine hranked.same.eq.trans ?_
      rw [hranked.corrupted, hranked.called]
      rfl
    have hclock : u.clock = s.clock := by
      rw [heq]
    refine (congrArg (fun v : State Name => { v with
      lock := (u.inserted i).lock, lockState := (u.inserted i).lockState, pendingLocks := (u.inserted i).pendingLocks,
      task := some (.wakeup u.clock) }) heq).trans ?_
    rw [hclock]

end Request

end PageSpeed.MemLock
