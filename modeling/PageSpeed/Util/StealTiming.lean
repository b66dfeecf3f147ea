import PageSpeed.Util.MemLockLifetimes

/-!
When a lock is stolen: how long its holder has had it.
-/

namespace PageSpeed.MemLock

open OrderedSet

section Schedule

variable {Name : Type}

theorem calculateWakeupTime_kNotHeld (x : Lock Name) : (x.calculateWakeupTime kNotHeld).wakeupTimeMs = x.cancelTimeMs := by
  simp [Lock.calculateWakeupTime]

theorem calculateWakeupTime_cases (x : Lock Name) (g : ℤ) :
    (x.calculateWakeupTime g).wakeupTimeMs = x.cancelTimeMs ∨ (x.calculateWakeupTime g).wakeupTimeMs = x.stealMs + g := by
  unfold Lock.calculateWakeupTime
  simp only []
  split_ifs
  · exact Or.inl rfl
  · exact min_choice _ _

variable {s t : State Name} {i j o r : ℕ} {n : Name}

def Due (s : State Name) (i : ℕ) : Prop :=
  (s.lock i).wakeupTimeMs = (s.lock i).cancelTimeMs ∨
    (s.stateOf i).pendingSteals.head? = some i ∧ ∃ o, (s.stateOf i).currentOwner = some o ∧
      (s.lock i).wakeupTimeMs = (s.lock i).stealMs + (s.lock o).grantTimeMs

def Scheduled (s : State Name) : Prop := ∀ i, Pending s i → Due s i

theorem Scheduled.of_locksEq (h : Scheduled s) (heq : LocksEq s t) : Scheduled t := by
  intro i hp
  unfold Pending at hp
  rw [heq.lock] at hp
  unfold Due State.stateOf
  rw [heq.lock, heq.pendingSteals, heq.currentOwner]
  exact h i hp

theorem Due.of_same (h : Due s j) (hlock : t.lock j = s.lock j)
    (hfirst : (s.stateOf j).pendingSteals.head? = some j → (t.stateOf j).pendingSteals.head? = some j)
    (howner : ∀ o, (s.stateOf j).currentOwner = some o → ∃ o', (t.stateOf j).currentOwner = some o' ∧
      (t.lock o').grantTimeMs = (s.lock o).grantTimeMs) : Due t j := by
  obtain hcancel | ⟨hhead, o, ho, hwakeup⟩ := h
  · refine Or.inl ?_
    rw [hlock]
    exact hcancel
  · obtain ⟨o', ho', hgrant⟩ := howner o ho
    refine Or.inr ⟨hfirst hhead, o', ho', ?_⟩
    rw [hlock, hgrant]
    exact hwakeup

variable [LinearOrder Name]

theorem Scheduled.grabbed (hc : Core s) (h : Scheduled s) (hi : ¬ Pending s i) (ho : (s.stateOf i).currentOwner = none) :
    Scheduled { ({ s with requests := s.requests + 1 }.setLock i { s.lock i with grantTimeMs := s.clock }).setState
        (s.lock i).name { s.stateOf i with currentOwner := some i } with
      called := s.called ++ [(s.requests, true)] } := by
  intro j hj
  have hself : Function.update s.lock i { s.lock i with grantTimeMs := s.clock } i =
      { s.lock i with grantTimeMs := s.clock } := Function.update_self i _ _
  have hlock : ∀ j, j ≠ i → Function.update s.lock i { s.lock i with grantTimeMs := s.clock } j = s.lock j :=
    fun j hj => Function.update_of_ne hj _ _
  have hji : j ≠ i := by
    rintro rfl
    change (Function.update s.lock j { s.lock j with grantTimeMs := s.clock } j).isPending = true at hj
    rw [hself] at hj
    exact hi hj
  have hpending : Pending s j := by
    change (Function.update s.lock i { s.lock i with grantTimeMs := s.clock } j).isPending = true at hj
    rw [hlock j hji] at hj
    exact hj
  -- a name with pending locks is held, so that it is another one
  have hne : (s.lock j).name ≠ (s.lock i).name := by
    intro heq
    refine hc.waits j hpending ?_
    unfold State.stateOf at ho ⊢
    rw [heq]
    exact ho
  have hstate : Function.update s.lockState (s.lock i).name { s.stateOf i with currentOwner := some i }
      (Function.update s.lock i { s.lock i with grantTimeMs := s.clock } j).name = s.stateOf j := by
    rw [hlock j hji]
    exact Function.update_of_ne hne _ _
  refine (h j hpending).of_same (hlock j hji) (fun hhead => ?_) fun o hjo => ⟨o, ?_, ?_⟩
  · exact (congrArg (fun st => st.pendingSteals.head?) hstate).trans hhead
  · exact (congrArg LockState.currentOwner hstate).trans hjo
  · have hoi : o ≠ i := by
      rintro rfl
      exact hne ((hc.owner _ o).mp hjo).1.symm
    exact congrArg Lock.grantTimeMs (hlock o hoi)

theorem Scheduled.queued {w st : ℤ} (hc : Core s) (h : Scheduled s) (hheld : (s.lock i).held = false)
    (ho : (s.stateOf i).currentOwner = some o) (hw : 0 ≤ s.clock + w) (hst : kDoNotSteal ≤ st)
    (hq : Queued s i w st o t) : Scheduled t := by
  have hlocks := hq.locks hc hheld ho hw hst
  have hname := hq.name
  have hgrants : ∀ o', (s.lock o').held = true → (t.lock o').grantTimeMs = (s.lock o').grantTimeMs := by
    intro o' ho'
    have hoi : o' ≠ i := by
      rintro rfl
      exact Bool.noConfusion (hheld.symm.trans ho')
    obtain ⟨-, -, hothers⟩ | ⟨-, -, hothers⟩ := hq.lock
    · rw [hothers o' hoi]
      split_ifs <;> rfl
    · rw [hothers o' hoi]
  have howner : ∀ j o', (s.stateOf j).currentOwner = some o' → ∃ o'', (t.stateOf j).currentOwner = some o'' ∧
      (t.lock o'').grantTimeMs = (s.lock o').grantTimeMs := by
    intro j o' ho'
    refine ⟨o', ?_, hgrants o' ((hc.owner _ o').mp ho').2⟩
    unfold State.stateOf
    rw [hname, hq.currentOwner]
    exact ho'
  intro j hj
  by_cases hji : j = i
  · subst hji
    obtain ⟨hlock, hhead, -⟩ | ⟨hlock, -, -⟩ := hq.lock
    · unfold Due
      rw [hlock]
      refine (calculateWakeupTime_cases (s.requesting j w st) (s.lock o).grantTimeMs).imp id fun hwakeup => ?_
      obtain ⟨o', ho', hgrant⟩ := howner j o ho
      refine ⟨hhead, o', ho', ?_⟩
      rw [hwakeup, hgrant]
      rfl
    · refine Or.inl ?_
      rw [hlock]
      exact calculateWakeupTime_kNotHeld (s.requesting j w st)
  · have hpending : Pending s j := (hlocks.2 j hji).2.1.symm.trans hj
    obtain ⟨-, -, hothers⟩ | ⟨-, hhead, hothers⟩ := hq.lock
    · have hlockj := hothers j hji
      split_ifs at hlockj with hfirst
      · refine Or.inl ?_
        rw [hlockj]
        exact calculateWakeupTime_kNotHeld (s.lock j)
      · refine Due.of_same (h j hpending) hlockj (fun hheadj => ?_) (howner j)
        by_cases hn : (s.lock j).name = (s.lock i).name
        · refine absurd ?_ hfirst
          unfold State.stateOf at hheadj ⊢
          rw [← hn]
          exact hheadj
        · unfold State.stateOf at hheadj ⊢
          rw [hname, hq.elsewhere _ hn]
          exact hheadj
    · refine (h j hpending).of_same (hothers j hji) (fun hheadj => ?_) (howner j)
      by_cases hn : (s.lock j).name = (s.lock i).name
      · unfold State.stateOf at hhead hheadj ⊢
        rw [hname] at hhead ⊢
        rw [hn] at hheadj ⊢
        exact hhead.trans hheadj
      · unfold State.stateOf at hheadj ⊢
        rw [hname, hq.elsewhere _ hn]
        exact hheadj

theorem Scheduled.requested (hc : Core s) (h : Scheduled s) (hreq : Requested s i t) : Scheduled t := by
  cases hreq with
  | refuse => exact h
  | grab hlife hi ho => exact h.grabbed hc hi ho
  | queue o w st _ hlife hi hheld ho hm hw hst hq => exact h.queued hc hheld ho hw hst hq

theorem Scheduled.denied (hc : Core s) (h : Scheduled s) (hp : Pending s i) :
    Scheduled (s.responded i kNotHeld r false) := by
  have hlock := lock_responded s i kNotHeld r false
  have hsame := sameElse_responded s i kNotHeld r false
  intro j hj
  have hji : j ≠ i := by
    rintro rfl
    unfold Pending at hj
    rw [hlock, Function.update_self] at hj
    cases hj
  have hlockj : (s.responded i kNotHeld r false).lock j = s.lock j := by rw [hlock, Function.update_of_ne hji]
  have hpending : Pending s j := by
    unfold Pending at hj
    rw [hlockj] at hj
    exact hj
  refine (h j hpending).of_same hlockj (fun hhead => ?_) fun o ho => ⟨o, ?_, ?_⟩
  · have hsteals := pendingSteals_unscheduled s i (s.lock j).name
    unfold State.stateOf at hhead ⊢
    rw [hlockj]
    change ((s.unscheduled i).lockState (s.lock j).name).pendingSteals.head? = some j
    rw [hsteals]
    split_ifs with hn
    · rw [State.stateOf, ← hn]
      exact head?_erase (stealKey_injective s) hhead hji
    · exact hhead
  · unfold State.stateOf
    rw [hlockj, hsame.currentOwner]
    exact ho
  · have hoi : o ≠ i := fun he => hc.owner_not_pending ho (he ▸ hp)
    rw [hlock, Function.update_of_ne hoi]

/-- Whoever waits to steal the lock that `i` gives up is told a new time, since the next owner could steal too; or
need not be, since no time has passed since the grant or nobody waits to steal. -/
def Renews (s : State Name) (i : ℕ) : Prop :=
  ∀ p l, (s.stateOf i).pendingLocks = p :: l → (s.lock p).canSteal = true ∨ s.clock = (s.lock i).grantTimeMs ∨
    ∀ j ∈ (s.stateOf i).pendingLocks, (s.lock j).wakeupTimeMs = (s.lock j).cancelTimeMs

theorem Scheduled.released (hc : Core s) (h : Scheduled s) (hrel : Released s n i t) (hrenews : Renews s i) :
    Scheduled t := by
  cases hrel with
  | alone ho hp =>
    intro j hj
    have hlock : ∀ j, j ≠ i → (s.clear i).lock j = s.lock j := fun j hj => Function.update_of_ne hj _ _
    have hji : j ≠ i := by
      rintro rfl
      change ((s.clear j).lock j).isPending = true at hj
      rw [show (s.clear j).lock j = (s.lock j).clear from Function.update_self j _ _] at hj
      cases hj
    have hpending : Pending s j := by
      change ((s.clear i).lock j).isPending = true at hj
      rw [hlock j hji] at hj
      exact hj
    have hne : (s.lock j).name ≠ n := by
      rintro rfl
      have hmem := (hc.sets.pending _ j).mpr ⟨rfl, hpending⟩
      rw [hp] at hmem
      cases hmem
    have hstate : Function.update s.lockState n { s.lockState n with currentOwner := none } ((s.clear i).lock j).name =
        s.stateOf j := by
      rw [hlock j hji]
      exact Function.update_of_ne hne _ _
    refine (h j hpending).of_same (hlock j hji) (fun hhead => ?_) fun o hjo => ⟨o, ?_, ?_⟩
    · exact (congrArg (fun st => st.pendingSteals.head?) hstate).trans hhead
    · exact (congrArg LockState.currentOwner hstate).trans hjo
    · have hoi : o ≠ i := by
        rintro rfl
        exact hne (((hc.owner _ o).mp hjo).1.symm.trans ((hc.owner _ o).mp ho).1)
      exact congrArg Lock.grantTimeMs (hlock o hoi)
  | handed p r l _ ho hp hr hh =>
    obtain ⟨hpn, hpp⟩ := hc.first_pending hp
    obtain ⟨hin, hiheld⟩ := (hc.owner n i).mp ho
    have hct := hc.handed ho hpp hpn hr hh
    have hname := hh.name
    subst hin
    intro j hj
    have hji : j ≠ i := by
      rintro rfl
      unfold Pending at hj
      rw [hh.lock_old] at hj
      cases hj
    have hjp : j ≠ p := by
      rintro rfl
      unfold Pending at hj
      rw [hh.lock_new] at hj
      cases hj
    have hpending : Pending s j := by
      have hmem := (hct.sets.pending _ j).mpr ⟨rfl, hj⟩
      exact ((hh.sets.pending _ j).mp hmem).2.1
    have hlockj := hh.lock_else j hji hjp
    have hown : (t.lockState (s.lock i).name).currentOwner = some p := by rw [hh.currentOwner, if_pos rfl]
    have hgrant : (t.lock p).grantTimeMs = s.clock := by rw [hh.lock_new]
    by_cases hn : (s.lock j).name = (s.lock i).name
    · split_ifs at hlockj with hcond
      · -- the next one to steal has been told when
        unfold Due
        rw [hlockj]
        refine (calculateWakeupTime_cases (s.lock j) s.clock).imp id fun hwakeup => ⟨?_, p, ?_, ?_⟩
        · unfold State.stateOf
          rw [hname, hn]
          exact hcond.2
        · unfold State.stateOf
          rw [hname, hn]
          exact hown
        · rw [hwakeup, hgrant]
          rfl
      · have hkeeps : (s.stateOf j).pendingSteals.head? = some j → (t.stateOf j).pendingSteals.head? = some j := by
          intro hhead
          unfold State.stateOf at hhead ⊢
          rw [hname, hn, hh.pendingSteals]
          rw [hn] at hhead
          exact head?_erase (stealKey_injective s) hhead hjp
        obtain hcancel | ⟨hhead, o, hjo, hwakeup⟩ := h j hpending
        · refine Or.inl ?_
          rw [hlockj]
          exact hcancel
        · have hhead' := hkeeps hhead
          obtain hcan | hclock | hall := hrenews p l hp
          · refine absurd ⟨hcan, ?_⟩ hcond
            unfold State.stateOf at hhead'
            rw [hname, hn] at hhead'
            exact hhead'
          · obtain rfl : o = i := by
              unfold State.stateOf at hjo
              rw [hn] at hjo
              exact Option.some.inj (hjo.symm.trans ho)
            refine Or.inr ⟨hhead', p, ?_, ?_⟩
            · unfold State.stateOf
              rw [hname, hn]
              exact hown
            · rw [hlockj, hgrant, hclock]
              exact hwakeup
          · refine Or.inl ?_
            rw [hlockj]
            refine hall j ?_
            exact (hc.sets.pending _ j).mpr ⟨hn, hpending⟩
    · have hnot : ¬ ((s.lock p).canSteal = true ∧ (t.lockState (s.lock i).name).pendingSteals.head? = some j) := by
        rintro ⟨-, hhead⟩
        have hmem := (hh.sets.steals _ j).mp (List.mem_of_mem_head? hhead)
        exact hn ((hname j).symm.trans hmem.1)
      rw [if_neg hnot] at hlockj
      refine (h j hpending).of_same hlockj (fun hhead => ?_) fun o hjo => ⟨o, ?_, ?_⟩
      · unfold State.stateOf at hhead ⊢
        rw [hname, hh.elsewhere _ hn]
        exact hhead
      · unfold State.stateOf at hjo ⊢
        rw [hname, hh.currentOwner, if_neg hn]
        exact hjo
      · obtain ⟨hon, hoheld⟩ := (hc.owner _ o).mp hjo
        have hoi : o ≠ i := by
          rintro rfl
          exact hn hon.symm
        have hop : o ≠ p := fun he => hc.owner_not_pending hjo (he ▸ hpp)
        rw [hh.lock_else o hoi hop]
        split_ifs <;> rfl


theorem Scheduled.create (hc : Consistent s) (h : Scheduled s) (n : Name) : Scheduled (s.createNamedLock n) := by
  have hborn : s.life s.sequence = .unborn := (hc.lives.unborn s.sequence).mpr (le_refl _)
  obtain ⟨hnot, hheld⟩ := hc.lives.alive s.sequence (by rw [hborn]; exact nofun)
  have hlock : ∀ j, j ≠ s.sequence → (s.createNamedLock n).lock j = s.lock j := fun j hj => Function.update_of_ne hj _ _
  have hstate : ∀ m, ((s.createNamedLock n).lockState m).pendingSteals = (s.lockState m).pendingSteals ∧
      ((s.createNamedLock n).lockState m).currentOwner = (s.lockState m).currentOwner := by
    intro m
    rw [lockState_create]
    split_ifs with hm
    · rw [hm]
      exact ⟨rfl, rfl⟩
    · exact ⟨rfl, rfl⟩
  intro j hj
  have hne : j ≠ s.sequence := by
    rintro rfl
    unfold Pending at hj
    rw [show (s.createNamedLock n).lock s.sequence = ⟨n, none, 0, kNotHeld, 0, kNotPending⟩ from
      Function.update_self s.sequence _ _] at hj
    cases hj
  have hpending : Pending s j := by
    unfold Pending at hj
    rw [hlock j hne] at hj
    exact hj
  refine (h j hpending).of_same (hlock j hne) (fun hhead => ?_) fun o hjo => ⟨o, ?_, ?_⟩
  · unfold State.stateOf
    rw [hlock j hne, (hstate _).1]
    exact hhead
  · unfold State.stateOf
    rw [hlock j hne, (hstate _).2]
    exact hjo
  · have ho : o ≠ s.sequence := by
      rintro rfl
      exact Bool.noConfusion (hheld.symm.trans ((hc.core.owner _ _).mp hjo).2)
    rw [hlock o ho]

def Steal.OnTime (e : Steal) : Prop := e.grantTimeMs + e.stealMs ≤ e.atMs

structure Timely (s : State Name) : Prop where
  scheduled : Scheduled s
  task : ∀ nowMs, s.task = some (.wakeup nowMs) → nowMs ≤ s.clock
  stack : ∀ nowMs stealer, .wakeup nowMs stealer ∈ s.stack → nowMs ≤ s.clock
  steals : ∀ e ∈ s.steals, e.OnTime

variable {a : Action Name}

theorem Timely.woken {nowMs : ℤ} (hc : Consistent s) (h : Timely s) (hnow : nowMs ≤ s.clock) (hw : Woken s nowMs t) :
    Timely t := by
  have hframes : ∀ f : Frame Name, (∃ stealer, f = .wakeup nowMs stealer) → ∀ now stealer,
      .wakeup now stealer ∈ f :: s.stack → now ≤ s.clock := by
    rintro f ⟨stealer₀, rfl⟩ now stealer hmem
    obtain heq | hmem := List.mem_cons.mp hmem
    · cases heq
      exact hnow
    · exact h.stack now stealer hmem
  cases hw with
  | done => exact ⟨h.scheduled, nofun, h.stack, h.steals⟩
  | denied i r hp hr => exact ⟨h.scheduled.denied (r := r) hc.core hp, nofun, hframes _ ⟨_, rfl⟩, h.steals⟩
  | stolen i o r l l' t hi hfirst hdue hsteal ho hr hh =>
    have heq := hh.eq
    have hstack : t.stack = s.stack := by rw [heq]
    have hclock : t.clock = s.clock := by rw [heq]
    have hsteals : t.steals = s.steals := by rw [heq]
    obtain ⟨-, hpi⟩ := hc.core.first_pending hfirst
    obtain ⟨hon, hoheld⟩ := (hc.core.owner _ o).mp ho
    have hcan : (s.lock i).canSteal = true :=
      ((hc.core.sound i).wakes hpi).resolve_left fun hsame => hsteal hsame.symm
    refine ⟨?_, nofun, ?_, fun e he => ?_⟩
    · refine Scheduled.of_locksEq (s := t) ?_ ⟨rfl, fun _ => rfl, fun _ => rfl, fun _ => rfl⟩
      refine h.scheduled.released hc.core (.handed i r l' t ho hfirst hr hh) fun p l'' hp => Or.inl ?_
      have hstate : s.stateOf o = s.stateOf i := by
        unfold State.stateOf
        rw [hon]
      rw [hstate] at hp
      obtain ⟨rfl, -⟩ := List.cons.inj (hfirst.symm.trans hp)
      exact hcan
    · rw [hstack, hclock]
      exact hframes _ ⟨_, rfl⟩
    · rw [hsteals] at he
      obtain he | he := List.mem_append.mp he
      · exact h.steals e he
      · -- the thief was told when it may steal, from the grant of this very owner
        obtain rfl := List.mem_singleton.mp he
        obtain hcancel | ⟨-, o', ho', hwakeup⟩ := h.scheduled i hpi
        · exact absurd hcancel.symm hsteal
        · obtain rfl := Option.some.inj (ho'.symm.trans ho)
          change (s.lock o').grantTimeMs + (s.lock i).stealMs ≤ s.clock
          omega

def stealRun : List (Action ℕ) :=
  [.createNamedLock 0, .createNamedLock 0, .lockTimedWaitStealOld 0 0 kDoNotSteal, .lockTimedWaitStealOld 1 5000 100,
    .iterate, .advance 100, .wakeup, .iterate]

end Schedule

end PageSpeed.MemLock
