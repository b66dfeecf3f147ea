import PageSpeed.Thread.AlarmLedger

/-!
Every alarm of a scheduler is run or cancelled once and freed once, over all
interleavings of any number of threads.
-/

namespace PageSpeed.Scheduler

open OrderedSet

def Frame.owned : Frame → Multiset ℕ
  | .signal toDispatch => toDispatch
  | .function a => {a}
  | .runCallback a savedInWaitDispatch => if savedInWaitDispatch then 0 else {a}
  | .cancelCallback a => {a}
  | _ => 0

def stackOwned (stack : List Frame) : Multiset ℕ := Bag.total Frame.owned stack

@[simp] theorem stackOwned_cons (f : Frame) (stack : List Frame) : stackOwned (f :: stack) = f.owned + stackOwned stack :=
  List.sum_cons

namespace State

variable {s u : State} {t a : ℕ} {stack old new : List Frame}

def owned (s : State) : Multiset ℕ := Bag.total stackOwned s.threads

def ledger (s : State) : Ledger where
  alarm := s.alarm
  inserted := s.inserted
  outstanding := s.outstandingAlarms
  waiting := s.waitingAlarms
  starts := s.starts
  cancels := s.cancels
  freed := s.freed
  owned := s.owned

/-- The alarm of a callback was run or cancelled, and those that `Signal` has left are marked as its own. -/
def Justified (l : Ledger) : Frame → Prop
  | .signal toDispatch => ∀ a ∈ toDispatch, l.flagged a = true
  | .function a | .runCallback a _ | .cancelCallback a => a ∈ l.dispatched
  | _ => True

theorem Justified.mono {l m : Ledger} {f : Frame} (h : Justified l f) (hd : ∀ a ∈ l.dispatched, a ∈ m.dispatched)
    (hf : ∀ a, l.flagged a = true → m.flagged a = true) : Justified m f := by
  cases f with
  | signal toDispatch => exact fun a ha => hf a (h a ha)
  | function a => exact hd a h
  | runCallback a saved => exact hd a h
  | cancelCallback a => exact hd a h
  | runAlarms call ran caller => trivial
  | relock => trivial
  | await caller => trivial

structure Accounted (s : State) : Prop where
  sound : s.ledger.Sound
  timely : s.ledger.Timely
  frames : ∀ stack ∈ s.threads, ∀ f ∈ stack, Justified s.ledger f

theorem owned_set (h : s.threads[t]? = some old) :
    ∃ r, s.owned = stackOwned old + r ∧ ∀ new, Bag.total stackOwned (s.threads.set t new) = stackOwned new + r :=
  Bag.total_set h stackOwned

theorem Accounted.of_set (h : Accounted s) (hstack : s.threads[t]? = some old) (hthreads : u.threads = s.threads.set t new)
    (hsound : u.ledger.Sound) (htimely : u.ledger.Timely)
    (hd : ∀ a ∈ s.ledger.dispatched, a ∈ u.ledger.dispatched)
    (hf : ∀ a, s.ledger.flagged a = true → u.ledger.flagged a = true)
    (hnew : ∀ f ∈ new, f ∈ old ∨ Justified u.ledger f) : Accounted u := by
  have hold : ∀ f ∈ old, Justified u.ledger f := fun f hf' =>
    (h.frames old (List.mem_of_getElem? hstack) f hf').mono hd hf
  refine ⟨hsound, htimely, fun stk hstk f hf' => ?_⟩
  rw [hthreads] at hstk
  obtain hstk | rfl := List.mem_or_eq_of_mem_set hstk
  · exact (h.frames stk hstk f hf').mono hd hf
  · obtain hmem | hjust := hnew f hf'
    · exact hold f hmem
    · exact hjust

theorem Accounted.reframe (h : Accounted s) (hstack : s.threads[t]? = some old)
    (hthreads : u.threads = s.threads.set t new)
    (hledger : u.ledger = { s.ledger with owned := u.owned }) (howned : stackOwned new = stackOwned old)
    (hnew : ∀ f ∈ new, f ∈ old ∨ Justified u.ledger f) : Accounted u := by
  have hsame : u.ledger = s.ledger := by
    obtain ⟨r, hs, hset⟩ := owned_set hstack
    have howned' : u.owned = s.owned := by
      unfold owned
      rw [hthreads, hset, howned]
      exact hs.symm
    rw [hledger, howned']
    rfl
  refine h.of_set hstack hthreads ?_ ?_ ?_ ?_ hnew
  · rw [hsame]
    exact h.sound
  · rw [hsame]
    exact h.timely
  · rw [hsame]
    exact fun a ha => ha
  · rw [hsame]
    exact fun a ha => ha

variable {caller : Caller}

theorem callRunAlarms_accounted (h : Accounted s) (hstack : s.threads[t]? = some old)
    (howned : stackOwned stack = stackOwned old) (hsub : ∀ f ∈ stack, f ∈ old) :
    Accounted (s.callRunAlarms t stack caller) := by
  refine h.reframe hstack rfl rfl ?_ fun f hf => ?_
  · rw [stackOwned_cons, howned]
    exact zero_add _
  · obtain rfl | hf := List.mem_cons.mp hf
    · exact Or.inr trivial
    · exact Or.inl (hsub f hf)

theorem setStack_accounted (h : Accounted s) (hstack : s.threads[t]? = some old) {holder : Option ℕ}
    (howned : stackOwned new = stackOwned old) (hsub : ∀ f ∈ new, f ∈ old ∨ Justified s.ledger f) :
    Accounted { s.setStack t new with holder := holder } := by
  refine h.reframe hstack rfl rfl howned fun f hf => (hsub f hf).imp_right fun hj => ?_
  exact hj.mono (fun a ha => ha) fun a ha => ha

theorem awaitWakeupUntilUs_accounted (h : Accounted s) (hstack : s.threads[t]? = some old)
    {wakeupTimeUs : ℤ} (howned : stackOwned stack = stackOwned old) (hsub : ∀ f ∈ stack, f ∈ old) :
    Accounted (s.awaitWakeupUntilUs t stack caller wakeupTimeUs) := by
  unfold awaitWakeupUntilUs
  split_ifs
  · refine setStack_accounted h hstack ?_ fun f hf => ?_
    · rw [stackOwned_cons, howned]
      exact zero_add _
    · obtain rfl | hf := List.mem_cons.mp hf
      · exact Or.inr trivial
      · exact Or.inl (hsub f hf)
  · exact callRunAlarms_accounted h hstack howned hsub

theorem returnFromRunAlarms_accounted (h : Accounted s) (hstack : s.threads[t]? = some old) {ranAlarms : Bool}
    {nextWakeupUs : ℤ} (howned : stackOwned stack = stackOwned old) (hsub : ∀ f ∈ stack, f ∈ old) :
    Accounted (s.returnFromRunAlarms t stack ranAlarms nextWakeupUs caller) := by
  have hset : ∀ holder, Accounted { s.setStack t stack with holder := holder } := fun holder =>
    setStack_accounted h hstack howned fun f hf => Or.inl (hsub f hf)
  cases caller with
  | client => exact hset s.holder
  | addAlarmAtUs => exact hset none
  | blockingTimedWait b count wakeupTimeUs =>
    simp only [returnFromRunAlarms]
    split_ifs
    · exact awaitWakeupUntilUs_accounted h hstack howned hsub
    · exact hset s.holder
  | processAlarms timeoutUs finishUs =>
    simp only [returnFromRunAlarms]
    split_ifs
    · exact awaitWakeupUntilUs_accounted h hstack howned hsub
    · exact awaitWakeupUntilUs_accounted h hstack howned hsub
    · exact hset s.holder

theorem Accounted.run {rest : List ℕ} {call : ℕ} (h : Accounted s) (hstack : s.threads[t]? = some old)
    (hfirst : s.outstandingAlarms = a :: rest) (hdue : (s.alarm a).wakeupTimeUs ≤ s.clock)
    (halarm : u.alarm = s.alarm) (hinserted : u.inserted = s.inserted) (hout : u.outstandingAlarms = rest)
    (hstarts : u.starts = s.starts ++ [⟨call, a, s.inserted, s.clock⟩]) (hcancels : u.cancels = s.cancels)
    (hwaiting : u.waitingAlarms.Sublist s.waitingAlarms) (hgone : a ∉ u.waitingAlarms)
    (howned : u.owned + (u.freed : Multiset ℕ) = if s.ledger.flagged a then s.owned + (s.freed : Multiset ℕ)
      else a ::ₘ (s.owned + (s.freed : Multiset ℕ))) (hfreed : ∀ b ∈ u.freed, b = a ∨ b ∈ s.freed)
    (hthreads : u.threads = s.threads.set t new)
    (hnew : ∀ f ∈ new, f ∈ old ∨ Justified u.ledger f) : Accounted u := by
  have hordered := h.sound.ordered
  unfold ledger at hordered
  simp only [hfirst] at hordered
  have hperm : u.ledger.dispatched.Perm (a :: s.ledger.dispatched) := by
    unfold Ledger.dispatched ledger
    simp only [hstarts, hcancels, List.map_append, List.map_cons, List.map_nil, List.append_assoc, List.singleton_append]
    exact List.perm_middle
  have hdispatch : Ledger.Dispatch s.ledger u.ledger a := by
    refine ⟨halarm, hinserted, ?_, fun b => ?_, ?_, hgone, hwaiting, hperm, howned, hfreed⟩
    · change a ∈ s.outstandingAlarms
      rw [hfirst]
      exact List.mem_cons_self
    · change b ∈ u.outstandingAlarms ↔ b ∈ s.outstandingAlarms ∧ b ≠ a
      rw [hout, hfirst, List.mem_cons]
      have hne : b ∈ rest → b ≠ a := by
        rintro hb rfl
        exact lt_irrefl _ ((List.pairwise_cons.mp hordered).1 b hb)
      tauto
    · change u.outstandingAlarms.Sublist s.outstandingAlarms
      rw [hout, hfirst]
      exact List.sublist_cons_self a rest
  refine h.of_set hstack hthreads (h.sound.dispatch hdispatch)
    (Ledger.Timely.run h.sound h.timely halarm hinserted hfirst hout hstarts hdue) (fun b hb => ?_) (fun b hb => ?_) hnew
  · exact hperm.mem_iff.mpr (List.mem_cons_of_mem a hb)
  · unfold Ledger.flagged ledger at hb ⊢
    simp only [halarm]
    exact hb

theorem Accounted.cancel (h : Accounted s) (hstack : s.threads[t]? = some old) (hmem : a ∈ s.outstandingAlarms)
    (halarm : u.alarm = s.alarm) (hinserted : u.inserted = s.inserted)
    (hout : u.outstandingAlarms = erase s.key a s.outstandingAlarms) (hstarts : u.starts = s.starts)
    (hcancels : u.cancels = s.cancels ++ [a]) (hwaiting : u.waitingAlarms = s.waitingAlarms)
    (hgone : a ∉ s.waitingAlarms)
    (howned : u.owned + (u.freed : Multiset ℕ) = if s.ledger.flagged a then s.owned + (s.freed : Multiset ℕ)
      else a ::ₘ (s.owned + (s.freed : Multiset ℕ))) (hfreed : ∀ b ∈ u.freed, b = a ∨ b ∈ s.freed)
    (hthreads : u.threads = s.threads.set t new)
    (hnew : ∀ f ∈ new, f ∈ old ∨ Justified u.ledger f) : Accounted u := by
  have hperm : u.ledger.dispatched.Perm (a :: s.ledger.dispatched) := by
    unfold Ledger.dispatched ledger
    simp only [hstarts, hcancels, ← List.append_assoc]
    exact List.perm_append_singleton _ _
  have hmem' : ∀ b, b ∈ u.outstandingAlarms ↔ b ∈ s.outstandingAlarms ∧ b ≠ a := by
    intro b
    rw [hout]
    exact h.sound.mem_erase (fun c hc => hc) (h.sound.known_of_outstanding hmem)
  have hdispatch : Ledger.Dispatch s.ledger u.ledger a := by
    refine ⟨halarm, hinserted, hmem, hmem', ?_, ?_, ?_, hperm, howned, hfreed⟩
    · change u.outstandingAlarms.Sublist s.outstandingAlarms
      rw [hout]
      exact List.filter_sublist
    · change a ∉ u.waitingAlarms
      rw [hwaiting]
      exact hgone
    · change u.waitingAlarms.Sublist s.waitingAlarms
      rw [hwaiting]
  have hkey : ∀ b, u.ledger.key b = s.ledger.key b := by
    intro b
    unfold Ledger.key ledger
    simp only [halarm]
  refine h.of_set hstack hthreads (h.sound.dispatch hdispatch)
    (Ledger.Timely.mono h.sound h.timely hstarts hinserted.ge (fun b _ => ?_) (fun b _ => hkey b) fun b hb _ => ?_)
    (fun b hb => ?_) (fun b hb => ?_) hnew
  · unfold ledger
    simp only [halarm]
  · exact ((hmem' b).mp hb).1
  · exact hperm.mem_iff.mpr (List.mem_cons_of_mem a hb)
  · unfold Ledger.flagged ledger at hb ⊢
    simp only [halarm]
    exact hb

theorem Accounted.free (h : Accounted s) (hstack : s.threads[t]? = some old)
    (howned : stackOwned old = a ::ₘ stackOwned new) (hdispatched : a ∈ s.ledger.dispatched)
    (hnew : ∀ f ∈ new, f ∈ old ∨ Justified s.ledger f) : Accounted ((s.setStack t new).free a) := by
  obtain ⟨r, hs, hset⟩ := owned_set hstack
  rw [howned, Multiset.cons_add, ← hset new] at hs
  refine h.of_set hstack rfl (h.sound.free hs hdispatched) ?_ (fun b hb => hb) (fun b hb => hb)
    fun f hf => (hnew f hf).imp_right fun hj => hj.mono (fun b hb => hb) fun b hb => hb
  exact Ledger.Timely.mono h.sound h.timely rfl (le_refl _) (fun _ _ => rfl) (fun _ _ => rfl) fun b hb _ => hb

theorem notMem_erase (k : ℕ → ℤ ×ₗ ℕ) (a : ℕ) (l : List ℕ) : a ∉ erase k a l := by
  unfold erase
  simp

theorem Accounted.unflagged_of_function (h : Accounted s) (hkind : (s.alarm a).kind = .function) :
    s.ledger.flagged a = false := by
  refine Bool.eq_false_iff.mpr fun hflag => h.sound.flagged a hflag hkind

theorem Accounted.notMem_waiting_of_function (h : Accounted s) (hkind : (s.alarm a).kind = .function) :
    a ∉ s.waitingAlarms := fun hmem => (h.sound.waiting a hmem).2.2 hkind

theorem owned_gain (hstack : s.threads[t]? = some old) (hthreads : u.threads = s.threads.set t new)
    (hnew : stackOwned new = a ::ₘ stackOwned old) (hfreed : u.freed = s.freed) :
    u.owned + (u.freed : Multiset ℕ) = a ::ₘ (s.owned + (s.freed : Multiset ℕ)) := by
  obtain ⟨r, hs, hset⟩ := owned_set hstack
  unfold owned at hs ⊢
  rw [hthreads, hset, hnew, hfreed, hs, Multiset.cons_add, Multiset.cons_add]

theorem owned_same (hstack : s.threads[t]? = some old) (hthreads : u.threads = s.threads.set t new)
    (hnew : stackOwned new = stackOwned old) (hfreed : u.freed = s.freed) :
    u.owned + (u.freed : Multiset ℕ) = s.owned + (s.freed : Multiset ℕ) := by
  obtain ⟨r, hs, hset⟩ := owned_set hstack
  unfold owned at hs ⊢
  rw [hthreads, hset, hnew, hfreed, hs]

theorem owned_freed (hstack : s.threads[t]? = some old) (hthreads : u.threads = s.threads.set t new)
    (hnew : stackOwned new = stackOwned old) (hfreed : u.freed = s.freed ++ [a]) :
    u.owned + (u.freed : Multiset ℕ) = a ::ₘ (s.owned + (s.freed : Multiset ℕ)) := by
  have hsame := owned_same (u := { u with freed := s.freed }) hstack hthreads hnew rfl
  rw [hfreed, ← Multiset.coe_add, ← add_assoc, Multiset.coe_singleton, add_comm, Multiset.singleton_add]
  exact congrArg (a ::ₘ ·) hsame

theorem owned_moved (hstack : s.threads[t]? = some old) (hthreads : u.threads = s.threads.set t new)
    (hnew : stackOwned old = a ::ₘ stackOwned new) (hfreed : u.freed = s.freed ++ [a]) :
    u.owned + (u.freed : Multiset ℕ) = s.owned + (s.freed : Multiset ℕ) := by
  obtain ⟨r, hs, hset⟩ := owned_set hstack
  unfold owned at hs ⊢
  rw [hthreads, hset, hfreed, hs, hnew, ← Multiset.coe_add, Multiset.coe_singleton, ← add_assoc, add_comm,
    Multiset.singleton_add, Multiset.cons_add, Multiset.cons_add]

theorem runAlarms_accounted {call : ℕ} {ranAlarms : Bool} (h : Accounted s)
    (hstack : s.threads[t]? = some (.runAlarms call ranAlarms caller :: stack)) :
    Accounted (s.runAlarms t stack call ranAlarms caller) := by
  have howned : stackOwned stack = stackOwned (.runAlarms call ranAlarms caller :: stack) := by
    rw [stackOwned_cons]
    exact (zero_add _).symm
  have hsub : ∀ f ∈ stack, f ∈ Frame.runAlarms call ranAlarms caller :: stack := fun f hf => List.mem_cons_of_mem _ hf
  unfold runAlarms
  cases hout : s.outstandingAlarms with
  | nil => exact returnFromRunAlarms_accounted h hstack howned hsub
  | cons a rest =>
    simp only
    split_ifs with hdue
    · exact returnFromRunAlarms_accounted h hstack howned hsub
    · have hdue := not_lt.mp hdue
      have hloop : stackOwned (.runAlarms call true caller :: stack) = stackOwned (.runAlarms call ranAlarms caller :: stack) :=
        rfl
      have hframes : ∀ l, ∀ f ∈ Frame.runAlarms call true caller :: stack,
          f ∈ Frame.runAlarms call ranAlarms caller :: stack ∨ Justified l f := by
        intro l f hf
        obtain rfl | hf := List.mem_cons.mp hf
        · exact Or.inr trivial
        · exact Or.inl (hsub f hf)
      have hstarted : a ∈ (s.starts ++ [(⟨call, a, s.inserted, s.clock⟩ : Start)]).map Start.alarm ++ s.cancels := by
        simp
      unfold runAlarm
      simp only
      split
      next hkind =>
        refine h.run hstack hout hdue rfl rfl rfl rfl rfl (List.Sublist.refl _) (h.notMem_waiting_of_function hkind) ?_
          (fun b hb => Or.inr hb) rfl fun f hf => ?_
        · rw [h.unflagged_of_function hkind, if_neg Bool.false_ne_true]
          refine owned_gain hstack rfl ?_ rfl
          rw [stackOwned_cons, hloop]
          exact Multiset.singleton_add a _
        · obtain rfl | hf := List.mem_cons.mp hf
          · exact Or.inr hstarted
          · exact hframes _ f hf
      next hkind =>
        cases hflag : (s.alarm a).inWaitDispatch with
        | true =>
          rw [if_pos rfl]
          refine h.run hstack hout hdue rfl rfl rfl rfl rfl List.filter_sublist (notMem_erase _ _ _) ?_
            (fun b hb => Or.inr hb) rfl (hframes _)
          rw [if_pos (show s.ledger.flagged a = true from hflag)]
          exact owned_same hstack rfl hloop rfl
        | false =>
          rw [if_neg Bool.false_ne_true]
          refine h.run hstack hout hdue rfl rfl rfl rfl rfl List.filter_sublist (notMem_erase _ _ _) ?_
            (fun b hb => (List.mem_append.mp hb).symm.imp_left List.mem_singleton.mp) rfl (hframes _)
          rw [if_neg (Bool.eq_false_iff.mp (show s.ledger.flagged a = false from hflag))]
          exact owned_freed hstack rfl hloop rfl
      next hkind =>
        refine h.run hstack hout hdue rfl rfl rfl rfl rfl List.filter_sublist (notMem_erase _ _ _) ?_
          (fun b hb => Or.inr hb) rfl fun f hf => ?_
        · cases hflag : (s.alarm a).inWaitDispatch with
          | true =>
            rw [if_pos (show s.ledger.flagged a = true from hflag)]
            refine owned_same hstack rfl ?_ rfl
            rw [stackOwned_cons, hloop]
            exact zero_add _
          | false =>
            rw [if_neg (Bool.eq_false_iff.mp (show s.ledger.flagged a = false from hflag))]
            refine owned_gain hstack rfl ?_ rfl
            rw [stackOwned_cons, hloop]
            exact Multiset.singleton_add a _
        · obtain rfl | hf := List.mem_cons.mp hf
          · exact Or.inr hstarted
          · exact hframes _ f hf

theorem Accounted.any_key (h : Accounted s) (ha : 0 < a ∧ a ≤ s.inserted) :
    (s.outstandingAlarms.any fun b => s.key b = s.key a) = true ↔ a ∈ s.outstandingAlarms := by
  rw [List.any_eq_true]
  constructor
  · rintro ⟨b, hb, heq⟩
    obtain rfl := h.sound.key_injOn (h.sound.known_of_outstanding hb) ha (of_decide_eq_true heq)
    exact hb
  · exact fun hmem => ⟨a, hmem, decide_eq_true rfl⟩

theorem mem_dispatched_cancel (s : State) (a : ℕ) : a ∈ s.starts.map Start.alarm ++ (s.cancels ++ [a]) := by
  simp

theorem dispatchWaiting_accounted {toDispatch : List ℕ} (h : Accounted s)
    (hstack : s.threads[t]? = some (.signal toDispatch :: stack)) : Accounted (s.dispatchWaiting t stack toDispatch) := by
  cases toDispatch with
  | nil =>
    refine callRunAlarms_accounted h hstack ?_ fun f hf => List.mem_cons_of_mem _ hf
    rw [stackOwned_cons]
    exact (zero_add _).symm
  | cons a toDispatch =>
    have hmarked : ∀ b ∈ a :: toDispatch, s.ledger.flagged b = true :=
      h.frames _ (List.mem_of_getElem? hstack) _ List.mem_cons_self
    have hflag := hmarked a List.mem_cons_self
    have hknown := h.sound.known a (Or.inr hflag)
    have hgone : a ∉ s.waitingAlarms := fun hmem =>
      Bool.noConfusion ((h.sound.waiting a hmem).2.1.symm.trans hflag)
    have howned : stackOwned (.signal (a :: toDispatch) :: stack) = a ::ₘ stackOwned (.signal toDispatch :: stack) := by
      rw [stackOwned_cons, stackOwned_cons]
      exact Multiset.cons_add a (toDispatch : Multiset ℕ) (stackOwned stack)
    have hframes : ∀ l : Ledger, (∀ b, s.ledger.flagged b = true → l.flagged b = true) →
        ∀ f ∈ Frame.signal toDispatch :: stack, f ∈ Frame.signal (a :: toDispatch) :: stack ∨ Justified l f := by
      intro l hl f hf
      obtain rfl | hf := List.mem_cons.mp hf
      · exact Or.inr fun b hb => hl b (hmarked b (List.mem_cons_of_mem a hb))
      · exact Or.inl (List.mem_cons_of_mem _ hf)
    unfold dispatchWaiting tryCancelAlarm
    simp only
    split_ifs with hany
    · have hmem := (h.any_key hknown).mp hany
      rw [Option.getD_some]
      unfold cancelAlarm
      simp only
      split
      next hkind => exact absurd hkind (h.sound.flagged a hflag)
      next hkind =>
        refine h.cancel hstack hmem rfl rfl rfl rfl rfl rfl hgone ?_
          (fun b hb => (List.mem_append.mp hb).symm.imp_left List.mem_singleton.mp) rfl (hframes _ fun b hb => hb)
        rw [if_pos hflag]
        exact owned_moved hstack rfl howned rfl
      next hkind =>
        refine h.cancel hstack hmem rfl rfl rfl rfl rfl rfl hgone ?_ (fun b hb => Or.inr hb) rfl fun f hf => ?_
        · rw [if_pos hflag]
          refine owned_same hstack rfl ?_ rfl
          rw [howned, stackOwned_cons]
          exact Multiset.singleton_add a _
        · obtain rfl | hf := List.mem_cons.mp hf
          · exact Or.inr (mem_dispatched_cancel s a)
          · refine hframes _ ?_ f hf
            exact fun b hb => hb
    · rw [Option.getD_none]
      refine h.free hstack howned ?_ (hframes _ fun b hb => hb)
      by_contra hnot
      exact hany ((h.any_key hknown).mpr ((h.sound.outstanding a).mpr ⟨hknown, hnot⟩))

theorem signal_accounted (h : Accounted s) (hstack : s.threads[t]? = some stack) : Accounted (s.signal t stack) := by
  obtain ⟨r, hs, hset⟩ := owned_set hstack
  have hledger : (s.signal t stack).ledger = s.ledger.signal := by
    have howned : (s.signal t stack).owned = (s.waitingAlarms : Multiset ℕ) + s.owned := by
      refine (hset _).trans ?_
      rw [stackOwned_cons, hs, add_assoc]
      rfl
    unfold Ledger.signal ledger
    rw [howned]
    rfl
  refine h.of_set hstack rfl ?_ ?_ (fun b hb => hb) (fun b hb => ?_) fun f hf => ?_
  · rw [hledger]
    exact h.sound.signal
  · rw [hledger]
    exact Ledger.Timely.mono h.sound h.timely rfl (le_refl _) (fun b _ => (Ledger.alarm_signal _ b).2.1)
      (fun b _ => by rw [Ledger.key_signal]) fun b hb _ => hb
  · rw [hledger]
    unfold Ledger.signal Ledger.flagged at *
    simp only
    split_ifs
    · rfl
    · exact hb
  · obtain rfl | hf := List.mem_cons.mp hf
    · refine Or.inr fun b hb => ?_
      rw [hledger]
      unfold Ledger.signal Ledger.flagged
      simp only
      rw [if_pos (show b ∈ s.ledger.waiting from hb)]
    · exact Or.inl hf

theorem insert_accounted (h : Accounted s) (hlt : s.inserted + 1 < 2 ^ 32) (wakeupTimeUs : ℤ) (kind : Kind) :
    Accounted (s.insertAlarmAtUsMutexHeld wakeupTimeUs kind) := by
  have hledger : (s.insertAlarmAtUsMutexHeld wakeupTimeUs kind).ledger = s.ledger.insert kind wakeupTimeUs := rfl
  have hflagged : ∀ b, s.ledger.flagged b = true → (s.ledger.insert kind wakeupTimeUs).flagged b = true := by
    intro b hb
    unfold Ledger.flagged at hb ⊢
    rw [Ledger.alarm_insert_of_le kind wakeupTimeUs (h.sound.known b (Or.inr hb)).2]
    exact hb
  have hout : ∀ b ∈ (s.ledger.insert kind wakeupTimeUs).outstanding, b ≤ s.inserted → b ∈ s.ledger.outstanding := by
    intro b hb hle
    refine (eq_or_mem_of_mem_insert hb).resolve_left ?_
    rintro rfl
    exact absurd hle (Nat.not_succ_le_self s.inserted)
  refine ⟨h.sound.insert hlt kind wakeupTimeUs, ?_, fun stk hstk f hf => ?_⟩
  · rw [hledger]
    exact Ledger.Timely.mono h.sound h.timely rfl (Nat.le_succ _)
      (fun b hb => by rw [Ledger.alarm_insert_of_le kind wakeupTimeUs hb])
      (fun b hb => Ledger.key_insert_of_le kind wakeupTimeUs hb) hout
  · exact (h.frames stk hstk f hf).mono (fun b hb => hb) hflagged

theorem insertWaiting_accounted (h : Accounted s) (hlt : s.inserted + 1 < 2 ^ 32) (wakeupTimeUs : ℤ) {kind : Kind}
    (hkind : kind ≠ .function) : Accounted (s.insertAlarmAtUsMutexHeld wakeupTimeUs kind).insertWaiting := by
  have hinsert := insert_accounted h hlt wakeupTimeUs kind
  have hnew : (s.insertAlarmAtUsMutexHeld wakeupTimeUs kind).alarm (s.inserted + 1) =
      ⟨kind, wakeupTimeUs, (s.inserted + 1) % 2 ^ 32, false⟩ := Function.update_self _ _ _
  have hnone : s.inserted + 1 ∉ s.ledger.dispatched := by
    intro hmem
    exact absurd (h.sound.known _ (Or.inl hmem)).2 (Nat.not_succ_le_self s.inserted)
  have hout := (hinsert.sound.outstanding (s.inserted + 1)).mpr ⟨⟨Nat.succ_pos _, le_refl _⟩, hnone⟩
  refine ⟨hinsert.sound.wait hout ?_ ?_, ?_, hinsert.frames⟩
  · exact congrArg Alarm.inWaitDispatch hnew
  · change ((s.insertAlarmAtUsMutexHeld wakeupTimeUs kind).alarm (s.inserted + 1)).kind ≠ .function
    rw [hnew]
    exact hkind
  · exact ⟨hinsert.timely.onTime, hinsert.timely.inserted, hinsert.timely.first, hinsert.timely.order⟩

theorem tryCancelAlarm_accounted (h : Accounted s) (hstack : s.threads[t]? = some stack) (ha : 0 < a ∧ a ≤ s.inserted)
    (hkind : (s.alarm a).kind = .function) : Accounted ((s.tryCancelAlarm t stack a).getD s) := by
  unfold tryCancelAlarm
  split_ifs with hany
  · have hmem := (h.any_key ha).mp hany
    rw [Option.getD_some]
    unfold cancelAlarm
    simp only [hkind]
    refine h.cancel hstack hmem rfl rfl rfl rfl rfl rfl (h.notMem_waiting_of_function hkind) ?_
      (fun b hb => Or.inr hb) rfl fun f hf => ?_
    · rw [h.unflagged_of_function hkind, if_neg Bool.false_ne_true]
      refine owned_gain hstack rfl ?_ rfl
      rw [stackOwned_cons]
      exact Multiset.singleton_add a _
    · obtain rfl | hf := List.mem_cons.mp hf
      · exact Or.inr (mem_dispatched_cancel s a)
      · exact Or.inl hf
  · rw [Option.getD_none]
    exact h

theorem clientCall_accounted {call : Call} (h : Accounted s) (hlt : s.inserted + 1 < 2 ^ 32)
    (hstack : s.threads[t]? = some stack) (hu : s.clientCall t stack call = some u) : Accounted u := by
  have hcall : ∀ v : State, Accounted v → v.threads = s.threads → ∀ caller, Accounted (v.callRunAlarms t stack caller) :=
    fun v hv hthreads caller => callRunAlarms_accounted hv (hthreads ▸ hstack) rfl fun f hf => hf
  have hheld : ∀ v : State, Accounted v → ∀ holder, Accounted { v with holder := holder } :=
    fun v hv _ => ⟨hv.sound, hv.timely, hv.frames⟩
  cases call with
  | lock =>
    obtain ⟨-, heq⟩ := Option.ite_none_right_eq_some.mp hu
    obtain rfl := Option.some.inj heq
    exact hheld s h _
  | addAlarmAtUs wakeupTimeUs =>
    obtain ⟨-, heq⟩ := Option.ite_none_right_eq_some.mp hu
    obtain rfl := Option.some.inj heq
    exact hcall _ (hheld _ (insert_accounted h hlt wakeupTimeUs .function) _) rfl _
  | unlock =>
    obtain ⟨-, heq⟩ := Option.ite_none_right_eq_some.mp hu
    obtain rfl := Option.some.inj heq
    exact hheld s h _
  | addAlarmAtUsMutexHeld wakeupTimeUs =>
    obtain ⟨-, heq⟩ := Option.ite_none_right_eq_some.mp hu
    obtain rfl := Option.some.inj heq
    exact insert_accounted h hlt wakeupTimeUs .function
  | cancelAlarm a =>
    obtain ⟨-, heq⟩ := Option.ite_none_right_eq_some.mp hu
    obtain ⟨⟨hpos, hle, hkind, -⟩, heq⟩ := Option.ite_none_right_eq_some.mp heq
    obtain rfl := Option.some.inj heq
    exact tryCancelAlarm_accounted h hstack ⟨hpos, hle⟩ hkind
  | timedWaitMs timeoutMs =>
    obtain ⟨-, heq⟩ := Option.ite_none_right_eq_some.mp hu
    obtain rfl := Option.some.inj heq
    have hkind : Kind.condVarCallbackTimeout ≠ .function := nofun
    exact hcall _ (insertWaiting_accounted h hlt _ hkind) rfl _
  | blockingTimedWaitUs timeoutUs =>
    obtain ⟨-, heq⟩ := Option.ite_none_right_eq_some.mp hu
    obtain rfl := Option.some.inj heq
    have hkind : Kind.condVarTimeout ≠ .function := nofun
    exact hcall _ (insertWaiting_accounted h hlt _ hkind) rfl _
  | signal =>
    obtain ⟨-, heq⟩ := Option.ite_none_right_eq_some.mp hu
    obtain rfl := Option.some.inj heq
    exact signal_accounted h hstack
  | runAlarms =>
    obtain ⟨-, heq⟩ := Option.ite_none_right_eq_some.mp hu
    obtain rfl := Option.some.inj heq
    exact hcall s h rfl _
  | processAlarmsOrWaitUs timeoutUs =>
    obtain ⟨-, heq⟩ := Option.ite_none_right_eq_some.mp hu
    obtain rfl := Option.some.inj heq
    exact hcall s h rfl _
  | callbackReturns =>
    obtain ⟨-, heq⟩ := Option.ite_none_right_eq_some.mp hu
    cases heq
  | proceed =>
    obtain ⟨-, heq⟩ := Option.ite_none_right_eq_some.mp hu
    cases heq

theorem callbackReturns_accounted (h : Accounted s) (hstack : s.threads[t]? = some stack)
    (hu : s.callbackReturns t stack = some u) : Accounted u := by
  have hjustified := h.frames stack (List.mem_of_getElem? hstack)
  unfold callbackReturns at hu
  split at hu
  next a rest =>
    obtain ⟨-, heq⟩ := Option.ite_none_left_eq_some.mp hu
    obtain rfl := Option.some.inj heq
    refine h.free hstack ?_ (hjustified _ List.mem_cons_self) fun f hf => ?_
    · rw [stackOwned_cons, stackOwned_cons]
      refine (Multiset.singleton_add a _).trans ?_
      exact congrArg (a ::ₘ ·) (zero_add _).symm
    · obtain rfl | hf := List.mem_cons.mp hf
      · exact Or.inr trivial
      · exact Or.inl (List.mem_cons_of_mem _ hf)
  next a saved rest =>
    obtain ⟨-, heq⟩ := Option.ite_none_right_eq_some.mp hu
    obtain rfl := Option.some.inj heq
    cases saved with
    | true =>
      refine setStack_accounted h hstack ?_ fun f hf => Or.inl (List.mem_cons_of_mem _ hf)
      rw [stackOwned_cons]
      exact (zero_add _).symm
    | false =>
      refine h.free hstack ?_ (hjustified _ List.mem_cons_self) fun f hf => Or.inl (List.mem_cons_of_mem _ hf)
      rw [stackOwned_cons]
      exact Multiset.singleton_add a _
  next a rest =>
    obtain ⟨-, heq⟩ := Option.ite_none_right_eq_some.mp hu
    obtain rfl := Option.some.inj heq
    refine h.free hstack ?_ (hjustified _ List.mem_cons_self) fun f hf => Or.inl (List.mem_cons_of_mem _ hf)
    rw [stackOwned_cons]
    exact Multiset.singleton_add a _
  next => cases hu

theorem proceed_accounted (h : Accounted s) (hstack : s.threads[t]? = some stack)
    (hu : s.proceed t stack = some u) : Accounted u := by
  unfold proceed at hu
  split at hu
  next call ran caller rest =>
    obtain ⟨-, heq⟩ := Option.ite_none_right_eq_some.mp hu
    obtain rfl := Option.some.inj heq
    exact runAlarms_accounted h hstack
  next toDispatch rest =>
    obtain ⟨-, heq⟩ := Option.ite_none_right_eq_some.mp hu
    obtain rfl := Option.some.inj heq
    exact dispatchWaiting_accounted h hstack
  next rest =>
    obtain ⟨-, heq⟩ := Option.ite_none_right_eq_some.mp hu
    obtain rfl := Option.some.inj heq
    refine setStack_accounted h hstack ?_ fun f hf => Or.inl (List.mem_cons_of_mem _ hf)
    rw [stackOwned_cons]
    exact (zero_add _).symm
  next caller rest =>
    obtain ⟨-, heq⟩ := Option.ite_none_right_eq_some.mp hu
    obtain rfl := Option.some.inj heq
    have hheld : Accounted { s with holder := some t } := ⟨h.sound, h.timely, h.frames⟩
    refine callRunAlarms_accounted hheld hstack ?_ fun f hf => List.mem_cons_of_mem _ hf
    rw [stackOwned_cons]
    exact (zero_add _).symm
  next => cases hu

theorem step_accounted {x : Action} (h : Accounted s) (hlt : s.inserted + 1 < 2 ^ 32) (hu : step s x = some u) :
    Accounted u := by
  cases x with
  | setClock us =>
    obtain rfl := Option.some.inj hu
    exact ⟨h.sound, h.timely, h.frames⟩
  | thread t call =>
    obtain ⟨stack, hstack, hu⟩ := Option.bind_eq_some_iff.mp hu
    cases call with
    | proceed => exact proceed_accounted h hstack hu
    | callbackReturns => exact callbackReturns_accounted h hstack hu
    | _ => exact clientCall_accounted h hlt hstack (Option.ite_none_right_eq_some.mp hu).2

theorem owned_new (threads : ℕ) (clock : ℤ) : (State.new threads clock).owned = 0 := by
  change Bag.total stackOwned (List.replicate threads []) = 0
  rw [Bag.total, List.map_replicate, List.sum_replicate]
  exact nsmul_zero threads

theorem new_accounted (threads : ℕ) (clock : ℤ) : Accounted (State.new threads clock) := by
  have hnone : ∀ a, ¬ (a ∈ (State.new threads clock).ledger.dispatched ∨
      (State.new threads clock).ledger.flagged a = true) := by
    rintro a (ha | ha)
    · cases ha
    · cases ha
  refine ⟨⟨fun a hpos hle => ?_, fun a => ?_, List.Pairwise.nil, nofun, List.Pairwise.nil, List.nodup_nil, fun a ha => ?_,
    fun a ha => ?_, fun a ha => ?_, fun a _ => ?_, nofun⟩, ⟨nofun, nofun, nofun, List.Pairwise.nil⟩, ?_⟩
  · exact absurd hpos (Nat.not_lt.mpr hle)
  · refine ⟨nofun, fun ha => absurd ha.1.1 (Nat.not_lt.mpr ha.1.2)⟩
  · exact absurd ha (hnone a)
  · exact absurd (Or.inr ha) (hnone a)
  · exact absurd ha (hnone a)
  · change (State.new threads clock).owned.count a + 0 = 0
    rw [owned_new]
    rfl
  · rintro stk hstk f hf
    rw [List.eq_of_mem_replicate hstk] at hf
    cases hf

theorem run_accounted {xs : List Action} (hm : Machine.Meets step (fun s _ => s.inserted + 1 < 2 ^ 32) s xs)
    (hs : Accounted s) (hu : Machine.run step s xs = some u) : Accounted u := by
  have hstep : ∀ s x u, s.inserted + 1 < 2 ^ 32 → Accounted s → step s x = some u → Accounted u :=
    fun _ _ _ hlt h hu => step_accounted h hlt hu
  exact Machine.run_invariant hstep hs hm hu

def dispatched (s : State) : List ℕ := s.starts.map Start.alarm ++ s.cancels

structure Dispatched (s : State) : Prop where
  once : ∀ a, 0 < a → a ≤ s.inserted →
    (a ∈ s.outstandingAlarms ∧ s.dispatched.count a = 0 ∧ s.freed.count a = 0) ∨
      (a ∉ s.outstandingAlarms ∧ s.dispatched.count a = 1 ∧ s.owned.count a + s.freed.count a = 1)
  freed : ∀ a ∈ s.freed, a ∈ s.dispatched
  idle : (∀ stack ∈ s.threads, stack = []) → ∀ a ∈ s.dispatched, s.freed.count a = 1
  waiting : ∀ a ∈ s.waitingAlarms, a ∉ s.dispatched
  onTime : ∀ x ∈ s.starts, (s.alarm x.alarm).wakeupTimeUs ≤ x.nowUs

theorem owned_eq_zero_of_idle (h : ∀ stack ∈ s.threads, stack = []) : s.owned = 0 := by
  unfold owned Bag.total
  refine List.sum_eq_zero fun m hm => ?_
  obtain ⟨stk, hstk, rfl⟩ := List.mem_map.mp hm
  rw [h stk hstk]
  rfl

theorem Accounted.dispatched (h : Accounted s) : Dispatched s := by
  have hcount : ∀ a ∈ s.dispatched, s.dispatched.count a = 1 := fun a ha => List.count_eq_one_of_mem h.sound.nodup ha
  refine ⟨fun a hpos hle => ?_, h.sound.freed, fun hidle a ha => ?_, fun a ha => ?_, h.timely.onTime⟩
  · by_cases ha : a ∈ s.dispatched
    · refine Or.inr ⟨fun hout => ((h.sound.outstanding a).mp hout).2 ha, hcount a ha, h.sound.once a (Or.inl ha)⟩
    · refine Or.inl ⟨(h.sound.outstanding a).mpr ⟨⟨hpos, hle⟩, ha⟩, List.count_eq_zero.mpr ha, ?_⟩
      exact List.count_eq_zero.mpr fun hfreed => ha (h.sound.freed a hfreed)
  · have honce := h.sound.once a (Or.inl ha)
    have hzero : s.ledger.owned = 0 := owned_eq_zero_of_idle hidle
    rw [hzero, Multiset.count_zero, zero_add] at honce
    exact honce
  · exact ((h.sound.outstanding a).mp (h.sound.waiting a ha).1).2

end State

/-- Of two alarms that were run, the second sorts after the first or was inserted after it was run. -/
theorem dispatched_of_run (threads : ℕ) (clock : ℤ) (xs : List Action)
    (hm : Machine.Meets step (fun s _ => s.inserted + 1 < 2 ^ 32) (State.new threads clock) xs) (u : State)
    (hu : Machine.run step (State.new threads clock) xs = some u) :
    u.Dispatched ∧ u.starts.Pairwise fun x y => u.key x.alarm < u.key y.alarm ∨ x.inserted < y.alarm := by
  have h := State.run_accounted hm (State.new_accounted threads clock) hu
  exact ⟨h.dispatched, h.timely.order⟩

def dueRun : List Action :=
  [.thread 0 .lock, .thread 0 (.addAlarmAtUsMutexHeld 10), .thread 0 (.addAlarmAtUsMutexHeld 5), .thread 0 .runAlarms,
    .thread 0 .proceed, .thread 0 .callbackReturns, .thread 0 .proceed, .thread 0 .proceed, .thread 0 .callbackReturns,
    .thread 0 .proceed, .thread 0 .proceed, .thread 0 (.timedWaitMs 1), .thread 0 .proceed, .thread 0 .signal,
    .thread 0 .proceed, .thread 0 .callbackReturns]

theorem dispatched_of_run_due :
    ∃ u, Machine.run step (State.new 1 20) dueRun = some u ∧ u.starts.map Start.alarm = [2, 1] ∧ u.cancels = [3] ∧
      u.Dispatched ∧ u.starts.Pairwise fun x y => u.key x.alarm < u.key y.alarm ∨ x.inserted < y.alarm := by
  refine ⟨_, rfl, by decide, by decide, dispatched_of_run 1 20 dueRun ?_ _ rfl⟩
  decide

def insertingRun : List Action :=
  [.thread 0 .lock, .thread 0 (.addAlarmAtUsMutexHeld 10), .thread 0 .runAlarms, .thread 0 .proceed, .thread 0 .lock,
    .thread 0 (.addAlarmAtUsMutexHeld 5), .thread 0 .unlock, .thread 0 .callbackReturns, .thread 0 .proceed,
    .thread 0 .proceed]

theorem run_alarms_out_of_order :
    ∃ u, Machine.run step (State.new 1 20) insertingRun = some u ∧
      ¬ u.starts.Pairwise fun x y => x.call = y.call → u.key x.alarm < u.key y.alarm := by
  refine ⟨_, rfl, fun hordered => ?_⟩
  have hlt := (List.pairwise_cons.mp hordered).1 ⟨0, 2, 2, 20⟩ List.mem_cons_self rfl
  revert hlt
  decide

end PageSpeed.Scheduler
