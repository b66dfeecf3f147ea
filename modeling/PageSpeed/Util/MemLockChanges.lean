import PageSpeed.Util.MemLockSteps
import Mathlib.Data.List.Nodup

/-!
What the operations on in-process locks can do, and what all of it keeps true of the
locks, their owners, the sets and the requests.
-/

namespace PageSpeed.MemLock

open OrderedSet

section Locks

variable {Name : Type} {x : Lock Name} {c d g : ℤ}

@[simp] theorem isPending_clear (x : Lock Name) : x.clear.isPending = false := rfl

@[simp] theorem held_clear (x : Lock Name) : x.clear.held = false := rfl

theorem Lock.sound_clear (x : Lock Name) (c : ℤ) : x.clear.Sound c := ⟨rfl, nofun, nofun, nofun, nofun⟩

theorem Lock.Sound.mono (h : x.Sound c) (hcd : c ≤ d) : x.Sound d :=
  ⟨h.callback, h.exclusive, fun hh => ⟨(h.granted hh).1, (h.granted hh).2.trans hcd⟩, h.waiting, h.wakes⟩

theorem held_of_nonneg (x : Lock Name) (hc : 0 ≤ c) : { x with grantTimeMs := c }.held = true := by
  unfold Lock.held kNotHeld
  simp only [bne_iff_ne]
  omega

theorem Lock.sound_grant (x : Lock Name) (hc : 0 ≤ c) : { x.clear with grantTimeMs := c }.Sound c :=
  ⟨rfl, nofun, fun _ => ⟨hc, le_refl c⟩, nofun, nofun⟩

theorem isPending_calculateWakeupTime (hc : 0 ≤ x.cancelTimeMs) (hs : kDoNotSteal ≤ x.stealMs)
    (hg : g = kNotHeld ∨ 0 ≤ g) : (x.calculateWakeupTime g).isPending = true := by
  unfold kDoNotSteal at hs
  simp only [Lock.isPending, Lock.calculateWakeupTime, Lock.canSteal, kNotPending, kDoNotSteal, kNotHeld, bne_iff_ne,
    ne_eq, bne_eq_false_iff_eq] at hg ⊢
  split_ifs with hcond
  · omega
  · have hsteal : 0 ≤ x.stealMs + g := by omega
    have hmin : 0 ≤ min x.cancelTimeMs (x.stealMs + g) := le_min hc hsteal
    omega

theorem calculateWakeupTime_wakes (x : Lock Name) (g : ℤ) :
    (x.calculateWakeupTime g).wakeupTimeMs = x.cancelTimeMs ∨ x.canSteal = true := by
  unfold Lock.calculateWakeupTime
  cases hcan : x.canSteal <;> simp

theorem Lock.Sound.calculateWakeupTime (h : x.Sound c) (hp : x.isPending = true) (hg : g = kNotHeld ∨ 0 ≤ g) :
    (x.calculateWakeupTime g).Sound c ∧ (x.calculateWakeupTime g).isPending = true := by
  have hpending := isPending_calculateWakeupTime (h.waiting hp).1 (h.waiting hp).2 hg
  refine ⟨⟨?_, fun _ => h.exclusive hp, fun hh => h.granted hh, fun _ => h.waiting hp, fun _ => ?_⟩, hpending⟩
  swap
  · exact calculateWakeupTime_wakes x g
  rw [hpending]
  exact hp.symm.trans h.callback

end Locks

section Requests

variable {called : List (ℕ × Bool)} {requests i r : ℕ} {cb cb' : ℕ → Option ℕ} {b : Bool}

theorem Requests.respond (h : Requests called requests cb) (hi : cb i = some r) (hi' : cb' i = none)
    (hother : ∀ j, j ≠ i → cb' j = cb j) : Requests (called ++ [(r, b)]) requests cb' := by
  obtain ⟨hlt, hnot⟩ := h.waiting i r hi
  have hback : ∀ j q, cb' j = some q → j ≠ i ∧ cb j = some q := by
    intro j q hj
    by_cases hji : j = i
    · subst hji
      cases hi'.symm.trans hj
    · exact ⟨hji, (hother j hji).symm.trans hj⟩
  refine ⟨?_, fun q hq => ?_, fun j q hj => ?_, fun j k q hj hk => ?_, fun q hq => ?_⟩
  · simp only [List.map_append, List.map_cons, List.map_nil]
    exact List.nodup_append.mpr ⟨h.nodup, List.nodup_singleton r, fun a ha c hc hac => hnot (by simp_all)⟩
  · simp only [List.map_append, List.map_cons, List.map_nil, List.mem_append, List.mem_singleton] at hq
    obtain hq | rfl := hq
    · exact h.issued q hq
    · exact hlt
  · obtain ⟨hji, hj⟩ := hback j q hj
    obtain ⟨hq, hqnot⟩ := h.waiting j q hj
    refine ⟨hq, ?_⟩
    simp only [List.map_append, List.map_cons, List.map_nil, List.mem_append, List.mem_singleton, not_or]
    exact ⟨hqnot, fun hqr => hji (h.unique j i r (hqr ▸ hj) hi)⟩
  · exact h.unique j k q (hback j q hj).2 (hback k q hk).2
  · simp only [List.map_append, List.map_cons, List.map_nil, List.mem_append, List.mem_singleton]
    obtain hq | ⟨j, hj⟩ := h.answered q hq
    · exact Or.inl (Or.inl hq)
    · by_cases hji : j = i
      · subst hji
        exact Or.inl (Or.inr (Option.some.inj (hj.symm.trans hi)))
      · exact Or.inr ⟨j, (hother j hji).trans hj⟩

theorem Requests.immediate (h : Requests called requests cb) : Requests (called ++ [(requests, b)]) (requests + 1) cb := by
  have hnew : requests ∉ called.map Prod.fst := fun hmem => lt_irrefl _ (h.issued requests hmem)
  refine ⟨?_, fun q hq => ?_, fun j q hj => ?_, h.unique, fun q hq => ?_⟩
  · simp only [List.map_append, List.map_cons, List.map_nil]
    exact List.nodup_append.mpr ⟨h.nodup, List.nodup_singleton _, fun a ha c hc hac => hnew (by simp_all)⟩
  · simp only [List.map_append, List.map_cons, List.map_nil, List.mem_append, List.mem_singleton] at hq
    obtain hq | rfl := hq
    · exact (h.issued q hq).trans (Nat.lt_succ_self _)
    · exact Nat.lt_succ_self _
  · obtain ⟨hq, hqnot⟩ := h.waiting j q hj
    refine ⟨hq.trans (Nat.lt_succ_self _), ?_⟩
    simp only [List.map_append, List.map_cons, List.map_nil, List.mem_append, List.mem_singleton, not_or]
    exact ⟨hqnot, hq.ne⟩
  · simp only [List.map_append, List.map_cons, List.map_nil, List.mem_append, List.mem_singleton]
    obtain hq | rfl := Nat.lt_succ_iff_lt_or_eq.mp hq
    · exact (h.answered q hq).imp Or.inl id
    · exact Or.inl (Or.inr rfl)

theorem Requests.queue (h : Requests called requests cb) (hi : cb i = none) (hi' : cb' i = some requests)
    (hother : ∀ j, j ≠ i → cb' j = cb j) : Requests called (requests + 1) cb' := by
  have hnew : requests ∉ called.map Prod.fst := fun hmem => lt_irrefl _ (h.issued requests hmem)
  have hold : ∀ j, cb j ≠ some requests := fun j hj => lt_irrefl _ (h.waiting j requests hj).1
  refine ⟨h.nodup, fun q hq => (h.issued q hq).trans (Nat.lt_succ_self _), fun j q hj => ?_, fun j k q hj hk => ?_,
    fun q hq => ?_⟩
  · by_cases hji : j = i
    · subst hji
      obtain rfl := Option.some.inj (hi'.symm.trans hj)
      exact ⟨Nat.lt_succ_self _, hnew⟩
    · obtain ⟨hq, hqnot⟩ := h.waiting j q ((hother j hji).symm.trans hj)
      exact ⟨hq.trans (Nat.lt_succ_self _), hqnot⟩
  · by_cases hji : j = i <;> by_cases hki : k = i
    · exact hji.trans hki.symm
    · subst hji
      obtain rfl := Option.some.inj (hi'.symm.trans hj)
      exact absurd ((hother k hki).symm.trans hk) (hold k)
    · subst hki
      obtain rfl := Option.some.inj (hi'.symm.trans hk)
      exact absurd ((hother j hji).symm.trans hj) (hold j)
    · exact h.unique j k q ((hother j hji).symm.trans hj) ((hother k hki).symm.trans hk)
  · obtain hq | rfl := Nat.lt_succ_iff_lt_or_eq.mp hq
    · obtain hq | ⟨j, hj⟩ := h.answered q hq
      · exact Or.inl hq
      · refine Or.inr ⟨j, (hother j fun hji => ?_).trans hj⟩
        subst hji
        cases hi.symm.trans hj
    · exact Or.inr ⟨i, hi'⟩

end Requests

section Core

variable {Name : Type} [LinearOrder Name] {s t : State Name} {i o p r : ℕ} {n : Name}

theorem Core.callback_eq_none (h : Core s) (hi : ¬ Pending s i) : (s.lock i).callback = none := by
  have hcb := (h.sound i).callback
  rw [Bool.eq_false_iff.mpr hi] at hcb
  exact Option.not_isSome_iff_eq_none.mp (by simp [← hcb])

theorem Core.of_eq (h : Core s) (hlock : t.lock = s.lock)
    (howner : ∀ n, (t.lockState n).currentOwner = (s.lockState n).currentOwner)
    (hlocks : ∀ n, (t.lockState n).pendingLocks = (s.lockState n).pendingLocks)
    (hsteals : ∀ n, (t.lockState n).pendingSteals = (s.lockState n).pendingSteals)
    (hpending : t.pendingLocks = s.pendingLocks) (hc : t.corrupted = s.corrupted) (hclock : s.clock ≤ t.clock)
    (hcalled : t.called = s.called) (hrequests : t.requests = s.requests) : Core t := by
  have hP : ∀ i, Pending t i ↔ Pending s i := by
    intro i
    unfold Pending
    rw [hlock]
  refine ⟨(h.sets.of_eq hlock hlocks hsteals hpending hc.symm.trans).congr hP hP, fun i => ?_, h.clock.trans hclock,
    fun n i => ?_, fun i hi => ?_, ?_⟩
  · rw [hlock]
    exact (h.sound i).mono hclock
  · rw [howner, hlock]
    exact h.owner n i
  · unfold State.stateOf
    rw [hlock, howner]
    exact h.waits i ((hP i).mp hi)
  · rw [hcalled, hrequests, hlock]
    exact h.requests

theorem Core.released (h : Core s) (ho : (s.lockState n).currentOwner = some o)
    (hp : (s.lockState n).pendingLocks = []) :
    Core ((s.clear o).setState n { s.lockState n with currentOwner := none }) := by
  have hnot := h.owner_not_pending ho
  obtain ⟨hon, hoheld⟩ := (h.owner n o).mp ho
  have hself : (s.clear o).lock o = (s.lock o).clear := Function.update_self o _ _
  have hother : ∀ j, j ≠ o → (s.clear o).lock j = s.lock j := fun j hj => Function.update_of_ne hj _ _
  have hname : ∀ j, ((s.clear o).lock j).name = (s.lock j).name := (sameElse_clear s o).name
  have hP : ∀ j, Pending ((s.clear o).setState n { s.lockState n with currentOwner := none }) j ↔ Pending s j := by
    intro j
    by_cases hj : j = o
    · subst hj
      refine iff_of_false (fun hjp => ?_) hnot
      change ((s.clear j).lock j).isPending = true at hjp
      rw [hself] at hjp
      cases hjp
    · change ((s.clear o).lock j).isPending = true ↔ _
      rw [hother j hj]
      rfl
  refine ⟨?_, fun j => ?_, h.clock, fun m j => ?_, fun j hj => ?_, ?_⟩
  · refine ((h.sets_clear hnot).congr hP hP).of_eq rfl (fun m => ?_) (fun m => ?_) rfl id
    · by_cases hm : m = n <;> simp [State.setState, hm, State.clear, State.setLock]
    · by_cases hm : m = n <;> simp [State.setState, hm, State.clear, State.setLock]
  · change ((s.clear o).lock j).Sound s.clock
    by_cases hj : j = o
    · subst hj
      rw [hself]
      exact Lock.sound_clear _ _
    · rw [hother j hj]
      exact h.sound j
  · change (Function.update s.lockState n _ m).currentOwner = some j ↔ ((s.clear o).lock j).name = m ∧
      ((s.clear o).lock j).held = true
    by_cases hm : m = n
    · subst hm
      rw [Function.update_self]
      refine iff_of_false (by rintro ⟨⟩) ?_
      rintro ⟨hjn, hjheld⟩
      by_cases hj : j = o
      · subst hj
        rw [hself] at hjheld
        cases hjheld
      · rw [hother j hj] at hjn hjheld
        exact hj (Option.some.inj (((h.owner m j).mpr ⟨hjn, hjheld⟩).symm.trans ho))
    · rw [Function.update_of_ne hm, h.owner m j, hname]
      by_cases hj : j = o
      · subst hj
        exact iff_of_false (fun hboth => hm (hboth.1.symm.trans hon)) fun hboth => hm (hboth.1.symm.trans hon)
      · rw [hother j hj]
  · have hjs := (hP j).mp hj
    have hmem := (h.sets.pending _ j).mpr ⟨rfl, hjs⟩
    have hjn : (s.lock j).name ≠ n := by
      intro he
      rw [he, hp] at hmem
      cases hmem
    change (Function.update s.lockState n _ ((s.clear o).lock j).name).currentOwner ≠ none
    rw [hname, Function.update_of_ne hjn]
    exact h.waits j hjs
  · have hcb : (fun j => ((s.clear o).lock j).callback) = fun j => (s.lock j).callback := by
      funext j
      by_cases hj : j = o
      · subst hj
        rw [hself, h.callback_eq_none hnot]
        rfl
      · rw [hother j hj]
    change Requests s.called s.requests fun j => ((s.clear o).lock j).callback
    rw [hcb]
    exact h.requests

theorem Handed.name (hh : Handed s n o p r t) (j : ℕ) : (t.lock j).name = (s.lock j).name := by
  by_cases hjo : j = o
  · subst hjo
    rw [hh.lock_old]
    rfl
  · by_cases hjp : j = p
    · subst hjp
      rw [hh.lock_new]
      rfl
    · rw [hh.lock_else j hjo hjp]
      split_ifs <;> rfl

theorem Core.handed (h : Core s) (ho : (s.lockState n).currentOwner = some o) (hp : Pending s p)
    (hn : (s.lock p).name = n) (hr : (s.lock p).callback = some r) (hh : Handed s n o p r t) : Core t := by
  have hnot := h.owner_not_pending ho
  obtain ⟨hon, hoheld⟩ := (h.owner n o).mp ho
  have hname := hh.name
  have hclock : t.clock = s.clock := by rw [hh.eq]
  -- the locks that neither were nor become the owner
  have helse : ∀ j, j ≠ o → j ≠ p → (t.lock j).Sound s.clock ∧ (t.lock j).isPending = (s.lock j).isPending ∧
      (t.lock j).held = (s.lock j).held ∧ (t.lock j).callback = (s.lock j).callback := by
    intro j hjo hjp
    rw [hh.lock_else j hjo hjp]
    split_ifs with hcond
    · have hmem := (hh.sets.steals n j).mp (List.mem_of_mem_head? hcond.2)
      have hj := (h.sound j).calculateWakeupTime hmem.2.1.1 (Or.inr h.clock)
      exact ⟨hj.1, hj.2.trans hmem.2.1.1.symm, rfl, rfl⟩
    · exact ⟨h.sound j, rfl, rfl, rfl⟩
  have hP : ∀ j, Pending t j ↔ Pending s j ∧ j ≠ p := by
    intro j
    unfold Pending
    by_cases hjo : j = o
    · subst hjo
      rw [hh.lock_old]
      exact iff_of_false nofun fun hboth => hnot hboth.1
    · by_cases hjp : j = p
      · subst hjp
        rw [hh.lock_new]
        exact iff_of_false nofun fun hboth => hboth.2 rfl
      · rw [(helse j hjo hjp).2.1]
        exact (and_iff_left hjp).symm
  have hheld : ∀ j, (t.lock j).held = true ↔ j = p ∨ ((s.lock j).held = true ∧ j ≠ o) := by
    intro j
    by_cases hjo : j = o
    · subst hjo
      rw [hh.lock_old]
      have hjp : j ≠ p := fun he => hnot (he ▸ hp)
      simp [hjp]
    · by_cases hjp : j = p
      · subst hjp
        rw [hh.lock_new]
        simp [held_of_nonneg _ h.clock]
      · rw [(helse j hjo hjp).2.2.1]
        simp [hjo, hjp]
  refine ⟨hh.sets.congr hP hP, fun j => ?_, hclock ▸ h.clock, fun m j => ?_, fun j hj => ?_, ?_⟩
  · rw [hclock]
    by_cases hjo : j = o
    · subst hjo
      rw [hh.lock_old]
      exact Lock.sound_clear _ _
    · by_cases hjp : j = p
      · subst hjp
        rw [hh.lock_new]
        exact Lock.sound_grant _ h.clock
      · exact (helse j hjo hjp).1
  · rw [hh.currentOwner, hname, hheld]
    by_cases hm : m = n
    · subst hm
      rw [if_pos rfl]
      constructor
      · intro he
        obtain rfl := Option.some.inj he
        exact ⟨hn, Or.inl rfl⟩
      · rintro ⟨hjn, rfl | ⟨hjheld, hjo⟩⟩
        · rfl
        · exact absurd (Option.some.inj (((h.owner m j).mpr ⟨hjn, hjheld⟩).symm.trans ho)) hjo
    · rw [if_neg hm, h.owner m j]
      constructor
      · rintro ⟨hjm, hjheld⟩
        exact ⟨hjm, Or.inr ⟨hjheld, fun he => hm (hjm.symm.trans (he ▸ hon))⟩⟩
      · rintro ⟨hjm, rfl | ⟨hjheld, -⟩⟩
        · exact absurd (hjm.symm.trans hn) hm
        · exact ⟨hjm, hjheld⟩
  · unfold State.stateOf
    rw [hname, hh.currentOwner]
    split_ifs
    · exact nofun
    · exact h.waits j ((hP j).mp hj).1
  · have hcalled : t.called = s.called ++ [(r, true)] := by rw [hh.eq]
    have hrequests : t.requests = s.requests := by rw [hh.eq]
    rw [hcalled, hrequests]
    refine h.requests.respond hr ?_ fun j hjp => ?_
    · rw [hh.lock_new]
      rfl
    · by_cases hjo : j = o
      · subst hjo
        rw [hh.lock_old, h.callback_eq_none hnot]
        rfl
      · exact (helse j hjo hjp).2.2.2

theorem Core.denied (h : Core s) (hp : Pending s i) (hr : (s.lock i).callback = some r) :
    Core (s.responded i kNotHeld r false) := by
  have hlock := lock_responded s i kNotHeld r false
  have hsame := sameElse_responded s i kNotHeld r false
  have hself : (s.responded i kNotHeld r false).lock i = (s.lock i).clear := by
    rw [hlock, Function.update_self]
    rfl
  have hother : ∀ j, j ≠ i → (s.responded i kNotHeld r false).lock j = s.lock j := by
    intro j hj
    rw [hlock, Function.update_of_ne hj]
  have hP : ∀ j, Pending (s.responded i kNotHeld r false) j ↔ Pending s j ∧ j ≠ i := by
    intro j
    unfold Pending
    by_cases hj : j = i
    · subst hj
      rw [hself]
      exact iff_of_false nofun fun hboth => hboth.2 rfl
    · rw [hother j hj]
      exact (and_iff_left hj).symm
  refine ⟨(h.sets.responded (Or.inr hp)).congr hP hP, fun j => ?_, h.clock, fun m j => ?_, fun j hj => ?_, ?_⟩
  · by_cases hj : j = i
    · subst hj
      rw [hself]
      exact Lock.sound_clear _ _
    · rw [hother j hj]
      exact h.sound j
  · rw [hsame.currentOwner, hsame.name, h.owner m j]
    by_cases hj : j = i
    · subst hj
      rw [hself, (h.sound j).exclusive hp]
      simp
    · rw [hother j hj]
  · unfold State.stateOf
    rw [hsame.name, hsame.currentOwner]
    exact h.waits j ((hP j).mp hj).1
  · refine h.requests.respond hr ?_ fun j hj => ?_
    · rw [hself]
      rfl
    · rw [hother j hj]

theorem Core.grabbed (h : Core s) (hi : ¬ Pending s i) (ho : (s.stateOf i).currentOwner = none) :
    Core { ({ s with requests := s.requests + 1 }.setLock i { s.lock i with grantTimeMs := s.clock }).setState
        (s.lock i).name { s.stateOf i with currentOwner := some i } with
      called := s.called ++ [(s.requests, true)] } := by
  have hself : Function.update s.lock i { s.lock i with grantTimeMs := s.clock } i =
      { s.lock i with grantTimeMs := s.clock } := Function.update_self i _ _
  have hother : ∀ j, j ≠ i → Function.update s.lock i { s.lock i with grantTimeMs := s.clock } j = s.lock j :=
    fun j hj => Function.update_of_ne hj _ _
  have hname : ∀ j, (Function.update s.lock i { s.lock i with grantTimeMs := s.clock } j).name = (s.lock j).name := by
    intro j
    by_cases hj : j = i
    · subst hj
      rw [hself]
    · rw [hother j hj]
  have hP : ∀ j, (Function.update s.lock i { s.lock i with grantTimeMs := s.clock } j).isPending =
      (s.lock j).isPending := by
    intro j
    by_cases hj : j = i
    · subst hj
      rw [hself]
      rfl
    · rw [hother j hj]
  have hset : Sets ({ s with requests := s.requests + 1 }.setLock i { s.lock i with grantTimeMs := s.clock })
      (Pending s) (Pending s) :=
    (h.sets.of_eq (t := { s with requests := s.requests + 1 }) rfl (fun _ => rfl) (fun _ => rfl) rfl id).setLock _ hi hi
  have hiff : ∀ j, (Function.update s.lock i { s.lock i with grantTimeMs := s.clock } j).isPending = true ↔
      Pending s j := by
    intro j
    rw [hP]
    rfl
  refine ⟨(hset.congr hiff hiff).of_eq rfl (fun m => ?_) (fun m => ?_) rfl id, fun j => ?_, h.clock, fun m j => ?_,
    fun j hj => ?_, ?_⟩
  · by_cases hm : m = (s.lock i).name <;> simp [State.setState, State.setLock, State.stateOf, hm]
  · by_cases hm : m = (s.lock i).name <;> simp [State.setState, State.setLock, State.stateOf, hm]
  · change (Function.update s.lock i { s.lock i with grantTimeMs := s.clock } j).Sound s.clock
    by_cases hj : j = i
    · subst hj
      rw [hself]
      have hnot : (s.lock j).isPending = false := Bool.eq_false_iff.mpr hi
      refine ⟨(h.sound j).callback, fun hyes => ?_, fun _ => ⟨h.clock, le_refl _⟩, (h.sound j).waiting,
        (h.sound j).wakes⟩
      exact Bool.noConfusion (hnot.symm.trans hyes)
    · rw [hother j hj]
      exact h.sound j
  · change (Function.update s.lockState (s.lock i).name _ m).currentOwner = some j ↔
      (Function.update s.lock i { s.lock i with grantTimeMs := s.clock } j).name = m ∧
        (Function.update s.lock i { s.lock i with grantTimeMs := s.clock } j).held = true
    rw [hname]
    by_cases hm : m = (s.lock i).name
    · rw [hm, Function.update_self]
      by_cases hj : j = i
      · subst hj
        rw [hself]
        exact iff_of_true rfl ⟨rfl, held_of_nonneg _ h.clock⟩
      · rw [hother j hj]
        refine iff_of_false (fun he => hj (Option.some.inj he).symm) fun hboth => ?_
        cases ho.symm.trans ((h.owner _ j).mpr hboth)
    · rw [Function.update_of_ne hm, h.owner m j]
      by_cases hj : j = i
      · subst hj
        exact iff_of_false (fun hboth => hm hboth.1.symm) fun hboth => hm hboth.1.symm
      · rw [hother j hj]
  · change (Function.update s.lockState (s.lock i).name _
      (Function.update s.lock i { s.lock i with grantTimeMs := s.clock } j).name).currentOwner ≠ none
    rw [hname]
    by_cases hm : (s.lock j).name = (s.lock i).name
    · rw [hm, Function.update_self]
      rintro ⟨⟩
    · rw [Function.update_of_ne hm]
      exact h.waits j ((hiff j).mp hj)
  · have hcb : (fun j => (Function.update s.lock i { s.lock i with grantTimeMs := s.clock } j).callback) =
        fun j => (s.lock j).callback := by
      funext j
      by_cases hj : j = i
      · subst hj
        rw [hself]
      · rw [hother j hj]
    change Requests (s.called ++ [(s.requests, true)]) (s.requests + 1) fun j =>
      (Function.update s.lock i { s.lock i with grantTimeMs := s.clock } j).callback
    rw [hcb]
    exact h.requests.immediate

theorem Queued.name {w st : ℤ} (hq : Queued s i w st o t) (j : ℕ) : (t.lock j).name = (s.lock j).name := by
  obtain ⟨hlock, -, hothers⟩ | ⟨hlock, -, hothers⟩ := hq.lock
  · by_cases hj : j = i
    · subst hj
      rw [hlock]
      rfl
    · rw [hothers j hj]
      split_ifs <;> rfl
  · by_cases hj : j = i
    · subst hj
      rw [hlock]
      rfl
    · rw [hothers j hj]

theorem Queued.locks {w st : ℤ} (h : Core s) (hheld : (s.lock i).held = false)
    (ho : (s.stateOf i).currentOwner = some o) (hw : 0 ≤ s.clock + w) (hst : kDoNotSteal ≤ st)
    (hq : Queued s i w st o t) :
    ((t.lock i).Sound s.clock ∧ (t.lock i).isPending = true ∧ (t.lock i).held = false ∧
        (t.lock i).callback = some s.requests) ∧
      ∀ j, j ≠ i → (t.lock j).Sound s.clock ∧ (t.lock j).isPending = (s.lock j).isPending ∧
        (t.lock j).held = (s.lock j).held ∧ (t.lock j).callback = (s.lock j).callback := by
  have hnew : ∀ g, g = kNotHeld ∨ 0 ≤ g → ((s.requesting i w st).calculateWakeupTime g).Sound s.clock ∧
      ((s.requesting i w st).calculateWakeupTime g).isPending = true ∧
      ((s.requesting i w st).calculateWakeupTime g).held = false ∧
      ((s.requesting i w st).calculateWakeupTime g).callback = some s.requests := by
    intro g hg
    have hpending : ((s.requesting i w st).calculateWakeupTime g).isPending = true :=
      isPending_calculateWakeupTime hw hst hg
    refine ⟨⟨hpending, fun _ => hheld, fun hyes => ?_, fun _ => ⟨hw, hst⟩,
      fun _ => calculateWakeupTime_wakes (s.requesting i w st) g⟩, hpending, hheld, rfl⟩
    exact Bool.noConfusion (hheld.symm.trans hyes)
  have howner := ((h.owner _ o).mp ho).2
  obtain ⟨hlock, -, hothers⟩ | ⟨hlock, -, hothers⟩ := hq.lock
  · refine ⟨?_, fun j hj => ?_⟩
    · rw [hlock]
      exact hnew _ (Or.inr ((h.sound o).granted howner).1)
    · rw [hothers j hj]
      split_ifs with hhead
      · have hmem := (h.sets.steals _ j).mp (List.mem_of_mem_head? hhead)
        have hcalc := (h.sound j).calculateWakeupTime hmem.2.1 (Or.inl rfl)
        exact ⟨hcalc.1, hcalc.2.trans hmem.2.1.symm, rfl, rfl⟩
      · exact ⟨h.sound j, rfl, rfl, rfl⟩
  · refine ⟨?_, fun j hj => ?_⟩
    · rw [hlock]
      exact hnew _ (Or.inl rfl)
    · rw [hothers j hj]
      exact ⟨h.sound j, rfl, rfl, rfl⟩

theorem Core.queued {w st : ℤ} (h : Core s) (hi : ¬ Pending s i) (hheld : (s.lock i).held = false)
    (ho : (s.stateOf i).currentOwner = some o) (hw : 0 ≤ s.clock + w) (hst : kDoNotSteal ≤ st)
    (hq : Queued s i w st o t) : Core t := by
  obtain ⟨hnew, helse⟩ := hq.locks h hheld ho hw hst
  have hname := hq.name
  have hclock : t.clock = s.clock := by rw [hq.eq]
  have hP : ∀ j, Pending t j ↔ Pending s j ∨ j = i := by
    intro j
    unfold Pending
    by_cases hj : j = i
    · subst hj
      exact iff_of_true hnew.2.1 (Or.inr rfl)
    · rw [(helse j hj).2.1]
      exact (or_iff_left hj).symm
  refine ⟨hq.sets.congr hP hP, fun j => ?_, hclock ▸ h.clock, fun m j => ?_, fun j hj => ?_, ?_⟩
  · rw [hclock]
    by_cases hj : j = i
    · subst hj
      exact hnew.1
    · exact (helse j hj).1
  · rw [hq.currentOwner, hname, h.owner m j]
    by_cases hj : j = i
    · subst hj
      rw [hnew.2.2.1, hheld]
    · rw [(helse j hj).2.2.1]
  · unfold State.stateOf
    rw [hname, hq.currentOwner]
    obtain hjs | rfl := (hP j).mp hj
    · exact h.waits j hjs
    · unfold State.stateOf at ho
      rw [ho]
      exact nofun
  · have hcalled : t.called = s.called := by rw [hq.eq]
    have hrequests : t.requests = s.requests + 1 := by rw [hq.eq]
    rw [hcalled, hrequests]
    exact h.requests.queue (h.callback_eq_none hi) hnew.2.2.2 fun j hj => (helse j hj).2.2.2

end Core

section Changes

variable {Name : Type} [LinearOrder Name] {s t : State Name} {i o p r : ℕ} {n : Name} {l : List ℕ}

inductive Requested (s : State Name) (i : ℕ) : State Name → Prop where
  | refuse : Requested s i { s with requests := s.requests + 1, called := s.called ++ [(s.requests, false)] }
  | grab (hlife : s.life i = .alive) (hi : ¬ Pending s i) (ho : (s.stateOf i).currentOwner = none) :
      Requested s i
        { ({ s with requests := s.requests + 1 }.setLock i { s.lock i with grantTimeMs := s.clock }).setState
            (s.lock i).name { s.stateOf i with currentOwner := some i } with
          called := s.called ++ [(s.requests, true)] }
  | queue (o : ℕ) (w st : ℤ) (t : State Name) (hlife : s.life i = .alive) (hi : ¬ Pending s i)
      (hheld : (s.lock i).held = false) (ho : (s.stateOf i).currentOwner = some o)
      (hm : (s.stateOf i).managed = true) (hw : 0 ≤ s.clock + w) (hst : kDoNotSteal ≤ st)
      (hq : Queued s i w st o t) : Requested s i t

inductive Released (s : State Name) (n : Name) (o : ℕ) : State Name → Prop where
  | alone (ho : (s.lockState n).currentOwner = some o) (hp : (s.lockState n).pendingLocks = []) :
      Released s n o ((s.clear o).setState n { s.lockState n with currentOwner := none })
  | handed (p r : ℕ) (l : List ℕ) (t : State Name) (ho : (s.lockState n).currentOwner = some o)
      (hp : (s.lockState n).pendingLocks = p :: l) (hr : (s.lock p).callback = some r) (hh : Handed s n o p r t) :
      Released s n o t

inductive Change (s : State Name) : State Name → Prop where
  | request (i : ℕ) (t : State Name) (hreq : Requested s i t) : Change s t
  | release (n : Name) (o : ℕ) (t : State Name) (hrel : Released s n o t) : Change s t
  | deny (i r : ℕ) (hp : Pending s i) (hr : (s.lock i).callback = some r) :
      Change s (s.responded i kNotHeld r false)

theorem Core.first_pending (h : Core s) (hp : (s.lockState n).pendingLocks = p :: l) :
    (s.lock p).name = n ∧ Pending s p := by
  refine (h.sets.pending n p).mp ?_
  rw [hp]
  exact List.mem_cons_self

theorem Requested.core (h : Core s) (hreq : Requested s i t) : Core t := by
  cases hreq with
  | refuse =>
    refine ⟨h.sets.of_eq rfl (fun _ => rfl) (fun _ => rfl) rfl id, h.sound, h.clock, h.owner, h.waits, ?_⟩
    exact h.requests.immediate
  | grab hlife hi ho => exact h.grabbed hi ho
  | queue o w st _ hlife hi hheld ho hm hw hst hq => exact h.queued hi hheld ho hw hst hq

theorem Released.core (h : Core s) (hrel : Released s n o t) : Core t := by
  cases hrel with
  | alone ho hp => exact h.released ho hp
  | handed p r l _ ho hp hr hh =>
    obtain ⟨hn, hpending⟩ := h.first_pending hp
    exact h.handed ho hpending hn hr hh

theorem Change.core (h : Core s) (hch : Change s t) : Core t := by
  cases hch with
  | request i _ hreq => exact hreq.core h
  | release n o _ hrel => exact hrel.core h
  | deny i r hp hr => exact h.denied hp hr

structure Keeps (s t : State Name) : Prop where
  life : t.life = s.life
  sequence : t.sequence = s.sequence
  lockStateMap : t.lockStateMap = s.lockStateMap
  manager : t.manager = s.manager
  clock : t.clock = s.clock
  name : ∀ j, (t.lock j).name = (s.lock j).name
  lockCount : ∀ n, (t.lockState n).lockCount = (s.lockState n).lockCount
  managed : ∀ n, (t.lockState n).managed = (s.lockState n).managed
  pending : ∀ j, Pending t j → Pending s j ∨ (s.life j = .alive ∧ (s.stateOf j).managed = true)
  held : ∀ j, (t.lock j).held = true → (s.lock j).held = true ∨ Pending s j ∨ s.life j = .alive
  corrupted : t.corrupted = s.corrupted ∨ ∃ j, Pending s j ∧ (s.stateOf j).managed = false

theorem Requested.keeps (h : Core s) (hreq : Requested s i t) : Keeps s t := by
  cases hreq with
  | refuse =>
    exact ⟨rfl, rfl, rfl, rfl, rfl, fun _ => rfl, fun _ => rfl, fun _ => rfl, fun _ => Or.inl, fun _ => Or.inl,
      Or.inl rfl⟩
  | grab hlife hi ho =>
    have hother : ∀ j, j ≠ i → Function.update s.lock i { s.lock i with grantTimeMs := s.clock } j = s.lock j :=
      fun j hj => Function.update_of_ne hj _ _
    refine ⟨rfl, rfl, rfl, rfl, rfl, fun j => ?_, fun n => ?_, fun n => ?_, fun j hj => Or.inl ?_, fun j hj => ?_,
      Or.inl rfl⟩
    · change (Function.update s.lock i { s.lock i with grantTimeMs := s.clock } j).name = _
      by_cases hji : j = i
      · subst hji
        rw [Function.update_self]
      · rw [hother j hji]
    · by_cases hn : n = (s.lock i).name <;> simp [State.setState, State.setLock, State.stateOf, hn]
    · by_cases hn : n = (s.lock i).name <;> simp [State.setState, State.setLock, State.stateOf, hn]
    · change (Function.update s.lock i { s.lock i with grantTimeMs := s.clock } j).isPending = true at hj
      by_cases hji : j = i
      · subst hji
        rw [Function.update_self] at hj
        exact hj
      · rw [hother j hji] at hj
        exact hj
    · change (Function.update s.lock i { s.lock i with grantTimeMs := s.clock } j).held = true at hj
      by_cases hji : j = i
      · subst hji
        exact Or.inr (Or.inr hlife)
      · rw [hother j hji] at hj
        exact Or.inl hj
  | queue o w st _ hlife hi hheld ho hm hw hst hq =>
    obtain ⟨hnew, helse⟩ := hq.locks h hheld ho hw hst
    have heq := hq.eq
    refine ⟨by rw [heq], by rw [heq], by rw [heq], by rw [heq], by rw [heq], hq.name, hq.lockCount,
      hq.managed, fun j hj => ?_, fun j hj => ?_, Or.inl (by rw [heq])⟩
    · by_cases hji : j = i
      · subst hji
        exact Or.inr ⟨hlife, hm⟩
      · exact Or.inl ((helse j hji).2.1.symm.trans hj)
    · by_cases hji : j = i
      · subst hji
        exact Or.inr (Or.inr hlife)
      · exact Or.inl ((helse j hji).2.2.1.symm.trans hj)

theorem Released.keeps (h : Core s) (hrel : Released s n o t) : Keeps s t := by
  cases hrel with
  | alone ho hp =>
    have hother : ∀ j, j ≠ o → (s.clear o).lock j = s.lock j := fun j hj => Function.update_of_ne hj _ _
    have hself : (s.clear o).lock o = (s.lock o).clear := Function.update_self o _ _
    refine ⟨rfl, rfl, rfl, rfl, rfl, (sameElse_clear s o).name, fun m => ?_, fun m => ?_, fun j hj => Or.inl ?_,
      fun j hj => Or.inl ?_, Or.inl (h.corrupted_clear (h.owner_not_pending ho))⟩
    · by_cases hm : m = n <;> simp [State.setState, State.clear, State.setLock, hm]
    · by_cases hm : m = n <;> simp [State.setState, State.clear, State.setLock, hm]
    · change ((s.clear o).lock j).isPending = true at hj
      by_cases hjo : j = o
      · subst hjo
        rw [hself] at hj
        cases hj
      · rw [hother j hjo] at hj
        exact hj
    · change ((s.clear o).lock j).held = true at hj
      by_cases hjo : j = o
      · subst hjo
        rw [hself] at hj
        cases hj
      · rw [hother j hjo] at hj
        exact hj
  | handed p r l _ ho hp hr hh =>
    obtain ⟨hn, hpending⟩ := h.first_pending hp
    have hcore := h.handed ho hpending hn hr hh
    have heq := hh.eq
    refine ⟨by rw [heq], by rw [heq], by rw [heq], by rw [heq], by rw [heq], hh.name, hh.lockCount,
      hh.managed, fun j hj => Or.inl ?_, fun j hj => ?_, Or.inl (by rw [heq])⟩
    · have hmem := (hcore.sets.pending _ j).mpr ⟨rfl, hj⟩
      exact ((hh.sets.pending _ j).mp hmem).2.1
    · by_cases hjp : j = p
      · subst hjp
        exact Or.inr (Or.inl hpending)
      · by_cases hjo : j = o
        · subst hjo
          exact Or.inl ((h.owner n j).mp ho).2
        · rw [hh.lock_else j hjo hjp] at hj
          split_ifs at hj <;> exact Or.inl hj

theorem Change.keeps (h : Core s) (hch : Change s t) : Keeps s t := by
  cases hch with
  | request i _ hreq => exact hreq.keeps h
  | release n o _ hrel => exact hrel.keeps h
  | deny i r hp hr =>
    have hlock := lock_responded s i kNotHeld r false
    have hsame := sameElse_responded s i kNotHeld r false
    refine ⟨rfl, rfl, rfl, rfl, rfl, hsame.name, hsame.lockCount, hsame.managed, fun j hj => Or.inl ?_,
      fun j hj => Or.inl ?_, ?_⟩
    · unfold Pending at hj
      rw [hlock] at hj
      by_cases hji : j = i
      · subst hji
        exact hp
      · rw [Function.update_of_ne hji] at hj
        exact hj
    · rw [hlock] at hj
      by_cases hji : j = i
      · subst hji
        rw [Function.update_self] at hj
        cases hj
      · rw [Function.update_of_ne hji] at hj
        exact hj
    · cases hm : (s.stateOf i).managed with
      | true => exact Or.inl (corrupted_responded_of_managed hm)
      | false => exact Or.inr ⟨i, hp, hm⟩

theorem Change.still (hch : Change s t) : t.stack = s.stack ∧ t.steals = s.steals ∧ t.failed = s.failed := by
  cases hch with
  | request i _ hreq =>
    cases hreq with
    | refuse => exact ⟨rfl, rfl, rfl⟩
    | grab hlife hi ho => exact ⟨rfl, rfl, rfl⟩
    | queue o w st _ hlife hi hheld ho hm hw hst hq =>
      have heq := hq.eq
      exact ⟨by rw [heq], by rw [heq], by rw [heq]⟩
  | release n o _ hrel =>
    cases hrel with
    | alone ho hp => exact ⟨rfl, rfl, rfl⟩
    | handed p r l _ ho hp hr hh =>
      have heq := hh.eq
      exact ⟨by rw [heq], by rw [heq], by rw [heq]⟩
  | deny i r hp hr => exact ⟨rfl, rfl, rfl⟩

end Changes

section Operations

variable {Name : Type} [LinearOrder Name] {s t : State Name} {i o p r : ℕ} {n : Name} {l : List ℕ} {w st : ℤ}

theorem insertLock_error (hc : s.corrupted = true) : ∃ f, s.insertLock i = .error f := by
  rw [insertLock_eq]
  split_ifs
  · exact ⟨_, rfl⟩
  · exact ⟨_, rfl⟩

theorem rescheduleLock_error {g : ℤ} (hc : s.corrupted = true) : ∃ f, s.rescheduleLock g i = .error f := by
  unfold State.rescheduleLock
  rw [unscheduleLock_eq]
  split_ifs
  · exact ⟨_, rfl⟩
  · exact insertLock_error (s := (s.unscheduled i).calculateWakeupTime g i) hc

theorem scheduleLock_error (hc : s.corrupted = true) : ∃ f, s.scheduleLock i = .error f := by
  have hinsert : ∀ u : State Name, u.corrupted = true →
      ∃ f, ((u.insertLock i).map fun v => { v with task := some (.wakeup v.clock) } : Except Failure (State Name)) =
        .error f := by
    intro u hu
    obtain ⟨f, hf⟩ := insertLock_error (i := i) hu
    exact ⟨f, by rw [hf]; rfl⟩
  unfold State.scheduleLock
  cases (s.stateOf i).currentOwner with
  | none => exact ⟨_, rfl⟩
  | some o =>
    simp only []
    split_ifs with hp hcan
    · exact ⟨_, rfl⟩
    · unfold State.displaceStealer
      cases ((s.calculateWakeupTime (s.lock o).grantTimeMs i).stateOf i).pendingSteals with
      | nil => exact hinsert _ hc
      | cons q l =>
        simp only []
        split_ifs
        · obtain ⟨f, hf⟩ := rescheduleLock_error (s := s.calculateWakeupTime (s.lock o).grantTimeMs i) (i := q)
            (g := kNotHeld) hc
          exact ⟨f, by rw [hf]; rfl⟩
        · exact hinsert _ hc
    · exact hinsert _ hc

def OwnersStay (s t : State Name) : Prop :=
  ∀ m j, (s.lockState m).currentOwner = some j → (t.lockState m).currentOwner = some j

theorem request_cases (h : Core s) (hlife : s.life i = .alive) (hw : 0 ≤ s.clock + w) (hst : kDoNotSteal ≤ st) :
    (∃ t, s.lockTimedWaitStealOld i w st = .ok t ∧ Requested s i t ∧ OwnersStay s t ∧
        (t.task = s.task ∨ t.task = some (.wakeup s.clock) ∧ (s.stateOf i).currentOwner ≠ none ∧
          s.corrupted = false ∧ (s.lock i).held = false ∧ ¬ Pending s i)) ∨
      ∃ f, s.lockTimedWaitStealOld i w st = .error f ∧ (s.lock i).held = false ∧ ¬ Pending s i ∧
        ((s.stateOf i).managed = false ∨ ((s.stateOf i).currentOwner ≠ none ∧ s.corrupted = true)) := by
  by_cases hbusy : (s.lock i).held = true ∨ (s.lock i).isPending = true
  · refine Or.inl ⟨_, if_pos hbusy, .refuse, fun _ _ => id, Or.inl rfl⟩
  · have hheld : (s.lock i).held = false := Bool.eq_false_iff.mpr fun hyes => hbusy (Or.inl hyes)
    have hpending : ¬ Pending s i := fun hyes => hbusy (Or.inr hyes)
    cases hm : (s.stateOf i).managed with
    | false =>
      refine Or.inr ⟨.nullManager, ?_, hheld, hpending, Or.inl rfl⟩
      unfold State.lockTimedWaitStealOld
      simp only [if_neg hbusy, hm, if_true]
    | true =>
      cases ho : (s.stateOf i).currentOwner with
      | none =>
        refine Or.inl ⟨_, ?_, .grab hlife hpending ho, fun m j hj => ?_, Or.inl rfl⟩
        · unfold State.lockTimedWaitStealOld
          simp only [if_neg hbusy, hm, ho, Bool.true_eq_false, if_false]
        · have hne : m ≠ (s.lock i).name := by
            rintro rfl
            cases hj.symm.trans ho
          exact (congrArg LockState.currentOwner (Function.update_of_ne hne _ _)).trans hj
      | some o =>
        cases hc : s.corrupted with
        | false =>
          obtain ⟨t, ht, hq⟩ : ∃ t, s.lockTimedWaitStealOld i w st = .ok t ∧ Queued s i w st o t :=
            request_queued h hpending hheld ho hm hc
          refine Or.inl ⟨t, ht, .queue o w st t hlife hpending hheld ho hm hw hst hq, fun m j hj => ?_,
            Or.inr ⟨?_, Option.some_ne_none o, rfl, hheld, hpending⟩⟩
          · rw [hq.currentOwner]
            exact hj
          · rw [hq.eq]
        | true =>
          refine Or.inr ?_
          have hcallback : (s.lock i).callback.isSome = false := by
            rw [h.callback_eq_none hpending]
            rfl
          obtain ⟨f, hf⟩ := scheduleLock_error (i := i)
            (s := { s with requests := s.requests + 1 }.setLock i (s.requesting i w st)) hc
          refine ⟨f, ?_, hheld, hpending, Or.inr ⟨Option.some_ne_none o, rfl⟩⟩
          unfold State.lockTimedWaitStealOld
          simp only [if_neg hbusy, hm, ho, hcallback, Bool.true_eq_false, Bool.false_eq_true, if_false]
          exact hf

theorem unlockState_cases (h : Core s) (ho : (s.lockState n).currentOwner = some o) :
    (∃ t, s.unlockState n = .ok t ∧ Released s n o t ∧ ¬ Pending t o ∧ (t.lock o).held = false ∧ t.task = s.task ∧
        ∀ m, m ≠ n → (t.lockState m).currentOwner = (s.lockState m).currentOwner) ∨
      ∃ f, s.unlockState n = .error f ∧ (s.lockState n).pendingLocks ≠ [] ∧
        ((s.lockState n).managed = false ∨ s.corrupted = true) := by
  have hcorrupted := h.corrupted_clear (h.owner_not_pending ho)
  have hlocks : ((s.clear o).lockState n).pendingLocks = (s.lockState n).pendingLocks := rfl
  have hmanaged : ((s.clear o).lockState n).managed = (s.lockState n).managed := rfl
  cases hp : (s.lockState n).pendingLocks with
  | nil =>
    have hself : (s.clear o).lock o = (s.lock o).clear := Function.update_self o _ _
    refine Or.inl ⟨_, unlockState_alone ho hp, .alone ho hp, fun hpend => ?_, ?_, rfl, fun m hm => ?_⟩
    · change ((s.clear o).lock o).isPending = true at hpend
      rw [hself] at hpend
      cases hpend
    · change ((s.clear o).lock o).held = false
      rw [hself]
      rfl
    · exact congrArg LockState.currentOwner (Function.update_of_ne hm _ _)
  | cons p l =>
    cases hm : (s.lockState n).managed with
    | false =>
      refine Or.inr ⟨.nullManager, ?_, List.cons_ne_nil p l, Or.inl rfl⟩
      unfold State.unlockState
      simp only [ho, hlocks, hp, hmanaged, hm, Bool.false_eq_true, if_false]
    | true =>
      cases hc : s.corrupted with
      | true =>
        refine Or.inr ⟨.corruptedSet, ?_, List.cons_ne_nil p l, Or.inr rfl⟩
        have hyes : (s.clear o).corrupted = true := hcorrupted.trans hc
        unfold State.unlockState
        simp only [ho, hlocks, hp, hmanaged, hm, if_true]
        unfold State.handOver State.removePendingLock
        simp only [State.setState, hyes, if_true]
        rfl
      | false =>
        obtain ⟨t, r, ht, hr, hh⟩ := unlockState_handed h ho hp hm hc
        refine Or.inl ⟨t, ht, .handed p r l t ho hp hr hh, fun hpend => ?_, ?_, ?_, fun m hmn => ?_⟩
        · unfold Pending at hpend
          rw [hh.lock_old] at hpend
          cases hpend
        · rw [hh.lock_old]
          rfl
        · rw [hh.eq]
        · rw [hh.currentOwner, if_neg hmn]

theorem deny_cases (h : Core s) (hp : Pending s i) :
    (∃ r, (s.lock i).callback = some r ∧ s.deny i = .ok (s.responded i kNotHeld r false) ∧
        Change s (s.responded i kNotHeld r false)) ∨
      s.deny i = .error .corruptedSet ∧ (s.stateOf i).managed = true ∧ s.corrupted = true := by
  have hcallback := (h.sound i).callback
  rw [hp] at hcallback
  obtain ⟨r, hr⟩ := Option.isSome_iff_exists.mp hcallback.symm
  by_cases hbad : (s.stateOf i).managed = true ∧ s.corrupted = true
  · exact Or.inr ⟨respond_error hbad.1 hbad.2, hbad⟩
  · exact Or.inl ⟨r, hr, respond_eq hr ((h.sound i).exclusive hp) hp hbad, .deny i r hp hr⟩

theorem Core.first_of_name (h : Core s) (hc : s.corrupted = false) (hi : s.pendingLocks = i :: l) :
    ∃ l', (s.stateOf i).pendingLocks = i :: l' := by
  have hpending : Pending s i := by
    refine (h.sets.members hc i).mp ?_
    rw [hi]
    exact List.mem_cons_self
  have hmem : i ∈ (s.stateOf i).pendingLocks := (h.sets.pending _ i).mpr ⟨rfl, hpending⟩
  cases hl : (s.stateOf i).pendingLocks with
  | nil =>
    rw [hl] at hmem
    cases hmem
  | cons p l' =>
    have hord : Ordered s.wakeupKey (p :: l') := hl ▸ h.sets.pendingOrdered (s.lock i).name
    have hle : s.wakeupKey p ≤ s.wakeupKey i := hord.first_le (hl ▸ hmem)
    have hp : p ∈ s.pendingLocks := (h.sets.members hc p).mpr (h.first_pending hl).2
    have hge : s.wakeupKey i ≤ s.wakeupKey p := Ordered.first_le (hi ▸ h.sets.ordered hc) (hi ▸ hp)
    obtain rfl := wakeupKey_injective s (le_antisymm hge hle)
    exact ⟨l', rfl⟩

inductive Woken (s : State Name) (nowMs : ℤ) : State Name → Prop where
  | done : Woken s nowMs { s with task := none }
  | denied (i r : ℕ) (hp : Pending s i) (hr : (s.lock i).callback = some r) :
      Woken s nowMs { s.responded i kNotHeld r false with
        task := none, stack := .wakeup nowMs none :: s.stack }
  | stolen (i o r : ℕ) (l l' : List ℕ) (t : State Name) (hi : s.pendingLocks = i :: l)
      (hfirst : (s.stateOf i).pendingLocks = i :: l') (hdue : (s.lock i).wakeupTimeMs ≤ nowMs)
      (hsteal : (s.lock i).cancelTimeMs ≠ (s.lock i).wakeupTimeMs)
      (ho : (s.stateOf i).currentOwner = some o) (hr : (s.lock i).callback = some r)
      (hh : Handed s (s.lock i).name o i r t) :
      Woken s nowMs { t with
        steals := t.steals ++ [⟨(s.lock o).grantTimeMs, (s.lock i).stealMs, s.clock⟩]
        task := none
        stack := .wakeup nowMs (some i) :: t.stack }

theorem wakeup_cases (h : Core s) (nowMs : ℤ) :
    (∃ t, s.wakeup nowMs = .ok t ∧ Woken s nowMs t) ∨
      ∃ f, s.wakeup nowMs = .error f ∧ (s.corrupted = true ∨ ∃ i, Pending s i ∧ (s.stateOf i).managed = false) := by
  cases hc : s.corrupted with
  | true =>
    refine Or.inr ⟨.corruptedSet, ?_, Or.inl rfl⟩
    unfold State.wakeup
    rw [if_pos hc]
  | false =>
    have hnot : ¬ s.corrupted = true := by simp [hc]
    have hdone : Woken s nowMs { s with task := none } := .done
    unfold State.wakeup
    rw [if_neg hnot]
    generalize ({ s with task := none } : State Name) = idle at hdone ⊢
    cases hi : s.pendingLocks with
    | nil => exact Or.inl ⟨_, rfl, hdone⟩
    | cons i l =>
      have hpending : Pending s i := by
        refine (h.sets.members hc i).mp ?_
        rw [hi]
        exact List.mem_cons_self
      simp only []
      split_ifs with hdue hcancel hcan
      · exact Or.inl ⟨_, rfl, hdone⟩
      · obtain ⟨r, hr, hd, -⟩ | ⟨-, -, hbad⟩ := deny_cases h hpending
        · rw [hd]
          exact Or.inl ⟨_, rfl, .denied i r hpending hr⟩
        · exact absurd hbad hnot
      · obtain ⟨l', hfirst⟩ := h.first_of_name hc hi
        obtain ⟨o, ho⟩ := Option.ne_none_iff_exists'.mp (h.waits i hpending)
        obtain ⟨hon, hoheld⟩ := (h.owner _ o).mp ho
        have hostate : s.stateOf o = s.stateOf i := by
          unfold State.stateOf
          rw [hon]
        have hsteal : s.stealLock i = (s.unlockState (s.lock i).name).map fun t =>
            { t with steals := t.steals ++ [⟨(s.lock o).grantTimeMs, (s.lock i).stealMs, s.clock⟩] } := by
          unfold State.stealLock State.unlock
          simp only [ho, hoheld, hostate, hfirst, hon, true_and, ne_eq, reduceCtorEq, not_false_eq_true, if_true]
        obtain ⟨t, ht, hrel, -⟩ | ⟨f, hf, -, hbad⟩ := unlockState_cases h ho
        · rw [hsteal, ht]
          refine Or.inl ⟨_, rfl, ?_⟩
          cases hrel with
          | alone _ hnil => cases hfirst.symm.trans hnil
          | handed p r l'' _ _ hp hr hh =>
            obtain ⟨rfl, rfl⟩ := List.cons.inj (hfirst.symm.trans hp)
            exact .stolen i o r l l' t hi hfirst (not_lt.mp hdue) (fun he => hcancel (beq_iff_eq.mpr he)) ho hr hh
        · rw [hsteal, hf]
          refine Or.inr ⟨f, rfl, Or.inr ⟨i, hpending, hbad.resolve_right hnot⟩⟩
      · have hwakes := (h.sound i).wakes hpending
        obtain hsame | hyes := hwakes
        · exact absurd (beq_iff_eq.mpr hsame.symm) hcancel
        · exact absurd hyes hcan

end Operations

end PageSpeed.MemLock
