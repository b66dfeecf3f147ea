import PageSpeed.Util.MemLock

/-!
What the ordered sets of the lock manager hold, and what entering and leaving them does.
-/

namespace PageSpeed.MemLock

open OrderedSet

variable {Name : Type}

theorem wakeupKey_injective (s : State Name) : Function.Injective s.wakeupKey := by
  intro i j h
  simp only [State.wakeupKey, EmbeddingLike.apply_eq_iff_eq, Prod.mk.injEq] at h
  exact h.2.2

theorem stealKey_injective (s : State Name) : Function.Injective s.stealKey := by
  intro i j h
  simp only [State.stealKey, EmbeddingLike.apply_eq_iff_eq, Prod.mk.injEq] at h
  exact h.2.2

variable [LinearOrder Name] {s t : State Name} {i : ℕ} {n : Name} {Q R : ℕ → Prop}

structure Sets (s : State Name) (Q R : ℕ → Prop) : Prop where
  pending : ∀ n i, i ∈ (s.lockState n).pendingLocks ↔ (s.lock i).name = n ∧ Q i
  steals : ∀ n i, i ∈ (s.lockState n).pendingSteals ↔ (s.lock i).name = n ∧ R i ∧ (s.lock i).canSteal = true
  pendingOrdered : ∀ n, Ordered s.wakeupKey (s.lockState n).pendingLocks
  stealsOrdered : ∀ n, Ordered s.stealKey (s.lockState n).pendingSteals
  members : s.corrupted = false → ∀ i, i ∈ s.pendingLocks ↔ Q i
  ordered : s.corrupted = false → Ordered s.wakeupKey s.pendingLocks

theorem Sets.congr {Q' R' : ℕ → Prop} (h : Sets s Q R) (hQ : ∀ i, Q' i ↔ Q i) (hR : ∀ i, R' i ↔ R i) :
    Sets s Q' R' := by
  obtain rfl : Q' = Q := funext fun i => propext (hQ i)
  obtain rfl : R' = R := funext fun i => propext (hR i)
  exact h

theorem Sets.of_eq (h : Sets s Q R) (hlock : t.lock = s.lock)
    (hlocks : ∀ n, (t.lockState n).pendingLocks = (s.lockState n).pendingLocks)
    (hsteals : ∀ n, (t.lockState n).pendingSteals = (s.lockState n).pendingSteals)
    (hpending : t.pendingLocks = s.pendingLocks) (hc : t.corrupted = false → s.corrupted = false) : Sets t Q R := by
  have hwakeup : t.wakeupKey = s.wakeupKey := by
    funext i
    simp only [State.wakeupKey, hlock]
  have hsteal : t.stealKey = s.stealKey := by
    funext i
    simp only [State.stealKey, hlock]
  refine ⟨fun n i => ?_, fun n i => ?_, fun n => ?_, fun n => ?_, fun hcorrupt i => ?_, fun hcorrupt => ?_⟩
  · rw [hlock, hlocks]
    exact h.pending n i
  · rw [hlock, hsteals]
    exact h.steals n i
  · rw [hwakeup, hlocks]
    exact h.pendingOrdered n
  · rw [hsteal, hsteals]
    exact h.stealsOrdered n
  · rw [hpending]
    exact h.members (hc hcorrupt) i
  · rw [hwakeup, hpending]
    exact h.ordered (hc hcorrupt)

theorem Sets.corrupt (h : Sets s Q R) : Sets { s with corrupted := true } Q R :=
  ⟨h.pending, h.steals, h.pendingOrdered, h.stealsOrdered, nofun, nofun⟩

theorem Sets.setLock (h : Sets s Q R) (x : Lock Name) (hQ : ¬ Q i) (hR : ¬ R i) : Sets (s.setLock i x) Q R := by
  have hother : ∀ j, j ≠ i → (s.setLock i x).lock j = s.lock j := fun j hj => Function.update_of_ne hj _ _
  have hwakeup : ∀ j, Q j → (s.setLock i x).wakeupKey j = s.wakeupKey j := by
    intro j hj
    have hne : j ≠ i := fun he => hQ (he ▸ hj)
    simp only [State.wakeupKey, hother j hne]
  have hsteal : ∀ j, R j → (s.setLock i x).stealKey j = s.stealKey j := by
    intro j hj
    have hne : j ≠ i := fun he => hR (he ▸ hj)
    simp only [State.stealKey, hother j hne]
  refine ⟨fun n j => ?_, fun n j => ?_, fun n => ?_, fun n => ?_, h.members, fun hc => ?_⟩
  · by_cases hj : j = i
    · subst hj
      exact iff_of_false (fun hm => hQ ((h.pending n j).mp hm).2) fun hm => hQ hm.2
    · rw [hother j hj]
      exact h.pending n j
  · by_cases hj : j = i
    · subst hj
      exact iff_of_false (fun hm => hR ((h.steals n j).mp hm).2.1) fun hm => hR hm.2.1
    · rw [hother j hj]
      exact h.steals n j
  · exact (h.pendingOrdered n).congr fun j hj => hwakeup j ((h.pending n j).mp hj).2
  · exact (h.stealsOrdered n).congr fun j hj => hsteal j ((h.steals n j).mp hj).2.1
  · exact (h.ordered hc).congr fun j hj => hwakeup j ((h.members hc j).mp hj)

namespace State

def unscheduled (s : State Name) (i : ℕ) : State Name :=
  let st := s.stateOf i
  { s.setState (s.lock i).name
      { st with
        pendingLocks := erase s.wakeupKey i st.pendingLocks
        pendingSteals := erase s.stealKey i st.pendingSteals } with
    pendingLocks := if st.managed then erase s.wakeupKey i s.pendingLocks else s.pendingLocks }

def inserted (s : State Name) (i : ℕ) : State Name :=
  let st := s.stateOf i
  { s.setState (s.lock i).name
      { st with
        pendingLocks := OrderedSet.insert s.wakeupKey i st.pendingLocks
        pendingSteals :=
          if (s.lock i).canSteal then OrderedSet.insert s.stealKey i st.pendingSteals else st.pendingSteals } with
    pendingLocks := OrderedSet.insert s.wakeupKey i s.pendingLocks }

end State

theorem unscheduleLock_eq (s : State Name) (i : ℕ) :
    s.unscheduleLock i =
      if (s.stateOf i).managed = true ∧ s.corrupted = true then .error .corruptedSet else .ok (s.unscheduled i) := by
  unfold State.unscheduleLock State.removePendingLock State.unscheduled
  cases hm : (s.stateOf i).managed <;> cases hc : s.corrupted <;> simp [State.setState, hc, hm]
  rfl

theorem insertLock_eq (s : State Name) (i : ℕ) :
    s.insertLock i =
      if (s.stateOf i).managed = true then
        if s.corrupted then .error .corruptedSet else .ok (s.inserted i)
      else .error .nullManager := by
  unfold State.insertLock State.addPendingLock State.inserted
  cases hm : (s.stateOf i).managed <;> cases hc : s.corrupted <;> simp [State.setState, hc, hm]
  rfl

theorem Sets.unscheduled (h : Sets s Q R) (hm : (s.stateOf i).managed = true ∨ s.corrupted = true) :
    Sets (s.unscheduled i) (fun j => Q j ∧ j ≠ i) (fun j => R j ∧ j ≠ i) := by
  refine ⟨fun n j => ?_, fun n j => ?_, fun n => ?_, fun n => ?_, fun hc j => ?_, fun hc => ?_⟩
  · by_cases hn : n = (s.lock i).name
    · subst hn
      have hp := h.pending (s.lock i).name j
      simp only [State.unscheduled, State.setState, State.stateOf, Function.update_self,
        mem_erase (wakeupKey_injective s), hp]
      tauto
    · have hp := h.pending n j
      simp only [State.unscheduled, State.setState, Function.update_of_ne hn, hp]
      constructor
      · rintro ⟨hname, hj⟩
        exact ⟨hname, hj, fun he => hn (he ▸ hname.symm)⟩
      · exact fun hj => ⟨hj.1, hj.2.1⟩
  · by_cases hn : n = (s.lock i).name
    · subst hn
      have hp := h.steals (s.lock i).name j
      simp only [State.unscheduled, State.setState, State.stateOf, Function.update_self,
        mem_erase (stealKey_injective s), hp]
      tauto
    · have hp := h.steals n j
      simp only [State.unscheduled, State.setState, Function.update_of_ne hn, hp]
      constructor
      · rintro ⟨hname, hj⟩
        exact ⟨hname, ⟨hj.1, fun he => hn (he ▸ hname.symm)⟩, hj.2⟩
      · exact fun hj => ⟨hj.1, hj.2.1.1, hj.2.2⟩
  · by_cases hn : n = (s.lock i).name
    · subst hn
      simp only [State.unscheduled, State.setState, State.stateOf, Function.update_self]
      exact erase_ordered (h.pendingOrdered _)
    · simp only [State.unscheduled, State.setState, Function.update_of_ne hn]
      exact h.pendingOrdered n
  · by_cases hn : n = (s.lock i).name
    · subst hn
      simp only [State.unscheduled, State.setState, State.stateOf, Function.update_self]
      exact erase_ordered (h.stealsOrdered _)
    · simp only [State.unscheduled, State.setState, Function.update_of_ne hn]
      exact h.stealsOrdered n
  · have hc' : s.corrupted = false := hc
    have hmanaged := hm.resolve_right fun hcorrupt => Bool.noConfusion (hc'.symm.trans hcorrupt)
    simp only [State.unscheduled, hmanaged, if_true, mem_erase (wakeupKey_injective s), h.members hc']
  · have hc' : s.corrupted = false := hc
    have hmanaged := hm.resolve_right fun hcorrupt => Bool.noConfusion (hc'.symm.trans hcorrupt)
    simp only [State.unscheduled, hmanaged, if_true]
    exact erase_ordered (h.ordered hc')

theorem Sets.inserted (h : Sets s Q R) : Sets (s.inserted i) (fun j => Q j ∨ j = i) (fun j => R j ∨ j = i) := by
  refine ⟨fun n j => ?_, fun n j => ?_, fun n => ?_, fun n => ?_, fun hc j => ?_, fun hc => ?_⟩
  · by_cases hn : n = (s.lock i).name
    · subst hn
      have hp := h.pending (s.lock i).name j
      simp only [State.inserted, State.setState, State.stateOf, Function.update_self,
        mem_insert (wakeupKey_injective s), hp]
      constructor
      · rintro (rfl | hj)
        · exact ⟨rfl, Or.inr rfl⟩
        · exact ⟨hj.1, Or.inl hj.2⟩
      · tauto
    · have hp := h.pending n j
      simp only [State.inserted, State.setState, Function.update_of_ne hn, hp]
      constructor
      · exact fun hj => ⟨hj.1, Or.inl hj.2⟩
      · rintro ⟨hname, hj | rfl⟩
        · exact ⟨hname, hj⟩
        · exact absurd hname.symm hn
  · by_cases hn : n = (s.lock i).name
    · subst hn
      have hp := h.steals (s.lock i).name j
      simp only [State.inserted, State.setState, State.stateOf, Function.update_self]
      split_ifs with hsteal
      · rw [mem_insert (stealKey_injective s), hp]
        constructor
        · rintro (rfl | hj)
          · exact ⟨rfl, Or.inr rfl, hsteal⟩
          · exact ⟨hj.1, Or.inl hj.2.1, hj.2.2⟩
        · tauto
      · rw [hp]
        constructor
        · exact fun hj => ⟨hj.1, Or.inl hj.2.1, hj.2.2⟩
        · rintro ⟨hname, hj | rfl, hcan⟩
          · exact ⟨hname, hj, hcan⟩
          · exact absurd hcan hsteal
    · have hp := h.steals n j
      simp only [State.inserted, State.setState, Function.update_of_ne hn, hp]
      constructor
      · exact fun hj => ⟨hj.1, Or.inl hj.2.1, hj.2.2⟩
      · rintro ⟨hname, hj | rfl, hcan⟩
        · exact ⟨hname, hj, hcan⟩
        · exact absurd hname.symm hn
  · by_cases hn : n = (s.lock i).name
    · subst hn
      simp only [State.inserted, State.setState, State.stateOf, Function.update_self]
      exact insert_ordered (h.pendingOrdered _)
    · simp only [State.inserted, State.setState, Function.update_of_ne hn]
      exact h.pendingOrdered n
  · by_cases hn : n = (s.lock i).name
    · subst hn
      simp only [State.inserted, State.setState, State.stateOf, Function.update_self]
      split_ifs
      · exact insert_ordered (h.stealsOrdered _)
      · exact h.stealsOrdered _
    · simp only [State.inserted, State.setState, Function.update_of_ne hn]
      exact h.stealsOrdered n
  · simp only [State.inserted, mem_insert (wakeupKey_injective s)]
    rw [h.members hc, or_comm]
  · exact insert_ordered (h.ordered hc)

end PageSpeed.MemLock
