import PageSpeed.Rewriter.NamedLockBooks

/-!
Every step of the controller keeps the books.
-/

namespace PageSpeed

open Bag

namespace NamedLockScheduleRewriteController

section Preserved

variable {c c' : NamedLockScheduleRewriteController} {a b : Pc}

theorem Books.move (hb : Books c) (hm : Moves c.pcs c'.pcs a b) (hlocks : c'.locks = c.locks) (hlate : c'.late = c.late)
    (hfault : c'.fault = c.fault) (hnodup : c'.scheduled.Nodup)
    (hcallbacks : (c'.scheduled : Multiset Callback) + (c.ran + c.cancelled + a.hand + c.unclaimed) =
      c.scheduled + (c'.ran + c'.cancelled + b.hand + c'.unclaimed))
    (hrequest : a.request = b.request)
    (hheld : c'.locksCurrentlyHeld + a.adrift = c.locksCurrentlyHeld + b.adrift) (hpin : a.pin = b.pin)
    (hduty : c.owed + a.duty ≤ c'.owed + b.duty)
    (hclosing : b.closing + (if c'.shutDown then 1 else 0) + (if c.shutDownCalled then 1 else 0) =
      a.closing + (if c.shutDown then 1 else 0) + if c'.shutDownCalled then 1 else 0) : Books c' := by
  obtain ⟨hand, hhand, hhand'⟩ := hm _ Pc.hand rfl
  obtain ⟨request, hreq, hreq'⟩ := hm _ Pc.request rfl
  obtain ⟨adrift, hadrift, hadrift'⟩ := hm _ Pc.adrift rfl
  obtain ⟨pin, hpins, hpins'⟩ := hm _ Pc.pin rfl
  obtain ⟨duty, hdut, hdut'⟩ := hm _ Pc.duty rfl
  obtain ⟨closing, hclose, hclose'⟩ := hm _ Pc.closing rfl
  constructor
  · exact hnodup
  · rw [hb.callbacks, hhand] at hcallbacks
    rw [hhand']
    apply add_right_cancel (b := (c.ran + c.cancelled + a.hand + c.unclaimed : Multiset Callback))
    rw [hcallbacks]
    abel
  · rw [hlocks, hb.requests, hreq, hreq', hrequest]
  · rw [hlocks, hadrift']
    have hbefore := hb.held
    rw [hadrift] at hbefore
    omega
  · rw [hlocks, hb.pins, hpins, hpins', hpin]
  · rw [hlocks]
    exact hb.pinned
  · rw [hlocks]
    exact hb.used
  · rw [hlocks, hlate]
    intro key info hinfo hlock
    apply (hb.duties key info hinfo hlock).imp_right
    intro hmem
    rw [hdut, ← add_assoc] at hmem
    rw [hdut', ← add_assoc]
    exact Multiset.mem_of_le (Multiset.add_le_add_right hduty) hmem
  · rw [hlocks, hlate]
    exact hb.late
  · have hbefore := hb.closing
    rw [hclose] at hbefore
    rw [hclose']
    omega
  · rw [hfault]
    exact hb.sound

theorem lookup_keep {new info : LockInfo} (h : keep new = some info) : info = new ∧ unused new = false := by
  rw [keep] at h
  split_ifs at h with hunused
  exact ⟨(Option.some.inj h).symm, Bool.eq_false_iff.mpr hunused⟩

theorem lookup_of_lock {key : GoogleString} (h : (c.info key).lock ≠ none) :
    c.locks.lookup key = some (c.info key) := by
  cases hlookup : c.locks.lookup key with
  | none => exact absurd (unused_iff.mp (unused_of_none hlookup)).1 h
  | some info => rw [info_of_some hlookup]

theorem Books.turn (hb : Books c) {key : GoogleString} {new : LockInfo} (hm : Moves c.pcs c'.pcs a b)
    (ht : Turns c.locks c'.locks key (c.info key) new)
    (hframe : c' = { c with
      locks := c'.locks, nextSerial := c'.nextSerial, locksStolen := c'.locksStolen
      locksReleasedWhenNotHeld := c'.locksReleasedWhenNotHeld, locksCurrentlyHeld := c'.locksCurrentlyHeld
      late := c'.late, pcs := c'.pcs })
    (hopen : c.shutDown = false → new.waiting key + b.hand = (c.info key).waiting key + a.hand)
    (hshut : c.shutDown = true → b.hand = a.hand)
    (hrequest : new.requests key + a.request = (c.info key).requests key + b.request)
    (hheld : c'.locksCurrentlyHeld + (c.info key).held key + a.adrift = c.locksCurrentlyHeld + new.held key + b.adrift)
    (hpin : new.pins key + a.pin = (c.info key).pins key + b.pin) (hpinned : 0 ≤ new.pinCount)
    (hduty : ∀ j ∈ a.duty, j = key)
    (hnew : new.lock ≠ none → key ∈ c'.late ∨ key ∈ b.duty ∨
      (c.info key).lock ≠ none ∧ a.duty = 0 ∧ c'.late = c.late)
    (hlate : ∀ j ≠ key, j ∈ c'.late ↔ j ∈ c.late) (hkey : key ∈ c'.late → new.lock ≠ none)
    (hclosing : a.closing = b.closing) : Books c' := by
  obtain ⟨hand, hhand, hhand'⟩ := hm _ Pc.hand rfl
  obtain ⟨request, hreq, hreq'⟩ := hm _ Pc.request rfl
  obtain ⟨adrift, hadrift, hadrift'⟩ := hm _ Pc.adrift rfl
  obtain ⟨pin, hpins, hpins'⟩ := hm _ Pc.pin rfl
  obtain ⟨duty, hdut, hdut'⟩ := hm _ Pc.duty rfl
  obtain ⟨closing, hclose, hclose'⟩ := hm _ Pc.closing rfl
  have hscheduled : c'.scheduled = c.scheduled := by rw [hframe]
  have hran : c'.ran = c.ran := by rw [hframe]
  have hcancelled : c'.cancelled = c.cancelled := by rw [hframe]
  have hdown : c'.shutDown = c.shutDown := by rw [hframe]
  have hcalled : c'.shutDownCalled = c.shutDownCalled := by rw [hframe]
  have howed : c'.owed = c.owed := by rw [hframe]
  have hfault : c'.fault = c.fault := by rw [hframe]
  constructor
  · rw [hscheduled]
    exact hb.nodup
  · have hbefore := hb.callbacks
    rw [hhand, unclaimed] at hbefore
    rw [hscheduled, hran, hcancelled, hhand', unclaimed, hdown, hbefore]
    cases hs : c.shutDown with
    | true =>
      rw [hshut hs]
      rfl
    | false =>
      have hwaiting : pendingCallbacks c'.locks + (c.info key).waiting key = pendingCallbacks c.locks + new.waiting key :=
        ht.tally _ LockInfo.waiting vanishes_waiting
      have hboth : pendingCallbacks c'.locks + b.hand = pendingCallbacks c.locks + a.hand := by
        apply add_right_cancel (b := (c.info key).waiting key)
        calc
          _ = pendingCallbacks c'.locks + (c.info key).waiting key + b.hand := by abel
          _ = pendingCallbacks c.locks + (new.waiting key + b.hand) := by rw [hwaiting]; abel
          _ = _ := by rw [hopen hs]; abel
      simp only [Bool.false_eq_true, ↓reduceIte]
      calc
        _ = (c.ran : Multiset Callback) + c.cancelled + hand + (pendingCallbacks c.locks + a.hand) := by abel
        _ = _ := by rw [← hboth]; abel
  · have htally := ht.tally _ LockInfo.requests vanishes_requests
    rw [hb.requests, hreq] at htally
    rw [hreq']
    apply add_right_cancel (b := (c.info key).requests key)
    calc
      _ = request + (new.requests key + a.request) := by rw [htally]; abel
      _ = _ := by rw [hrequest]; abel
  · have htally := ht.tally _ LockInfo.held vanishes_held
    have hbefore := hb.held
    rw [hadrift] at hbefore
    rw [hadrift']
    omega
  · have htally := ht.tally _ LockInfo.pins vanishes_pins
    rw [hb.pins, hpins] at htally
    rw [hpins']
    apply add_right_cancel (b := (c.info key).pins key)
    calc
      _ = pin + (new.pins key + a.pin) := by rw [htally]; abel
      _ = _ := by rw [hpin]; abel
  · intro j info hinfo
    rw [ht.lookup] at hinfo
    split_ifs at hinfo
    · rw [(lookup_keep hinfo).1]
      exact hpinned
    · exact hb.pinned j info hinfo
  · intro j info hinfo
    rw [ht.lookup] at hinfo
    split_ifs at hinfo
    · rw [(lookup_keep hinfo).1]
      exact (lookup_keep hinfo).2
    · exact hb.used j info hinfo
  · intro j info hinfo hlock
    rw [ht.lookup] at hinfo
    rw [howed, hdut']
    split_ifs at hinfo with hj
    · subst hj
      rw [(lookup_keep hinfo).1] at hlock
      obtain hlate | hmem | ⟨hheldBefore, hnone, hsame⟩ := hnew hlock
      · exact Or.inl hlate
      · exact Or.inr (Multiset.mem_add.mpr (Or.inr (Multiset.mem_add.mpr (Or.inl hmem))))
      · have hbefore := hb.duties j _ (lookup_of_lock hheldBefore) hheldBefore
        rw [hdut, hnone, zero_add, ← hsame] at hbefore
        refine hbefore.imp_right fun hmem => ?_
        rw [add_left_comm]
        exact Multiset.mem_add.mpr (Or.inr hmem)
    · have hbefore := hb.duties j info hinfo hlock
      rw [hdut, ← hlate j hj] at hbefore
      refine hbefore.imp_right fun hmem => ?_
      simp only [Multiset.mem_add] at hmem ⊢
      obtain hmem | hmem | hmem := hmem
      · exact Or.inl hmem
      · exact absurd (hduty j hmem) hj
      · exact Or.inr (Or.inr hmem)
  · intro j hj
    rw [ht.lookup]
    split_ifs with hjk
    · subst hjk
      refine ⟨new, ?_, hkey hj⟩
      rw [keep, unused_of_lock (hkey hj)]
      rfl
    · exact hb.late j ((hlate j hjk).mp hj)
  · rw [hclose', hdown, hcalled, ← hclosing, ← hclose]
    exact hb.closing
  · rw [hfault]
    exact hb.sound

end Preserved

section Facts

variable {c : NamedLockScheduleRewriteController} {i : ℕ} {pc : Pc} (hb : Books c) (hi : c.pcs[i]? = some pc)

include hb hi

theorem pending_of_request {key : GoogleString} {callback : Callback} (hpc : pc.request = {(key, callback)}) :
    callback ∈ (c.info key).pendingCallbacks := by
  have hmem : (key, callback) ∈ tally LockInfo.requests c.locks := by
    rw [hb.requests, mem_total]
    exact ⟨pc, List.mem_of_getElem? hi, hpc ▸ Multiset.mem_singleton_self _⟩
  obtain ⟨e, he, hrequest⟩ := mem_total.mp hmem
  obtain ⟨callback', hcallback, hpair⟩ := Multiset.mem_map.mp hrequest
  obtain ⟨rfl, rfl⟩ := Prod.mk.inj hpair
  rw [info_of_some (AList.mem_lookup_iff.mpr he)]
  exact hcallback

theorem pinned_of_pin {key : GoogleString} {serial : ℕ} (hpc : pc.pin = {(key, serial)}) :
    ∃ info, c.locks.lookup key = some info ∧ info.serial = serial ∧ 0 < info.pinCount := by
  have hmem : (key, serial) ∈ tally LockInfo.pins c.locks := by
    rw [hb.pins, mem_total]
    exact ⟨pc, List.mem_of_getElem? hi, hpc ▸ Multiset.mem_singleton_self _⟩
  obtain ⟨e, he, hpin⟩ := mem_total.mp hmem
  obtain ⟨hcount, hpair⟩ := Multiset.mem_replicate.mp hpin
  obtain ⟨rfl, rfl⟩ := Prod.mk.inj hpair
  exact ⟨e.2, AList.mem_lookup_iff.mpr he, rfl, by omega⟩

theorem notMem_of_hand {key : GoogleString} {callback : Callback} (hopen : c.shutDown = false)
    (hpc : callback ∈ pc.hand) : callback ∉ (c.info key).pendingCallbacks := by
  intro hpending
  have hhand : callback ∈ total Pc.hand c.pcs := mem_total.mpr ⟨pc, List.mem_of_getElem? hi, hpc⟩
  have hunclaimed : callback ∈ c.unclaimed := by
    rw [unclaimed, hopen]
    cases h : c.locks.lookup key with
    | none =>
      rw [(unused_iff.mp (unused_of_none h)).2.2] at hpending
      exact absurd hpending (Finset.notMem_empty _)
    | some info =>
      rw [info_of_some h] at hpending
      exact mem_total.mpr ⟨⟨key, info⟩, AList.mem_lookup_iff.mp h, hpending⟩
  have honce := Multiset.nodup_iff_count_le_one.mp (Multiset.coe_nodup.mpr hb.nodup) callback
  rw [hb.callbacks, Multiset.count_add, Multiset.count_add] at honce
  have h1 := Multiset.count_pos.mpr hhand
  have h2 := Multiset.count_pos.mpr hunclaimed
  omega

end Facts

section Entries

variable (key : GoogleString) {info new : LockInfo} {callback : Callback}

theorem waiting_erase (hnew : new.pendingCallbacks = info.pendingCallbacks.erase callback)
    (h : callback ∈ info.pendingCallbacks) : new.waiting key + {callback} = info.waiting key := by
  rw [LockInfo.waiting, LockInfo.waiting, hnew, Finset.erase_val, add_comm]
  exact Multiset.cons_erase h

theorem requests_erase (hnew : new.pendingCallbacks = info.pendingCallbacks.erase callback)
    (h : callback ∈ info.pendingCallbacks) : new.requests key + {(key, callback)} = info.requests key := by
  have hmap := congrArg (Multiset.map (Prod.mk key)) (Multiset.cons_erase (s := info.pendingCallbacks.val) h)
  rw [Multiset.map_cons] at hmap
  rw [LockInfo.requests, LockInfo.requests, hnew, Finset.erase_val, add_comm]
  exact hmap

theorem waiting_insert (hnew : new.pendingCallbacks = insert callback info.pendingCallbacks)
    (h : callback ∉ info.pendingCallbacks) : new.waiting key = info.waiting key + {callback} := by
  rw [LockInfo.waiting, LockInfo.waiting, hnew, Finset.insert_val_of_notMem h, add_comm]
  rfl

theorem requests_insert (hnew : new.pendingCallbacks = insert callback info.pendingCallbacks)
    (h : callback ∉ info.pendingCallbacks) : new.requests key = info.requests key + {(key, callback)} := by
  rw [LockInfo.requests, LockInfo.requests, hnew, Finset.insert_val_of_notMem h, Multiset.map_cons, add_comm]
  rfl

theorem pins_succ (hnew : new.pinCount = info.pinCount + 1) (hserial : new.serial = info.serial)
    (h : 0 ≤ info.pinCount) : new.pins key = info.pins key + {(key, info.serial)} := by
  have hcount : new.pinCount.toNat = info.pinCount.toNat + 1 := by omega
  rw [LockInfo.pins, LockInfo.pins, hcount, hserial, Multiset.replicate_succ, add_comm]
  rfl

end Entries

section Steps

variable {c c' : NamedLockScheduleRewriteController} {i : ℕ} {key : GoogleString} {callback : Callback}

theorem Books.info_pinned (hb : Books c) (key : GoogleString) : 0 ≤ (c.info key).pinCount := by
  cases h : c.locks.lookup key with
  | none =>
    rw [info, getLockInfo, h]
  | some info =>
    rw [info_of_some h]
    exact hb.pinned key info h

theorem Books.late_info (hb : Books c) (h : key ∈ c.late) : (c.info key).lock ≠ none := by
  obtain ⟨info, hlookup, hlock⟩ := hb.late key h
  rw [info_of_some hlookup]
  exact hlock

theorem books_lockObtained (hb : Books c) {lock : NamedLock}
    (hi : c.pcs[i]? = some (.lockObtained key callback lock)) :
    Books ((c.lockObtained key callback lock).setPc i (if c.shutDown then .done else .callRun key callback)) := by
  obtain ⟨locks, serial, stolen, heq, hturns⟩ := lockObtained_spec c key callback lock
  have hpending : callback ∈ (c.info key).pendingCallbacks := pending_of_request hb hi rfl
  rw [heq]
  apply hb.turn (moves_set hi _) hturns rfl
  case hopen =>
    intro hopen
    rw [hopen]
    change LockInfo.waiting key _ + {callback} = _
    exact (waiting_erase key (by rfl) hpending).trans (add_zero _).symm
  case hshut =>
    intro hshut
    rw [hshut]
    rfl
  case hrequest =>
    cases c.shutDown <;> exact (requests_erase key (by rfl) hpending).trans (add_zero _).symm
  case hheld =>
    have hpc : (if c.shutDown then Pc.done else Pc.callRun key callback).adrift = 0 := by cases c.shutDown <;> rfl
    rw [hpc]
    change c.locksCurrentlyHeld - LockInfo.held key (c.info key) + LockInfo.held key (c.info key) + 1 =
      c.locksCurrentlyHeld + 1 + 0
    omega
  case hpin => cases c.shutDown <;> rfl
  case hpinned => exact hb.info_pinned key
  case hduty =>
    intro j hj
    exact absurd hj (Multiset.notMem_zero j)
  case hnew =>
    intro _
    cases c.shutDown with
    | true => exact Or.inl (Finset.mem_insert_self key c.late)
    | false => exact Or.inr (Or.inl (Multiset.mem_singleton_self _))
  case hlate =>
    intro j hj
    change (j ∈ if c.shutDown then insert key c.late else c.late) ↔ j ∈ c.late
    split
    · exact Finset.mem_insert.trans (or_iff_right hj)
    · exact Iff.rfl
  case hkey =>
    intro _
    exact Option.some_ne_none lock
  case hclosing => cases c.shutDown <;> rfl

theorem books_lockFailed (hb : Books c) (hi : c.pcs[i]? = some (.lockFailed key callback)) :
    Books ((c.lockFailed key callback).setPc i (if c.shutDown then .done else .callCancel callback)) := by
  obtain ⟨locks, serial, heq, hturns⟩ := lockFailed_spec c key callback
  have hpending : callback ∈ (c.info key).pendingCallbacks := pending_of_request hb hi rfl
  rw [heq]
  apply hb.turn (moves_set hi _) hturns rfl
  case hopen =>
    intro hopen
    rw [hopen]
    change LockInfo.waiting key _ + {callback} = _
    exact (waiting_erase key (by rfl) hpending).trans (add_zero _).symm
  case hshut =>
    intro hshut
    rw [hshut]
    rfl
  case hrequest =>
    cases c.shutDown <;> exact (requests_erase key (by rfl) hpending).trans (add_zero _).symm
  case hheld => cases c.shutDown <;> rfl
  case hpin => cases c.shutDown <;> rfl
  case hpinned => exact hb.info_pinned key
  case hduty =>
    intro j hj
    exact absurd hj (Multiset.notMem_zero j)
  case hnew =>
    intro hlock
    exact Or.inr (Or.inr ⟨hlock, rfl, rfl⟩)
  case hlate =>
    intro j _
    exact Iff.rfl
  case hkey => exact hb.late_info
  case hclosing => cases c.shutDown <;> rfl

theorem books_scheduleRewrite (hb : Books c) (hi : c.pcs[i]? = some (.scheduleRewrite key callback))
    (hopen : c.shutDown = false) :
    Books ((c.scheduleRewrite key callback).setPc i (.lockTimedWait key callback)) := by
  obtain ⟨locks, serial, heq, hturns⟩ := scheduleRewrite_spec c key callback
  have hfresh : callback ∉ (c.info key).pendingCallbacks :=
    notMem_of_hand hb hi hopen (Multiset.mem_singleton_self callback)
  rw [heq]
  apply hb.turn (moves_set hi _) hturns rfl
  case hopen =>
    intro _
    exact (add_zero _).trans (waiting_insert key (by rfl) hfresh)
  case hshut =>
    intro hshut
    exact Bool.noConfusion (hopen.symm.trans hshut)
  case hrequest => exact (add_zero _).trans (requests_insert key (by rfl) hfresh)
  case hheld => rfl
  case hpin => rfl
  case hpinned => exact hb.info_pinned key
  case hduty =>
    intro j hj
    exact absurd hj (Multiset.notMem_zero j)
  case hnew =>
    intro hlock
    exact Or.inr (Or.inr ⟨hlock, rfl, rfl⟩)
  case hlate =>
    intro j _
    exact Iff.rfl
  case hkey => exact hb.late_info
  case hclosing => rfl

theorem books_notifyRewriteComplete (hb : Books c) (hi : c.pcs[i]? = some (.notifyRewriteComplete key)) :
    Books ((c.notifyRewriteComplete key).2.setPc i (c.notifyRewriteComplete key).1) := by
  obtain ⟨locks, serial, hlock, heq, hturns⟩ | ⟨locks, serial, hlock, heq, hturns⟩ :=
    notifyRewriteComplete_spec c key (hb.used key) (hb.info_pinned key)
  · rw [heq]
    apply hb.turn (moves_set hi _) hturns rfl
    case hopen => exact fun _ => rfl
    case hshut => exact fun _ => rfl
    case hrequest => rfl
    case hheld => rfl
    case hpin => rfl
    case hpinned => exact hb.info_pinned key
    case hduty => exact fun j hj => Multiset.mem_singleton.mp hj
    case hnew => exact fun hnew => absurd hlock hnew
    case hlate =>
      intro j hj
      exact Finset.mem_erase.trans (and_iff_right hj)
    case hkey => exact fun hkey => absurd hkey (Finset.notMem_erase key c.late)
    case hclosing => rfl
  · rw [heq]
    apply hb.turn (moves_set hi _) hturns rfl
    case hopen => exact fun _ => rfl
    case hshut => exact fun _ => rfl
    case hrequest => rfl
    case hheld =>
      have hheld : LockInfo.held key (c.info key) = 1 := if_pos (Option.isSome_iff_ne_none.mpr hlock)
      rw [hheld]
      change c.locksCurrentlyHeld + 1 + 0 = c.locksCurrentlyHeld + 0 + 1
      omega
    case hpin => exact (add_zero _).trans (pins_succ key (by rfl) (by rfl) (hb.info_pinned key))
    case hpinned =>
      have h := hb.info_pinned key
      change 0 ≤ (c.info key).pinCount + 1
      omega
    case hduty => exact fun j hj => Multiset.mem_singleton.mp hj
    case hnew => exact fun hnew => absurd rfl hnew
    case hlate =>
      intro j hj
      exact Finset.mem_erase.trans (and_iff_right hj)
    case hkey => exact fun hkey => absurd hkey (Finset.notMem_erase key c.late)
    case hclosing => rfl

theorem books_unpin (hb : Books c) {serial : ℕ} (hi : c.pcs[i]? = some (.unpin key serial)) :
    Books ((c.unpin key serial).setPc i .done) := by
  obtain ⟨info, hlookup, rfl, hpinned⟩ : ∃ info, c.locks.lookup key = some info ∧ info.serial = serial ∧
      0 < info.pinCount := pinned_of_pin hb hi rfl
  obtain ⟨locks, serial, heq, hturns⟩ := unpin_spec c hlookup
  have hinfo := info_of_some hlookup
  rw [heq]
  apply hb.turn (moves_set hi _) hturns rfl
  case hopen =>
    rw [hinfo]
    exact fun _ => rfl
  case hshut => exact fun _ => rfl
  case hrequest =>
    rw [hinfo]
    rfl
  case hheld =>
    rw [hinfo]
    rfl
  case hpin =>
    rw [hinfo]
    exact (pins_succ key (by simp) (by rfl) (by simp; omega)).symm.trans (add_zero _).symm
  case hpinned =>
    change 0 ≤ info.pinCount - 1
    omega
  case hduty =>
    intro j hj
    exact absurd hj (Multiset.notMem_zero j)
  case hnew =>
    rw [hinfo]
    exact fun hlock => Or.inr (Or.inr ⟨hlock, rfl, rfl⟩)
  case hlate => exact fun j _ => Iff.rfl
  case hkey =>
    rw [← hinfo]
    exact hb.late_info
  case hclosing => rfl

theorem books_advance (hb : Books c) {pc : Pc} (hi : c.pcs[i]? = some pc) (h : c.advance i pc = some c') : Books c' := by
  cases pc with
  | scheduleRewrite key callback =>
    rw [advance] at h
    split_ifs at h with hdown
    · cases h
      exact hb.move (moves_set hi _) rfl rfl rfl hb.nodup rfl rfl rfl rfl le_rfl rfl
    · cases h
      exact books_scheduleRewrite hb hi (Bool.eq_false_iff.mpr hdown)
  | lockTimedWait key callback =>
    cases h
    exact hb.move (moves_set hi _) rfl rfl rfl hb.nodup rfl rfl rfl rfl le_rfl rfl
  | lockObtained key callback lock =>
    cases h
    exact books_lockObtained hb hi
  | lockFailed key callback =>
    cases h
    exact books_lockFailed hb hi
  | callRun key callback =>
    cases h
    refine hb.move (moves_set hi _) rfl rfl rfl hb.nodup ?_ rfl rfl rfl ?_ rfl
    · change (c.scheduled : Multiset Callback) + (_ + _ + {callback} + c.unclaimed) =
        c.scheduled + (((c.ran ++ [callback] : List Callback) : Multiset Callback) + c.cancelled + 0 + c.unclaimed)
      rw [← Multiset.coe_add, Multiset.coe_singleton]
      abel
    · change c.owed + {key} ≤ (key ::ₘ c.owed) + 0
      rw [add_zero, ← Multiset.singleton_add, add_comm]
  | callCancel callback =>
    cases h
    refine hb.move (moves_set hi _) rfl rfl rfl hb.nodup ?_ rfl rfl rfl le_rfl rfl
    change (c.scheduled : Multiset Callback) + (_ + _ + {callback} + c.unclaimed) =
      c.scheduled + (c.ran + ((c.cancelled ++ [callback] : List Callback) : Multiset Callback) + 0 + c.unclaimed)
    rw [← Multiset.coe_add, Multiset.coe_singleton]
    abel
  | notifyRewriteComplete key =>
    cases h
    exact books_notifyRewriteComplete hb hi
  | unlock key serial =>
    cases h
    refine hb.move (moves_set hi _) rfl rfl rfl hb.nodup rfl rfl ?_ rfl le_rfl rfl
    change c.locksCurrentlyHeld - 1 + 1 = c.locksCurrentlyHeld + 0
    omega
  | unpin key serial =>
    cases h
    exact books_unpin hb hi
  | cancelAll callbacks =>
    cases callbacks with
    | nil =>
      cases h
      exact hb.move (moves_set hi _) rfl rfl rfl hb.nodup rfl rfl rfl rfl le_rfl rfl
    | cons callback callbacks =>
      cases h
      refine hb.move (moves_set hi _) rfl rfl rfl hb.nodup ?_ rfl rfl rfl le_rfl rfl
      change (c.scheduled : Multiset Callback) +
          (_ + _ + ((callback :: callbacks : List Callback) : Multiset Callback) + c.unclaimed) =
        c.scheduled +
          (c.ran + ((c.cancelled ++ [callback] : List Callback) : Multiset Callback) + callbacks + c.unclaimed)
      rw [← Multiset.coe_add, Multiset.coe_singleton, ← Multiset.cons_coe, ← Multiset.singleton_add]
      abel
  | lockRequested key callback lock => cases h
  | shutDown => cases h
  | done => cases h

theorem books_collect (hb : Books c) {callbacks : List Callback} (hi : c.pcs[i]? = some .shutDown)
    (hall : (callbacks : Multiset Callback) = pendingCallbacks c.locks) :
    Books ({ c with shutDown := true }.setPc i (.cancelAll callbacks)) := by
  have hone : 1 ≤ total Pc.closing c.pcs := by
    obtain ⟨r, hr, -⟩ := total_set hi Pc.closing
    rw [hr]
    exact Nat.le_add_right 1 r
  have hclosing := hb.closing
  have hopen : c.shutDown = false := by
    cases hdown : c.shutDown with
    | false => rfl
    | true =>
      rw [hdown, if_pos rfl] at hclosing
      split_ifs at hclosing
      omega
  refine hb.move (moves_set hi _) rfl rfl rfl hb.nodup ?_ rfl rfl rfl le_rfl ?_
  · have hunclaimed : c.unclaimed = callbacks := by
      rw [unclaimed, hopen, hall]
      rfl
    rw [hunclaimed]
    change (c.scheduled : Multiset Callback) + (c.ran + c.cancelled + 0 + callbacks) =
      c.scheduled + (c.ran + c.cancelled + callbacks + 0)
    abel
  · rw [hopen]
    change 0 + 1 + _ = 1 + 0 + _
    rfl

theorem books_step (hb : Books c) {action : Action} (h : c.step action = some c') : Books c' := by
  cases action with
  | scheduleRewrite key callback =>
    rw [step] at h
    split_ifs at h with hknown
    cases h
    refine hb.move (moves_start _ _) rfl rfl rfl ?_ ?_ rfl rfl rfl le_rfl rfl
    · exact List.nodup_append.mpr ⟨hb.nodup, List.nodup_singleton _, by grind⟩
    · change ((c.scheduled ++ [callback] : List Callback) : Multiset Callback) + (_ + _ + 0 + _) =
        c.scheduled + (c.ran + c.cancelled + {callback} + c.unclaimed)
      rw [← Multiset.coe_add, Multiset.coe_singleton]
      abel
  | notifyRewriteComplete key =>
    cases h
    refine hb.move (moves_start _ _) rfl rfl rfl hb.nodup rfl rfl rfl rfl ?_ rfl
    change c.owed + 0 ≤ c.owed.erase key + {key}
    rw [add_zero, add_comm]
    exact Multiset.le_cons_erase c.owed key
  | shutDown =>
    rw [step] at h
    split_ifs at h with hcalled
    cases h
    refine hb.move (moves_start _ _) rfl rfl rfl hb.nodup rfl rfl rfl rfl le_rfl ?_
    rw [if_neg hcalled]
    change 1 + (if c.shutDown then 1 else 0) + 0 = 0 + (if c.shutDown then 1 else 0) + 1
    omega
  | grant i =>
    rw [step] at h
    split at h
    · rename_i hi
      cases h
      refine hb.move (moves_set hi _) rfl rfl rfl hb.nodup rfl rfl ?_ rfl le_rfl rfl
      change c.locksCurrentlyHeld + 1 + 0 = c.locksCurrentlyHeld + 1
      omega
    · cases h
  | deny i =>
    rw [step] at h
    split at h
    · rename_i hi
      cases h
      exact hb.move (moves_set hi _) rfl rfl rfl hb.nodup rfl rfl rfl rfl le_rfl rfl
    · cases h
  | collect i callbacks =>
    rw [step] at h
    split at h
    · rename_i hi
      split_ifs at h with hall
      cases h
      exact books_collect hb hi hall
    · cases h
  | advance i =>
    obtain ⟨pc, hi, h⟩ := Option.bind_eq_some_iff.mp h
    exact books_advance hb hi h

theorem books_init : Books {} := by
  constructor
  case nodup => exact List.nodup_nil
  case closing => rfl
  case sound => rfl
  case callbacks => rfl
  case requests => rfl
  case held => rfl
  case pins => rfl
  case pinned => exact fun _ _ h => nomatch h
  case used => exact fun _ _ h => nomatch h
  case duties => exact fun _ _ h => nomatch h
  case late => exact fun key h => absurd h (Finset.notMem_empty key)

theorem books_run {actions : List Action} (h : Machine.run step {} actions = some c) : Books c :=
  Machine.run_invariant (fun _ _ _ _ hb hs => books_step hb hs) books_init (Machine.meets_true actions) h

end Steps

end NamedLockScheduleRewriteController

end PageSpeed
