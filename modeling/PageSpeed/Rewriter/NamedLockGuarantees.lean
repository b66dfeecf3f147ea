import PageSpeed.Base.Ascii
import PageSpeed.Rewriter.NamedLockAccounts

/-!
What the controller owes to its callers, over whole runs, and the lock that nobody releases when it is granted after
`ShutDown`.
-/

namespace PageSpeed

open Bag

namespace NamedLockScheduleRewriteController

def Quiet (c : NamedLockScheduleRewriteController) : Prop :=
  ∀ pc ∈ c.pcs, pc = .done ∨ ∃ key callback lock, pc = .lockRequested key callback lock

def Answered (c : NamedLockScheduleRewriteController) : Prop := ∀ pc ∈ c.pcs, pc = .done

def Settled (c : NamedLockScheduleRewriteController) : Prop := Answered c ∧ c.owed = 0

def locksHeld (c : NamedLockScheduleRewriteController) : ℕ := c.locks.entries.countP fun e => e.2.lock.isSome

structure Accounted (c : NamedLockScheduleRewriteController) : Prop where
  atMostOnce : (c.ran ++ c.cancelled).Nodup
  known : ∀ callback ∈ c.ran ++ c.cancelled, callback ∈ c.scheduled
  exactlyOnce : Quiet c → Answered c ∨ c.shutDown = true → (c.ran ++ c.cancelled).Perm c.scheduled
  entries : ∀ key, (c.locks.lookup key).isSome = true ↔
    (∃ info, c.locks.lookup key = some info ∧ info.lock ≠ none) ∨
    (∃ serial, .unlock key serial ∈ c.pcs ∨ .unpin key serial ∈ c.pcs) ∨
    ∃ callback, ∃ pc ∈ c.pcs, pc.request = {(key, callback)}
  counter : Quiet c → c.locksCurrentlyHeld = c.locksHeld
  intact : c.fault = false

variable {c : NamedLockScheduleRewriteController}

theorem total_quiet (h : Quiet c) {M : Type} [AddCommMonoid M] {φ : Pc → M} (hdone : φ .done = 0)
    (hrequested : ∀ key callback lock, φ (.lockRequested key callback lock) = 0) : total φ c.pcs = 0 := by
  rw [total]
  apply List.sum_eq_zero
  intro x hx
  obtain ⟨pc, hpc, rfl⟩ := List.mem_map.mp hx
  obtain rfl | ⟨key, callback, lock, rfl⟩ := h pc hpc
  · exact hdone
  · exact hrequested key callback lock

theorem total_answered (h : Answered c) {M : Type} [AddCommMonoid M] {φ : Pc → M} (hdone : φ .done = 0) :
    total φ c.pcs = 0 := by
  rw [total]
  apply List.sum_eq_zero
  intro x hx
  obtain ⟨pc, hpc, rfl⟩ := List.mem_map.mp hx
  rw [h pc hpc]
  exact hdone

theorem tally_held (locks : LockMap) :
    tally LockInfo.held locks = locks.entries.countP fun e => e.2.lock.isSome := by
  rw [tally, total]
  induction locks.entries with
  | nil => rfl
  | cons e es ih =>
    rw [List.map_cons, List.sum_cons, ih, List.countP_cons, LockInfo.held]
    push_cast
    omega

variable {key : GoogleString}

theorem mem_request {pc : Pc} {callback : Callback} (h : (key, callback) ∈ pc.request) :
    pc.request = {(key, callback)} := by
  cases pc <;> simp_all [Pc.request]

theorem lookup_of_tally {α : Type} {φ : GoogleString → LockInfo → Multiset (GoogleString × α)}
    (hφ : ∀ key info x, x ∈ φ key info → x.1 = key) {a : α} (h : (key, a) ∈ tally φ c.locks) :
    ∃ info, c.locks.lookup key = some info ∧ (key, a) ∈ φ key info := by
  obtain ⟨e, he, hmem⟩ := mem_total.mp h
  obtain rfl := hφ _ _ _ hmem
  exact ⟨e.2, AList.mem_lookup_iff.mpr he, hmem⟩

theorem mem_tally {α : Type} {φ : GoogleString → LockInfo → Multiset α} {info : LockInfo}
    (h : c.locks.lookup key = some info) {a : α} (ha : a ∈ φ key info) : a ∈ tally φ c.locks :=
  mem_total.mpr ⟨⟨key, info⟩, AList.mem_lookup_iff.mp h, ha⟩

theorem requests_key (key : GoogleString) (info : LockInfo) (x : GoogleString × Callback)
    (h : x ∈ info.requests key) : x.1 = key := by
  obtain ⟨callback, -, rfl⟩ := Multiset.mem_map.mp h
  rfl

theorem pins_key (key : GoogleString) (info : LockInfo) (x : GoogleString × ℕ) (h : x ∈ info.pins key) : x.1 = key := by
  rw [(Multiset.mem_replicate.mp h).2]

theorem mem_pin {pc : Pc} {serial : ℕ} (h : (key, serial) ∈ pc.pin) :
    pc = .unlock key serial ∨ pc = .unpin key serial := by
  cases pc <;> simp_all [Pc.pin]

theorem Books.entry (hb : Books c) {info : LockInfo} (h : c.locks.lookup key = some info) :
    info.lock ≠ none ∨ (∃ serial, (key, serial) ∈ total Pc.pin c.pcs) ∨
      ∃ callback, (key, callback) ∈ total Pc.request c.pcs := by
  by_contra hnone
  simp only [not_or, not_exists, ne_eq, not_not] at hnone
  obtain ⟨hlock, hpins, hrequests⟩ := hnone
  apply Bool.eq_false_iff.mp (hb.used key info h)
  apply unused_iff.mpr
  refine ⟨hlock, ?_, ?_⟩
  · by_contra hpos
    apply hpins info.serial
    rw [← hb.pins]
    exact mem_tally h (Multiset.mem_replicate.mpr ⟨by omega, rfl⟩)
  · apply Finset.eq_empty_of_forall_notMem
    intro callback hcallback
    apply hrequests callback
    rw [← hb.requests]
    exact mem_tally h (Multiset.mem_map_of_mem _ hcallback)

theorem Books.accounted (hb : Books c) : Accounted c := by
  have hle : ((c.ran ++ c.cancelled : List Callback) : Multiset Callback) ≤ c.scheduled := by
    rw [hb.callbacks, ← Multiset.coe_add, add_assoc]
    exact Multiset.le_add_right _ _
  constructor
  · exact Multiset.coe_nodup.mp (Multiset.nodup_of_le hle (Multiset.coe_nodup.mpr hb.nodup))
  · intro callback hmem
    exact Multiset.mem_of_le hle hmem
  · intro hquiet hall
    apply Multiset.coe_eq_coe.mp
    have hhand : total Pc.hand c.pcs = 0 := total_quiet hquiet rfl fun _ _ _ => rfl
    have hunclaimed : c.unclaimed = 0 := by
      rw [unclaimed]
      split_ifs with hdown
      · rfl
      · obtain hanswered | hshut := hall
        · apply Multiset.eq_zero_of_forall_notMem
          intro callback hmem
          obtain ⟨e, he, hpending⟩ : ∃ e ∈ c.locks.entries, callback ∈ LockInfo.waiting e.1 e.2 := mem_total.mp hmem
          have hrequest : (e.1, callback) ∈ tally LockInfo.requests c.locks :=
            mem_tally (AList.mem_lookup_iff.mpr he) (Multiset.mem_map_of_mem _ hpending)
          rw [hb.requests, total_answered hanswered rfl] at hrequest
          exact Multiset.notMem_zero _ hrequest
        · exact absurd hshut hdown
    rw [hb.callbacks, hhand, hunclaimed, add_zero, add_zero]
    rfl
  · intro key
    constructor
    · intro hsome
      obtain ⟨info, hinfo⟩ := Option.isSome_iff_exists.mp hsome
      refine (hb.entry hinfo).imp (fun hlock => ⟨info, hinfo, hlock⟩) (Or.imp ?_ ?_)
      · rintro ⟨serial, hpin⟩
        obtain ⟨pc, hpc, hmem⟩ := mem_total.mp hpin
        refine ⟨serial, ?_⟩
        obtain rfl | rfl := mem_pin hmem
        · exact Or.inl hpc
        · exact Or.inr hpc
      · rintro ⟨callback, hrequest⟩
        obtain ⟨pc, hpc, hmem⟩ := mem_total.mp hrequest
        exact ⟨callback, pc, hpc, mem_request hmem⟩
    · have hpinned {serial : ℕ} {pc : Pc} (hpc : pc ∈ c.pcs) (hpin : pc.pin = {(key, serial)}) :
          (c.locks.lookup key).isSome = true := by
        have hmem : (key, serial) ∈ tally LockInfo.pins c.locks := by
          rw [hb.pins]
          exact mem_total.mpr ⟨pc, hpc, hpin ▸ Multiset.mem_singleton_self _⟩
        obtain ⟨info, hinfo, -⟩ := lookup_of_tally pins_key hmem
        rw [hinfo]
        rfl
      rintro (⟨info, hinfo, -⟩ | ⟨serial, hpc | hpc⟩ | ⟨callback, pc, hpc, hrequest⟩)
      · rw [hinfo]
        rfl
      · exact hpinned hpc rfl
      · exact hpinned hpc rfl
      · have hmem : (key, callback) ∈ tally LockInfo.requests c.locks := by
          rw [hb.requests]
          exact mem_total.mpr ⟨pc, hpc, hrequest ▸ Multiset.mem_singleton_self _⟩
        obtain ⟨info, hinfo, -⟩ := lookup_of_tally requests_key hmem
        rw [hinfo]
        rfl
  · intro hquiet
    have hadrift : total Pc.adrift c.pcs = 0 := total_quiet hquiet rfl fun _ _ _ => rfl
    rw [hb.held, hadrift, add_zero, tally_held]
    rfl
  · exact hb.sound

theorem Books.settled (hb : Books c) (hs : Settled c) : c.locks = ∅ ↔ c.late = ∅ := by
  constructor
  · intro hempty
    apply Finset.eq_empty_of_forall_notMem
    intro key hkey
    obtain ⟨info, hinfo, -⟩ := hb.late key hkey
    rw [hempty] at hinfo
    exact nomatch hinfo
  · intro hlate
    have hnone (key : GoogleString) : c.locks.lookup key = none := by
      by_contra hsome
      obtain ⟨info, hinfo⟩ := Option.ne_none_iff_exists'.mp hsome
      obtain hlock | ⟨serial, hpin⟩ | ⟨callback, hrequest⟩ := hb.entry hinfo
      · have hduty := hb.duties key info hinfo hlock
        rw [hlate, hs.2, total_answered hs.1 rfl] at hduty
        exact hduty.elim (Finset.notMem_empty key) (Multiset.notMem_zero key)
      · rw [total_answered hs.1 rfl] at hpin
        exact Multiset.notMem_zero _ hpin
      · rw [total_answered hs.1 rfl] at hrequest
        exact Multiset.notMem_zero _ hrequest
    apply AList.ext
    apply List.eq_nil_iff_forall_not_mem.mpr
    intro e he
    have hlookup := AList.mem_lookup_iff.mpr he
    rw [hnone] at hlookup
    exact nomatch hlookup

def Promised (c : NamedLockScheduleRewriteController) : Prop := Accounted c ∧ (Settled c → c.locks = ∅)

/-- In every run the promise is kept exactly if every lock that came after `ShutDown` is released by a notification. -/
theorem promised_iff {actions : List Action} (h : Machine.run step {} actions = some c) :
    Promised c ↔ (Settled c → c.late = ∅) := by
  have hb := books_run h
  constructor
  · intro hpromised hs
    exact (hb.settled hs).mp (hpromised.2 hs)
  · intro hlate
    exact ⟨hb.accounted, fun hs => (hb.settled hs).mpr (hlate hs)⟩

instance : Decidable (Settled c) := inferInstanceAs (Decidable ((∀ pc ∈ c.pcs, pc = .done) ∧ c.owed = 0))

def after (actions : List Action) : NamedLockScheduleRewriteController := (Machine.run step {} actions).getD {}

theorem run_after {actions : List Action} (h : (Machine.run step {} actions).isSome = true) :
    Machine.run step {} actions = some (after actions) := by
  obtain ⟨c, hc⟩ := Option.isSome_iff_exists.mp h
  rw [after, hc, Option.getD_some]

def oneRewrite : List Action :=
  [.scheduleRewrite (ascii "key") 0, .advance 0, .advance 0, .grant 0, .advance 0, .advance 0,
    .notifyRewriteComplete (ascii "key"), .advance 1, .advance 1, .advance 1]

theorem promised_iff_oneRewrite : Settled (after oneRewrite) ∧ Promised (after oneRewrite) :=
  ⟨by decide, (promised_iff (run_after (by decide))).mpr fun _ => by decide⟩

/-- `ShutDown` comes between the request and its grant: the callback is cancelled and the lock stays. -/
def grantedTooLate : List Action :=
  [.scheduleRewrite (ascii "key") 0, .advance 0, .advance 0, .shutDown, .collect 1 [0], .advance 1, .advance 1,
    .grant 0, .advance 0]

theorem grantedTooLate_not_promised :
    (Machine.run step {} grantedTooLate).isSome = true ∧ ¬ Promised (after grantedTooLate) := by
  refine ⟨by decide, ?_⟩
  rintro ⟨-, hempty⟩
  have hkeys : (after grantedTooLate).locks.keys = [ascii "key"] := by decide
  rw [hempty (by decide)] at hkeys
  exact absurd hkeys (by decide)

end NamedLockScheduleRewriteController

end PageSpeed
