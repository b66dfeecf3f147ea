import PageSpeed.Rewriter.NamedLockSchedule
import Mathlib.Tactic.Abel

/-!
The books of the controller: where every callback is, what every entry is kept for, and who will release the lock
that it holds.
-/

namespace PageSpeed

open Bag

namespace NamedLockScheduleRewriteController

def Pc.hand : Pc → Multiset Callback
  | .scheduleRewrite _ callback | .callRun _ callback | .callCancel callback => {callback}
  | .cancelAll callbacks => callbacks
  | _ => 0

def Pc.request : Pc → Multiset (GoogleString × Callback)
  | .lockTimedWait key callback | .lockRequested key callback _ | .lockObtained key callback _
  | .lockFailed key callback => {(key, callback)}
  | _ => 0

def Pc.adrift : Pc → ℤ
  | .lockObtained _ _ _ | .unlock _ _ => 1
  | _ => 0

def Pc.pin : Pc → Multiset (GoogleString × ℕ)
  | .unlock key serial | .unpin key serial => {(key, serial)}
  | _ => 0

def Pc.duty : Pc → Multiset GoogleString
  | .callRun key _ | .notifyRewriteComplete key => {key}
  | _ => 0

def Pc.closing : Pc → ℕ
  | .shutDown => 1
  | _ => 0

namespace LockInfo

def waiting (_ : GoogleString) (info : LockInfo) : Multiset Callback := info.pendingCallbacks.val

def requests (key : GoogleString) (info : LockInfo) : Multiset (GoogleString × Callback) :=
  info.pendingCallbacks.val.map (key, ·)

def held (_ : GoogleString) (info : LockInfo) : ℤ := if info.lock.isSome then 1 else 0

def pins (key : GoogleString) (info : LockInfo) : Multiset (GoogleString × ℕ) :=
  Multiset.replicate info.pinCount.toNat (key, info.serial)

end LockInfo

def unclaimed (c : NamedLockScheduleRewriteController) : Multiset Callback :=
  if c.shutDown then 0 else pendingCallbacks c.locks

structure Books (c : NamedLockScheduleRewriteController) : Prop where
  nodup : c.scheduled.Nodup
  callbacks : (c.scheduled : Multiset Callback) = c.ran + c.cancelled + total Pc.hand c.pcs + c.unclaimed
  requests : tally LockInfo.requests c.locks = total Pc.request c.pcs
  held : c.locksCurrentlyHeld = tally LockInfo.held c.locks + total Pc.adrift c.pcs
  pins : tally LockInfo.pins c.locks = total Pc.pin c.pcs
  pinned : ∀ key info, c.locks.lookup key = some info → 0 ≤ info.pinCount
  used : ∀ key info, c.locks.lookup key = some info → unused info = false
  duties : ∀ key info, c.locks.lookup key = some info → info.lock ≠ none →
    key ∈ c.late ∨ key ∈ c.owed + total Pc.duty c.pcs
  late : ∀ key ∈ c.late, ∃ info, c.locks.lookup key = some info ∧ info.lock ≠ none
  closing : total Pc.closing c.pcs + (if c.shutDown then 1 else 0) = if c.shutDownCalled then 1 else 0
  sound : c.fault = false

/-- One call goes from `a` to `b`; a call that starts comes from `done`. -/
def Moves (pcs pcs' : List Pc) (a b : Pc) : Prop :=
  ∀ (M : Type) [AddCommMonoid M] (φ : Pc → M), φ .done = 0 → ∃ r, total φ pcs = φ a + r ∧ total φ pcs' = φ b + r

theorem moves_set {pcs : List Pc} {i : ℕ} {a : Pc} (h : pcs[i]? = some a) (b : Pc) : Moves pcs (pcs.set i b) a b := by
  intro M _ φ _
  obtain ⟨r, hr, hset⟩ := total_set h φ
  exact ⟨r, hr, hset b⟩

theorem moves_start (pcs : List Pc) (b : Pc) : Moves pcs (pcs ++ [b]) .done b := by
  intro M _ φ hdone
  refine ⟨total φ pcs, ?_, ?_⟩
  · rw [hdone, zero_add]
  · rw [total_append, add_comm]
    simp [total]

def keep (info : LockInfo) : Option LockInfo := if unused info then none else some info

def Vanishes {M : Type} [AddCommMonoid M] (φ : GoogleString → LockInfo → M) : Prop :=
  ∀ key info, unused info = true → φ key info = 0

structure Turns (locks locks' : LockMap) (key : GoogleString) (old new : LockInfo) : Prop where
  lookup : ∀ j, locks'.lookup j = if j = key then keep new else locks.lookup j
  tally : ∀ (M : Type) [AddCommMonoid M] (φ : GoogleString → LockInfo → M), Vanishes φ →
    tally φ locks' + φ key old = tally φ locks + φ key new

theorem unused_iff {info : LockInfo} :
    unused info = true ↔ info.lock = none ∧ info.pinCount ≤ 0 ∧ info.pendingCallbacks = ∅ := by
  simp [unused, and_assoc]

theorem vanishes_waiting : Vanishes LockInfo.waiting := by
  intro key info h
  rw [LockInfo.waiting, (unused_iff.mp h).2.2]
  rfl

theorem vanishes_requests : Vanishes LockInfo.requests := by
  intro key info h
  rw [LockInfo.requests, (unused_iff.mp h).2.2]
  rfl

theorem vanishes_held : Vanishes LockInfo.held := by
  intro key info h
  rw [LockInfo.held, (unused_iff.mp h).1]
  rfl

theorem vanishes_pins : Vanishes LockInfo.pins := by
  intro key info h
  rw [LockInfo.pins, Int.toNat_of_nonpos (unused_iff.mp h).2.1]
  rfl

def info (c : NamedLockScheduleRewriteController) (key : GoogleString) : LockInfo := (c.getLockInfo key).1

variable {c : NamedLockScheduleRewriteController} {key : GoogleString}

theorem info_of_some {info : LockInfo} (h : c.locks.lookup key = some info) : c.info key = info := by
  rw [NamedLockScheduleRewriteController.info, getLockInfo, h]

theorem unused_of_none (h : c.locks.lookup key = none) : unused (c.info key) = true := by
  rw [info, getLockInfo, h]
  rfl

theorem elim_info (c : NamedLockScheduleRewriteController) (key : GoogleString) {M : Type} [AddCommMonoid M]
    {φ : GoogleString → LockInfo → M} (hφ : Vanishes φ) : (c.locks.lookup key).elim 0 (φ key) = φ key (c.info key) := by
  cases h : c.locks.lookup key with
  | none => exact (hφ key _ (unused_of_none h)).symm
  | some info =>
    rw [info_of_some h]
    rfl

theorem elim_keep (key : GoogleString) (info : LockInfo) {M : Type} [AddCommMonoid M]
    {φ : GoogleString → LockInfo → M} (hφ : Vanishes φ) : (keep info).elim 0 (φ key) = φ key info := by
  rw [keep]
  split_ifs with h
  · exact (hφ key info h).symm
  · rfl

theorem turns_update (c : NamedLockScheduleRewriteController) (key : GoogleString) (new : LockInfo) :
    Turns c.locks (update c.locks key (keep new)) key (c.info key) new := by
  constructor
  · intro j
    exact lookup_update c.locks j key (keep new)
  · intro M _ φ hφ
    rw [← elim_info c key hφ, ← elim_keep key new hφ]
    exact tally_update φ c.locks key (keep new)

theorem getLockInfo_insert (c : NamedLockScheduleRewriteController) (key : GoogleString) (new : LockInfo) :
    (c.getLockInfo key).2.locks.insert key new = c.locks.insert key new := by
  rw [getLockInfo]
  split
  · rfl
  · apply AList.ext
    exact congrArg (List.cons _) (List.kerase_cons_eq rfl)

theorem getLockInfo_erase (c : NamedLockScheduleRewriteController) (key : GoogleString) :
    (c.getLockInfo key).2.locks.erase key = c.locks.erase key := by
  rw [getLockInfo]
  split
  · rfl
  · apply AList.ext
    calc
      List.kerase key (⟨key, { serial := c.nextSerial }⟩ :: List.kerase key c.locks.entries) = List.kerase key c.locks.entries :=
        List.kerase_cons_eq rfl
      _ = (c.locks.erase key).entries := rfl

theorem getLockInfo_frame (c : NamedLockScheduleRewriteController) (key : GoogleString) :
    ∃ locks serial, (c.getLockInfo key).2 = { c with locks := locks, nextSerial := serial } := by
  rw [getLockInfo]
  split
  · exact ⟨c.locks, c.nextSerial, rfl⟩
  · exact ⟨_, _, rfl⟩

theorem setLockInfo_spec (c : NamedLockScheduleRewriteController) (key : GoogleString) {new : LockInfo}
    (hnew : unused new = false) :
    ∃ locks serial, (c.getLockInfo key).2.setLockInfo key new = { c with locks := locks, nextSerial := serial } ∧
      Turns c.locks locks key (c.info key) new := by
  obtain ⟨locks, serial, hframe⟩ := getLockInfo_frame c key
  have hlocks : (c.getLockInfo key).2.locks.insert key new = update c.locks key (keep new) := by
    rw [getLockInfo_insert, keep, hnew]
    rfl
  refine ⟨_, serial, ?_, turns_update c key new⟩
  rw [← hlocks, setLockInfo, hframe]

theorem writeBack_spec (c : NamedLockScheduleRewriteController) (key : GoogleString) (new : LockInfo) :
    ∃ locks serial, ((c.getLockInfo key).2.setLockInfo key new).deleteInfoIfUnused new key =
        { c with locks := locks, nextSerial := serial } ∧
      Turns c.locks locks key (c.info key) new := by
  cases hnew : unused new with
  | false =>
    rw [deleteInfoIfUnused, hnew]
    exact setLockInfo_spec c key hnew
  | true =>
    obtain ⟨locks, serial, hframe⟩ := getLockInfo_frame c key
    have hlocks : ((c.getLockInfo key).2.locks.insert key new).erase key = update c.locks key (keep new) := by
      rw [getLockInfo_insert, keep, hnew]
      exact AList.ext (List.kerase_cons_eq rfl)
    refine ⟨_, serial, ?_, turns_update c key new⟩
    rw [← hlocks, deleteInfoIfUnused, if_pos hnew, setLockInfo, hframe]

theorem unused_of_lock {info : LockInfo} (h : info.lock ≠ none) : unused info = false := by
  apply Bool.eq_false_iff.mpr
  intro hunused
  exact h (unused_iff.mp hunused).1

theorem lockFailed_spec (c : NamedLockScheduleRewriteController) (key : GoogleString) (callback : Callback) :
    ∃ locks serial, c.lockFailed key callback = { c with locks := locks, nextSerial := serial } ∧
      Turns c.locks locks key (c.info key)
        { c.info key with pendingCallbacks := (c.info key).pendingCallbacks.erase callback } :=
  writeBack_spec c key _

theorem scheduleRewrite_spec (c : NamedLockScheduleRewriteController) (key : GoogleString) (callback : Callback) :
    ∃ locks serial, c.scheduleRewrite key callback = { c with locks := locks, nextSerial := serial } ∧
      Turns c.locks locks key (c.info key)
        { c.info key with pendingCallbacks := insert callback (c.info key).pendingCallbacks } := by
  apply setLockInfo_spec
  apply Bool.eq_false_iff.mpr
  intro hunused
  exact Finset.insert_ne_empty _ _ (unused_iff.mp hunused).2.2

theorem lockObtained_spec (c : NamedLockScheduleRewriteController) (key : GoogleString) (callback : Callback)
    (lock : NamedLock) :
    ∃ locks serial stolen, c.lockObtained key callback lock =
        { c with
          locks := locks
          nextSerial := serial
          locksStolen := stolen
          locksCurrentlyHeld := c.locksCurrentlyHeld - LockInfo.held key (c.info key)
          late := if c.shutDown then insert key c.late else c.late } ∧
      Turns c.locks locks key (c.info key)
        { c.info key with
          lock := some lock
          pendingCallbacks := (c.info key).pendingCallbacks.erase callback } := by
  obtain ⟨locks, serial, hset, hturns⟩ := setLockInfo_spec c key (unused_of_lock (Option.some_ne_none lock) :
    unused { c.info key with lock := some lock, pendingCallbacks := (c.info key).pendingCallbacks.erase callback } = false)
  refine ⟨locks, serial, if (c.info key).lock.isSome then c.locksStolen + 1 else c.locksStolen, ?_, hturns⟩
  rw [info] at hset
  rw [lockObtained]
  dsimp only at hset ⊢
  rw [hset, LockInfo.held, info]
  cases (c.getLockInfo key).1.lock.isSome <;> cases c.shutDown <;> simp

theorem turns_refl {info : LockInfo} (h : c.locks.lookup key = some info) (hused : unused info = false) :
    Turns c.locks c.locks key (c.info key) (c.info key) := by
  constructor
  · intro j
    split_ifs with hj
    · rw [hj, h, info_of_some h, keep, hused]
      rfl
    · rfl
  · intro M _ φ _
    rfl

theorem released_spec (c : NamedLockScheduleRewriteController) (key : GoogleString)
    (hused : ∀ info, c.locks.lookup key = some info → unused info = false) :
    ∃ locks serial, (c.getLockInfo key).2.deleteInfoIfUnused (c.info key) key =
        { c with locks := locks, nextSerial := serial } ∧
      Turns c.locks locks key (c.info key) (c.info key) := by
  cases h : c.locks.lookup key with
  | none =>
    obtain ⟨locks, serial, hframe⟩ := getLockInfo_frame c key
    have hunused := unused_of_none h
    have hlocks : (c.getLockInfo key).2.locks.erase key = update c.locks key (keep (c.info key)) := by
      rw [getLockInfo_erase, keep, hunused]
      rfl
    refine ⟨_, serial, ?_, turns_update c key _⟩
    rw [← hlocks, deleteInfoIfUnused, if_pos hunused, hframe]
  | some info =>
    have hsame : (c.getLockInfo key).2 = c := by rw [getLockInfo, h]
    refine ⟨c.locks, c.nextSerial, ?_, turns_refl h (hused info h)⟩
    rw [hsame, info_of_some h, deleteInfoIfUnused, hused info h]
    rfl

theorem notifyRewriteComplete_spec (c : NamedLockScheduleRewriteController) (key : GoogleString)
    (hused : ∀ info, c.locks.lookup key = some info → unused info = false) (hpinned : 0 ≤ (c.info key).pinCount) :
    (∃ locks serial, (c.info key).lock = none ∧ c.notifyRewriteComplete key = (.done,
        { c with
          locks := locks
          nextSerial := serial
          locksReleasedWhenNotHeld := c.locksReleasedWhenNotHeld + 1
          late := c.late.erase key }) ∧ Turns c.locks locks key (c.info key) (c.info key)) ∨
      ∃ locks serial, (c.info key).lock ≠ none ∧ c.notifyRewriteComplete key = (.unlock key (c.info key).serial,
        { c with locks := locks, nextSerial := serial, late := c.late.erase key }) ∧
        Turns c.locks locks key (c.info key)
          { c.info key with lock := none, pinCount := (c.info key).pinCount + 1 } := by
  rw [notifyRewriteComplete]
  dsimp only
  by_cases hlock : (c.info key).lock = none
  · obtain ⟨locks, serial, hdelete, hturns⟩ := released_spec c key hused
    refine Or.inl ⟨locks, serial, hlock, ?_, hturns⟩
    rw [info] at hdelete hlock
    rw [if_pos (Option.isNone_iff_eq_none.mpr hlock), hdelete]
  · have hkept : unused { c.info key with lock := none, pinCount := (c.info key).pinCount + 1 } = false := by
      apply Bool.eq_false_iff.mpr
      intro hunused
      have hle : (c.info key).pinCount + 1 ≤ 0 := (unused_iff.mp hunused).2.1
      omega
    obtain ⟨locks, serial, hset, hturns⟩ := setLockInfo_spec c key hkept
    refine Or.inr ⟨locks, serial, hlock, ?_, hturns⟩
    rw [info] at hset hlock
    rw [if_neg (fun h => hlock (Option.isNone_iff_eq_none.mp h)), hset]
    rfl

theorem unpin_spec (c : NamedLockScheduleRewriteController) {info : LockInfo} (h : c.locks.lookup key = some info) :
    ∃ locks serial, c.unpin key info.serial = { c with locks := locks, nextSerial := serial } ∧
      Turns c.locks locks key (c.info key) { info with pinCount := info.pinCount - 1 } := by
  have hspec := writeBack_spec c key { info with pinCount := info.pinCount - 1 }
  have hsame : (c.getLockInfo key).2 = c := by rw [getLockInfo, h]
  rw [hsame] at hspec
  rw [unpin, h]
  dsimp only
  rw [if_pos rfl]
  exact hspec

end NamedLockScheduleRewriteController

end PageSpeed
