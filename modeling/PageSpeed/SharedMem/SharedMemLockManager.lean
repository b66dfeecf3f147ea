import PageSpeed.Basic
import PageSpeed.Lib.Machine

/-!
Named locks in shared memory (`kernel/sharedmem/shared_mem_lock_manager.cc`). Each
critical section of a bucket's mutex is one step, and the clock is read in it.
-/

namespace PageSpeed.SharedMemLock

def kBuckets : ℕ := 512

def kSlotsPerBucket : ℕ := 32

def kNotAcquired : ℤ := 0

structure Slot where
  hash : UInt64
  acquiredAtMs : ℤ
deriving DecidableEq

abbrev Bucket := ℕ → Slot

/-- Where the locks of a name are stored. -/
@[ext]
structure Address where
  hash : UInt64
  bucket : ℕ
deriving DecidableEq

def getHashAndBucket (rawHash : GoogleString) : Address where
  hash := (rawHash.take 8).foldl (fun hash c => (hash <<< 8) ||| c.toUInt64) 0
  bucket := ((rawHash.getD 9 0).toNat * 256 + (rawHash.getD 8 0).toNat) % kBuckets

structure LockObject where
  address : Address
  acquisitionTime : ℤ

def LockObject.held (x : LockObject) : Bool := x.acquisitionTime != kNotAcquired

def probes (hash : UInt64) : List ℕ :=
  (List.range kSlotsPerBucket).map fun offset => (hash.toNat % kSlotsPerBucket + offset) % kSlotsPerBucket

inductive Probe where
  | found (s : ℕ)
  | empty (s : ℕ)
  | overflowed
deriving DecidableEq

/-- The loop of `TryLockImpl`, up to the first slot that carries the hash. -/
def search (slots : Bucket) (hash : UInt64) : List ℕ → Option ℕ → Probe
  | [], some s => .empty s
  | [], none => .overflowed
  | s :: rest, emptySlot =>
    if (slots s).hash = hash then .found s
    else if (slots s).acquiredAtMs = kNotAcquired then search slots hash rest (emptySlot.or (some s))
    else search slots hash rest emptySlot

/-- A reading of the clock, as `TryLockImpl` writes it into a slot. -/
def stamp (nowMs : ℤ) : ℤ := if nowMs = kNotAcquired then nowMs + 1 else nowMs

/-- The slot that `TryLockImpl` locks, if it succeeds. -/
def tryLockImpl (slots : Bucket) (hash : UInt64) (steal : Bool) (stealTimeoutMs nowMs : ℤ) : Option ℕ :=
  match search slots hash (probes hash) none with
  | .found s =>
    if (slots s).acquiredAtMs = kNotAcquired ∨
        (steal = true ∧ stealTimeoutMs ≤ stamp nowMs - (slots s).acquiredAtMs) then some s
    else none
  | .empty s => some s
  | .overflowed => none

/-- The slot that `Unlock` frees. -/
def unlockSlot (slots : Bucket) (hash : UInt64) (acquisitionTime : ℤ) : Option ℕ :=
  (probes hash).find? fun s => (slots s).hash = hash && (slots s).acquiredAtMs = acquisitionTime

structure State where
  buckets : ℕ → Bucket
  objects : List LockObject
  clock : ℤ
  owner : Address → Option ℕ

def State.new (clock : ℤ) : State := ⟨fun _ _ => ⟨0, kNotAcquired⟩, [], clock, fun _ => none⟩

inductive Action where
  | create (name : GoogleString)
  | tryLock (i : ℕ) (nowMs : ℤ)
  | tryLockStealOld (i : ℕ) (timeoutMs nowMs : ℤ)
  | unlock (i : ℕ)

namespace State

def setSlot (t : State) (bucket s : ℕ) (slot : Slot) : State :=
  { t with buckets := Function.update t.buckets bucket (Function.update (t.buckets bucket) s slot) }

def doLockSlot (t : State) (i : ℕ) (x : LockObject) (s : ℕ) (nowMs : ℤ) : State :=
  { t.setSlot x.address.bucket s ⟨x.address.hash, stamp nowMs⟩ with
    objects := t.objects.set i { x with acquisitionTime := stamp nowMs }
    owner := Function.update t.owner x.address (some i) }

/-- `TryLock` and `TryLockStealOld`: whether the lock was acquired, and the new state. -/
def tryLock (t : State) (i : ℕ) (x : LockObject) (steal : Bool) (stealTimeoutMs nowMs : ℤ) : Bool × State :=
  let t := { t with clock := nowMs }
  match tryLockImpl (t.buckets x.address.bucket) x.address.hash steal stealTimeoutMs nowMs with
  | some s => (true, t.doLockSlot i x s nowMs)
  | none => (false, t)

def unlock (t : State) (i : ℕ) (x : LockObject) : State :=
  if x.acquisitionTime = kNotAcquired then t
  else
    let t' := match unlockSlot (t.buckets x.address.bucket) x.address.hash x.acquisitionTime with
      | some s => t.setSlot x.address.bucket s
          { t.buckets x.address.bucket s with acquiredAtMs := kNotAcquired }
      | none => t
    { t' with
      objects := t'.objects.set i { x with acquisitionTime := kNotAcquired }
      owner := Function.update t'.owner x.address
        (if t'.owner x.address = some i then none else t'.owner x.address) }

end State

def step (rawHash : GoogleString → GoogleString) (t : State) : Action → Option State
  | .create name => some { t with objects := t.objects ++ [⟨getHashAndBucket (rawHash name), kNotAcquired⟩] }
  | .tryLock i nowMs => (t.objects[i]?).map fun x => (t.tryLock i x false 0 nowMs).2
  | .tryLockStealOld i timeoutMs nowMs => (t.objects[i]?).map fun x => (t.tryLock i x true timeoutMs nowMs).2
  | .unlock i => (t.objects[i]?).map fun x => t.unlock i x

def Allowed (t : State) : Action → Prop
  | .tryLock _ nowMs => t.clock ≤ nowMs
  | .tryLockStealOld _ timeoutMs nowMs => t.clock ≤ nowMs ∧ 1 ≤ timeoutMs
  | _ => True

end PageSpeed.SharedMemLock
