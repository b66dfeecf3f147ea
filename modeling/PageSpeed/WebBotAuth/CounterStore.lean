import PageSpeed.Basic
import PageSpeed.Lib.Bag
import PageSpeed.Lib.Machine
import Mathlib.Data.UInt

/-!
The per-signer counters of `kernel/webbotauth/webbotauth_counter_store.cc`, which the
workers update with atomic steps only: every call of `RecordWebBotAuthVerifiedSigner` is
one list of them, and the calls interleave in any order.
-/

namespace PageSpeed.WebBotAuthCounter

def kMaxCountedBots : ℕ := 8

structure SignerSlot where
  kidHash : UInt64 := 0
  count : UInt64 := 0

structure CounterStats where
  signers : List SignerSlot
  otherVerifiedBots : UInt64 := 0
  verifyLatencyLt100us : UInt64 := 0
  verifyLatencyLt1ms : UInt64 := 0
  verifyLatencyLt10ms : UInt64 := 0
  verifyLatencyGe10ms : UInt64 := 0

def hashWebBotAuthKeyid (keyid : GoogleString) : UInt64 :=
  let h := keyid.foldl (fun h c => (h ^^^ c.toUInt64) * 0x100000001b3) 0xcbf29ce484222325
  if h = 0 then 0x9e3779b97f4a7c15 else h

theorem hashWebBotAuthKeyid_ne_zero (keyid : GoogleString) : hashWebBotAuthKeyid keyid ≠ 0 := by
  simp only [hashWebBotAuthKeyid]
  split_ifs with h
  · decide
  · exact h

inductive Phase where
  | bucket
  | load (slot : ℕ)
  | claim (slot : ℕ)
  | count (slot : ℕ)
  | countOther
  | done
  deriving DecidableEq

structure Call where
  keyid : GoogleString
  latencyUs : UInt64
  phase : Phase

def Call.hash (c : Call) : UInt64 := hashWebBotAuthKeyid c.keyid

namespace CounterStats

def bucketLatency (st : CounterStats) (latencyUs : UInt64) : CounterStats :=
  if latencyUs < 100 then { st with verifyLatencyLt100us := st.verifyLatencyLt100us + 1 }
  else if latencyUs < 1000 then { st with verifyLatencyLt1ms := st.verifyLatencyLt1ms + 1 }
  else if latencyUs < 10000 then { st with verifyLatencyLt10ms := st.verifyLatencyLt10ms + 1 }
  else { st with verifyLatencyGe10ms := st.verifyLatencyGe10ms + 1 }

/-- Where the scan of the slots is before it looks at `slot`. -/
def scan (st : CounterStats) (slot : ℕ) : Phase := if slot < st.signers.length then .load slot else .countOther

/-- One atomic step of `RecordWebBotAuthVerifiedSigner`, and where the call is after it. -/
def recordVerifiedSigner (st : CounterStats) (c : Call) : Option (CounterStats × Phase) :=
  match c.phase with
  | .bucket => some (st.bucketLatency c.latencyUs, st.scan 0)
  | .load i => st.signers[i]?.map fun slot =>
    if slot.kidHash = c.hash then (st, .count i)
    else if slot.kidHash = 0 then (st, .claim i)
    else (st, st.scan (i + 1))
  | .claim i => st.signers[i]?.map fun slot =>
    if slot.kidHash = 0 then ({ st with signers := st.signers.set i { slot with kidHash := c.hash } }, .count i)
    -- The race for the slot is lost, perhaps to the same signer.
    else if slot.kidHash = c.hash then (st, .count i)
    else (st, st.scan (i + 1))
  | .count i => st.signers[i]?.map fun slot =>
    ({ st with signers := st.signers.set i { slot with count := slot.count + 1 } }, .done)
  | .countOther => some ({ st with otherVerifiedBots := st.otherVerifiedBots + 1 }, .done)
  | .done => none

def hashes (st : CounterStats) : List UInt64 := st.signers.map SignerSlot.kidHash

theorem hashes_getElem? (st : CounterStats) (i : ℕ) : st.hashes[i]? = st.signers[i]?.map SignerSlot.kidHash :=
  List.getElem?_map

/-- The first `n` slots are claimed by other signers. -/
def Passed (st : CounterStats) (h : UInt64) (n : ℕ) : Prop := ∀ j < n, ∃ g, st.hashes[j]? = some g ∧ g ≠ 0 ∧ g ≠ h

end CounterStats

structure State where
  stats : CounterStats
  calls : List Call

def State.new : State := ⟨{ signers := List.replicate kMaxCountedBots {} }, []⟩

inductive Action where
  | record (keyid : GoogleString) (latencyUs : UInt64)
  | proceed (call : ℕ)

def step (s : State) : Action → Option State
  | .record keyid latencyUs => some { s with calls := s.calls ++ [⟨keyid, latencyUs, .bucket⟩] }
  | .proceed i => do
    let c ← s.calls[i]?
    let r ← s.stats.recordVerifiedSigner c
    some ⟨r.1, s.calls.set i { c with phase := r.2 }⟩

end PageSpeed.WebBotAuthCounter
