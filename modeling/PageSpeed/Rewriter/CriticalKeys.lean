import PageSpeed.Base.Ascii
import PageSpeed.Lib.SortedMap
import Mathlib.Data.List.Induction

/-!
`CriticalKeys` and `critical_finder_support_util.cc`: the support of keys that beacons report, and
the nonces of beacons that are awaited. A nonce is accepted once, within a minute of its issue.
-/

namespace PageSpeed

def constantTimeCompare (a b : GoogleString) : Bool :=
  let maxLen := if b.length < a.length then a.length else b.length
  let result := (List.range maxLen).foldl (fun result i => result ||| (a.getD i 0 ^^^ b.getD i 0)) (0 : UInt8)
  let lenDiff := UInt64.ofNat a.length ^^^ UInt64.ofNat b.length
  (List.range 8).foldl (fun result i => result ||| (lenDiff >>> UInt64.ofNat (8 * i)).toUInt8) result = 0

theorem or_eq_zero {a b : UInt8} : a ||| b = 0 ↔ a = 0 ∧ b = 0 := by
  rw [← UInt8.toBitVec_inj, ← UInt8.toBitVec_inj, ← UInt8.toBitVec_inj, UInt8.toBitVec_or]
  exact BitVec.or_eq_zero_iff

theorem foldl_or_eq_zero (f : ℕ → UInt8) (l : List ℕ) (init : UInt8) :
    l.foldl (fun result i => result ||| f i) init = 0 ↔ init = 0 ∧ ∀ i ∈ l, f i = 0 := by
  induction l generalizing init with
  | nil => simp
  | cons i l ih => rw [List.foldl_cons, ih, or_eq_zero, List.forall_mem_cons, and_assoc]

theorem eq_of_bytes {m n : ℕ} (k : ℕ) (hm : m < 256 ^ k) (hn : n < 256 ^ k)
    (h : ∀ i < k, m / 256 ^ i % 256 = n / 256 ^ i % 256) : m = n := by
  induction k generalizing m n with
  | zero => rw [Nat.lt_one_iff.mp hm, Nat.lt_one_iff.mp hn]
  | succ k ih =>
    have hlow := h 0 (Nat.succ_pos k)
    rw [Nat.pow_zero, Nat.div_one, Nat.div_one] at hlow
    have hhigh : m / 256 = n / 256 := by
      refine ih (Nat.div_lt_of_lt_mul (by rwa [Nat.mul_comm, ← Nat.pow_succ]))
        (Nat.div_lt_of_lt_mul (by rwa [Nat.mul_comm, ← Nat.pow_succ])) fun i hi => ?_
      rw [Nat.div_div_eq_div_mul, Nat.div_div_eq_div_mul, ← Nat.pow_succ']
      exact h (i + 1) (Nat.succ_lt_succ hi)
    omega

theorem toNat_byte (d : UInt64) {i : ℕ} (hi : i < 8) :
    ((d >>> UInt64.ofNat (8 * i)).toUInt8).toNat = d.toNat / 256 ^ i % 256 := by
  have hshift : (UInt64.ofNat (8 * i)).toNat % 64 = 8 * i := by
    rw [UInt64.toNat_ofNat', Nat.mod_eq_of_lt, Nat.mod_eq_of_lt] <;> omega
  rw [UInt64.toNat_toUInt8, UInt64.toNat_shiftRight, hshift, Nat.shiftRight_eq_div_pow, Nat.pow_mul]

theorem eq_zero_of_bytes {d : UInt64} (h : ∀ i < 8, (d >>> UInt64.ofNat (8 * i)).toUInt8 = 0) : d = 0 := by
  rw [← UInt64.toNat_inj]
  refine eq_of_bytes 8 d.toNat_lt (Nat.pow_pos (by decide)) fun i hi => ?_
  rw [← toNat_byte d hi, h i hi, UInt64.toNat_zero, Nat.zero_div]
  rfl

theorem constantTimeCompare_iff {a b : GoogleString} (ha : a.length < 2 ^ 64) (hb : b.length < 2 ^ 64) :
    constantTimeCompare a b = true ↔ a = b := by
  rw [constantTimeCompare, decide_eq_true_eq, foldl_or_eq_zero, foldl_or_eq_zero]
  refine ⟨fun ⟨⟨_, hchars⟩, hlength⟩ => ?_, ?_⟩
  · have hdiff := eq_zero_of_bytes fun i hi => hlength i (List.mem_range.mpr hi)
    rw [UInt64.xor_eq_zero_iff, ← UInt64.toNat_inj, UInt64.toNat_ofNat', UInt64.toNat_ofNat', Nat.mod_eq_of_lt ha,
      Nat.mod_eq_of_lt hb] at hdiff
    refine List.ext_getElem hdiff fun i hia hib => ?_
    have hchar := hchars i (List.mem_range.mpr (by split_ifs <;> assumption))
    rw [UInt8.xor_eq_zero_iff, List.getD_eq_getElem _ _ hia, List.getD_eq_getElem _ _ hib] at hchar
    exact hchar
  · rintro rfl
    exact ⟨⟨rfl, fun i _ => UInt8.xor_self⟩, fun i _ => by rw [UInt64.xor_self, UInt64.zero_shiftRight]; rfl⟩
namespace Critical

structure KeyEvidence where
  key : GoogleString
  support : ℤ

structure PendingNonce where
  timestampMs : Option ℤ := none
  nonce : Option GoogleString := none

structure CriticalKeys where
  nextBeaconTimestampMs : Option ℤ := none
  keyEvidence : List KeyEvidence := []
  pendingNonce : List PendingNonce := []
  maximumPossibleSupport : Option ℤ := none
  validBeaconsReceived : ℤ := 0
  noncesRecentlyExpired : ℤ := 0

/-! Support. -/

abbrev SupportMap := SortedMap GoogleString ℤ

/-- Keys in a `std::set`. -/
abbrev StringSet := { keys : List GoogleString // keys.Nodup }

def kint32max : ℤ := 2147483647

def saturatingAddTo (addend dest : ℤ) : ℤ := if kint32max < dest + addend then kint32max else toInt32 (dest + addend)

def addSupport (m : SupportMap) (key : GoogleString) (addend : ℤ) : SupportMap :=
  (m.insert (fun a b => decide (a < b)) key 0).modify key (saturatingAddTo addend)

def convertCriticalKeysProtoToSupportMap (criticalKeys : CriticalKeys) : SupportMap :=
  criticalKeys.keyEvidence.foldl (fun m evidence =>
    if evidence.key = [] then m else addSupport m evidence.key evidence.support) SortedMap.empty

def writeSupportMapToCriticalKeysProto (m : SupportMap) (criticalKeys : CriticalKeys) : CriticalKeys :=
  { criticalKeys with keyEvidence := m.entries.map fun entry => { key := entry.1, support := entry.2 } }

/-- Support times `k / (k + 1)`. -/
def decay (supportInterval supportValue : ℤ) : ℤ :=
  toInt32 ((supportValue * supportInterval).tdiv (supportInterval + 1))

def decaySupportMap (supportInterval : ℤ) (m : SupportMap) : SupportMap :=
  m.filterMap fun support =>
    if decay supportInterval support = 0 ∧ 0 < support then none else some (decay supportInterval support)

def addPriorSupport (m : SupportMap) (key : GoogleString) (addend : ℤ) : SupportMap :=
  m.modify key (saturatingAddTo addend)

def decayedMaximum (supportInterval : ℤ) (m : SupportMap) : Option ℤ → ℤ
  | some support => decay supportInterval support
  | none => (m.entries.map Prod.snd).max?.getD 0

def updateCriticalKeys (requirePriorSupport : Bool) (newSet : StringSet) (supportValue : ℤ)
    (criticalKeys : CriticalKeys) : CriticalKeys :=
  let supportMap := decaySupportMap supportValue (convertCriticalKeysProtoToSupportMap criticalKeys)
  let maximumSupport := decayedMaximum supportValue supportMap criticalKeys.maximumPossibleSupport
  let supportMap := newSet.1.foldl (fun m key =>
    if requirePriorSupport then addPriorSupport m key supportValue else addSupport m key supportValue) supportMap
  writeSupportMapToCriticalKeysProto supportMap { criticalKeys with
    maximumPossibleSupport := some (saturatingAddTo supportValue maximumSupport)
    validBeaconsReceived := criticalKeys.validBeaconsReceived + 1
    noncesRecentlyExpired := 0 }

def updateCandidateSupport (matched : StringSet) (supportValue : ℤ) (criticalKeys : CriticalKeys) : CriticalKeys :=
  let supportMap := (convertCriticalKeysProtoToSupportMap criticalKeys).filterMap fun support =>
    some (decay supportValue support)
  let maximumSupport := (criticalKeys.maximumPossibleSupport.map (decay supportValue)).getD 0
  let newlyMatching := matched.1.any fun key => supportMap.get key = some 0
  writeSupportMapToCriticalKeysProto (matched.1.foldl (addPriorSupport · · supportValue) supportMap)
    { criticalKeys with
      maximumPossibleSupport := some (saturatingAddTo supportValue maximumSupport)
      nextBeaconTimestampMs := if newlyMatching then none else criticalKeys.nextBeaconTimestampMs
      validBeaconsReceived := if newlyMatching then 1 else criticalKeys.validBeaconsReceived + 1
      noncesRecentlyExpired := 0 }

def updateCandidateKeys (keys : StringSet) (clearRebeaconTimestamp : Bool) (proto : CriticalKeys) :
    Bool × CriticalKeys :=
  let supportMap := convertCriticalKeysProtoToSupportMap proto
  if keys.1.any fun key => (supportMap.get key).isNone then
    (true, writeSupportMapToCriticalKeysProto
      (keys.1.foldl (fun m key => m.insert (fun a b => decide (a < b)) key 0) supportMap)
      { proto with
        validBeaconsReceived := 0
        nextBeaconTimestampMs := if clearRebeaconTimestamp then none else proto.nextBeaconTimestampMs })
  else (false, proto)

/-! Nonces. -/

def kNonceSize : ℕ := 11

def kBeaconTimeoutIntervalMs : ℤ := 60 * 1000

def valueBytes (value : UInt64) : GoogleString :=
  (List.range 8).map fun i => (value >>> UInt64.ofNat (8 * i)).toUInt8

def PendingNonce.expired (now : ℤ) (entry : PendingNonce) : Bool :=
  entry.nonce.isSome && entry.timestampMs.getD 0 + kBeaconTimeoutIntervalMs < now

def clearInvalidNonces (now : ℤ) (criticalKeys : CriticalKeys) : CriticalKeys :=
  let entries := criticalKeys.pendingNonce.map fun entry => if entry.expired now then {} else entry
  { criticalKeys with
    pendingNonce := if entries.any (·.nonce.isSome) then entries else []
    noncesRecentlyExpired :=
      criticalKeys.noncesRecentlyExpired + criticalKeys.pendingNonce.countP (PendingNonce.expired now) }

def occupy (pending : PendingNonce) : List PendingNonce → List PendingNonce
  | [] => [pending]
  | entry :: entries => if entry.nonce.isSome then entry :: occupy pending entries else pending :: entries

def nonceOf (web64Encode : GoogleString → GoogleString) (value : UInt64) : GoogleString :=
  (web64Encode (valueBytes value)).take kNonceSize

def addNonceToCriticalSelectors (web64Encode : GoogleString → GoogleString) (timestamp : ℤ) (value : UInt64)
    (criticalKeys : CriticalKeys) : CriticalKeys :=
  let criticalKeys := clearInvalidNonces timestamp criticalKeys
  { criticalKeys with
    pendingNonce :=
      occupy { timestampMs := some timestamp, nonce := some (nonceOf web64Encode value) } criticalKeys.pendingNonce }

def release (nonce : GoogleString) : List PendingNonce → Option (List PendingNonce)
  | [] => none
  | entry :: entries =>
    if constantTimeCompare nonce (entry.nonce.getD []) then some ({} :: entries)
    else (release nonce entries).map (entry :: ·)

def validateAndExpireNonce (now : ℤ) (nonce : GoogleString) (criticalKeys : CriticalKeys) : Bool × CriticalKeys :=
  if nonce = [] ∨ kNonceSize < nonce.length then (false, criticalKeys)
  else
    let criticalKeys := clearInvalidNonces now criticalKeys
    match release nonce criticalKeys.pendingNonce with
    | none => (false, criticalKeys)
    | some entries => (true, { criticalKeys with pendingNonce := entries })

/-! The nonces that are awaited. -/

def outstanding (entries : List PendingNonce) : List (ℤ × GoogleString) :=
  entries.filterMap fun entry => entry.nonce.map fun nonce => (entry.timestampMs.getD 0, nonce)

theorem outstanding_free {entry : PendingNonce} (h : entry.nonce = none) (entries : List PendingNonce) :
    outstanding (entry :: entries) = outstanding entries := by
  rw [outstanding, List.filterMap_cons_none (by rw [h]; rfl), outstanding]

variable {nonce : GoogleString}

theorem outstanding_held {entry : PendingNonce} (h : entry.nonce = some nonce) (entries : List PendingNonce) :
    outstanding (entry :: entries) = (entry.timestampMs.getD 0, nonce) :: outstanding entries := by
  rw [outstanding, List.filterMap_cons, h, Option.map_some, outstanding]

theorem outstanding_clear (now : ℤ) (criticalKeys : CriticalKeys) :
    outstanding (clearInvalidNonces now criticalKeys).pendingNonce =
      (outstanding criticalKeys.pendingNonce).filter fun p => now ≤ p.1 + kBeaconTimeoutIntervalMs := by
  have hmap : outstanding (criticalKeys.pendingNonce.map fun entry => if entry.expired now then {} else entry) =
      (outstanding criticalKeys.pendingNonce).filter fun p => now ≤ p.1 + kBeaconTimeoutIntervalMs := by
    induction criticalKeys.pendingNonce with
    | nil => rfl
    | cons entry entries ih =>
      rw [List.map_cons]
      cases hnonce : entry.nonce with
      | none =>
        have hexpired : entry.expired now = false := by
          rw [PendingNonce.expired, hnonce]
          rfl
        rw [hexpired, if_neg Bool.false_ne_true, outstanding_free hnonce, outstanding_free hnonce, ih]
      | some nonce =>
        have hexpired : entry.expired now = decide (entry.timestampMs.getD 0 + kBeaconTimeoutIntervalMs < now) := by
          rw [PendingNonce.expired, hnonce]
          rfl
        rw [outstanding_held hnonce, hexpired]
        by_cases hlate : entry.timestampMs.getD 0 + kBeaconTimeoutIntervalMs < now
        · rw [if_pos (decide_eq_true hlate), outstanding_free rfl, ih, List.filter_cons_of_neg (by simpa using hlate)]
        · rw [if_neg (by simpa using hlate), outstanding_held hnonce, ih,
            List.filter_cons_of_pos (by simpa using hlate)]
  rw [clearInvalidNonces]
  dsimp only
  split_ifs with hany
  · exact hmap
  · rw [← hmap, outstanding, outstanding, List.filterMap_nil, eq_comm, List.filterMap_eq_nil_iff]
    intro entry hentry
    rw [Option.map_eq_none_iff]
    by_contra hsome
    exact hany (List.any_eq_true.mpr ⟨entry, hentry, Option.ne_none_iff_isSome.mp hsome⟩)

theorem outstanding_occupy (timestamp : ℤ) (nonce : GoogleString) (entries : List PendingNonce) :
    (outstanding (occupy { timestampMs := some timestamp, nonce := some nonce } entries)).Perm
      ((timestamp, nonce) :: outstanding entries) := by
  induction entries with
  | nil => exact List.Perm.refl _
  | cons entry entries ih =>
    rw [occupy]
    split_ifs with hsome
    · obtain ⟨held, hheld⟩ := Option.isSome_iff_exists.mp hsome
      rw [outstanding_held hheld, outstanding_held hheld]
      exact (ih.cons _).trans (List.Perm.swap _ _ _)
    · rw [Bool.not_eq_true, Option.isSome_eq_false_iff, Option.isNone_iff_eq_none] at hsome
      rw [outstanding_held rfl, outstanding_free hsome]
      exact List.Perm.refl _

theorem release_cases (hnonce : nonce ≠ []) (hlt : nonce.length < 2 ^ 64)
    {entries : List PendingNonce} (hentries : ∀ p ∈ outstanding entries, p.2.length < 2 ^ 64) :
    release nonce entries = none ∧ (∀ p ∈ outstanding entries, p.2 ≠ nonce) ∨
      ∃ entries' timestamp, release nonce entries = some entries' ∧
        (outstanding entries).Perm ((timestamp, nonce) :: outstanding entries') := by
  induction entries with
  | nil => exact Or.inl ⟨rfl, fun p hp => absurd hp List.not_mem_nil⟩
  | cons entry entries ih =>
    rw [release]
    cases hheld : entry.nonce with
    | none =>
      rw [outstanding_free hheld] at hentries ⊢
      have hcompare : ¬ constantTimeCompare nonce (Option.none.getD []) = true := by
        rw [Option.getD_none,
          constantTimeCompare_iff hlt (show ([] : GoogleString).length < 2 ^ 64 from Nat.two_pow_pos 64)]
        exact hnonce
      rw [if_neg hcompare]
      obtain ⟨hnone, hall⟩ | ⟨entries', timestamp, hsome, hperm⟩ := ih hentries
      · exact Or.inl ⟨by rw [hnone]; rfl, hall⟩
      · refine Or.inr ⟨entry :: entries', timestamp, by rw [hsome]; rfl, ?_⟩
        rw [outstanding_free hheld]
        exact hperm
    | some held =>
      rw [outstanding_held hheld, List.forall_mem_cons] at hentries
      rw [outstanding_held hheld, Option.getD_some]
      by_cases hcompare : nonce = held
      · rw [if_pos ((constantTimeCompare_iff hlt hentries.1).mpr hcompare)]
        refine Or.inr ⟨{} :: entries, entry.timestampMs.getD 0, rfl, ?_⟩
        rw [outstanding_free rfl, hcompare]
      · rw [if_neg ((constantTimeCompare_iff hlt hentries.1).not.mpr hcompare)]
        obtain ⟨hnone, hall⟩ | ⟨entries', timestamp, hsome, hperm⟩ := ih hentries.2
        · exact Or.inl ⟨by rw [hnone]; rfl, List.forall_mem_cons.mpr ⟨fun h => hcompare h.symm, hall⟩⟩
        · refine Or.inr ⟨entry :: entries', timestamp, by rw [hsome]; rfl, ?_⟩
          rw [outstanding_held hheld]
          exact (hperm.cons _).trans (List.Perm.swap _ _ _)

theorem valueBytes_injective : Function.Injective valueBytes := by
  intro v w h
  rw [← UInt64.toNat_inj]
  refine eq_of_bytes 8 v.toNat_lt w.toNat_lt fun i hi => ?_
  have hbyte := congrArg (fun bytes => (bytes.getD i 0).toNat) h
  simp only [valueBytes, List.getD_eq_getElem?_getD, List.getElem?_map, List.getElem?_range hi, Option.map_some,
    Option.getD_some] at hbyte
  rw [← toNat_byte v hi, ← toNat_byte w hi, hbyte]

structure Web64 (web64Encode : GoogleString → GoogleString) : Prop where
  injective : ∀ a b : GoogleString, a.length = 8 → b.length = 8 →
    (web64Encode a).take kNonceSize = (web64Encode b).take kNonceSize → a = b
  nonempty : ∀ a : GoogleString, a.length = 8 → web64Encode a ≠ []

theorem length_valueBytes (value : UInt64) : (valueBytes value).length = 8 := by
  rw [valueBytes, List.length_map, List.length_range]

theorem Web64.nonceOf_injective {web64Encode : GoogleString → GoogleString} (hweb : Web64 web64Encode) {v w : UInt64}
    (h : nonceOf web64Encode v = nonceOf web64Encode w) : v = w :=
  valueBytes_injective (hweb.injective _ _ (length_valueBytes v) (length_valueBytes w) h)

theorem Web64.nonceOf_ne_nil {web64Encode : GoogleString → GoogleString} (hweb : Web64 web64Encode) (value : UInt64) :
    nonceOf web64Encode value ≠ [] := by
  intro hnil
  obtain hsize | hempty := List.take_eq_nil_iff.mp hnil
  · cases hsize
  · exact hweb.nonempty _ (length_valueBytes value) hempty

theorem length_nonceOf (web64Encode : GoogleString → GoogleString) (value : UInt64) :
    (nonceOf web64Encode value).length ≤ kNonceSize := List.length_take_le _ _

/-! Runs of issues and uses. -/

inductive Event
  | issue (now : ℤ) (value : UInt64)
  | validate (now : ℤ) (nonce : GoogleString)

def Event.time : Event → ℤ
  | .issue now _ => now
  | .validate now _ => now

def Event.value? : Event → Option UInt64
  | .issue _ value => some value
  | .validate _ _ => none

variable (web64Encode : GoogleString → GoogleString)

def Event.apply (criticalKeys : CriticalKeys) : Event → CriticalKeys
  | .issue now value => addNonceToCriticalSelectors web64Encode now value criticalKeys
  | .validate now nonce => (validateAndExpireNonce now nonce criticalKeys).2

variable (start : CriticalKeys)

def after (events : List Event) : CriticalKeys := events.foldl (Event.apply web64Encode) start

def accepts (events : List Event) (now : ℤ) (nonce : GoogleString) : Bool :=
  (validateAndExpireNonce now nonce (after web64Encode start events)).1

def Accepted (events : List Event) (nonce : GoogleString) : Prop :=
  ∃ front now back, events = front ++ .validate now nonce :: back ∧ accepts web64Encode start front now nonce = true

variable {web64Encode start}

variable {events : List Event}

theorem accepted_concat {event : Event} :
    Accepted web64Encode start (events ++ [event]) nonce ↔ Accepted web64Encode start events nonce ∨
      ∃ now, event = .validate now nonce ∧ accepts web64Encode start events now nonce = true := by
  constructor
  · rintro ⟨front, now, back, hevents, haccepts⟩
    obtain rfl | ⟨back, last, rfl⟩ := back.eq_nil_or_concat'
    · obtain ⟨rfl, hlast⟩ := List.append_inj' hevents rfl
      exact Or.inr ⟨now, List.singleton_inj.mp hlast, haccepts⟩
    · rw [← List.cons_append, ← List.append_assoc] at hevents
      obtain ⟨rfl, -⟩ := List.append_inj' hevents rfl
      exact Or.inl ⟨front, now, back, rfl, haccepts⟩
  · rintro (⟨front, now, back, rfl, haccepts⟩ | ⟨now, rfl, haccepts⟩)
    · exact ⟨front, now, back ++ [event], by simp, haccepts⟩
    · exact ⟨events, now, [], rfl, haccepts⟩

def live (now : ℤ) (p : ℤ × GoogleString) : Bool := now ≤ p.1 + kBeaconTimeoutIntervalMs

theorem validate_cases {criticalKeys : CriticalKeys} (now : ℤ) (nonce : GoogleString)
    (hheld : ∀ p ∈ outstanding criticalKeys.pendingNonce, p.2 ≠ [] ∧ p.2.length ≤ kNonceSize) :
    (validateAndExpireNonce now nonce criticalKeys).1 = false ∧
        (∀ p ∈ outstanding criticalKeys.pendingNonce, live now p = true → p.2 ≠ nonce) ∧
        (outstanding (validateAndExpireNonce now nonce criticalKeys).2.pendingNonce).Sublist
          (outstanding criticalKeys.pendingNonce) ∧
        (∀ p ∈ outstanding criticalKeys.pendingNonce, live now p = true →
          p ∈ outstanding (validateAndExpireNonce now nonce criticalKeys).2.pendingNonce) ∨
      (validateAndExpireNonce now nonce criticalKeys).1 = true ∧ ∃ timestamp,
        ((outstanding criticalKeys.pendingNonce).filter (live now)).Perm
          ((timestamp, nonce) :: outstanding (validateAndExpireNonce now nonce criticalKeys).2.pendingNonce) := by
  have hclear : outstanding (clearInvalidNonces now criticalKeys).pendingNonce =
      (outstanding criticalKeys.pendingNonce).filter (live now) := outstanding_clear now criticalKeys
  rw [validateAndExpireNonce]
  split_ifs with hbogus
  · refine Or.inl ⟨rfl, fun p hp _ heq => ?_, List.Sublist.refl _, fun p hp _ => hp⟩
    rw [← heq] at hbogus
    obtain hnil | hlong := hbogus
    · exact (hheld p hp).1 hnil
    · exact Nat.not_le.mpr hlong (hheld p hp).2
  · rw [not_or, Nat.not_lt] at hbogus
    have hsize : kNonceSize < 2 ^ 64 := by decide
    dsimp only
    obtain ⟨hnone, hall⟩ | ⟨entries, timestamp, hsome, hperm⟩ := @release_cases nonce hbogus.1
      (Nat.lt_of_le_of_lt hbogus.2 hsize) (clearInvalidNonces now criticalKeys).pendingNonce
      fun p hp => Nat.lt_of_le_of_lt (hheld p (List.mem_of_mem_filter (hclear ▸ hp))).2 hsize
    · rw [hclear] at hall
      rw [hnone]
      exact Or.inl ⟨rfl, fun p hp hlive => hall p (List.mem_filter.mpr ⟨hp, hlive⟩), hclear ▸ List.filter_sublist,
        fun p hp hlive => hclear ▸ List.mem_filter.mpr ⟨hp, hlive⟩⟩
    · rw [hclear] at hperm
      rw [hsome]
      exact Or.inr ⟨rfl, timestamp, hperm⟩

structure Faithful (web64Encode : GoogleString → GoogleString) (start : CriticalKeys) (events : List Event) : Prop where
  sound : ∀ p ∈ outstanding (after web64Encode start events).pendingNonce,
    ∃ value, .issue p.1 value ∈ events ∧ nonceOf web64Encode value = p.2 ∧ ¬ Accepted web64Encode start events p.2
  complete : ∀ timestamp value, .issue timestamp value ∈ events →
    ¬ Accepted web64Encode start events (nonceOf web64Encode value) →
    (∀ event ∈ events, event.time ≤ timestamp + kBeaconTimeoutIntervalMs) →
      (timestamp, nonceOf web64Encode value) ∈ outstanding (after web64Encode start events).pendingNonce
  nodup : ((outstanding (after web64Encode start events).pendingNonce).map Prod.snd).Nodup
  accepted : ∀ nonce, Accepted web64Encode start events nonce →
    ∃ timestamp value, .issue timestamp value ∈ events ∧ nonceOf web64Encode value = nonce

theorem Faithful.held (hweb : Web64 web64Encode) (h : Faithful web64Encode start events) :
    ∀ p ∈ outstanding (after web64Encode start events).pendingNonce, p.2 ≠ [] ∧ p.2.length ≤ kNonceSize := by
  intro p hp
  obtain ⟨value, -, hvalue, -⟩ := h.sound p hp
  rw [← hvalue]
  exact ⟨hweb.nonceOf_ne_nil value, length_nonceOf _ value⟩

theorem Faithful.issue (hweb : Web64 web64Encode) (h : Faithful web64Encode start events)
    {now : ℤ} {value : UInt64} (hnew : ∀ timestamp, .issue timestamp value ∉ events) :
    Faithful web64Encode start (events ++ [.issue now value]) := by
  have hafter : after web64Encode start (events ++ [.issue now value]) =
      addNonceToCriticalSelectors web64Encode now value (after web64Encode start events) := by
    rw [after, List.foldl_concat, ← after, Event.apply]
  have hperm : (outstanding (after web64Encode start (events ++ [.issue now value])).pendingNonce).Perm
      ((now, nonceOf web64Encode value) ::
        (outstanding (after web64Encode start events).pendingNonce).filter (live now)) := by
    rw [hafter, addNonceToCriticalSelectors]
    have hclear : outstanding (clearInvalidNonces now (after web64Encode start events)).pendingNonce =
        (outstanding (after web64Encode start events).pendingNonce).filter (live now) := outstanding_clear now _
    rw [← hclear]
    exact outstanding_occupy now _ _
  have haccepted : ∀ nonce, Accepted web64Encode start (events ++ [.issue now value]) nonce ↔
      Accepted web64Encode start events nonce := by
    intro nonce
    rw [accepted_concat, or_iff_left]
    rintro ⟨now', heq, -⟩
    cases heq
  have hfresh : ¬ Accepted web64Encode start events (nonceOf web64Encode value) := by
    intro hacc
    obtain ⟨timestamp, value', hissue, hvalue⟩ := h.accepted _ hacc
    rw [hweb.nonceOf_injective hvalue] at hissue
    exact hnew timestamp hissue
  refine ⟨fun p hp => ?_, fun timestamp value' hissue hnot htimes => ?_, ?_, fun nonce hacc => ?_⟩
  · obtain rfl | hp := List.mem_cons.mp (hperm.mem_iff.mp hp)
    · exact ⟨value, by simp, rfl, by rwa [haccepted]⟩
    · obtain ⟨value', hissue, hvalue, hnot⟩ := h.sound p (List.mem_of_mem_filter hp)
      exact ⟨value', List.mem_append_left _ hissue, hvalue, by rwa [haccepted]⟩
  · rw [haccepted] at hnot
    rw [hperm.mem_iff]
    obtain hissue | hissue := List.mem_append.mp hissue
    · have hlive := htimes (.issue now value) (by simp)
      exact List.mem_cons_of_mem _ (List.mem_filter.mpr ⟨h.complete timestamp value' hissue hnot fun event hevent =>
        htimes event (List.mem_append_left _ hevent), decide_eq_true hlive⟩)
    · cases List.mem_singleton.mp hissue
      exact List.mem_cons_self
  · rw [(hperm.map Prod.snd).nodup_iff, List.map_cons, List.nodup_cons]
    refine ⟨fun hmem => ?_, h.nodup.sublist (List.filter_sublist.map _)⟩
    obtain ⟨p, hp, heq⟩ := List.mem_map.mp hmem
    obtain ⟨value', hissue, hvalue, -⟩ := h.sound p (List.mem_of_mem_filter hp)
    rw [hweb.nonceOf_injective (hvalue.trans heq)] at hissue
    exact hnew _ hissue
  · obtain ⟨timestamp, value', hissue, hvalue⟩ := h.accepted nonce ((haccepted nonce).mp hacc)
    exact ⟨timestamp, value', List.mem_append_left _ hissue, hvalue⟩

theorem Faithful.validate (hweb : Web64 web64Encode) (h : Faithful web64Encode start events)
    (now : ℤ) (nonce : GoogleString) : Faithful web64Encode start (events ++ [.validate now nonce]) := by
  have hafter : after web64Encode start (events ++ [.validate now nonce]) =
      (validateAndExpireNonce now nonce (after web64Encode start events)).2 := by
    rw [after, List.foldl_concat, ← after, Event.apply]
  have haccepted : ∀ other, Accepted web64Encode start (events ++ [.validate now nonce]) other ↔
      Accepted web64Encode start events other ∨
        other = nonce ∧ accepts web64Encode start events now nonce = true := by
    intro other
    rw [accepted_concat]
    refine or_congr_right ⟨?_, ?_⟩
    · rintro ⟨now', heq, haccepts⟩
      cases heq
      exact ⟨rfl, haccepts⟩
    · rintro ⟨rfl, haccepts⟩
      exact ⟨now, rfl, haccepts⟩
  obtain ⟨hfalse, -, hsublist, hlive⟩ | ⟨htrue, timestamp, hperm⟩ := validate_cases now nonce
    (h.held hweb)
  · have hsame : ∀ other, Accepted web64Encode start (events ++ [.validate now nonce]) other ↔
        Accepted web64Encode start events other := by
      intro other
      rw [haccepted, or_iff_left]
      rintro ⟨-, haccepts⟩
      rw [accepts, hfalse] at haccepts
      cases haccepts
    rw [← hafter] at hsublist hlive
    refine ⟨fun p hp => ?_, fun timestamp value hissue hnot htimes => ?_, h.nodup.sublist (hsublist.map _),
      fun other hacc => ?_⟩
    · obtain ⟨value, hissue, hvalue, hnot⟩ := h.sound p (hsublist.subset hp)
      exact ⟨value, List.mem_append_left _ hissue, hvalue, by rwa [hsame]⟩
    · rw [hsame] at hnot
      have hissue' : .issue timestamp value ∈ events :=
        (List.mem_append.mp hissue).resolve_right fun hlast => by cases List.mem_singleton.mp hlast
      exact hlive _ (h.complete timestamp value hissue' hnot fun event hevent =>
        htimes event (List.mem_append_left _ hevent)) (decide_eq_true (htimes (.validate now nonce) (by simp)))
    · obtain ⟨timestamp, value, hissue, hvalue⟩ := h.accepted other ((hsame other).mp hacc)
      exact ⟨timestamp, value, List.mem_append_left _ hissue, hvalue⟩
  · rw [← hafter] at hperm
    have hnodup := h.nodup.sublist (List.filter_sublist (p := live now) |>.map Prod.snd)
    rw [(hperm.map Prod.snd).nodup_iff, List.map_cons, List.nodup_cons] at hnodup
    have hheld : ∀ p, p ∈ (timestamp, nonce) ::
        outstanding (after web64Encode start (events ++ [.validate now nonce])).pendingNonce →
        p ∈ outstanding (after web64Encode start events).pendingNonce := fun p hp =>
      List.mem_of_mem_filter (hperm.mem_iff.mpr hp)
    refine ⟨fun p hp => ?_, fun timestamp' value hissue hnot htimes => ?_, hnodup.2, fun other hacc => ?_⟩
    · obtain ⟨value, hissue, hvalue, hnot⟩ := h.sound p (hheld p (List.mem_cons_of_mem _ hp))
      refine ⟨value, List.mem_append_left _ hissue, hvalue, ?_⟩
      rw [haccepted]
      rintro (hacc | ⟨heq, -⟩)
      · exact hnot hacc
      · exact hnodup.1 (List.mem_map.mpr ⟨p, hp, heq⟩)
    · rw [haccepted, not_or] at hnot
      have hissue' : .issue timestamp' value ∈ events :=
        (List.mem_append.mp hissue).resolve_right fun hlast => by cases List.mem_singleton.mp hlast
      have hmem := h.complete timestamp' value hissue' hnot.1 fun event hevent =>
        htimes event (List.mem_append_left _ hevent)
      have hlive := decide_eq_true (htimes (.validate now nonce) (by simp))
      obtain heq | hrest := List.mem_cons.mp (hperm.mem_iff.mp (List.mem_filter.mpr ⟨hmem, hlive⟩))
      · exact absurd ⟨congrArg Prod.snd heq, htrue⟩ hnot.2
      · exact hrest
    · obtain hacc | ⟨rfl, -⟩ := (haccepted other).mp hacc
      · obtain ⟨timestamp', value, hissue, hvalue⟩ := h.accepted other hacc
        exact ⟨timestamp', value, List.mem_append_left _ hissue, hvalue⟩
      · obtain ⟨value, hissue, hvalue, -⟩ := h.sound _ (hheld _ List.mem_cons_self)
        exact ⟨timestamp, value, List.mem_append_left _ hissue, hvalue⟩

theorem faithful (hweb : Web64 web64Encode) (hstart : start.pendingNonce = [])
    (hnodup : (events.filterMap Event.value?).Nodup) : Faithful web64Encode start events := by
  induction events using List.reverseRecOn with
  | nil =>
    have hnone : ∀ nonce, ¬ Accepted web64Encode start [] nonce := by
      rintro nonce ⟨front, now, back, hevents, -⟩
      exact absurd hevents.symm (List.append_ne_nil_of_right_ne_nil _ (List.cons_ne_nil _ _))
    have hempty : outstanding (after web64Encode start []).pendingNonce = [] := by
      change outstanding start.pendingNonce = []
      rw [hstart]
      rfl
    refine ⟨fun p hp => ?_, fun _ _ hissue => absurd hissue List.not_mem_nil, ?_, fun nonce hacc =>
      absurd hacc (hnone nonce)⟩
    · rw [hempty] at hp
      cases hp
    · rw [hempty]
      exact List.nodup_nil
  | append_singleton events event ih =>
    rw [List.filterMap_append, List.nodup_append] at hnodup
    obtain ⟨hbefore, -, hdistinct⟩ := hnodup
    cases event with
    | issue now value =>
      refine (ih hbefore).issue hweb fun timestamp hissue => ?_
      exact hdistinct value (List.mem_filterMap.mpr ⟨_, hissue, rfl⟩) value List.mem_cons_self rfl
    | validate now nonce => exact (ih hbefore).validate hweb now nonce

theorem accepts_iff (hweb : Web64 web64Encode) (hstart : start.pendingNonce = [])
    (hnodup : (events.filterMap Event.value?).Nodup) (now : ℤ) (htimes : ∀ event ∈ events, event.time ≤ now)
    (nonce : GoogleString) :
    accepts web64Encode start events now nonce = true ↔
      (∃ timestamp value, .issue timestamp value ∈ events ∧ nonceOf web64Encode value = nonce ∧
        now ≤ timestamp + kBeaconTimeoutIntervalMs) ∧ ¬ Accepted web64Encode start events nonce := by
  have hfaithful := faithful hweb hstart hnodup
  rw [accepts]
  obtain ⟨hfalse, hnone, -, -⟩ | ⟨htrue, timestamp, hperm⟩ := validate_cases now nonce
    (hfaithful.held hweb)
  · rw [hfalse]
    refine iff_of_false Bool.false_ne_true ?_
    rintro ⟨⟨timestamp, value, hissue, rfl, hlive⟩, hnot⟩
    exact hnone _ (hfaithful.complete timestamp value hissue hnot fun event hevent =>
      Int.le_trans (htimes event hevent) hlive) (decide_eq_true hlive) rfl
  · rw [htrue]
    obtain ⟨hmem, hlive⟩ := List.mem_filter.mp (hperm.mem_iff.mpr List.mem_cons_self)
    obtain ⟨value, hissue, hvalue, hnot⟩ := hfaithful.sound _ hmem
    exact iff_of_true rfl ⟨⟨timestamp, value, hissue, hvalue, of_decide_eq_true hlive⟩, hnot⟩

/-- In every run at times that do not go back a nonce is accepted once and in time, and issuing another does not
invalidate it. -/
theorem nonces_are_single_use (hweb : Web64 web64Encode) (hstart : start.pendingNonce = []) (events : List Event)
    (hsorted : events.Pairwise fun a b => a.time ≤ b.time) (hnodup : (events.filterMap Event.value?).Nodup) :
    (∀ front now nonce back, events = front ++ .validate now nonce :: back →
      (accepts web64Encode start front now nonce = true ↔
        (∃ timestamp value, .issue timestamp value ∈ front ∧ nonceOf web64Encode value = nonce ∧
          now ≤ timestamp + kBeaconTimeoutIntervalMs) ∧ ¬ Accepted web64Encode start front nonce)) ∧
      ∀ front timestamp value back, events = front ++ .issue timestamp value :: back →
        ∀ now nonce, timestamp ≤ now → nonce ≠ nonceOf web64Encode value →
          accepts web64Encode start (front ++ [.issue timestamp value]) now nonce =
            accepts web64Encode start front now nonce := by
  constructor
  · rintro front now nonce back rfl
    rw [List.filterMap_append] at hnodup
    exact accepts_iff hweb hstart (hnodup.sublist (List.sublist_append_left _ _)) now
      (fun event hevent => (List.pairwise_append.mp hsorted).2.2 event hevent _ List.mem_cons_self) nonce
  · rintro front timestamp value back rfl now nonce hnow hother
    have htimes : ∀ event ∈ front, event.time ≤ now := fun event hevent =>
      Int.le_trans ((List.pairwise_append.mp hsorted).2.2 event hevent _ List.mem_cons_self) hnow
    have hissued : ((front ++ [Event.issue timestamp value]).filterMap Event.value?).Nodup := by
      refine hnodup.sublist (List.Sublist.filterMap _ ?_)
      exact List.Sublist.append_left (List.singleton_sublist.mpr List.mem_cons_self) front
    have hfront : (front.filterMap Event.value?).Nodup := by
      rw [List.filterMap_append] at hissued
      exact hissued.sublist (List.sublist_append_left _ _)
    rw [Bool.eq_iff_iff, accepts_iff hweb hstart hfront now htimes, accepts_iff hweb hstart hissued now]
    · refine and_congr (exists_congr fun timestamp' => exists_congr fun value' => and_congr_left fun hvalue => ?_) ?_
      · refine ⟨fun hissue => (List.mem_append.mp hissue).resolve_right fun hlast => ?_, List.mem_append_left _⟩
        cases List.mem_singleton.mp hlast
        exact hother hvalue.1.symm
      · rw [accepted_concat, or_iff_left]
        rintro ⟨now', heq, -⟩
        cases heq
    · intro event hevent
      obtain hevent | hevent := List.mem_append.mp hevent
      · exact htimes event hevent
      · rw [List.mem_singleton.mp hevent]
        exact hnow

def web64Alphabet : GoogleString := ascii "ABCDEFGHIJKLMNOPQRSTUVWXYZabcdefghijklmnopqrstuvwxyz0123456789-_"

def web64Digits : ℕ → ℕ → GoogleString
  | 0, _ => []
  | m + 1, n => web64Digits m (n / 64) ++ [web64Alphabet.getD (n % 64) 0]

def bytesValue (bytes : GoogleString) : ℕ := bytes.foldl (fun n byte => 256 * n + byte.toNat) 0

def webSafeBase64Escape (bytes : GoogleString) : GoogleString :=
  let chars := (8 * bytes.length + 5) / 6
  web64Digits chars (bytesValue bytes * 2 ^ (6 * chars - 8 * bytes.length))

theorem length_web64Digits (m n : ℕ) : (web64Digits m n).length = m := by
  induction m generalizing n with
  | zero => rfl
  | succ m ih => rw [web64Digits, List.length_append, ih, List.length_singleton]

theorem web64Digits_injective {k : ℕ} {m n : ℕ} (hm : m < 64 ^ k) (hn : n < 64 ^ k)
    (h : web64Digits k m = web64Digits k n) : m = n := by
  induction k generalizing m n with
  | zero => rw [Nat.lt_one_iff.mp hm, Nat.lt_one_iff.mp hn]
  | succ k ih =>
    obtain ⟨hhigh, hlow⟩ := List.append_inj' h rfl
    have halphabet : ∀ a b : Fin 64, web64Alphabet.getD a.val 0 = web64Alphabet.getD b.val 0 → a = b := by
      decide +kernel
    have hdigit := halphabet ⟨m % 64, Nat.mod_lt m (by decide)⟩ ⟨n % 64, Nat.mod_lt n (by decide)⟩
      (List.singleton_inj.mp hlow)
    have hmod : m % 64 = n % 64 := congrArg Fin.val hdigit
    have hdiv := ih (Nat.div_lt_of_lt_mul (by rwa [Nat.mul_comm, ← Nat.pow_succ]))
      (Nat.div_lt_of_lt_mul (by rwa [Nat.mul_comm, ← Nat.pow_succ])) hhigh
    omega

theorem bytesValue_concat (bytes : GoogleString) (byte : UInt8) :
    bytesValue (bytes ++ [byte]) = 256 * bytesValue bytes + byte.toNat := by
  rw [bytesValue, List.foldl_concat, bytesValue]

theorem bytesValue_lt (bytes : GoogleString) : bytesValue bytes < 256 ^ bytes.length := by
  induction bytes using List.reverseRecOn with
  | nil => decide
  | append_singleton bytes byte ih =>
    have hbyte := byte.toNat_lt
    rw [bytesValue_concat, List.length_append, List.length_singleton, Nat.pow_succ]
    omega

theorem bytesValue_injective {a b : GoogleString} (hlength : a.length = b.length) (h : bytesValue a = bytesValue b) :
    a = b := by
  induction a using List.reverseRecOn generalizing b with
  | nil => exact (List.length_eq_zero_iff.mp hlength.symm).symm
  | append_singleton a c ih =>
    obtain rfl | ⟨b, d, rfl⟩ := b.eq_nil_or_concat'
    · simp at hlength
    · rw [bytesValue_concat, bytesValue_concat] at h
      have hc := c.toNat_lt
      have hd := d.toNat_lt
      rw [List.length_append, List.length_append, List.length_singleton, List.length_singleton] at hlength
      rw [ih (Nat.succ_inj.mp hlength) (by omega), UInt8.toNat_inj.mp (show c.toNat = d.toNat by omega)]

theorem web64_webSafeBase64Escape : Web64 webSafeBase64Escape where
  injective := by
    intro a b ha hb h
    have htake : ∀ c : GoogleString, c.length = 8 →
        (webSafeBase64Escape c).take kNonceSize = web64Digits 11 (bytesValue c * 4) := by
      intro c hc
      rw [webSafeBase64Escape, hc]
      exact List.take_of_length_le (Nat.le_of_eq (length_web64Digits 11 _))
    rw [htake a ha, htake b hb] at h
    have hlta := bytesValue_lt a
    have hltb := bytesValue_lt b
    rw [ha] at hlta
    rw [hb] at hltb
    have hvalue := web64Digits_injective (k := 11) (by omega) (by omega) h
    exact bytesValue_injective (ha.trans hb.symm) (by omega)
  nonempty := by
    intro a ha hnil
    have hlength := congrArg List.length hnil
    rw [webSafeBase64Escape, ha] at hlength
    exact absurd ((length_web64Digits 11 _).symm.trans hlength) (by decide)

theorem nonces_are_single_use_twice :
    accepts webSafeBase64Escape {} [.issue 0 7, .validate 5 (nonceOf webSafeBase64Escape 7)] 9
        (nonceOf webSafeBase64Escape 7) = true ↔
      (∃ timestamp value, .issue timestamp value ∈ [Event.issue 0 7, .validate 5 (nonceOf webSafeBase64Escape 7)] ∧
        nonceOf webSafeBase64Escape value = nonceOf webSafeBase64Escape 7 ∧
        9 ≤ timestamp + kBeaconTimeoutIntervalMs) ∧
        ¬ Accepted webSafeBase64Escape {} [.issue 0 7, .validate 5 (nonceOf webSafeBase64Escape 7)]
          (nonceOf webSafeBase64Escape 7) :=
  (nonces_are_single_use web64_webSafeBase64Escape rfl
    [.issue 0 7, .validate 5 (nonceOf webSafeBase64Escape 7), .validate 9 (nonceOf webSafeBase64Escape 7)]
    (by decide) (by decide)).1 _ 9 _ [] rfl

end Critical

end PageSpeed
