import PageSpeed.Rewriter.CriticalKeys
import Mathlib.Tactic.Linarith

/-!
Support over a history of beacons: it stays within the square of the interval, and a report adds to
what its key has, unless the key has decayed to the edge and must have had support before.
-/

namespace PageSpeed.Critical

variable {k : ℤ}

/-! Decay and addition as numbers. -/

variable {v top : ℤ} {m : SupportMap} {criticalKeys : CriticalKeys} {key : GoogleString}

theorem decay_eq (hk : 1 ≤ k) (hkk : k * k < 2 ^ 31) (hv : 0 ≤ v) (hvk : v ≤ k * k) :
    decay k v = v * k / (k + 1) := by
  have hnonneg : 0 ≤ v * k := Int.mul_nonneg hv (by omega)
  have hle : v * k / (k + 1) ≤ v :=
    Int.ediv_le_of_le_mul (by omega) (by nlinarith)
  have hdiv : 0 ≤ v * k / (k + 1) := Int.ediv_nonneg hnonneg (by omega)
  rw [decay, Int.tdiv_eq_ediv_of_nonneg hnonneg]
  exact toInt32_of_lt (by omega) (by omega)

theorem decay_nonneg (hk : 1 ≤ k) (hkk : k * k < 2 ^ 31) (hv : 0 ≤ v) (hvk : v ≤ k * k) : 0 ≤ decay k v := by
  rw [decay_eq hk hkk hv hvk]
  exact Int.ediv_nonneg (Int.mul_nonneg hv (by omega)) (by omega)

theorem decay_le (hk : 1 ≤ k) (hkk : k * k < 2 ^ 31) (hv : 0 ≤ v) (hvk : v ≤ k * k) : decay k v + k ≤ k * k := by
  rw [decay_eq hk hkk hv hvk]
  have hlt : v * k / (k + 1) < k * k - k + 1 := Int.ediv_lt_of_lt_mul (by omega) (by nlinarith)
  omega

theorem decay_mono (hk : 1 ≤ k) (hkk : k * k < 2 ^ 31) {w : ℤ} (hv : 0 ≤ v) (hvw : v ≤ w) (hw : w ≤ k * k) :
    decay k v ≤ decay k w := by
  rw [decay_eq hk hkk hv (Int.le_trans hvw hw), decay_eq hk hkk (Int.le_trans hv hvw) hw]
  exact Int.ediv_le_ediv (by omega) (Int.mul_le_mul_of_nonneg_right hvw (by omega))

theorem decay_eq_zero_iff (hk : 1 ≤ k) (hkk : k * k < 2 ^ 31) (hv : 0 < v) (hvk : v ≤ k * k) :
    decay k v = 0 ↔ v = 1 := by
  rw [decay_eq hk hkk (by omega) hvk]
  constructor
  · intro hzero
    by_contra hne
    have htwo : 2 ≤ v := by omega
    have hone : 1 ≤ v * k / (k + 1) := Int.le_ediv_of_mul_le (by omega) (by nlinarith)
    omega
  · rintro rfl
    exact Int.ediv_eq_zero_of_lt (by omega) (by omega)

theorem saturatingAddTo_eq {addend dest : ℤ} (h : 0 ≤ dest + addend) (hlt : dest + addend < 2 ^ 31) :
    saturatingAddTo addend dest = dest + addend := by
  rw [saturatingAddTo, kint32max, if_neg (by omega)]
  exact toInt32_of_lt hlt (by omega)

/-! Support maps. -/

theorem get_addSupport (m : SupportMap) (key : GoogleString) (addend : ℤ) (other : GoogleString) :
    (addSupport m key addend).get other =
      if other = key then some (saturatingAddTo addend ((m.get key).getD 0)) else m.get other := by
  rw [addSupport, SortedMap.get_modify]
  split_ifs with h
  · rw [SortedMap.get_insert, if_pos rfl, Option.map_some]
  · rw [SortedMap.get_insert, if_neg h]

theorem get_addPriorSupport (m : SupportMap) (key : GoogleString) (addend : ℤ) (other : GoogleString) :
    (addPriorSupport m key addend).get other =
      if other = key then (m.get key).map (saturatingAddTo addend) else m.get other :=
  SortedMap.get_modify m other key (saturatingAddTo addend)

theorem get_foldl_set {change : SupportMap → GoogleString → SupportMap} {new : Option ℤ → Option ℤ}
    (hchange : ∀ m key other, (change m key).get other = if other = key then new (m.get key) else m.get other)
    {keys : List GoogleString} (hnodup : keys.Nodup) (m : SupportMap) (key : GoogleString) :
    (keys.foldl change m).get key = if key ∈ keys then new (m.get key) else m.get key := by
  induction keys generalizing m with
  | nil => rw [List.foldl_nil, if_neg List.not_mem_nil]
  | cons first keys ih =>
    rw [List.nodup_cons] at hnodup
    rw [List.foldl_cons, ih hnodup.2, hchange]
    by_cases hfirst : key = first
    · rw [if_neg (hfirst ▸ hnodup.1), if_pos hfirst, if_pos (hfirst ▸ List.mem_cons_self), hfirst]
    · rw [if_neg hfirst]
      exact if_congr ⟨List.mem_cons_of_mem first, fun h => (List.mem_cons.mp h).resolve_left hfirst⟩ rfl rfl

def entry (criticalKeys : CriticalKeys) (key : GoogleString) : Option ℤ :=
  (convertCriticalKeysProtoToSupportMap criticalKeys).get key

def IsInt32 (v : ℤ) : Prop := 0 ≤ v ∧ v < 2 ^ 31

theorem get_convert {evidence : List KeyEvidence} (hnodup : (evidence.map (·.key)).Nodup)
    (hrange : ∀ e ∈ evidence, IsInt32 e.support) (m : SupportMap) (hm : ∀ e ∈ evidence, m.get e.key = none)
    (key : GoogleString) :
    (evidence.foldl (fun m e => if e.key = [] then m else addSupport m e.key e.support) m).get key =
      ((evidence.find? fun e => e.key = key ∧ key ≠ []).map (·.support)).or (m.get key) := by
  induction evidence generalizing m with
  | nil => rfl
  | cons e evidence ih =>
    rw [List.map_cons, List.nodup_cons] at hnodup
    rw [List.forall_mem_cons] at hrange hm
    rw [List.foldl_cons]
    by_cases hempty : e.key = []
    · rw [if_pos hempty, ih hnodup.2 hrange.2 m hm.2, List.find?_cons_of_neg]
      rw [decide_eq_true_eq, hempty]
      exact fun h => h.2 h.1.symm
    · have hnew : ∀ e' ∈ evidence, (addSupport m e.key e.support).get e'.key = none := by
        intro e' he'
        rw [get_addSupport, if_neg, hm.2 e' he']
        rintro heq
        exact hnodup.1 (heq ▸ List.mem_map_of_mem he')
      rw [if_neg hempty, ih hnodup.2 hrange.2 _ hnew, get_addSupport, hm.1, Option.getD_none,
        saturatingAddTo_eq (by have := hrange.1.1; omega) (by have := hrange.1.2; omega), Int.zero_add]
      by_cases hkey : key = e.key
      · have hnone : (evidence.find? fun e => e.key = key ∧ key ≠ []) = none := by
          rw [List.find?_eq_none]
          intro e' he' h
          rw [decide_eq_true_eq] at h
          exact hnodup.1 (hkey ▸ h.1 ▸ List.mem_map_of_mem he')
        rw [if_pos hkey, hnone, List.find?_cons_of_pos (by rw [decide_eq_true_eq]; exact ⟨hkey.symm, hkey ▸ hempty⟩)]
        rfl
      · rw [if_neg hkey, List.find?_cons_of_neg]
        rw [decide_eq_true_eq]
        exact fun h => hkey h.1.symm

theorem entry_write (hm : ∀ key s, m.get key = some s → IsInt32 s) (criticalKeys : CriticalKeys)
    (key : GoogleString) :
    entry (writeSupportMapToCriticalKeysProto m criticalKeys) key = if key = [] then none else m.get key := by
  have hnodup : ((m.entries.map fun entry => ({ key := entry.1, support := entry.2 } : KeyEvidence)).map
      (·.key)).Nodup := by
    rw [List.map_map]
    exact m.nodup
  have hrange : ∀ e ∈ m.entries.map fun entry => ({ key := entry.1, support := entry.2 } : KeyEvidence),
      IsInt32 e.support := by
    intro e he
    obtain ⟨pair, hpair, rfl⟩ := List.mem_map.mp he
    exact hm pair.1 pair.2 (Records.find_of_mem m.nodup hpair)
  rw [entry, convertCriticalKeysProtoToSupportMap, writeSupportMapToCriticalKeysProto,
    get_convert hnodup hrange SortedMap.empty (fun _ _ => rfl), SortedMap.get_empty, Option.or_none, List.find?_map,
    Option.map_map]
  split_ifs with hempty
  · rw [Option.map_eq_none_iff, List.find?_eq_none]
    intro pair _ h
    exact (of_decide_eq_true h).2 hempty
  · have hkey : ((fun e : KeyEvidence => decide (e.key = key ∧ key ≠ [])) ∘
        fun entry : GoogleString × ℤ => ({ key := entry.1, support := entry.2 } : KeyEvidence)) =
          fun entry => decide (entry.1 = key) := by
      funext entry
      simp [hempty]
    rw [hkey]
    rfl

/-! The bounds. -/

def CriticalKeys.maximum (criticalKeys : CriticalKeys) : ℤ := criticalKeys.maximumPossibleSupport.getD 1

structure Supported (k : ℤ) (criticalKeys : CriticalKeys) : Prop where
  nodup : (criticalKeys.keyEvidence.map (·.key)).Nodup
  bounds : ∀ e ∈ criticalKeys.keyEvidence, 0 ≤ e.support ∧ e.support ≤ criticalKeys.maximum
  nonneg : 0 ≤ criticalKeys.maximum
  le : criticalKeys.maximum ≤ k * k
  fresh : criticalKeys.maximumPossibleSupport = none → ∀ e ∈ criticalKeys.keyEvidence, e.support = 0

theorem Supported.entry_bounds (hkk : k * k < 2 ^ 31) (h : Supported k criticalKeys) {s : ℤ} (hentry : entry criticalKeys key = some s) :
    key ≠ [] ∧ 0 ≤ s ∧ s ≤ criticalKeys.maximum ∧ (criticalKeys.maximumPossibleSupport = none → s = 0) := by
  have hrange : ∀ e ∈ criticalKeys.keyEvidence, IsInt32 e.support := fun e he =>
    ⟨(h.bounds e he).1, Int.lt_of_le_of_lt (Int.le_trans (h.bounds e he).2 h.le) hkk⟩
  rw [entry, convertCriticalKeysProtoToSupportMap, get_convert h.nodup hrange SortedMap.empty (fun _ _ => rfl),
    SortedMap.get_empty, Option.or_none] at hentry
  obtain ⟨e, hfind, rfl⟩ := Option.map_eq_some_iff.mp hentry
  have hmem := List.mem_of_find?_eq_some hfind
  have hkey := List.find?_some hfind
  exact ⟨(of_decide_eq_true hkey).2, (h.bounds e hmem).1, (h.bounds e hmem).2, fun hnone => h.fresh hnone e hmem⟩

theorem supported_write (hnonneg : 0 ≤ criticalKeys.maximum)
    (hle : criticalKeys.maximum ≤ k * k) (hm : ∀ key s, m.get key = some s → 0 ≤ s ∧ s ≤ criticalKeys.maximum)
    (hfresh : criticalKeys.maximumPossibleSupport = none → ∀ key s, m.get key = some s → s = 0) :
    Supported k (writeSupportMapToCriticalKeysProto m criticalKeys) where
  nodup := by
    rw [writeSupportMapToCriticalKeysProto, List.map_map]
    exact m.nodup
  bounds := by
    intro e he
    obtain ⟨pair, hpair, rfl⟩ := List.mem_map.mp he
    exact hm pair.1 pair.2 (Records.find_of_mem m.nodup hpair)
  nonneg := hnonneg
  le := hle
  fresh := by
    intro hnone e he
    obtain ⟨pair, hpair, rfl⟩ := List.mem_map.mp he
    exact hfresh hnone pair.1 pair.2 (Records.find_of_mem m.nodup hpair)

theorem get_decaySupportMap (criticalKeys : CriticalKeys) (key : GoogleString) :
    (decaySupportMap k (convertCriticalKeysProtoToSupportMap criticalKeys)).get key =
      (entry criticalKeys key).bind fun s => if decay k s = 0 ∧ 0 < s then none else some (decay k s) :=
  SortedMap.get_filterMap _ _ _

structure Decayed (k top : ℤ) (m : SupportMap) : Prop where
  values : ∀ key s, m.get key = some s → 0 ≤ s ∧ s ≤ top
  nonneg : 0 ≤ top
  room : top + k ≤ k * k

theorem Decayed.reported {n : SupportMap} (hk : 1 ≤ k) (hkk : k * k < 2 ^ 31) (h : Decayed k top m)
    (hn : ∀ key s, n.get key = some s →
      m.get key = some s ∨ ∃ d, (m.get key).getD 0 = d ∧ s = saturatingAddTo k d) :
    ∀ key s, n.get key = some s → 0 ≤ s ∧ s ≤ saturatingAddTo k top := by
  have hroom := h.room
  have hnonneg := h.nonneg
  intro key s hs
  rw [saturatingAddTo_eq (by omega) (by omega)]
  obtain hs | ⟨d, hd, rfl⟩ := hn key s hs
  · have hvalues := h.values key s hs
    omega
  · have hvalues : 0 ≤ d ∧ d ≤ top := by
      cases hget : m.get key with
      | none =>
        rw [hget] at hd
        rw [← hd]
        exact ⟨Int.le_refl 0, h.nonneg⟩
      | some d' =>
        rw [hget] at hd
        rw [← hd]
        exact h.values key d' hget
    rw [saturatingAddTo_eq (by omega) (by omega)]
    omega

theorem Decayed.maximum (hk : 1 ≤ k) (hkk : k * k < 2 ^ 31) (h : Decayed k top m) :
    0 ≤ saturatingAddTo k top ∧ saturatingAddTo k top ≤ k * k := by
  have hroom := h.room
  have hnonneg := h.nonneg
  rw [saturatingAddTo_eq (by omega) (by omega)]
  omega

theorem Supported.decayed (hk : 1 ≤ k) (hkk : k * k < 2 ^ 31) (h : Supported k criticalKeys)
    (hm : ∀ key s, m.get key = some s → ∃ v, entry criticalKeys key = some v ∧ s = decay k v)
    (hsome : ∀ v, criticalKeys.maximumPossibleSupport = some v → top = decay k v)
    (hnone : criticalKeys.maximumPossibleSupport = none → (∀ key s, m.get key = some s → s = 0) → top = 0) :
    Decayed k top m := by
  cases hmaximum : criticalKeys.maximumPossibleSupport with
  | none =>
    have hzero : ∀ key s, m.get key = some s → s = 0 := by
      intro key s hs
      obtain ⟨v, hv, rfl⟩ := hm key s hs
      rw [(h.entry_bounds hkk hv).2.2.2 hmaximum, decay, Int.zero_mul, Int.zero_tdiv]
      rfl
    have htop := hnone hmaximum hzero
    refine ⟨fun key s hs => ?_, by omega, by nlinarith⟩
    rw [hzero key s hs, htop]
    exact ⟨Int.le_refl 0, Int.le_refl 0⟩
  | some v =>
    have hv : criticalKeys.maximum = v := by
      rw [CriticalKeys.maximum, hmaximum]
      rfl
    have hnonneg := h.nonneg
    have hle := h.le
    rw [hv] at hnonneg hle
    rw [hsome v hmaximum]
    refine ⟨fun key s hs => ?_, decay_nonneg hk hkk hnonneg hle, decay_le hk hkk hnonneg hle⟩
    obtain ⟨w, hw, rfl⟩ := hm key s hs
    have hbounds := h.entry_bounds hkk hw
    rw [hv] at hbounds
    exact ⟨decay_nonneg hk hkk hbounds.2.1 (Int.le_trans hbounds.2.2.1 hle),
      decay_mono hk hkk hbounds.2.1 hbounds.2.2.1 hle⟩

theorem Decayed.beacon (hk : 1 ≤ k) (hkk : k * k < 2 ^ 31) (h : Decayed k top m)
    {C : SupportMap → GoogleString → SupportMap} {F : Option ℤ → Option ℤ}
    (hchange : ∀ m key other, (C m key).get other = if other = key then F (m.get key) else m.get other)
    (hnew : ∀ o s, F o = some s → s = saturatingAddTo k (o.getD 0)) (keys : StringSet)
    {r : CriticalKeys} (hmaximum : r.maximumPossibleSupport = some (saturatingAddTo k top)) :
    Supported k (writeSupportMapToCriticalKeysProto (keys.1.foldl C m) r) ∧
      ∀ key, entry (writeSupportMapToCriticalKeysProto (keys.1.foldl C m) r) key =
        if key = [] then none else if key ∈ keys.1 then F (m.get key) else m.get key := by
  have htop : r.maximum = saturatingAddTo k top := by
    rw [CriticalKeys.maximum, hmaximum]
    rfl
  have hvalues := h.reported (n := keys.1.foldl C m) hk hkk fun key s hs => by
    rw [get_foldl_set hchange keys.2] at hs
    split_ifs at hs
    · exact Or.inr ⟨_, rfl, hnew _ s hs⟩
    · exact Or.inl hs
  have hbounds := h.maximum hk hkk
  refine ⟨supported_write ?_ ?_ ?_ ?_, fun key => ?_⟩
  · rw [htop]
    exact hbounds.1
  · rw [htop]
    exact hbounds.2
  · rw [htop]
    exact hvalues
  · intro hnone
    rw [hmaximum] at hnone
    cases hnone
  · rw [entry_write, get_foldl_set hchange keys.2]
    intro key s hs
    have hs' := hvalues key s hs
    exact ⟨hs'.1, by omega⟩

/-! What each update does. -/

inductive Update
  | candidates (keys : StringSet) (clearRebeaconTimestamp : Bool)
  | critical (requirePriorSupport : Bool) (newSet : StringSet)
  | support (matched : StringSet)

def Update.apply (k : ℤ) : Update → CriticalKeys → CriticalKeys
  | .candidates keys clear, criticalKeys => (updateCandidateKeys keys clear criticalKeys).2
  | .critical require newSet, criticalKeys => updateCriticalKeys require newSet k criticalKeys
  | .support matched, criticalKeys => updateCandidateSupport matched k criticalKeys

theorem Supported.critical (hk : 1 ≤ k) (hkk : k * k < 2 ^ 31)
    (h : Supported k criticalKeys) (require : Bool) (newSet : StringSet) :
    Supported k (updateCriticalKeys require newSet k criticalKeys) ∧
      ∀ key, entry (updateCriticalKeys require newSet k criticalKeys) key =
        let decayed := (entry criticalKeys key).bind fun s =>
          if decay k s = 0 ∧ 0 < s then none else some (decay k s)
        if key = [] then none
        else if key ∈ newSet.1 then
          if require then decayed.map (saturatingAddTo k) else some (saturatingAddTo k (decayed.getD 0))
        else decayed := by
  have hdecayed : Decayed k (decayedMaximum k (decaySupportMap k (convertCriticalKeysProtoToSupportMap criticalKeys))
      criticalKeys.maximumPossibleSupport) (decaySupportMap k (convertCriticalKeysProtoToSupportMap criticalKeys)) := by
    refine h.decayed hk hkk (fun key s hs => ?_) (fun v hv => by rw [hv, decayedMaximum]) fun hnone hzero => ?_
    · rw [get_decaySupportMap] at hs
      obtain ⟨v, hv, hs⟩ := Option.bind_eq_some_iff.mp hs
      split_ifs at hs
      exact ⟨v, hv, (Option.some_inj.mp hs).symm⟩
    · rw [hnone, decayedMaximum]
      cases hmax : ((decaySupportMap k (convertCriticalKeysProtoToSupportMap criticalKeys)).entries.map
          Prod.snd).max? with
      | none => rfl
      | some top =>
        obtain ⟨pair, hpair, rfl⟩ := List.mem_map.mp (List.max?_mem hmax)
        exact hzero pair.1 pair.2 (Records.find_of_mem (SortedMap.nodup _) hpair)
  have hbeacon := hdecayed.beacon hk hkk
    (C := fun m key => if require then addPriorSupport m key k else addSupport m key k)
    (F := fun o => if require then o.map (saturatingAddTo k) else some (saturatingAddTo k (o.getD 0)))
    (fun m key other => by
      cases require with
      | false => exact get_addSupport m key k other
      | true => exact get_addPriorSupport m key k other)
    (fun o s hs => by
      cases require with
      | false => exact (Option.some_inj.mp hs).symm
      | true =>
        obtain ⟨d, rfl, rfl⟩ := Option.map_eq_some_iff.mp hs
        rfl) newSet
    (r := { criticalKeys with
      maximumPossibleSupport := some (saturatingAddTo k (decayedMaximum k
        (decaySupportMap k (convertCriticalKeysProtoToSupportMap criticalKeys)) criticalKeys.maximumPossibleSupport))
      validBeaconsReceived := criticalKeys.validBeaconsReceived + 1
      noncesRecentlyExpired := 0 }) rfl
  refine ⟨hbeacon.1, fun key => ?_⟩
  rw [← get_decaySupportMap]
  exact hbeacon.2 key

theorem Supported.support (hk : 1 ≤ k) (hkk : k * k < 2 ^ 31) (h : Supported k criticalKeys) (matched : StringSet) :
    Supported k (updateCandidateSupport matched k criticalKeys) ∧
      ∀ key, entry (updateCandidateSupport matched k criticalKeys) key =
        if key = [] then none
        else if key ∈ matched.1 then ((entry criticalKeys key).map (decay k)).map (saturatingAddTo k)
        else (entry criticalKeys key).map (decay k) := by
  have hget : ∀ key, ((convertCriticalKeysProtoToSupportMap criticalKeys).filterMap fun support =>
      some (decay k support)).get key = (entry criticalKeys key).map (decay k) := by
    intro key
    rw [SortedMap.get_filterMap, ← entry, Option.map_eq_bind]
    rfl
  have hdecayed : Decayed k ((criticalKeys.maximumPossibleSupport.map (decay k)).getD 0)
      ((convertCriticalKeysProtoToSupportMap criticalKeys).filterMap fun support => some (decay k support)) := by
    refine h.decayed hk hkk (fun key s hs => ?_) (fun v hv => by rw [hv]; rfl) fun hnone _ => by rw [hnone]; rfl
    rw [hget] at hs
    obtain ⟨v, hv, hs⟩ := Option.map_eq_some_iff.mp hs
    exact ⟨v, hv, hs.symm⟩
  obtain ⟨hsupported, hentry⟩ := hdecayed.beacon hk hkk (C := (addPriorSupport · · k))
    (F := Option.map (saturatingAddTo k)) (fun m key other => get_addPriorSupport m key k other)
    (fun o s hs => by
      obtain ⟨d, rfl, rfl⟩ := Option.map_eq_some_iff.mp hs
      rfl) matched (r := updateCandidateSupport matched k criticalKeys) rfl
  refine ⟨hsupported, fun key => ?_⟩
  rw [← hget]
  exact hentry key

theorem get_foldl_insert (keys : List GoogleString) (m : SupportMap) (key : GoogleString) :
    (keys.foldl (fun m key => m.insert (fun a b => decide (a < b)) key 0) m).get key =
      if key ∈ keys then some ((m.get key).getD 0) else m.get key := by
  induction keys generalizing m with
  | nil => rw [List.foldl_nil, if_neg List.not_mem_nil]
  | cons first keys ih =>
    rw [List.foldl_cons, ih, SortedMap.get_insert]
    by_cases hfirst : key = first
    · subst hfirst
      rw [if_pos rfl, Option.getD_some, ite_self, if_pos List.mem_cons_self]
    · rw [if_neg hfirst]
      exact if_congr ⟨List.mem_cons_of_mem first, fun h => (List.mem_cons.mp h).resolve_left hfirst⟩ rfl rfl

theorem Supported.candidates (hkk : k * k < 2 ^ 31) (h : Supported k criticalKeys)
    (keys : StringSet) (clear : Bool) : Supported k (updateCandidateKeys keys clear criticalKeys).2 := by
  rw [updateCandidateKeys]
  by_cases hany : (keys.1.any fun key =>
      ((convertCriticalKeysProtoToSupportMap criticalKeys).get key).isNone) = true
  · rw [if_pos hany]
    have hvalues : ∀ key s, (keys.1.foldl (fun m key => m.insert (fun a b => decide (a < b)) key 0)
        (convertCriticalKeysProtoToSupportMap criticalKeys)).get key = some s →
        s = 0 ∨ entry criticalKeys key = some s := by
      intro key s hs
      rw [get_foldl_insert, ← entry] at hs
      cases hentry : entry criticalKeys key with
      | none =>
        rw [hentry] at hs
        split_ifs at hs
        exact Or.inl (Option.some_inj.mp hs).symm
      | some v =>
        rw [hentry] at hs
        exact Or.inr (by split_ifs at hs <;> exact hs)
    refine supported_write h.nonneg h.le (fun key s hs => ?_) fun hnone key s hs => ?_
    · obtain rfl | hentry := hvalues key s hs
      · exact ⟨Int.le_refl 0, h.nonneg⟩
      · obtain ⟨-, hnonneg, hle, -⟩ := h.entry_bounds hkk hentry
        exact ⟨hnonneg, hle⟩
    · obtain rfl | hentry := hvalues key s hs
      · rfl
      · exact (h.entry_bounds hkk hentry).2.2.2 hnone
  · rw [if_neg hany]
    exact h

theorem Supported.apply (hk : 1 ≤ k) (hkk : k * k < 2 ^ 31)
    (h : Supported k criticalKeys) (update : Update) : Supported k (update.apply k criticalKeys) := by
  cases update with
  | candidates keys clear => exact h.candidates hkk keys clear
  | critical require newSet => exact (h.critical hk hkk require newSet).1
  | support matched => exact (h.support hk hkk matched).1

def run (k : ℤ) (updates : List Update) : CriticalKeys :=
  updates.foldl (fun criticalKeys update => update.apply k criticalKeys) {}

theorem supported_run (hk : 1 ≤ k) (hkk : k * k < 2 ^ 31) (updates : List Update) : Supported k (run k updates) := by
  induction updates using List.reverseRecOn with
  | nil =>
    exact ⟨List.nodup_nil, fun e he => absurd he List.not_mem_nil, Int.zero_le_ofNat 1,
      by change (1 : ℤ) ≤ k * k; nlinarith, fun _ e he => absurd he List.not_mem_nil⟩
  | append_singleton updates update ih =>
    rw [run, List.foldl_concat]
    exact ih.apply hk hkk update

def Update.reported : Update → List GoogleString
  | .candidates _ _ => []
  | .critical _ newSet => newSet.1
  | .support matched => matched.1

def Conserves (k : ℤ) (criticalKeys : CriticalKeys) (update : Update) : Prop :=
  ∀ key ∈ update.reported, ∀ s, entry criticalKeys key = some s →
    entry (update.apply k criticalKeys) key = some (decay k s + k)

def NoneAtEdge (criticalKeys : CriticalKeys) (update : Update) : Prop :=
  ∀ newSet, update = .critical true newSet → ∀ key ∈ newSet.1, entry criticalKeys key ≠ some 1

theorem Supported.saturatingAddTo_decay (hk : 1 ≤ k) (hkk : k * k < 2 ^ 31)
    (h : Supported k criticalKeys) {s : ℤ} (hentry : entry criticalKeys key = some s) :
    saturatingAddTo k (decay k s) = decay k s + k := by
  obtain ⟨-, hnonneg, hle, -⟩ := h.entry_bounds hkk hentry
  have hroom := decay_le hk hkk hnonneg (Int.le_trans hle h.le)
  have hdecay := decay_nonneg hk hkk hnonneg (Int.le_trans hle h.le)
  exact saturatingAddTo_eq (by omega) (by omega)

theorem Supported.conserves_iff (hk : 1 ≤ k) (hkk : k * k < 2 ^ 31) (h : Supported k criticalKeys) (update : Update) :
    Conserves k criticalKeys update ↔ NoneAtEdge criticalKeys update := by
  cases update with
  | candidates keys clear =>
    exact iff_of_true (fun key hkey => absurd hkey List.not_mem_nil) fun newSet heq => by cases heq
  | support matched =>
    refine iff_of_true (fun key hkey s hs => ?_) fun newSet heq => by cases heq
    rw [Update.apply, (h.support hk hkk matched).2, if_neg (h.entry_bounds hkk hs).1,
      if_pos (show key ∈ matched.1 from hkey), hs, Option.map_some, Option.map_some, h.saturatingAddTo_decay hk hkk hs]
  | critical require newSet =>
    have hedge : ∀ {key s}, entry criticalKeys key = some s → ((decay k s = 0 ∧ 0 < s) ↔ s = 1) := by
      intro key s hs
      obtain ⟨-, hnonneg, hle, -⟩ := h.entry_bounds hkk hs
      refine ⟨fun ⟨hzero, hpos⟩ => (decay_eq_zero_iff hk hkk hpos (Int.le_trans hle h.le)).mp hzero, ?_⟩
      rintro rfl
      exact ⟨(decay_eq_zero_iff hk hkk Int.one_pos (Int.le_trans hle h.le)).mpr rfl, Int.one_pos⟩
    have hafter : ∀ {key s}, key ∈ newSet.1 → entry criticalKeys key = some s →
        entry ((Update.critical require newSet).apply k criticalKeys) key =
          if s = 1 ∧ require then none else some (decay k s + k) := by
      intro key s hkey hs
      rw [Update.apply, (h.critical hk hkk require newSet).2]
      dsimp only
      rw [if_neg (h.entry_bounds hkk hs).1, if_pos hkey, hs, Option.bind_some]
      by_cases hone : s = 1
      · have hzero := ((hedge hs).mpr hone).1
        have hsum := h.saturatingAddTo_decay hk hkk hs
        rw [if_pos ((hedge hs).mpr hone), Option.map_none, Option.getD_none]
        rw [hzero] at hsum ⊢
        rw [hsum]
        cases require with
        | false => rw [if_neg Bool.false_ne_true, if_neg fun h => Bool.false_ne_true h.2]
        | true => rw [if_pos rfl, if_pos ⟨hone, rfl⟩]
      · rw [if_neg fun hz => hone ((hedge hs).mp hz), Option.map_some, Option.getD_some, ite_self,
          h.saturatingAddTo_decay hk hkk hs, if_neg]
        exact fun h => hone h.1
    constructor
    · intro hconserves newSet' heq key hkey hone
      cases heq
      have hsome := hconserves key hkey 1 hone
      rw [hafter hkey hone, if_pos ⟨rfl, rfl⟩] at hsome
      cases hsome
    · intro hedges key hkey s hs
      rw [hafter hkey hs, if_neg]
      rintro ⟨rfl, hrequire⟩
      exact hedges newSet (by rw [hrequire]) key hkey hs

def Update.requiresEntries : Update → Prop
  | .candidates _ _ => False
  | .critical require _ => require = true
  | .support _ => True

theorem Supported.creates_none (hk : 1 ≤ k) (hkk : k * k < 2 ^ 31)
    (h : Supported k criticalKeys) {update : Update} (hrequire : update.requiresEntries)
    (hnone : entry criticalKeys key = none) : entry (update.apply k criticalKeys) key = none := by
  cases update with
  | candidates keys clear => exact absurd hrequire id
  | critical require newSet =>
    rw [Update.apply, (h.critical hk hkk require newSet).2, hnone]
    dsimp only
    rw [if_pos (show require = true from hrequire), Option.bind_none, Option.map_none, ite_self, ite_self]
  | support matched =>
    rw [Update.apply, (h.support hk hkk matched).2, hnone, Option.map_none, Option.map_none, ite_self, ite_self]

/-- Over every history support is bounded, no beacon makes an entry where it must not, and what is reported
is added unless it is at the edge. -/
theorem support_is_conserved (hk : 1 ≤ k) (hkk : k * k < 2 ^ 31) (updates : List Update) :
    (∀ e ∈ (run k updates).keyEvidence, 0 ≤ e.support ∧ e.support ≤ (run k updates).maximum) ∧
      (run k updates).maximum ≤ k * k ∧
      ∀ update : Update, (Conserves k (run k updates) update ↔ NoneAtEdge (run k updates) update) ∧
        (update.requiresEntries → ∀ key, entry (run k updates) key = none →
          entry (update.apply k (run k updates)) key = none) := by
  have hsupported := supported_run hk hkk updates
  exact ⟨hsupported.bounds, hsupported.le, fun update => ⟨hsupported.conserves_iff hk hkk update,
    fun hrequire _ hnone => hsupported.creates_none hk hkk hrequire hnone⟩⟩

def oneKey : StringSet := ⟨[ascii "a"], List.nodup_singleton _⟩

theorem support_is_conserved_of_three :
    let criticalKeys := run 2 [.candidates oneKey true, .support oneKey, .critical true oneKey]
    criticalKeys.maximum ≤ 4 ∧ entry criticalKeys (ascii "a") = some 3 ∧
      Conserves 2 criticalKeys (.critical true oneKey) ∧
        entry ((Update.critical true oneKey).apply 2 criticalKeys) (ascii "b") = none := by
  intro criticalKeys
  obtain ⟨-, hle, hupdate⟩ := support_is_conserved (k := 2) (by decide) (by decide)
    [.candidates oneKey true, .support oneKey, .critical true oneKey]
  obtain ⟨hiff, hcreates⟩ := hupdate (.critical true oneKey)
  have hedge : NoneAtEdge criticalKeys (.critical true oneKey) := by
    intro newSet heq key hkey
    cases heq
    rw [List.mem_singleton.mp hkey]
    decide
  exact ⟨hle, by decide, hiff.mpr hedge, hcreates rfl (ascii "b") (by decide)⟩

/-- The report comes too late for a key whose support has decayed to 1. -/
theorem report_at_edge_is_lost :
    ¬ ∀ (k : ℤ), 1 ≤ k → k * k < 2 ^ 31 → ∀ (updates : List Update) (update : Update),
      Conserves k (run k updates) update := by
  intro h
  have hconserves := h 2 (by decide) (by decide)
    [.candidates oneKey true, .critical true oneKey, .critical true ⟨[], List.nodup_nil⟩] (.critical true oneKey)
  have hreported := hconserves (ascii "a") (List.mem_singleton.mpr rfl) 1 (by decide)
  exact absurd hreported (by decide)

end PageSpeed.Critical
