import PageSpeed.Cache.CacheBatcher
import Mathlib.Tactic.Abel

/-!
Which lookups and callbacks a run of the batcher can lose or double.
-/

namespace PageSpeed.CacheBatcher

open Bag

section Bags

variable (m : MultiCallback) (ms ns : Multiset MultiCallback)

def waitingKeys (ms : Multiset MultiCallback) : Multiset GoogleString := (ms.filter (·.waiting)).map (·.key)

def savedCallbacks (ms : Multiset MultiCallback) : Multiset Callback :=
  (ms.map fun m => (m.saved.map (·.callback) : Multiset Callback)).sum

def groupsOf (ms : Multiset MultiCallback) : Multiset ℕ := ms.map (·.group)

@[simp]
theorem waitingKeys_cons_of_waiting (h : m.waiting = true) : waitingKeys (m ::ₘ ms) = m.key ::ₘ waitingKeys ms := by
  simp [waitingKeys, h]

@[simp]
theorem waitingKeys_cons_of_not (h : m.waiting = false) : waitingKeys (m ::ₘ ms) = waitingKeys ms := by
  simp [waitingKeys, h]

@[simp]
theorem waitingKeys_add : waitingKeys (ms + ns) = waitingKeys ms + waitingKeys ns := by
  simp [waitingKeys]

@[simp]
theorem savedCallbacks_cons :
    savedCallbacks (m ::ₘ ms) = (m.saved.map (·.callback) : Multiset Callback) + savedCallbacks ms := by
  simp [savedCallbacks]

@[simp]
theorem savedCallbacks_add : savedCallbacks (ms + ns) = savedCallbacks ms + savedCallbacks ns := by
  simp [savedCallbacks]

@[simp]
theorem groupsOf_cons : groupsOf (m ::ₘ ms) = m.group ::ₘ groupsOf ms := by simp [groupsOf]

@[simp]
theorem groupsOf_add : groupsOf (ms + ns) = groupsOf ms + groupsOf ns := by simp [groupsOf]

theorem new_lookups (keys : List GoogleString) (g : ℕ) :
    waitingKeys (keys.map fun key => (⟨key, g, [], false⟩ : MultiCallback) : List _) = keys ∧
      savedCallbacks (keys.map fun key => (⟨key, g, [], false⟩ : MultiCallback) : List _) = 0 ∧
      groupsOf (keys.map fun key => (⟨key, g, [], false⟩ : MultiCallback) : List _) =
        Multiset.replicate keys.length g := by
  induction keys with
  | nil => exact ⟨rfl, rfl, rfl⟩
  | cons key keys ih =>
    obtain ⟨hw, hs, hg⟩ := ih
    rw [List.map_cons, ← Multiset.cons_coe, waitingKeys_cons_of_waiting _ _ rfl, savedCallbacks_cons, groupsOf_cons,
      hw, hs, hg]
    exact ⟨rfl, rfl, (Multiset.replicate_succ _ _).symm⟩

end Bags

structure Accounted (extra : ℤ) (s : System) : Prop where
  parallel : 0 < s.maxParallelLookups
  checkPassed : s.checkFailed = false
  waiting : waitingKeys s.lookups = keys s.inFlight
  apart : ∀ key ∈ s.queued, key ∉ s.inFlight
  full : s.queued.entries ≠ [] → (s.maxParallelLookups : ℤ) ≤ s.numInFlightGroups
  inFlightFilled : Filled s.inFlight
  queuedFilled : Filled s.queued
  groupLt : ∀ g ∈ groupsOf s.lookups, g < s.nextGroup
  outstanding : ∀ g, s.outstandingLookups g = (groupsOf s.lookups).count g
  groups : s.numInFlightGroups = (groupsOf s.lookups).toFinset.card + s.completing + extra
  conserved : (s.passed : Multiset Callback) = items s.inFlight + items s.queued + savedCallbacks s.lookups +
    s.dropping + (s.reported.map Prod.fst : List Callback)

theorem new_accounted {maxParallelLookups : ℕ} (h : 0 < maxParallelLookups) (maxPendingGets : ℕ) :
    Accounted 0 (System.new maxParallelLookups maxPendingGets) where
  parallel := h
  checkPassed := rfl
  waiting := rfl
  apart := by simp [System.new]
  full := fun h => absurd rfl h
  inFlightFilled := by simp [Filled, System.new]
  queuedFilled := by simp [Filled, System.new]
  groupLt := by simp [groupsOf, System.new]
  outstanding := by simp [groupsOf, System.new]
  groups := by simp [groupsOf, System.new]
  conserved := rfl

variable {s : System} {i : ℕ}

theorem startGroup_groups {keys : List GoogleString} (hkeys : keys ≠ [])
    (hlt : ∀ g ∈ groupsOf s.lookups, g < s.nextGroup)
    (hout : ∀ g, s.outstandingLookups g = (groupsOf s.lookups).count g) :
    (∀ g ∈ groupsOf (s.startGroup keys).lookups, g < (s.startGroup keys).nextGroup) ∧
      (∀ g, (s.startGroup keys).outstandingLookups g = (groupsOf (s.startGroup keys).lookups).count g) ∧
      (groupsOf (s.startGroup keys).lookups).toFinset.card = (groupsOf s.lookups).toFinset.card + 1 := by
  have hbag : groupsOf (s.startGroup keys).lookups =
      groupsOf s.lookups + Multiset.replicate keys.length s.nextGroup := by
    rw [← (new_lookups keys s.nextGroup).2.2, ← groupsOf_add, Multiset.coe_add]
    rfl
  have hfresh : s.nextGroup ∉ groupsOf s.lookups := fun h => Nat.lt_irrefl _ (hlt _ h)
  have hpos : keys.length ≠ 0 := fun h => hkeys (List.length_eq_zero_iff.mp h)
  rw [hbag]
  refine ⟨?_, ?_, ?_⟩
  · intro g hg
    obtain hg | hg := Multiset.mem_add.mp hg
    · exact Nat.lt_succ_of_lt (hlt g hg)
    · rw [Multiset.eq_of_mem_replicate hg]
      exact Nat.lt_succ_self _
  · intro g
    change Function.update s.outstandingLookups s.nextGroup (keys.length : ℤ) g = _
    rw [Multiset.count_add, Multiset.count_replicate]
    by_cases hg : g = s.nextGroup
    · subst hg
      rw [Function.update_self, if_pos rfl, Multiset.count_eq_zero.mpr hfresh, Nat.zero_add]
    · rw [Function.update_of_ne hg, if_neg (Ne.symm hg), hout g, Nat.add_zero]
  · rw [Multiset.toFinset_add, Multiset.toFinset_replicate, if_neg hpos, Finset.union_comm, ← Finset.insert_eq,
      Finset.card_insert_of_notMem (by simpa using hfresh)]

theorem startGroup_waiting (s : System) (keys : List GoogleString) :
    waitingKeys (s.startGroup keys).lookups = waitingKeys s.lookups + keys ∧
      savedCallbacks (s.startGroup keys).lookups = savedCallbacks s.lookups := by
  obtain ⟨hw, hs, -⟩ := new_lookups keys s.nextGroup
  change waitingKeys ((s.lookups ++ _ : List MultiCallback) : Multiset MultiCallback) = _ ∧
    savedCallbacks ((s.lookups ++ _ : List MultiCallback) : Multiset MultiCallback) = _
  rw [← Multiset.coe_add, waitingKeys_add, savedCallbacks_add, hw, hs, Multiset.add_zero]
  exact ⟨rfl, rfl⟩

theorem createRequest_accounted (hs : Accounted 1 s) (hq : s.queued.entries ≠ []) :
    Accounted 0 s.createRequestForQueuedKeys := by
  have hkeys : s.queued.keys ≠ [] := fun h => hq (List.map_eq_nil_iff.mp h)
  obtain ⟨hlt, hout, hcard⟩ := startGroup_groups hkeys hs.groupLt hs.outstanding
  obtain ⟨hwait, hsaved⟩ := startGroup_waiting s s.queued.keys
  have hnew : ∀ e ∈ s.queued.entries, e.1 ∉ s.inFlight :=
    fun e he => hs.apart e.1 (AList.mem_keys.mpr (List.mem_map_of_mem he))
  obtain ⟨hk, hi⟩ := foldl_emplace s.queued.keys_nodup hnew
  exact {
    parallel := hs.parallel
    checkPassed := hs.checkPassed
    waiting := by
      refine hwait.trans ?_
      rw [hs.waiting, add_comm]
      exact hk.symm
    apart := by
      intro key hkey
      cases hkey
    full := fun h => absurd rfl h
    inFlightFilled := filled_foldl_emplace hs.queuedFilled hs.inFlightFilled
    queuedFilled := by
      intro e he
      cases he
    groupLt := hlt
    outstanding := hout
    groups := by
      refine hs.groups.trans ?_
      change _ = (((groupsOf (s.startGroup s.queued.keys).lookups).toFinset.card : ℕ) : ℤ) + s.completing + 0
      rw [hcard]
      push_cast
      omega
    conserved := by
      refine hs.conserved.trans ?_
      change _ = items (s.queued.entries.foldl emplace s.inFlight) + 0 +
        savedCallbacks (s.startGroup s.queued.keys).lookups + (s.dropping : Multiset Callback) +
        (s.reported.map Prod.fst : List Callback)
      rw [hi, hsaved]
      change items s.inFlight + items s.queued + _ + _ + _ = items s.queued + items s.inFlight + 0 + _ + _ + _
      abel }

/-- A `Get` does not issue a second lookup of a key that is in flight. -/
def Coalesces (s : System) : Action → Prop
  | .get key _ => key ∈ s.inFlight → s.canIssueGet = true → s.canQueueCallback = true
  | _ => True

theorem queued_empty_of_canIssueGet {extra : ℤ} (hs : Accounted extra s) (h : s.canIssueGet = true) :
    s.queued.entries = [] := by
  by_contra hq
  have hlt := of_decide_eq_true (Bool.and_eq_true_iff.mp h).2
  have hfull := hs.full hq
  omega

theorem get_accounted {key : GoogleString} {callback : Callback}
    (hc : Coalesces s (.get key callback)) (hs : Accounted 0 s) : Accounted 0 (s.get key callback) := by
  have hpush : ∀ m : ListMap GoogleString Callback,
      items (push m key callback) = {callback} + items m := fun m => items_push m key callback
  have hpassed : ((callback :: s.passed : List Callback) : Multiset Callback) = {callback} + s.passed := rfl
  unfold System.get
  split_ifs with hco hissue hqueue
  · exact { hs with
      waiting := by rw [keys_push_of_mem hco.2]; exact hs.waiting
      apart := by
        intro k hk hmem
        obtain rfl | hmem := mem_push.mp hmem
        · exact hs.apart k hk hco.2
        · exact hs.apart k hk hmem
      inFlightFilled := filled_push hs.inFlightFilled key callback
      conserved := by
        rw [hpassed, hpush, hs.conserved]
        abel }
  · have hnot : key ∉ s.inFlight := fun hmem => hco ⟨hc hmem hissue, hmem⟩
    have hq := queued_empty_of_canIssueGet hs hissue
    have hnoq : ∀ k, k ∉ s.queued := fun k hk => by
      have : k ∈ s.queued.entries.map Sigma.fst := AList.mem_keys.mp hk
      rw [hq] at this
      cases this
    obtain ⟨hlt, hout, hcard⟩ := startGroup_groups (List.cons_ne_nil key []) hs.groupLt hs.outstanding
    obtain ⟨hwait, hsaved⟩ := startGroup_waiting s [key]
    exact {
      parallel := hs.parallel
      checkPassed := hs.checkPassed
      waiting := by
        refine hwait.trans ?_
        rw [hs.waiting, add_comm]
        exact (keys_push_of_notMem hnot callback).symm
      apart := fun k hk => absurd hk (hnoq k)
      full := fun h => absurd hq h
      inFlightFilled := filled_push hs.inFlightFilled key callback
      queuedFilled := hs.queuedFilled
      groupLt := hlt
      outstanding := hout
      groups := by
        have hg := hs.groups
        change s.numInFlightGroups + 1 =
          (((groupsOf (s.startGroup [key]).lookups).toFinset.card : ℕ) : ℤ) + s.completing + 0
        rw [hcard]
        push_cast
        omega
      conserved := by
        change ((callback :: s.passed : List Callback) : Multiset Callback) =
          items (push s.inFlight key callback) + items s.queued + savedCallbacks (s.startGroup [key]).lookups +
            (s.dropping : Multiset Callback) + (s.reported.map Prod.fst : List Callback)
        rw [hpassed, hpush, hsaved, hs.conserved]
        abel }
  · have hnot : key ∉ s.inFlight := fun hmem => hco ⟨hqueue, hmem⟩
    exact { hs with
      apart := by
        intro k hk hmem
        obtain rfl | hk := mem_push.mp hk
        · exact hnot hmem
        · exact hs.apart k hk hmem
      full := by
        intro _
        have hnum := mt (fun h => Bool.and_eq_true_iff.mpr ⟨(Bool.and_eq_true_iff.mp hqueue).1, decide_eq_true h⟩) hissue
        exact Int.not_lt.mp hnum
      queuedFilled := filled_push hs.queuedFilled key callback
      conserved := by
        rw [hpassed, hpush, hs.conserved]
        abel }
  · exact { hs with
      conserved := by
        rw [hpassed, ← Multiset.cons_coe callback s.dropping, ← Multiset.singleton_add, hs.conserved]
        abel }

theorem groupComplete_accounted (hs : Accounted 1 s) : Accounted 0 s.groupComplete := by
  unfold System.groupComplete
  split_ifs with hq
  · have hq : s.queued.entries = [] := List.isEmpty_iff.mp hq
    exact { hs with
      full := fun h => absurd hq h
      groups := by
        have hg := hs.groups
        change s.numInFlightGroups - 1 = (((groupsOf s.lookups).toFinset.card : ℕ) : ℤ) + s.completing + 0
        omega }
  · exact createRequest_accounted { hs with } fun h => hq (List.isEmpty_iff.mpr h)

theorem shutDown_accounted (hs : Accounted 0 s) : Accounted 0 s.shutDown := by
  unfold System.shutDown
  split_ifs with hq
  · exact { hs with }
  · have hfull := hs.full fun h => hq (List.isEmpty_iff.mpr h)
    have hg := hs.groups
    refine createRequest_accounted { hs with full := ?_, groups := ?_ } fun h => hq (List.isEmpty_iff.mpr h)
    · intro _
      change (s.maxParallelLookups : ℤ) ≤ s.numInFlightGroups + 1
      omega
    · change s.numInFlightGroups + 1 = (((groupsOf s.lookups).toFinset.card : ℕ) : ℤ) + s.completing + 1
      omega

theorem set_accounted {extra : ℤ} {m : MultiCallback} (hs : Accounted extra s)
    (hi : s.lookups[i]? = some m) (m' : MultiCallback) (reported' : List (Callback × KeyState))
    (hgroup : m'.group = m.group) {inFlight' : ListMap GoogleString Callback}
    (hfilled : Filled inFlight') (hsub : ∀ k ∈ inFlight', k ∈ s.inFlight)
    (hwait : ∀ r : Multiset MultiCallback, waitingKeys (m ::ₘ r) = keys s.inFlight →
      waitingKeys (m' ::ₘ r) = keys inFlight')
    (hcallbacks : items s.inFlight + (m.saved.map (·.callback) : List Callback) + (s.reported.map Prod.fst : List Callback) =
      items inFlight' + (m'.saved.map (·.callback) : List Callback) + (reported'.map Prod.fst : List Callback)) :
    Accounted extra { s with inFlight := inFlight', lookups := s.lookups.set i m', reported := reported' } := by
  obtain ⟨r, hl, hset, -⟩ := exists_rest hi
  have hgroups : groupsOf ((s.lookups.set i m' : List MultiCallback) : Multiset MultiCallback) = groupsOf s.lookups := by
    rw [hl, hset, groupsOf_cons, groupsOf_cons, hgroup]
  exact {
    parallel := hs.parallel
    checkPassed := hs.checkPassed
    waiting := by
      change waitingKeys ((s.lookups.set i m' : List MultiCallback) : Multiset MultiCallback) = keys inFlight'
      rw [hset]
      exact hwait r (hl ▸ hs.waiting)
    apart := fun k hk hmem => hs.apart k hk (hsub k hmem)
    full := hs.full
    inFlightFilled := hfilled
    queuedFilled := hs.queuedFilled
    groupLt := fun g hg => hs.groupLt g (hgroups ▸ hg)
    outstanding := fun g => (hs.outstanding g).trans (by rw [hgroups])
    groups := hs.groups.trans (by rw [hgroups])
    conserved := by
      have hc := hs.conserved
      rw [hl, savedCallbacks_cons] at hc
      change (s.passed : Multiset Callback) = items inFlight' + items s.queued +
        savedCallbacks ((s.lookups.set i m' : List MultiCallback) : Multiset MultiCallback) +
        (s.dropping : Multiset Callback) + (reported'.map Prod.fst : List Callback)
      rw [hset, savedCallbacks_cons, hc]
      calc
        _ = (items s.inFlight + (m.saved.map (·.callback) : List Callback) +
            (s.reported.map Prod.fst : List Callback)) + items s.queued + savedCallbacks r + s.dropping := by abel
        _ = _ := by rw [hcallbacks]; abel }

theorem validate_callback (valid : Callback → Bool) (state : KeyState) (r : CallbackRecord) :
    (r.validate valid state).callback = r.callback := by
  unfold CallbackRecord.validate
  split_ifs <;> rfl

theorem validateCandidate_waiting {m : MultiCallback} (hs : Accounted 0 s)
    (hi : s.lookups[i]? = some m) (hm : m.waiting = true) (valid : Callback → Bool) (state : KeyState) :
    ∃ callbacks, s.validateCandidate i m valid state = { s with
      inFlight := s.inFlight.erase m.key
      lookups := s.lookups.set i
        { m with saved := callbacks.map fun c => CallbackRecord.validate valid state ⟨c, false, state⟩ } } ∧
      s.inFlight.lookup m.key = some callbacks := by
  have hmem : m.key ∈ s.inFlight := by
    obtain ⟨r, hl, -⟩ := exists_rest hi
    rw [← mem_keys, ← hs.waiting, hl, waitingKeys_cons_of_waiting _ _ hm]
    exact Multiset.mem_cons_self _ _
  obtain ⟨callbacks, hlook⟩ := Option.isSome_iff_exists.mp (AList.lookup_isSome.mpr hmem)
  refine ⟨callbacks, ?_, hlook⟩
  unfold System.validateCandidate
  rw [if_pos (Bool.and_eq_true_iff.mp hm).1]
  simp only [hlook]

theorem validateCandidate_accounted {m : MultiCallback} (hs : Accounted 0 s)
    (hi : s.lookups[i]? = some m) (hm : m.reporting = false) (valid : Callback → Bool) (state : KeyState) :
    Accounted 0 (s.validateCandidate i m valid state) := by
  by_cases hsaved : m.saved = []
  · have hwaiting : m.waiting = true := by simp [MultiCallback.waiting, hsaved, hm]
    obtain ⟨callbacks, heq, hlook⟩ := validateCandidate_waiting hs hi hwaiting valid state
    have hne := filled_lookup hs.inFlightFilled hlook
    rw [heq]
    refine set_accounted hs hi _ s.reported ?_ (filled_erase hs.inFlightFilled _) ?_ ?_ ?_
    · rfl
    · intro k hk
      exact (AList.mem_erase.mp hk).2
    · intro r hr
      rw [waitingKeys_cons_of_waiting _ _ hwaiting, keys_erase hlook] at hr
      rw [waitingKeys_cons_of_not _ _ (by simp [MultiCallback.waiting, hne])]
      exact (Multiset.cons_inj_right _).mp hr
    · have hmap : ((callbacks.map fun c => CallbackRecord.validate valid state ⟨c, false, state⟩).map
          (·.callback)) = callbacks := by
        rw [List.map_map]
        refine (List.map_congr_left fun c _ => ?_).trans (List.map_id _)
        exact validate_callback valid state _
      rw [items_erase hlook, hmap, hsaved, List.map_nil, Multiset.coe_nil, Multiset.add_zero,
        add_comm (callbacks : Multiset Callback)]
  · unfold System.validateCandidate
    rw [if_neg (fun h => hsaved (List.isEmpty_iff.mp h))]
    refine set_accounted hs hi _ s.reported ?_ hs.inFlightFilled (fun _ hk => hk) ?_ ?_
    · rfl
    · intro r hr
      rw [waitingKeys_cons_of_not _ _ (by simp [MultiCallback.waiting, hsaved])] at hr ⊢
      exact hr
    · have hmap : (m.saved.map (CallbackRecord.validate valid state)).map (·.callback) = m.saved.map (·.callback) := by
        rw [List.map_map]
        exact List.map_congr_left fun r _ => validate_callback valid state r
      rw [hmap]

theorem groupDone_accounted {key : GoogleString} {group : ℕ} (hs : Accounted 0 s)
    (hi : s.lookups[i]? = some ⟨key, group, [], true⟩) :
    Accounted 0 { s with
      lookups := s.lookups.eraseIdx i
      outstandingLookups := Function.update s.outstandingLookups group (s.outstandingLookups group - 1)
      completing := if s.outstandingLookups group - 1 = 0 then s.completing + 1 else s.completing } := by
  obtain ⟨r, hl, -, herase⟩ := exists_rest hi
  have hgroups : groupsOf s.lookups = group ::ₘ groupsOf r := by rw [hl, groupsOf_cons]
  have hout : s.outstandingLookups group = (groupsOf r).count group + 1 := by
    rw [hs.outstanding group, hgroups, Multiset.count_cons_self]
    push_cast
    rfl
  have hwait := hs.waiting
  have hconserved := hs.conserved
  rw [hl, waitingKeys_cons_of_not _ _ rfl] at hwait
  rw [hl, savedCallbacks_cons] at hconserved
  refine { hs with waiting := ?_, groupLt := ?_, outstanding := ?_, groups := ?_, conserved := ?_ }
  · rw [herase]; exact hwait
  · intro g hg
    rw [herase] at hg
    exact hs.groupLt g (hgroups ▸ Multiset.mem_cons_of_mem hg)
  · intro g
    change Function.update s.outstandingLookups group (s.outstandingLookups group - 1) g = _
    rw [herase]
    by_cases hg : g = group
    · subst hg
      rw [Function.update_self, hout]
      omega
    · rw [Function.update_of_ne hg, hs.outstanding g, hgroups, Multiset.count_cons_of_ne hg]
  · have hg := hs.groups
    rw [hgroups, Multiset.toFinset_cons] at hg
    change s.numInFlightGroups = ((groupsOf ((s.lookups.eraseIdx i : List MultiCallback) :
      Multiset MultiCallback)).toFinset.card : ℤ) +
        ((if s.outstandingLookups group - 1 = 0 then s.completing + 1 else s.completing : ℕ) : ℤ) + 0
    rw [herase, hg]
    by_cases hmem : group ∈ groupsOf r
    · have hpos := Multiset.count_pos.mpr hmem
      rw [Finset.insert_eq_of_mem (Multiset.mem_toFinset.mpr hmem), if_neg (by omega)]
    · have hzero := Multiset.count_eq_zero.mpr hmem
      rw [Finset.card_insert_of_notMem (fun h => hmem (Multiset.mem_toFinset.mp h)), if_pos (by omega)]
      push_cast
      omega
  · rw [herase, hconserved]
    simp

theorem reportDropped_accounted {callback : Callback} (hs : Accounted 0 s) (hi : s.dropping[i]? = some callback) :
    Accounted 0 { s with
      dropping := s.dropping.eraseIdx i
      reported := (callback, .notFound) :: s.reported
      droppedGets := s.droppedGets + 1 } := by
  obtain ⟨r, hd, -, herase⟩ := exists_rest hi
  exact { hs with
    conserved := by
      have hc := hs.conserved
      rw [hd] at hc
      rw [herase, hc, List.map_cons, ← Multiset.cons_coe, ← Multiset.singleton_add, ← Multiset.singleton_add]
      abel }

theorem step_accounted {t : System} {a : Action} (hc : Coalesces s a) (hs : Accounted 0 s)
    (h : step s a = some t) : Accounted 0 t := by
  have hcheck : ¬ s.checkFailed = true := by rw [hs.checkPassed]; exact Bool.false_ne_true
  unfold step at h
  rw [if_neg hcheck] at h
  cases a with
  | get key callback => cases h; exact get_accounted hc hs
  | validateCandidate i valid state =>
    cases hi : s.lookups[i]? with
    | none => simp [hi] at h
    | some m =>
      cases hm : m.reporting with
      | true => simp [hi, hm] at h
      | false =>
        simp [hi, hm] at h
        subst h
        exact validateCandidate_accounted hs hi hm valid state
  | done i =>
    cases hi : s.lookups[i]? with
    | none => simp [hi] at h
    | some m =>
      by_cases hm : m.reporting ∨ m.saved.isEmpty
      · simp only [hi, if_pos hm] at h
        cases h
      · simp only [hi, if_neg hm] at h
        cases h
        obtain ⟨-, hsaved⟩ := not_or.mp hm
        rw [List.isEmpty_iff] at hsaved
        have hacc : Accounted 0 { s with lookups := s.lookups.set i { m with reporting := true } } := by
          refine set_accounted hs hi _ s.reported ?_ hs.inFlightFilled (fun _ hk => hk) ?_ ?_
          · rfl
          · intro r hr
            rw [waitingKeys_cons_of_not _ _ (by simp [MultiCallback.waiting, hsaved])] at hr ⊢
            exact hr
          · rfl
        exact { hacc with }
  | callbackDone i =>
    cases hi : s.lookups[i]? with
    | none => simp [hi] at h
    | some m =>
      obtain ⟨key, group, saved, reporting⟩ := m
      cases saved <;> cases reporting <;> simp [hi] at h
      subst h
      refine set_accounted hs hi _ _ ?_ hs.inFlightFilled (fun _ hk => hk) ?_ ?_
      · rfl
      · intro r hr
        rw [waitingKeys_cons_of_not _ _ (by simp [MultiCallback.waiting])] at hr ⊢
        exact hr
      · simp only [List.map_cons, ← Multiset.cons_coe, ← Multiset.singleton_add]
        abel
  | groupDone i =>
    cases hi : s.lookups[i]? with
    | none => simp [hi] at h
    | some m =>
      obtain ⟨key, group, saved, reporting⟩ := m
      cases saved <;> cases reporting <;> simp [hi] at h
      subst h
      exact groupDone_accounted hs hi
  | groupComplete =>
    cases hn : s.completing with
    | zero => simp [hn] at h
    | succ n =>
      simp [hn] at h
      subst h
      have hg := hs.groups
      rw [hn] at hg
      refine groupComplete_accounted { hs with groups := ?_ }
      change s.numInFlightGroups = ((groupsOf s.lookups).toFinset.card : ℤ) + (n : ℤ) + 1
      push_cast at hg
      omega
  | reportDropped i =>
    cases hi : s.dropping[i]? with
    | none => simp [hi] at h
    | some callback =>
      simp [hi] at h
      subst h
      exact reportDropped_accounted hs hi
  | shutDown => cases h; exact shutDown_accounted hs

/-- Nothing is left for the backend, for a group or for a dropped `Get` to report. -/
def Idle (s : System) : Prop := s.lookups = [] ∧ s.completing = 0 ∧ s.dropping = []

def Action.answers : Action → Bool
  | .get _ _ => false
  | .shutDown => false
  | _ => true

structure InFlightCorrect (s : System) : Prop where
  checkPassed : s.checkFailed = false
  oneLookup : ∀ key ∈ s.inFlight, s.lookups.countP (fun m => m.waiting && m.key == key) = 1
  waitingInFlight : ∀ m ∈ s.lookups, m.waiting = true → m.key ∈ s.inFlight
  atMostOnce : ∀ c, (s.reported.map Prod.fst).count c ≤ s.passed.count c
  exactlyOnce : Idle s → ∀ c, (s.reported.map Prod.fst).count c = s.passed.count c
  answered : ∃ as t, (∀ a ∈ as, Action.answers a = true) ∧ Machine.run step s as = some t ∧ Idle t ∧
    t.passed = s.passed

theorem count_waitingKeys (ms : List MultiCallback) (key : GoogleString) :
    (waitingKeys ms).count key = ms.countP fun m => m.waiting && m.key == key := by
  induction ms with
  | nil => rfl
  | cons m ms ih =>
    rw [← Multiset.cons_coe, List.countP_cons]
    cases hm : m.waiting with
    | false => rw [waitingKeys_cons_of_not _ _ hm, ih]; simp
    | true =>
      rw [waitingKeys_cons_of_waiting _ _ hm, Multiset.count_cons, ih]
      by_cases hk : m.key = key
      · simp [hk]
      · simp [hk, Ne.symm hk]

theorem items_empty_of_idle (hs : Accounted 0 s) (h : Idle s) : items s.inFlight = 0 ∧ items s.queued = 0 := by
  obtain ⟨hl, hc, -⟩ := h
  have hkeys := hs.waiting
  have hgroups := hs.groups
  rw [hl] at hkeys hgroups
  have hin : s.inFlight.entries = [] := List.map_eq_nil_iff.mp (Multiset.coe_eq_zero _ |>.mp hkeys.symm)
  have hq : s.queued.entries = [] := by
    by_contra hq
    have hfull := hs.full hq
    have hp := hs.parallel
    rw [hgroups, hc] at hfull
    simp [groupsOf] at hfull
    omega
  unfold items
  rw [hin, hq]
  exact ⟨rfl, rfl⟩

def MultiCallback.weight (m : MultiCallback) : ℕ := if m.waiting then 4 else if m.reporting then 2 else 3

def remaining (s : System) : ℕ :=
  (s.passed.length - s.reported.length) + 4 * s.queued.entries.length + (s.lookups.map (·.weight)).sum +
    s.completing

theorem length_conserved (hs : Accounted 0 s) :
    s.passed.length = (items s.inFlight).card + (items s.queued).card + (savedCallbacks s.lookups).card +
      s.dropping.length + s.reported.length := by
  have h := congrArg Multiset.card hs.conserved
  simpa using h

theorem createRequest_remaining (s : System) :
    remaining s.createRequestForQueuedKeys = remaining s := by
  have hsum : ∀ keys : List GoogleString,
      (keys.map (MultiCallback.weight ∘ fun key => (⟨key, s.nextGroup, [], false⟩ : MultiCallback))).sum =
        4 * keys.length := by
    intro keys
    induction keys with
    | nil => rfl
    | cons key keys ih =>
      rw [List.map_cons, List.sum_cons, ih, List.length_cons]
      change 4 + _ = _
      omega
  have hlen : s.queued.keys.length = s.queued.entries.length := List.length_map _
  change (s.passed.length - s.reported.length) + 4 * 0 +
    ((s.lookups ++ s.queued.keys.map fun key => (⟨key, s.nextGroup, [], false⟩ : MultiCallback)).map
      MultiCallback.weight).sum + s.completing = _
  rw [List.map_append, List.sum_append, List.map_map, hsum, hlen]
  change _ = s.passed.length - s.reported.length + 4 * s.queued.entries.length +
    (s.lookups.map MultiCallback.weight).sum + s.completing
  omega

theorem exists_answer (hs : Accounted 0 s) (hidle : ¬ Idle s) :
    ∃ a t, Action.answers a = true ∧ step s a = some t ∧ remaining t < remaining s ∧ t.passed = s.passed := by
  have hcheck : ¬ s.checkFailed = true := by rw [hs.checkPassed]; exact Bool.false_ne_true
  have hlen := length_conserved hs
  cases hl : s.lookups with
  | cons m rest =>
    have hi : s.lookups[0]? = some m := by rw [hl]; rfl
    obtain ⟨key, group, saved, reporting⟩ := m
    cases reporting with
    | false =>
      cases saved with
      | nil =>
        obtain ⟨callbacks, ht, hlook⟩ := validateCandidate_waiting hs hi rfl (fun _ => true) .notFound
        have hne := filled_lookup hs.inFlightFilled hlook
        refine ⟨.validateCandidate 0 (fun _ => true) .notFound, ?_⟩
        unfold step
        rw [if_neg hcheck]
        simp only [hi]
        rw [if_neg Bool.false_ne_true, ht]
        refine ⟨_, rfl, rfl, ?_, rfl⟩
        unfold remaining
        simp only [hl, List.set_cons_zero, List.map_cons, List.sum_cons]
        simp [MultiCallback.weight, MultiCallback.waiting, hne]
      | cons r saved =>
        refine ⟨.done 0, ?_⟩
        unfold step
        rw [if_neg hcheck]
        simp only [hi]
        rw [if_neg (by simp)]
        refine ⟨_, rfl, rfl, ?_, rfl⟩
        unfold remaining
        simp only [hl, List.set_cons_zero, List.map_cons, List.sum_cons]
        simp [MultiCallback.weight, MultiCallback.waiting]
    | true =>
      cases saved with
      | nil =>
        refine ⟨.groupDone 0, ?_⟩
        unfold step
        rw [if_neg hcheck]
        simp only [hi]
        refine ⟨_, rfl, rfl, ?_, rfl⟩
        have hw : MultiCallback.weight ⟨key, group, [], true⟩ = 2 := rfl
        unfold remaining
        simp only [hl, List.eraseIdx_cons_zero, List.map_cons, List.sum_cons, hw]
        split_ifs <;> omega
      | cons r saved =>
        have hpos : s.reported.length < s.passed.length := by
          rw [hlen, hl, ← Multiset.cons_coe, savedCallbacks_cons]
          simp only [List.map_cons, Multiset.card_add, Multiset.coe_card, List.length_cons]
          omega
        refine ⟨.callbackDone 0, ?_⟩
        unfold step
        rw [if_neg hcheck]
        simp only [hi]
        refine ⟨_, rfl, rfl, ?_, rfl⟩
        have hw : ∀ rs, MultiCallback.weight ⟨key, group, rs, true⟩ = 2 := by
          intro rs
          simp [MultiCallback.weight, MultiCallback.waiting]
        unfold remaining
        simp only [hl, List.set_cons_zero, List.map_cons, List.sum_cons, List.length_cons, hw]
        omega
  | nil =>
    cases hn : s.completing with
    | succ n =>
      refine ⟨.groupComplete, ?_⟩
      unfold step
      rw [if_neg hcheck]
      simp only [hn]
      refine ⟨_, rfl, rfl, ?_, ?_⟩
      · unfold System.groupComplete
        split_ifs
        · unfold remaining
          simp only [hn]
          omega
        · rw [createRequest_remaining]
          unfold remaining
          simp only [hn]
          omega
      · unfold System.groupComplete
        split_ifs <;> rfl
    | zero =>
      cases hd : s.dropping with
      | nil => exact absurd ⟨hl, hn, hd⟩ hidle
      | cons c rest =>
        have hpos : s.reported.length < s.passed.length := by
          rw [hlen, hd, List.length_cons]
          omega
        refine ⟨.reportDropped 0, ?_⟩
        unfold step
        rw [if_neg hcheck]
        simp only [hd, List.getElem?_cons_zero]
        refine ⟨_, rfl, rfl, ?_, rfl⟩
        unfold remaining
        simp only [List.length_cons]
        omega

theorem exists_answers (hs : Accounted 0 s) :
    ∃ as t, (∀ a ∈ as, Action.answers a = true) ∧ Machine.run step s as = some t ∧ Idle t ∧ t.passed = s.passed := by
  induction hn : remaining s using Nat.strong_induction_on generalizing s with
  | _ n ih =>
    by_cases hidle : Idle s
    · exact ⟨[], s, by simp, rfl, hidle, rfl⟩
    · obtain ⟨a, t, ha, ht, hlt, hpassed⟩ := exists_answer hs hidle
      have hc : Coalesces s a := by
        cases a with
        | get => cases ha
        | _ => trivial
      obtain ⟨as, u, has, hu, hu', hpassed'⟩ := ih _ (hn ▸ hlt) (step_accounted hc hs ht) rfl
      refine ⟨a :: as, u, ?_, Machine.run_cons.mpr ⟨t, ht, hu⟩, hu', hpassed'.trans hpassed⟩
      intro b hb
      obtain rfl | hb := List.mem_cons.mp hb
      · exact ha
      · exact has b hb

theorem inFlightCorrect_of_accounted (hs : Accounted 0 s) : InFlightCorrect s where
  checkPassed := hs.checkPassed
  oneLookup := by
    intro key hkey
    rw [← count_waitingKeys, hs.waiting]
    exact Multiset.count_eq_one_of_mem (nodup_keys _) (mem_keys.mpr hkey)
  waitingInFlight := by
    intro m hm hwaiting
    rw [← mem_keys, ← hs.waiting]
    exact Multiset.mem_map_of_mem _ (Multiset.mem_filter.mpr ⟨hm, hwaiting⟩)
  atMostOnce := by
    intro c
    have h := congrArg (Multiset.count c) hs.conserved
    simp only [Multiset.count_add, Multiset.coe_count] at h
    omega
  exactlyOnce := by
    intro hidle c
    obtain ⟨hin, hq⟩ := items_empty_of_idle hs hidle
    have h := congrArg (Multiset.count c) hs.conserved
    rw [hin, hq, hidle.1, hidle.2.2] at h
    simpa [savedCallbacks] using h.symm
  answered := exists_answers hs

theorem not_inFlightCorrect_of_not_coalesces {a : Action} (hs : Accounted 0 s) (ha : ¬ Coalesces s a) :
    ∃ t, step s a = some t ∧ ¬ InFlightCorrect t := by
  have hcheck : ¬ s.checkFailed = true := by rw [hs.checkPassed]; exact Bool.false_ne_true
  cases a with
  | get key callback =>
    simp only [Coalesces, not_forall] at ha
    obtain ⟨hmem, hissue, hqueue⟩ := ha
    refine ⟨s.get key callback, if_neg hcheck, fun ht => ?_⟩
    have hget : s.get key callback = System.startGroup { s with
        numInFlightGroups := s.numInFlightGroups + 1
        numPendingGets := s.numPendingGets + 1
        numInFlightKeys := s.numInFlightKeys + 1
        inFlight := push s.inFlight key callback
        passed := callback :: s.passed } [key] := by
      unfold System.get
      rw [if_neg (fun h => hqueue h.1), if_pos hissue]
    have hone := ht.oneLookup key (by rw [hget]; exact mem_push.mpr (Or.inl rfl))
    rw [← count_waitingKeys, hget, (startGroup_waiting _ _).1, Multiset.count_add] at hone
    have hbefore := (inFlightCorrect_of_accounted hs).oneLookup key hmem
    rw [← count_waitingKeys] at hbefore
    simp [hbefore] at hone
  | _ => exact absurd trivial ha

theorem in_flight_correct_iff_coalesces {maxParallelLookups : ℕ} (h : 0 < maxParallelLookups) (maxPendingGets : ℕ)
    (as : List Action) :
    Machine.Always step InFlightCorrect (System.new maxParallelLookups maxPendingGets) as ↔
      Machine.Meets step Coalesces (System.new maxParallelLookups maxPendingGets) as :=
  Machine.always_iff_meets (fun _ _ _ hc hs ht => step_accounted hc hs ht)
    (fun _ hs => inFlightCorrect_of_accounted hs) (fun _ _ hs ha => not_inFlightCorrect_of_not_coalesces hs ha)
    (new_accounted h maxPendingGets) as

theorem in_flight_correct_two_gets :
    Machine.Always step InFlightCorrect (System.new 1 0) [.get [107] 1, .get [107] 2] := by
  refine (in_flight_correct_iff_coalesces Nat.one_pos 0 _).mpr ⟨?_, fun t ht => ?_⟩
  · intro hmem
    cases hmem
  · cases ht
    refine ⟨?_, fun _ _ => trivial⟩
    intro _ hissue
    exact absurd hissue (by decide)

theorem in_flight_check_fails :
    ∃ t, Machine.run step (System.new 2 1)
        [.get [107] 1, .get [107] 2, .validateCandidate 0 (fun _ => true) .available,
          .validateCandidate 1 (fun _ => true) .available] = some t ∧ t.checkFailed = true :=
  ⟨_, rfl, rfl⟩

end PageSpeed.CacheBatcher
