import PageSpeed.System.InPlaceResourceRecorder

/-!
What each call does to a recorder: it is refused for good, or it goes on with nothing written to the outside.
-/

namespace PageSpeed

namespace InPlaceResourceRecorder

def Effect.isOutcome : Effect → Bool
  | .count _ => true
  | _ => false

def Effect.activeChange : Effect → ℤ
  | .activeRecordings n => n
  | _ => 0

def outcomes (effects : List Effect) : ℕ := effects.countP Effect.isOutcome

def activeChange (effects : List Effect) : ℤ := (effects.map Effect.activeChange).sum

theorem outcomes_append (es : List Effect) (e : Effect) : outcomes (es ++ [e]) = outcomes es + outcomes [e] :=
  List.countP_append

theorem activeChange_append (es : List Effect) (e : Effect) :
    activeChange (es ++ [e]) = activeChange es + e.activeChange := by
  simp [activeChange]

def Effect.IsPut (e : Effect) : Prop := ∃ h contents, e = .put h contents

variable {g : GzipInflater}

structure Sound (r : InPlaceResourceRecorder g) : Prop where
  counted : outcomes r.effects = if r.specificOutcomeRecorded then 1 else 0
  unstored : ∀ e ∈ r.effects, ¬ e.IsPut
  active : activeChange r.effects = if r.limitActiveRecordings then 1 else 0
  refused : r.specificOutcomeRecorded = true → r.failure = true

structure Allowed (t : TimeText) (r : InPlaceResourceRecorder g) (h : ResponseHeaders) : Prop where
  status : h.status = 200
  contentType : isIproContentType h = true
  server : r.originCachingHeaders = none ∨ h.isProxyCacheableFor r.requestProperties r.respectVary false = true
  origin : (IproRecorder.applyOriginCachingHeaders t r.originCachingHeaders h r.savedCacheControl).isProxyCacheableFor
    r.requestProperties r.respectVary false = true

section Sound

variable {r : InPlaceResourceRecorder g}

theorem Sound.of_eq {r' : InPlaceResourceRecorder g} (h : Sound r) (he : r'.effects = r.effects)
    (hs : r'.specificOutcomeRecorded = r.specificOutcomeRecorded)
    (hm : r'.maxConcurrentRecordings = r.maxConcurrentRecordings)
    (hf : r'.specificOutcomeRecorded = true → r'.failure = true) : Sound r' := by
  constructor
  · rw [he, hs]
    exact h.counted
  · rw [he]
    exact h.unstored
  · rw [he, limitActiveRecordings, hm]
    exact h.active
  · exact hf

theorem Sound.emit (h : Sound r) {e : Effect} (ho : e.isOutcome = false) (hp : ¬ e.IsPut) (ha : e.activeChange = 0) :
    Sound (r.emit e) := by
  constructor
  · have hnone : outcomes [e] = 0 := by simp [outcomes, ho]
    rw [InPlaceResourceRecorder.emit, outcomes_append, hnone]
    exact h.counted
  · intro e' he'
    rcases List.mem_append.mp he' with he' | he'
    · exact h.unstored e' he'
    · rw [List.mem_singleton.mp he']
      exact hp
  · rw [InPlaceResourceRecorder.emit, activeChange_append, ha, add_zero]
    exact h.active
  · exact h.refused

theorem Sound.rememberFailure (h : Sound r) (s : FetchResponseStatus) : Sound (r.emit (.rememberFailure s)) := by
  apply h.emit rfl _ rfl
  rintro ⟨_, _, hput⟩
  exact Effect.noConfusion hput

theorem Sound.writeError (h : Sound r) : Sound (r.emit .writeError) := by
  apply h.emit rfl _ rfl
  rintro ⟨_, _, hput⟩
  exact Effect.noConfusion hput

theorem Sound.refuse (h : Sound r) (c : Counter) : Sound { r.recordSpecificOutcome c with failure := true } := by
  rw [recordSpecificOutcome]
  by_cases hs : r.specificOutcomeRecorded = true
  · rw [if_pos hs]
    exact h.of_eq rfl rfl rfl fun _ => rfl
  · rw [if_neg hs]
    have hcounted : outcomes r.effects = 0 := by rw [h.counted, if_neg hs]
    constructor
    · show outcomes (r.effects ++ [.count c]) = 1
      rw [outcomes_append, hcounted]
      rfl
    · intro e he
      rcases List.mem_append.mp he with he | he
      · exact h.unstored e he
      · rw [List.mem_singleton.mp he]
        rintro ⟨_, _, hput⟩
        exact Effect.noConfusion hput
    · show activeChange (r.effects ++ [.count c]) = _
      rw [activeChange_append]
      exact (add_zero _).trans h.active
    · intro _
      rfl

theorem droppedAsUncacheable_failure (r : InPlaceResourceRecorder g) : r.droppedAsUncacheable.failure = true := by
  rw [droppedAsUncacheable]
  split
  · assumption
  · rfl

theorem Sound.droppedAsUncacheable (h : Sound r) : Sound r.droppedAsUncacheable := by
  rw [InPlaceResourceRecorder.droppedAsUncacheable]
  split
  · exact h
  · have hfailed : Sound { r with failure := true } := h.of_eq rfl rfl rfl fun _ => rfl
    exact hfailed.rememberFailure _

theorem recordSpecificOutcome_failure (c : Counter) (r : InPlaceResourceRecorder g) :
    (r.recordSpecificOutcome c).failure = r.failure := by
  rw [recordSpecificOutcome]
  split <;> rfl

theorem Sound.dropped (h : Sound r) (c : Counter) : Sound (r.recordSpecificOutcome c).droppedAsUncacheable := by
  rw [InPlaceResourceRecorder.droppedAsUncacheable]
  split
  · rename_i hf
    exact (h.refuse c).of_eq rfl rfl rfl fun _ => hf
  · exact (h.refuse c).rememberFailure _

theorem droppedDueToSize_failure (r : InPlaceResourceRecorder g) : r.droppedDueToSize.failure = true :=
  droppedAsUncacheable_failure _

theorem Sound.counted_after (h : Sound r) (c : Counter) : Sound (r.droppedAsUncacheable.recordSpecificOutcome c) := by
  have hfailure : (r.droppedAsUncacheable.recordSpecificOutcome c).failure = true := by
    rw [recordSpecificOutcome_failure]
    exact droppedAsUncacheable_failure r
  exact (h.droppedAsUncacheable.refuse c).of_eq rfl rfl rfl fun _ => hfailure

end Sound

theorem construct_sound (active : ℤ) (p : RequestProperties) (v : Bool) (m c : Int32) (l : Int64) :
    Sound (construct g active p v m c l) := by
  rw [construct]
  have hunstored : ∀ e ∈ [Effect.countResource, Effect.activeRecordings 1], ¬ e.IsPut := by
    rintro _ he ⟨_, _, rfl⟩
    simp at he
  dsimp only
  split
  · rename_i hlimit
    have hsound : Sound (emit (.activeRecordings 1)
        { requestProperties := p, respectVary := v, maxConcurrentRecordings := c,
          maxResponseBytes := responseLimit m l, effects := [.countResource] : InPlaceResourceRecorder g }) :=
      ⟨rfl, hunstored, (if_pos hlimit).symm, Bool.noConfusion⟩
    split
    · exact hsound.refuse _
    · exact hsound
  · rename_i hlimit
    constructor
    · rfl
    · intro e he
      exact hunstored e (List.mem_singleton.mp he ▸ List.mem_cons_self)
    · exact (if_neg hlimit).symm
    · exact Bool.noConfusion

section Calls

variable (t : TimeText) {r : InPlaceResourceRecorder g}

theorem considerFullHeaders_sound (hr : Sound r) (h : ResponseHeaders) : Sound (r.considerFullHeaders t h).1 := by
  rw [considerFullHeaders]
  dsimp only
  split
  · exact (hr.rememberFailure _).refuse _
  · split
    · exact hr.refuse _
    · split
      · exact hr.counted_after _
      · exact hr

theorem considerDecodable_sound (hr : Sound r) (kind : HeadersKind) (h : ResponseHeaders) :
    Sound (r.considerDecodable t kind h).1 := by
  rw [considerDecodable]
  split
  · exact hr.dropped _
  · split
    · dsimp only
      split
      · exact hr.dropped _
      · exact hr.refuse _
    · split
      · exact hr
      · apply considerFullHeaders_sound
        exact hr.of_eq rfl rfl rfl hr.refused

theorem considerResponseHeaders_sound (hr : Sound r) (kind : HeadersKind) (h : ResponseHeaders) :
    Sound (r.considerResponseHeaders t kind h).1 := by
  rw [considerResponseHeaders]
  split
  · apply considerDecodable_sound
    exact hr.of_eq rfl rfl rfl hr.refused
  · have hcalled : Sound { r with considerResponseHeadersCalled := true } := hr.of_eq rfl rfl rfl hr.refused
    dsimp only
    split
    · apply considerDecodable_sound
      exact hcalled.of_eq rfl rfl rfl hcalled.refused
    · exact hcalled.refuse _

variable {h : ResponseHeaders} {entire : Bool}

theorem considerFullHeaders_passed (hp : (r.considerFullHeaders t h).1.failure = false) :
    (r.considerFullHeaders t h).1 = r ∧ r.failure = false ∧ r.statusCode = 200 ∧
      (r.originCachingHeaders = none ∨ h.isProxyCacheableFor r.requestProperties r.respectVary false = true) ∧
      (IproRecorder.applyOriginCachingHeaders t r.originCachingHeaders h r.savedCacheControl).isProxyCacheableFor
        r.requestProperties r.respectVary false = true := by
  rw [considerFullHeaders] at hp ⊢
  dsimp only at hp ⊢
  split at hp
  · exact Bool.noConfusion hp
  · rename_i herror
    rw [if_neg herror]
    split at hp
    · exact Bool.noConfusion hp
    · rename_i hstatus
      rw [if_neg hstatus]
      split at hp
      · rw [recordSpecificOutcome_failure, droppedAsUncacheable_failure] at hp
        exact Bool.noConfusion hp
      · rename_i hcacheable
        rw [if_neg hcacheable]
        simp only [Bool.not_eq_true', Bool.not_eq_false, Bool.and_eq_true, Bool.or_eq_true,
          Option.isNone_iff_eq_none] at hcacheable
        exact ⟨rfl, hp, not_not.mp hstatus, hcacheable⟩

theorem considerDecodable_passed {kind : HeadersKind} (hstatus : r.statusCode = h.status)
    (hp : (r.considerDecodable t kind h).1.failure = false) :
    (r.considerDecodable t kind h).1 =
        { r with fullResponseHeadersConsidered := r.fullResponseHeadersConsidered || decide (kind = .full) } ∧
      r.failure = false ∧ (kind = .full → Allowed t r h) := by
  rw [considerDecodable] at hp ⊢
  split at hp
  · rw [droppedDueToSize_failure] at hp
    exact Bool.noConfusion hp
  · rename_i hlength
    rw [if_neg hlength]
    split at hp
    · dsimp only at hp
      split at hp
      · rw [droppedAsUncacheable_failure] at hp
        exact Bool.noConfusion hp
      · exact Bool.noConfusion hp
    · rename_i htype
      rw [if_neg htype]
      cases kind with
      | preliminary =>
        refine ⟨?_, hp, HeadersKind.noConfusion⟩
        simp
      | full =>
        obtain ⟨heq, hfailure, hok, hserver, horigin⟩ := considerFullHeaders_passed t hp
        refine ⟨?_, hfailure, fun _ => ⟨hstatus.symm.trans hok, ?_, hserver, horigin⟩⟩
        · rw [if_neg (not_not.mpr rfl), heq]
          simp
        · simpa using htype

theorem considerResponseHeaders_passed {kind : HeadersKind}
    (hp : (r.considerResponseHeaders t kind h).1.failure = false) :
    (r.considerResponseHeaders t kind h).1 =
        { r with
          considerResponseHeadersCalled := true
          fetchHeaders := if r.considerResponseHeadersCalled then r.fetchHeaders else h.copyFrom
          statusCode := h.status
          fullResponseHeadersConsidered := r.fullResponseHeadersConsidered || decide (kind = .full) } ∧
      r.failure = false ∧ (kind = .full → Allowed t r h) := by
  rw [considerResponseHeaders] at hp ⊢
  split at hp
  · rename_i hcalled
    rw [if_pos hcalled, if_pos hcalled]
    obtain ⟨heq, hfailure, hallowed⟩ := considerDecodable_passed t rfl hp
    refine ⟨?_, hfailure, fun hkind => ?_⟩
    · rw [heq, ← hcalled]
    · obtain ⟨hstatus, htype, hserver, horigin⟩ := hallowed hkind
      exact ⟨hstatus, htype, hserver, horigin⟩
  · rename_i hcalled
    rw [if_neg hcalled, if_neg hcalled]
    dsimp only at hp ⊢
    split at hp
    · rename_i hdecodes
      rw [if_pos hdecodes]
      obtain ⟨heq, hfailure, hallowed⟩ := considerDecodable_passed t rfl hp
      refine ⟨heq, hfailure, fun hkind => ?_⟩
      obtain ⟨hstatus, htype, hserver, horigin⟩ := hallowed hkind
      exact ⟨hstatus, htype, hserver, horigin⟩
    · exact Bool.noConfusion hp

def Within (r : InPlaceResourceRecorder g) : Prop :=
  r.maxResponseBytes ≤ 0 ∨ (r.resourceValue.length : ℤ) < r.maxResponseBytes

instance (r : InPlaceResourceRecorder g) : Decidable (Within r) := inferInstanceAs (Decidable (_ ∨ _))

theorem writeToResourceValue_sound (hr : Sound r) (hfailure : r.failure = false) (bytes : GoogleString) :
    Sound (r.writeToResourceValue bytes) := by
  have hcounted : r.specificOutcomeRecorded = false := by
    cases hs : r.specificOutcomeRecorded with
    | false => rfl
    | true => exact Bool.noConfusion (hfailure.symm.trans (hr.refused hs))
  have hwritten (fetch : InflatingFetch g.State) (contents : GoogleString) (failure : Bool) :
      Sound { r with fetch := some fetch, resourceValue := contents, failure := failure } :=
    hr.of_eq rfl rfl rfl fun hs => Bool.noConfusion (hcounted.symm.trans hs)
  rw [writeToResourceValue]
  split
  · exact hr
  · dsimp only
    split
    · exact hwritten _ _ _
    · exact (hwritten _ _ _).writeError

theorem write_sound (hr : Sound r) (bytes : GoogleString) : Sound (r.write bytes).1 := by
  rw [write]
  split
  · exact hr
  · rename_i hfailure
    have hwritten := writeToResourceValue_sound hr (Bool.eq_false_iff.mpr hfailure) bytes
    dsimp only
    split
    · exact hwritten
    · exact hwritten.dropped _

theorem writeToResourceValue_passed {bytes : GoogleString} (hr : r.failure = false)
    (hp : (r.writeToResourceValue bytes).failure = false) :
    ∃ fetch contents, r.writeToResourceValue bytes = { r with fetch := fetch, resourceValue := contents } := by
  rw [writeToResourceValue] at hp ⊢
  split at hp
  · rename_i hempty
    rw [if_pos hempty]
    exact ⟨r.fetch, r.resourceValue, rfl⟩
  · rename_i hempty
    rw [if_neg hempty]
    dsimp only at hp ⊢
    split at hp
    · rename_i hok
      rw [if_pos hok, hok, hr]
      exact ⟨_, _, rfl⟩
    · rename_i hok
      have hfailed : (!(InflatingFetch.handleWrite g bytes
          (r.fetch.getD (InflatingFetch.headersComplete g r.fetchHeaders))).2.2) = false := hp
      rw [Bool.eq_false_iff.mpr hok] at hfailed
      exact Bool.noConfusion hfailed

theorem write_passed {bytes : GoogleString} (hp : (r.write bytes).1.failure = false) :
    r.failure = false ∧ Within (r.write bytes).1 ∧
      ∃ fetch contents, (r.write bytes).1 = { r with fetch := fetch, resourceValue := contents } := by
  rw [write] at hp ⊢
  split at hp
  · rename_i hfailure
    exact Bool.noConfusion (hp.symm.trans hfailure)
  · rename_i hfailure
    rw [if_neg hfailure]
    have hr := Bool.eq_false_iff.mpr hfailure
    dsimp only at hp ⊢
    split at hp
    · rename_i hwithin
      rw [if_pos hwithin]
      exact ⟨hr, hwithin, writeToResourceValue_passed hr hp⟩
    · rw [droppedDueToSize_failure] at hp
      exact Bool.noConfusion hp

theorem step_passed {call : Call} (hp : (r.step t call).failure = false) :
    r.failure = false ∧ (r.step t call).effects = r.effects ∧
      (r.step t call).maxResponseBytes = r.maxResponseBytes ∧ (Within r → Within (r.step t call)) := by
  cases call with
  | considerResponseHeaders kind h =>
    obtain ⟨heq, hfailure, -⟩ := considerResponseHeaders_passed t hp
    rw [step, heq]
    exact ⟨hfailure, rfl, rfl, id⟩
  | write bytes =>
    obtain ⟨hfailure, hwithin, _, _, heq⟩ := write_passed hp
    refine ⟨hfailure, ?_, ?_, fun _ => hwithin⟩
    · rw [step, heq]
    · rw [step, heq]
  | saveCacheControl cacheControl => exact ⟨hp, rfl, rfl, id⟩
  | setOriginCachingHeaders origin => exact ⟨hp, rfl, rfl, id⟩
  | fail => exact Bool.noConfusion hp

theorem step_sound (hr : Sound r) (call : Call) : Sound (r.step t call) := by
  cases call with
  | considerResponseHeaders kind h => exact considerResponseHeaders_sound t hr kind h
  | write bytes => exact write_sound hr bytes
  | saveCacheControl cacheControl => exact hr.of_eq rfl rfl rfl hr.refused
  | setOriginCachingHeaders origin => exact hr.of_eq rfl rfl rfl hr.refused
  | fail => exact hr.of_eq rfl rfl rfl fun _ => rfl

theorem run_sound (hr : Sound r) (calls : List Call) : Sound (r.run t calls) := by
  induction calls generalizing r with
  | nil => exact hr
  | cons call calls ih => exact ih (step_sound t hr call)

theorem refuseEmpty_sound (hr : Sound r) : Sound r.refuseEmpty := by
  rw [refuseEmpty]
  split
  · exact (hr.rememberFailure _).refuse _
  · exact hr

theorem refuseEmpty_failed (hr : r.failure = true) : r.refuseEmpty = r := by
  simp [refuseEmpty, hr]

theorem refuseEmpty_passed (hp : r.refuseEmpty.failure = false) :
    r.refuseEmpty = r ∧ r.failure = false ∧ (r.statusCode = 200 → r.resourceValue ≠ []) := by
  rw [refuseEmpty] at hp ⊢
  split at hp
  · exact Bool.noConfusion hp
  · rename_i hempty
    rw [if_neg hempty]
    refine ⟨rfl, hp, fun hstatus hcontents => hempty ?_⟩
    rw [hp, hstatus, hcontents]
    rfl

theorem judge_failed (hr : r.failure = true) : r.judge t h entire = (r, h) := by
  simp [judge, hr, refuseEmpty_failed hr]

theorem judge_sound (hr : Sound r) (h : ResponseHeaders) (entire : Bool) : Sound (r.judge t h entire).1 := by
  have hfailed : Sound (if !entire && !r.failure then r.fail else r) := by
    split
    · exact hr.of_eq rfl rfl rfl fun _ => rfl
    · exact hr
  rw [judge]
  generalize (if !entire && !r.failure then r.fail else r) = r' at hfailed ⊢
  apply refuseEmpty_sound
  split
  · exact considerResponseHeaders_sound t hfailed _ h
  · split
    · exact hfailed
    · exact hfailed

theorem judge_passed (hp : (r.judge t h entire).1.failure = false) :
    entire = true ∧ r.failure = false ∧ (r.judge t h entire).1.effects = r.effects ∧
      (r.judge t h entire).1.resourceValue = r.resourceValue ∧
      (r.fullResponseHeadersConsidered = false → Allowed t r h) ∧
      ((r.fullResponseHeadersConsidered = true → r.statusCode = 200) → r.resourceValue ≠ []) := by
  have hr : r.failure = false := by
    apply Bool.eq_false_iff.mpr
    intro hfailure
    rw [judge_failed t hfailure] at hp
    exact Bool.noConfusion (hp.symm.trans hfailure)
  cases entire with
  | false =>
    rw [judge, hr] at hp
    exact Bool.noConfusion ((refuseEmpty_passed hp).2.1)
  | true =>
    by_cases hfull : r.fullResponseHeadersConsidered = true
    · have heq : (r.judge t h true).1 = r.refuseEmpty := by simp [judge, hr, hfull]
      rw [heq] at hp ⊢
      obtain ⟨hsame, -, hcontents⟩ := refuseEmpty_passed hp
      rw [hsame]
      refine ⟨rfl, hr, rfl, rfl, ?_, fun hstatus => hcontents (hstatus hfull)⟩
      intro hnot
      exact Bool.noConfusion (hnot.symm.trans hfull)
    · have heq : (r.judge t h true).1 = (r.considerResponseHeaders t .full h).1.refuseEmpty := by
        simp [judge, hr, hfull]
      rw [heq] at hp ⊢
      obtain ⟨hsame, hpassed, hcontents⟩ := refuseEmpty_passed hp
      obtain ⟨hconsidered, -, hallowed⟩ := considerResponseHeaders_passed t hpassed
      rw [hsame]
      rw [hconsidered] at hcontents ⊢
      exact ⟨rfl, hr, rfl, rfl, fun _ => hallowed rfl, fun _ => hcontents (hallowed rfl).status⟩

theorem settle_outcomes (hr : Sound r) (h : ResponseHeaders) : outcomes (r.settle h).effects = 1 := by
  rw [settle]
  cases hs : r.specificOutcomeRecorded with
  | true =>
    rw [if_pos (hr.refused hs), if_pos rfl, hr.counted, if_pos hs]
  | false =>
    have hzero : outcomes r.effects = 0 := by rw [hr.counted, hs, if_neg Bool.false_ne_true]
    split
    · rw [if_neg Bool.false_ne_true, emit, outcomes_append, hzero]
      rfl
    · rw [emit, emit, outcomes_append, outcomes_append, hzero]
      rfl

theorem settle_active (hr : Sound r) (h : ResponseHeaders) :
    activeChange (r.settle h).effects = if r.limitActiveRecordings then 1 else 0 := by
  rw [settle, ← hr.active]
  split
  · split
    · rfl
    · rw [emit, activeChange_append]
      exact add_zero _
  · rw [emit, emit, activeChange_append, activeChange_append]
    exact (add_zero _).trans (add_zero _)

theorem settle_limit (r : InPlaceResourceRecorder g) (h : ResponseHeaders) :
    (r.settle h).limitActiveRecordings = r.limitActiveRecordings := by
  rw [settle]
  split
  · split <;> rfl
  · rfl

theorem destruct_outcomes (r : InPlaceResourceRecorder g) : outcomes r.destruct.effects = outcomes r.effects := by
  rw [destruct]
  split
  · rw [emit, outcomes_append]
    rfl
  · rfl

theorem destruct_active (h : activeChange r.effects = if r.limitActiveRecordings then 1 else 0) :
    activeChange r.destruct.effects = 0 := by
  rw [destruct]
  split
  · rename_i hlimit
    rw [emit, activeChange_append, h, if_pos hlimit]
    rfl
  · rename_i hlimit
    rw [h, if_neg hlimit]

theorem mem_destruct {e : Effect} (he : e ∈ r.destruct.effects) (hne : ∀ n, e ≠ .activeRecordings n) :
    e ∈ r.effects := by
  rw [destruct] at he
  split at he
  · obtain he | he := List.mem_append.mp he
    · exact he
    · exact absurd (List.mem_singleton.mp he) (hne _)
  · exact he

theorem doneAndSetHeaders_outcomes (hr : Sound r) (h : ResponseHeaders) (entire : Bool) :
    outcomes (r.doneAndSetHeaders t h entire).effects = 1 :=
  (destruct_outcomes _).trans (settle_outcomes (judge_sound t hr h entire) _)

theorem doneAndSetHeaders_active (hr : Sound r) (h : ResponseHeaders) (entire : Bool) :
    activeChange (r.doneAndSetHeaders t h entire).effects = 0 := by
  apply destruct_active
  rw [settle_limit]
  exact settle_active (judge_sound t hr h entire) _

theorem mem_settle {e : Effect} (he : e ∈ (r.settle h).effects) :
    e ∈ r.effects ∨ e.isOutcome = true ∨ r.failure = false ∧ e = .put (r.storedHeaders h) r.resourceValue := by
  rw [settle] at he
  split at he
  · split at he
    · exact Or.inl he
    · obtain he | he := List.mem_append.mp he
      · exact Or.inl he
      · rw [List.mem_singleton.mp he]
        exact Or.inr (Or.inl rfl)
  · rename_i hfailure
    obtain he | he := List.mem_append.mp he
    · obtain he | he := List.mem_append.mp he
      · exact Or.inl he
      · exact Or.inr (Or.inr ⟨Bool.eq_false_iff.mpr hfailure, List.mem_singleton.mp he⟩)
    · rw [List.mem_singleton.mp he]
      exact Or.inr (Or.inl rfl)

theorem doneAndSetHeaders_put (hr : Sound r) {stored : ResponseHeaders} {contents : GoogleString}
    (hput : .put stored contents ∈ (r.doneAndSetHeaders t h entire).effects) :
    (r.judge t h entire).1.failure = false ∧ contents = (r.judge t h entire).1.resourceValue := by
  have hsettled := mem_destruct hput (fun _ => Effect.noConfusion)
  obtain he | he | ⟨hfailure, he⟩ := mem_settle hsettled
  · exact absurd ⟨stored, contents, rfl⟩ ((judge_sound t hr h entire).unstored _ he)
  · exact Bool.noConfusion he
  · injection he with _ hcontents
    exact ⟨hfailure, hcontents⟩

theorem doneAndSetHeaders_writeError
    (he : .writeError ∈ (r.doneAndSetHeaders t h entire).effects) : .writeError ∈ (r.judge t h entire).1.effects := by
  have hsettled := mem_destruct he (fun _ => Effect.noConfusion)
  obtain he | he | ⟨-, he⟩ := mem_settle hsettled
  · exact he
  · exact Bool.noConfusion he
  · exact Effect.noConfusion he

end Calls

end InPlaceResourceRecorder

end PageSpeed
