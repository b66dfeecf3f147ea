import PageSpeed.System.RecorderRuns

/-!
The cuts of an uncompressed body: once a recording is refused its body is not looked at again, and until then two
writes are one write of both.
-/

namespace PageSpeed

namespace InPlaceResourceRecorder

variable {g : GzipInflater} (t : TimeText)

def shell (r : InPlaceResourceRecorder g) : InPlaceResourceRecorder g := { r with fetch := none, resourceValue := [] }

@[simp] theorem shell_requestProperties (r : InPlaceResourceRecorder g) :
    r.shell.requestProperties = r.requestProperties := rfl

@[simp] theorem shell_respectVary (r : InPlaceResourceRecorder g) : r.shell.respectVary = r.respectVary := rfl

@[simp] theorem shell_contentLengthExceeds (h : ResponseHeaders) (r : InPlaceResourceRecorder g) :
    r.shell.contentLengthExceeds h = r.contentLengthExceeds h := rfl

@[simp] theorem shell_originCachingHeaders (r : InPlaceResourceRecorder g) :
    r.shell.originCachingHeaders = r.originCachingHeaders := rfl

@[simp] theorem shell_savedCacheControl (r : InPlaceResourceRecorder g) :
    r.shell.savedCacheControl = r.savedCacheControl := rfl

@[simp] theorem shell_statusCode (r : InPlaceResourceRecorder g) : r.shell.statusCode = r.statusCode := rfl

@[simp] theorem shell_considerResponseHeadersCalled (r : InPlaceResourceRecorder g) :
    r.shell.considerResponseHeadersCalled = r.considerResponseHeadersCalled := rfl

theorem emit_shell (e : Effect) (r : InPlaceResourceRecorder g) : r.shell.emit e = (r.emit e).shell := rfl

theorem recordSpecificOutcome_shell (c : Counter) (r : InPlaceResourceRecorder g) :
    r.shell.recordSpecificOutcome c = (r.recordSpecificOutcome c).shell := by
  rw [recordSpecificOutcome, recordSpecificOutcome, apply_ite shell]
  rfl

theorem refuse_shell (c : Counter) (r : InPlaceResourceRecorder g) :
    { r.shell.recordSpecificOutcome c with failure := true } =
      shell { r.recordSpecificOutcome c with failure := true } := by
  rw [recordSpecificOutcome_shell]
  rfl

theorem droppedAsUncacheable_shell (r : InPlaceResourceRecorder g) :
    r.shell.droppedAsUncacheable = r.droppedAsUncacheable.shell := by
  rw [droppedAsUncacheable, droppedAsUncacheable, apply_ite shell]
  rfl

theorem droppedDueToSize_shell (r : InPlaceResourceRecorder g) :
    r.shell.droppedDueToSize = r.droppedDueToSize.shell := by
  rw [droppedDueToSize, recordSpecificOutcome_shell, droppedAsUncacheable_shell, droppedDueToSize]

theorem considerFullHeaders_shell (h : ResponseHeaders) (r : InPlaceResourceRecorder g) :
    (r.shell.considerFullHeaders t h).1 = (r.considerFullHeaders t h).1.shell := by
  simp only [considerFullHeaders, shell_requestProperties, shell_respectVary, shell_originCachingHeaders,
    shell_savedCacheControl, shell_statusCode, emit_shell, droppedAsUncacheable_shell, recordSpecificOutcome_shell]
  split
  · rfl
  · split
    · rfl
    · split
      · rfl
      · rfl

theorem considerDecodable_shell (kind : HeadersKind) (h : ResponseHeaders) (r : InPlaceResourceRecorder g) :
    (r.shell.considerDecodable t kind h).1 = (r.considerDecodable t kind h).1.shell := by
  simp only [considerDecodable, shell_contentLengthExceeds, droppedDueToSize_shell, recordSpecificOutcome_shell,
    droppedAsUncacheable_shell]
  split
  · rfl
  · split
    · split
      · rfl
      · rfl
    · split
      · rfl
      · exact considerFullHeaders_shell t h { r with fullResponseHeadersConsidered := true }

theorem considerResponseHeaders_shell (kind : HeadersKind) (h : ResponseHeaders) (r : InPlaceResourceRecorder g) :
    (r.shell.considerResponseHeaders t kind h).1 = (r.considerResponseHeaders t kind h).1.shell := by
  simp only [considerResponseHeaders, shell_considerResponseHeadersCalled]
  split
  · exact considerDecodable_shell t kind h { r with statusCode := h.status }
  · split
    · exact considerDecodable_shell t kind h
        { r with considerResponseHeadersCalled := true, fetchHeaders := h.copyFrom, statusCode := h.status }
    · exact refuse_shell _ { r with considerResponseHeadersCalled := true }

theorem step_shell {r : InPlaceResourceRecorder g} (hr : r.failure = true) (call : Call) :
    r.shell.step t call = (r.step t call).shell := by
  cases call with
  | considerResponseHeaders kind h => exact considerResponseHeaders_shell t kind h r
  | write bytes =>
    have hshell : r.shell.failure = true := hr
    rw [step, step, write, write, if_pos hr, if_pos hshell]
  | saveCacheControl cacheControl => rfl
  | setOriginCachingHeaders origin => rfl
  | fail => rfl

theorem settle_shell {r : InPlaceResourceRecorder g} (hr : r.failure = true) (h : ResponseHeaders) :
    r.shell.settle h = (r.settle h).shell := by
  have hshell : r.shell.failure = true := hr
  rw [settle, settle, if_pos hr, if_pos hshell, apply_ite shell]
  rfl

theorem destruct_shell (r : InPlaceResourceRecorder g) : r.shell.destruct = r.destruct.shell := by
  rw [destruct, destruct, apply_ite shell]
  rfl

theorem doneAndSetHeaders_shell {r : InPlaceResourceRecorder g} (hr : r.failure = true) (h : ResponseHeaders)
    (entire : Bool) : (r.shell.doneAndSetHeaders t h entire).effects = (r.doneAndSetHeaders t h entire).effects := by
  have hshell : r.shell.failure = true := hr
  rw [doneAndSetHeaders, doneAndSetHeaders, judge_failed t hr, judge_failed t hshell]
  dsimp only
  rw [settle_shell hr, destruct_shell]
  rfl

def Same (r r' : InPlaceResourceRecorder g) : Prop :=
  r = r' ∨ r.failure = true ∧ r'.failure = true ∧ r.shell = r'.shell

theorem Same.trans {r r' r'' : InPlaceResourceRecorder g} (h : Same r r') (h' : Same r' r'') : Same r r'' := by
  obtain rfl | ⟨hr, hr', heq⟩ := h
  · exact h'
  · obtain rfl | ⟨-, hr'', heq'⟩ := h'
    · exact Or.inr ⟨hr, hr', heq⟩
    · exact Or.inr ⟨hr, hr'', heq.trans heq'⟩

theorem Same.symm {r r' : InPlaceResourceRecorder g} (h : Same r r') : Same r' r := by
  obtain rfl | ⟨hr, hr', heq⟩ := h
  · exact Or.inl rfl
  · exact Or.inr ⟨hr', hr, heq.symm⟩

theorem step_failure {r : InPlaceResourceRecorder g} (hr : r.failure = true) (call : Call) :
    (r.step t call).failure = true := by
  cases hp : (r.step t call).failure with
  | true => rfl
  | false => exact Bool.noConfusion ((step_passed t hp).1.symm.trans hr)

theorem Same.step {r r' : InPlaceResourceRecorder g} (h : Same r r') (call : Call) :
    Same (r.step t call) (r'.step t call) := by
  obtain rfl | ⟨hr, hr', heq⟩ := h
  · exact Or.inl rfl
  · refine Or.inr ⟨step_failure t hr call, step_failure t hr' call, ?_⟩
    rw [← step_shell t hr, ← step_shell t hr', heq]

theorem Same.run {r r' : InPlaceResourceRecorder g} (h : Same r r') (calls : List Call) :
    Same (r.run t calls) (r'.run t calls) := by
  induction calls generalizing r r' with
  | nil => exact h
  | cons call calls ih => exact ih (h.step t call)

theorem Same.effects {r r' : InPlaceResourceRecorder g} (hsame : Same r r') (h : ResponseHeaders) (entire : Bool) :
    (r.doneAndSetHeaders t h entire).effects = (r'.doneAndSetHeaders t h entire).effects := by
  obtain rfl | ⟨hr, hr', heq⟩ := hsame
  · rfl
  · rw [← doneAndSetHeaders_shell t hr, ← doneAndSetHeaders_shell t hr', heq]

def accept (bytes : GoogleString) (r : InPlaceResourceRecorder g) : InPlaceResourceRecorder g :=
  { r with
    fetch := if bytes.isEmpty then r.fetch else some .plain
    resourceValue := r.resourceValue ++ bytes }

theorem accept_accept (first second : GoogleString) (r : InPlaceResourceRecorder g) :
    (r.accept first).accept second = r.accept (first ++ second) := by
  cases first with
  | nil => simp [accept]
  | cons c first =>
    cases second with
    | nil => simp [accept]
    | cons d second => simp [accept]

def Plain (r : InPlaceResourceRecorder g) : Prop :=
  r.fetch.getD (InflatingFetch.headersComplete g r.fetchHeaders) = .plain

theorem Plain.accept {r : InPlaceResourceRecorder g} (h : Plain r) (bytes : GoogleString) : Plain (r.accept bytes) := by
  rw [Plain, InPlaceResourceRecorder.accept]
  dsimp only
  split
  · exact h
  · rfl

theorem write_plain {r : InPlaceResourceRecorder g} (hr : r.failure = false) (hplain : Plain r) (bytes : GoogleString) :
    (r.write bytes).1 = if Within (r.accept bytes) then r.accept bytes else (r.accept bytes).droppedDueToSize := by
  have hwritten : r.writeToResourceValue bytes = r.accept bytes := by
    rw [writeToResourceValue, hplain]
    cases bytes with
    | nil => simp [accept]
    | cons c bytes => simp [accept, InflatingFetch.handleWrite, hr]
  rw [write, hr, if_neg Bool.false_ne_true, hwritten]
  by_cases hwithin : Within (r.accept bytes)
  · rw [if_pos hwithin]
    exact congrArg Prod.fst (if_pos hwithin)
  · rw [if_neg hwithin]
    exact congrArg Prod.fst (if_neg hwithin)

theorem write_failed {r : InPlaceResourceRecorder g} (hr : r.failure = true) (bytes : GoogleString) :
    (r.write bytes).1 = r := by
  rw [write, if_pos hr]

theorem write_write {r : InPlaceResourceRecorder g} (hplain : r.failure = false → Plain r)
    (first second : GoogleString) : Same ((r.write first).1.write second).1 (r.write (first ++ second)).1 := by
  cases hr : r.failure with
  | true =>
    rw [write_failed hr, write_failed hr, write_failed hr]
    exact Or.inl rfl
  | false =>
    rw [write_plain hr (hplain hr) first, write_plain hr (hplain hr) (first ++ second)]
    by_cases hwithin : Within (r.accept first)
    · have hfirst : (r.accept first).failure = false := hr
      rw [if_pos hwithin, write_plain hfirst ((hplain hr).accept first) second, accept_accept]
      exact Or.inl rfl
    · have hlonger : ¬ Within (r.accept (first ++ second)) := by
        simp only [Within, accept, List.length_append, not_or] at hwithin ⊢
        omega
      rw [if_neg hwithin, if_neg hlonger, write_failed (droppedDueToSize_failure _)]
      refine Or.inr ⟨droppedDueToSize_failure _, droppedDueToSize_failure _, ?_⟩
      rw [← droppedDueToSize_shell, ← droppedDueToSize_shell]
      rfl

theorem write_nil {r : InPlaceResourceRecorder g} (hwithin : r.failure = false → Within r) : (r.write []).1 = r := by
  cases hr : r.failure with
  | true => exact write_failed hr []
  | false =>
    rw [write, hr, if_neg Bool.false_ne_true]
    dsimp only [writeToResourceValue]
    rw [if_pos List.isEmpty_nil]
    exact congrArg Prod.fst (if_pos (hwithin hr))

theorem run_writes {r : InPlaceResourceRecorder g} (hplain : r.failure = false → Plain r)
    (hwithin : r.failure = false → Within r) (pieces : List GoogleString) :
    Same (r.run t (pieces.map .write)) (r.write pieces.flatten).1 := by
  induction pieces generalizing r with
  | nil => exact Or.inl (write_nil hwithin).symm
  | cons piece pieces ih =>
    have hpiece : Same ((r.write piece).1.run t (pieces.map .write)) ((r.write piece).1.write pieces.flatten).1 := by
      apply ih
      · intro hp
        obtain ⟨hr, -⟩ := write_passed hp
        rw [write_plain hr (hplain hr)] at hp ⊢
        split at hp
        · rename_i hin
          rw [if_pos hin]
          exact (hplain hr).accept piece
        · rw [droppedDueToSize_failure] at hp
          exact Bool.noConfusion hp
      · intro hp
        exact (write_passed hp).2.1
    exact hpiece.trans (write_write hplain piece pieces.flatten)

def Call.headers : Call → Option ResponseHeaders
  | .considerResponseHeaders _ h => some h
  | _ => none

def Uncompressed (calls : List Call) : Prop :=
  ∀ h, calls.findSome? Call.headers = some h → InflatingFetch.contentCoding h.copyFrom = none

variable {calls : List Call}

theorem Uncompressed.tail {call : Call} (h : Uncompressed (call :: calls))
    (hcall : call.headers = none) : Uncompressed calls := by
  intro first hfirst
  apply h first
  rw [List.findSome?_cons, hcall]
  exact hfirst

structure Uncoded (r : InPlaceResourceRecorder g) (calls : List Call) : Prop where
  fetch : r.fetch = none ∨ r.fetch = some .plain
  headers : InflatingFetch.contentCoding r.fetchHeaders = none
  pending : r.considerResponseHeadersCalled = false → Uncompressed calls

theorem Uncoded.plain {r : InPlaceResourceRecorder g} (h : Uncoded r calls) : Plain r := by
  obtain hnone | hsome := h.fetch
  · rw [Plain, hnone, Option.getD_none, InflatingFetch.headersComplete, h.headers]
  · rw [Plain, hsome, Option.getD_some]

theorem Uncoded.step {r : InPlaceResourceRecorder g} {call : Call} (h : Uncoded r (call :: calls))
    (hp : (r.step t call).failure = false) : Uncoded (r.step t call) calls := by
  cases call with
  | considerResponseHeaders kind headers =>
    obtain ⟨heq, -, -⟩ := considerResponseHeaders_passed t hp
    rw [InPlaceResourceRecorder.step, heq]
    refine ⟨h.fetch, ?_, Bool.noConfusion⟩
    dsimp only
    split
    · exact h.headers
    · rename_i hcalled
      exact h.pending (Bool.eq_false_iff.mpr hcalled) headers rfl
  | write bytes =>
    obtain ⟨hr, -⟩ := write_passed hp
    rw [InPlaceResourceRecorder.step] at hp ⊢
    rw [write_plain hr h.plain] at hp ⊢
    split at hp
    · rename_i hwithin
      rw [if_pos hwithin]
      refine ⟨?_, h.headers, fun hcalled => (h.pending hcalled).tail rfl⟩
      rw [accept]
      dsimp only
      split
      · exact h.fetch
      · exact Or.inr rfl
    · rw [droppedDueToSize_failure] at hp
      exact Bool.noConfusion hp
  | saveCacheControl cacheControl => exact ⟨h.fetch, h.headers, fun hcalled => (h.pending hcalled).tail rfl⟩
  | setOriginCachingHeaders origin => exact ⟨h.fetch, h.headers, fun hcalled => (h.pending hcalled).tail rfl⟩
  | fail => exact Bool.noConfusion hp

theorem run_failure {r : InPlaceResourceRecorder g} (hr : r.failure = true) (calls : List Call) :
    (r.run t calls).failure = true := by
  induction calls generalizing r with
  | nil => exact hr
  | cons call calls ih => exact ih (step_failure t hr call)

theorem Uncoded.run {r : InPlaceResourceRecorder g} {later : List Call} (h : Uncoded r (calls ++ later))
    (hp : (r.run t calls).failure = false) : Uncoded (r.run t calls) later := by
  induction calls generalizing r with
  | nil => exact h
  | cons call calls ih =>
    have hstep : (r.step t call).failure = false := by
      apply Bool.eq_false_iff.mpr
      intro hfailure
      exact Bool.noConfusion (hp.symm.trans (run_failure t hfailure calls))
    exact ih (h.step t hstep) hp

theorem cut_same {start : InPlaceResourceRecorder g} (hwithin : Within start) {before after : List Call}
    {pieces : List GoogleString} (hcoded : Uncoded start (before ++ pieces.map .write ++ after)) :
    Same (start.run t (before ++ pieces.map .write ++ after))
      (((start.run t before).write pieces.flatten).1.run t after) := by
  rw [run_append, run_append]
  apply Same.run
  rw [List.append_assoc] at hcoded
  apply run_writes
  · exact fun hp => (hcoded.run t hp).plain
  · exact fun hp => run_within t hwithin before hp

end InPlaceResourceRecorder

end PageSpeed
