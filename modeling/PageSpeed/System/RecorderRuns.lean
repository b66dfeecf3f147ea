import PageSpeed.System.RecorderSteps

/-!
Whole recordings: what was asked of a response that reaches the cache, and that the cuts of its body do not matter.
-/

namespace PageSpeed

namespace InPlaceResourceRecorder

def Served (calls : List Call) : Prop :=
  ∀ before full after, calls = before ++ .considerResponseHeaders .full full :: after →
    ∀ kind h, .considerResponseHeaders kind h ∉ after

variable {calls : List Call}

theorem Served.of_append {later : List Call} (h : Served (calls ++ later)) : Served calls := by
  intro before full after hcalls kind headers hmem
  apply h before full (after ++ later) (by rw [hcalls, List.append_assoc, List.cons_append]) kind headers
  exact List.mem_append_left _ hmem

variable {g : GzipInflater} (t : TimeText)

theorem run_append (r : InPlaceResourceRecorder g) (calls later : List Call) :
    r.run t (calls ++ later) = (r.run t calls).run t later := List.foldl_append

theorem run_within {r : InPlaceResourceRecorder g} (hwithin : Within r) (calls : List Call)
    (hp : (r.run t calls).failure = false) : Within (r.run t calls) := by
  induction calls using List.reverseRecOn with
  | nil => exact hwithin
  | append_singleton calls call ih =>
    have hrun : r.run t (calls ++ [call]) = (r.run t calls).step t call := run_append t r calls [call]
    rw [hrun] at hp ⊢
    obtain ⟨hprev, -, -, hkept⟩ := step_passed t hp
    exact hkept (ih hprev)

structure Passing (start : InPlaceResourceRecorder g) (calls : List Call) : Prop where
  effects : (start.run t calls).effects = start.effects
  limit : (start.run t calls).maxResponseBytes = start.maxResponseBytes
  considered : (start.run t calls).fullResponseHeadersConsidered = true ↔
    ∃ full, .considerResponseHeaders .full full ∈ calls
  status : (start.run t calls).fullResponseHeadersConsidered = true → (start.run t calls).statusCode = 200
  allowed : ∀ before full after, calls = before ++ .considerResponseHeaders .full full :: after →
    Allowed t (start.run t before) full

theorem step_considered {r : InPlaceResourceRecorder g} {call : Call} (hp : (r.step t call).failure = false) :
    (r.step t call).fullResponseHeadersConsidered = true ↔
      r.fullResponseHeadersConsidered = true ∨ ∃ full, call = .considerResponseHeaders .full full := by
  cases call with
  | considerResponseHeaders kind h =>
    obtain ⟨heq, -⟩ := considerResponseHeaders_passed t hp
    rw [step, heq]
    simp
  | write bytes =>
    obtain ⟨-, -, _, _, heq⟩ := write_passed hp
    rw [step, heq]
    simp
  | saveCacheControl cacheControl => simp [step, saveCacheControl]
  | setOriginCachingHeaders origin => simp [step, setOriginCachingHeaders]
  | fail => exact Bool.noConfusion hp

theorem step_status {r : InPlaceResourceRecorder g} {call : Call} (hp : (r.step t call).failure = false)
    (hcall : ∀ kind h, call ≠ .considerResponseHeaders kind h) : (r.step t call).statusCode = r.statusCode := by
  cases call with
  | considerResponseHeaders kind h => exact absurd rfl (hcall kind h)
  | write bytes =>
    obtain ⟨-, -, _, _, heq⟩ := write_passed hp
    rw [step, heq]
  | saveCacheControl cacheControl => rfl
  | setOriginCachingHeaders origin => rfl
  | fail => exact Bool.noConfusion hp

theorem run_passing {start : InPlaceResourceRecorder g}
    (hnone : start.fullResponseHeadersConsidered = false) (hserved : Served calls)
    (hp : (start.run t calls).failure = false) : Passing t start calls := by
  induction calls using List.reverseRecOn with
  | nil =>
    constructor
    · rfl
    · rfl
    · simp [run, hnone]
    · intro hfull
      exact Bool.noConfusion (hnone.symm.trans hfull)
    · intro before full after hcalls
      simp at hcalls
  | append_singleton calls call ih =>
    have hrun : start.run t (calls ++ [call]) = (start.run t calls).step t call := run_append t start calls [call]
    rw [hrun] at hp
    obtain ⟨hprev, heffects, hlimit, -⟩ := step_passed t hp
    have hpassing := ih hserved.of_append hprev
    have hconsidered := step_considered t hp
    constructor
    · rw [hrun, heffects, hpassing.effects]
    · rw [hrun, hlimit, hpassing.limit]
    · rw [hrun, hconsidered, hpassing.considered]
      constructor
      · rintro (⟨full, hfull⟩ | ⟨full, rfl⟩)
        · exact ⟨full, List.mem_append_left _ hfull⟩
        · exact ⟨full, List.mem_append_right _ List.mem_cons_self⟩
      · rintro ⟨full, hfull⟩
        obtain hfull | hfull := List.mem_append.mp hfull
        · exact Or.inl ⟨full, hfull⟩
        · exact Or.inr ⟨full, (List.mem_singleton.mp hfull).symm⟩
    · rw [hrun, hconsidered]
      intro hfull
      by_cases hcall : ∃ kind h, call = .considerResponseHeaders kind h
      · obtain ⟨kind, h, rfl⟩ := hcall
        obtain ⟨heq, -, hallowed⟩ := considerResponseHeaders_passed t hp
        have hkind : kind = .full := by
          obtain hfull | ⟨full, hfull⟩ := hfull
          · obtain ⟨full, hmem⟩ := hpassing.considered.mp hfull
            obtain ⟨before, after, rfl⟩ := List.append_of_mem hmem
            apply absurd _ (hserved before full (after ++ [.considerResponseHeaders kind h]) (by simp) kind h)
            exact List.mem_append_right _ List.mem_cons_self
          · injection hfull
        rw [step, heq]
        exact (hallowed hkind).status
      · rw [step_status t hp fun kind h heq => hcall ⟨kind, h, heq⟩]
        apply hpassing.status
        obtain hfull | ⟨full, rfl⟩ := hfull
        · exact hfull
        · exact absurd ⟨_, _, rfl⟩ hcall
    · intro before full after hcalls
      obtain rfl | ⟨after, last, rfl⟩ := List.eq_nil_or_concat after
      · obtain ⟨rfl, hlast⟩ := List.append_inj' hcalls rfl
        obtain rfl := List.singleton_inj.mp hlast
        obtain ⟨-, -, hallowed⟩ := considerResponseHeaders_passed t hp
        exact hallowed rfl
      · rw [List.concat_eq_append, ← List.cons_append, ← List.append_assoc] at hcalls
        obtain ⟨hcalls, -⟩ := List.append_inj' hcalls rfl
        exact hpassing.allowed before full after hcalls

structure Stored (start : InPlaceResourceRecorder g) (calls : List Call) (h : ResponseHeaders) (entire : Bool)
    (contents : GoogleString) : Prop where
  complete : entire = true
  written : .writeError ∉ ((start.run t calls).doneAndSetHeaders t h entire).effects
  early : ∀ before full after, calls = before ++ .considerResponseHeaders .full full :: after →
    Allowed t (start.run t before) full
  final : (∀ full, .considerResponseHeaders .full full ∉ calls) → Allowed t (start.run t calls) h
  nonEmpty : contents ≠ []

theorem put_stored {start : InPlaceResourceRecorder g} (hsound : Sound start) (hwithin : Within start)
    (hnone : start.fullResponseHeadersConsidered = false) (hwritten : .writeError ∉ start.effects)
    (hserved : Served calls) {h stored : ResponseHeaders} {entire : Bool} {contents : GoogleString}
    (hput : .put stored contents ∈ ((start.run t calls).doneAndSetHeaders t h entire).effects) :
    Stored t start calls h entire contents ∧
      (start.maxResponseBytes ≤ 0 ∨ (contents.length : ℤ) < start.maxResponseBytes) := by
  obtain ⟨hjudged, rfl⟩ := doneAndSetHeaders_put t (run_sound t hsound calls) hput
  obtain ⟨hentire, hp, heffects, hcontents, hallowed, hnonEmpty⟩ := judge_passed t hjudged
  have hpassing := run_passing t hnone hserved hp
  constructor
  · constructor
    · exact hentire
    · intro herror
      have hwas := doneAndSetHeaders_writeError t herror
      rw [heffects, hpassing.effects] at hwas
      exact hwritten hwas
    · exact hpassing.allowed
    · intro hnofull
      apply hallowed
      apply Bool.eq_false_iff.mpr
      intro hfull
      obtain ⟨full, hmem⟩ := hpassing.considered.mp hfull
      exact hnofull full hmem
    · rw [hcontents]
      exact hnonEmpty hpassing.status
  · rw [hcontents, ← hpassing.limit]
    exact run_within t hwithin calls hp

end InPlaceResourceRecorder

end PageSpeed
