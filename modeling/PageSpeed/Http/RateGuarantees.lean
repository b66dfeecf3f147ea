import PageSpeed.Http.RateQueues

/-!
No fetch is lost, in a run that deletes no entry of a busy object, where queued
fetches can be started at all.
-/

namespace PageSpeed.RateController

open Bag

variable {settings : Settings} {c : RateController} {T : Multiset Token} {l l' : Ledger} {s : State}

def Frame.isHandleDone : Frame → Bool
  | .handleDone _ _ => true
  | .decrement _ => true
  | .popNext _ => true
  | .checkShutDown _ _ => true
  | .schedule _ _ => true
  | .startPending => true
  | .dropQueued _ _ => true
  | .releaseSlot _ => true
  | .popDropped _ => true
  | _ => false

def State.Completing (s : State) : Prop := ∃ thread ∈ s.threads, ∃ frame ∈ thread.stack, frame.isHandleDone = true

def dropped (c : RateController) : Multiset AsyncFetch := completedBy c fun outcome => !outcome.isFetched

def allCompleted (c : RateController) : Multiset AsyncFetch := completedBy c fun _ => true

structure NoneLost (settings : Settings) (s : State) : Prop where
  once : ∀ fetch, s.controller.started.count fetch + (dropped s.controller).count fetch ≤ 1 ∧
    (allCompleted s.controller).count fetch ≤ 1
  /-- When no call has a step left and the base fetcher has nothing, every fetch has been started or dropped, and
  completed. -/
  all : (∀ t, step settings s (.proceed t) = none) → s.controller.outstanding = [] → ∀ fetch ∈ s.controller.asked,
    s.controller.started.count fetch + (dropped s.controller).count fetch = 1 ∧
      (allCompleted s.controller).count fetch = 1
  /-- A queue has an outstanding fetch of its host to wait for. -/
  fed : ¬ s.Completing → ∀ i, (s.controller.infos i).fetchQueue ≠ [] →
    ∃ wrapper, wrapper.fetchInfo = i ∧ isFor settings (s.controller.infos i).host wrapper ∧
      (.custom wrapper ∈ s.controller.outstanding ∨
        ∃ thread ∈ s.threads, .handOff (.custom wrapper) ∈ thread.stack)
  counted : ¬ s.Completing → s.controller.currentGlobalFetchQueueSize = (backlog s.controller).card
  capped : s.controller.currentGlobalFetchQueueSize ≤ settings.maxGlobalQueueSize
  fifo : ∀ host, s.controller.dequeued.filter (onHost settings host) <+:
    s.controller.queued.filter (onHost settings host)

theorem completedBy_split (c : RateController) :
    allCompleted c = completedBy c Outcome.isFetched + dropped c := by
  rw [allCompleted, dropped, completedBy, completedBy, completedBy, List.filter_true, Multiset.coe_add, ← List.map_append]
  exact Multiset.coe_eq_coe.mpr ((List.filter_append_perm _ _).symm.map _)

theorem returned_le_fetches (T : Multiset Token) : tally Token.returned T ≤ tally Token.fetches T := by
  induction T using Multiset.induction with
  | empty => exact le_refl _
  | cons token T ih =>
    rw [tally_cons, tally_cons]
    refine add_le_add ?_ ih
    cases token with
    | returning wrapper => exact le_refl _
    | _ => exact Multiset.zero_le _

theorem with_returned_le (l : Ledger) :
    withBaseFetcher l.controller + tally Token.returned l.all ≤ tally Token.fetches l.all := by
  rw [Ledger.all, tally_add, tally_add]
  have hfetches : tally Token.fetches (l.controller.outstanding.map BaseFetch.token : List Token) =
      withBaseFetcher l.controller := by
    rw [withBaseFetcher]
    induction l.controller.outstanding with
    | nil => rfl
    | cons fetch rest ih =>
      rw [List.map_cons, List.map_cons, ← Multiset.cons_coe, ← Multiset.cons_coe, tally_cons, ih,
        ← Multiset.singleton_add]
      cases fetch <;> rfl
  have hreturned : tally Token.returned (l.controller.outstanding.map BaseFetch.token : List Token) = 0 := by
    induction l.controller.outstanding with
    | nil => rfl
    | cons fetch rest ih =>
      rw [List.map_cons, ← Multiset.cons_coe, tally_cons, ih]
      cases fetch <;> rfl
  rw [hfetches, hreturned, add_zero, add_comm]
  exact add_le_add_left (returned_le_fetches _) _

theorem started_le (h : Accounted settings l) :
    (l.controller.started : Multiset AsyncFetch) + dropped l.controller ≤ l.controller.asked := by
  rw [h.started, h.asked, add_assoc, ← completedBy_split]
  refine add_le_add ((with_returned_le l).trans ?_) (le_refl _)
  exact Multiset.le_add_right _ _

theorem once_of_accounted (h : Accounted settings l) (fetch : AsyncFetch) :
    l.controller.started.count fetch + (dropped l.controller).count fetch ≤ 1 ∧
      (allCompleted l.controller).count fetch ≤ 1 := by
  have hcount : (l.controller.asked : Multiset AsyncFetch).count fetch ≤ 1 :=
    Multiset.nodup_iff_count_le_one.mp (Multiset.coe_nodup.mpr h.nodup) fetch
  constructor
  · have hle := Multiset.count_le_of_le fetch (started_le h)
    rw [Multiset.count_add, Multiset.coe_count] at hle
    omega
  · refine (Multiset.count_le_of_le fetch ?_).trans hcount
    rw [h.asked]
    exact Multiset.le_add_left _ _

theorem pendingStarts_none {thread : Thread} (hok : thread.Ok settings)
    (hquiet : ∀ frame ∈ thread.stack, frame.isHandleDone = false) : thread.pendingStarts = none := by
  have hcount : thread.stack.count .startPending = 0 :=
    List.count_eq_zero.mpr fun hmem => by cases hquiet _ hmem
  have hloop := hok.loop
  rw [hcount] at hloop
  cases hpending : thread.pendingStarts with
  | none => rfl
  | some starts =>
    rw [hpending] at hloop
    cases hloop

theorem token_of_not_completing (hok : s.Ok settings) (hquiet : ¬ s.Completing) {token : Token} (hmem : token ∈ s.tokens) :
    (∃ fetch, token = .held fetch) ∨ ∃ wrapper, token = .slot wrapper ∧
      ∃ thread ∈ s.threads, .handOff (.custom wrapper) ∈ thread.stack := by
  obtain ⟨thread, hthread, htoken⟩ := mem_total.mp hmem
  have hframes : ∀ frame ∈ thread.stack, frame.isHandleDone = false := by
    intro frame hframe
    by_contra hdone
    exact hquiet ⟨thread, hthread, frame, hframe, Bool.not_eq_false _ ▸ hdone⟩
  rw [Thread.tokens, pendingStarts_none (hok thread hthread) hframes, pendingTokens_none, add_zero] at htoken
  obtain ⟨frame, hframe, htoken⟩ := mem_total.mp htoken
  have hdone := hframes frame hframe
  cases frame with
  | fetch fetch => exact Or.inl ⟨fetch, Multiset.mem_singleton.mp htoken⟩
  | chargeOrQueue fetch host => exact Or.inl ⟨fetch, Multiset.mem_singleton.mp htoken⟩
  | drop fetch i => exact Or.inl ⟨fetch, Multiset.mem_singleton.mp htoken⟩
  | handOff fetch =>
    cases fetch with
    | direct fetch => exact Or.inl ⟨fetch, Multiset.mem_singleton.mp htoken⟩
    | custom wrapper => exact Or.inr ⟨wrapper, Multiset.mem_singleton.mp htoken, thread, hthread, hframe⟩
  | external => cases htoken
  | deleteFetchInfo i => cases htoken
  | _ => cases hdone

theorem token_all (hok : s.Ok settings) (hquiet : ¬ s.Completing) {token : Token} (hmem : token ∈ s.ledger.all) :
    (∃ fetch, token = .held fetch) ∨ ∃ wrapper, token = .slot wrapper ∧ (.custom wrapper ∈ s.controller.outstanding ∨
      ∃ thread ∈ s.threads, .handOff (.custom wrapper) ∈ thread.stack) := by
  rcases Multiset.mem_add.mp hmem with hmem | hmem
  · rcases token_of_not_completing hok hquiet hmem with hheld | ⟨wrapper, heq, hhand⟩
    · exact Or.inl hheld
    · exact Or.inr ⟨wrapper, heq, Or.inr hhand⟩
  · obtain ⟨fetch, hout, rfl⟩ := List.mem_map.mp (Multiset.mem_coe.mp hmem)
    cases fetch with
    | direct fetch => exact Or.inl ⟨fetch, rfl⟩
    | custom wrapper => exact Or.inr ⟨wrapper, rfl, Or.inl hout⟩

theorem tally_eq_zero {φ : Token → ℕ} (h : ∀ token ∈ T, φ token = 0) : tally φ T = 0 := by
  refine Multiset.sum_eq_zero fun n hn => ?_
  obtain ⟨token, hmem, rfl⟩ := Multiset.mem_map.mp hn
  exact h token hmem

theorem fed_of_tracked (hok : s.Ok settings) (h : Tracked settings s.ledger)
    (hfeeds : 1 ≤ settings.perHostOutgoingRequestThreshold ∨ settings.perHostQueuedRequestThreshold = 0)
    (hquiet : ¬ s.Completing) {i : ℕ} (hqueue : (s.controller.infos i).fetchQueue ≠ []) :
    ∃ wrapper, wrapper.fetchInfo = i ∧ isFor settings (s.controller.infos i).host wrapper ∧
      (.custom wrapper ∈ s.controller.outstanding ∨
        ∃ thread ∈ s.threads, .handOff (.custom wrapper) ∈ thread.stack) := by
  have hthreshold : 1 ≤ settings.perHostOutgoingRequestThreshold := by
    refine hfeeds.resolve_right fun hzero => hqueue (List.length_eq_zero_iff.mp ?_)
    have hshort := h.charged.short i
    rw [hzero] at hshort
    exact Nat.le_zero.mp hshort
  have hpops : tally (Token.pops i) s.ledger.all = 0 := tally_eq_zero fun token hmem => by
    rcases token_all hok hquiet hmem with ⟨fetch, rfl⟩ | ⟨wrapper, rfl, -⟩ <;> rfl
  have hpos : tally (Token.charges i) s.ledger.all ≠ 0 := by
    have hfed := h.charged.fed i hqueue
    rw [hpops, h.charged.charged i] at hfed
    omega
  obtain ⟨token, hmem, hcharge⟩ : ∃ token ∈ s.ledger.all, Token.charges i token ≠ 0 := by
    by_contra hnone
    push Not at hnone
    exact hpos (tally_eq_zero hnone)
  rcases token_all hok hquiet hmem with ⟨fetch, rfl⟩ | ⟨wrapper, rfl, hwhere⟩
  · cases hcharge rfl
  · have hi : wrapper.fetchInfo = i := by
      by_contra hne
      exact hcharge (if_neg hne)
    refine ⟨wrapper, hi, ?_, hwhere⟩
    have hout : wrapper ∈ s.ledger.outgoing := by
      obtain ⟨R, hR⟩ := Multiset.exists_cons_of_mem hmem
      rw [Ledger.outgoing, hR, tally_cons]
      exact Multiset.mem_add.mpr (Or.inl (Multiset.mem_singleton_self wrapper))
    subst hi
    exact h.placed.placed wrapper hout

theorem proceed_none {t : ℕ} {thread : Thread} (hthread : s.threads[t]? = some thread)
    (hstuck : step settings s (.proceed t) = none) : thread.stack = [] := by
  obtain ⟨stack, pending⟩ := thread
  cases stack with
  | nil => rfl
  | cons frame stack =>
    rw [step, hthread] at hstuck
    cases hstuck

theorem all_of_stuck (hok : s.Ok settings) (h : Tracked settings s.ledger) (ha : Accounted settings s.ledger)
    (hfeeds : 1 ≤ settings.perHostOutgoingRequestThreshold ∨ settings.perHostQueuedRequestThreshold = 0)
    (hstuck : ∀ t, step settings s (.proceed t) = none) (hnone : s.controller.outstanding = []) {fetch : AsyncFetch}
    (hmem : fetch ∈ s.controller.asked) :
    s.controller.started.count fetch + (dropped s.controller).count fetch = 1 ∧
      (allCompleted s.controller).count fetch = 1 := by
  have hempty : ∀ thread ∈ s.threads, thread.stack = [] := by
    intro thread hthread
    obtain ⟨t, ht⟩ := List.mem_iff_getElem?.mp hthread
    exact proceed_none ht (hstuck t)
  have hquiet : ¬ s.Completing := by
    rintro ⟨thread, hthread, frame, hframe, -⟩
    rw [hempty thread hthread] at hframe
    cases hframe
  have hall : s.ledger.all = 0 := by
    refine Multiset.eq_zero_of_forall_notMem fun token hmem => ?_
    rcases Multiset.mem_add.mp hmem with hmem | hmem
    · obtain ⟨thread, hthread, htoken⟩ := mem_total.mp hmem
      rw [Thread.tokens, pendingStarts_none (hok thread hthread) (by rw [hempty thread hthread]; exact List.forall_mem_nil _),
        hempty thread hthread] at htoken
      cases htoken
    · change token ∈ ((s.controller.outstanding.map BaseFetch.token : List Token) : Multiset Token) at hmem
      rw [hnone] at hmem
      cases hmem
  have hbacklog : backlog s.controller = 0 := by
    refine Finset.sum_eq_zero fun i _ => ?_
    by_contra hqueue
    obtain ⟨wrapper, -, -, hout | ⟨thread, hthread, hframe⟩⟩ := fed_of_tracked hok h hfeeds hquiet (i := i)
      fun heq => hqueue (by rw [heq]; rfl)
    · rw [hnone] at hout
      cases hout
    · rw [hempty thread hthread] at hframe
      cases hframe
  have hasked : (s.controller.asked : Multiset AsyncFetch) = allCompleted s.controller := by
    have hfull := ha.asked
    rw [hall, show backlog s.ledger.controller = 0 from hbacklog] at hfull
    exact hfull.trans (by rw [tally_zero, add_zero, zero_add]; rfl)
  have hstarted : (s.controller.started : Multiset AsyncFetch) = completedBy s.controller Outcome.isFetched := by
    have hfull := ha.started
    rw [hall, tally_zero, add_zero, withBaseFetcher] at hfull
    change _ = ((s.controller.outstanding.map BaseFetch.fetch : List AsyncFetch) : Multiset AsyncFetch) + _ at hfull
    rw [hnone] at hfull
    exact hfull.trans (zero_add _)
  have hone : (allCompleted s.controller).count fetch = 1 := by
    rw [← hasked]
    exact Multiset.count_eq_one_of_mem (Multiset.coe_nodup.mpr ha.nodup) (Multiset.mem_coe.mpr hmem)
  refine ⟨?_, hone⟩
  rw [← hone, completedBy_split, Multiset.count_add, ← hstarted, Multiset.coe_count]

structure Guarded (settings : Settings) (l : Ledger) : Prop where
  tracked : Tracked settings l
  accounted : Accounted settings l
  ordered : Ordered settings l

theorem guarded_moves (hm : Moves settings False l l') (h : Guarded settings l) : Guarded settings l' := by
  induction hm with
  | refl => exact h
  | tail _ hmove ih =>
    exact ⟨tracked_moves (Relation.ReflTransGen.single hmove) ih.tracked,
      accounted_move hmove ih.tracked.charged ih.accounted, ordered_move hmove ih.tracked ih.ordered⟩

theorem guarded_start (settings : Settings) (numThreads : ℕ) : Guarded settings (start numThreads).ledger := by
  refine ⟨tracked_start settings numThreads, ?_, fun _ => rfl⟩
  have hall := start_all numThreads
  refine ⟨?_, Int.natCast_nonneg _, ?_, ?_, List.nodup_nil⟩
  · rw [hall]
    rfl
  · rw [hall]
    rfl
  · rw [hall]
    rfl

theorem noneLost_of_guarded (hok : s.Ok settings) (h : Guarded settings s.ledger)
    (hfeeds : 1 ≤ settings.perHostOutgoingRequestThreshold ∨ settings.perHostQueuedRequestThreshold = 0) :
    NoneLost settings s where
  once := once_of_accounted h.accounted
  all hstuck hnone _ := all_of_stuck hok h.tracked h.accounted hfeeds hstuck hnone
  fed hquiet _ := fed_of_tracked hok h.tracked hfeeds hquiet
  counted hquiet := by
    have hcounted : tally Token.counted s.ledger.all = 0 := tally_eq_zero fun token hmem => by
      rcases token_all hok hquiet hmem with ⟨fetch, rfl⟩ | ⟨wrapper, rfl, -⟩ <;> rfl
    have hsize := h.accounted.counted
    rw [hcounted] at hsize
    exact hsize.trans (add_zero _)
  capped := h.accounted.capped
  fifo host := ⟨_, (h.ordered host).symm⟩

/-- Where the threshold lets a queued fetch start, and while no entry of a busy object is deleted, no fetch is lost or
stranded, and every run ends when no more calls are made. -/
theorem none_lost (settings : Settings)
    (hfeeds : 1 ≤ settings.perHostOutgoingRequestThreshold ∨ settings.perHostQueuedRequestThreshold = 0)
    (numThreads : ℕ) (actions : List Action) {s : State}
    (hrun : Machine.run (step settings) (start numThreads) actions = some s)
    (hmeets : Machine.Meets (step settings) State.DeletesIdle (start numThreads) actions) :
    NoneLost settings s ∧ actions.countP Action.isWork ≤ 12 * actions.countP Action.isCall := by
  have hok := start_ok settings numThreads
  have hstart := guarded_start settings numThreads
  have hstep : ∀ s a s', s.DeletesIdle a → (s.Ok settings ∧ Guarded settings s.ledger) →
      step settings s a = some s' → s'.Ok settings ∧ Guarded settings s'.ledger :=
    fun _ _ _ hidle h hstep => ⟨step_ok h.1 hstep, guarded_moves (step_moves h.1 (Or.inl hidle) hstep) h.2⟩
  obtain ⟨hokEnd, hend⟩ := Machine.run_invariant hstep ⟨hok, hstart⟩ hmeets hrun
  refine ⟨noneLost_of_guarded hokEnd hend hfeeds, ?_⟩
  have hsteps := run_potential actions hok hstart.tracked.charged hrun
  rw [start_potential] at hsteps
  omega

/-- A background fetch waits for one of a user, whose completion starts it; it completes before its `Fetch` returns. -/
def waitAndStart : List Action :=
  fetchNow 0 (userFetch 0) ++ ([.call 0 (backgroundFetch 1), .proceed 0, .proceed 0] : List Action) ++
    ([.finish 0 (.custom ⟨0, userFetch 0⟩) true, .proceed 0, .proceed 0, .proceed 0, .proceed 0, .proceed 0,
      .proceed 0, .proceed 0] : List Action) ++
    ([.finish 0 (.custom ⟨0, backgroundFetch 1⟩) true, .proceed 0, .proceed 0, .proceed 0, .proceed 0, .proceed 0,
      .proceed 0, .proceed 0] : List Action)

theorem background_fetch_served :
    ∃ s, Machine.run (step oneAtATime) (start 1) waitAndStart = some s ∧
      s.controller.completed = [(userFetch 0, .fetched true), (backgroundFetch 1, .fetched true)] ∧
      NoneLost oneAtATime s := by
  have hcompleted : (Machine.run (step oneAtATime) (start 1) waitAndStart).map (·.controller.completed) =
      some [(userFetch 0, .fetched true), (backgroundFetch 1, .fetched true)] := by decide
  obtain ⟨s, hrun, hcompleted⟩ := Option.map_eq_some_iff.mp hcompleted
  exact ⟨s, hrun, hcompleted, (none_lost oneAtATime (Or.inl (by decide)) 1 waitAndStart hrun (by decide)).1⟩

def neverStarts : Settings := { oneAtATime with perHostOutgoingRequestThreshold := 0 }

/-- A background fetch waits with nothing outstanding. -/
theorem stranded_fetch :
    ∃ s, Machine.run (step neverStarts) (start 1) [.call 0 (backgroundFetch 0), .proceed 0, .proceed 0] = some s ∧
      (∀ t, step neverStarts s (.proceed t) = none) ∧ s.controller.outstanding = [] ∧
      s.controller.asked = [backgroundFetch 0] ∧ s.controller.completed = [] := by
  refine ⟨_, rfl, fun t => ?_, rfl, rfl, rfl⟩
  cases t with
  | zero => rfl
  | succ t => rfl

end PageSpeed.RateController
