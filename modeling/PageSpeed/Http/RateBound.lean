import PageSpeed.Http.RateCharges

/-!
The bound on the fetches of a host, which holds for as long as no entry of a
busy object is deleted from the map.
-/

namespace PageSpeed.RateController

variable {settings : Settings} {s s' : State} {a : Action} {l l' : Ledger}

def State.outgoing (s : State) : Multiset CustomFetch := s.ledger.outgoing

def isFor (settings : Settings) (host : GoogleString) (wrapper : CustomFetch) : Prop :=
  hostOf settings wrapper.fetch.url = some host

instance (settings : Settings) (host : GoogleString) : DecidablePred (isFor settings host) :=
  fun wrapper => decEq (hostOf settings wrapper.fetch.url) (some host)

inductive State.StartsBackground (settings : Settings) (s : State) (host : GoogleString) : Prop
  | chargeOrQueue (thread : Thread) (hmem : thread ∈ s.threads) (fetch : AsyncFetch)
    (hframe : thread.stack.head? = some (.chargeOrQueue fetch host))
    (hcan : (s.controller.findOrInsert host).1.canTriggerFetch settings (s.controller.findOrInsert host).2 = true)
  | popNext (thread : Thread) (hmem : thread ∈ s.threads) (i : ℕ)
    (hframe : thread.stack.head? = some (.popNext i) ∨ thread.stack.head? = some (.popDropped i))
    (hhost : (s.controller.infos i).host = host)
    (hpop : (s.controller.popNextFetchAndIncrementCountIfWithinThreshold settings i).2.isSome = true)

structure Bounded (settings : Settings) (s : State) : Prop where
  /-- An object with outstanding or queued fetches is the entry of its host. -/
  entry : ∀ i, ((s.controller.infos i).numOutboundFetches ≠ 0 ∨ (s.controller.infos i).fetchQueue ≠ [] ∨
    ∃ wrapper ∈ s.outgoing, wrapper.fetchInfo = i) →
      s.controller.fetchInfoMap (s.controller.infos i).host = some i
  /-- Fetches are charged to an object of their host. -/
  host : ∀ wrapper ∈ s.outgoing, isFor settings (s.controller.infos wrapper.fetchInfo).host wrapper
  room : ∀ host, s.StartsBackground settings host →
    s.outgoing.countP (isFor settings host) < settings.perHostOutgoingRequestThreshold
  background : ∀ host, s.outgoing.countP (fun wrapper => isFor settings host wrapper ∧
    wrapper.fetch.isBackgroundFetch = true) ≤ settings.perHostOutgoingRequestThreshold

structure Tracked (settings : Settings) (l : Ledger) : Prop where
  charged : Charged settings l
  placed : Placed settings l
  entered : Entered l

theorem tracked_moves (hm : Moves settings False l l') (h : Tracked settings l) : Tracked settings l' := by
  induction hm with
  | refl => exact h
  | tail _ hmove ih =>
    exact ⟨charged_move hmove ih.charged, placed_move hmove ih.charged ih.placed, entered_move hmove ih.charged ih.entered⟩

theorem start_all (numThreads : ℕ) : (start numThreads).ledger.all = 0 := by
  have htokens : (start numThreads).tokens = 0 := by
    rw [State.tokens, start, Bag.total, List.map_replicate, List.sum_replicate]
    exact nsmul_zero numThreads
  rw [Ledger.all, State.ledger, htokens]
  rfl

theorem tracked_start (settings : Settings) (numThreads : ℕ) : Tracked settings (start numThreads).ledger := by
  have hall := start_all numThreads
  refine ⟨⟨fun _ _ => rfl, nofun, fun i => ?_, fun _ hne => absurd rfl hne, fun _ => Nat.zero_le _⟩,
    ⟨fun _ => nofun, fun wrapper hmem => ?_, fun i => ?_⟩, fun i hbusy => ?_⟩
  · rw [hall]
    rfl
  · rw [Ledger.outgoing, hall] at hmem
    cases hmem
  · rw [Ledger.outgoing, hall]
    exact Nat.zero_le _
  · exact hbusy.elim (fun hne => absurd rfl hne) fun hne => absurd rfl hne

theorem isFor_iff (h : Tracked settings l) {wrapper : CustomFetch} (hmem : wrapper ∈ l.outgoing) (host : GoogleString) :
    isFor settings host wrapper ↔ l.controller.fetchInfoMap host = some wrapper.fetchInfo := by
  have hplaced := h.placed.placed wrapper hmem
  constructor
  · intro hfor
    have hbusy : Busy (l.controller.infos wrapper.fetchInfo) := Or.inl (by
      have hpos := (lt_of_outgoing h.charged hmem).2
      omega)
    rw [isFor, hplaced] at hfor
    rw [← Option.some.inj hfor]
    exact h.entered _ hbusy
  · intro hentry
    rw [isFor, hplaced, (h.charged.mapped host _ hentry).2]

variable {host : GoogleString}

theorem outgoing_le_num (h : Tracked settings l) {i : ℕ} (hentry : l.controller.fetchInfoMap host = some i) :
    (l.outgoing.countP (isFor settings host) : ℤ) ≤ (l.controller.infos i).numOutboundFetches := by
  have hcongr : l.outgoing.countP (isFor settings host) = l.outgoing.countP (isOn i) :=
    Multiset.countP_congr rfl fun wrapper hmem => by
      rw [isFor_iff h hmem, hentry, isOn, Option.some_inj]
      exact propext eq_comm
  have hle := outgoing_le_charges l.all i
  rw [hcongr, h.charged.charged i, Ledger.outgoing]
  exact_mod_cast hle

theorem outgoing_none (h : Tracked settings l) (hentry : l.controller.fetchInfoMap host = none) :
    l.outgoing.countP (isFor settings host) = 0 := by
  refine Multiset.countP_eq_zero.mpr fun wrapper hmem hfor => ?_
  rw [isFor_iff h hmem, hentry] at hfor
  cases hfor

theorem room_of_tracked (h : Tracked settings s.ledger) (hstarts : s.StartsBackground settings host) :
    s.outgoing.countP (isFor settings host) < settings.perHostOutgoingRequestThreshold := by
  cases hstarts with
  | chargeOrQueue thread hmem fetch hframe hcan =>
    rw [findOrInsert] at hcan
    cases hentry : s.controller.fetchInfoMap host with
    | some i =>
      rw [hentry] at hcan
      have hlt : (s.controller.infos i).numOutboundFetches < _ := canTriggerFetch_true hcan
      have hle := outgoing_le_num h hentry
      change (s.outgoing.countP (isFor settings host) : ℤ) ≤ (s.controller.infos i).numOutboundFetches at hle
      omega
    | none =>
      rw [hentry] at hcan
      have hlt := canTriggerFetch_true hcan
      rw [(insert_num h.charged host _).1] at hlt
      have hfresh := h.charged.fresh s.controller.numInfos (Nat.le_refl _)
      change s.controller.infos s.controller.numInfos = _ at hfresh
      have hnone : s.outgoing.countP (isFor settings host) = 0 := outgoing_none h hentry
      rw [hfresh] at hlt
      change (0 : ℤ) < _ at hlt
      omega
  | popNext thread hmem i hframe hhost hpop =>
    rcases pop_cases settings s.controller i with ⟨heq, -⟩ | ⟨fetch, rest, hqueue, hcan, -⟩
    · rw [heq] at hpop
      cases hpop
    · have hentry := h.entered i (Or.inr (by
        change (s.controller.infos i).fetchQueue ≠ []
        rw [hqueue]
        exact List.cons_ne_nil _ _))
      have hlt := canTriggerFetch_true hcan
      have hle := outgoing_le_num h hentry
      rw [show (s.ledger.controller.infos i).host = host from hhost] at hle
      change (s.outgoing.countP (isFor settings host) : ℤ) ≤ (s.controller.infos i).numOutboundFetches at hle
      omega

theorem background_of_tracked (h : Tracked settings s.ledger) (host : GoogleString) :
    s.outgoing.countP (fun wrapper => isFor settings host wrapper ∧ wrapper.fetch.isBackgroundFetch = true) ≤
      settings.perHostOutgoingRequestThreshold := by
  cases hentry : s.controller.fetchInfoMap host with
  | some i =>
    refine le_of_eq_of_le (Multiset.countP_congr rfl fun wrapper hmem => ?_) (h.placed.crowd i)
    rw [isFor_iff h hmem, isBackgroundOn]
    change (s.controller.fetchInfoMap host = _ ∧ _) = _
    rw [hentry, Option.some_inj]
    exact propext (and_congr_left' eq_comm)
  | none =>
    refine le_of_eq_of_le (Multiset.countP_eq_zero.mpr fun wrapper hmem hfor => ?_) (Nat.zero_le _)
    have hmap := (isFor_iff h hmem host).mp hfor.1
    cases hentry.symm.trans hmap

theorem bounded_of_tracked (h : Tracked settings s.ledger) : Bounded settings s where
  entry i hbusy := by
    rcases hbusy with hnum | hqueue | ⟨wrapper, hmem, rfl⟩
    · exact h.entered i (Or.inl hnum)
    · exact h.entered i (Or.inr hqueue)
    · refine h.entered _ (Or.inl ?_)
      have hpos := (lt_of_outgoing h.charged hmem).2
      omega
  host wrapper hmem := h.placed.placed wrapper hmem
  room _ := room_of_tracked h
  background := background_of_tracked h

theorem deleting_some {stack : List Frame} {pending : Option (List CustomFetch)} {i : ℕ}
    (h : i ∈ Thread.deleting ⟨stack, pending⟩) : ∃ rest, stack = .deleteFetchInfo i :: rest := by
  match stack with
  | .deleteFetchInfo j :: rest =>
    obtain rfl := Option.some.inj h
    exact ⟨rest, rfl⟩

theorem not_bounded_of_delete (h : Tracked settings s.ledger) (hdelete : ¬ s.DeletesIdle a) :
    ∃ s', step settings s a = some s' ∧ ¬ Bounded settings s' := by
  cases a with
  | proceed t =>
    rw [State.DeletesIdle] at hdelete
    push Not at hdelete
    obtain ⟨⟨stack, pending⟩, hthread, i, hdeleting, hany, hidle⟩ := hdelete
    obtain ⟨stack, rfl⟩ := deleting_some hdeleting
    rw [IdleEntry] at hidle
    push Not at hidle
    obtain ⟨j, hentry, hbusy⟩ := hidle
    have hstep : step settings s (.proceed t) =
        some ⟨s.controller.deleteFetchInfoIfPossible i, s.threads.set t ⟨stack, pending⟩⟩ := by
      rw [step, Option.mem_def.mp hthread]
      rfl
    refine ⟨_, hstep, fun hbounded => ?_⟩
    have hin := hbounded.entry j
    rw [show (s.controller.deleteFetchInfoIfPossible i) = { s.controller with
      fetchInfoMap := Function.update s.controller.fetchInfoMap (s.controller.infos i).host none } from
      if_neg (by rw [hany]; exact Bool.false_ne_true)] at hin
    have hhost := (h.charged.mapped _ j hentry).2
    change (s.controller.infos j).host = (s.controller.infos i).host at hhost
    change _ → Function.update s.controller.fetchInfoMap (s.controller.infos i).host none (s.controller.infos j).host =
      some j at hin
    rw [hhost, Function.update_self] at hin
    rw [ne_eq, Bool.not_eq_false, HostFetchInfo.anyInFlightOrQueuedFetches, Bool.or_eq_true, decide_eq_true_eq,
      Bool.not_eq_true', List.isEmpty_eq_false_iff] at hbusy
    cases hin (hbusy.elim (fun hpos => Or.inl hpos.ne') fun hqueue => Or.inr (Or.inl hqueue))
  | _ => exact absurd trivial hdelete

def Kept (settings : Settings) (s : State) : Prop := s.Ok settings ∧ Tracked settings s.ledger

theorem kept_step (hdelete : s.DeletesIdle a) (h : Kept settings s) (hstep : step settings s a = some s') :
    Kept settings s' :=
  ⟨step_ok h.1 hstep, tracked_moves (step_moves h.1 (Or.inl hdelete) hstep) h.2⟩

theorem start_ok (settings : Settings) (numThreads : ℕ) : (start numThreads).Ok settings := by
  intro thread hmem
  obtain ⟨-, rfl⟩ := List.mem_replicate.mp hmem
  exact ⟨nofun, rfl⟩

/-- The bound holds throughout a run exactly if the run deletes no entry of a busy object. -/
theorem bounded_iff_deletes_idle (settings : Settings) (numThreads : ℕ) (actions : List Action) :
    Machine.Always (step settings) (Bounded settings) (start numThreads) actions ↔
      Machine.Meets (step settings) State.DeletesIdle (start numThreads) actions :=
  Machine.always_iff_meets (fun _ _ _ => kept_step) (fun _ h => bounded_of_tracked h.2)
    (fun _ _ h => not_bounded_of_delete h.2) ⟨start_ok settings numThreads, tracked_start settings numThreads⟩ actions

def exampleUrl : GoogleString := ascii "http://www.example.com/"

def oneAtATime : Settings where
  maxGlobalQueueSize := 10
  perHostOutgoingRequestThreshold := 1
  perHostQueuedRequestThreshold := 10
  queue_le := Nat.le_refl 10
  webHost url := if url = exampleUrl then some (ascii "www.example.com") else none

def fetchNow (t : ℕ) (fetch : AsyncFetch) : List Action :=
  [.call t fetch, .proceed t, .proceed t, .proceed t, .proceed t]

def finishUpToDelete (t : ℕ) (wrapper : CustomFetch) : List Action :=
  [.finish t (.custom wrapper) true, .proceed t, .proceed t, .proceed t, .proceed t]

def userFetch (id : ℕ) : AsyncFetch := ⟨id, exampleUrl, false⟩

def backgroundFetch (id : ℕ) : AsyncFetch := ⟨id, exampleUrl, true⟩

def lateDelete : List Action :=
  fetchNow 0 (userFetch 0) ++ fetchNow 0 (userFetch 1) ++ finishUpToDelete 0 ⟨0, userFetch 0⟩ ++
    finishUpToDelete 1 ⟨0, userFetch 1⟩ ++ [.proceed 0] ++ fetchNow 0 (backgroundFetch 2) ++ [.proceed 1]

theorem two_at_a_time :
    ∃ s, Machine.run (step oneAtATime) (start 2) (lateDelete ++ fetchNow 0 (backgroundFetch 3)) = some s ∧
      s.controller.outstanding = [.custom ⟨2, backgroundFetch 3⟩, .custom ⟨1, backgroundFetch 2⟩] ∧
      oneAtATime.perHostOutgoingRequestThreshold = 1 :=
  ⟨_, rfl, rfl, rfl⟩

end PageSpeed.RateController
