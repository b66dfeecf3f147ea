import PageSpeed.Http.RateAccounts

/-!
What becomes of the fetches that are queued: the order in which they leave, and
that none is left behind.
-/

namespace PageSpeed.RateController

open Bag

def onHost (settings : Settings) (host : GoogleString) (fetch : AsyncFetch) : Bool :=
  decide (hostOf settings fetch.url = some host)

def queueOf (c : RateController) (host : GoogleString) : List AsyncFetch :=
  match c.fetchInfoMap host with
  | some i => (c.infos i).fetchQueue
  | none => []

def Ordered (settings : Settings) (l : Ledger) : Prop :=
  ∀ host, l.controller.queued.filter (onHost settings host) =
    l.controller.dequeued.filter (onHost settings host) ++ queueOf l.controller host

variable {settings : Settings} {stale : Prop} {c c' : RateController} {T : Multiset Token} {l l' : Ledger} {s s' : State}
  {a : Action}

variable {host : GoogleString} {i : ℕ} {fetch : AsyncFetch}

theorem queueOf_entry (h : c.fetchInfoMap host = some i) : queueOf c host = (c.infos i).fetchQueue := by
  rw [queueOf, h]

theorem queueOf_congr (hmap : c'.fetchInfoMap = c.fetchInfoMap)
    (hqueue : ∀ i, (c'.infos i).fetchQueue = (c.infos i).fetchQueue) (host : GoogleString) :
    queueOf c' host = queueOf c host := by
  rw [queueOf, queueOf, hmap]
  cases c.fetchInfoMap host with
  | none => rfl
  | some i => exact hqueue i

theorem Ordered.keep (h : Ordered settings l) (hqueued : l'.controller.queued = l.controller.queued)
    (hdequeued : l'.controller.dequeued = l.controller.dequeued)
    (hqueue : ∀ host, queueOf l'.controller host = queueOf l.controller host) : Ordered settings l' := by
  intro host
  rw [hqueued, hdequeued, hqueue]
  exact h host

theorem ordered_insert (hc : Charged settings ⟨c, T⟩) (hentry : c.fetchInfoMap host = none)
    (host' : GoogleString) : queueOf (c.insertFetchInfo host) host' = queueOf c host' := by
  rw [queueOf, queueOf]
  change (match Function.update c.fetchInfoMap host (some c.numInfos) host' with
    | some i => ((c.insertFetchInfo host).infos i).fetchQueue
    | none => []) = _
  rw [Function.update_apply]
  split_ifs with heq
  · rw [heq, hentry]
    change ((c.insertFetchInfo host).infos c.numInfos).fetchQueue = []
    rw [(insert_num hc host _).2, hc.fresh _ (Nat.le_refl _)]
  · cases c.fetchInfoMap host' with
    | none => rfl
    | some i => exact (insert_num hc host i).2

theorem queueOf_other (hc : Charged settings ⟨c, T⟩) {info : HostFetchInfo}
    (hmap : c'.fetchInfoMap = c.fetchInfoMap) (hinfos : c'.infos = Function.update c.infos i info)
    (hne : (c.infos i).host ≠ host) : queueOf c' host = queueOf c host := by
  rw [queueOf, queueOf, hmap]
  cases hentry : c.fetchInfoMap host with
  | none => rfl
  | some j =>
    have hij : j ≠ i := by
      rintro rfl
      exact hne (hc.mapped host j hentry).2
    change (c'.infos j).fetchQueue = _
    rw [hinfos, Function.update_of_ne hij]

theorem onHost_iff (h : hostOf settings fetch.url = some host)
    (host' : GoogleString) : onHost settings host' fetch = decide (host = host') := by
  rw [onHost, h]
  exact decide_eq_decide.mpr Option.some_inj

theorem ordered_enqueue (hc : Charged settings ⟨c, .held fetch ::ₘ T⟩) (h : Ordered settings ⟨c, .held fetch ::ₘ T⟩)
    (hhost : hostOf settings fetch.url = some host) (hentry : c.fetchInfoMap host = some i) :
    Ordered settings ⟨c.enqueueFetch i fetch, T⟩ := by
  intro host'
  have hold := h host'
  change c.queued.filter _ = c.dequeued.filter _ ++ queueOf c host' at hold
  change (c.queued ++ [fetch]).filter _ = c.dequeued.filter _ ++ queueOf (c.enqueueFetch i fetch) host'
  rw [List.filter_append, hold, List.append_assoc]
  by_cases heq : host = host'
  · subst heq
    have hself : queueOf (c.enqueueFetch i fetch) host = (c.infos i).fetchQueue ++ [fetch] := by
      rw [queueOf_entry (c := c.enqueueFetch i fetch) hentry]
      change (Function.update c.infos i _ i).fetchQueue = _
      rw [Function.update_self]
    rw [hself, queueOf_entry hentry, List.filter_cons_of_pos (by rw [onHost_iff hhost, decide_eq_true rfl])]
    rfl
  · have hother : queueOf (c.enqueueFetch i fetch) host' = queueOf c host' := by
      refine queueOf_other hc rfl rfl ?_
      rw [(hc.mapped host i hentry).2]
      exact heq
    rw [hother, List.filter_cons_of_neg (by rw [onHost_iff hhost, decide_eq_false heq]; exact Bool.false_ne_true)]
    exact congrArg _ (List.append_nil _)

theorem ordered_pop {rest : List AsyncFetch} (ht : Tracked settings ⟨c, .pop i ::ₘ T⟩)
    (h : Ordered settings ⟨c, .pop i ::ₘ T⟩) (hqueue : (c.infos i).fetchQueue = fetch :: rest) :
    Ordered settings ⟨{ c.setInfo i { c.infos i with
        fetchQueue := rest
        numOutboundFetches := (c.infos i).numOutboundFetches + 1 } with
      dequeued := c.dequeued ++ [fetch] }, .taken ⟨i, fetch⟩ ::ₘ T⟩ := by
  have hentry : c.fetchInfoMap (c.infos i).host = some i := ht.entered i (Or.inr (by
    change (c.infos i).fetchQueue ≠ []
    rw [hqueue]
    exact List.cons_ne_nil _ _))
  have hhost : hostOf settings fetch.url = some (c.infos i).host := (ht.placed.waiting i fetch (by
    change fetch ∈ (c.infos i).fetchQueue
    rw [hqueue]
    exact List.mem_cons_self)).2
  intro host'
  have hold := h host'
  change c.queued.filter _ = c.dequeued.filter _ ++ queueOf c host' at hold
  change c.queued.filter _ = (c.dequeued ++ [fetch]).filter _ ++ queueOf _ host'
  rw [hold, List.filter_append, List.append_assoc]
  by_cases heq : (c.infos i).host = host'
  · subst heq
    rw [queueOf_entry hentry, hqueue, List.filter_cons_of_pos (by rw [onHost_iff hhost, decide_eq_true rfl])]
    refine congrArg _ (congrArg (fetch :: ·) ?_)
    rw [queueOf]
    change _ = match c.fetchInfoMap (c.infos i).host with
      | some j => (Function.update c.infos i _ j).fetchQueue
      | none => []
    rw [hentry]
    change _ = (Function.update c.infos i _ i).fetchQueue
    rw [Function.update_self]
  · rw [List.filter_cons_of_neg (by rw [onHost_iff hhost, decide_eq_false heq]; exact Bool.false_ne_true)]
    refine congrArg _ (Eq.symm ?_)
    exact queueOf_other ht.charged rfl rfl heq

theorem ordered_move (hm : Move settings False l l') (ht : Tracked settings l) (h : Ordered settings l) :
    Ordered settings l' := by
  cases hm with
  | shutDown c T => exact h.keep rfl rfl fun _ => rfl
  | call c T fetch hnew => exact h.keep rfl rfl fun _ => rfl
  | fail c T fetch outcome hfail => exact h.keep rfl rfl fun _ => rfl
  | insert c T host hentry => exact h.keep rfl rfl (ordered_insert ht.charged hentry)
  | charge c T fetch host i hhost hentry hcan => exact h.keep rfl rfl (queueOf_congr rfl fun _ => charge_queue)
  | enqueue c T fetch host i hhost hentry hbackground hcannot hcan => exact ordered_enqueue ht.charged h hhost hentry
  | handOver c T fetch => exact h.keep rfl rfl fun _ => rfl
  | finishDirect c T fetch success hmem => exact h.keep rfl rfl fun _ => rfl
  | finishCustom c T wrapper hmem => exact h.keep rfl rfl fun _ => rfl
  | handleDone c T wrapper success => exact h.keep rfl rfl fun _ => rfl
  | decrement c T i => exact h.keep rfl rfl (queueOf_congr rfl fun _ => charge_queue)
  | popNone c T i hpop => exact h.keep rfl rfl fun _ => rfl
  | pop c T i fetch rest hqueue hcan => exact ordered_pop ht h hqueue
  | delete c T i hidle =>
    rw [deleteFetchInfoIfPossible]
    split_ifs with hany
    · exact h
    · refine h.keep rfl rfl fun host => ?_
      change (match Function.update c.fetchInfoMap (c.infos i).host none host with
        | some j => (c.infos j).fetchQueue
        | none => []) = queueOf c host
      rw [Function.update_apply, queueOf]
      split_ifs with heq
      · subst heq
        cases hentry : c.fetchInfoMap (c.infos i).host with
        | none => rfl
        | some j =>
          have hidlej := (hidle (Bool.not_eq_true _ ▸ hany)).resolve_right id j hentry
          rw [HostFetchInfo.anyInFlightOrQueuedFetches, Bool.or_eq_false_iff, Bool.not_eq_false', List.isEmpty_iff] at hidlej
          exact hidlej.2.symm
      · rfl
  | schedule c T wrapper => exact h.keep rfl rfl fun _ => rfl
  | dropQueued c T wrapper => exact h.keep rfl rfl fun _ => rfl

def Frame.weight : Frame → ℕ
  | .external => 1
  | .fetch _ => 12
  | .chargeOrQueue _ _ => 11
  | .handOff _ => 8
  | .drop _ _ => 3
  | .deleteFetchInfo _ => 1
  | .handleDone _ _ => 5
  | .decrement _ => 3
  | .popNext _ => 2
  | .checkShutDown _ _ => 11
  | .schedule _ _ => 10
  | .startPending => 1
  | .dropQueued _ _ => 5
  | .releaseSlot _ => 3
  | .popDropped _ => 2

def pendingWeight (pending : Option (List CustomFetch)) : ℕ := 8 * (pending.getD []).length

def Thread.weight (thread : Thread) : ℕ := total Frame.weight thread.stack + pendingWeight thread.pendingStarts

def work (c : RateController) : ℕ := 10 * (backlog c).card + 6 * c.outstanding.length

def State.potential (s : State) : ℕ := total Thread.weight s.threads + work s.controller

theorem total_weight_cons (frame : Frame) (frames : List Frame) :
    total Frame.weight (frame :: frames) = frame.weight + total Frame.weight frames := List.sum_cons

theorem work_charge {n : ℤ} : work (c.charge i n) = work c := by
  have hbacklog : backlog (c.charge i n) = backlog c := backlog_congr rfl fun _ => charge_queue
  rw [work, hbacklog]
  rfl

theorem work_admit (settings : Settings) (fetch : AsyncFetch) (hi : i < c.numInfos) :
    work (c.chargeOrQueueAt settings fetch i).1 + total Frame.weight (c.chargeOrQueueAt settings fetch i).2 < work c + 11 := by
  rw [chargeOrQueueAt]
  split_ifs
  · rw [work_charge]
    exact Nat.add_lt_add_left (by decide : 8 < 11) _
  · rw [work, backlog_enqueue hi, Multiset.card_add, Multiset.card_singleton, work]
    change 10 * (1 + (backlog c).card) + 6 * c.outstanding.length + 0 < _
    omega
  · exact Nat.add_lt_add_left (by decide : 3 < 11) _

theorem work_pop (settings : Settings) (hc : Charged settings ⟨c, T⟩) (i : ℕ) :
    ((c.popNextFetchAndIncrementCountIfWithinThreshold settings i).2 = none ∧
      work (c.popNextFetchAndIncrementCountIfWithinThreshold settings i).1 = work c) ∨
    ∃ fetch, (c.popNextFetchAndIncrementCountIfWithinThreshold settings i).2 = some fetch ∧
      work (c.popNextFetchAndIncrementCountIfWithinThreshold settings i).1 + 10 = work c := by
  rcases pop_cases settings c i with ⟨heq, -⟩ | ⟨fetch, rest, hqueue, -, heq⟩
  · rw [heq]
    exact Or.inl ⟨rfl, rfl⟩
  · have hi : i < c.numInfos := lt_numInfos hc fun hidle => by
      change c.infos i = _ at hidle
      rw [hidle] at hqueue
      cases hqueue
    rw [heq]
    refine Or.inr ⟨fetch, rfl, ?_⟩
    rw [work, work, ← backlog_pop hi hqueue ((c.infos i).numOutboundFetches + 1), Multiset.card_add,
      Multiset.card_singleton]
    change 10 * (backlog (c.setInfo i _)).card + 6 * c.outstanding.length + 10 = _
    omega

theorem work_delete (i : ℕ) : work (c.deleteFetchInfoIfPossible i) = work c := by
  rw [work, backlog_congr (delete_numInfos i) fun _ => by rw [delete_infos], delete_outstanding, work]

theorem work_findOrInsert (hc : Charged settings ⟨c, T⟩) (host : GoogleString) :
    work (c.findOrInsert host).1 = work c ∧ (c.findOrInsert host).2 < (c.findOrInsert host).1.numInfos := by
  rw [findOrInsert]
  cases hentry : c.fetchInfoMap host with
  | some i => exact ⟨rfl, (hc.mapped host i hentry).1⟩
  | none =>
    refine ⟨?_, Nat.lt_succ_self _⟩
    rw [work, backlog_insert hc host]
    rfl

theorem exec_weight (hc : Charged settings ⟨c, T⟩) (pending : Option (List CustomFetch)) (frame : Frame) :
    total Frame.weight (c.exec settings pending frame).2.2 + pendingWeight (c.exec settings pending frame).2.1 +
        work (c.exec settings pending frame).1 <
      frame.weight + pendingWeight pending + work c := by
  cases frame with
  | external => exact Nat.add_lt_add_right (Nat.add_lt_add_right Nat.zero_lt_one _) _
  | fetch fetch =>
    rw [exec]
    split_ifs
    · exact Nat.add_lt_add_right (Nat.add_lt_add_right (by decide : 1 < 12) _) _
    · cases hostOf settings fetch.url with
      | none => exact Nat.add_lt_add_right (Nat.add_lt_add_right (by decide : 8 < 12) _) _
      | some host => exact Nat.add_lt_add_right (Nat.add_lt_add_right (by decide : 11 < 12) _) _
  | chargeOrQueue fetch host =>
    obtain ⟨hwork, hi⟩ := work_findOrInsert hc host
    have hadmit := work_admit settings fetch hi
    change total Frame.weight ((c.findOrInsert host).1.chargeOrQueueAt settings fetch (c.findOrInsert host).2).2 +
      pendingWeight pending + work ((c.findOrInsert host).1.chargeOrQueueAt settings fetch (c.findOrInsert host).2).1 <
        11 + pendingWeight pending + work c
    omega
  | handOff fetch =>
    change 1 + pendingWeight pending + (10 * (backlog c).card + 6 * (c.outstanding.length + 1)) <
      8 + pendingWeight pending + (10 * (backlog c).card + 6 * c.outstanding.length)
    omega
  | drop fetch i => exact Nat.add_lt_add_right (Nat.add_lt_add_right (by decide : 2 < 3) _) _
  | deleteFetchInfo i =>
    change 0 + pendingWeight pending + work (c.deleteFetchInfoIfPossible i) < 1 + pendingWeight pending + work c
    rw [work_delete]
    omega
  | handleDone wrapper success => exact Nat.add_lt_add_right (Nat.add_lt_add_right (by decide : 4 < 5) _) _
  | decrement i =>
    change 2 + pendingWeight pending + work (c.charge i (-1)) < 3 + pendingWeight pending + work c
    rw [work_charge]
    omega
  | popNext i =>
    have hpop := work_pop settings hc i
    rw [exec]
    generalize c.popNextFetchAndIncrementCountIfWithinThreshold settings i = r at hpop ⊢
    obtain ⟨c', popped⟩ := r
    dsimp only at hpop
    rcases hpop with ⟨rfl, hwork⟩ | ⟨fetch, rfl, hwork⟩
    · change 1 + pendingWeight pending + work c' < 2 + pendingWeight pending + work c
      omega
    · change 11 + pendingWeight pending + work c' < 2 + pendingWeight pending + work c
      omega
  | checkShutDown i fetch =>
    rw [exec]
    split_ifs
    · exact Nat.add_lt_add_right (Nat.add_lt_add_right (by decide : 5 < 11) _) _
    · exact Nat.add_lt_add_right (Nat.add_lt_add_right (by decide : 10 < 11) _) _
  | schedule i fetch =>
    cases pending with
    | none =>
      change 1 + 8 + work c < 10 + 0 + work c
      omega
    | some starts =>
      change 0 + 8 * (starts ++ [_]).length + work c < 10 + 8 * starts.length + work c
      rw [List.length_append, List.length_singleton]
      omega
  | startPending =>
    obtain _ | _ | ⟨start, rest⟩ := pending
    · exact Nat.add_lt_add_right Nat.zero_lt_one _
    · exact Nat.add_lt_add_right Nat.zero_lt_one _
    · change 2 + 8 * rest.length + (10 * (backlog c).card + 6 * (c.outstanding.length + 1)) <
        1 + 8 * (rest.length + 1) + (10 * (backlog c).card + 6 * c.outstanding.length)
      omega
  | dropQueued i fetch => exact Nat.add_lt_add_right (Nat.add_lt_add_right (by decide : 4 < 5) _) _
  | releaseSlot i =>
    change 2 + pendingWeight pending + work (c.charge i (-1)) < 3 + pendingWeight pending + work c
    rw [work_charge]
    omega
  | popDropped i =>
    have hpop := work_pop settings hc i
    rw [exec]
    generalize c.popNextFetchAndIncrementCountIfWithinThreshold settings i = r at hpop ⊢
    obtain ⟨c', popped⟩ := r
    dsimp only at hpop
    rcases hpop with ⟨rfl, hwork⟩ | ⟨fetch, rfl, hwork⟩
    · change 1 + pendingWeight pending + work c' < 2 + pendingWeight pending + work c
      omega
    · change 5 + pendingWeight pending + work c' < 2 + pendingWeight pending + work c
      omega

def Action.isCall : Action → Bool
  | .call _ _ => true
  | _ => false

def Action.isWork : Action → Bool
  | .proceed _ => true
  | .finish _ _ _ => true
  | _ => false

theorem weight_push (thread : Thread) (frame : Frame) :
    Thread.weight { thread with stack := frame :: thread.stack } = frame.weight + thread.weight := by
  rw [Thread.weight, total_weight_cons, add_assoc]
  rfl

theorem work_erase {fetch : BaseFetch} (hmem : fetch ∈ c.outstanding) :
    work c = 10 * (backlog c).card + 6 * (c.outstanding.erase fetch).length + 6 := by
  have hlength := List.length_erase_add_one hmem
  rw [work]
  omega

theorem step_potential (hc : Charged settings s.ledger) (hstep : step settings s a = some s') :
    s'.potential + (if a.isWork then 1 else 0) ≤ s.potential + if a.isCall then 12 else 0 := by
  cases step_turn hstep with
  | @call t fetch thread hthread hout hnew =>
    obtain ⟨R, hbefore, hafter⟩ := total_set hthread Thread.weight
    rw [State.potential, State.potential, hafter, hbefore, weight_push]
    change 12 + thread.weight + R + work s.controller + 0 ≤ thread.weight + R + work s.controller + 12
    omega
  | @finishDirect t fetch success thread hthread hout hmem =>
    obtain ⟨R, hbefore, hafter⟩ := total_set hthread Thread.weight
    have hwork := work_erase hmem
    rw [State.potential, State.potential, hafter, hbefore, weight_push]
    change 1 + thread.weight + R +
        (10 * (backlog s.controller).card + 6 * (s.controller.outstanding.erase (.direct fetch)).length) + 1 ≤
      thread.weight + R + work s.controller + 0
    omega
  | @finishCustom t wrapper success thread hthread hout hmem =>
    obtain ⟨R, hbefore, hafter⟩ := total_set hthread Thread.weight
    have hwork := work_erase hmem
    rw [State.potential, State.potential, hafter, hbefore, weight_push]
    change 5 + thread.weight + R +
        (10 * (backlog s.controller).card + 6 * (s.controller.outstanding.erase (.custom wrapper)).length) + 1 ≤
      thread.weight + R + work s.controller + 0
    omega
  | @proceed t frame stack pending hthread =>
    obtain ⟨R, hbefore, hafter⟩ := total_set hthread Thread.weight
    have hexec := exec_weight hc pending frame
    rw [State.potential, State.potential, hafter, hbefore, Thread.weight, Thread.weight, total_append, total_weight_cons]
    change total Frame.weight (s.controller.exec settings pending frame).2.2 + total Frame.weight stack +
        pendingWeight (s.controller.exec settings pending frame).2.1 + R +
        work (s.controller.exec settings pending frame).1 + 1 ≤
      frame.weight + total Frame.weight stack + pendingWeight pending + R + work s.controller + 0
    omega
  | shutDown => exact Nat.le_refl _

theorem charged_moves (hm : Moves settings stale l l') (h : Charged settings l) : Charged settings l' := by
  induction hm with
  | refl => exact h
  | tail _ hmove ih => exact charged_move hmove ih

theorem run_potential (actions : List Action) (hok : s.Ok settings) (hc : Charged settings s.ledger)
    (hrun : Machine.run (step settings) s actions = some s') :
    s'.potential + actions.countP Action.isWork ≤ s.potential + 12 * actions.countP Action.isCall := by
  induction actions generalizing s with
  | nil =>
    cases hrun
    exact Nat.le_refl _
  | cons a actions ih =>
    obtain ⟨u, hstep, hrun⟩ := Machine.run_cons.mp hrun
    have hstepped := step_potential hc hstep
    have hcharged : Charged settings u.ledger := charged_moves (step_moves hok (Or.inr trivial) hstep) hc
    have hrest := ih (step_ok hok hstep) hcharged hrun
    rw [List.countP_cons, List.countP_cons]
    split_ifs at hstepped ⊢ <;> omega

theorem start_potential (numThreads : ℕ) : (start numThreads).potential = 0 := by
  rw [State.potential, start, total, List.map_replicate, List.sum_replicate]
  exact congrArg (· + 0) (nsmul_zero numThreads)

end PageSpeed.RateController
