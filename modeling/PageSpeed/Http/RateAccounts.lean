import PageSpeed.Http.RateBound
import Mathlib.Tactic.Abel

/-!
Where every fetch is that was asked for: held by a call, queued, with the base
fetcher, or completed.
-/

namespace PageSpeed.RateController

open Bag

def Outcome.isFetched : Outcome → Bool
  | .fetched _ => true
  | _ => false

def backlog (c : RateController) : Multiset AsyncFetch :=
  ∑ i ∈ Finset.range c.numInfos, ((c.infos i).fetchQueue : Multiset AsyncFetch)

def completedBy (c : RateController) (p : Outcome → Bool) : Multiset AsyncFetch :=
  ((c.completed.filter fun completion => p completion.2).map Prod.fst : List AsyncFetch)

def withBaseFetcher (c : RateController) : Multiset AsyncFetch := (c.outstanding.map BaseFetch.fetch : List AsyncFetch)

variable {settings : Settings} {stale : Prop} {c c' : RateController} {T : Multiset Token} {l l' : Ledger}

theorem backlog_congr (hnum : c'.numInfos = c.numInfos) (hqueue : ∀ i, (c'.infos i).fetchQueue = (c.infos i).fetchQueue) :
    backlog c' = backlog c := by
  rw [backlog, backlog, hnum]
  exact Finset.sum_congr rfl fun i _ => by rw [hqueue]

variable {i : ℕ} {fetch : AsyncFetch} {wrapper : CustomFetch}

theorem backlog_setInfo (hi : i < c.numInfos) (info : HostFetchInfo) :
    backlog (c.setInfo i info) + (c.infos i).fetchQueue = backlog c + (info.fetchQueue : Multiset AsyncFetch) :=
  sum_update hi (fun info : HostFetchInfo => (info.fetchQueue : Multiset AsyncFetch)) c.infos info

theorem backlog_insert (h : Charged settings ⟨c, T⟩) (host : GoogleString) :
    backlog (c.insertFetchInfo host) = backlog c := by
  have hnew : ((c.insertFetchInfo host).infos c.numInfos).fetchQueue = [] := by
    rw [(insert_num h host _).2, h.fresh _ (Nat.le_refl _)]
  change ∑ i ∈ Finset.range (c.numInfos + 1), _ = _
  rw [Finset.sum_range_succ, hnew, backlog]
  refine (add_zero _).trans (Finset.sum_congr rfl fun i _ => ?_)
  rw [(insert_num h host i).2]

theorem backlog_enqueue (hi : i < c.numInfos) (fetch : AsyncFetch) :
    backlog (c.enqueueFetch i fetch) = {fetch} + backlog c := by
  have h := backlog_setInfo hi { c.infos i with fetchQueue := (c.infos i).fetchQueue ++ [fetch] }
  rw [← Multiset.coe_add, ← add_assoc, add_right_comm] at h
  exact (add_right_cancel h).trans (add_comm _ _)

theorem backlog_pop {rest : List AsyncFetch} (hi : i < c.numInfos)
    (hqueue : (c.infos i).fetchQueue = fetch :: rest) (n : ℤ) :
    {fetch} + backlog (c.setInfo i { c.infos i with fetchQueue := rest, numOutboundFetches := n }) = backlog c := by
  have h := backlog_setInfo hi { c.infos i with fetchQueue := rest, numOutboundFetches := n }
  rw [hqueue, ← Multiset.cons_coe, ← Multiset.singleton_add, ← add_assoc] at h
  rw [add_comm]
  exact add_right_cancel h

theorem completedBy_complete (p : Outcome → Bool) (fetch : AsyncFetch) (outcome : Outcome) :
    completedBy (c.complete fetch outcome) p = completedBy c p + if p outcome then {fetch} else 0 := by
  rw [completedBy, completedBy, complete, List.filter_append, List.map_append, ← Multiset.coe_add]
  split_ifs with hp
  · simp [hp]
  · simp [hp]

structure Accounted (settings : Settings) (l : Ledger) : Prop where
  counted : l.controller.currentGlobalFetchQueueSize =
    ((backlog l.controller).card : ℕ) + (tally Token.counted l.all : ℕ)
  capped : l.controller.currentGlobalFetchQueueSize ≤ settings.maxGlobalQueueSize
  asked : (l.controller.asked : Multiset AsyncFetch) =
    tally Token.fetches l.all + backlog l.controller + completedBy l.controller fun _ => true
  started : (l.controller.started : Multiset AsyncFetch) =
    withBaseFetcher l.controller + tally Token.returned l.all + completedBy l.controller Outcome.isFetched
  nodup : l.controller.asked.Nodup

theorem Accounted.trade (h : Accounted settings l) {before after R : Multiset Token} (hbefore : l.all = before + R)
    (hafter : l'.all = after + R)
    (hcounted : l'.controller.currentGlobalFetchQueueSize + (backlog l.controller).card + tally Token.counted before =
      l.controller.currentGlobalFetchQueueSize + (backlog l'.controller).card + tally Token.counted after)
    (hcapped : l'.controller.currentGlobalFetchQueueSize ≤ settings.maxGlobalQueueSize)
    (hasked : (l'.controller.asked : Multiset AsyncFetch) +
        (tally Token.fetches before + backlog l.controller + completedBy l.controller fun _ => true) =
      l.controller.asked +
        (tally Token.fetches after + backlog l'.controller + completedBy l'.controller fun _ => true))
    (hstarted : (l'.controller.started : Multiset AsyncFetch) +
        (withBaseFetcher l.controller + tally Token.returned before + completedBy l.controller Outcome.isFetched) =
      l.controller.started +
        (withBaseFetcher l'.controller + tally Token.returned after + completedBy l'.controller Outcome.isFetched))
    (hnodup : l'.controller.asked.Nodup) : Accounted settings l' where
  counted := by
    have hold := h.counted
    rw [hbefore, tally_add] at hold
    rw [hafter, tally_add]
    push_cast at hold ⊢
    omega
  capped := hcapped
  asked := by
    have hold := h.asked
    rw [hbefore, tally_add] at hold
    rw [hafter, tally_add]
    rw [hold] at hasked
    refine add_right_cancel (hasked.trans ?_)
    abel
  started := by
    have hold := h.started
    rw [hbefore, tally_add] at hold
    rw [hafter, tally_add]
    rw [hold] at hstarted
    refine add_right_cancel (hstarted.trans ?_)
    abel
  nodup := hnodup

theorem Accounted.pass (h : Accounted settings l) {before after R : Multiset Token} (hbefore : l.all = before + R)
    (hafter : l'.all = after + R)
    (hsize : l'.controller.currentGlobalFetchQueueSize = l.controller.currentGlobalFetchQueueSize)
    (hbacklog : backlog l'.controller = backlog l.controller) (hasked : l'.controller.asked = l.controller.asked)
    (hstarted : l'.controller.started = l.controller.started)
    (hcounted : tally Token.counted before = tally Token.counted after)
    (hfetches : tally Token.fetches before + completedBy l.controller (fun _ => true) =
      tally Token.fetches after + completedBy l'.controller fun _ => true)
    (hreturned : withBaseFetcher l.controller + tally Token.returned before +
        completedBy l.controller Outcome.isFetched =
      withBaseFetcher l'.controller + tally Token.returned after + completedBy l'.controller Outcome.isFetched) :
    Accounted settings l' := by
  refine h.trade hbefore hafter ?_ (hsize ▸ h.capped) ?_ ?_ (hasked ▸ h.nodup)
  · rw [hsize, hbacklog, hcounted]
  · rw [hasked, hbacklog, add_right_comm, hfetches, add_right_comm]
  · rw [hstarted, hreturned]

theorem completedBy_loss {outcome : Outcome} (h : outcome = .loadShed ∨ outcome = .shutDown) :
    completedBy (c.complete fetch outcome) Outcome.isFetched = completedBy c Outcome.isFetched := by
  rcases h with rfl | rfl <;> exact completedBy_complete _ _ _ |>.trans (add_zero _)

theorem completedBy_all (fetch : AsyncFetch) (outcome : Outcome) :
    completedBy (c.complete fetch outcome) (fun _ => true) = {fetch} + completedBy c fun _ => true :=
  (completedBy_complete _ _ _).trans (add_comm _ _)

theorem completedBy_fetched (fetch : AsyncFetch) (success : Bool) :
    completedBy (c.complete fetch (.fetched success)) Outcome.isFetched = completedBy c Outcome.isFetched + {fetch} :=
  completedBy_complete _ _ _

theorem withBaseFetcher_erase {fetch : BaseFetch} (hmem : fetch ∈ c.outstanding) :
    withBaseFetcher c = {fetch.fetch} + withBaseFetcher { c with outstanding := c.outstanding.erase fetch } := by
  have hperm := (List.perm_cons_erase hmem).map BaseFetch.fetch
  rw [withBaseFetcher, Multiset.coe_eq_coe.mpr hperm]
  rfl

theorem accounted_fail {outcome : Outcome} (h : Accounted settings ⟨c, .held fetch ::ₘ T⟩)
    (hfail : outcome = .loadShed ∨ outcome = .shutDown) : Accounted settings ⟨c.complete fetch outcome, T⟩ := by
  refine h.pass (all_cons _) (zero_add _).symm rfl rfl rfl rfl rfl ?_ ?_
  · rw [tally_singleton, tally_zero, zero_add]
    exact (completedBy_all fetch outcome).symm
  · rw [completedBy_loss hfail]
    rfl

theorem accounted_handleDone (h : Accounted settings ⟨c, .returning wrapper ::ₘ T⟩) (success : Bool) :
    Accounted settings ⟨c.complete wrapper.fetch (.fetched success), .spent wrapper.fetchInfo ::ₘ T⟩ := by
  refine h.pass (all_cons _) (all_cons _) rfl rfl rfl rfl rfl ?_ ?_
  · rw [tally_singleton, tally_singleton, completedBy_all]
    exact (zero_add _).symm
  · rw [tally_singleton, tally_singleton, completedBy_fetched]
    change withBaseFetcher c + {wrapper.fetch} + _ = withBaseFetcher c + 0 + _
    abel

theorem accounted_finishDirect (h : Accounted settings ⟨c, T⟩) (success : Bool)
    (hmem : .direct fetch ∈ c.outstanding) :
    Accounted settings
      ⟨complete { c with outstanding := c.outstanding.erase (.direct fetch) } fetch (.fetched success), T⟩ := by
  refine h.pass (all_erase hmem) (zero_add _).symm rfl rfl rfl rfl rfl ?_ ?_
  · rw [tally_singleton, tally_zero, zero_add]
    exact (completedBy_all fetch (.fetched success)).symm
  · rw [completedBy_fetched, withBaseFetcher_erase hmem]
    change {fetch} + withBaseFetcher { c with outstanding := c.outstanding.erase (.direct fetch) } + 0 + _ =
      withBaseFetcher { c with outstanding := c.outstanding.erase (.direct fetch) } + 0 +
        (completedBy c Outcome.isFetched + {fetch})
    abel

theorem accounted_finishCustom (h : Accounted settings ⟨c, T⟩) (hmem : .custom wrapper ∈ c.outstanding) :
    Accounted settings
      ⟨{ c with outstanding := c.outstanding.erase (.custom wrapper) }, .returning wrapper ::ₘ T⟩ := by
  refine h.pass (all_erase hmem) (all_cons _) rfl rfl rfl rfl rfl rfl ?_
  rw [withBaseFetcher_erase hmem, tally_singleton, tally_singleton]
  change {wrapper.fetch} + withBaseFetcher { c with outstanding := _ } + 0 + completedBy c _ =
    withBaseFetcher { c with outstanding := _ } + {wrapper.fetch} + completedBy c _
  abel

theorem accounted_call (h : Accounted settings ⟨c, T⟩) (hnew : fetch ∉ c.asked) :
    Accounted settings ⟨{ c with asked := c.asked ++ [fetch] }, .held fetch ::ₘ T⟩ := by
  refine h.trade (zero_add _).symm (all_cons _) rfl h.capped ?_ rfl ?_
  · rw [tally_zero, tally_singleton]
    change ((c.asked ++ [fetch] : List AsyncFetch) : Multiset AsyncFetch) +
        (0 + backlog c + completedBy c fun _ => true) =
      c.asked + ({fetch} + backlog c + completedBy c fun _ => true)
    rw [← Multiset.coe_add, Multiset.coe_singleton]
    abel
  · exact List.Nodup.append h.nodup (List.nodup_singleton _) (by simpa using hnew)

theorem accounted_enqueue (h : Accounted settings ⟨c, .held fetch ::ₘ T⟩)
    (hi : i < c.numInfos) (hcan : c.canEnqueue settings i = true) : Accounted settings ⟨c.enqueueFetch i fetch, T⟩ := by
  have hbacklog := backlog_enqueue hi fetch
  refine h.trade (all_cons _) (zero_add _).symm ?_ ?_ ?_ rfl h.nodup
  · rw [hbacklog, Multiset.card_add, Multiset.card_singleton, tally_singleton, tally_zero]
    change c.currentGlobalFetchQueueSize + 1 + _ + (0 : ℕ) = c.currentGlobalFetchQueueSize + _ + _
    push_cast
    omega
  · rw [canEnqueue, Bool.and_eq_true, decide_eq_true_eq] at hcan
    exact hcan.1
  · rw [hbacklog, tally_singleton, tally_zero]
    change (c.asked : Multiset AsyncFetch) + ({fetch} + backlog c + completedBy c fun _ => true) =
      c.asked + (0 + ({fetch} + backlog c) + completedBy c fun _ => true)
    abel

theorem accounted_handOver {fetch : BaseFetch} (h : Accounted settings ⟨c, fetch.token ::ₘ T⟩) :
    Accounted settings ⟨c.handOver fetch, T⟩ := by
  refine h.trade (all_cons _) (all_handOver fetch) rfl h.capped rfl ?_ h.nodup
  change ((c.started ++ [fetch.fetch] : List AsyncFetch) : Multiset AsyncFetch) +
      (withBaseFetcher c + _ + completedBy c _) =
    c.started + (fetch.fetch ::ₘ withBaseFetcher c + _ + completedBy c _)
  rw [← Multiset.coe_add, Multiset.coe_singleton, ← Multiset.singleton_add]
  abel

theorem accounted_pop {rest : List AsyncFetch} (h : Accounted settings ⟨c, .pop i ::ₘ T⟩)
    (hi : i < c.numInfos) (hqueue : (c.infos i).fetchQueue = fetch :: rest) :
    Accounted settings ⟨{ c.setInfo i { c.infos i with
        fetchQueue := rest
        numOutboundFetches := (c.infos i).numOutboundFetches + 1 } with
      dequeued := c.dequeued ++ [fetch] }, .taken ⟨i, fetch⟩ ::ₘ T⟩ := by
  have hbacklog := backlog_pop hi hqueue ((c.infos i).numOutboundFetches + 1)
  refine h.trade (all_cons _) (all_cons _) ?_ h.capped ?_ rfl h.nodup
  · rw [tally_singleton, tally_singleton, ← hbacklog, Multiset.card_add, Multiset.card_singleton]
    change c.currentGlobalFetchQueueSize + _ + (0 : ℕ) = c.currentGlobalFetchQueueSize +
      (backlog (c.setInfo i _)).card + (1 : ℕ)
    push_cast
    omega
  · rw [tally_singleton, tally_singleton, ← hbacklog]
    change (c.asked : Multiset AsyncFetch) +
        (0 + ({fetch} + backlog (c.setInfo i _)) + completedBy c fun _ => true) =
      c.asked + ({fetch} + backlog (c.setInfo i _) + completedBy c fun _ => true)
    abel

theorem size_taken {token : Token} (h : Accounted settings ⟨c, token ::ₘ T⟩) (wrapper : CustomFetch) (n : ℤ) :
    c.currentGlobalFetchQueueSize + -1 + n + tally Token.counted {.taken wrapper} =
        c.currentGlobalFetchQueueSize + n + (0 : ℕ) ∧
      c.currentGlobalFetchQueueSize + -1 ≤ settings.maxGlobalQueueSize := by
  have hcapped := h.capped
  change c.currentGlobalFetchQueueSize ≤ _ at hcapped
  rw [tally_singleton, Token.counted]
  push_cast
  omega

theorem accounted_dropQueued (h : Accounted settings ⟨c, .taken wrapper ::ₘ T⟩) :
    Accounted settings
      ⟨(c.addToGlobalQueueSize (-1)).complete wrapper.fetch .shutDown, .spent wrapper.fetchInfo ::ₘ T⟩ := by
  obtain ⟨hcounted, hcapped⟩ := size_taken h wrapper (backlog c).card
  refine h.trade (all_cons _) (all_cons _) ?_ hcapped ?_ ?_ h.nodup
  · rw [tally_singleton Token.counted (.spent _)]
    exact hcounted
  · rw [tally_singleton, tally_singleton, completedBy_all]
    change (c.asked : Multiset AsyncFetch) + ({wrapper.fetch} + backlog c + completedBy c fun _ => true) =
      c.asked + (0 + backlog c + ({wrapper.fetch} + completedBy c fun _ => true))
    abel
  · rw [completedBy_loss (Or.inr rfl)]
    rfl

theorem accounted_schedule (h : Accounted settings ⟨c, .taken wrapper ::ₘ T⟩) :
    Accounted settings ⟨c.addToGlobalQueueSize (-1), .slot wrapper ::ₘ T⟩ := by
  obtain ⟨hcounted, hcapped⟩ := size_taken h wrapper (backlog c).card
  refine h.trade (all_cons _) (all_cons _) ?_ hcapped rfl rfl h.nodup
  rw [tally_singleton Token.counted (.slot _)]
  exact hcounted

theorem accounted_move (hm : Move settings stale l l') (hc : Charged settings l) (h : Accounted settings l) :
    Accounted settings l' := by
  cases hm with
  | shutDown c T => exact h.pass (zero_add _).symm (zero_add _).symm rfl rfl rfl rfl rfl rfl rfl
  | call c T fetch hnew => exact accounted_call h hnew
  | fail c T fetch outcome hfail => exact accounted_fail h hfail
  | insert c T host hentry =>
    exact h.pass (zero_add _).symm (zero_add _).symm rfl (backlog_insert hc host) rfl rfl rfl rfl rfl
  | charge c T fetch host i hhost hentry hcan =>
    exact h.pass (all_cons _) (all_cons _) rfl (backlog_congr rfl fun _ => charge_queue) rfl rfl rfl rfl rfl
  | enqueue c T fetch host i hhost hentry hbackground hcannot hcan =>
    exact accounted_enqueue h (hc.mapped host i hentry).1 hcan
  | handOver c T fetch => exact accounted_handOver h
  | finishDirect c T fetch success hmem => exact accounted_finishDirect h success hmem
  | finishCustom c T wrapper hmem => exact accounted_finishCustom h hmem
  | handleDone c T wrapper success => exact accounted_handleDone h success
  | decrement c T i =>
    exact h.pass (all_cons _) (all_cons _) rfl (backlog_congr rfl fun _ => charge_queue) rfl rfl rfl rfl rfl
  | popNone c T i hpop => exact h.pass (all_cons _) (zero_add _).symm rfl rfl rfl rfl rfl rfl rfl
  | pop c T i fetch rest hqueue hcan =>
    refine accounted_pop h (lt_numInfos hc fun heq => ?_) hqueue
    change c.infos i = _ at heq
    rw [heq] at hqueue
    cases hqueue
  | delete c T i hidle =>
    rw [deleteFetchInfoIfPossible]
    split_ifs
    · exact h
    · exact h.pass (zero_add _).symm (zero_add _).symm rfl rfl rfl rfl rfl rfl rfl
  | schedule c T wrapper => exact accounted_schedule h
  | dropQueued c T wrapper => exact accounted_dropQueued h

end PageSpeed.RateController
