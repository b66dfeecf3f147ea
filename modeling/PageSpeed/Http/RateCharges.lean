import PageSpeed.Http.RateLedger

/-!
What the bag of tokens says about the counts and queues of the controller, and
where every fetch is that was asked for.
-/

namespace PageSpeed.RateController

open Bag

namespace Token

def fetches : Token → Multiset AsyncFetch
  | .held fetch => {fetch}
  | .slot wrapper => {wrapper.fetch}
  | .returning wrapper => {wrapper.fetch}
  | .taken wrapper => {wrapper.fetch}
  | _ => 0

def wrappers : Token → Multiset CustomFetch
  | .slot wrapper => {wrapper}
  | .returning wrapper => {wrapper}
  | .taken wrapper => {wrapper}
  | _ => 0

def returned : Token → Multiset AsyncFetch
  | .returning wrapper => {wrapper.fetch}
  | _ => 0

def charges (i : ℕ) : Token → ℕ
  | .slot wrapper => if wrapper.fetchInfo = i then 1 else 0
  | .returning wrapper => if wrapper.fetchInfo = i then 1 else 0
  | .taken wrapper => if wrapper.fetchInfo = i then 1 else 0
  | .spent j => if j = i then 1 else 0
  | _ => 0

def pops (i : ℕ) : Token → ℕ
  | .pop j => if j = i then 1 else 0
  | _ => 0

def counted : Token → ℕ
  | .taken _ => 1
  | _ => 0

end Token

def isBackgroundOn (i : ℕ) (wrapper : CustomFetch) : Prop := wrapper.fetchInfo = i ∧ wrapper.fetch.isBackgroundFetch = true

instance (i : ℕ) : DecidablePred (isBackgroundOn i) := fun _ => instDecidableAnd

section Tally

variable {M : Type*} [AddCommMonoid M]

def tally (φ : Token → M) (T : Multiset Token) : M := (T.map φ).sum

@[simp]
theorem tally_zero (φ : Token → M) : tally φ 0 = 0 := rfl

@[simp]
theorem tally_cons (φ : Token → M) (token : Token) (T : Multiset Token) :
    tally φ (token ::ₘ T) = φ token + tally φ T := by
  rw [tally, Multiset.map_cons, Multiset.sum_cons]
  rfl

@[simp]
theorem tally_add (φ : Token → M) (T T' : Multiset Token) : tally φ (T + T') = tally φ T + tally φ T' := by
  rw [tally, Multiset.map_add, Multiset.sum_add]
  rfl

@[simp]
theorem tally_singleton (φ : Token → M) (token : Token) : tally φ {token} = φ token := by
  rw [tally, Multiset.map_singleton, Multiset.sum_singleton]

end Tally

namespace Ledger

def all (l : Ledger) : Multiset Token := l.tokens + (l.controller.outstanding.map BaseFetch.token : List Token)

def outgoing (l : Ledger) : Multiset CustomFetch := tally Token.wrappers l.all

end Ledger

variable {settings : Settings} {stale : Prop} {c c' : RateController} {T : Multiset Token} {l l' : Ledger}

theorem all_cons (token : Token) : Ledger.all ⟨c, token ::ₘ T⟩ = {token} + Ledger.all ⟨c, T⟩ := by
  rw [Ledger.all, Ledger.all, ← Multiset.singleton_add, add_assoc]

theorem all_handOver (fetch : BaseFetch) :
    Ledger.all ⟨c.handOver fetch, T⟩ = {fetch.token} + Ledger.all ⟨c, T⟩ := by
  rw [Ledger.all, Ledger.all, handOver, List.map_cons, ← Multiset.cons_coe, Multiset.add_cons]
  exact (Multiset.singleton_add _ _).symm

theorem all_erase {fetch : BaseFetch} (hmem : fetch ∈ c.outstanding) :
    Ledger.all ⟨c, T⟩ = {fetch.token} + Ledger.all ⟨{ c with outstanding := c.outstanding.erase fetch }, T⟩ := by
  have hperm := (List.perm_cons_erase hmem).map BaseFetch.token
  rw [Ledger.all, Ledger.all, Multiset.singleton_add, ← Multiset.add_cons, Multiset.cons_coe, Multiset.coe_eq_coe.mpr hperm]
  rfl

structure Charged (settings : Settings) (l : Ledger) : Prop where
  fresh : ∀ i, l.controller.numInfos ≤ i → l.controller.infos i = ⟨[], 0, []⟩
  mapped : ∀ host i, l.controller.fetchInfoMap host = some i →
    i < l.controller.numInfos ∧ (l.controller.infos i).host = host
  charged : ∀ i, (l.controller.infos i).numOutboundFetches = tally (Token.charges i) l.all
  fed : ∀ i, (l.controller.infos i).fetchQueue ≠ [] →
    (settings.perHostOutgoingRequestThreshold : ℤ) ≤
      (l.controller.infos i).numOutboundFetches + tally (Token.pops i) l.all
  short : ∀ i, (l.controller.infos i).fetchQueue.length ≤ settings.perHostQueuedRequestThreshold

theorem Charged.keep (h : Charged settings l) (hnum : l'.controller.numInfos = l.controller.numInfos)
    (hmap : ∀ host i, l'.controller.fetchInfoMap host = some i → l.controller.fetchInfoMap host = some i)
    (hinfos : l'.controller.infos = l.controller.infos)
    (hcharges : ∀ i, tally (Token.charges i) l'.all = tally (Token.charges i) l.all)
    (hfed : ∀ i, (l.controller.infos i).fetchQueue ≠ [] → (settings.perHostOutgoingRequestThreshold : ℤ) ≤
      (l.controller.infos i).numOutboundFetches + tally (Token.pops i) l'.all) : Charged settings l' where
  fresh i hi := by
    rw [hinfos]
    exact h.fresh i (hnum ▸ hi)
  mapped host i hentry := by
    rw [hinfos, hnum]
    exact h.mapped host i (hmap host i hentry)
  charged i := by
    rw [hinfos, hcharges]
    exact h.charged i
  fed i hqueue := by
    rw [hinfos] at hqueue ⊢
    exact hfed i hqueue
  short i := by
    rw [hinfos]
    exact h.short i

variable {info : HostFetchInfo} {R after before : Multiset Token} {fetch : AsyncFetch} {host : GoogleString}

theorem Charged.change (h : Charged settings l) {i : ℕ} (hi : i < l.controller.numInfos)
    (hnum : l'.controller.numInfos = l.controller.numInfos)
    (hmap : l'.controller.fetchInfoMap = l.controller.fetchInfoMap)
    (hinfos : l'.controller.infos = Function.update l.controller.infos i info)
    (hhost : info.host = (l.controller.infos i).host)
    (hself : info.numOutboundFetches = tally (Token.charges i) l'.all)
    (hcharges : ∀ j, i ≠ j → tally (Token.charges j) l'.all = tally (Token.charges j) l.all)
    (hfed : info.fetchQueue ≠ [] →
      (settings.perHostOutgoingRequestThreshold : ℤ) ≤ info.numOutboundFetches + tally (Token.pops i) l'.all)
    (hpops : ∀ j, i ≠ j → tally (Token.pops j) l'.all = tally (Token.pops j) l.all)
    (hshort : info.fetchQueue.length ≤ settings.perHostQueuedRequestThreshold) : Charged settings l' := by
  have hother : ∀ j, i ≠ j → l'.controller.infos j = l.controller.infos j := by
    intro j hne
    rw [hinfos]
    exact Function.update_of_ne hne.symm _ _
  have hsame : l'.controller.infos i = info := by
    rw [hinfos]
    exact Function.update_self _ _ _
  constructor
  · intro j hj
    rw [hnum] at hj
    rw [hother j (by omega)]
    exact h.fresh j hj
  · intro host j hentry
    rw [hmap] at hentry
    obtain ⟨hlt, heq⟩ := h.mapped host j hentry
    refine ⟨hnum ▸ hlt, ?_⟩
    by_cases hij : i = j
    · subst hij
      rw [hsame, hhost, heq]
    · rw [hother j hij, heq]
  · intro j
    by_cases hij : i = j
    · subst hij
      rw [hsame, hself]
    · rw [hother j hij, hcharges j hij]
      exact h.charged j
  · intro j hqueue
    by_cases hij : i = j
    · subst hij
      rw [hsame] at hqueue ⊢
      exact hfed hqueue
    · rw [hother j hij] at hqueue ⊢
      rw [hpops j hij]
      exact h.fed j hqueue
  · intro j
    by_cases hij : i = j
    · subst hij
      rw [hsame]
      exact hshort
    · rw [hother j hij]
      exact h.short j

theorem canTriggerFetch_false {i : ℕ} (h : c.canTriggerFetch settings i = false) :
    (settings.perHostOutgoingRequestThreshold : ℤ) ≤ (c.infos i).numOutboundFetches := by
  rw [canTriggerFetch, decide_eq_false_iff_not] at h
  exact Int.not_lt.mp h

theorem Charged.trade (h : Charged settings l) (hnum : l'.controller.numInfos = l.controller.numInfos)
    (hmap : ∀ host i, l'.controller.fetchInfoMap host = some i → l.controller.fetchInfoMap host = some i)
    (hinfos : l'.controller.infos = l.controller.infos) (hbefore : l.all = before + R) (hafter : l'.all = after + R)
    (hcharges : ∀ i, tally (Token.charges i) after = tally (Token.charges i) before)
    (hpops : ∀ i, tally (Token.pops i) after = tally (Token.pops i) before) : Charged settings l' := by
  refine h.keep hnum hmap hinfos (fun i => ?_) fun i hqueue => ?_
  · rw [hbefore, hafter, tally_add, tally_add, hcharges]
  · rw [hafter, tally_add, hpops, ← tally_add, ← hbefore]
    exact h.fed i hqueue

theorem lt_numInfos (h : Charged settings l) {i : ℕ} (hi : l.controller.infos i ≠ ⟨[], 0, []⟩) :
    i < l.controller.numInfos := by
  by_contra hge
  exact hi (h.fresh i (Nat.not_lt.mp hge))

theorem insert_num (h : Charged settings ⟨c, T⟩) (host : GoogleString) (i : ℕ) :
    ((c.insertFetchInfo host).infos i).numOutboundFetches = (c.infos i).numOutboundFetches ∧
      ((c.insertFetchInfo host).infos i).fetchQueue = (c.infos i).fetchQueue := by
  change (Function.update c.infos c.numInfos ⟨host, 0, []⟩ i).numOutboundFetches = _ ∧
    (Function.update c.infos c.numInfos ⟨host, 0, []⟩ i).fetchQueue = _
  by_cases hi : i = c.numInfos
  · rw [hi, h.fresh c.numInfos (Nat.le_refl _), Function.update_self]
    exact ⟨rfl, rfl⟩
  · rw [Function.update_of_ne hi]
    exact ⟨rfl, rfl⟩

theorem charged_insert (h : Charged settings ⟨c, T⟩) (host : GoogleString) :
    Charged settings ⟨c.insertFetchInfo host, T⟩ := by
  constructor
  · intro i (hi : c.numInfos + 1 ≤ i)
    have hne : i ≠ c.numInfos := by omega
    exact (Function.update_of_ne hne _ _).trans (h.fresh i (Nat.le_of_succ_le hi))
  · intro host' i hentry
    change (Function.update c.fetchInfoMap host (some c.numInfos)) host' = some i at hentry
    change i < c.numInfos + 1 ∧ (Function.update c.infos c.numInfos ⟨host, 0, []⟩ i).host = host'
    rw [Function.update_apply] at hentry
    split_ifs at hentry with heq
    · cases hentry
      rw [Function.update_self, heq]
      exact ⟨Nat.lt_succ_self _, rfl⟩
    · obtain ⟨hlt, hhost⟩ := h.mapped host' i hentry
      rw [Function.update_of_ne (Nat.ne_of_lt hlt)]
      exact ⟨Nat.lt_succ_of_lt hlt, hhost⟩
  · intro i
    exact (insert_num h host i).1.trans (h.charged i)
  · intro i hqueue
    rw [(insert_num h host i).2] at hqueue
    rw [(insert_num h host i).1]
    exact h.fed i hqueue
  · intro i
    rw [(insert_num h host i).2]
    exact h.short i

theorem Charged.exchange (h : Charged settings l) {i : ℕ} (hi : i < l.controller.numInfos) (hbefore : l.all = before + R) (hafter : l'.all = after + R)
    (hnum : l'.controller.numInfos = l.controller.numInfos)
    (hmap : l'.controller.fetchInfoMap = l.controller.fetchInfoMap)
    (hinfos : l'.controller.infos = Function.update l.controller.infos i info)
    (hhost : info.host = (l.controller.infos i).host)
    (hself : info.numOutboundFetches + (tally (Token.charges i) before : ℕ) =
      (l.controller.infos i).numOutboundFetches + (tally (Token.charges i) after : ℕ))
    (hcharges : ∀ j, i ≠ j → tally (Token.charges j) after = tally (Token.charges j) before)
    (hfed : info.fetchQueue ≠ [] → (settings.perHostOutgoingRequestThreshold : ℤ) ≤ info.numOutboundFetches ∨
      ((l.controller.infos i).fetchQueue ≠ [] ∧
        (l.controller.infos i).numOutboundFetches + (tally (Token.pops i) before : ℕ) ≤
          info.numOutboundFetches + (tally (Token.pops i) after : ℕ)))
    (hpops : ∀ j, i ≠ j → tally (Token.pops j) after = tally (Token.pops j) before)
    (hshort : info.fetchQueue.length ≤ settings.perHostQueuedRequestThreshold) : Charged settings l' := by
  have htotal (φ : Token → ℕ) : tally φ l.all = tally φ before + tally φ R ∧
      tally φ l'.all = tally φ after + tally φ R := by
    rw [hbefore, hafter, tally_add, tally_add]
    exact ⟨rfl, rfl⟩
  refine h.change hi hnum hmap hinfos hhost ?_ ?_ ?_ ?_ hshort
  · have hcount := h.charged i
    rw [(htotal _).1] at hcount
    rw [(htotal _).2]
    push_cast at hcount ⊢
    omega
  · intro j hne
    rw [(htotal _).1, (htotal _).2, hcharges j hne]
  · intro hqueue
    rw [(htotal _).2]
    push_cast
    rcases hfed hqueue with hfull | ⟨hold, hsum⟩
    · omega
    · have hbound := h.fed i hold
      rw [(htotal _).1] at hbound
      push_cast at hbound
      omega
  · intro j hne
    rw [(htotal _).1, (htotal _).2, hpops j hne]

theorem charged_charge {i : ℕ} (h : Charged settings ⟨c, .held fetch ::ₘ T⟩)
    (hentry : c.fetchInfoMap host = some i) : Charged settings ⟨c.charge i 1, .slot ⟨i, fetch⟩ ::ₘ T⟩ := by
  refine h.exchange (h.mapped host i hentry).1 (all_cons _) (all_cons (c := c.charge i 1) _) rfl rfl rfl rfl ?_ ?_ ?_ ?_
    (h.short i)
  · simp [Token.charges]
  · intro j hne
    simp [Token.charges, hne]
  · intro hqueue
    refine Or.inr ⟨hqueue, ?_⟩
    simp [Token.pops]
  · intro j _
    simp [Token.pops]

theorem charged_enqueue {i : ℕ} (h : Charged settings ⟨c, .held fetch ::ₘ T⟩) (hentry : c.fetchInfoMap host = some i)
    (hcannot : c.canTriggerFetch settings i = false) (hcan : c.canEnqueue settings i = true) :
    Charged settings ⟨c.enqueueFetch i fetch, T⟩ := by
  refine h.exchange (h.mapped host i hentry).1 (all_cons _) (zero_add _).symm rfl rfl rfl rfl ?_ ?_ ?_ ?_ ?_
  · simp [Token.charges]
  · intro j _
    simp [Token.charges]
  · intro _
    exact Or.inl (canTriggerFetch_false hcannot)
  · intro j _
    simp [Token.pops]
  · rw [canEnqueue, Bool.and_eq_true, decide_eq_true_eq, decide_eq_true_eq] at hcan
    change ((c.infos i).fetchQueue ++ [fetch]).length ≤ _
    rw [List.length_append, List.length_singleton]
    exact hcan.2

theorem charged_pop {i : ℕ} {rest : List AsyncFetch} (h : Charged settings ⟨c, .pop i ::ₘ T⟩)
    (hqueue : (c.infos i).fetchQueue = fetch :: rest) :
    Charged settings ⟨{ c.setInfo i { c.infos i with
        fetchQueue := rest
        numOutboundFetches := (c.infos i).numOutboundFetches + 1 } with
      dequeued := c.dequeued ++ [fetch] }, .taken ⟨i, fetch⟩ ::ₘ T⟩ := by
  have hi : i < c.numInfos := lt_numInfos h fun heq => by
    rw [heq] at hqueue
    cases hqueue
  refine h.exchange hi (all_cons _) (all_cons _) rfl rfl rfl rfl ?_ ?_ ?_ ?_ ?_
  · simp [Token.charges]
  · intro j hne
    simp [Token.charges, hne]
  · intro _
    refine Or.inr ⟨by rw [hqueue]; exact List.cons_ne_nil _ _, ?_⟩
    simp [Token.pops]
  · intro j hne
    simp [Token.pops, hne]
  · have hshort := h.short i
    rw [hqueue, List.length_cons] at hshort
    exact Nat.le_of_succ_le hshort

theorem charged_decrement {i : ℕ} (h : Charged settings ⟨c, .spent i ::ₘ T⟩) :
    Charged settings ⟨c.charge i (-1), .pop i ::ₘ T⟩ := by
  have hcount := h.charged i
  rw [all_cons, tally_add, tally_singleton, Token.charges, if_pos rfl] at hcount
  have hi : i < c.numInfos := lt_numInfos h fun heq => by
    rw [heq] at hcount
    push_cast at hcount
    omega
  refine h.exchange hi (all_cons _) (all_cons (c := c.charge i (-1)) _) rfl rfl rfl rfl ?_ ?_ ?_ ?_ (h.short i)
  · simp [Token.charges]
  · intro j hne
    simp [Token.charges, hne]
  · intro hqueue
    refine Or.inr ⟨hqueue, ?_⟩
    simp [Token.pops]
  · intro j hne
    simp [Token.pops, hne]

theorem charged_popNone {i : ℕ} (h : Charged settings ⟨c, .pop i ::ₘ T⟩)
    (hpop : (c.infos i).fetchQueue = [] ∨ c.canTriggerFetch settings i = false) : Charged settings ⟨c, T⟩ := by
  refine h.keep rfl (fun _ _ => id) rfl (fun j => ?_) fun j hqueue => ?_
  · rw [all_cons, tally_add, tally_singleton]
    exact (zero_add _).symm
  · by_cases hij : i = j
    · subst hij
      have hfull := canTriggerFetch_false (hpop.resolve_left hqueue)
      change _ ≤ (c.infos i).numOutboundFetches + _
      omega
    · have hold := h.fed j hqueue
      rwa [all_cons, tally_add, tally_singleton, Token.pops, if_neg hij, zero_add] at hold

section Delete

variable (i : ℕ)

theorem delete_numInfos : (c.deleteFetchInfoIfPossible i).numInfos = c.numInfos := by
  rw [deleteFetchInfoIfPossible]
  split_ifs <;> rfl

theorem delete_infos : (c.deleteFetchInfoIfPossible i).infos = c.infos := by
  rw [deleteFetchInfoIfPossible]
  split_ifs <;> rfl

theorem delete_outstanding : (c.deleteFetchInfoIfPossible i).outstanding = c.outstanding := by
  rw [deleteFetchInfoIfPossible]
  split_ifs <;> rfl

theorem delete_entry {i j : ℕ} {host : GoogleString}
    (h : (c.deleteFetchInfoIfPossible i).fetchInfoMap host = some j) : c.fetchInfoMap host = some j := by
  rw [deleteFetchInfoIfPossible] at h
  split_ifs at h
  · exact h
  · change Function.update c.fetchInfoMap (c.infos i).host none host = some j at h
    rw [Function.update_apply] at h
    split_ifs at h
    exact h

end Delete

theorem charged_move (hm : Move settings stale l l') (h : Charged settings l) : Charged settings l' := by
  cases hm with
  | shutDown c T => exact h.trade rfl (fun _ _ => id) rfl (zero_add _).symm (zero_add _).symm (fun _ => rfl) fun _ => rfl
  | call c T fetch hnew =>
    exact h.trade rfl (fun _ _ => id) rfl (zero_add _).symm (all_cons _) (fun _ => rfl) fun _ => rfl
  | fail c T fetch outcome hfail =>
    exact h.trade rfl (fun _ _ => id) rfl (all_cons _) (zero_add _).symm (fun _ => rfl) fun _ => rfl
  | insert c T host hentry => exact charged_insert h host
  | charge c T fetch host i hhost hentry hcan => exact charged_charge h hentry
  | enqueue c T fetch host i hhost hentry hbackground hcannot hcan => exact charged_enqueue h hentry hcannot hcan
  | handOver c T fetch =>
    exact h.trade rfl (fun _ _ => id) rfl (all_cons _) (all_handOver fetch) (fun _ => rfl) fun _ => rfl
  | finishDirect c T fetch success hmem =>
    exact h.trade rfl (fun _ _ => id) rfl (all_erase hmem) (zero_add _).symm (fun _ => rfl) fun _ => rfl
  | finishCustom c T wrapper hmem =>
    exact h.trade rfl (fun _ _ => id) rfl (all_erase hmem) (all_cons _) (fun _ => rfl) fun _ => rfl
  | handleDone c T wrapper success =>
    exact h.trade rfl (fun _ _ => id) rfl (all_cons _) (all_cons _) (fun _ => rfl) fun _ => rfl
  | decrement c T i => exact charged_decrement h
  | popNone c T i hpop => exact charged_popNone h hpop
  | pop c T i fetch rest hqueue hcan => exact charged_pop h hqueue
  | delete c T i hidle =>
    refine h.trade ?_ (fun host j hentry => ?_) ?_ (zero_add _).symm ?_ (fun _ => rfl) fun _ => rfl
    · exact delete_numInfos i
    · exact delete_entry hentry
    · exact delete_infos i
    · rw [Ledger.all, delete_outstanding, zero_add, Ledger.all]
  | schedule c T wrapper =>
    exact h.trade rfl (fun _ _ => id) rfl (all_cons _) (all_cons _) (fun _ => rfl) fun _ => rfl
  | dropQueued c T wrapper =>
    exact h.trade rfl (fun _ _ => id) rfl (all_cons _) (all_cons _) (fun _ => rfl) fun _ => rfl

theorem canTriggerFetch_true {i : ℕ} (h : c.canTriggerFetch settings i = true) :
    (c.infos i).numOutboundFetches < settings.perHostOutgoingRequestThreshold := by
  rwa [canTriggerFetch, decide_eq_true_eq] at h

def isOn (i : ℕ) (wrapper : CustomFetch) : Prop := wrapper.fetchInfo = i

instance (i : ℕ) : DecidablePred (isOn i) := fun wrapper => decEq wrapper.fetchInfo i

theorem countP_singleton (p : CustomFetch → Prop) [DecidablePred p] (wrapper : CustomFetch) :
    Multiset.countP p {wrapper} = if p wrapper then 1 else 0 := by
  rw [← Multiset.cons_zero, Multiset.countP_cons, Multiset.countP_zero, zero_add]

theorem outgoing_le_charges (T : Multiset Token) (i : ℕ) :
    (tally Token.wrappers T).countP (isOn i) ≤ tally (Token.charges i) T := by
  induction T using Multiset.induction with
  | empty => exact Nat.le_refl 0
  | cons token T ih =>
    rw [tally_cons, tally_cons, Multiset.countP_add]
    refine Nat.add_le_add ?_ ih
    cases token with
    | held fetch => exact Nat.le_refl 0
    | spent j => exact Nat.zero_le _
    | pop j => exact Nat.le_refl 0
    | _ => exact Nat.le_of_eq (countP_singleton _ _)

theorem crowd_le_outgoing (wrappers : Multiset CustomFetch) (i : ℕ) :
    wrappers.countP (isBackgroundOn i) ≤ wrappers.countP (isOn i) := by
  rw [Multiset.countP_eq_card_filter, Multiset.countP_eq_card_filter]
  exact Multiset.card_le_card (Multiset.monotone_filter_right wrappers fun _ h => h.1)

structure Placed (settings : Settings) (l : Ledger) : Prop where
  waiting : ∀ i, ∀ fetch ∈ (l.controller.infos i).fetchQueue,
    fetch.isBackgroundFetch = true ∧ hostOf settings fetch.url = some (l.controller.infos i).host
  placed : ∀ wrapper ∈ l.outgoing, hostOf settings wrapper.fetch.url = some (l.controller.infos wrapper.fetchInfo).host
  crowd : ∀ i, l.outgoing.countP (isBackgroundOn i) ≤ settings.perHostOutgoingRequestThreshold

theorem lt_of_outgoing (h : Charged settings l) {wrapper : CustomFetch} (hmem : wrapper ∈ l.outgoing) :
    wrapper.fetchInfo < l.controller.numInfos ∧
      0 < (l.controller.infos wrapper.fetchInfo).numOutboundFetches := by
  have hpos : 0 < l.outgoing.countP (isOn wrapper.fetchInfo) := Multiset.countP_pos_of_mem hmem rfl
  have hle := outgoing_le_charges l.all wrapper.fetchInfo
  have hcount := h.charged wrapper.fetchInfo
  rw [Ledger.outgoing] at hpos
  refine ⟨lt_numInfos h fun heq => ?_, by omega⟩
  rw [heq] at hcount
  push_cast at hcount
  omega

theorem Placed.shrink (h : Placed settings l)
    (hwaiting : ∀ i, (l'.controller.infos i).fetchQueue ⊆ (l.controller.infos i).fetchQueue)
    (hhost : ∀ i, (l'.controller.infos i).host = (l.controller.infos i).host) (hle : l'.outgoing ≤ l.outgoing) :
    Placed settings l' where
  waiting i fetch hmem := by
    rw [hhost]
    exact h.waiting i fetch (hwaiting i hmem)
  placed wrapper hmem := by
    rw [hhost]
    exact h.placed wrapper (Multiset.mem_of_le hle hmem)
  crowd i := (Multiset.countP_le_of_le _ hle).trans (h.crowd i)

theorem Placed.grow (h : Placed settings l) (wrapper : CustomFetch)
    (hwaiting : ∀ i, (l'.controller.infos i).fetchQueue ⊆ (l.controller.infos i).fetchQueue)
    (hhost : ∀ i, (l'.controller.infos i).host = (l.controller.infos i).host)
    (hmore : l'.outgoing = {wrapper} + l.outgoing)
    (hplaced : hostOf settings wrapper.fetch.url = some (l.controller.infos wrapper.fetchInfo).host)
    (hcharged : (l.controller.infos wrapper.fetchInfo).numOutboundFetches = tally (Token.charges wrapper.fetchInfo) l.all)
    (hroom : wrapper.fetch.isBackgroundFetch = true →
      (l.controller.infos wrapper.fetchInfo).numOutboundFetches < settings.perHostOutgoingRequestThreshold) :
    Placed settings l' where
  waiting i fetch hmem := by
    rw [hhost]
    exact h.waiting i fetch (hwaiting i hmem)
  placed other hmem := by
    rw [hhost]
    rw [hmore, Multiset.mem_add, Multiset.mem_singleton] at hmem
    rcases hmem with rfl | hmem
    · exact hplaced
    · exact h.placed other hmem
  crowd i := by
    rw [hmore, Multiset.countP_add, countP_singleton]
    split_ifs with hon
    · obtain ⟨rfl, hbackground⟩ := hon
      have hlt := hroom hbackground
      have hle := (crowd_le_outgoing l.outgoing wrapper.fetchInfo).trans (outgoing_le_charges l.all wrapper.fetchInfo)
      omega
    · rw [zero_add]
      exact h.crowd i

theorem outgoing_of_all (h : l.all = before + R) :
    l.outgoing = tally Token.wrappers before + tally Token.wrappers R := by
  rw [Ledger.outgoing, h, tally_add]

theorem Placed.trade (h : Placed settings l) (hbefore : l.all = before + R) (hafter : l'.all = after + R)
    (hwaiting : ∀ i, (l'.controller.infos i).fetchQueue = (l.controller.infos i).fetchQueue)
    (hhost : ∀ i, (l'.controller.infos i).host = (l.controller.infos i).host)
    (hle : tally Token.wrappers after ≤ tally Token.wrappers before) : Placed settings l' := by
  refine h.shrink (fun i => ?_) hhost ?_
  · rw [hwaiting]
    exact List.Subset.refl _
  · rw [outgoing_of_all hbefore, outgoing_of_all hafter]
    exact Multiset.add_le_add_right hle

theorem setInfo_host {i : ℕ} (hhost : info.host = (c.infos i).host) (j : ℕ) :
    ((c.setInfo i info).infos j).host = (c.infos j).host := by
  change (Function.update c.infos i info j).host = _
  rw [Function.update_apply]
  split_ifs with hij
  · rw [hij, hhost]
  · rfl

theorem setInfo_queue {i : ℕ} (hqueue : info.fetchQueue = (c.infos i).fetchQueue) (j : ℕ) :
    ((c.setInfo i info).infos j).fetchQueue = (c.infos j).fetchQueue := by
  change (Function.update c.infos i info j).fetchQueue = _
  rw [Function.update_apply]
  split_ifs with hij
  · rw [hij, hqueue]
  · rfl

theorem charge_queue {i j : ℕ} {n : ℤ} : ((c.charge i n).infos j).fetchQueue = (c.infos j).fetchQueue := by
  rw [charge]
  refine setInfo_queue ?_ j
  rfl

theorem placed_insert (hc : Charged settings ⟨c, T⟩) (h : Placed settings ⟨c, T⟩) (host : GoogleString) :
    Placed settings ⟨c.insertFetchInfo host, T⟩ := by
  have hold : ∀ i, i < c.numInfos → (c.insertFetchInfo host).infos i = c.infos i :=
    fun i hi => Function.update_of_ne (Nat.ne_of_lt hi) _ _
  refine ⟨fun i fetch hmem => ?_, fun wrapper hmem => ?_, h.crowd⟩
  · have hqueue : fetch ∈ (c.infos i).fetchQueue := (insert_num hc host i).2 ▸ hmem
    have hi : i < c.numInfos := lt_numInfos hc fun heq => by
      change c.infos i = _ at heq
      rw [heq] at hqueue
      cases hqueue
    change _ ∧ _ = some ((c.insertFetchInfo host).infos i).host
    rw [hold i hi]
    exact h.waiting i fetch hqueue
  · change _ = some ((c.insertFetchInfo host).infos wrapper.fetchInfo).host
    rw [hold _ (lt_of_outgoing hc (hmem : wrapper ∈ Ledger.outgoing ⟨c, T⟩)).1]
    exact h.placed wrapper hmem

theorem placed_enqueue {i : ℕ} (hc : Charged settings ⟨c, .held fetch ::ₘ T⟩)
    (h : Placed settings ⟨c, .held fetch ::ₘ T⟩) (hhost : hostOf settings fetch.url = some host)
    (hentry : c.fetchInfoMap host = some i) (hbackground : fetch.isBackgroundFetch = true) :
    Placed settings ⟨c.enqueueFetch i fetch, T⟩ := by
  have hout : Ledger.outgoing ⟨c, .held fetch ::ₘ T⟩ = Ledger.outgoing ⟨c.enqueueFetch i fetch, T⟩ :=
    (outgoing_of_all (all_cons _)).trans (zero_add _)
  have hsame : ∀ j, ((c.enqueueFetch i fetch).infos j).host = (c.infos j).host := setInfo_host rfl
  refine ⟨fun j other hmem => ?_, fun wrapper hmem => ?_, fun j => ?_⟩
  · change _ ∧ _ = some ((c.enqueueFetch i fetch).infos j).host
    rw [hsame]
    change other ∈ (Function.update c.infos i _ j).fetchQueue at hmem
    rw [Function.update_apply] at hmem
    split_ifs at hmem with hij
    · rcases List.mem_append.mp hmem with hmem | hmem
      · rw [hij]
        exact h.waiting i other hmem
      · obtain rfl := List.mem_singleton.mp hmem
        refine ⟨hbackground, ?_⟩
        rw [hhost, hij]
        exact congrArg some (hc.mapped host i hentry).2.symm
    · exact h.waiting j other hmem
  · change _ = some ((c.enqueueFetch i fetch).infos wrapper.fetchInfo).host
    rw [hsame]
    exact h.placed wrapper (hout ▸ hmem)
  · rw [← hout]
    exact h.crowd j

theorem placed_pop {i : ℕ} {rest : List AsyncFetch} (hc : Charged settings ⟨c, .pop i ::ₘ T⟩)
    (h : Placed settings ⟨c, .pop i ::ₘ T⟩) (hqueue : (c.infos i).fetchQueue = fetch :: rest)
    (hcan : c.canTriggerFetch settings i = true) :
    Placed settings ⟨{ c.setInfo i { c.infos i with
        fetchQueue := rest
        numOutboundFetches := (c.infos i).numOutboundFetches + 1 } with
      dequeued := c.dequeued ++ [fetch] }, .taken ⟨i, fetch⟩ ::ₘ T⟩ := by
  have hfirst := h.waiting i fetch (by
    change fetch ∈ (c.infos i).fetchQueue
    rw [hqueue]
    exact List.mem_cons_self)
  refine h.grow ⟨i, fetch⟩ (fun j => ?_) (setInfo_host rfl) ?_ hfirst.2 (hc.charged i)
    fun _ => canTriggerFetch_true hcan
  · change (Function.update c.infos i _ j).fetchQueue ⊆ _
    rw [Function.update_apply]
    split_ifs with hij
    · subst hij
      change rest ⊆ (c.infos j).fetchQueue
      rw [hqueue]
      exact List.subset_cons_self _ _
    · exact List.Subset.refl _
  · rw [outgoing_of_all (all_cons (c := c) _), outgoing_of_all (all_cons _), tally_singleton, tally_singleton]
    exact congrArg _ (zero_add _).symm

theorem placed_move (hm : Move settings stale l l') (hc : Charged settings l) (h : Placed settings l) :
    Placed settings l' := by
  cases hm with
  | shutDown c T =>
    exact h.trade (zero_add _).symm (zero_add _).symm (fun _ => rfl) (fun _ => rfl) (le_refl _)
  | call c T fetch hnew =>
    exact h.trade (zero_add _).symm (all_cons _) (fun _ => rfl) (fun _ => rfl) (le_refl _)
  | fail c T fetch outcome hfail =>
    exact h.trade (all_cons _) (zero_add _).symm (fun _ => rfl) (fun _ => rfl) (le_refl _)
  | insert c T host hentry => exact placed_insert hc h host
  | charge c T fetch host i hhost hentry hcan =>
    have hheld : (Ledger.outgoing ⟨c, .held fetch ::ₘ T⟩) = Ledger.outgoing ⟨c, T⟩ :=
      (outgoing_of_all (all_cons _)).trans (zero_add _)
    refine h.grow ⟨i, fetch⟩ (fun j => ?_) (setInfo_host rfl) ?_ ?_ (hc.charged i) fun hbackground =>
      canTriggerFetch_true (hcan hbackground)
    · intro other hmem
      exact charge_queue (c := c) (i := i) (n := 1) (j := j) ▸ hmem
    · rw [hheld, outgoing_of_all (all_cons _), tally_singleton]
      rfl
    · rw [hhost]
      exact congrArg some (hc.mapped host i hentry).2.symm
  | enqueue c T fetch host i hhost hentry hbackground hcannot hcan => exact placed_enqueue hc h hhost hentry hbackground
  | handOver c T fetch =>
    exact h.trade (all_cons _) (all_handOver fetch) (fun _ => rfl) (fun _ => rfl) (le_refl _)
  | finishDirect c T fetch success hmem =>
    exact h.trade (all_erase hmem) (zero_add _).symm (fun _ => rfl) (fun _ => rfl) (le_refl _)
  | finishCustom c T wrapper hmem =>
    exact h.trade (all_erase hmem) (all_cons _) (fun _ => rfl) (fun _ => rfl) (le_refl _)
  | handleDone c T wrapper success =>
    exact h.trade (all_cons _) (all_cons _) (fun _ => rfl) (fun _ => rfl) (Multiset.zero_le _)
  | decrement c T i =>
    exact h.trade (all_cons _) (all_cons _) (setInfo_queue rfl) (setInfo_host rfl) (le_refl _)
  | popNone c T i hpop =>
    exact h.trade (all_cons _) (zero_add _).symm (fun _ => rfl) (fun _ => rfl) (le_refl _)
  | pop c T i fetch rest hqueue hcan => exact placed_pop hc h hqueue hcan
  | delete c T i hidle =>
    refine h.trade (zero_add _).symm ?_ (fun j => ?_) (fun j => ?_) (le_refl _)
    · rw [Ledger.all, delete_outstanding, zero_add, Ledger.all]
    · rw [delete_infos]
    · rw [delete_infos]
  | schedule c T wrapper =>
    exact h.trade (all_cons _) (all_cons _) (fun _ => rfl) (fun _ => rfl) (le_refl _)
  | dropQueued c T wrapper =>
    exact h.trade (all_cons _) (all_cons _) (fun _ => rfl) (fun _ => rfl) (Multiset.zero_le _)

def Busy (info : HostFetchInfo) : Prop := info.numOutboundFetches ≠ 0 ∨ info.fetchQueue ≠ []

def Entered (l : Ledger) : Prop :=
  ∀ i, Busy (l.controller.infos i) → l.controller.fetchInfoMap (l.controller.infos i).host = some i

theorem Entered.keep (h : Entered l) (hmap : l'.controller.fetchInfoMap = l.controller.fetchInfoMap)
    (hinfos : l'.controller.infos = l.controller.infos) : Entered l' := by
  intro i hbusy
  rw [hinfos] at hbusy ⊢
  rw [hmap]
  exact h i hbusy

theorem Entered.change (h : Entered l) {i : ℕ} (hmap : l'.controller.fetchInfoMap = l.controller.fetchInfoMap)
    (hinfos : l'.controller.infos = Function.update l.controller.infos i info)
    (hhost : info.host = (l.controller.infos i).host)
    (hentry : l.controller.fetchInfoMap (l.controller.infos i).host = some i) : Entered l' := by
  intro j hbusy
  rw [hinfos, Function.update_apply] at hbusy ⊢
  rw [hmap]
  split_ifs at hbusy ⊢ with hij
  · rw [hij, hhost, hentry]
  · exact h j hbusy

theorem busy_of_any (hnum : 0 ≤ info.numOutboundFetches)
    (h : info.anyInFlightOrQueuedFetches = false) : ¬ Busy info := by
  rw [HostFetchInfo.anyInFlightOrQueuedFetches, Bool.or_eq_false_iff, decide_eq_false_iff_not, Bool.not_eq_false',
    List.isEmpty_iff] at h
  rintro (hne | hne)
  · omega
  · exact hne h.2

theorem entered_move (hm : Move settings False l l') (hc : Charged settings l) (h : Entered l) : Entered l' := by
  cases hm with
  | insert c T host hentry =>
    intro i hbusy
    have hold : Busy (c.infos i) := by
      change _ ≠ _ ∨ _ ≠ _ at hbusy
      rwa [(insert_num hc host i).1, (insert_num hc host i).2] at hbusy
    have hi : i < c.numInfos := lt_numInfos hc fun heq => by
      change c.infos i = _ at heq
      rw [heq] at hold
      exact hold.elim (fun hne => hne rfl) fun hne => hne rfl
    have hmap := h i hold
    change Function.update c.fetchInfoMap host _ (Function.update c.infos c.numInfos _ i).host = some i
    rw [Function.update_of_ne (Nat.ne_of_lt hi), Function.update_of_ne]
    · exact hmap
    · rintro rfl
      cases hentry.symm.trans hmap
  | charge c T fetch host i hhost hentry hcan =>
    exact h.change rfl rfl rfl ((hc.mapped host i hentry).2 ▸ hentry)
  | enqueue c T fetch host i hhost hentry hbackground hcannot hcan =>
    exact h.change rfl rfl rfl ((hc.mapped host i hentry).2 ▸ hentry)
  | decrement c T i =>
    have hcount := hc.charged i
    rw [all_cons, tally_add, tally_singleton, Token.charges, if_pos rfl] at hcount
    refine h.change rfl rfl rfl (h i (Or.inl ?_))
    change (c.infos i).numOutboundFetches = _ at hcount
    change (c.infos i).numOutboundFetches ≠ 0
    omega
  | pop c T i fetch rest hqueue hcan =>
    refine h.change rfl rfl rfl (h i (Or.inr ?_))
    change (c.infos i).fetchQueue ≠ []
    rw [hqueue]
    exact List.cons_ne_nil _ _
  | delete c T i hidle =>
    rw [deleteFetchInfoIfPossible]
    split_ifs with hany
    · exact h.keep rfl rfl
    · rw [Bool.not_eq_true] at hany
      intro j hbusy
      have hmap := h j hbusy
      change c.fetchInfoMap (c.infos j).host = some j at hmap
      change Function.update c.fetchInfoMap (c.infos i).host none (c.infos j).host = some j
      rw [Function.update_of_ne]
      · exact hmap
      · intro heq
        have hanyj := (hidle hany).resolve_right id j (heq ▸ hmap)
        have hnum : 0 ≤ (c.infos j).numOutboundFetches := by
          have hcount := hc.charged j
          change (c.infos j).numOutboundFetches = _ at hcount
          omega
        exact busy_of_any hnum hanyj hbusy
  | shutDown c T => exact h.keep rfl rfl
  | call c T fetch hnew => exact h.keep rfl rfl
  | fail c T fetch outcome hfail => exact h.keep rfl rfl
  | handOver c T fetch => exact h.keep rfl rfl
  | finishDirect c T fetch success hmem => exact h.keep rfl rfl
  | finishCustom c T wrapper hmem => exact h.keep rfl rfl
  | handleDone c T wrapper success => exact h.keep rfl rfl
  | popNone c T i hpop => exact h.keep rfl rfl
  | schedule c T wrapper => exact h.keep rfl rfl
  | dropQueued c T wrapper => exact h.keep rfl rfl

end PageSpeed.RateController
