import PageSpeed.Http.RateController
import PageSpeed.Lib.Bag

/-!
What the calls in progress hold, as one bag of tokens, and what a step of a
thread moves between that bag and the controller.
-/

namespace PageSpeed.RateController

open Bag

/-- `slot` is a fetch charged and on its way to the base fetcher, `returning` one that comes back, `taken` one that has
left its queue and is still counted globally; `spent` is a charge to be given back, `pop` a look into the queue that is
due. -/
inductive Token where
  | held (fetch : AsyncFetch)
  | slot (wrapper : CustomFetch)
  | returning (wrapper : CustomFetch)
  | taken (wrapper : CustomFetch)
  | spent (info : ℕ)
  | pop (info : ℕ)
  deriving DecidableEq

def BaseFetch.token : BaseFetch → Token
  | .direct fetch => .held fetch
  | .custom wrapper => .slot wrapper

def Frame.tokens : Frame → Multiset Token
  | .fetch f => {.held f}
  | .chargeOrQueue f _ => {.held f}
  | .handOff f => {f.token}
  | .drop f _ => {.held f}
  | .handleDone wrapper _ => {.returning wrapper}
  | .decrement i => {.spent i}
  | .popNext i => {.pop i}
  | .checkShutDown i f => {.taken ⟨i, f⟩}
  | .schedule i f => {.taken ⟨i, f⟩}
  | .dropQueued i f => {.taken ⟨i, f⟩}
  | .releaseSlot i => {.spent i}
  | .popDropped i => {.pop i}
  | _ => 0

def pendingTokens (pending : Option (List CustomFetch)) : Multiset Token := ((pending.getD []).map Token.slot : List Token)

def Thread.tokens (thread : Thread) : Multiset Token :=
  total Frame.tokens thread.stack + pendingTokens thread.pendingStarts

def State.tokens (s : State) : Multiset Token := total Thread.tokens s.threads

structure Ledger where
  controller : RateController
  tokens : Multiset Token

def State.ledger (s : State) : Ledger := ⟨s.controller, s.tokens⟩

def IdleEntry (c : RateController) (i : ℕ) : Prop :=
  ∀ j ∈ c.fetchInfoMap (c.infos i).host, (c.infos j).anyInFlightOrQueuedFetches = false

inductive Move (settings : Settings) (stale : Prop) : Ledger → Ledger → Prop
  | shutDown (c : RateController) (T : Multiset Token) : Move settings stale ⟨c, T⟩ ⟨{ c with isShutDown := true }, T⟩
  | call (c : RateController) (T : Multiset Token) (fetch : AsyncFetch) (hnew : fetch ∉ c.asked) :
    Move settings stale ⟨c, T⟩ ⟨{ c with asked := c.asked ++ [fetch] }, .held fetch ::ₘ T⟩
  | fail (c : RateController) (T : Multiset Token) (fetch : AsyncFetch) (outcome : Outcome)
      (hfail : outcome = .loadShed ∨ outcome = .shutDown) :
    Move settings stale ⟨c, .held fetch ::ₘ T⟩ ⟨c.complete fetch outcome, T⟩
  | insert (c : RateController) (T : Multiset Token) (host : GoogleString) (hentry : c.fetchInfoMap host = none) :
    Move settings stale ⟨c, T⟩ ⟨c.insertFetchInfo host, T⟩
  | charge (c : RateController) (T : Multiset Token) (fetch : AsyncFetch) (host : GoogleString) (i : ℕ)
      (hhost : hostOf settings fetch.url = some host) (hentry : c.fetchInfoMap host = some i)
      (hcan : fetch.isBackgroundFetch = true → c.canTriggerFetch settings i = true) :
    Move settings stale ⟨c, .held fetch ::ₘ T⟩ ⟨c.charge i 1, .slot ⟨i, fetch⟩ ::ₘ T⟩
  | enqueue (c : RateController) (T : Multiset Token) (fetch : AsyncFetch) (host : GoogleString) (i : ℕ)
      (hhost : hostOf settings fetch.url = some host) (hentry : c.fetchInfoMap host = some i)
      (hbackground : fetch.isBackgroundFetch = true) (hcannot : c.canTriggerFetch settings i = false)
      (hcan : c.canEnqueue settings i = true) :
    Move settings stale ⟨c, .held fetch ::ₘ T⟩ ⟨c.enqueueFetch i fetch, T⟩
  | handOver (c : RateController) (T : Multiset Token) (fetch : BaseFetch) :
    Move settings stale ⟨c, fetch.token ::ₘ T⟩ ⟨c.handOver fetch, T⟩
  | finishDirect (c : RateController) (T : Multiset Token) (fetch : AsyncFetch) (success : Bool)
      (hmem : .direct fetch ∈ c.outstanding) :
    Move settings stale ⟨c, T⟩
      ⟨complete { c with outstanding := c.outstanding.erase (.direct fetch) } fetch (.fetched success), T⟩
  | finishCustom (c : RateController) (T : Multiset Token) (wrapper : CustomFetch)
      (hmem : .custom wrapper ∈ c.outstanding) :
    Move settings stale ⟨c, T⟩
      ⟨{ c with outstanding := c.outstanding.erase (.custom wrapper) }, .returning wrapper ::ₘ T⟩
  | handleDone (c : RateController) (T : Multiset Token) (wrapper : CustomFetch) (success : Bool) :
    Move settings stale ⟨c, .returning wrapper ::ₘ T⟩
      ⟨c.complete wrapper.fetch (.fetched success), .spent wrapper.fetchInfo ::ₘ T⟩
  | decrement (c : RateController) (T : Multiset Token) (i : ℕ) :
    Move settings stale ⟨c, .spent i ::ₘ T⟩ ⟨c.charge i (-1), .pop i ::ₘ T⟩
  | popNone (c : RateController) (T : Multiset Token) (i : ℕ)
      (hpop : (c.infos i).fetchQueue = [] ∨ c.canTriggerFetch settings i = false) :
    Move settings stale ⟨c, .pop i ::ₘ T⟩ ⟨c, T⟩
  | pop (c : RateController) (T : Multiset Token) (i : ℕ) (fetch : AsyncFetch) (rest : List AsyncFetch)
      (hqueue : (c.infos i).fetchQueue = fetch :: rest) (hcan : c.canTriggerFetch settings i = true) :
    Move settings stale ⟨c, .pop i ::ₘ T⟩
      ⟨{ c.setInfo i { c.infos i with
            fetchQueue := rest
            numOutboundFetches := (c.infos i).numOutboundFetches + 1 } with
          dequeued := c.dequeued ++ [fetch] }, .taken ⟨i, fetch⟩ ::ₘ T⟩
  | delete (c : RateController) (T : Multiset Token) (i : ℕ)
      (hidle : (c.infos i).anyInFlightOrQueuedFetches = false → IdleEntry c i ∨ stale) :
    Move settings stale ⟨c, T⟩ ⟨c.deleteFetchInfoIfPossible i, T⟩
  | schedule (c : RateController) (T : Multiset Token) (wrapper : CustomFetch) :
    Move settings stale ⟨c, .taken wrapper ::ₘ T⟩ ⟨c.addToGlobalQueueSize (-1), .slot wrapper ::ₘ T⟩
  | dropQueued (c : RateController) (T : Multiset Token) (wrapper : CustomFetch) :
    Move settings stale ⟨c, .taken wrapper ::ₘ T⟩
      ⟨(c.addToGlobalQueueSize (-1)).complete wrapper.fetch .shutDown, .spent wrapper.fetchInfo ::ₘ T⟩

def Moves (settings : Settings) (stale : Prop) : Ledger → Ledger → Prop := Relation.ReflTransGen (Move settings stale)

def Frame.Ok (settings : Settings) : Frame → Prop
  | .chargeOrQueue f host => hostOf settings f.url = some host
  | _ => True

structure Thread.Ok (settings : Settings) (thread : Thread) : Prop where
  frames : ∀ frame ∈ thread.stack, frame.Ok settings
  loop : thread.stack.count .startPending = if thread.pendingStarts.isSome then 1 else 0

def Thread.deleting (thread : Thread) : Option ℕ :=
  match thread.stack with
  | .deleteFetchInfo i :: _ => some i
  | _ => none

def State.DeletesIdle (s : State) : Action → Prop
  | .proceed t => ∀ thread ∈ s.threads[t]?, ∀ i ∈ thread.deleting,
    (s.controller.infos i).anyInFlightOrQueuedFetches = false → IdleEntry s.controller i
  | _ => True

instance (s : State) : (a : Action) → Decidable (s.DeletesIdle a)
  | .call _ _ => .isTrue trivial
  | .finish _ _ _ => .isTrue trivial
  | .shutDown => .isTrue trivial
  | .proceed _ => inferInstanceAs (Decidable (∀ thread ∈ _, ∀ i ∈ _, _ → ∀ j ∈ _, _))

variable {settings : Settings} {stale : Prop} {c c' : RateController} {T R : Multiset Token} {s s' : State}

theorem pendingTokens_none : pendingTokens none = 0 := rfl

theorem pendingTokens_some (starts : List CustomFetch) :
    pendingTokens (some starts) = (starts.map Token.slot : List Token) := rfl

theorem total_tokens_cons (frame : Frame) (frames : List Frame) :
    total Frame.tokens (frame :: frames) = frame.tokens + total Frame.tokens frames := List.sum_cons

theorem pop_cases (settings : Settings) (c : RateController) (i : ℕ) :
    (c.popNextFetchAndIncrementCountIfWithinThreshold settings i = (c, none) ∧
      ((c.infos i).fetchQueue = [] ∨ c.canTriggerFetch settings i = false)) ∨
    ∃ fetch rest, (c.infos i).fetchQueue = fetch :: rest ∧ c.canTriggerFetch settings i = true ∧
      c.popNextFetchAndIncrementCountIfWithinThreshold settings i =
        ({ c.setInfo i { c.infos i with
              fetchQueue := rest
              numOutboundFetches := (c.infos i).numOutboundFetches + 1 } with
            dequeued := c.dequeued ++ [fetch] }, some fetch) := by
  rw [popNextFetchAndIncrementCountIfWithinThreshold]
  cases hqueue : (c.infos i).fetchQueue with
  | nil => exact Or.inl ⟨rfl, Or.inl rfl⟩
  | cons fetch rest =>
    cases hcan : c.canTriggerFetch settings i with
    | false => exact Or.inl ⟨if_neg Bool.false_ne_true, Or.inr rfl⟩
    | true => exact Or.inr ⟨fetch, rest, rfl, rfl, if_pos rfl⟩

theorem findOrInsert_moves (c : RateController) (host : GoogleString) (T : Multiset Token) :
    Moves settings stale ⟨c, T⟩ ⟨(c.findOrInsert host).1, T⟩ := by
  rw [findOrInsert]
  cases h : c.fetchInfoMap host with
  | some i => exact Relation.ReflTransGen.refl
  | none => exact Relation.ReflTransGen.single (Move.insert c T host h)

theorem findOrInsert_entry (c : RateController) (host : GoogleString) :
    (c.findOrInsert host).1.fetchInfoMap host = some (c.findOrInsert host).2 := by
  rw [findOrInsert]
  cases h : c.fetchInfoMap host with
  | some i => exact h
  | none => exact Function.update_self _ _ _

theorem Move.moves {U U' : Multiset Token} (h : Move settings stale ⟨c, T⟩ ⟨c', R⟩) (hT : U = T) (hR : U' = R) :
    Moves settings stale ⟨c, U⟩ ⟨c', U'⟩ := by
  subst hT hR
  exact Relation.ReflTransGen.single h

theorem moves_refl {U : Multiset Token} (hT : T = U) : Moves settings stale ⟨c, T⟩ ⟨c, U⟩ := by
  rw [hT]
  exact Relation.ReflTransGen.refl

theorem chargeOrQueueAt_moves {fetch : AsyncFetch} {host : GoogleString} {i : ℕ}
    (hhost : hostOf settings fetch.url = some host) (hentry : c.fetchInfoMap host = some i) :
    Moves settings stale ⟨c, {.held fetch} + R⟩
      ⟨(c.chargeOrQueueAt settings fetch i).1, total Frame.tokens (c.chargeOrQueueAt settings fetch i).2 + R⟩ := by
  rw [chargeOrQueueAt]
  split_ifs with htrigger henqueue
  · refine (Move.charge c R fetch host i hhost hentry fun hbackground => ?_).moves (Multiset.singleton_add _ _)
      (Multiset.singleton_add _ _)
    rwa [hbackground, Bool.not_true, Bool.false_or] at htrigger
  · rw [Bool.or_eq_true, not_or, Bool.not_eq_true, Bool.not_eq_true, Bool.not_eq_false'] at htrigger
    exact (Move.enqueue c R fetch host i hhost hentry htrigger.1 htrigger.2 henqueue).moves
      (Multiset.singleton_add _ _) (zero_add R)
  · exact moves_refl rfl

theorem exec_moves {pending : Option (List CustomFetch)} {frame : Frame} (hok : frame.Ok settings)
    (hidle : ∀ i, frame = .deleteFetchInfo i → (c.infos i).anyInFlightOrQueuedFetches = false → IdleEntry c i ∨ stale)
    (R : Multiset Token) :
    Moves settings stale ⟨c, frame.tokens + (pendingTokens pending + R)⟩
      ⟨(c.exec settings pending frame).1, total Frame.tokens (c.exec settings pending frame).2.2 +
        (pendingTokens (c.exec settings pending frame).2.1 + R)⟩ := by
  have hadd (token : Token) : ({token} : Multiset Token) + (pendingTokens pending + R) =
      token ::ₘ (pendingTokens pending + R) := Multiset.singleton_add _ _
  have hzero : (0 : Multiset Token) + (pendingTokens pending + R) = pendingTokens pending + R := zero_add _
  cases frame with
  | external => exact moves_refl rfl
  | fetch fetch =>
    rw [exec]
    split_ifs with hshut
    · exact (Move.fail c _ fetch .shutDown (Or.inr rfl)).moves (hadd _) hzero
    · cases hostOf settings fetch.url with
      | none => exact moves_refl rfl
      | some host => exact moves_refl rfl
  | chargeOrQueue fetch host =>
    exact (findOrInsert_moves c host _).trans (chargeOrQueueAt_moves hok (findOrInsert_entry c host))
  | handOff fetch => exact (Move.handOver c _ fetch).moves (hadd _) hzero
  | drop fetch i => exact (Move.fail c _ fetch .loadShed (Or.inl rfl)).moves (hadd _) hzero
  | deleteFetchInfo i => exact (Move.delete c _ i (hidle i rfl)).moves hzero hzero
  | handleDone wrapper success => exact (Move.handleDone c _ wrapper success).moves (hadd _) (hadd _)
  | decrement i => exact (Move.decrement c _ i).moves (hadd _) (hadd _)
  | popNext i =>
    rw [exec]
    rcases pop_cases settings c i with ⟨heq, hpop⟩ | ⟨fetch, rest, hqueue, hcan, heq⟩
    · rw [heq]
      exact (Move.popNone c _ i hpop).moves (hadd _) hzero
    · rw [heq]
      exact (Move.pop c _ i fetch rest hqueue hcan).moves (hadd _) (hadd _)
  | checkShutDown i fetch =>
    rw [exec]
    split_ifs
    · exact moves_refl rfl
    · exact moves_refl rfl
  | schedule i fetch =>
    have hmove : Move settings stale ⟨c, .taken ⟨i, fetch⟩ ::ₘ (pendingTokens pending + R)⟩
        ⟨c.addToGlobalQueueSize (-1), .slot ⟨i, fetch⟩ ::ₘ (pendingTokens pending + R)⟩ := .schedule c _ _
    cases pending with
    | none =>
      refine hmove.moves (hadd _) ?_
      change (0 : Multiset Token) + ({.slot ⟨i, fetch⟩} + R) = _
      rw [zero_add, Multiset.singleton_add, pendingTokens_none, zero_add]
    | some starts =>
      refine hmove.moves (hadd _) ?_
      change (0 : Multiset Token) + (pendingTokens (some (starts ++ [⟨i, fetch⟩])) + R) = _
      rw [zero_add, pendingTokens_some, List.map_append, ← Multiset.coe_add, pendingTokens_some, add_comm (Multiset.ofList _),
        add_assoc]
      exact Multiset.singleton_add _ _
  | startPending =>
    match pending with
    | none => exact moves_refl rfl
    | some [] => exact moves_refl rfl
    | some (start :: rest) =>
      refine (Move.handOver c (pendingTokens (some rest) + R) (.custom start)).moves ?_ (zero_add _)
      change (0 : Multiset Token) + (pendingTokens (some (start :: rest)) + R) = _
      rw [zero_add, pendingTokens_some, List.map_cons, ← Multiset.cons_coe, Multiset.cons_add]
      rfl
  | dropQueued i fetch => exact (Move.dropQueued c _ ⟨i, fetch⟩).moves (hadd _) (hadd _)
  | releaseSlot i => exact (Move.decrement c _ i).moves (hadd _) (hadd _)
  | popDropped i =>
    rw [exec]
    rcases pop_cases settings c i with ⟨heq, hpop⟩ | ⟨fetch, rest, hqueue, hcan, heq⟩
    · rw [heq]
      exact (Move.popNone c _ i hpop).moves (hadd _) hzero
    · rw [heq]
      exact (Move.pop c _ i fetch rest hqueue hcan).moves (hadd _) (hadd _)

def loops (pending : Option (List CustomFetch)) : ℕ := if pending.isSome then 1 else 0

theorem exec_frames (settings : Settings) (c : RateController) (pending : Option (List CustomFetch)) (frame : Frame)
    (hloop : frame = .startPending → pending.isSome = true) :
    (∀ f ∈ (c.exec settings pending frame).2.2, f.Ok settings) ∧
      (c.exec settings pending frame).2.2.count .startPending + loops pending =
        [frame].count .startPending + loops (c.exec settings pending frame).2.1 := by
  cases frame with
  | fetch fetch =>
    rw [exec]
    split_ifs
    · simp [Frame.Ok]
    · cases hhost : hostOf settings fetch.url with
      | none => simp [Frame.Ok]
      | some host => simp [Frame.Ok, hhost]
  | chargeOrQueue fetch host =>
    simp only [exec, chargeOrQueue, chargeOrQueueAt]
    split_ifs <;> simp [Frame.Ok]
  | popNext i =>
    rw [exec]
    split <;> simp [Frame.Ok]
  | popDropped i =>
    rw [exec]
    split <;> simp [Frame.Ok]
  | checkShutDown i fetch =>
    rw [exec]
    split_ifs <;> simp [Frame.Ok]
  | schedule i fetch => cases pending <;> simp [exec, Frame.Ok, loops]
  | startPending =>
    match pending with
    | none => cases hloop rfl
    | some [] => simp [exec, loops]
    | some (start :: rest) => simp [exec, loops, Frame.Ok]
  | _ => simp [exec, Frame.Ok]

theorem exec_ok {pending : Option (List CustomFetch)} {frame : Frame} {stack : List Frame}
    (h : Thread.Ok settings ⟨frame :: stack, pending⟩) (c : RateController) :
    Thread.Ok settings ⟨(c.exec settings pending frame).2.2 ++ stack, (c.exec settings pending frame).2.1⟩ := by
  have hcount : [frame].count .startPending + stack.count .startPending = loops pending := by
    rw [← List.count_append]
    exact h.loop
  have hloop : frame = .startPending → pending.isSome = true := by
    rintro rfl
    rw [List.count_singleton_self, loops] at hcount
    split_ifs at hcount with hsome
    · exact hsome
    · omega
  obtain ⟨hframes, hloops⟩ := exec_frames settings c pending frame hloop
  constructor
  · intro f hf
    rcases List.mem_append.mp hf with hf | hf
    · exact hframes f hf
    · exact h.frames f (List.mem_cons_of_mem frame hf)
  · change ((c.exec settings pending frame).2.2 ++ stack).count _ = loops (c.exec settings pending frame).2.1
    rw [List.count_append]
    omega

theorem push_ok {thread : Thread} {frame : Frame} (h : thread.Ok settings) (hok : frame.Ok settings)
    (hne : frame ≠ .startPending) : Thread.Ok settings { thread with stack := frame :: thread.stack } := by
  constructor
  · intro f hf
    rcases List.mem_cons.mp hf with rfl | hf
    · exact hok
    · exact h.frames f hf
  · rw [← h.loop]
    exact List.count_cons_of_ne hne

def State.Ok (settings : Settings) (s : State) : Prop := ∀ thread ∈ s.threads, thread.Ok settings

theorem set_ok {threads : List Thread} (h : ∀ thread ∈ threads, thread.Ok settings) {t : ℕ} {thread : Thread}
    (hok : thread.Ok settings) : ∀ thread' ∈ threads.set t thread, thread'.Ok settings := by
  intro thread' hmem
  rcases List.mem_or_eq_of_mem_set hmem with hmem | rfl
  · exact h thread' hmem
  · exact hok

inductive Turn (settings : Settings) (s : State) : Action → State → Prop
  | call {t : ℕ} {fetch : AsyncFetch} {thread : Thread} (hthread : s.threads[t]? = some thread)
      (hout : thread.isOutside = true) (hnew : fetch ∉ s.controller.asked) :
    Turn settings s (.call t fetch) ⟨{ s.controller with asked := s.controller.asked ++ [fetch] },
      s.threads.set t { thread with stack := .fetch fetch :: thread.stack }⟩
  | finishDirect {t : ℕ} {fetch : AsyncFetch} {success : Bool} {thread : Thread} (hthread : s.threads[t]? = some thread)
      (hout : thread.isOutside = true) (hmem : .direct fetch ∈ s.controller.outstanding) :
    Turn settings s (.finish t (.direct fetch) success)
      ⟨complete { s.controller with outstanding := s.controller.outstanding.erase (.direct fetch) } fetch
          (.fetched success),
        s.threads.set t { thread with stack := .external :: thread.stack }⟩
  | finishCustom {t : ℕ} {wrapper : CustomFetch} {success : Bool} {thread : Thread}
      (hthread : s.threads[t]? = some thread) (hout : thread.isOutside = true)
      (hmem : .custom wrapper ∈ s.controller.outstanding) :
    Turn settings s (.finish t (.custom wrapper) success)
      ⟨{ s.controller with outstanding := s.controller.outstanding.erase (.custom wrapper) },
        s.threads.set t { thread with stack := .handleDone wrapper success :: thread.stack }⟩
  | proceed {t : ℕ} {frame : Frame} {stack : List Frame} {pending : Option (List CustomFetch)}
      (hthread : s.threads[t]? = some ⟨frame :: stack, pending⟩) :
    Turn settings s (.proceed t) ⟨(s.controller.exec settings pending frame).1,
      s.threads.set t ⟨(s.controller.exec settings pending frame).2.2 ++ stack,
        (s.controller.exec settings pending frame).2.1⟩⟩
  | shutDown : Turn settings s .shutDown { s with controller := { s.controller with isShutDown := true } }

theorem step_turn {a : Action} (hstep : step settings s a = some s') : Turn settings s a s' := by
  cases a with
  | call t fetch =>
    rw [step] at hstep
    cases hthread : s.threads[t]? with
    | none =>
      rw [hthread] at hstep
      cases hstep
    | some thread =>
      rw [hthread] at hstep
      dsimp only at hstep
      split_ifs at hstep with h
      cases hstep
      rw [Bool.and_eq_true, Bool.not_eq_true', List.contains_eq_mem, decide_eq_false_iff_not] at h
      exact .call hthread h.1 h.2
  | finish t fetch success =>
    rw [step] at hstep
    cases hthread : s.threads[t]? with
    | none =>
      rw [hthread] at hstep
      cases hstep
    | some thread =>
      rw [hthread] at hstep
      dsimp only at hstep
      split_ifs at hstep with h
      cases hstep
      rw [Bool.and_eq_true, List.contains_eq_mem, decide_eq_true_eq] at h
      cases fetch with
      | direct fetch => exact .finishDirect hthread h.1 h.2
      | custom wrapper => exact .finishCustom hthread h.1 h.2
  | proceed t =>
    rw [step] at hstep
    split at hstep
    · rename_i frame stack pending hthread
      cases hstep
      exact .proceed hthread
    · cases hstep
  | shutDown =>
    cases hstep
    exact .shutDown

theorem step_ok {a : Action} (h : s.Ok settings) (hstep : step settings s a = some s') : s'.Ok settings := by
  have hold {t : ℕ} {thread : Thread} (hthread : s.threads[t]? = some thread) : thread.Ok settings :=
    h thread (List.mem_of_getElem? hthread)
  cases step_turn hstep with
  | call hthread => exact set_ok h (push_ok (hold hthread) trivial nofun)
  | finishDirect hthread => exact set_ok h (push_ok (hold hthread) trivial nofun)
  | finishCustom hthread => exact set_ok h (push_ok (hold hthread) trivial nofun)
  | proceed hthread => exact set_ok h (exec_ok (hold hthread) s.controller)
  | shutDown => exact h

theorem tokens_push (thread : Thread) (frame : Frame) :
    Thread.tokens { thread with stack := frame :: thread.stack } = frame.tokens + thread.tokens := by
  rw [Thread.tokens, total_tokens_cons, add_assoc]
  rfl

theorem step_moves {a : Action} (hok : s.Ok settings) (hidle : s.DeletesIdle a ∨ stale)
    (hstep : step settings s a = some s') : Moves settings stale s.ledger s'.ledger := by
  cases step_turn hstep with
  | @call t fetch thread hthread hout hnew =>
    obtain ⟨R, hbefore, hafter⟩ := total_set hthread Thread.tokens
    refine (Move.call s.controller s.tokens fetch hnew).moves rfl ?_
    rw [State.tokens, State.tokens, hafter, hbefore, tokens_push, add_assoc]
    exact Multiset.singleton_add _ _
  | @finishDirect t fetch success thread hthread hout hmem =>
    obtain ⟨R, hbefore, hafter⟩ := total_set hthread Thread.tokens
    refine (Move.finishDirect s.controller s.tokens fetch success hmem).moves rfl ?_
    rw [State.tokens, State.tokens, hafter, hbefore, tokens_push, add_assoc]
    exact zero_add _
  | @finishCustom t wrapper success thread hthread hout hmem =>
    obtain ⟨R, hbefore, hafter⟩ := total_set hthread Thread.tokens
    refine (Move.finishCustom s.controller s.tokens wrapper hmem).moves rfl ?_
    rw [State.tokens, State.tokens, hafter, hbefore, tokens_push, add_assoc]
    exact Multiset.singleton_add _ _
  | @proceed t frame stack pending hthread =>
    obtain ⟨R, hbefore, hafter⟩ := total_set hthread Thread.tokens
    have hthreadOk := hok _ (List.mem_of_getElem? hthread)
    have hmoves := @exec_moves settings stale s.controller pending frame (hthreadOk.frames frame List.mem_cons_self)
      (fun i heq hany => hidle.imp (fun hidle => hidle _ hthread i (by rw [heq]; rfl) hany) id)
      (total Frame.tokens stack + R)
    have hbegin : s.tokens = frame.tokens + (pendingTokens pending + (total Frame.tokens stack + R)) := by
      rw [State.tokens, hbefore, Thread.tokens, total_tokens_cons]
      ac_rfl
    have hend : ∀ (frames : List Frame) (pending' : Option (List CustomFetch)),
        total Thread.tokens (s.threads.set t ⟨frames ++ stack, pending'⟩) =
          total Frame.tokens frames + (pendingTokens pending' + (total Frame.tokens stack + R)) := by
      intro frames pending'
      rw [hafter, Thread.tokens, total_append]
      ac_rfl
    change Moves settings stale ⟨s.controller, s.tokens⟩ ⟨_, total Thread.tokens (s.threads.set t _)⟩
    rw [hend, hbegin]
    exact hmoves
  | shutDown => exact (Move.shutDown s.controller s.tokens).moves rfl rfl

end PageSpeed.RateController
