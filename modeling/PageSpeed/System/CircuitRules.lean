import PageSpeed.System.CircuitBreaker

/-!
The transition rules of the circuit breaker, and when interleaved calls keep
them.
-/

namespace PageSpeed.CircuitBreaker

def period : List Event → List Event
  | [] => []
  | .entered _ _ :: _ => []
  | event :: log => event :: period log

def lastEntry : List Event → Option (ℕ × ℤ)
  | [] => none
  | .entered call n :: _ => some (call, n)
  | _ :: log => lastEntry log

def successes (log : List Event) : ℕ := (period log).count .counted

def Unfailed (log : List Event) : Prop := ∀ ms, .opened ms ∉ period log

structure MayClose (config : Config) (log : List Event) : Prop where
  entered : (lastEntry log).isSome = true
  enough : config.successThreshold ≤ successes log
  unfailed : Unfailed log

structure Honours (config : Config) (log : List Event) : Prop where
  closed : ∀ later earlier, log = later ++ .closed :: earlier → MayClose config earlier
  /-- A call is not let through before the time is over that a failure before it has set. -/
  blocked : ∀ after between before call nowMs ms,
    log = after ++ .returned call true nowMs :: (between ++ .started call :: before) → .opened ms ∈ before →
      ms + config.timeoutMs ≤ nowMs

def FromZero (log : List Event) : Prop := ∀ entry ∈ lastEntry log, entry.2 = 0 ∨ .reset entry.1 ∈ period log

def Event.openTime : Event → Option ℤ
  | .opened ms => some ms
  | _ => none

/-- The step does not act on what a later call has overridden: the circuit is closed only if it was not opened since the
state was loaded, half-opened only after the time of every failure that has opened it, and a success makes up the
threshold only of a count that began at zero. -/
def Pc.UpToDate (config : Config) (w : World) : Pc → Prop
  | .closeState n => n = opens w.log
  | .countSuccess _ => config.successThreshold ≤ w.breaker.successCount + 1 → FromZero w.log
  | .allowExchange _ openTimeMs _ => w.breaker.state = .open → ∀ ms ∈ w.log.filterMap Event.openTime, ms ≤ openTimeMs
  | _ => True

def UpToDate (config : Config) (w : World) : Action → Prop
  | .proceed t => (w.pc t).UpToDate config w
  | _ => True

instance (log : List Event) : Decidable (FromZero log) := inferInstanceAs (Decidable (∀ entry ∈ _, _ ∨ _))

instance (config : Config) (w : World) : (p : Pc) → Decidable (p.UpToDate config w)
  | .closeState n => inferInstanceAs (Decidable (n = _))
  | .countSuccess _ => inferInstanceAs (Decidable (_ → FromZero _))
  | .allowExchange _ _ _ => inferInstanceAs (Decidable (_ → ∀ ms ∈ _, ms ≤ _))
  | .idle | .allowRequest _ | .allowNow _ | .allowOpenTime _ _ | .allowReset _ | .allowReload _ | .recordSuccess
  | .resetFailures | .closeFailures _ | .closeSuccesses _ | .recordFailure | .countFailure | .openNow | .openTime _
  | .openState _ | .openFailures => .isTrue trivial

instance (config : Config) (w : World) : (a : Action) → Decidable (UpToDate config w a)
  | .proceed t => inferInstanceAs (Decidable ((w.pc t).UpToDate config w))
  | .tick _ | .allowRequest _ | .recordSuccess _ | .recordFailure _ => .isTrue trivial

variable {config : Config} {w w' : World} {t : ℕ} {p : Pc} {event : Event} {log : List Event} {a : Action}

def Event.isEntered : Event → Bool
  | .entered _ _ => true
  | _ => false

theorem period_cons (h : event.isEntered = false) : period (event :: log) = event :: period log := by
  cases event with
  | entered call n => cases h
  | _ => rfl

theorem lastEntry_cons (h : event.isEntered = false) : lastEntry (event :: log) = lastEntry log := by
  cases event with
  | entered call n => cases h
  | _ => rfl

theorem successes_le_cons (h : event.isEntered = false) : successes log ≤ successes (event :: log) := by
  rw [successes, successes, period_cons h]
  exact List.count_le_count_cons

def Waited (config : Config) (w : World) : Prop := ∀ ms, .opened ms ∈ w.log → ms + config.timeoutMs ≤ w.nowMs

def Clear (config : Config) (w : World) (call : ℕ) : Prop :=
  ∀ later earlier ms, w.log = later ++ .started call :: earlier → .opened ms ∈ earlier → ms + config.timeoutMs ≤ w.nowMs

structure Live (n : ℕ) (need : ℤ) (w : World) : Prop where
  le : n ≤ opens w.log
  live : n = opens w.log → w.breaker.state ≠ .open ∧ (lastEntry w.log).isSome = true ∧ need ≤ successes w.log

def Ok (config : Config) (w : World) : Pc → Prop
  | .allowRequest call => call < w.calls
  | .allowNow call => call < w.calls
  | .allowOpenTime call nowMs => call < w.calls ∧ nowMs ≤ w.nowMs
  | .allowExchange call openTimeMs nowMs =>
    call < w.calls ∧ nowMs ≤ w.nowMs ∧ config.timeoutMs ≤ nowMs - openTimeMs
  | .allowReset call => call < w.calls ∧ Clear config w call
  | .allowReload call => call < w.calls
  | .countSuccess n => Live n 0 w
  | .closeFailures n => Live n config.successThreshold w
  | .closeSuccesses n => Live n config.successThreshold w
  | .closeState n => Live n config.successThreshold w
  | _ => True

structure Inv (config : Config) (w : World) : Prop where
  threads : ∀ t, Ok config w (w.pc t)
  half : w.breaker.state = .halfOpen → (lastEntry w.log).isSome = true
  waited : w.breaker.state ≠ .open → Waited config w ∧ Unfailed w.log
  counted : FromZero w.log → w.breaker.successCount ≤ successes w.log
  honours : Honours config w.log

structure Passes (w w' : World) : Prop where
  calls : w.calls ≤ w'.calls
  now : w.nowMs ≤ w'.nowMs
  log : w'.log = w.log ∨ ∃ event, w'.log = event :: w.log ∧ ∀ call, event = .started call → w.calls ≤ call
  live : opens w'.log = opens w.log → w.breaker.state ≠ .open →
    w'.breaker.state ≠ .open ∧ lastEntry w'.log = lastEntry w.log ∧ successes w.log ≤ successes w'.log

theorem opens_le (h : Passes w w') : opens w.log ≤ opens w'.log := by
  rcases h.log with heq | ⟨event, heq, -⟩
  · rw [heq]
  · rw [heq, opens, opens, List.countP_cons]
    exact Nat.le_add_right _ _

variable {n call : ℕ}

theorem Live.pass {need : ℤ} (h : Live n need w) (hp : Passes w w') : Live n need w' where
  le := h.le.trans (opens_le hp)
  live heq := by
    have hsame : opens w'.log = opens w.log := by
      have hle := h.le
      have hle' := opens_le hp
      omega
    obtain ⟨hstate, hentry, hneed⟩ := h.live (heq.trans hsame)
    obtain ⟨hstate', hentry', hmore⟩ := hp.live hsame hstate
    refine ⟨hstate', hentry' ▸ hentry, ?_⟩
    omega

theorem Clear.pass (h : Clear config w call) (hcall : call < w.calls) (hp : Passes w w') : Clear config w' call := by
  intro later earlier ms heq hmem
  refine le_trans ?_ hp.now
  rcases hp.log with hlog | ⟨event, hlog, hstarted⟩
  · exact h later earlier ms (hlog ▸ heq) hmem
  · rw [hlog, List.cons_eq_append_iff] at heq
    rcases heq with ⟨-, heq⟩ | ⟨later, rfl, heq⟩
    · have hle := hstarted call (List.cons.inj heq).1.symm
      omega
    · exact h later earlier ms heq hmem

theorem Ok.pass (h : Ok config w p) (hp : Passes w w') : Ok config w' p := by
  cases p with
  | allowRequest call => exact lt_of_lt_of_le h hp.calls
  | allowNow call => exact lt_of_lt_of_le h hp.calls
  | allowOpenTime call nowMs => exact ⟨lt_of_lt_of_le h.1 hp.calls, h.2.trans hp.now⟩
  | allowExchange call openTimeMs nowMs => exact ⟨lt_of_lt_of_le h.1 hp.calls, h.2.1.trans hp.now, h.2.2⟩
  | allowReset call => exact ⟨lt_of_lt_of_le h.1 hp.calls, h.2.pass h.1 hp⟩
  | allowReload call => exact lt_of_lt_of_le h hp.calls
  | countSuccess n => exact Live.pass h hp
  | closeFailures n => exact Live.pass h hp
  | closeSuccesses n => exact Live.pass h hp
  | closeState n => exact Live.pass h hp
  | _ => trivial

theorem Honours.cons (h : Honours config log) (hclosed : event = .closed → MayClose config log)
    (hreturned : ∀ call nowMs, event = .returned call true nowMs → ∀ between before ms,
      log = between ++ .started call :: before → .opened ms ∈ before → ms + config.timeoutMs ≤ nowMs) :
    Honours config (event :: log) where
  closed later earlier heq := by
    rw [List.cons_eq_append_iff] at heq
    rcases heq with ⟨-, heq⟩ | ⟨later, rfl, heq⟩
    · cases heq
      exact hclosed rfl
    · exact h.closed later earlier heq
  blocked after between before call nowMs ms heq hmem := by
    rw [List.cons_eq_append_iff] at heq
    rcases heq with ⟨-, heq⟩ | ⟨after, rfl, heq⟩
    · cases heq
      exact hreturned call nowMs rfl between before ms rfl hmem
    · exact h.blocked after between before call nowMs ms heq hmem

theorem Inv.update (h : Inv config w) (hpc : w'.pc = Function.update w.pc t p) (hp : Passes w w')
    (hself : Ok config w' p) (hhalf : w'.breaker.state = .halfOpen → (lastEntry w'.log).isSome = true)
    (hwaited : w'.breaker.state ≠ .open → Waited config w' ∧ Unfailed w'.log)
    (hcounted : FromZero w'.log → w'.breaker.successCount ≤ successes w'.log) (hhonours : Honours config w'.log) :
    Inv config w' where
  threads t' := by
    rw [hpc, Function.update_apply]
    split_ifs
    · exact hself
    · exact (h.threads t').pass hp
  half := hhalf
  waited := hwaited
  counted := hcounted
  honours := hhonours

theorem Inv.quiet (h : Inv config w) (hpc : w'.pc = Function.update w.pc t p) (hcalls : w'.calls = w.calls)
    (hnow : w'.nowMs = w.nowMs) (hlog : w'.log = w.log) (hstate : w'.breaker.state = w.breaker.state)
    (hcount : w'.breaker.successCount = w.breaker.successCount ∨ w'.breaker.successCount = 0)
    (hself : Passes w w' → Ok config w' p) : Inv config w' := by
  have hp : Passes w w' := by
    refine ⟨hcalls.ge, hnow.ge, Or.inl hlog, fun _ hne => ?_⟩
    rw [hstate, hlog]
    exact ⟨hne, rfl, le_refl _⟩
  refine h.update hpc hp (hself hp) (by rw [hstate, hlog]; exact h.half) (fun hne => ?_) (fun hzero => ?_)
    (hlog ▸ h.honours)
  · rw [hstate] at hne
    rw [Waited, hlog, hnow]
    exact h.waited hne
  · rcases hcount with hcount | hcount
    · rw [hcount, hlog]
      exact h.counted (hlog ▸ hzero)
    · rw [hcount]
      exact Int.natCast_nonneg _

theorem Inv.note (h : Inv config w) (event : Event) (hpc : w'.pc = Function.update w.pc t p) (hcalls : w.calls ≤ w'.calls)
    (hnow : w'.nowMs = w.nowMs) (hlog : w'.log = event :: w.log) (hstate : w'.breaker.state = w.breaker.state)
    (hopened : event.isOpened = false) (hentered : event.isEntered = false) (hclosed : event ≠ .closed)
    (hstarted : ∀ call, event = .started call → w.calls ≤ call)
    (hreturned : ∀ call nowMs, event = .returned call true nowMs → ∀ between before ms,
      w.log = between ++ .started call :: before → .opened ms ∈ before → ms + config.timeoutMs ≤ nowMs)
    (hcounted : FromZero w'.log → w'.breaker.successCount ≤ successes w'.log)
    (hself : Passes w w' → Ok config w' p) : Inv config w' := by
  have hp : Passes w w' := by
    refine ⟨hcalls, hnow.ge, Or.inr ⟨event, hlog, hstarted⟩, fun _ hne => ?_⟩
    rw [hstate, hlog, lastEntry_cons hentered]
    exact ⟨hne, rfl, successes_le_cons hentered⟩
  have hold : ∀ ms, Event.opened ms ≠ event := by
    rintro ms rfl
    cases hopened
  refine h.update hpc hp (hself hp) (by rw [hstate, hlog, lastEntry_cons hentered]; exact h.half) (fun hne => ?_)
    hcounted ?_
  · rw [hstate] at hne
    obtain ⟨hwaited, hunfailed⟩ := h.waited hne
    rw [Waited, Unfailed, hlog, hnow, period_cons hentered]
    constructor
    · intro ms hmem
      exact hwaited ms ((List.mem_cons.mp hmem).resolve_left (hold ms))
    · intro ms hmem
      exact hunfailed ms ((List.mem_cons.mp hmem).resolve_left (hold ms))
  · rw [hlog]
    exact h.honours.cons (fun heq => absurd heq hclosed) hreturned

theorem fromZero_of_cons (hentered : event.isEntered = false) (hreset : ∀ call, event ≠ .reset call)
    (h : FromZero (event :: log)) : FromZero log := by
  intro entry hentry
  have hcons := h entry (by rwa [lastEntry_cons hentered])
  rw [period_cons hentered] at hcons
  exact hcons.imp id fun hmem => (List.mem_cons.mp hmem).resolve_left (hreset _).symm

theorem Inv.returned (h : Inv config w) {allowed : Bool}
    (hallowed : allowed = true → Clear config w call) : Inv config (w.answer t call allowed) := by
  refine h.note (.returned call allowed w.nowMs) rfl (le_refl _) rfl rfl rfl rfl rfl nofun nofun ?_ ?_
    fun _ => trivial
  · intro call' nowMs heq between before ms hlog hmem
    cases heq
    exact hallowed rfl between before ms hlog hmem
  · intro hzero
    exact (h.counted (fromZero_of_cons rfl (fun _ heq => by cases heq) hzero)).trans (by
      exact_mod_cast successes_le_cons rfl)

theorem Waited.clear (h : Waited config w) (call : ℕ) : Clear config w call := by
  intro later earlier ms heq hmem
  refine h ms ?_
  rw [heq]
  exact List.mem_append_right _ (List.mem_cons_of_mem _ hmem)

theorem inv_entered (h : Inv config w) (hopen : w.breaker.state = .open) (hwaited : Waited config w)
    (hcall : call < w.calls) :
    Inv config (((w.setState .halfOpen).note (.entered call w.breaker.successCount)).goto t (.allowReset call)) := by
  have hwaited' : Waited config
      (((w.setState .halfOpen).note (.entered call w.breaker.successCount)).goto t (.allowReset call)) :=
    fun ms hmem => hwaited ms ((List.mem_cons.mp hmem).resolve_left nofun)
  refine h.update rfl ⟨le_refl _, le_refl _, Or.inr ⟨_, rfl, nofun⟩, fun _ hne => absurd hopen hne⟩
    ⟨hcall, hwaited'.clear call⟩ (fun _ => rfl) (fun _ => ⟨hwaited', fun _ => nofun⟩) (fun hzero => ?_) (h.honours.cons nofun nofun)
  rcases hzero _ rfl with hnone | hreset
  · change w.breaker.successCount ≤ (0 : ℕ)
    exact le_of_eq hnone
  · cases hreset

theorem inv_allow (h : Inv config w) (hstep : w.allow config t (w.pc t) = some w')
    (hup : UpToDate config w (.proceed t)) : Inv config w' := by
  have hok := h.threads t
  have hold (p : Pc) (hself : Passes w (w.goto t p) → Ok config (w.goto t p) p) : Inv config (w.goto t p) :=
    h.quiet rfl rfl rfl rfl rfl (Or.inl rfl) hself
  cases hpc : w.pc t with
  | allowRequest call =>
    rw [hpc] at hok hstep
    rw [World.allow] at hstep
    cases hstate : w.breaker.state with
    | closed =>
      rw [hstate] at hstep
      cases hstep
      exact h.returned fun _ => (h.waited (by rw [hstate]; nofun)).1.clear call
    | halfOpen =>
      rw [hstate] at hstep
      cases hstep
      exact h.returned fun _ => (h.waited (by rw [hstate]; nofun)).1.clear call
    | «open» =>
      rw [hstate] at hstep
      cases hstep
      exact hold _ fun _ => hok
  | allowNow call =>
    rw [hpc] at hok hstep
    cases hstep
    exact hold _ fun _ => ⟨hok, le_refl _⟩
  | allowOpenTime call nowMs =>
    rw [hpc] at hok hstep
    rw [World.allow] at hstep
    split_ifs at hstep with htimeout
    · cases hstep
      exact hold _ fun _ => ⟨hok.1, hok.2, htimeout⟩
    · cases hstep
      exact h.returned nofun
  | allowExchange call openTimeMs nowMs =>
    rw [hpc] at hok hstep
    rw [UpToDate, hpc] at hup
    rw [World.allow] at hstep
    split_ifs at hstep with hopen
    · cases hstep
      have hwaited : Waited config w := by
        intro ms hmem
        have hle := hup hopen ms (List.mem_filterMap.mpr ⟨_, hmem, rfl⟩)
        have hnow := hok.2.1
        have htimeout := hok.2.2
        omega
      exact inv_entered h hopen hwaited hok.1
    · cases hstep
      exact hold _ fun _ => hok.1
  | allowReset call =>
    rw [hpc] at hok hstep
    cases hstep
    have hreset : Inv config ((w.setSuccessCount 0).note (.reset call)) := by
      refine h.note (t := t) (.reset call) ?_ (le_refl _) rfl rfl rfl rfl rfl nofun nofun nofun
        (fun _ => Int.natCast_nonneg _) fun hp => hok.pass hp
      rw [← hpc]
      exact (Function.update_eq_self t w.pc).symm
    have hclear := hreset.threads t
    change Ok config _ (w.pc t) at hclear
    rw [hpc] at hclear
    exact hreset.returned fun _ => hclear.2
  | allowReload call =>
    rw [hpc] at hok hstep
    cases hstep
    refine h.returned fun hne => (h.waited ?_).1.clear call
    exact of_decide_eq_true hne
  | _ =>
    rw [hpc] at hstep
    cases hstep

theorem mayClose_of_live (h : Inv config w) (hlive : Live n config.successThreshold w) (hn : n = opens w.log) :
    MayClose config w.log := by
  obtain ⟨hstate, hentered, henough⟩ := hlive.live hn
  exact ⟨hentered, henough, (h.waited hstate).2⟩

theorem inv_closed (h : Inv config w) (hlive : Live n config.successThreshold w) (hn : n = opens w.log) :
    Inv config (((w.setState .closed).note .closed).goto t .idle) := by
  have hmay := mayClose_of_live h hlive hn
  obtain ⟨hstate, -, -⟩ := hlive.live hn
  obtain ⟨hwaited, hunfailed⟩ := h.waited hstate
  refine h.update rfl ⟨le_refl _, le_refl _, Or.inr ⟨_, rfl, nofun⟩, fun _ _ => ⟨nofun, rfl, successes_le_cons rfl⟩⟩
    trivial nofun (fun _ => ⟨?_, ?_⟩) (fun hzero => ?_) (h.honours.cons (fun _ => hmay) nofun)
  · exact fun ms hmem => hwaited ms ((List.mem_cons.mp hmem).resolve_left nofun)
  · exact fun ms hmem => hunfailed ms ((List.mem_cons.mp hmem).resolve_left nofun)
  · exact (h.counted (fromZero_of_cons rfl (fun _ heq => by cases heq) hzero)).trans (by
      exact_mod_cast successes_le_cons rfl)

theorem inv_counted (h : Inv config w) (hlive : Live n 0 w)
    (hzero : config.successThreshold ≤ w.breaker.successCount + 1 → FromZero w.log) :
    Inv config (((w.setSuccessCount (w.breaker.successCount + 1)).note .counted).goto t
      (if config.successThreshold ≤ w.breaker.successCount + 1 then .closeFailures n else .idle)) := by
  have hmore : successes (.counted :: w.log) = successes w.log + 1 := List.count_cons_self
  refine h.note .counted rfl (le_refl _) rfl rfl rfl rfl rfl nofun nofun nofun (fun hfrom => ?_) fun hp => ?_
  · have hle := h.counted (fromZero_of_cons rfl (fun _ heq => by cases heq) hfrom)
    change w.breaker.successCount + 1 ≤ (successes (.counted :: w.log) : ℕ)
    omega
  · split_ifs with henough
    · have hle := h.counted (hzero henough)
      have hpassed := hlive.pass hp
      refine ⟨hpassed.le, fun heq => ?_⟩
      obtain ⟨hstate, hentered, -⟩ := hpassed.live heq
      refine ⟨hstate, hentered, ?_⟩
      change config.successThreshold ≤ (successes (.counted :: w.log) : ℕ)
      omega
    · trivial

theorem inv_succeed (h : Inv config w) (hstep : w.succeed config t (w.pc t) = some w')
    (hup : UpToDate config w (.proceed t)) : Inv config w' := by
  have hok := h.threads t
  cases hpc : w.pc t with
  | recordSuccess =>
    rw [hpc] at hstep
    rw [World.succeed] at hstep
    cases hstate : w.breaker.state with
    | closed =>
      rw [hstate] at hstep
      cases hstep
      exact h.quiet rfl rfl rfl rfl rfl (Or.inl rfl) fun _ => trivial
    | halfOpen =>
      rw [hstate] at hstep
      cases hstep
      refine h.quiet rfl rfl rfl rfl rfl (Or.inl rfl) fun _ =>
        ⟨le_refl _, fun _ => ⟨?_, h.half hstate, Int.natCast_nonneg _⟩⟩
      change w.breaker.state ≠ .open
      rw [hstate]
      nofun
    | «open» =>
      rw [hstate] at hstep
      cases hstep
      exact h.quiet rfl rfl rfl rfl rfl (Or.inl rfl) fun _ => trivial
  | resetFailures =>
    rw [hpc] at hstep
    cases hstep
    exact h.quiet rfl rfl rfl rfl rfl (Or.inl rfl) fun _ => trivial
  | countSuccess n =>
    rw [hpc] at hok hstep
    rw [UpToDate, hpc] at hup
    cases hstep
    exact inv_counted h hok hup
  | closeFailures n =>
    rw [hpc] at hok hstep
    cases hstep
    exact h.quiet rfl rfl rfl rfl rfl (Or.inl rfl) fun hp => Live.pass hok hp
  | closeSuccesses n =>
    rw [hpc] at hok hstep
    cases hstep
    exact h.quiet rfl rfl rfl rfl rfl (Or.inr rfl) fun hp => Live.pass hok hp
  | closeState n =>
    rw [hpc] at hok hstep
    rw [UpToDate, hpc] at hup
    cases hstep
    exact inv_closed h hok hup
  | _ =>
    rw [hpc] at hstep
    cases hstep

theorem inv_opened {nowMs : ℤ} (h : Inv config w) :
    Inv config (((w.setState .open).note (.opened nowMs)).goto t .openFailures) := by
  have hopens : opens (.opened nowMs :: w.log) = opens w.log + 1 := List.countP_cons_of_pos rfl
  refine h.update rfl ⟨le_refl _, le_refl _, Or.inr ⟨_, rfl, nofun⟩, fun heq _ => ?_⟩ trivial nofun
    (fun hne => absurd rfl hne) (fun hzero => ?_) (h.honours.cons nofun nofun)
  · change opens (.opened nowMs :: w.log) = opens w.log at heq
    omega
  · exact (h.counted (fromZero_of_cons rfl (fun _ heq => by cases heq) hzero)).trans (by
      exact_mod_cast successes_le_cons rfl)

theorem inv_failed (h : Inv config w) (hstep : w.failed config t (w.pc t) = some w') : Inv config w' := by
  have hold (p : Pc) {w' : World} (hw' : w'.pc = Function.update w.pc t p) (hok : Ok config w' p)
      (hsame : w'.calls = w.calls ∧ w'.nowMs = w.nowMs ∧ w'.log = w.log ∧ w'.breaker.state = w.breaker.state ∧
        w'.breaker.successCount = w.breaker.successCount) : Inv config w' :=
    h.quiet hw' hsame.1 hsame.2.1 hsame.2.2.1 hsame.2.2.2.1 (Or.inl hsame.2.2.2.2) fun _ => hok
  cases hpc : w.pc t with
  | recordFailure =>
    rw [hpc] at hstep
    rw [World.failed] at hstep
    cases hstate : w.breaker.state with
    | closed =>
      rw [hstate] at hstep
      cases hstep
      exact hold _ rfl trivial ⟨rfl, rfl, rfl, rfl, rfl⟩
    | halfOpen =>
      rw [hstate] at hstep
      cases hstep
      exact hold _ rfl trivial ⟨rfl, rfl, rfl, rfl, rfl⟩
    | «open» =>
      rw [hstate] at hstep
      cases hstep
      exact hold _ rfl trivial ⟨rfl, rfl, rfl, rfl, rfl⟩
  | countFailure =>
    rw [hpc] at hstep
    cases hstep
    refine hold _ rfl ?_ ⟨rfl, rfl, rfl, rfl, rfl⟩
    split_ifs <;> trivial
  | openNow =>
    rw [hpc] at hstep
    cases hstep
    exact hold _ rfl trivial ⟨rfl, rfl, rfl, rfl, rfl⟩
  | openTime nowMs =>
    rw [hpc] at hstep
    cases hstep
    exact hold _ rfl trivial ⟨rfl, rfl, rfl, rfl, rfl⟩
  | openState nowMs =>
    rw [hpc] at hstep
    cases hstep
    exact inv_opened h
  | openFailures =>
    rw [hpc] at hstep
    cases hstep
    exact hold _ rfl trivial ⟨rfl, rfl, rfl, rfl, rfl⟩
  | _ =>
    rw [hpc] at hstep
    cases hstep

theorem inv_step (hup : UpToDate config w a) (h : Inv config w) (hstep : w.step config a = some w') :
    Inv config w' := by
  cases a with
  | tick ms =>
    cases hstep
    have hp : Passes w { w with nowMs := w.nowMs + ms } :=
      ⟨le_refl _, by simp, Or.inl rfl, fun _ hne => ⟨hne, rfl, le_refl _⟩⟩
    refine ⟨fun t => (h.threads t).pass hp, h.half, fun hne => ?_, h.counted, h.honours⟩
    obtain ⟨hwaited, hunfailed⟩ := h.waited hne
    exact ⟨fun ms hmem => (hwaited ms hmem).trans hp.now, hunfailed⟩
  | allowRequest t =>
    rw [World.step] at hstep
    split_ifs at hstep
    cases hstep
    refine h.note (.started w.calls) rfl (Nat.le_succ _) rfl rfl rfl rfl rfl nofun ?_ nofun (fun hzero => ?_)
      fun _ => Nat.lt_succ_self _
    · intro call heq
      cases heq
      exact le_refl _
    · exact (h.counted (fromZero_of_cons rfl (fun _ heq => by cases heq) hzero)).trans (by
        exact_mod_cast successes_le_cons rfl)
  | recordSuccess t =>
    rw [World.step] at hstep
    split_ifs at hstep
    cases hstep
    exact h.quiet rfl rfl rfl rfl rfl (Or.inl rfl) fun _ => trivial
  | recordFailure t =>
    rw [World.step] at hstep
    split_ifs at hstep
    cases hstep
    exact h.quiet rfl rfl rfl rfl rfl (Or.inl rfl) fun _ => trivial
  | proceed t =>
    rw [World.step, World.proceed] at hstep
    cases hallow : w.allow config t (w.pc t) with
    | some w₁ =>
      rw [hallow] at hstep
      cases hstep
      exact inv_allow h hallow hup
    | none =>
      rw [hallow] at hstep
      cases hsucceed : w.succeed config t (w.pc t) with
      | some w₁ =>
        rw [hsucceed] at hstep
        cases hstep
        exact inv_succeed h hsucceed hup
      | none =>
        rw [hsucceed] at hstep
        exact inv_failed h hstep

theorem inv_start (config : Config) (nowMs : ℤ) : Inv config (World.start nowMs) where
  threads _ := trivial
  half := nofun
  waited _ := ⟨nofun, nofun⟩
  counted _ := le_refl _
  honours := ⟨fun later _ heq => absurd heq (List.append_ne_nil_of_right_ne_nil later (List.cons_ne_nil _ _)).symm,
    fun after _ _ _ _ _ heq => absurd heq (List.append_ne_nil_of_right_ne_nil after (List.cons_ne_nil _ _)).symm⟩

/-- The rules hold throughout a run in which no step acts on what a later call has overridden. -/
theorem rules_honoured (config : Config) (nowMs : ℤ) (actions : List Action) {w : World}
    (hrun : Machine.run (World.step config) (World.start nowMs) actions = some w)
    (hmeets : Machine.Meets (World.step config) (UpToDate config) (World.start nowMs) actions) :
    Honours config w.log :=
  (Machine.run_invariant (fun _ _ _ hup h hstep => inv_step hup h hstep) (inv_start config nowMs) hmeets hrun).honours

def touchy : Config := ⟨1, 1, 1000⟩

def openThenHalfOpen : List Action :=
  [.recordFailure 0, .proceed 0, .proceed 0, .proceed 0, .proceed 0, .proceed 0, .proceed 0, .tick 1000,
    .allowRequest 0, .proceed 0, .proceed 0, .proceed 0, .proceed 0, .proceed 0]

def closeAgain : List Action :=
  openThenHalfOpen ++
    ([.recordSuccess 0, .proceed 0, .proceed 0, .proceed 0, .proceed 0, .proceed 0] : List Action)

theorem closed_after_success :
    ∃ w, Machine.run (World.step touchy) (World.start 0) closeAgain = some w ∧
      w.log = [.closed, .counted, .returned 0 true 1000, .reset 0, .entered 0 0, .started 0, .opened 0] ∧
      Honours touchy w.log := by
  have hlog : (Machine.run (World.step touchy) (World.start 0) closeAgain).map (·.log) =
      some [.closed, .counted, .returned 0 true 1000, .reset 0, .entered 0 0, .started 0, .opened 0] := by
    decide
  obtain ⟨w, hrun, hlog⟩ := Option.map_eq_some_iff.mp hlog
  exact ⟨w, hrun, hlog, rules_honoured touchy 0 closeAgain hrun (by decide)⟩

def slowSuccess : List Action :=
  openThenHalfOpen ++ ([.recordSuccess 0, .proceed 0, .proceed 0, .proceed 0, .proceed 0] : List Action) ++
    ([.recordFailure 1, .proceed 1, .proceed 1, .proceed 1, .proceed 1] : List Action) ++
    ([.proceed 0, .allowRequest 0, .proceed 0] : List Action)

theorem closed_over_failure :
    ∃ w, Machine.run (World.step touchy) (World.start 0) slowSuccess = some w ∧
      w.log = [.returned 1 true 1000, .started 1, .closed, .opened 1000, .counted] ++
        [.returned 0 true 1000, .reset 0, .entered 0 0, .started 0, .opened 0] ∧
      ¬ Honours touchy w.log := by
  have hlog : (Machine.run (World.step touchy) (World.start 0) slowSuccess).map (·.log) =
      some ([.returned 1 true 1000, .started 1, .closed, .opened 1000, .counted] ++
        [.returned 0 true 1000, .reset 0, .entered 0 0, .started 0, .opened 0]) := by
    decide
  obtain ⟨w, hrun, hlog⟩ := Option.map_eq_some_iff.mp hlog
  refine ⟨w, hrun, hlog, fun h => ?_⟩
  rw [hlog] at h
  have hle := h.blocked [] [] [.closed, .opened 1000, .counted, .returned 0 true 1000, .reset 0, .entered 0 0,
    .started 0, .opened 0] 1 1000 1000 rfl (by decide)
  exact absurd hle (by decide)

end PageSpeed.CircuitBreaker
