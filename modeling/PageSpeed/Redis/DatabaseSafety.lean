import PageSpeed.Redis.ConnectionSteps

/-!
Which database a key command reaches. A connection in use has been authenticated
and has had a database selected on it; the thread that holds the mutex is the
only one to change it.
-/

namespace PageSpeed.Redis

/-- `AUTH` was answered with success on the connection. -/
def Authenticated (id : ℕ) (log : List LogEntry) : Prop :=
  ∃ reply, LogEntry.sent (some id) .auth (some reply) ∈ log ∧ reply.type = .status

/-- `SELECT` was answered with success on the connection, after `AUTH` was. -/
def Selected (databaseIndex : ℤ) (id : ℕ) (log : List LogEntry) : Prop :=
  ∃ later earlier reply, log = later ++ .sent (some id) (.select databaseIndex) (some reply) :: earlier ∧
    reply.type = .status ∧ Authenticated id earlier

variable {settings : Settings} {s s' : Shared} {t t' : ℕ} {p : Pc} {id : ℕ} {log log' : List LogEntry}
  {databaseIndex : ℤ} {context : RedisContext} {commands : List Command} {answer : Answer} {reply : Option RedisReply}

theorem Authenticated.mono (h : Authenticated id log) (hsuffix : log <:+ log') : Authenticated id log' := by
  obtain ⟨reply, hmem, hstatus⟩ := h
  exact ⟨reply, hsuffix.subset hmem, hstatus⟩

theorem Selected.mono (h : Selected databaseIndex id log) (hsuffix : log <:+ log') : Selected databaseIndex id log' := by
  obtain ⟨later, earlier, reply, rfl, hselected⟩ := h
  obtain ⟨front, rfl⟩ := hsuffix
  exact ⟨front ++ later, earlier, reply, (List.append_assoc _ _ _).symm, hselected⟩

def Pc.Phase : Pc → Prop
  | .connecting _ => True
  | .authenticating _ _ => True
  | .relocking _ _ => True
  | _ => False

/-- A thread that makes a connection has yet to send its `AUTH`. -/
def Pc.Early : Pc → Prop
  | .connecting _ => True
  | .authenticating _ _ => True
  | _ => False

/-- No `SELECT` is refused, and `ShutDown` waits for a connection that is being made. -/
def Shared.Undisturbed (settings : Settings) (s : Shared) : Action → Prop
  | .begin _ _ => True
  | .proceed t answer => (∃ commands, s.pc t = .selecting commands) → s.conn.mustSelect settings.databaseIndex = true →
      ∀ reply ∈ answer.reply, reply.type = .status
  | .shutDown => ∀ t, ¬ (s.pc t).Early

def Dialing (conn : ConnectionState) : Prop := conn.state = .kConnecting ∨ conn.state = .kShutDown

def Live (conn : ConnectionState) : Prop :=
  conn.state = .kConnected ∧ ∃ context, conn.redis = some context ∧ context.err = false

def Quiet (conn : ConnectionState) : Prop :=
  conn.state = .kConnected → ∃ context, conn.redis = some context ∧ context.err = false

def Ok (s : Shared) (t : ℕ) : Pc → Prop
  | .idle => True
  | .ensure _ => s.holder = some t
  | .connecting _ => Dialing s.conn
  | .authenticating context _ => Dialing s.conn ∧ context.err = false
  | .relocking locRedis _ =>
    Dialing s.conn ∧ ∀ context, locRedis = some context → context.err = false ∧ Authenticated context.id s.log
  | .selecting _ => s.holder = some t ∧ Live s.conn
  | .sending _ => s.holder = some t ∧ Live s.conn ∧ s.conn.databaseSelected = true
  | .validating _ _ => s.holder = some t

structure Recorded (settings : Settings) (conn : ConnectionState) (log : List LogEntry) : Prop where
  authenticated : ∀ context, conn.redis = some context → Authenticated context.id log
  selected : conn.databaseSelected = true → ∀ context, conn.redis = some context →
    Selected settings.databaseIndex context.id log
  connecting : conn.state = .kConnecting → conn.databaseSelected = false ∧ conn.redis = none
  closed : LogEntry.shutDown ∈ log → conn.state = .kShutDown

structure Inv (settings : Settings) (s : Shared) : Prop where
  threads : ∀ t, Ok s t (s.pc t)
  single : ∀ t t', (s.pc t).Phase → (s.pc t').Phase → t = t'
  quiet : Quiet s.conn ∨ ∃ t reply commands, s.holder = some t ∧ s.pc t = .validating reply commands
  recorded : Recorded settings s.conn s.log

theorem Ok.frame (h : Ok s t p) (hlock : s.holder ≠ some t) (hdialing : p.Phase → Dialing s'.conn)
    (hlog : s.log <:+ s'.log) : Ok s' t p := by
  cases p with
  | idle => trivial
  | ensure commands => exact absurd h hlock
  | connecting commands => exact hdialing trivial
  | authenticating context commands => exact ⟨hdialing trivial, h.2⟩
  | relocking locRedis commands =>
    refine ⟨hdialing trivial, fun context heq => ?_⟩
    obtain ⟨herr, hauth⟩ := h.2 context heq
    exact ⟨herr, hauth.mono hlog⟩
  | selecting commands => exact absurd h.1 hlock
  | sending commands => exact absurd h.1 hlock
  | validating reply commands => exact absurd h hlock

theorem Ok.grow (h : Ok s t p) (hconn : s'.conn = s.conn) (hholder : s'.holder = s.holder) (hlog : s.log <:+ s'.log) :
    Ok s' t p := by
  cases p with
  | idle => trivial
  | ensure commands => exact hholder.trans h
  | connecting commands =>
    change Dialing s'.conn
    rw [hconn]
    exact h
  | authenticating context commands => exact ⟨hconn ▸ h.1, h.2⟩
  | relocking locRedis commands =>
    refine ⟨hconn ▸ h.1, fun context heq => ?_⟩
    obtain ⟨herr, hauth⟩ := h.2 context heq
    exact ⟨herr, hauth.mono hlog⟩
  | selecting commands => exact ⟨hholder.trans h.1, hconn ▸ h.2⟩
  | sending commands => exact ⟨hholder.trans h.1, hconn ▸ h.2⟩
  | validating reply commands => exact hholder.trans h

theorem Ok.dialing (h : Ok s t p) (hphase : p.Phase) : Dialing s.conn := by
  cases p with
  | connecting commands => exact h
  | authenticating context commands => exact h.1
  | relocking locRedis commands => exact h.1
  | _ => cases hphase

theorem Recorded.mono {conn : ConnectionState} (h : Recorded settings conn log) (context : Option ℕ)
    (command : Command) (reply : Option RedisReply) :
    Recorded settings conn (.sent context command reply :: log) where
  authenticated context heq := (h.authenticated context heq).mono (List.suffix_cons _ _)
  selected hselected context heq := (h.selected hselected context heq).mono (List.suffix_cons _ _)
  connecting := h.connecting
  closed hmem := by
    rcases List.mem_cons.mp hmem with heq | hmem
    · cases heq
    · exact h.closed hmem

theorem Inv.update (h : Inv settings s) (hpc : s'.pc = Function.update s.pc t p) (hself : Ok s' t p)
    (hothers : ∀ t', t' ≠ t → Ok s' t' (s.pc t')) (hsingle : p.Phase → ∀ t', t' ≠ t → ¬ (s.pc t').Phase)
    (hquiet : Quiet s'.conn ∨ ∃ t reply commands, s'.holder = some t ∧ s'.pc t = .validating reply commands)
    (hrecorded : Recorded settings s'.conn s'.log) : Inv settings s' where
  threads t' := by
    rw [hpc, Function.update_apply]
    split_ifs with heq
    · exact heq ▸ hself
    · exact hothers t' heq
  single t₁ t₂ := by
    rw [hpc, Function.update_apply, Function.update_apply]
    split_ifs with h₁ h₂ h₂
    · exact fun _ _ => h₁.trans h₂.symm
    · exact fun hphase hphase' => absurd hphase' (hsingle hphase t₂ h₂)
    · exact fun hphase hphase' => absurd hphase (hsingle hphase' t₁ h₁)
    · exact h.single t₁ t₂
  quiet := hquiet
  recorded := hrecorded

theorem Inv.quiet_of_holder (h : Inv settings s) (hholder : s.holder = some t)
    (hpc : ∀ reply commands, s.pc t ≠ .validating reply commands) : Quiet s.conn := by
  refine h.quiet.resolve_right ?_
  rintro ⟨t', reply, commands, hholder', hvalidating⟩
  obtain rfl : t = t' := Option.some.inj (hholder.symm.trans hholder')
  exact hpc reply commands hvalidating

theorem Inv.locked (h : Inv settings s) (hlock : ∀ t', t' ≠ t → s.holder ≠ some t')
    (hpc : s'.pc = Function.update s.pc t p) (hself : Ok s' t p) (hphase : p.Phase → ¬ Dialing s.conn)
    (hdialing : ∀ t', t' ≠ t → (s.pc t').Phase → Dialing s'.conn) (hlog : s.log <:+ s'.log)
    (hquiet : Quiet s'.conn ∨ ∃ t reply commands, s'.holder = some t ∧ s'.pc t = .validating reply commands)
    (hrecorded : Recorded settings s'.conn s'.log) : Inv settings s' :=
  h.update hpc hself (fun t' hne => (h.threads t').frame (hlock t' hne) (hdialing t' hne) hlog)
    (fun hp t' _ hphase' => hphase hp ((h.threads t').dialing hphase')) hquiet hrecorded

section Locked

variable {s₁ : Shared} (h : Inv settings s) (hlock : ∀ t', t' ≠ t → s.holder ≠ some t') (hpc : s₁.pc = s.pc)
  (hdialing : ∀ t', t' ≠ t → (s.pc t').Phase → Dialing s₁.conn) (hlog : s.log <:+ s₁.log) (hquiet : Quiet s₁.conn)
  (hrecorded : Recorded settings s₁.conn s₁.log)

include h hlock hpc hdialing hlog hquiet hrecorded

theorem Inv.leave : Inv settings (s₁.leave t) :=
  h.locked (p := .idle) hlock (by rw [Shared.leave, hpc]) trivial nofun hdialing hlog (Or.inl hquiet) hrecorded

theorem Inv.fail (hholder : s₁.holder = some t) : Inv settings (s₁.fail t commands) := by
  cases commands with
  | nil => exact h.leave hlock hpc hdialing hlog hquiet hrecorded
  | cons command commands =>
    exact h.locked (p := .validating none (command :: commands)) hlock (by rw [Shared.fail, Shared.goto, hpc]) hholder
      nofun hdialing hlog (Or.inl hquiet) hrecorded

theorem Inv.ensured (hholder : s₁.holder = some t) (hlive : Live s₁.conn)
    (hselected : s₁.conn.databaseSelected = true) : Inv settings (s₁.ensured t commands) := by
  cases commands with
  | nil => exact h.leave hlock hpc hdialing hlog hquiet hrecorded
  | cons command commands =>
    exact h.locked (p := .sending (command :: commands)) hlock (by rw [Shared.ensured, Shared.goto, hpc])
      ⟨hholder, hlive, hselected⟩ nofun hdialing hlog (Or.inl hquiet) hrecorded

end Locked

theorem lock_of_holder (hholder : s.holder = some t) : ∀ t', t' ≠ t → s.holder ≠ some t' := by
  intro t' hne heq
  exact hne (Option.some.inj (heq.symm.trans hholder))

theorem lock_of_free (hholder : s.holder = none) : ∀ t', t' ≠ t → s.holder ≠ some t' := by
  intro t' _ heq
  cases hholder.symm.trans heq

theorem Inv.no_phase (h : Inv settings s) (hlive : s.conn.state = .kConnected) : ¬ (s.pc t').Phase := by
  intro hphase
  rcases (h.threads t').dialing hphase with hstate | hstate
  · rw [hlive] at hstate
    cases hstate
  · rw [hlive] at hstate
    cases hstate

theorem inv_begin (h : Inv settings s) (hfree : s.holder = none) :
    Inv settings (Shared.goto { s with holder := some t } t (.ensure commands)) := by
  refine h.locked (lock_of_free hfree) rfl rfl nofun (fun t' _ => (h.threads t').dialing) List.suffix_rfl
    (Or.inl (h.quiet.resolve_right ?_)) h.recorded
  rintro ⟨_, _, _, hholder, -⟩
  cases hfree.symm.trans hholder

namespace ConnectionState

variable {c : ConnectionState} {nowMs delayMs : ℤ}

theorem shutDown_state : c.shutDown.state = .kShutDown := by
  rw [shutDown]
  split_ifs with h
  · exact h
  · rfl

theorem beginConnection_cases (c : ConnectionState) (nowMs : ℤ) :
    (c.beginConnection nowMs = (c, .connected) ∧ c.state = .kConnected) ∨
    (c.beginConnection nowMs = (c, .failed) ∧ c.state ≠ .kConnected) ∨
    (c.beginConnection nowMs =
      ({ c with redis := none, state := .kConnecting, databaseSelected := false }, .connecting) ∧
      c.state = .kDisconnected) := by
  rw [beginConnection, isHealthyLockHeld]
  cases c.state with
  | kShutDown => exact Or.inr (Or.inl ⟨rfl, nofun⟩)
  | kConnecting => exact Or.inr (Or.inl ⟨rfl, nofun⟩)
  | kConnected => exact Or.inl ⟨rfl, rfl⟩
  | kDisconnected =>
    by_cases hnow : c.nextReconnectAtMs ≤ nowMs
    · exact Or.inr (Or.inr ⟨by simp [hnow], rfl⟩)
    · exact Or.inr (Or.inl ⟨by simp [hnow], nofun⟩)

theorem updateState_cases (c : ConnectionState) :
    (∃ context, c.redis = some context ∧ context.err = false ∧ c.updateState = { c with state := .kConnected }) ∨
    c.updateState = { c with redis := none, state := .kDisconnected } := by
  rw [updateState]
  split
  · rename_i context hredis
    cases herr : context.err with
    | false => exact Or.inl ⟨context, hredis, herr, rfl⟩
    | true => exact Or.inr rfl
  · rename_i hredis
    refine Or.inr ?_
    cases c
    simp_all

theorem quiet_updateState (c : ConnectionState) : Quiet c.updateState := by
  rcases c.updateState_cases with ⟨context, hredis, herr, heq⟩ | heq
  · rw [heq]
    exact fun _ => ⟨context, hredis, herr⟩
  · rw [heq]
    nofun

theorem recorded_updateState (h : Recorded settings c log) (hstate : c.state ≠ .kShutDown) :
    Recorded settings c.updateState log := by
  rcases c.updateState_cases with ⟨context, hredis, herr, heq⟩ | heq
  · rw [heq]
    exact ⟨h.authenticated, h.selected, nofun, fun hmem => absurd (h.closed hmem) hstate⟩
  · rw [heq]
    exact ⟨nofun, fun _ => nofun, nofun, fun hmem => absurd (h.closed hmem) hstate⟩

theorem finishConnection_cases {locRedis : Option RedisContext} (nowMs delayMs : ℤ) (hdialing : Dialing c)
    (hoffered : ∀ context, locRedis = some context → context.err = false) :
    (∃ context c', locRedis = some context ∧ c.state = .kConnecting ∧
      c.finishConnection nowMs locRedis delayMs = (c', true) ∧ c'.state = .kConnected ∧ c'.redis = some context ∧
      c'.databaseSelected = c.databaseSelected) ∨
    (∃ c', c.state = .kConnecting ∧ c.finishConnection nowMs locRedis delayMs = (c', false) ∧
      c'.state = .kDisconnected ∧ c'.redis = none) ∨
    (c.state = .kShutDown ∧ c.finishConnection nowMs locRedis delayMs = (c, false)) := by
  rcases hdialing with hstate | hstate
  · cases locRedis with
    | none => exact Or.inr (Or.inl ⟨_, hstate, by rw [finishConnection, if_pos hstate]; rfl, rfl, rfl⟩)
    | some context =>
      have herr := hoffered context rfl
      refine Or.inl ⟨context, { c with redis := some context, state := .kConnected, nextReconnectAtMs := nowMs },
        rfl, hstate, ?_, rfl, rfl, rfl⟩
      simp [finishConnection, hstate, updateState, herr]
  · exact Or.inr (Or.inr ⟨hstate, by simp [finishConnection, hstate]⟩)

end ConnectionState

open ConnectionState

theorem inv_shutDown (h : Inv settings s) (hfree : s.holder = none) :
    Inv settings { s with conn := s.conn.shutDown, log := .shutDown :: s.log } where
  threads t := (h.threads t).frame (by rw [hfree]; nofun) (fun _ => Or.inr shutDown_state) (List.suffix_cons _ _)
  single := h.single
  quiet := Or.inl fun hstate => by
    rw [shutDown_state] at hstate
    cases hstate
  recorded := by
    refine ⟨fun context heq => ?_, fun hselected context heq => ?_, fun hstate => ?_, fun _ => shutDown_state⟩
    · rw [shutDown] at heq
      split_ifs at heq
      exact (h.recorded.authenticated context heq).mono (List.suffix_cons _ _)
    · rw [shutDown] at heq hselected
      split_ifs at heq hselected
      exact (h.recorded.selected hselected context heq).mono (List.suffix_cons _ _)
    · rw [shutDown_state] at hstate
      cases hstate

theorem inv_ensure {s' : Shared} (h : Inv settings s) (hpc : s.pc t = .ensure commands)
    (hstep : s.proceed settings t answer = some s') : Inv settings s' := by
  have hholder : s.holder = some t := by
    have hok := h.threads t
    rwa [hpc] at hok
  have hquiet := h.quiet_of_holder hholder (by rw [hpc]; nofun)
  have hlock := lock_of_holder hholder
  have hothers : ∀ t', t' ≠ t → (s.pc t').Phase → Dialing s.conn := fun t' _ => (h.threads t').dialing
  rw [Shared.proceed, hpc] at hstep
  dsimp only at hstep
  rcases s.conn.beginConnection_cases answer.nowMs with ⟨heq, hstate⟩ | ⟨heq, -⟩ | ⟨heq, hstate⟩
  · rw [heq] at hstep
    cases hstep
    exact h.locked hlock rfl ⟨hholder, hstate, hquiet hstate⟩ nofun hothers List.suffix_rfl (Or.inl hquiet) h.recorded
  · rw [heq] at hstep
    cases hstep
    exact h.fail hlock rfl hothers List.suffix_rfl hquiet h.recorded hholder
  · rw [heq] at hstep
    cases hstep
    refine h.locked (p := .connecting commands) hlock rfl (Or.inl rfl) ?_ (fun _ _ _ => Or.inl rfl) List.suffix_rfl
      (Or.inl nofun) ⟨nofun, nofun, fun _ => ⟨rfl, rfl⟩, fun hmem => ?_⟩
    · rintro - (hdialing | hdialing) <;> rw [hstate] at hdialing <;> cases hdialing
    · have hclosed := h.recorded.closed hmem
      rw [hstate] at hclosed
      cases hclosed

theorem Inv.unlocked (h : Inv settings s) (hphase : (s.pc t).Phase) (hpc : s'.pc = Function.update s.pc t p)
    (hself : Ok s' t p) (hconn : s'.conn = s.conn) (hholder : s'.holder = s.holder) (hlog : s.log <:+ s'.log)
    (hrecorded : Recorded settings s'.conn s'.log) : Inv settings s' := by
  refine h.update hpc hself (fun t' _ => (h.threads t').grow hconn hholder hlog)
    (fun _ t' hne hphase' => hne (h.single t' t hphase' hphase)) ?_ hrecorded
  rcases h.quiet with hquiet | ⟨t', reply, commands, hheld, hvalidating⟩
  · exact Or.inl (hconn ▸ hquiet)
  · have hne : t' ≠ t := by
      rintro rfl
      rw [hvalidating] at hphase
      exact hphase
    exact Or.inr ⟨t', reply, commands, hholder.trans hheld, by rw [hpc, Function.update_of_ne hne, hvalidating]⟩

theorem inv_connecting (h : Inv settings s) (hpc : s.pc t = .connecting commands)
    (hstep : s.proceed settings t answer = some s') : Inv settings s' := by
  have hphase : (s.pc t).Phase := by rw [hpc]; trivial
  have hdialing := (h.threads t).dialing hphase
  rw [Shared.proceed, hpc] at hstep
  dsimp only at hstep
  split_ifs at hstep
  · cases hstep
    exact h.unlocked hphase rfl ⟨hdialing, rfl⟩ rfl rfl List.suffix_rfl h.recorded
  · cases hstep
    exact h.unlocked hphase rfl ⟨hdialing, nofun⟩ rfl rfl List.suffix_rfl h.recorded

theorem inv_authenticating (h : Inv settings s) (hpc : s.pc t = .authenticating context commands)
    (hstep : s.proceed settings t answer = some s') : Inv settings s' := by
  have hphase : (s.pc t).Phase := by rw [hpc]; trivial
  have hdialing := (h.threads t).dialing hphase
  have herr : context.err = false := by
    have hok := h.threads t
    rw [hpc] at hok
    exact hok.2
  rw [Shared.proceed, hpc] at hstep
  cases hstep
  refine h.unlocked hphase rfl ⟨hdialing, fun context' heq => ?_⟩ rfl rfl (List.suffix_cons _ _) (h.recorded.mono _ _ _)
  split_ifs at heq with haccepted
  cases heq
  refine ⟨herr, ?_⟩
  cases hreply : answer.reply with
  | none =>
    rw [hreply] at haccepted
    cases haccepted
  | some reply =>
    rw [hreply] at haccepted
    exact ⟨reply, List.mem_cons_self, of_decide_eq_true haccepted⟩

theorem inv_relocking {locRedis : Option RedisContext} (h : Inv settings s) (hpc : s.pc t = .relocking locRedis commands)
    (hstep : s.proceed settings t answer = some s') : Inv settings s' := by
  have hphase : (s.pc t).Phase := by rw [hpc]; trivial
  have hok := h.threads t
  rw [hpc] at hok
  obtain ⟨hdialing, hoffered⟩ := hok
  have hnobody : ∀ t', t' ≠ t → ¬ (s.pc t').Phase := fun t' hne hphase' => hne (h.single t' t hphase' hphase)
  rw [Shared.proceed, hpc] at hstep
  dsimp only at hstep
  by_cases hfree : s.holder.isSome = true
  · rw [if_pos hfree] at hstep
    cases hstep
  have hlock := lock_of_free (t := t) (Option.not_isSome_iff_eq_none.mp hfree)
  have hclosed : s.conn.state = .kConnecting → LogEntry.shutDown ∉ s.log := fun hstate hmem => by
    have hdown := h.recorded.closed hmem
    rw [hstate] at hdown
    cases hdown
  rw [if_neg hfree] at hstep
  rcases finishConnection_cases answer.nowMs settings.reconnectionDelayMs hdialing
      (fun context heq => (hoffered context heq).1) with
    ⟨context, c', hloc, hstate, heq, hstate', hredis, hselected⟩ | ⟨c', hstate, heq, hstate', hredis⟩ | ⟨hstate, heq⟩
  · rw [heq] at hstep
    cases hstep
    obtain ⟨herr, hauth⟩ := hoffered context hloc
    refine h.update (p := .selecting commands) rfl ⟨rfl, hstate', context, hredis, herr⟩
      (fun t' hne => (h.threads t').frame (hlock t' hne) (fun hp => absurd hp (hnobody t' hne)) List.suffix_rfl) nofun
      (Or.inl fun _ => ⟨context, hredis, herr⟩) ⟨fun context' hredis' => ?_, fun hsel => ?_, fun hconnecting => ?_,
        fun hmem => absurd hmem (hclosed hstate)⟩
    · cases hredis.symm.trans hredis'
      exact hauth
    · cases (hselected.symm.trans hsel).symm.trans (h.recorded.connecting hstate).1
    · cases hstate'.symm.trans hconnecting
  · rw [heq] at hstep
    cases hstep
    refine h.fail hlock rfl (fun t' hne hp => absurd hp (hnobody t' hne)) List.suffix_rfl
      (fun hconnected => ?_) ⟨fun context hredis' => ?_, fun _ context hredis' => ?_, fun hconnecting => ?_,
        fun hmem => absurd hmem (hclosed hstate)⟩ rfl
    · cases hstate'.symm.trans hconnected
    · cases hredis.symm.trans hredis'
    · cases hredis.symm.trans hredis'
    · cases hstate'.symm.trans hconnecting
  · rw [heq] at hstep
    cases hstep
    refine h.fail hlock rfl (fun t' hne hp => absurd hp (hnobody t' hne)) List.suffix_rfl (fun hconnected => ?_)
      h.recorded rfl
    cases hstate.symm.trans hconnected

variable {command : Command}

theorem recorded_send (h : Recorded settings s.conn s.log) :
    Recorded settings (s.send command reply).conn (s.send command reply).log := by
  have hmono := h.mono (s.conn.redis.map RedisContext.id) command reply
  rw [Shared.send]
  dsimp only
  rw [answered]
  split_ifs
  · refine ⟨fun context heq => ?_, fun hselected context heq => ?_, fun hstate => ?_, hmono.closed⟩
    · obtain ⟨context', hredis, rfl⟩ := Option.map_eq_some_iff.mp heq
      exact hmono.authenticated context' hredis
    · obtain ⟨context', hredis, rfl⟩ := Option.map_eq_some_iff.mp heq
      exact hmono.selected hselected context' hredis
    · obtain ⟨hselected, hredis⟩ := hmono.connecting hstate
      exact ⟨hselected, by rw [hredis]; rfl⟩
  · exact hmono

theorem inv_selecting (h : Inv settings s) (hpc : s.pc t = .selecting commands)
    (hsound : s.Undisturbed settings (.proceed t answer))
    (hstep : s.proceed settings t answer = some s') : Inv settings s' := by
  have hok := h.threads t
  rw [hpc] at hok
  obtain ⟨hholder, hstate, context, hredis, herr⟩ := hok
  have hlock := lock_of_holder hholder
  have hnobody : ∀ t', ¬ (s.pc t').Phase := fun t' => h.no_phase hstate
  rw [Shared.proceed, hpc] at hstep
  dsimp only at hstep
  by_cases hselect : s.conn.mustSelect settings.databaseIndex = true
  · rw [if_pos hselect] at hstep
    have hclosed : LogEntry.shutDown ∉ s.log := fun hmem => by
      cases hstate.symm.trans (h.recorded.closed hmem)
    have hclosed' : LogEntry.shutDown ∉ (s.send (.select settings.databaseIndex) answer.reply).log := fun hmem =>
      hclosed ((List.mem_cons.mp hmem).resolve_left nofun)
    cases hreply : answer.reply with
    | none =>
      rw [hreply] at hstep hclosed'
      cases hstep
      exact h.fail hlock rfl (fun t' _ hp => absurd hp (hnobody t')) (List.suffix_cons _ _) nofun
        ⟨nofun, fun _ => nofun, nofun, fun hmem => absurd hmem hclosed'⟩ hholder
    | some reply =>
      rw [hreply] at hstep hclosed'
      cases hstep
      have hauth : Authenticated context.id s.log := h.recorded.authenticated context hredis
      refine h.ensured hlock rfl (fun t' _ hp => absurd hp (hnobody t')) (List.suffix_cons _ _)
        (fun _ => ⟨context, hredis, herr⟩) ⟨fun context' hredis' => ?_, fun _ context' hredis' => ?_, fun hconnecting => ?_,
          fun hmem => absurd hmem hclosed'⟩ hholder ⟨hstate, context, hredis, herr⟩ rfl
      · exact (h.recorded.authenticated context' hredis').mono (List.suffix_cons _ _)
      · obtain rfl : context = context' := Option.some.inj (hredis.symm.trans hredis')
        refine ⟨[], s.log, reply, ?_, hsound ⟨commands, hpc⟩ hselect reply hreply, hauth⟩
        rw [Shared.send, hredis]
        rfl
      · cases hstate.symm.trans hconnecting
  · rw [if_neg hselect] at hstep
    cases hstep
    have hselected : s.conn.databaseSelected = true := by
      simpa [mustSelect, settings.index_set] using hselect
    exact h.ensured hlock rfl (fun t' _ hp => absurd hp (hnobody t')) List.suffix_rfl (fun _ => ⟨context, hredis, herr⟩)
      h.recorded hholder ⟨hstate, context, hredis, herr⟩ hselected

theorem inv_sending (h : Inv settings s) (hpc : s.pc t = .sending (command :: commands))
    (hstep : s.proceed settings t answer = some s') : Inv settings s' := by
  have hok := h.threads t
  rw [hpc] at hok
  obtain ⟨hholder, ⟨hstate, -⟩, -⟩ := hok
  rw [Shared.proceed, hpc] at hstep
  cases hstep
  exact h.locked (p := .validating answer.reply (command :: commands)) (lock_of_holder hholder) rfl hholder nofun
    (fun t' _ hp => absurd hp (h.no_phase hstate)) (List.suffix_cons _ _)
    (Or.inr ⟨t, _, _, hholder, Function.update_self _ _ _⟩) (recorded_send h.recorded)

theorem inv_validating (h : Inv settings s)
    (hpc : s.pc t = .validating reply (command :: commands)) (hstep : s.proceed settings t answer = some s') :
    Inv settings s' := by
  have hholder : s.holder = some t := by
    have hok := h.threads t
    rwa [hpc] at hok
  have hlock := lock_of_holder hholder
  rw [Shared.proceed, hpc] at hstep
  dsimp only at hstep
  have hvalidated : Quiet (s.conn.validateRedisReply reply command.validTypes).1 ∧
      Recorded settings (s.conn.validateRedisReply reply command.validTypes).1 s.log ∧
      ∀ t', (s.pc t').Phase → Dialing (s.conn.validateRedisReply reply command.validTypes).1 := by
    rw [validateRedisReply]
    by_cases hstate : s.conn.state = .kConnected
    · rw [if_neg (not_not.mpr hstate)]
      exact ⟨quiet_updateState _, recorded_updateState h.recorded (by rw [hstate]; nofun),
        fun t' hp => absurd hp (h.no_phase hstate)⟩
    · rw [if_pos hstate]
      exact ⟨fun hconnected => absurd hconnected hstate, h.recorded, fun t' => (h.threads t').dialing⟩
  obtain ⟨hquiet, hrecorded, hdialing⟩ := hvalidated
  by_cases hnext : ((s.conn.validateRedisReply reply command.validTypes).2 && !commands.isEmpty) = true
  · rw [if_pos hnext] at hstep
    cases hstep
    exact h.locked (p := .ensure commands) hlock rfl hholder nofun (fun t' _ => hdialing t') List.suffix_rfl
      (Or.inl hquiet) hrecorded
  · rw [if_neg hnext] at hstep
    cases hstep
    exact h.leave hlock rfl (fun t' _ => hdialing t') List.suffix_rfl hquiet hrecorded

theorem inv_step {a : Action} (h : Inv settings s) (hsound : s.Undisturbed settings a) (hstep : s.step settings a = some s') : Inv settings s' := by
  cases a with
  | begin t commands =>
    rw [Shared.step] at hstep
    split at hstep
    · split_ifs at hstep with hfree
      cases hstep
      exact inv_begin h (Option.isNone_iff_eq_none.mp (Bool.and_eq_true_iff.mp hfree).1)
    · cases hstep
  | proceed t answer =>
    change s.proceed settings t answer = some s' at hstep
    cases hpc : s.pc t with
    | idle => rw [Shared.proceed, hpc] at hstep; cases hstep
    | ensure commands => exact inv_ensure h hpc hstep
    | connecting commands => exact inv_connecting h hpc hstep
    | authenticating context commands => exact inv_authenticating h hpc hstep
    | relocking locRedis commands => exact inv_relocking h hpc hstep
    | selecting commands => exact inv_selecting h hpc hsound hstep
    | sending commands =>
      cases commands with
      | nil => rw [Shared.proceed, hpc] at hstep; cases hstep
      | cons command commands => exact inv_sending h hpc hstep
    | validating reply commands =>
      cases commands with
      | nil => rw [Shared.proceed, hpc] at hstep; cases hstep
      | cons command commands => exact inv_validating h hpc hstep
  | shutDown =>
    rw [Shared.step] at hstep
    split_ifs at hstep with hfree
    cases hstep
    exact inv_shutDown h (Option.isNone_iff_eq_none.mp hfree)

theorem early_update (hp : ¬ p.Early) (h : (Function.update s.pc t p t').Early) : (s.pc t').Early := by
  rw [Function.update_apply] at h
  split_ifs at h
  · exact absurd h hp
  · exact h

theorem early_fail (h : ((s.fail t commands).pc t').Early) : (s.pc t').Early := by
  cases commands with
  | nil => exact early_update id h
  | cons command commands => exact early_update id h

theorem early_ensured (h : ((s.ensured t commands).pc t').Early) : (s.pc t').Early := by
  cases commands with
  | nil => exact early_update id h
  | cons command commands => exact early_update id h

theorem log_fail : (s.fail t commands).log = s.log := by
  cases commands <;> rfl

theorem log_ensured : (s.ensured t commands).log = s.log := by
  cases commands <;> rfl

structure Quietly (s s' : Shared) : Prop where
  log : s'.log = s.log
  early : ∀ t, (s'.pc t).Early → (s.pc t).Early ∨ s.conn.state = .kDisconnected

def SendsAuth (s s' : Shared) : Prop :=
  ∃ t context commands reply, s.pc t = .authenticating context commands ∧
    s'.log = .sent (some context.id) .auth reply :: s.log

def SendsLive (s s' : Shared) : Prop :=
  ∃ t command reply, ((∃ commands, s.pc t = .selecting commands ∧ command.isData = false) ∨
      ∃ commands, s.pc t = .sending (command :: commands)) ∧
    s'.log = .sent (s.conn.redis.map RedisContext.id) command reply :: s.log

theorem step_cases {a : Action} (hstep : s.step settings a = some s') :
    Quietly s s' ∨ (s'.log = .shutDown :: s.log ∧ s'.pc = s.pc ∧ a = .shutDown) ∨ SendsAuth s s' ∨ SendsLive s s' := by
  cases a with
  | begin t commands =>
    rw [Shared.step] at hstep
    split at hstep
    · split_ifs at hstep
      cases hstep
      exact Or.inl ⟨rfl, fun t' he => Or.inl (early_update id he)⟩
    · cases hstep
  | shutDown =>
    rw [Shared.step] at hstep
    split_ifs at hstep
    cases hstep
    exact Or.inr (Or.inl ⟨rfl, rfl, rfl⟩)
  | proceed t answer =>
    change s.proceed settings t answer = some s' at hstep
    rw [Shared.proceed] at hstep
    cases hpc : s.pc t with
    | idle =>
      rw [hpc] at hstep
      cases hstep
    | ensure commands =>
      rw [hpc] at hstep
      dsimp only at hstep
      rcases s.conn.beginConnection_cases answer.nowMs with ⟨heq, -⟩ | ⟨heq, -⟩ | ⟨heq, hstate⟩
      · rw [heq] at hstep
        cases hstep
        exact Or.inl ⟨rfl, fun t' he => Or.inl (early_update id he)⟩
      · rw [heq] at hstep
        cases hstep
        exact Or.inl ⟨log_fail, fun t' he => Or.inl (early_fail he :)⟩
      · rw [heq] at hstep
        cases hstep
        exact Or.inl ⟨rfl, fun _ _ => Or.inr hstate⟩
    | connecting commands =>
      rw [hpc] at hstep
      dsimp only at hstep
      have hearly : (s.pc t).Early := by rw [hpc]; trivial
      refine Or.inl ⟨?_, fun t' he => Or.inl ?_⟩
      · split_ifs at hstep <;> cases hstep <;> rfl
      · by_cases heq : t' = t
        · exact heq ▸ hearly
        · split_ifs at hstep
          · cases hstep
            simpa [Shared.goto, heq] using he
          · cases hstep
            simpa [Shared.goto, heq] using he
    | authenticating context commands =>
      rw [hpc] at hstep
      cases hstep
      exact Or.inr (Or.inr (Or.inl ⟨t, context, commands, answer.reply, hpc, rfl⟩))
    | relocking locRedis commands =>
      rw [hpc] at hstep
      dsimp only at hstep
      by_cases hfree : s.holder.isSome = true
      · rw [if_pos hfree] at hstep
        cases hstep
      · rw [if_neg hfree] at hstep
        split_ifs at hstep
        · cases hstep
          exact Or.inl ⟨rfl, fun t' he => Or.inl (early_update id he)⟩
        · cases hstep
          exact Or.inl ⟨log_fail, fun t' he => Or.inl (early_fail he :)⟩
    | selecting commands =>
      rw [hpc] at hstep
      dsimp only at hstep
      by_cases hselect : s.conn.mustSelect settings.databaseIndex = true
      · rw [if_pos hselect] at hstep
        refine Or.inr (Or.inr (Or.inr ⟨t, .select settings.databaseIndex, answer.reply, Or.inl ⟨commands, hpc, rfl⟩, ?_⟩))
        split_ifs at hstep
        · cases hstep
          exact log_ensured
        · cases hstep
          exact log_fail
      · rw [if_neg hselect] at hstep
        cases hstep
        exact Or.inl ⟨log_ensured, fun t' he => Or.inl (early_ensured he :)⟩
    | sending commands =>
      cases commands with
      | nil =>
        rw [hpc] at hstep
        cases hstep
      | cons command commands =>
        rw [hpc] at hstep
        cases hstep
        exact Or.inr (Or.inr (Or.inr ⟨t, command, answer.reply, Or.inr ⟨commands, hpc⟩, rfl⟩))
    | validating reply commands =>
      cases commands with
      | nil =>
        rw [hpc] at hstep
        cases hstep
      | cons command commands =>
        rw [hpc] at hstep
        dsimp only at hstep
        split_ifs at hstep
        · cases hstep
          exact Or.inl ⟨rfl, fun t' he => Or.inl (early_update id he)⟩
        · cases hstep
          exact Or.inl ⟨rfl, fun t' he => Or.inl (early_update id he)⟩

def LogEntry.isSent : LogEntry → Bool
  | .sent _ _ _ => true
  | .shutDown => false

structure LogOk (settings : Settings) (s : Shared) : Prop where
  data : ∀ later earlier context command reply, s.log = later ++ .sent context command reply :: earlier →
    command.isData = true → ∃ id, context = some id ∧ Selected settings.databaseIndex id earlier
  after : ∀ later earlier, s.log = later ++ .shutDown :: earlier → ∀ entry ∈ later, entry.isSent = false
  nobody : .shutDown ∈ s.log → ∀ t, ¬ (s.pc t).Early

theorem logOk_quietly (h : Inv settings s) (hl : LogOk settings s) (hq : Quietly s s') : LogOk settings s' := by
  refine ⟨fun later earlier context command reply heq => hl.data later earlier context command reply (hq.log ▸ heq),
    fun later earlier heq => hl.after later earlier (hq.log ▸ heq), fun hmem t he => ?_⟩
  rw [hq.log] at hmem
  rcases hq.early t he with he | hstate
  · exact hl.nobody hmem t he
  · cases hstate.symm.trans (h.recorded.closed hmem)

theorem logOk_shutDown (hl : LogOk settings s) (hlog : s'.log = .shutDown :: s.log) (hpc : s'.pc = s.pc)
    (hsound : ∀ t, ¬ (s.pc t).Early) : LogOk settings s' := by
  refine ⟨fun later earlier context command reply heq hdata => ?_, fun later earlier heq => ?_, fun _ => hpc ▸ hsound⟩
  · rw [hlog, List.cons_eq_append_iff] at heq
    rcases heq with ⟨-, heq⟩ | ⟨later, rfl, heq⟩
    · cases heq
    · exact hl.data later earlier context command reply heq hdata
  · rw [hlog, List.cons_eq_append_iff] at heq
    rcases heq with ⟨rfl, -⟩ | ⟨later, rfl, heq⟩
    · nofun
    · intro entry hmem
      obtain rfl | hmem := List.mem_cons.mp hmem
      · rfl
      · exact hl.after later earlier heq entry hmem

/-- What is sent while nothing is shut down. -/
theorem logOk_sent {context : Option ℕ} (hl : LogOk settings s) (hlog : s'.log = .sent context command reply :: s.log)
    (hopen : LogEntry.shutDown ∉ s.log)
    (hdata : command.isData = true → ∃ id, context = some id ∧ Selected settings.databaseIndex id s.log) :
    LogOk settings s' := by
  have hopen' : LogEntry.shutDown ∉ s'.log := by
    rw [hlog, List.mem_cons]
    rintro (heq | hmem)
    · cases heq
    · exact hopen hmem
  refine ⟨fun later earlier context' command' reply' heq hdata' => ?_, fun later earlier heq => ?_,
    fun hmem => absurd hmem hopen'⟩
  · rw [hlog, List.cons_eq_append_iff] at heq
    rcases heq with ⟨-, heq⟩ | ⟨later, rfl, heq⟩
    · cases heq
      exact hdata hdata'
    · exact hl.data later earlier context' command' reply' heq hdata'
  · exact absurd (heq ▸ List.mem_append_right _ List.mem_cons_self) hopen'

theorem logOk_auth (hl : LogOk settings s) (hsends : SendsAuth s s') : LogOk settings s' := by
  obtain ⟨t, context, commands, reply, hpc, hlog⟩ := hsends
  exact logOk_sent hl hlog (fun hmem => hl.nobody hmem t (by rw [hpc]; trivial)) nofun

theorem logOk_live (h : Inv settings s) (hl : LogOk settings s) (hsends : SendsLive s s') : LogOk settings s' := by
  obtain ⟨t, command, reply, hpc, hlog⟩ := hsends
  have hlive : Live s.conn ∧ (command.isData = true → s.conn.databaseSelected = true) := by
    have hok := h.threads t
    rcases hpc with ⟨commands, hpc, hdata⟩ | ⟨commands, hpc⟩
    · rw [hpc] at hok
      exact ⟨hok.2, fun hdata' => absurd hdata' (by rw [hdata]; exact Bool.false_ne_true)⟩
    · rw [hpc] at hok
      exact ⟨hok.2.1, fun _ => hok.2.2⟩
  obtain ⟨⟨hstate, context, hredis, -⟩, hselected⟩ := hlive
  refine logOk_sent hl hlog (fun hmem => ?_) fun hdata => ?_
  · cases hstate.symm.trans (h.recorded.closed hmem)
  · exact ⟨context.id, by rw [hredis]; rfl, h.recorded.selected (hselected hdata) context hredis⟩

theorem logOk_step {a : Action} (h : Inv settings s) (hl : LogOk settings s) (hsound : s.Undisturbed settings a)
    (hstep : s.step settings a = some s') : LogOk settings s' := by
  rcases step_cases hstep with hquietly | ⟨hlog, hpc, rfl⟩ | hauth | hlive
  · exact logOk_quietly h hl hquietly
  · exact logOk_shutDown hl hlog hpc hsound
  · exact logOk_auth hl hauth
  · exact logOk_live h hl hlive

theorem inv_start (nowMs : ℤ) (connectNow : Bool) : Inv settings (Shared.start nowMs connectNow) where
  threads t := by
    by_cases h : connectNow = true ∧ t = 0
    · obtain ⟨rfl, rfl⟩ := h
      exact rfl
    · have hpc : (Shared.start nowMs connectNow).pc t = .idle := if_neg h
      rw [hpc]
      trivial
  single t t' hphase := by
    by_cases h : connectNow = true ∧ t = 0
    · obtain ⟨rfl, rfl⟩ := h
      exact hphase.elim
    · have hpc : (Shared.start nowMs connectNow).pc t = .idle := if_neg h
      rw [hpc] at hphase
      exact hphase.elim
  quiet := Or.inl nofun
  recorded := ⟨nofun, nofun, nofun, nofun⟩

theorem keys_in_selected_database (settings : Settings) (nowMs : ℤ) (connectNow : Bool) (actions : List Action)
    (hmeets : Machine.Meets (Shared.step settings) (Shared.Undisturbed settings) (Shared.start nowMs connectNow) actions)
    {s : Shared} (hrun : Machine.run (Shared.step settings) (Shared.start nowMs connectNow) actions = some s) :
    (∀ later earlier context command reply, s.log = later ++ .sent context command reply :: earlier →
      command.isData = true → ∃ id, context = some id ∧ Selected settings.databaseIndex id earlier) ∧
    (∀ later earlier, s.log = later ++ .shutDown :: earlier → ∀ entry ∈ later, entry.isSent = false) ∧
    (s.holder = none → s.conn.state = .kConnected →
      ∃ context, s.conn.redis = some context ∧ context.err = false) := by
  have hstep : ∀ (s : Shared) (a : Action) (s' : Shared), s.Undisturbed settings a →
      (Inv settings s ∧ LogOk settings s) → s.step settings a = some s' → Inv settings s' ∧ LogOk settings s' :=
    fun _ _ _ hsound h hstep => ⟨inv_step h.1 hsound hstep, logOk_step h.1 h.2 hsound hstep⟩
  have hempty : LogOk settings (Shared.start nowMs connectNow) :=
    ⟨fun later _ _ _ _ heq => absurd heq (List.append_ne_nil_of_right_ne_nil later (List.cons_ne_nil _ _)).symm,
      fun later _ heq => absurd heq (List.append_ne_nil_of_right_ne_nil later (List.cons_ne_nil _ _)).symm, nofun⟩
  obtain ⟨hinv, hlog⟩ := Machine.run_invariant hstep ⟨inv_start nowMs connectNow, hempty⟩ hmeets hrun
  refine ⟨hlog.data, hlog.after, fun hfree => hinv.quiet.resolve_right ?_⟩
  rintro ⟨_, _, _, hholder, -⟩
  cases hfree.symm.trans hholder

def guardedDatabase : Settings where
  databaseIndex := 1
  authPassword := ascii "password"
  reconnectionDelayMs := 1000
  index_set := by decide
  password_set := by decide

def okReply : Option RedisReply := some { type := .status, str := ascii "OK" }

/-- A start-up that connects, with what the server answers to `SELECT`, and one `GET` after it. -/
def firstGet (selectReply : Option RedisReply) : List Action :=
  [.proceed 0 ⟨0, true, none⟩, .proceed 0 ⟨0, true, none⟩, .proceed 0 ⟨0, true, okReply⟩, .proceed 0 ⟨0, true, none⟩,
    .proceed 0 ⟨0, true, selectReply⟩, .begin 1 [.get (ascii "foo")], .proceed 1 ⟨0, true, none⟩,
    .proceed 1 ⟨0, true, none⟩, .proceed 1 ⟨0, true, none⟩]

def refusal : RedisReply := { type := .error, str := ascii "ERR DB index is out of range" }

def Action.Friendly : Action → Prop
  | .begin _ _ => True
  | .proceed _ answer => ∀ reply ∈ answer.reply, reply.type = .status
  | .shutDown => False

theorem meets_of_friendly {actions : List Action} (h : ∀ a ∈ actions, a.Friendly) :
    Machine.Meets (Shared.step settings) (Shared.Undisturbed settings) s actions := by
  induction actions generalizing s with
  | nil => trivial
  | cons a actions ih =>
    refine ⟨?_, fun _ _ => ih fun b hb => h b (List.mem_cons_of_mem a hb)⟩
    have ha := h a List.mem_cons_self
    cases a with
    | begin t commands => trivial
    | proceed t answer => exact fun _ _ => ha
    | shutDown => cases ha

theorem first_get_in_database :
    ∃ s, Machine.run (Shared.step guardedDatabase) (Shared.start 0 true) (firstGet okReply) = some s ∧
      s.log = [.sent (some 0) (.get (ascii "foo")) none, .sent (some 0) (.select 1) okReply, .sent (some 0) .auth okReply] ∧
      ∃ id, some 0 = some id ∧ Selected 1 id [.sent (some 0) (.select 1) okReply, .sent (some 0) .auth okReply] := by
  have hmeets : Machine.Meets (Shared.step guardedDatabase) (Shared.Undisturbed guardedDatabase) (Shared.start 0 true)
      (firstGet okReply) := by
    apply meets_of_friendly
    simp [firstGet, Action.Friendly, okReply]
  exact ⟨_, rfl, rfl, (keys_in_selected_database guardedDatabase 0 true (firstGet okReply) hmeets rfl).1 [] _ _ _ _ rfl rfl⟩

/-- A `GET` after a refused `SELECT`, and an `AUTH` after the connection is closed. -/
theorem refused_select_and_late_auth :
    (∃ s, Machine.run (Shared.step guardedDatabase) (Shared.start 0 true) (firstGet (some refusal)) = some s ∧
      ∃ reply earlier, s.log = .sent (some 0) (.get (ascii "foo")) reply :: earlier ∧
        ∀ context reply, .sent context (.select 1) (some reply) ∈ earlier → reply.type = .error) ∧
    ∃ s, Machine.run (Shared.step guardedDatabase) (Shared.start 0 true)
        [.proceed 0 ⟨0, true, none⟩, .proceed 0 ⟨0, true, none⟩, .shutDown, .proceed 0 ⟨0, true, okReply⟩] = some s ∧
      s.log = [.sent (some 0) .auth okReply, .shutDown] := by
  refine ⟨⟨_, rfl, _, _, rfl, fun context reply hmem => ?_⟩, _, rfl, rfl⟩
  rcases List.mem_cons.mp hmem with heq | hmem
  · cases heq
    rfl
  · cases List.mem_singleton.mp hmem

end PageSpeed.Redis
