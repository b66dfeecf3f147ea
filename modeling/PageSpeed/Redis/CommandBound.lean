import PageSpeed.Redis.RedisCommand
import PageSpeed.Redis.ClusterRouting

/-!
How many commands an operation sends. A slot mapping is fetched through the same
redirecting path, so that the number has a bound exactly if the replies to the
operation, or those to `CLUSTER SLOTS`, cannot lead to a fetch.
-/

namespace PageSpeed.Redis

variable (b : Behaviour) (config : Config) (w : World) (conn : Connection) (command : Command)

namespace World

def potential (w : World) : ℕ := w.sent.length + 2 * (kMaxClusterConnections - w.cache.size)

theorem potential_send : (w.send b conn command).1.potential = w.potential + 1 := by
  simp only [send, potential, List.length_cons]
  omega

theorem potential_sendOnConnection : (w.sendOnConnection b conn command).1.potential = w.potential + 1 :=
  potential_send b w conn command

theorem potential_tryConnect : (w.tryConnect b config conn).1.potential ≤ w.potential + 1 := by
  rw [tryConnect]
  dsimp only
  by_cases hconnects : (!b.connects w.asked) = true
  · rw [if_pos hconnects]
    exact Nat.le_succ _
  · rw [if_neg hconnects]
    split
    · exact Nat.le_succ _
    · exact (potential_send b { w with asked := w.asked + 1 } conn .auth).le

theorem potential_ensureConnection : (w.ensureConnection b config conn).1.potential ≤ w.potential + 1 := by
  rw [ensureConnection]
  dsimp only
  split
  · exact Nat.le_succ _
  · exact Nat.le_succ _
  · rename_i s _
    exact potential_tryConnect b config (setState { w with asked := w.asked + 1 } conn s) conn

theorem potential_ensureDatabaseSelection :
    (w.ensureDatabaseSelection b conn).1.potential ≤ w.potential + 1 := by
  rw [ensureDatabaseSelection]
  split
  · exact (potential_sendOnConnection b w conn (.select conn.databaseIndex)).le
  · exact Nat.le_succ _

theorem potential_ensure :
    (w.ensureConnectionAndDatabaseSelection b config conn).1.potential ≤ w.potential + 2 := by
  have hconnect := potential_ensureConnection b config w conn
  rw [ensureConnectionAndDatabaseSelection]
  split
  · rename_i w₁ heq
    rw [heq] at hconnect
    exact hconnect.trans (Nat.le_succ _)
  · rename_i w₁ heq
    rw [heq] at hconnect
    exact (potential_ensureDatabaseSelection b w₁ conn).trans (Nat.add_le_add_right hconnect 1)

theorem potential_connectionCommand : (w.connectionCommand b config conn command).1.potential ≤ w.potential + 3 := by
  have hensure := potential_ensure b config w conn
  rw [connectionCommand]
  split
  · rename_i w₁ heq
    rw [heq] at hensure
    exact hensure.trans (Nat.le_succ _)
  · rename_i w₁ heq
    rw [heq] at hensure
    rw [potential_sendOnConnection]
    exact Nat.add_le_add_right hensure 1

theorem potential_ask (withAsking : Bool) : (w.ask b config conn withAsking).1.potential ≤ w.potential + 3 := by
  rw [ask]
  split
  · exact potential_connectionCommand b config w conn .asking
  · exact Nat.le_add_right _ _

theorem sent_le_potential : w.sent.length ≤ w.potential := Nat.le_add_right _ _

end World

def Within {α : Type} (limit : ℕ) (world : α → World) : Except Stop α → Prop
  | .ok a => (world a).potential ≤ limit
  | .error .outOfFuel => False
  | .error (.checkFailed commands) => commands ≤ limit

theorem Within.error {α β : Type} {limit limit' : ℕ} {world : α → World} {world' : β → World} {stop : Stop}
    (h : Within limit world (.error stop)) (hle : limit ≤ limit') : Within limit' world' (.error stop) := by
  cases stop with
  | outOfFuel => exact h
  | checkFailed commands => exact Nat.le_trans h hle

theorem Within.mono {α : Type} {limit limit' : ℕ} {world : α → World} {x : Except Stop α} (h : Within limit world x)
    (hle : limit ≤ limit') : Within limit' world x := by
  cases x with
  | error stop => exact h.error hle
  | ok a => exact Nat.le_trans h hle

namespace World

open RedisCache

theorem within_getOrCreate (spec : ExternalServerSpec) (db : ℤ) :
    Within w.potential Prod.fst (w.getOrCreateConnection b config spec db) := by
  rw [getOrCreateConnection]
  split
  · exact sent_le_potential w
  · exact Nat.le_refl _
  · rename_i cache made hmade
    split_ifs with hnew
    · rcases getOrCreateConnection_cases hmade with ⟨_, -, hget, -⟩ | ⟨-, -, hnone, -⟩ | ⟨-, hroom, -, rfl⟩
      · rw [hnew] at hget
        cases hget
      · cases hnone
      · have hstart := potential_ensure b config
          (setState { w with cache := w.cache.emplace spec.toString ⟨spec, db⟩ } made
            (ConnectionState.new (b.nowMs w.asked)).startUp) made
        refine hstart.trans ?_
        simp only [potential, setState, size_emplace hnew]
        omega
    · exact Nat.le_refl _

theorem within_connectAll (validated : List ValidatedMapping) :
    Within w.potential Prod.fst (w.connectAll b config validated) := by
  induction validated generalizing w with
  | nil => exact Nat.le_refl _
  | cons v validated ih =>
    have hmade := within_getOrCreate b config w v.master kDefaultDatabaseIndex
    rw [connectAll]
    split
    · rename_i stop heq
      exact (heq ▸ hmade).error (Nat.le_refl _)
    · rename_i w₁ heq
      rw [heq] at hmade
      exact hmade
    · rename_i w₁ connection heq
      rw [heq] at hmade
      have hrest := ih w₁
      split
      · rename_i stop heq'
        exact (heq' ▸ hrest).error hmade
      · rename_i w₂ mappings heq'
        rw [heq'] at hrest
        exact Nat.le_trans hrest hmade

theorem within_useSlotMapping (reply : Option RedisReply) :
    Within w.potential id (w.useSlotMapping b config reply) := by
  unfold useSlotMapping
  split
  · exact Nat.le_refl _
  · split
    · exact Nat.le_refl _
    · rename_i validated _
      have hall := within_connectAll b config w validated
      split
      · rename_i stop heq
        exact (heq ▸ hall).error (Nat.le_refl _)
      · rename_i w₁ heq
        rw [heq] at hall
        exact hall
      · rename_i w₁ mappings heq
        rw [heq] at hall
        exact hall

end World

open World

theorem within_follow (validTypes : List ReplyType) (rounds : ℕ) (f : Following) :
    Within (f.world.potential + 6 * rounds) Following.world (follow b config command validTypes rounds f) := by
  induction rounds generalizing f with
  | zero => exact Nat.le_refl _
  | succ rounds ih =>
    rw [follow]
    split
    · exact Nat.le_add_right _ _
    · rename_i conn _
      have hask := potential_ask b config f.world conn f.withAsking
      split
      · rename_i w₁ heq
        rw [heq] at hask
        have hask : w₁.potential ≤ f.world.potential + 3 := hask
        change w₁.potential ≤ _
        omega
      · rename_i w₁ heq
        rw [heq] at hask
        have hask : w₁.potential ≤ f.world.potential + 3 := hask
        have hcommand := potential_connectionCommand b config w₁ conn command
        dsimp only
        split
        · change (w₁.connectionCommand b config conn command).1.potential ≤ _
          omega
        · have hmade := within_getOrCreate b config
            ((w₁.connectionCommand b config conn command).1.validateRedisReply conn
              (w₁.connectionCommand b config conn command).2 [.error]).1
            (redirection (w₁.connectionCommand b config conn command).2 f.withAsking).1 kDefaultDatabaseIndex
          change Within (w₁.connectionCommand b config conn command).1.potential _ _ at hmade
          split
          · rename_i stop heq'
            exact (heq' ▸ hmade).error (by omega)
          · rename_i w₂ next heq'
            rw [heq'] at hmade
            have hmade : w₂.potential ≤ (w₁.connectionCommand b config conn command).1.potential := hmade
            refine (ih _).mono ?_
            dsimp only
            omega

def Redirects (reply : Option RedisReply) : Prop := (redirection reply false).1.isEmpty = false

/-- The reply is a `MOVED`. -/
def Moves (reply : Option RedisReply) : Prop := (redirection reply true).2 = false

def Refetches (replies : Set (Option RedisReply)) : Prop :=
  ∃ first ∈ replies, Redirects first ∧ ∃ second ∈ replies, Moves second

theorem redirection_cases (reply : Option RedisReply) :
    (∀ withAsking, redirection reply withAsking = ({}, withAsking)) ∨
      ∃ spec asking, ∀ withAsking, redirection reply withAsking = (spec, asking) := by
  unfold redirection
  cases reply with
  | none => exact Or.inl fun _ => rfl
  | some reply =>
    dsimp only
    split_ifs
    · exact Or.inl fun _ => rfl
    · exact Or.inr ⟨_, _, fun _ => rfl⟩
    · exact Or.inr ⟨_, _, fun _ => rfl⟩
    · exact Or.inl fun _ => rfl

variable {b config command} {replies : Set (Option RedisReply)}

theorem reply_connectionCommand (config : Config) (w : World) (conn : Connection)
    (hreplies : ∀ sent conn, b.reply sent conn command ∈ replies) :
    (w.connectionCommand b config conn command).2 = none ∨ (w.connectionCommand b config conn command).2 ∈ replies := by
  rw [connectionCommand]
  split
  · exact Or.inl rfl
  · exact Or.inr (hreplies _ _)

/-- What the loop keeps: a redirection came from a reply, and the last `MOVED` or `ASK` says what follows. -/
def Traced (replies : Set (Option RedisReply)) (f : Following) : Prop :=
  0 < f.redirections → (∃ first ∈ replies, Redirects first) ∧ (f.withAsking = false → ∃ second ∈ replies, Moves second)

theorem traced_follow (hreplies : ∀ sent conn, b.reply sent conn command ∈ replies) {validTypes : List ReplyType}
    {rounds : ℕ} {f f' : Following} (hf : Traced replies f) (h : follow b config command validTypes rounds f = .ok f') :
    Traced replies f' := by
  induction rounds generalizing f with
  | zero =>
    cases h
    exact hf
  | succ rounds ih =>
    rw [follow] at h
    split at h
    · cases h
      exact hf
    · rename_i conn _
      split at h
      · cases h
        exact hf
      · rename_i w₁ _
        dsimp only at h
        have hreply := reply_connectionCommand config w₁ conn hreplies
        generalize (w₁.connectionCommand b config conn command).2 = reply at h hreply
        rcases redirection_cases reply with hnone | ⟨spec, asking, hspec⟩
        · rw [hnone] at h
          cases h
          exact hf
        · have hmem : reply ∈ replies := by
            refine hreply.resolve_left fun hnone => ?_
            subst hnone
            have htrue : true = asking := congrArg Prod.snd (hspec true)
            have hfalse : false = asking := congrArg Prod.snd (hspec false)
            exact Bool.noConfusion (htrue.trans hfalse.symm)
          have hmoves : asking = false → ∃ second ∈ replies, Moves second := fun hasking =>
            ⟨reply, hmem, by rw [Moves, hspec, hasking]⟩
          rw [hspec] at h
          dsimp only at h
          split at h
          · cases h
            exact fun hpos => ⟨(hf hpos).1, hmoves⟩
          · rename_i hredirects
            split at h
            · cases h
            · have hfirst : ∃ first ∈ replies, Redirects first :=
                ⟨reply, hmem, by rw [Redirects, hspec]; exact Bool.eq_false_iff.mpr hredirects⟩
              exact ih (fun _ => ⟨hfirst, hmoves⟩) h

theorem within_of_not_refetches (config : Config) (hreplies : ∀ sent conn, b.reply sent conn command ∈ replies)
    (h : ¬ Refetches replies) (fuel : ℕ) (w : World) (conn : Connection) (validTypes : List ReplyType) :
    Within (w.potential + 12) Prod.fst (redisCommand b config (fuel + 1) w conn command validTypes) := by
  have hfollow := within_follow b config command validTypes (kMaxRedirections + 1) ⟨w, some conn, none, 0, false, none⟩
  rw [redisCommand]
  split
  · rename_i stop heq
    exact (heq ▸ hfollow).error (Nat.le_refl _)
  · rename_i f heq
    have htraced : Traced replies f := traced_follow hreplies (fun hpos => absurd hpos (Nat.lt_irrefl 0)) heq
    have hnot : ¬ (0 < f.redirections ∧ f.withAsking = false) := by
      rintro ⟨hpos, hasking⟩
      obtain ⟨⟨first, hfirst, hredirects⟩, hmoves⟩ := htraced hpos
      exact h ⟨first, hfirst, hredirects, hmoves hasking⟩
    rw [heq] at hfollow
    rw [if_neg hnot]
    exact hfollow

theorem within_of_slots (hslots : ∀ sent conn, b.reply sent conn .clusterSlots ∈ replies)
    (h : ¬ Refetches replies) (w : World) (conn : Connection) (validTypes : List ReplyType) :
    Within (w.potential + 24) Prod.fst (redisCommand b config 2 w conn command validTypes) := by
  have hfollow := within_follow b config command validTypes (kMaxRedirections + 1) ⟨w, some conn, none, 0, false, none⟩
  rw [redisCommand]
  split
  · rename_i stop heq
    exact (heq ▸ hfollow).error (Nat.add_le_add_left (by decide) w.potential)
  · rename_i f heq
    rw [heq] at hfollow
    have hfollow : f.world.potential ≤ w.potential + 12 := hfollow
    split
    · change f.world.potential ≤ _
      omega
    · rename_i last _
      have hfetch := within_of_not_refetches config hslots h 0 f.world last [.array]
      split
      · rename_i stop heq'
        exact (heq' ▸ hfetch).error (by omega)
      · rename_i w₁ slots heq'
        rw [heq'] at hfetch
        have hfetch : w₁.potential ≤ f.world.potential + 12 := hfetch
        have huse := within_useSlotMapping b config w₁ slots
        split
        · rename_i stop heq''
          exact (heq'' ▸ huse).error (by omega)
        · rename_i w₂ heq''
          rw [heq''] at huse
          have huse : w₂.potential ≤ w₁.potential := huse
          change w₂.potential ≤ _
          omega

section Luring

def ready : ConnectionState := ⟨some ⟨0, false⟩, .kConnected, 0, true⟩

def AllReady (w : World) : Prop := w.states = fun _ => ready

variable {w : World} {conn : Connection}

def World.after (w : World) (command : Command) : World :=
  { w with asked := w.asked + 1, sent := command :: w.sent }

theorem AllReady.after (h : AllReady w) (command : Command) : AllReady (w.after command) := h

theorem AllReady.setState (h : AllReady w) : w.setState conn ready = w := by
  have hupdate : Function.update w.states conn.name ready = w.states :=
    Function.update_eq_iff.mpr ⟨by rw [h], fun _ _ => rfl⟩
  rw [World.setState, hupdate]

theorem AllReady.connectionCommand (h : AllReady w) {reply : RedisReply}
    (hreply : b.reply w.sent conn command = some reply) :
    w.connectionCommand b config conn command = (w.after command, some reply) := by
  have hstate : w.states conn.name = ready := by rw [h]
  have hensure : w.ensureConnectionAndDatabaseSelection b config conn = ({ w with asked := w.asked + 1 }, true) := by
    simp [ensureConnectionAndDatabaseSelection, ensureConnection, ensureDatabaseSelection, World.state, hstate, ready,
      ConnectionState.beginConnection, ConnectionState.mustSelect]
  rw [World.connectionCommand, hensure]
  dsimp only
  rw [sendOnConnection, send]
  dsimp only
  rw [hreply]
  exact congrArg (·, some reply) ((congrArg _ hstate).trans (h.after command).setState)

theorem AllReady.validateRedisReply (h : AllReady w) (reply : RedisReply) (validTypes : List ReplyType) :
    w.validateRedisReply conn (some reply) validTypes = (w, validTypes.contains reply.type) := by
  have hstate : w.states conn.name = ready := by rw [h]
  have hvalidate : (w.state conn).validateRedisReply (some reply) validTypes =
      (ready, validTypes.contains reply.type) := by
    rw [World.state, hstate]
    rfl
  rw [World.validateRedisReply, hvalidate]
  exact congrArg (·, validTypes.contains reply.type) h.setState

structure Luring (first second : RedisReply) (spec : ExternalServerSpec) : Prop where
  named : spec.isEmpty = false
  lures : (∀ withAsking, redirection (some first) withAsking = (spec, false)) ∧ second = first ∨
    (∀ withAsking, redirection (some first) withAsking = (spec, true)) ∧
      ∃ spec', spec'.isEmpty = true ∧ ∀ withAsking, redirection (some second) withAsking = (spec', false)

theorem exists_luring (h : Refetches replies) :
    ∃ first second spec, some first ∈ replies ∧ some second ∈ replies ∧ Luring first second spec := by
  obtain ⟨first, hfirst, hredirects, second, hsecond, hmoves⟩ := h
  cases first with
  | none => cases hredirects
  | some first =>
    cases second with
    | none => cases hmoves
    | some second =>
      rcases redirection_cases (some first) with hnone | ⟨spec, asking, hspec⟩
      · rw [Redirects, hnone] at hredirects
        cases hredirects
      · have hnamed : spec.isEmpty = false := by rwa [Redirects, hspec] at hredirects
        cases asking with
        | false => exact ⟨first, first, spec, hfirst, hfirst, hnamed, Or.inl ⟨hspec, rfl⟩⟩
        | true =>
          rcases redirection_cases (some second) with hnone | ⟨spec', asking', hspec'⟩
          · rw [Moves, hnone] at hmoves
            cases hmoves
          · have hasking : asking' = false := by rwa [Moves, hspec'] at hmoves
            subst hasking
            by_cases hempty : spec'.isEmpty = true
            · exact ⟨first, second, spec, hfirst, hsecond, hnamed, Or.inr ⟨hspec, spec', hempty, hspec'⟩⟩
            · exact ⟨second, second, spec', hsecond, hsecond, Bool.eq_false_iff.mpr hempty, Or.inl ⟨hspec', rfl⟩⟩

structure Lured (b : Behaviour) (command : Command) (first second : RedisReply) : Prop where
  lured : ∀ sent conn, b.reply sent conn command = some (if sent.head? = some .asking then second else first)
  asking : ∀ sent conn, b.reply sent conn .asking = some { type := .status }
  ne : command ≠ .asking

theorem getOrCreate_known (config : Config) {spec : ExternalServerSpec} {next : Connection}
    (hget : w.cache.connections.get spec.toString = some next) :
    w.getOrCreateConnection b config spec kDefaultDatabaseIndex = .ok (w, some next) := by
  have hmade : w.cache.getOrCreateConnection spec kDefaultDatabaseIndex = some (w.cache, some next) := by
    rw [RedisCache.getOrCreateConnection, hget]
  have hknown : ¬ w.cache.connections.get spec.toString = none := by rw [hget]; exact Option.some_ne_none next
  rw [World.getOrCreateConnection, hmade]
  exact if_neg hknown

variable {first second reply : RedisReply} {spec : ExternalServerSpec} {next : Connection} {validTypes : List ReplyType}

theorem follow_redirected {asking : Bool} {rounds redirections : ℕ} {earlier : Option RedisReply}
    {last : Option Connection} (hw : AllReady w) (hreply : b.reply w.sent conn command = some reply)
    (hspec : ∀ withAsking, redirection (some reply) withAsking = (spec, asking)) (hnamed : spec.isEmpty = false)
    (hget : w.cache.connections.get spec.toString = some next) :
    follow b config command validTypes (rounds + 1) ⟨w, some conn, earlier, redirections, false, last⟩ =
      follow b config command validTypes rounds
        ⟨w.after command, some next, none, redirections + 1, asking, some conn⟩ := by
  have hask : w.ask b config conn false = (w, true) := rfl
  have hmade : (w.after command).getOrCreateConnection b config spec kDefaultDatabaseIndex =
      .ok (w.after command, some next) := getOrCreate_known config hget
  rw [follow]
  dsimp only
  rw [hask]
  dsimp only
  rw [hw.connectionCommand hreply, hspec]
  dsimp only
  rw [if_neg (by rw [hnamed]; exact Bool.false_ne_true), (hw.after command).validateRedisReply]
  dsimp only
  rw [hmade]

theorem follow_asked (config : Config) (conn : Connection) (validTypes : List ReplyType) (rounds redirections : ℕ)
    (last : Option Connection) {spec' : ExternalServerSpec} (hb : Lured b command first second) (hw : AllReady w)
    (hspec : ∀ withAsking, redirection (some second) withAsking = (spec', false)) (hempty : spec'.isEmpty = true) :
    ∃ reply, follow b config command validTypes (rounds + 1) ⟨w, some conn, none, redirections, true, last⟩ =
      .ok ⟨(w.after .asking).after command, some conn, reply, redirections, false, last⟩ := by
  have hask : w.ask b config conn true = (w.after .asking, true) := by
    rw [ask, if_pos rfl, hw.connectionCommand (hb.asking _ _)]
    exact (hw.after .asking).validateRedisReply _ _
  have hreply : b.reply (w.after .asking).sent conn command = some second :=
    (hb.lured _ _).trans (congrArg some (if_pos rfl))
  refine ⟨if validTypes.contains second.type then some second else none, ?_⟩
  rw [follow]
  dsimp only
  rw [hask]
  dsimp only
  rw [(hw.after .asking).connectionCommand hreply, hspec]
  dsimp only
  rw [if_pos hempty, ((hw.after .asking).after command).validateRedisReply]

theorem follow_lured (config : Config) (conn : Connection) (validTypes : List ReplyType) (hl : Luring first second spec) (hb : Lured b command first second) (hw : AllReady w)
    (hget : w.cache.connections.get spec.toString = some next) (hhead : w.sent.head? ≠ some .asking) :
    ∃ f last, follow b config command validTypes (kMaxRedirections + 1) ⟨w, some conn, none, 0, false, none⟩ = .ok f ∧
      (0 < f.redirections ∧ f.withAsking = false) ∧ f.lastRedirecting = some last ∧ AllReady f.world ∧
      f.world.cache = w.cache ∧ f.world.sent.head? ≠ some .asking := by
  have hne : (command :: w.sent).head? ≠ some .asking := fun heq => hb.ne (Option.some.inj heq)
  have hfirst : b.reply w.sent conn command = some first := (hb.lured _ _).trans (congrArg some (if_neg hhead))
  rcases hl.lures with ⟨hspec, rfl⟩ | ⟨hspec, spec', hempty, hspec'⟩
  · have hagain : b.reply (w.after command).sent next command = some second :=
      (hb.lured _ _).trans (congrArg some (ite_self second))
    refine ⟨⟨(w.after command).after command, some next, none, 2, false, some next⟩, next, ?_, ⟨Nat.two_pos, rfl⟩, rfl,
      hw, rfl, fun heq => hb.ne (Option.some.inj heq)⟩
    rw [kMaxRedirections, follow_redirected hw hfirst hspec hl.named hget,
      follow_redirected (hw.after command) hagain hspec hl.named hget]
    rfl
  · obtain ⟨reply, hasked⟩ :=
      follow_asked config next validTypes 0 1 (some conn) hb (hw.after command) hspec' hempty
    refine ⟨_, conn, (follow_redirected hw hfirst hspec hl.named hget).trans hasked, ⟨Nat.one_pos, rfl⟩, rfl, hw, rfl,
      fun heq => hb.ne (Option.some.inj heq)⟩

theorem outOfFuel_of_lured {firstSlots secondSlots : RedisReply} {specSlots : ExternalServerSpec}
    {nextSlots : Connection} (hslots : Luring firstSlots secondSlots specSlots)
    (hbslots : Lured b .clusterSlots firstSlots secondSlots) (hl : Luring first second spec)
    (hb : Lured b command first second) (fuel : ℕ) (hw : AllReady w)
    (hget : w.cache.connections.get spec.toString = some next)
    (hgetSlots : w.cache.connections.get specSlots.toString = some nextSlots) (hhead : w.sent.head? ≠ some .asking) :
    redisCommand b config fuel w conn command validTypes = .error .outOfFuel := by
  induction fuel generalizing w conn command validTypes first second spec next with
  | zero => rfl
  | succ fuel ih =>
    obtain ⟨f, last, hfollow, hfetch, hlast, hw', hcache, hhead'⟩ :=
      follow_lured config conn validTypes hl hb hw hget hhead
    have hgetSlots' : f.world.cache.connections.get specSlots.toString = some nextSlots := by rw [hcache, hgetSlots]
    rw [redisCommand, hfollow]
    dsimp only
    rw [if_pos hfetch, hlast]
    dsimp only
    rw [ih hslots hbslots hw' hgetSlots' hgetSlots' hhead']

end Luring

def EndsWithin {α : Type} (n : ℕ) (w : World) : Except Stop (World × α) → Prop
  | .ok (w', _) => w'.sent.length ≤ w.sent.length + n
  | .error .outOfFuel => False
  | .error (.checkFailed commands) => commands ≤ w.sent.length + n

theorem endsWithin_of_within {α : Type} {w : World} {x : Except Stop (World × α)}
    (h : Within (w.potential + 24) Prod.fst x) : EndsWithin (2 * kMaxClusterConnections + 24) w x := by
  have hpotential : w.potential ≤ w.sent.length + 2 * kMaxClusterConnections :=
    Nat.add_le_add_left (Nat.mul_le_mul_left 2 (Nat.sub_le _ _)) _
  cases x with
  | error stop =>
    cases stop with
    | outOfFuel => exact h
    | checkFailed commands =>
      refine Nat.le_trans h ?_
      omega
  | ok result =>
    have hresult : result.1.potential ≤ w.potential + 24 := h
    have hsent := sent_le_potential result.1
    change result.1.sent.length ≤ _
    omega

def luringServers (command : Command) (first second firstSlots secondSlots : RedisReply) : Behaviour where
  nowMs _ := 0
  connects _ := true
  reply sent _ c :=
    if c = command then some (if sent.head? = some .asking then second else first)
    else if c = .clusterSlots then some (if sent.head? = some .asking then secondSlots else firstSlots)
    else some { type := .status }

def mainCache (main : ExternalServerSpec) : RedisCache :=
  ⟨SortedMap.empty.insert (fun a b => decide (a < b)) main.toString ⟨main, 0⟩, [], ⟨main, 0⟩⟩

def luredWorld (main spec specSlots : ExternalServerSpec) : World where
  cache := ((mainCache main).emplace spec.toString ⟨spec, 0⟩).emplace specSlots.toString ⟨specSlots, 0⟩
  states _ := ready
  asked := 0
  sent := []

theorem known_emplace (c : RedisCache) (name : GoogleString) (connection : Connection) {other : GoogleString}
    (h : other = name ∨ ∃ next, c.connections.get other = some next) :
    ∃ next, (c.emplace name connection).connections.get other = some next := by
  rw [RedisCache.emplace, SortedMap.get_insert]
  split_ifs with heq
  · exact ⟨_, rfl⟩
  · exact h.resolve_left heq

theorem command_ne (config : Config) (op : Operation) :
    op.command config ≠ .asking ∧ op.command config ≠ .clusterSlots := by
  cases op with
  | get key => exact ⟨nofun, nofun⟩
  | put key value =>
    rw [Operation.command]
    split_ifs
    · exact ⟨nofun, nofun⟩
    · exact ⟨nofun, nofun⟩
  | delete key => exact ⟨nofun, nofun⟩

theorem perform_lured {first second firstSlots secondSlots : RedisReply} {spec specSlots : ExternalServerSpec}
    (config : Config) (op : Operation) (main : ExternalServerSpec) (fuel : ℕ) (hl : Luring first second spec)
    (hslots : Luring firstSlots secondSlots specSlots) :
    op.perform (luringServers (op.command config) first second firstSlots secondSlots) config fuel
      (luredWorld main spec specSlots) = .error .outOfFuel := by
  obtain ⟨hasking, hclusterSlots⟩ := command_ne config op
  have hb : Lured (luringServers (op.command config) first second firstSlots secondSlots) (op.command config) first
      second := by
    refine ⟨fun sent conn => if_pos rfl, fun sent conn => ?_, hasking⟩
    exact (if_neg hasking.symm).trans (if_neg nofun)
  have hbslots : Lured (luringServers (op.command config) first second firstSlots secondSlots) .clusterSlots firstSlots
      secondSlots :=
    ⟨fun sent conn => (if_neg hclusterSlots.symm).trans (if_pos rfl), hb.asking, nofun⟩
  have hknown := known_emplace (mainCache main) spec.toString ⟨spec, 0⟩ (Or.inl rfl)
  obtain ⟨next, hget⟩ := known_emplace _ specSlots.toString ⟨specSlots, 0⟩ (Or.inr hknown)
  obtain ⟨nextSlots, hgetSlots⟩ := known_emplace ((mainCache main).emplace spec.toString ⟨spec, 0⟩) specSlots.toString
    ⟨specSlots, 0⟩ (Or.inl rfl)
  exact outOfFuel_of_lured hslots hbslots hl hb fuel rfl hget hgetSlots nofun

/-- The number of commands is bounded, whatever else is replied, exactly where the replies to the operation or those to
`CLUSTER SLOTS` cannot lead to a fetch. -/
theorem commands_bounded_iff (config : Config) (op : Operation) (opReplies slotsReplies : Set (Option RedisReply)) :
    (∃ n, ∀ b : Behaviour, (∀ sent conn, b.reply sent conn (op.command config) ∈ opReplies) →
      (∀ sent conn, b.reply sent conn .clusterSlots ∈ slotsReplies) →
      ∀ w, ∃ fuel, EndsWithin n w (op.perform b config fuel w)) ↔
    ¬ Refetches opReplies ∨ ¬ Refetches slotsReplies := by
  constructor
  · rintro ⟨n, hbounded⟩
    by_contra hboth
    rw [not_or, not_not, not_not] at hboth
    obtain ⟨first, second, spec, hfirst, hsecond, hl⟩ := exists_luring hboth.1
    obtain ⟨firstSlots, secondSlots, specSlots, hfirstSlots, hsecondSlots, hslots⟩ := exists_luring hboth.2
    obtain ⟨fuel, hends⟩ := hbounded (luringServers (op.command config) first second firstSlots secondSlots)
      (fun sent conn => by
        change (if _ then _ else _) ∈ opReplies
        rw [if_pos rfl]
        split_ifs
        · exact hsecond
        · exact hfirst)
      (fun sent conn => by
        change (if _ then _ else _) ∈ slotsReplies
        rw [if_neg (command_ne config op).2.symm, if_pos rfl]
        split_ifs
        · exact hsecondSlots
        · exact hfirstSlots)
      (luredWorld RedisCache.mainServer spec specSlots)
    rw [perform_lured config op RedisCache.mainServer fuel hl hslots] at hends
    exact hends
  · intro hno
    refine ⟨2 * kMaxClusterConnections + 24, fun b hop hslots w => ?_⟩
    rcases hno with hno | hno
    · exact ⟨1, endsWithin_of_within ((within_of_not_refetches config hop hno 0 w _ _).mono (by omega))⟩
    · exact ⟨2, endsWithin_of_within (within_of_slots hslots hno w _ _)⟩

def plainConfig : Config where
  authPassword := []
  reconnectionDelayMs := 1000
  ttlSec := kRedisTTLNotSet
  sort := RedisCache.insertionSort
  crc16 _ := 44950

def movedToItself : RedisReply := { type := .error, str := ascii "MOVED 12182 127.0.0.1:6379" }

theorem get_never_returns :
    ¬ ∃ n, ∀ (b : Behaviour) (config : Config) (op : Operation) (w : World),
      ∃ fuel, EndsWithin n w (op.perform b config fuel w) := by
  rintro ⟨n, hbounded⟩
  obtain ⟨fuel, hends⟩ := hbounded
    (luringServers (.get (ascii "foo")) movedToItself movedToItself movedToItself movedToItself) plainConfig
    (.get (ascii "foo")) (luredWorld RedisCache.mainServer RedisCache.mainServer RedisCache.mainServer)
  have hl : Luring movedToItself movedToItself RedisCache.mainServer :=
    ⟨by decide, Or.inl ⟨fun withAsking => by cases withAsking <;> decide, rfl⟩⟩
  have hlost := perform_lured plainConfig (.get (ascii "foo")) RedisCache.mainServer fuel hl hl
  rw [Operation.command] at hlost
  rw [hlost] at hends
  exact hends

end PageSpeed.Redis
