import PageSpeed.Redis.Connection
import PageSpeed.Lib.Checks

/-!
`RedisCache::RedisCommand` with the redirections it follows and the slot
mappings it fetches after them, against servers that answer as they like. Every
command that goes out is counted. A fetch runs through `RedisCommand` again, so
its depth is bounded by fuel.
-/

namespace PageSpeed.Redis

def kMaxRedirections : ℕ := 1

def kRedisTTLNotSet : ℤ := -1

inductive Command where
  | auth
  | select (databaseIndex : ℤ)
  | asking
  | clusterSlots
  | get (key : GoogleString)
  | set (key value : GoogleString)
  | setex (key : GoogleString) (ttlSec : ℤ) (value : GoogleString)
  | del (key : GoogleString)
  deriving DecidableEq

structure Behaviour where
  nowMs : ℕ → ℤ
  connects : ℕ → Bool
  reply : List Command → Connection → Command → Option RedisReply

structure Config where
  authPassword : GoogleString
  reconnectionDelayMs : ℤ
  ttlSec : ℤ
  sort : SlotSort
  crc16 : GoogleString → UInt16

structure World where
  cache : RedisCache
  states : GoogleString → ConnectionState
  asked : ℕ
  sent : List Command

inductive Stop where
  | outOfFuel
  | checkFailed (commands : ℕ)

def Connection.name (conn : Connection) : GoogleString := conn.spec.toString

/-- Whom a reply redirects to, and whether an `ASKING` goes first. -/
def redirection (reply : Option RedisReply) (withAsking : Bool) : ExternalServerSpec × Bool :=
  match reply with
  | none => ({}, withAsking)
  | some reply =>
    if reply.type ≠ .error then ({}, withAsking)
    else if (ascii "MOVED ").isPrefixOf reply.str then (ExternalServerSpec.parseRedirectionError reply.str, false)
    else if (ascii "ASK ").isPrefixOf reply.str then (ExternalServerSpec.parseRedirectionError reply.str, true)
    else ({}, withAsking)

namespace World

variable (b : Behaviour) (config : Config) (w : World) (conn : Connection)

def state : ConnectionState := w.states conn.name

def setState (s : ConnectionState) : World := { w with states := Function.update w.states conn.name s }

def send (command : Command) : World × Option RedisReply :=
  ({ w with sent := command :: w.sent }, b.reply w.sent conn command)

/-- `RedisCommandOnConnection`. -/
def sendOnConnection (command : Command) : World × Option RedisReply :=
  let (w, reply) := w.send b conn command
  (w.setState conn ((w.state conn).answered reply), reply)

def tryConnect : World × Option RedisContext :=
  let connects := b.connects w.asked
  let w := { w with asked := w.asked + 1 }
  if !connects then (w, none)
  else if config.authPassword = [] then (w, some ⟨0, false⟩)
  else
    let (w, reply) := w.send b conn .auth
    (w, if reply.any (fun reply => decide (reply.type = .status)) then some ⟨0, false⟩ else none)

def ensureConnection : World × Bool :=
  let nowMs := b.nowMs w.asked
  let w := { w with asked := w.asked + 1 }
  match (w.state conn).beginConnection nowMs with
  | (_, .connected) => (w, true)
  | (_, .failed) => (w, false)
  | (s, .connecting) =>
    let (w, locRedis) := (w.setState conn s).tryConnect b config conn
    let (s, connected) := (w.state conn).finishConnection (b.nowMs w.asked) locRedis config.reconnectionDelayMs
    (w.setState conn s, connected)

def ensureDatabaseSelection : World × Bool :=
  if (w.state conn).mustSelect conn.databaseIndex then
    let (w, reply) := w.sendOnConnection b conn (.select conn.databaseIndex)
    let (s, selected) := (w.state conn).selected reply
    (w.setState conn s, selected)
  else (w, true)

def ensureConnectionAndDatabaseSelection : World × Bool :=
  match w.ensureConnection b config conn with
  | (w, false) => (w, false)
  | (w, true) => w.ensureDatabaseSelection b conn

/-- `Connection::RedisCommand`. -/
def connectionCommand (command : Command) : World × Option RedisReply :=
  match w.ensureConnectionAndDatabaseSelection b config conn with
  | (w, false) => (w, none)
  | (w, true) => w.sendOnConnection b conn command

def validateRedisReply (reply : Option RedisReply) (validTypes : List ReplyType) : World × Bool :=
  let (s, valid) := (w.state conn).validateRedisReply reply validTypes
  (w.setState conn s, valid)

/-- An `ASK` redirection is followed with an `ASKING` first. -/
def ask (withAsking : Bool) : World × Bool :=
  if withAsking then
    let (w, reply) := w.connectionCommand b config conn .asking
    w.validateRedisReply conn reply [.status]
  else (w, true)

def getOrCreateConnection (spec : ExternalServerSpec) (databaseIndex : ℤ) : Except Stop (World × Option Connection) :=
  match w.cache.getOrCreateConnection spec databaseIndex with
  | none => .error (.checkFailed w.sent.length)
  | some (_, none) => .ok (w, none)
  | some (cache, some conn) =>
    if w.cache.connections.get spec.toString = none then
      let w := { w with cache := cache }.setState conn (ConnectionState.new (b.nowMs w.asked)).startUp
      .ok ((w.ensureConnectionAndDatabaseSelection b config conn).1, some conn)
    else .ok (w, some conn)

def connectAll (w : World) : List ValidatedMapping → Except Stop (World × Option (List ClusterMapping))
  | [] => .ok (w, some [])
  | mapping :: validated =>
    match w.getOrCreateConnection b config mapping.master kDefaultDatabaseIndex with
    | .error stop => .error stop
    | .ok (w, none) => .ok (w, none)
    | .ok (w, some connection) =>
      match w.connectAll validated with
      | .error stop => .error stop
      | .ok (w, mappings) =>
        .ok (w, mappings.map (⟨mapping.startSlotRange, mapping.endSlotRange, connection⟩ :: ·))

/-- `FetchClusterSlotMapping` once it has its reply. -/
def useSlotMapping (reply : Option RedisReply) : Except Stop World :=
  match reply with
  | none => .ok w
  | some reply =>
    match w.cache.validateMappings config.sort reply with
    | .error _ => .ok w
    | .ok validated =>
      match w.connectAll b config validated with
      | .error stop => .error stop
      | .ok (w, none) => .ok w
      | .ok (w, some mappings) => .ok { w with cache := { w.cache with clusterMappings := mappings } }

end World

structure Following where
  world : World
  conn : Option Connection
  reply : Option RedisReply
  redirections : ℕ
  withAsking : Bool
  lastRedirecting : Option Connection

variable (b : Behaviour) (config : Config)

def follow (command : Command) (validTypes : List ReplyType) : ℕ → Following → Except Stop Following
  | 0, f => .ok f
  | rounds + 1, f =>
    match f.conn with
    | none => .ok f
    | some conn =>
      match f.world.ask b config conn f.withAsking with
      | (w, false) => .ok { f with world := w }
      | (w, true) =>
        let (w, reply) := w.connectionCommand b config conn command
        let (redirectedTo, withAsking) := redirection reply f.withAsking
        if redirectedTo.isEmpty then
          let (w, valid) := w.validateRedisReply conn reply validTypes
          .ok { f with world := w, reply := if valid then reply else none, withAsking := withAsking }
        else
          match (w.validateRedisReply conn reply [.error]).1.getOrCreateConnection b config redirectedTo
            kDefaultDatabaseIndex with
          | .error stop => .error stop
          | .ok (w, next) => follow command validTypes rounds ⟨w, next, none, f.redirections + 1, withAsking, some conn⟩

def redisCommand : ℕ → World → Connection → Command → List ReplyType → Except Stop (World × Option RedisReply)
  | 0, _, _, _, _ => .error .outOfFuel
  | fuel + 1, w, conn, command, validTypes =>
    match follow b config command validTypes (kMaxRedirections + 1) ⟨w, some conn, none, 0, false, none⟩ with
    | .error stop => .error stop
    | .ok f =>
      match (if 0 < f.redirections ∧ f.withAsking = false then f.lastRedirecting else none) with
      | none => .ok (f.world, f.reply)
      | some last =>
        -- `FetchClusterSlotMapping`
        match redisCommand fuel f.world last .clusterSlots [.array] with
        | .error stop => .error stop
        | .ok (w, slots) =>
          match w.useSlotMapping b config slots with
          | .error stop => .error stop
          | .ok w => .ok (w, f.reply)

inductive Operation where
  | get (key : GoogleString)
  | put (key value : GoogleString)
  | delete (key : GoogleString)

namespace Operation

def key : Operation → GoogleString
  | .get key => key
  | .put key _ => key
  | .delete key => key

def command : Operation → Command
  | .get key => .get key
  | .put key value => if config.ttlSec = kRedisTTLNotSet then .set key value else .setex key config.ttlSec value
  | .delete key => .del key

def validTypes : Operation → List ReplyType
  | .get _ => [.string, .nil]
  | .put _ _ => [.status]
  | .delete _ => [.integer]

def perform (fuel : ℕ) (w : World) (op : Operation) : Except Stop (World × Option RedisReply) :=
  redisCommand b config fuel w (w.cache.lookupConnection config.crc16 op.key) (op.command config) op.validTypes

end Operation

end PageSpeed.Redis
