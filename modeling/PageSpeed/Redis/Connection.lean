import PageSpeed.Redis.ClusterSlots

/-!
`RedisCache::Connection`, in the pieces that run while its mutexes are held:
the state of the physical connection, and what a reply or the lack of one does
to it. A context that gave no reply has its error flag set.
-/

namespace PageSpeed.Redis

def kRedisDatabaseIndexNotSet : ℤ := -1

inductive State where
  | kShutDown | kDisconnected | kConnecting | kConnected
  deriving DecidableEq

structure RedisContext where
  id : ℕ
  err : Bool
  deriving DecidableEq

structure ConnectionState where
  redis : Option RedisContext
  state : State
  nextReconnectAtMs : ℤ
  databaseSelected : Bool
  deriving DecidableEq

inductive Ensured where
  | connected | connecting | failed
  deriving DecidableEq

namespace ConnectionState

variable (s : ConnectionState) (nowMs : ℤ)

def new : ConnectionState := ⟨none, .kShutDown, nowMs, false⟩

def startUp : ConnectionState := { s with state := .kDisconnected }

def shutDown : ConnectionState :=
  if s.state = .kShutDown then s else { s with redis := none, state := .kShutDown, databaseSelected := false }

def isHealthyLockHeld : Bool :=
  match s.state with
  | .kShutDown => false
  | .kDisconnected => decide (s.nextReconnectAtMs ≤ nowMs)
  | .kConnecting => false
  | .kConnected => true

def updateState : ConnectionState :=
  match s.redis with
  | some context => if context.err then { s with redis := none, state := .kDisconnected } else { s with state := .kConnected }
  | none => { s with state := .kDisconnected }

/-- `EnsureConnection` up to where it gives the mutex away. -/
def beginConnection : ConnectionState × Ensured :=
  if s.state = .kConnected then (s, .connected)
  else if !s.isHealthyLockHeld nowMs then (s, .failed)
  else ({ s with redis := none, state := .kConnecting, databaseSelected := false }, .connecting)

/-- `EnsureConnection` from where it has the mutex back. A connection that comes too late is dropped. -/
def finishConnection (locRedis : Option RedisContext) (delayMs : ℤ) : ConnectionState × Bool :=
  let s :=
    if s.state = .kConnecting then
      updateState { s with
        redis := locRedis
        nextReconnectAtMs := if locRedis = none then nowMs + delayMs else nowMs }
    else s
  (s, decide (s.state = .kConnected))

def mustSelect (databaseIndex : ℤ) : Bool :=
  decide (databaseIndex ≠ kRedisDatabaseIndexNotSet) && !s.databaseSelected

def answered (reply : Option RedisReply) : ConnectionState :=
  if reply.isNone then { s with redis := s.redis.map fun context => { context with err := true } } else s

/-- Any reply to `SELECT` counts. -/
def selected (reply : Option RedisReply) : ConnectionState × Bool :=
  if reply.isNone then ({ s with state := .kDisconnected, redis := none }, false)
  else ({ s with databaseSelected := true }, true)

def validateRedisReply (reply : Option RedisReply) (validTypes : List ReplyType) : ConnectionState × Bool :=
  if s.state ≠ .kConnected then (s, false)
  else (s.updateState, reply.any fun reply => validTypes.contains reply.type)

end ConnectionState

end PageSpeed.Redis
