import PageSpeed.Redis.RedisCommand
import PageSpeed.Lib.Machine

/-!
Threads that use one connection. A thread holds `redis_mutex_` from where its
operation begins to where it ends, except while it connects. What is sent is
kept in a log, the newest entry first, with the physical connection it went out
on.
-/

namespace PageSpeed.Redis

inductive LogEntry where
  | sent (context : Option ℕ) (command : Command) (reply : Option RedisReply)
  | shutDown

inductive Pc where
  | idle
  | ensure (commands : List Command)
  | connecting (commands : List Command)
  | authenticating (context : RedisContext) (commands : List Command)
  | relocking (locRedis : Option RedisContext) (commands : List Command)
  | selecting (commands : List Command)
  | sending (commands : List Command)
  | validating (reply : Option RedisReply) (commands : List Command)

structure Settings where
  databaseIndex : ℤ
  authPassword : GoogleString
  reconnectionDelayMs : ℤ
  index_set : databaseIndex ≠ kRedisDatabaseIndexNotSet
  password_set : authPassword ≠ []

structure Shared where
  conn : ConnectionState
  holder : Option ℕ
  pc : ℕ → Pc
  nextContext : ℕ
  log : List LogEntry

structure Answer where
  nowMs : ℤ
  connects : Bool
  reply : Option RedisReply

inductive Action where
  | begin (thread : ℕ) (commands : List Command)
  | proceed (thread : ℕ) (answer : Answer)
  | shutDown

namespace Command

def isData : Command → Bool
  | .get _ => true
  | .set _ _ => true
  | .setex _ _ _ => true
  | .del _ => true
  | _ => false

def validTypes : Command → List ReplyType
  | .get _ => [.string, .nil]
  | .set _ _ => [.status]
  | .setex _ _ _ => [.status]
  | .del _ => [.integer]
  | .asking => [.status]
  | .clusterSlots => [.array]
  | _ => []

end Command

/-- A command of the cache, behind an `ASKING` where it follows a redirection. -/
def isOperation : List Command → Bool
  | [command] => command.isData || decide (command = .clusterSlots)
  | [.asking, command] => command.isData || decide (command = .clusterSlots)
  | _ => false

namespace Shared

variable (settings : Settings) (s : Shared) (t : ℕ)

def goto (pc : Pc) : Shared := { s with pc := Function.update s.pc t pc }

def leave : Shared := { s with holder := none, pc := Function.update s.pc t .idle }

def send (command : Command) (reply : Option RedisReply) : Shared :=
  { s with
    conn := s.conn.answered reply
    log := .sent (s.conn.redis.map RedisContext.id) command reply :: s.log }

/-- `RedisCommand` gives no reply, and a start-up is over. -/
def fail : List Command → Shared
  | [] => s.leave t
  | command :: commands => s.goto t (.validating none (command :: commands))

def ensured : List Command → Shared
  | [] => s.leave t
  | command :: commands => s.goto t (.sending (command :: commands))

def proceed (answer : Answer) : Option Shared :=
  match s.pc t with
  | .idle => none
  | .ensure commands =>
    match s.conn.beginConnection answer.nowMs with
    | (_, .connected) => some (s.goto t (.selecting commands))
    | (_, .failed) => some (s.fail t commands)
    | (conn, .connecting) => some (goto { s with conn := conn, holder := none } t (.connecting commands))
  | .connecting commands =>
    if answer.connects then
      some (goto { s with nextContext := s.nextContext + 1 } t (.authenticating ⟨s.nextContext, false⟩ commands))
    else some (s.goto t (.relocking none commands))
  | .authenticating context commands =>
    let accepted := answer.reply.any fun reply => decide (reply.type = .status)
    some (goto { s with log := .sent (some context.id) .auth answer.reply :: s.log } t
      (.relocking (if accepted then some context else none) commands))
  | .relocking locRedis commands =>
    if s.holder.isSome then none
    else
      let (conn, connected) := s.conn.finishConnection answer.nowMs locRedis settings.reconnectionDelayMs
      let s := { s with conn := conn, holder := some t }
      some (if connected then s.goto t (.selecting commands) else s.fail t commands)
  | .selecting commands =>
    if s.conn.mustSelect settings.databaseIndex then
      let s := s.send (.select settings.databaseIndex) answer.reply
      let (conn, selected) := s.conn.selected answer.reply
      let s := { s with conn := conn }
      some (if selected then s.ensured t commands else s.fail t commands)
    else some (s.ensured t commands)
  | .sending [] => none
  | .sending (command :: commands) =>
    some ((s.send command answer.reply).goto t (.validating answer.reply (command :: commands)))
  | .validating _ [] => none
  | .validating reply (command :: commands) =>
    let (conn, valid) := s.conn.validateRedisReply reply command.validTypes
    let s := { s with conn := conn }
    some (if valid && !commands.isEmpty then s.goto t (.ensure commands) else s.leave t)

def step : Action → Option Shared
  | .begin t commands =>
    match s.pc t with
    | .idle =>
      if s.holder.isNone && isOperation commands then some (goto { s with holder := some t } t (.ensure commands))
      else none
    | _ => none
  | .proceed t answer => s.proceed settings t answer
  | .shutDown =>
    if s.holder.isNone then some { s with conn := s.conn.shutDown, log := .shutDown :: s.log } else none

/-- The connection when `StartUp` has its mutex, or is done if it does not connect. -/
def start (nowMs : ℤ) (connectNow : Bool) : Shared where
  conn := (ConnectionState.new nowMs).startUp
  holder := if connectNow then some 0 else none
  pc t := if connectNow ∧ t = 0 then .ensure [] else .idle
  nextContext := 0
  log := []

end Shared

end PageSpeed.Redis
