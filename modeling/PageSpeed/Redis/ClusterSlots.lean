import PageSpeed.Redis.ExternalServerSpec
import PageSpeed.Lib.Ranges
import PageSpeed.Lib.SortedMap
import Mathlib.Data.Finset.Card

/-!
How `RedisCache` finds the server of a key: the hash slot, the slot ranges that
were read off the last `CLUSTER SLOTS` reply, and the connections that are kept.
A check that fails ends the process, which is `none` here.
-/

namespace PageSpeed.Redis

def kMaxSlot : ℤ := 16383

def kDefaultDatabaseIndex : ℤ := 0

def kMaxClusterConnections : ℕ := 1024

inductive ReplyType where
  | string | array | integer | nil | status | error | double | bool | map | set | attr | push | bignum | verb
  deriving DecidableEq

structure RedisReply where
  type : ReplyType
  integer : ℤ := 0
  str : GoogleString := []
  element : List RedisReply := []

structure Connection where
  spec : ExternalServerSpec
  databaseIndex : ℤ
  deriving DecidableEq

structure ClusterMapping where
  startSlotRange : ℤ
  endSlotRange : ℤ
  connection : Connection
  deriving DecidableEq

structure ValidatedMapping where
  startSlotRange : ℤ
  endSlotRange : ℤ
  master : ExternalServerSpec
  deriving DecidableEq

structure RedisCache where
  connections : SortedMap GoogleString Connection
  clusterMappings : List ClusterMapping
  mainConnection : Connection

structure SlotSort where
  sort : List ValidatedMapping → List ValidatedMapping
  perm : ∀ l, (sort l).Perm l
  sorted : ∀ l, (sort l).Pairwise fun a b => a.startSlotRange ≤ b.startSlotRange

inductive Verdict where
  | accepted
  | rejected (message : Option GoogleString)
  deriving DecidableEq

section HashSlot

variable (crc16 : GoogleString → UInt16)

def hashText (key : GoogleString) : GoogleString :=
  match key.findIdx? (· = 123) with
  | none => key
  | some openCurlyIndex =>
    match (key.drop openCurlyIndex).findIdx? (· = 125) with
    | none => key
    | some distance =>
      let segmentLength := distance - 1
      if 0 < segmentLength then (key.drop (openCurlyIndex + 1)).take segmentLength else key

def hashSlot (key : GoogleString) : ℤ := (crc16 (hashText key) &&& 0x3FFF).toNat

end HashSlot

def readMapping (serverInfo : RedisReply) : Except GoogleString ValidatedMapping :=
  match serverInfo.element with
  | start :: stop :: masterSpec :: _ =>
    if start.type ≠ .integer ∨ stop.type ≠ .integer ∨ masterSpec.type ≠ .array then
      .error (ascii "Wrong type in reply from CLUSTER SLOTS")
    else
      match masterSpec.element with
      | masterIp :: masterPort :: _ =>
        if masterIp.type ≠ .string ∨ masterPort.type ≠ .integer then
          .error (ascii "Wrong type in master spec from CLUSTER SLOTS")
        else if stop.integer < start.integer then
          .error (ascii "Got range with start > end from CLUSTER SLOTS")
        else if start.integer < 0 ∨ kMaxSlot < stop.integer then
          .error (ascii "Got out-of-range slot from CLUSTER SLOTS")
        else if masterIp.str.length = 0 ∨ masterPort.integer < 1 ∨ 65535 < masterPort.integer then
          .error (ascii "Got invalid master address from CLUSTER SLOTS")
        else .ok ⟨start.integer, stop.integer, ⟨cStr masterIp.str, masterPort.integer⟩⟩
      | _ => .error (ascii "Short master spec in reply from CLUSTER SLOTS")
  | _ => .error (ascii "Got short reply for CLUSTER SLOTS")

namespace RedisCache

def size (c : RedisCache) : ℕ := c.connections.entries.length

def startUp (main : ExternalServerSpec) (databaseIndex : ℤ) : Option RedisCache :=
  if main.host = [] ∨ main.port = 0 then none
  else
    let connection : Connection := ⟨main, databaseIndex⟩
    some ⟨SortedMap.empty.insert (fun a b => decide (a < b)) main.toString connection, [], connection⟩

def emplace (c : RedisCache) (name : GoogleString) (connection : Connection) : RedisCache :=
  { c with connections := c.connections.insert (fun a b => decide (a < b)) name connection }

def getOrCreateConnection (c : RedisCache) (spec : ExternalServerSpec) (databaseIndex : ℤ) :
    Option (RedisCache × Option Connection) :=
  let name := spec.toString
  match c.connections.get name with
  | some connection => some (c, some connection)
  | none =>
    if kMaxClusterConnections ≤ c.size then some (c, none)
    else if spec.host = [] ∨ spec.port = 0 then none
    else
      let connection : Connection := ⟨spec, databaseIndex⟩
      some (c.emplace name connection, some connection)

def connectAll (c : RedisCache) : List ValidatedMapping → Option (RedisCache × Option (List ClusterMapping))
  | [] => some (c, some [])
  | mapping :: validated =>
    match c.getOrCreateConnection mapping.master kDefaultDatabaseIndex with
    | none => none
    | some (c, none) => some (c, none)
    | some (c, some connection) =>
      match c.connectAll validated with
      | none => none
      | some (c, mappings) =>
        some (c, mappings.map (⟨mapping.startSlotRange, mapping.endSlotRange, connection⟩ :: ·))

def newServers (c : RedisCache) (validated : List ValidatedMapping) : Finset GoogleString :=
  (validated.map fun mapping => mapping.master.toString).toFinset.filter fun name => c.connections.get name = none

def validateMappings (S : SlotSort) (c : RedisCache) (reply : RedisReply) :
    Except (Option GoogleString) (List ValidatedMapping) :=
  if reply.type ≠ .array then .error none
  else
    match reply.element.mapM readMapping with
    | .error message => .error (some message)
    | .ok mappings =>
      let validated := S.sort mappings
      if Ranges.overlapping ValidatedMapping.startSlotRange ValidatedMapping.endSlotRange validated then
        .error (some (ascii "Redis returned overlapping slot ranges for CLUSTER SLOTS"))
      else if kMaxClusterConnections < c.size + (c.newServers validated).card then
        .error (some (ascii "Too many servers in reply from CLUSTER SLOTS"))
      else .ok validated

def fetchClusterSlotMapping (S : SlotSort) (c : RedisCache) (reply : RedisReply) : Option (RedisCache × Verdict) :=
  match c.validateMappings S reply with
  | .error message => some (c, .rejected message)
  | .ok validated =>
    match c.connectAll validated with
    | none => none
    | some (c, none) => some (c, .rejected (some (ascii "Too many servers in reply from CLUSTER SLOTS")))
    | some (c, some newClusterMappings) => some ({ c with clusterMappings := newClusterMappings }, .accepted)

def lookupConnection (crc16 : GoogleString → UInt16) (c : RedisCache) (key : GoogleString) : Connection :=
  match Ranges.lookup ClusterMapping.startSlotRange ClusterMapping.endSlotRange (hashSlot crc16 key)
    c.clusterMappings with
  | some clusterMapping => clusterMapping.connection
  | none => c.mainConnection

end RedisCache

end PageSpeed.Redis
