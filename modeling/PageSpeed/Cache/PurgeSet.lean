import PageSpeed.Cache.LRUCacheBase

/-!
The purge records of `kernel/cache/purge_set.cc`. An operation is `none` where
the `int64` subtraction in `SanitizeTimestamp` overflows, which C++ leaves
undefined; everywhere else it has the result of the source.
-/

namespace PageSpeed

def int64Sub (a b : Int64) : Option Int64 :=
  if (a - b).toInt = a.toInt - b.toInt then some (a - b) else none

structure PurgeSet where
  globalInvalidationTimestampMs : Int64
  lastInvalidationTimestampMs : Int64
  lru : LRUCacheBase Int64

namespace PurgeSet

def clockSkewAllowanceMs : Int64 := 10 * 60 * 1000

def initialTimestampMs : Int64 := -1

def invalidationTimestampHelper : ValueHelper Int64 Int64 where
  size := fun _ => 8
  equal := fun a b => a == b
  evictNotify := fun evicted global => stdMax evicted global
  shouldReplace := fun old new => decide (old < new)

def new (maxSize : ℕ) : PurgeSet := ⟨initialTimestampMs, 0, .new maxSize⟩

inductive Sanitized where
  | accepted (lastMs timestampMs : Int64)
  | rejected
deriving DecidableEq

def sanitizeTimestamp (lastMs timestampMs : Int64) : Option Sanitized :=
  (int64Sub lastMs timestampMs).map fun amountInPastMs =>
    if amountInPastMs ≤ 0 then .accepted timestampMs timestampMs
    else if amountInPastMs ≤ clockSkewAllowanceMs then .accepted lastMs lastMs
    else .rejected

def put (s : PurgeSet) (key : GoogleString) (timestampMs : Int64) : Option (Bool × PurgeSet) :=
  (sanitizeTimestamp s.lastInvalidationTimestampMs timestampMs).map fun
    | .rejected => (true, s)
    | .accepted lastMs timestampMs =>
      let s := { s with lastInvalidationTimestampMs := lastMs }
      if s.globalInvalidationTimestampMs < timestampMs then
        let (lru, global) :=
          s.lru.put invalidationTimestampHelper key timestampMs s.globalInvalidationTimestampMs
        (true, { s with lru := lru, globalInvalidationTimestampMs := global })
      else (true, s)

def updateGlobalInvalidationTimestampMs (s : PurgeSet) (timestampMs : Int64) : Option (Bool × PurgeSet) :=
  (sanitizeTimestamp s.lastInvalidationTimestampMs timestampMs).map fun
    | .rejected => (false, s)
    | .accepted lastMs timestampMs => (true, { s with
        lastInvalidationTimestampMs := lastMs
        globalInvalidationTimestampMs := stdMax timestampMs s.globalInvalidationTimestampMs })

/-- The records of `MergeContext`: those of both sets above the merged global
timestamp, a record of `s` before one of `src` of the same time. -/
def mergeContext (s src : PurgeSet) (global : Int64) : List (GoogleString × Int64) :=
  (s.lru.entries.merge src.lru.entries fun a b => !decide (b.2 < a.2)).filter fun e => decide (global < e.2)

def putAll (s : PurgeSet) : List (GoogleString × Int64) → Option PurgeSet
  | [] => some s
  | e :: es => (s.put e.1 e.2).bind fun r => r.2.putAll es

def merge (s src : PurgeSet) : Option PurgeSet :=
  let global := stdMax s.globalInvalidationTimestampMs src.globalInvalidationTimestampMs
  putAll ⟨global, global, s.lru.clear.clearStats⟩ (mergeContext s src global)

def isValid (s : PurgeSet) (key : GoogleString) (timestampMs : Int64) : Bool :=
  if timestampMs ≤ s.globalInvalidationTimestampMs then false
  else match (s.lru.getNoFreshen key).1 with
    | none => true
    | some purgeTimestampMs => decide (purgeTimestampMs < timestampMs)

inductive Op where
  | put (key : GoogleString) (timestampMs : Int64)
  | updateGlobal (timestampMs : Int64)
  | merge (src : PurgeSet)

def Op.apply (s : PurgeSet) : Op → Option PurgeSet
  | .put key timestampMs => (s.put key timestampMs).map Prod.snd
  | .updateGlobal timestampMs => (s.updateGlobalInvalidationTimestampMs timestampMs).map Prod.snd
  | .merge src => s.merge src

inductive Reachable (maxSize : ℕ) : PurgeSet → Prop where
  | new : Reachable maxSize (.new maxSize)
  | put {s t key timestampMs} (hs : Reachable maxSize s)
      (h : (Op.put key timestampMs).apply s = some t) : Reachable maxSize t
  | updateGlobal {s t timestampMs} (hs : Reachable maxSize s)
      (h : (Op.updateGlobal timestampMs).apply s = some t) : Reachable maxSize t
  | merge {s t src} (hs : Reachable maxSize s) (hsrc : Reachable maxSize src)
      (h : (Op.merge src).apply s = some t) : Reachable maxSize t

end PurgeSet

end PageSpeed
