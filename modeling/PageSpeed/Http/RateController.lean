import PageSpeed.Base.Ascii
import PageSpeed.Lib.Machine

/-!
`net/instaweb/http/rate_controller.cc`. Code outside the controller (the base
fetcher, the callbacks of a fetch) may call it again on the same thread, so a
thread is a stack of calls, the innermost first; each call is where it stands
between two critical sections. An `external` call is one of the code outside.
-/

namespace PageSpeed.RateController

structure AsyncFetch where
  id : ℕ
  url : GoogleString
  isBackgroundFetch : Bool
  deriving DecidableEq

structure CustomFetch where
  fetchInfo : ℕ
  fetch : AsyncFetch
  deriving DecidableEq

inductive BaseFetch where
  | direct (fetch : AsyncFetch)
  | custom (wrapper : CustomFetch)
  deriving DecidableEq

inductive Outcome where
  | fetched (success : Bool)
  | loadShed
  | shutDown
  deriving DecidableEq

structure HostFetchInfo where
  host : GoogleString
  numOutboundFetches : ℤ
  fetchQueue : List AsyncFetch

structure Settings where
  maxGlobalQueueSize : ℕ
  perHostOutgoingRequestThreshold : ℕ
  perHostQueuedRequestThreshold : ℕ
  queue_le : perHostQueuedRequestThreshold ≤ maxGlobalQueueSize
  webHost : GoogleString → Option GoogleString

inductive Frame where
  | external
  | fetch (fetch : AsyncFetch)
  | chargeOrQueue (fetch : AsyncFetch) (host : GoogleString)
  | handOff (fetch : BaseFetch)
  | drop (fetch : AsyncFetch) (info : ℕ)
  | deleteFetchInfo (info : ℕ)
  | handleDone (wrapper : CustomFetch) (success : Bool)
  | decrement (info : ℕ)
  | popNext (info : ℕ)
  | checkShutDown (info : ℕ) (fetch : AsyncFetch)
  | schedule (info : ℕ) (fetch : AsyncFetch)
  | startPending
  | dropQueued (info : ℕ) (fetch : AsyncFetch)
  | releaseSlot (info : ℕ)
  | popDropped (info : ℕ)
  deriving DecidableEq

structure Thread where
  stack : List Frame
  pendingStarts : Option (List CustomFetch)

end RateController

open RateController

structure RateController where
  fetchInfoMap : GoogleString → Option ℕ
  numInfos : ℕ
  infos : ℕ → HostFetchInfo
  currentGlobalFetchQueueSize : ℤ
  isShutDown : Bool
  outstanding : List BaseFetch
  asked : List AsyncFetch
  started : List AsyncFetch
  queued : List AsyncFetch
  dequeued : List AsyncFetch
  completed : List (AsyncFetch × Outcome)

namespace RateController

def BaseFetch.fetch : BaseFetch → AsyncFetch
  | .direct fetch => fetch
  | .custom wrapper => wrapper.fetch

def HostFetchInfo.anyInFlightOrQueuedFetches (info : HostFetchInfo) : Bool :=
  decide (0 < info.numOutboundFetches) || !info.fetchQueue.isEmpty

def new : RateController where
  fetchInfoMap _ := none
  numInfos := 0
  infos _ := ⟨[], 0, []⟩
  currentGlobalFetchQueueSize := 0
  isShutDown := false
  outstanding := []
  asked := []
  started := []
  queued := []
  dequeued := []
  completed := []

variable (settings : Settings) (c : RateController)

def setInfo (i : ℕ) (info : HostFetchInfo) : RateController := { c with infos := Function.update c.infos i info }

def charge (i : ℕ) (n : ℤ) : RateController :=
  c.setInfo i { c.infos i with numOutboundFetches := (c.infos i).numOutboundFetches + n }

def addToGlobalQueueSize (n : ℤ) : RateController :=
  { c with currentGlobalFetchQueueSize := c.currentGlobalFetchQueueSize + n }

def complete (fetch : AsyncFetch) (outcome : Outcome) : RateController :=
  { c with completed := c.completed ++ [(fetch, outcome)] }

def handOver (fetch : BaseFetch) : RateController :=
  { c with outstanding := fetch :: c.outstanding, started := c.started ++ [fetch.fetch] }

def hostOf (url : GoogleString) : Option GoogleString := (settings.webHost url).map (List.map lowerChar)

def insertFetchInfo (host : GoogleString) : RateController :=
  { c with
    fetchInfoMap := Function.update c.fetchInfoMap host (some c.numInfos)
    numInfos := c.numInfos + 1
    infos := Function.update c.infos c.numInfos ⟨host, 0, []⟩ }

def findOrInsert (host : GoogleString) : RateController × ℕ :=
  match c.fetchInfoMap host with
  | some i => (c, i)
  | none => (c.insertFetchInfo host, c.numInfos)

def canTriggerFetch (i : ℕ) : Bool :=
  decide ((c.infos i).numOutboundFetches < settings.perHostOutgoingRequestThreshold)

def canEnqueue (i : ℕ) : Bool :=
  decide (c.currentGlobalFetchQueueSize < settings.maxGlobalQueueSize) &&
    decide ((c.infos i).fetchQueue.length < settings.perHostQueuedRequestThreshold)

def enqueueFetch (i : ℕ) (fetch : AsyncFetch) : RateController :=
  addToGlobalQueueSize { c.setInfo i { c.infos i with fetchQueue := (c.infos i).fetchQueue ++ [fetch] } with
    queued := c.queued ++ [fetch] } 1

/-- The critical section of `Fetch`, on the entry of the host. -/
def chargeOrQueueAt (fetch : AsyncFetch) (i : ℕ) : RateController × List Frame :=
  if !fetch.isBackgroundFetch || c.canTriggerFetch settings i then (c.charge i 1, [.handOff (.custom ⟨i, fetch⟩)])
  else if c.canEnqueue settings i then (c.enqueueFetch i fetch, [])
  else (c, [.drop fetch i])

def chargeOrQueue (fetch : AsyncFetch) (host : GoogleString) : RateController × List Frame :=
  let (c, i) := c.findOrInsert host
  c.chargeOrQueueAt settings fetch i

def popNextFetchAndIncrementCountIfWithinThreshold (i : ℕ) : RateController × Option AsyncFetch :=
  match (c.infos i).fetchQueue with
  | [] => (c, none)
  | fetch :: rest =>
    if c.canTriggerFetch settings i then
      ({ c.setInfo i { c.infos i with
            fetchQueue := rest
            numOutboundFetches := (c.infos i).numOutboundFetches + 1 } with
          dequeued := c.dequeued ++ [fetch] }, some fetch)
    else (c, none)

def deleteFetchInfoIfPossible (i : ℕ) : RateController :=
  if (c.infos i).anyInFlightOrQueuedFetches then c
  else { c with fetchInfoMap := Function.update c.fetchInfoMap (c.infos i).host none }

def exec (pending : Option (List CustomFetch)) : Frame → RateController × Option (List CustomFetch) × List Frame
  | .external => (c, pending, [])
  | .fetch fetch =>
    if c.isShutDown then (c.complete fetch .shutDown, pending, [.external])
    else
      match hostOf settings fetch.url with
      | none => (c, pending, [.handOff (.direct fetch)])
      | some host => (c, pending, [.chargeOrQueue fetch host])
  | .chargeOrQueue fetch host =>
    let (c, frames) := c.chargeOrQueue settings fetch host
    (c, pending, frames)
  | .handOff fetch => (c.handOver fetch, pending, [.external])
  | .drop fetch i => (c.complete fetch .loadShed, pending, [.external, .deleteFetchInfo i])
  | .deleteFetchInfo i => (c.deleteFetchInfoIfPossible i, pending, [])
  | .handleDone wrapper success =>
    (c.complete wrapper.fetch (.fetched success), pending, [.external, .decrement wrapper.fetchInfo])
  | .decrement i => (c.charge i (-1), pending, [.popNext i])
  | .popNext i =>
    match c.popNextFetchAndIncrementCountIfWithinThreshold settings i with
    | (c, none) => (c, pending, [.deleteFetchInfo i])
    | (c, some fetch) => (c, pending, [.checkShutDown i fetch])
  | .checkShutDown i fetch => (c, pending, [if c.isShutDown then .dropQueued i fetch else .schedule i fetch])
  | .schedule i fetch =>
    let c := c.addToGlobalQueueSize (-1)
    match pending with
    | some starts => (c, some (starts ++ [⟨i, fetch⟩]), [])
    | none => (c, some [⟨i, fetch⟩], [.startPending])
  | .startPending =>
    match pending with
    | some (start :: rest) => (c.handOver (.custom start), some rest, [.external, .startPending])
    | _ => (c, none, [])
  | .dropQueued i fetch =>
    ((c.addToGlobalQueueSize (-1)).complete fetch .shutDown, pending, [.external, .releaseSlot i])
  | .releaseSlot i => (c.charge i (-1), pending, [.popDropped i])
  | .popDropped i =>
    match c.popNextFetchAndIncrementCountIfWithinThreshold settings i with
    | (c, none) => (c, pending, [.deleteFetchInfo i])
    | (c, some fetch) => (c, pending, [.dropQueued i fetch])

def finish (fetch : BaseFetch) (success : Bool) : RateController × List Frame :=
  let c := { c with outstanding := c.outstanding.erase fetch }
  match fetch with
  | .direct fetch => (c.complete fetch (.fetched success), [.external])
  | .custom wrapper => (c, [.handleDone wrapper success])

structure State where
  controller : RateController
  threads : List Thread

inductive Action where
  | call (thread : ℕ) (fetch : AsyncFetch)
  | finish (thread : ℕ) (fetch : BaseFetch) (success : Bool)
  | proceed (thread : ℕ)
  | shutDown

def Thread.isOutside (thread : Thread) : Bool :=
  match thread.stack with
  | [] => true
  | .external :: _ => true
  | _ => false

def step (s : State) : Action → Option State
  | .call t fetch =>
    match s.threads[t]? with
    | some thread =>
      if thread.isOutside && !s.controller.asked.contains fetch then
        some ⟨{ s.controller with asked := s.controller.asked ++ [fetch] },
          s.threads.set t { thread with stack := .fetch fetch :: thread.stack }⟩
      else none
    | none => none
  | .finish t fetch success =>
    match s.threads[t]? with
    | some thread =>
      if thread.isOutside && s.controller.outstanding.contains fetch then
        let (c, frames) := s.controller.finish fetch success
        some ⟨c, s.threads.set t { thread with stack := frames ++ thread.stack }⟩
      else none
    | none => none
  | .proceed t =>
    match s.threads[t]? with
    | some ⟨frame :: stack, pending⟩ =>
      let (c, pending, frames) := s.controller.exec settings pending frame
      some ⟨c, s.threads.set t ⟨frames ++ stack, pending⟩⟩
    | _ => none
  | .shutDown => some { s with controller := { s.controller with isShutDown := true } }

def start (numThreads : ℕ) : State := ⟨new, List.replicate numThreads ⟨[], none⟩⟩

end RateController

end PageSpeed
