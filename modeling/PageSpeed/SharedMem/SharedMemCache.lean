import PageSpeed.SharedMem.Sector
import PageSpeed.Lib.Machine

/-!
The shared memory cache (`kernel/sharedmem/shared_mem_cache.cc`). A client is
where it stands between two critical sections of the sector lock, or between two
copies of a block without it; a run takes them in any order.
-/

namespace PageSpeed.SharedMem

open Links

def isAllNil (h : RawHash) : Bool := h.1.all (· == 0)

structure Position where
  sector : ℕ
  keys : List ℕ

namespace Config

variable (g : Config)

def maxValueSize : ℕ := g.blocksPerSector * g.blockSize / 8

def toRawHash (key : GoogleString) : RawHash :=
  let h := g.rawHash key
  if isAllNil h then ⟨h.1.set 0 32, (List.length_set ..).trans h.2⟩ else h

def byte (h : RawHash) (i : ℕ) : ℕ := (h.1.getD i 0).toNat

/-- The `i`th 32-bit word of the hash. -/
def word (h : RawHash) (i : ℕ) : ℕ :=
  byte h (4 * i) + 2 ^ 8 * byte h (4 * i + 1) + 2 ^ 16 * byte h (4 * i + 2) + 2 ^ 24 * byte h (4 * i + 3)

def extractPosition (h : RawHash) : Position where
  sector := byte h 12 % g.numSectors
  keys :=
    let key3 := (word h 0 >>> 16) ||| ((word h 1 <<< 16) % 2 ^ 32)
    [word h 0 % g.entriesPerSector, word h 1 % g.entriesPerSector, word h 2 % g.entriesPerSector,
      key3 % g.entriesPerSector]

end Config

def CacheEntry.writeable (x : CacheEntry) : Bool := x.openCount == 0#32 && !x.creating

def keyMatch (x : CacheEntry) (h : RawHash) : Bool := x.hashBytes == h

namespace Sector

variable (g : Config) (s : Sector)

def markEntryFree (e : ℕ) : Sector :=
  let s := s.unlinkEntryFromLRU e
  let s := s.check (s.directory e).writeable
  s.setEntry e { s.directory e with
    hashBytes := nilHash, lastUseTimestampMs := 0, byteSize := 0, firstBlock := none }

def touchEntry (timestampMs : ℤ) (e : ℕ) : Sector :=
  let s := s.unlinkEntryFromLRU e
  let s := s.insertEntryIntoLRU e
  s.setEntry e { s.directory e with lastUseTimestampMs := timestampMs }

def stealBlocks (goal : ℕ) : ℕ → Option ℕ → Sector → List ℕ → ℕ → Sector × List ℕ × ℕ
  | fuel + 1, some e, s, blocks, got =>
    if got < goal then
      if (s.directory e).writeable then
        let s' := s.markEntryFree e
        stealBlocks goal fuel s'.lruListRear s' (blocks ++ s.blockListForEntry g e)
          (got + g.dataBlocksForSize (s.directory e).byteSize)
      else stealBlocks goal fuel (s.directory e).lruPrev s blocks got
    else (s, blocks, got)
  | _, _, s, blocks, got => (s, blocks, got)

def stealFuel : ℕ := (g.entriesPerSector + 1) * (g.entriesPerSector + 1)

def tryAllocateBlocks (goal : ℕ) (blocks : List ℕ) : Sector × List ℕ × Bool :=
  let a := s.allocBlocksFromFreeList goal
  let r := stealBlocks g goal (stealFuel g) a.1.lruListRear a.1 (blocks ++ a.2) a.2.length
  (r.1, r.2.1, decide (goal ≤ r.2.2))

/-- Adjusts the space of an entry that holds `blocks` to `want` blocks. -/
def growBlocks (want : ℕ) (blocks : List ℕ) : Sector × List ℕ × Bool :=
  if blocks.length < want then s.tryAllocateBlocks g (want - blocks.length) blocks else (s, blocks, true)

def shrinkBlocks (want : ℕ) (blocks : List ℕ) : Sector × List ℕ :=
  if want < blocks.length then (s.returnBlocksToFreeList (blocks.drop want).reverse, blocks.take want)
  else (s, blocks)

def fillEntry (e : ℕ) (timestampMs : ℤ) (size : ℕ) (blocks : List ℕ) : Sector :=
  let s := s.setEntry e { s.directory e with byteSize := size }
  let s := s.touchEntry timestampMs e
  let s := s.linkBlockSuccessors blocks
  s.setEntry e { s.directory e with firstBlock := blocks.head? }

/-- `PutIntoEntry` up to where it releases the lock to copy into the blocks it returns; `none` if it gives
up. -/
def putIntoEntry (e : ℕ) (timestampMs : ℤ) (value : GoogleString) : Sector × Option (List ℕ) :=
  if s.disabled then (s.setEntry e ((s.directory e).setCreating false), none)
  else
    let want := g.dataBlocksForSize value.length
    let a := s.growBlocks g want (s.blockListForEntry g e)
    if a.2.2 then
      let b := a.1.shrinkBlocks want a.2.1
      (b.1.fillEntry e timestampMs value.length b.2, some b.2)
    else
      let s := a.1.returnBlocksToFreeList a.2.1
      let s := s.setEntry e ((s.directory e).setCreating false)
      (s.markEntryFree e, none)

/-- `DeleteEntry` once no reader is left. -/
def deleteReady (e : ℕ) : Sector :=
  if s.disabled then s.setEntry e ((s.directory e).setCreating false)
  else
    let s := s.returnBlocksToFreeList (s.blockListForEntry g e)
    let s := s.setEntry e ((s.directory e).setCreating false)
    s.markEntryFree e

def mustWait (e : ℕ) : Bool := (s.directory e).openCount != 0#32 && !s.disabled

def spin : Sector := { s with stats := { s.stats with numPutSpins := s.stats.numPutSpins + 1 } }

def bestKey (keys : List ℕ) : Option ℕ :=
  keys.foldl (fun best e =>
    if (s.directory e).writeable then
      match best with
      | none => some e
      | some b => if (s.directory e).lastUseTimestampMs < (s.directory b).lastUseTimestampMs then some e else best
    else best) none

end Sector

inductive Pc where
  | put (h : RawHash) (timestampMs : ℤ) (value : GoogleString)
  | putWait (h : RawHash) (e : ℕ) (timestampMs : ℤ) (value : GoogleString)
  | putCopy (h : RawHash) (e : ℕ) (value : GoogleString) (blocks : List ℕ) (b : ℕ)
  | stored (h : RawHash) (value : GoogleString)
  | get (h : RawHash)
  | getExtend (h : RawHash) (e : ℕ) (blocks : List ℕ)
  | getCopy (h : RawHash) (e : ℕ) (blocks : List ℕ) (str : GoogleString) (pos b : ℕ)
  | got (h : RawHash) (value : Option GoogleString)
  | delete (h : RawHash)
  | deleteWait (h : RawHash) (e : ℕ)
  | done (h : RawHash)
deriving DecidableEq

def Pc.hash : Pc → RawHash
  | .put h _ _ | .putWait h _ _ _ | .putCopy h _ _ _ _ | .stored h _ | .get h | .getExtend h _ _
  | .getCopy h _ _ _ _ _ | .got h _ | .delete h | .deleteWait h _ | .done h => h

/-- `memcpy` to the start of a buffer. -/
def memcpy (dest source : GoogleString) : GoogleString := source ++ dest.drop source.length

/-- `SharedString::WriteAt`, which never writes beyond the end. -/
def writeAt (str : GoogleString) (offset : ℕ) (source : GoogleString) : GoogleString :=
  let count := min source.length (str.length - offset)
  str.take offset ++ source.take count ++ str.drop (offset + count)

namespace Sector

variable (g : Config) (s : Sector)

/-- `PutIntoEntry`, and where its caller then stands. -/
def putAndCopy (h : RawHash) (e : ℕ) (timestampMs : ℤ) (value : GoogleString) : Sector × Pc :=
  let r := s.putIntoEntry g e timestampMs value
  (r.1, match r.2 with | some blocks => .putCopy h e value blocks 0 | none => .done h)

/-- A writer after each look at the readers of the entry; `gaveUp` says whether it has waited too long. -/
def putWhenReady (h : RawHash) (e : ℕ) (timestampMs : ℤ) (value : GoogleString) (gaveUp : Bool) : Sector × Pc :=
  if s.mustWait e then if gaveUp then (s, .done h) else (s.spin, .putWait h e timestampMs value)
  else s.putAndCopy g h e timestampMs value

def deleteWhenReady (h : RawHash) (e : ℕ) (gaveUp : Bool) : Sector × Pc :=
  if s.mustWait e then if gaveUp then (s, .done h) else (s.spin, .deleteWait h e)
  else (s.deleteReady g e, .done h)

def beginWrite (e : ℕ) : Sector := s.setEntry e ((s.directory e).setCreating true)

def putRawHash (h : RawHash) (timestampMs : ℤ) (value : GoogleString) (gaveUp : Bool) : Sector × Pc :=
  if g.maxValueSize < value.length then (s, .done h)
  else if s.disabled then (s, .done h)
  else
    let s := { s with stats := { s.stats with numPut := s.stats.numPut + 1 } }
    let keys := (g.extractPosition h).keys
    match keys.find? fun e => keyMatch (s.directory e) h with
    | some e =>
      if (s.directory e).creating then
        ({ s with stats := { s.stats with numPutConcurrentCreate := s.stats.numPutConcurrentCreate + 1 } }, .done h)
      else
        let s := { s with stats := { s.stats with numPutUpdate := s.stats.numPutUpdate + 1 } }
        (s.beginWrite e).putWhenReady g h e timestampMs value gaveUp
    | none =>
      match s.bestKey keys with
      | none =>
        ({ s with stats := { s.stats with numPutConcurrentFullSet := s.stats.numPutConcurrentFullSet + 1 } }, .done h)
      | some e =>
        let s := if (s.directory e).byteSize ≠ 0 ∨ ¬ isAllNil (s.directory e).hashBytes then
            { s with stats := { s.stats with numPutReplace := s.stats.numPutReplace + 1 } }
          else s
        -- The slot is writeable, so there is no reader to wait for before the key is changed.
        let s := s.beginWrite e
        let s := s.setEntry e { s.directory e with hashBytes := h }
        s.putAndCopy g h e timestampMs value

def get (h : RawHash) (nowMs : ℤ) : Sector × Pc :=
  if s.disabled then (s, .got h none)
  else
    let s := { s with stats := { s.stats with numGet := s.stats.numGet + 1 } }
    match (g.extractPosition h).keys.find? fun e => keyMatch (s.directory e) h with
    | some e =>
      if (s.directory e).creating then (s, .got h none)
      else
        let s := s.setEntry e (s.directory e).incrementOpenCount
        let s := s.touchEntry nowMs e
        (s, .getExtend h e (s.blockListForEntry g e))
    | none => (s, .got h none)

def delete (h : RawHash) (gaveUp : Bool) : Sector × Pc :=
  if s.disabled then (s, .done h)
  else
    match (g.extractPosition h).keys.find? fun e => keyMatch (s.directory e) h with
    | some e =>
      if (s.directory e).creating then (s, .done h)
      else (s.beginWrite e).deleteWhenReady g h e gaveUp
    | none => (s, .done h)

def exec (nowMs : ℤ) (gaveUp : Bool) : Pc → Option (Sector × Pc)
  | .put h timestampMs value => some (s.putRawHash g h timestampMs value gaveUp)
  | .putWait h e timestampMs value => some (s.putWhenReady g h e timestampMs value gaveUp)
  | .putCopy h e value blocks b =>
    match blocks[b]? with
    | some block =>
      let bytes := g.bytesInPortion (s.directory e).byteSize b blocks.length
      let portion := (value.drop (b * g.blockSize)).take bytes
      some ({ s with blockBytes := Function.update s.blockBytes block (memcpy (s.blockBytes block) portion) },
        .putCopy h e value blocks (b + 1))
    | none => some (s.setEntry e ((s.directory e).setCreating false), .stored h value)
  | .get h => some (s.get g h nowMs)
  | .getExtend h e blocks =>
    some (s, .getCopy h e blocks (List.replicate (s.directory e).byteSize 0) 0 0)
  | .getCopy h e blocks str pos b =>
    match blocks[b]? with
    | some block =>
      let bytes := g.bytesInPortion (s.directory e).byteSize b blocks.length
      some (s, .getCopy h e blocks (writeAt str pos ((s.blockBytes block).take bytes)) (pos + bytes) (b + 1))
    | none =>
      let s := s.setEntry e (s.directory e).decrementOpenCount
      some ({ s with stats := { s.stats with numGetHit := s.stats.numGetHit + 1 } }, .got h (some str))
  | .delete h => some (s.delete g h gaveUp)
  | .deleteWait h e => some (s.deleteWhenReady g h e gaveUp)
  | .stored _ _ | .got _ _ | .done _ => none

end Sector

structure State where
  sectors : ℕ → Sector
  threads : List Pc

def State.new (g : Config) : State := ⟨fun _ => Sector.initialized g, []⟩

inductive Action where
  | put (key value : GoogleString) (timestampMs : ℤ)
  | get (key : GoogleString)
  | delete (key : GoogleString)
  | thread (i : ℕ) (nowMs : ℤ) (gaveUp : Bool)
  | ownerDied (k : ℕ) (left : Sector)

def step (g : Config) (t : State) : Action → Option State
  | .put key value timestampMs => some { t with threads := t.threads ++ [.put (g.toRawHash key) timestampMs value] }
  | .get key => some { t with threads := t.threads ++ [.get (g.toRawHash key)] }
  | .delete key => some { t with threads := t.threads ++ [.delete (g.toRawHash key)] }
  | .thread i nowMs gaveUp =>
    match t.threads[i]? with
    | some pc =>
      let k := (g.extractPosition pc.hash).sector
      ((t.sectors k).exec g nowMs gaveUp pc).map fun r =>
        { sectors := Function.update t.sectors k r.1, threads := t.threads.set i r.2 }
    | none => none
  | .ownerDied k left => some { t with sectors := Function.update t.sectors k { left with disabled := true } }

end PageSpeed.SharedMem
