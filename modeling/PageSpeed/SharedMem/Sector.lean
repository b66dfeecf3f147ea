import PageSpeed.Basic
import PageSpeed.Lib.Links

/-!
A sector of the shared memory cache and the operations on its data structures
(`kernel/sharedmem/shared_mem_cache_data.cc`). `kInvalidBlock` and `kInvalidEntry`
are `none`.
-/

namespace PageSpeed.SharedMem

open Links

/-- The first `kHashSize` bytes of the hash of a key. -/
abbrev RawHash := { bytes : GoogleString // bytes.length = 16 }

def nilHash : RawHash := ⟨List.replicate 16 0, rfl⟩

structure Config where
  blockSize : ℕ
  blockSize_pos : 0 < blockSize
  numSectors : ℕ
  numSectors_pos : 0 < numSectors
  entriesPerSector : ℕ
  entriesPerSector_pos : 0 < entriesPerSector
  blocksPerSector : ℕ
  rawHash : GoogleString → RawHash

structure CacheEntry where
  hashBytes : RawHash
  lastUseTimestampMs : ℤ
  byteSize : ℕ
  lruPrev : Option ℕ
  lruNext : Option ℕ
  firstBlock : Option ℕ
  flags : BitVec 32

namespace CacheEntry

def creating (x : CacheEntry) : Bool := x.flags &&& 1#32 != 0#32

def setCreating (x : CacheEntry) (value : Bool) : CacheEntry :=
  { x with flags := if value then x.flags ||| 1#32 else x.flags &&& ~~~1#32 }

def openCount (x : CacheEntry) : BitVec 32 := x.flags >>> 1

def incrementOpenCount (x : CacheEntry) : CacheEntry := { x with flags := x.flags + 2#32 }

def decrementOpenCount (x : CacheEntry) : CacheEntry := { x with flags := x.flags - 2#32 }

end CacheEntry

structure SectorStats where
  numPut : ℤ
  numPutUpdate : ℤ
  numPutReplace : ℤ
  numPutConcurrentCreate : ℤ
  numPutConcurrentFullSet : ℤ
  numPutSpins : ℤ
  numGet : ℤ
  numGetHit : ℤ
  usedEntries : ℤ
  usedBlocks : ℤ

structure Sector where
  freeListFront : Option ℕ
  lruListFront : Option ℕ
  lruListRear : Option ℕ
  disabled : Bool
  stats : SectorStats
  blockSuccessors : ℕ → Option ℕ
  directory : ℕ → CacheEntry
  blockBytes : ℕ → GoogleString
  checkFailed : Bool

namespace Config

def neededPieces (total pieceSize : ℕ) : ℕ := (total + pieceSize - 1) / pieceSize

def dataBlocksForSize (g : Config) (size : ℕ) : ℕ := neededPieces size g.blockSize

def bytesInPortion (g : Config) (totalBytes b total : ℕ) : ℕ :=
  if b ≠ total - 1 then g.blockSize
  else
    let rem := totalBytes % g.blockSize
    if rem = 0 then g.blockSize else rem

end Config

namespace Sector

variable (s : Sector)

def setEntry (e : ℕ) (x : CacheEntry) : Sector := { s with directory := Function.update s.directory e x }

def check (b : Bool) : Sector := { s with checkFailed := s.checkFailed || !b }

def linkBlockSuccessors (blocks : List ℕ) : Sector := { s with blockSuccessors := link s.blockSuccessors blocks }

def allocBlocksFromFreeList (goal : ℕ) : Sector × List ℕ :=
  let r := takeFront s.blockSuccessors goal s.freeListFront
  ({ s with
      freeListFront := r.2
      stats := { s.stats with usedBlocks := s.stats.usedBlocks + r.1.length } }, r.1)

def returnBlocksToFreeList (blocks : List ℕ) : Sector :=
  let r := prepend s.blockSuccessors s.freeListFront blocks
  { s with
    blockSuccessors := r.1
    freeListFront := r.2
    stats := { s.stats with usedBlocks := s.stats.usedBlocks - blocks.length } }

def insertEntryIntoLRU (e : ℕ) : Sector :=
  let s := s.check ((s.directory e).lruPrev.isNone && (s.directory e).lruNext.isNone)
  let s := { s with stats := { s.stats with usedEntries := s.stats.usedEntries + 1 } }
  let s := s.setEntry e { s.directory e with lruNext := s.lruListFront }
  let s := match (s.directory e).lruNext with
    | none => { s with lruListRear := some e }
    | some e' => s.setEntry e' { s.directory e' with lruPrev := some e }
  { s with lruListFront := some e }

def unlinkNext (e : ℕ) : Sector :=
  let x := s.directory e
  match x.lruNext with
  | none => if s.lruListRear = some e then { s with lruListRear := x.lruPrev } else s
  | some e' => s.setEntry e' { s.directory e' with lruPrev := x.lruPrev }

def unlinkPrev (e : ℕ) : Sector :=
  let x := s.directory e
  match x.lruPrev with
  | none => if s.lruListFront = some e then { s with lruListFront := x.lruNext } else s
  | some e' => s.setEntry e' { s.directory e' with lruNext := x.lruNext }

def unlinkEntryFromLRU (e : ℕ) : Sector :=
  let x := s.directory e
  let s := if x.lruNext ≠ none ∨ x.lruPrev ≠ none ∨ s.lruListFront = some e then
      { s with stats := { s.stats with usedEntries := s.stats.usedEntries - 1 } }
    else s
  let s := (s.unlinkNext e).unlinkPrev e
  s.setEntry e { s.directory e with lruPrev := none, lruNext := none }

def blockListForEntry (g : Config) (e : ℕ) : List ℕ :=
  follow s.blockSuccessors (g.dataBlocksForSize (s.directory e).byteSize) (s.directory e).firstBlock

def zeroed (g : Config) : Sector where
  freeListFront := some 0
  lruListFront := some 0
  lruListRear := some 0
  disabled := false
  stats := ⟨0, 0, 0, 0, 0, 0, 0, 0, 0, 0⟩
  blockSuccessors := fun _ => some 0
  directory := fun _ => ⟨nilHash, 0, 0, some 0, some 0, some 0, 0#32⟩
  blockBytes := fun _ => List.replicate g.blockSize 0
  checkFailed := false

def initialized (g : Config) : Sector :=
  let s := zeroed g
  let s := { s with
    lruListFront := none
    lruListRear := none
    directory := fun e => { s.directory e with lruPrev := none, lruNext := none, firstBlock := none }
    freeListFront := none }
  let s := s.returnBlocksToFreeList (List.range g.blocksPerSector)
  { s with stats := { s.stats with usedBlocks := 0 } }

end Sector

end PageSpeed.SharedMem
