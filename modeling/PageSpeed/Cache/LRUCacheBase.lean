import PageSpeed.Basic
import PageSpeed.Lib.Records
import Mathlib.Data.List.AList

/-!
The bounded cache of `kernel/cache/lru_cache_base.h`: a list of cells in use
order, youngest in front, and a map from keys to cells. A cell is named by the
number of its allocation, as an iterator names a node of `std::list`. The helper
carries a state, which `evictNotify` changes.
-/

namespace PageSpeed

structure ValueHelper (V H : Type) where
  size : V → ℕ
  equal : V → V → Bool
  evictNotify : V → H → H
  shouldReplace : V → V → Bool

structure ListNode (V : Type) where
  cell : ℕ
  key : GoogleString
  value : V

structure LRUStats where
  numEvictions : ℕ := 0
  numHits : ℕ := 0
  numMisses : ℕ := 0
  numInserts : ℕ := 0
  numIdenticalReinserts : ℕ := 0
  numDeletes : ℕ := 0

structure LRUCacheBase (V : Type) where
  maxBytesInCache : ℕ
  currentBytesInCache : ℕ
  stats : LRUStats
  lruOrderedList : List (ListNode V)
  map : AList fun _ : GoogleString => ℕ
  nextCell : ℕ

namespace LRUCacheBase

variable {V H : Type}

def new (maxSize : ℕ) : LRUCacheBase V := ⟨maxSize, 0, {}, [], ∅, 0⟩

def entrySize (helper : ValueHelper V H) (n : ListNode V) : ℕ := n.key.length + helper.size n.value

def nodeAt (c : LRUCacheBase V) (cell : ℕ) : Option (ListNode V) :=
  c.lruOrderedList.find? fun n => n.cell = cell

def unlink (c : LRUCacheBase V) (cell : ℕ) : List (ListNode V) :=
  c.lruOrderedList.filter fun n => !decide (n.cell = cell)

def getNoFreshen (c : LRUCacheBase V) (key : GoogleString) : Option V × LRUCacheBase V :=
  match (c.map.lookup key).bind c.nodeAt with
  | some n => (some n.value, { c with stats.numHits := c.stats.numHits + 1 })
  | none => (none, { c with stats.numMisses := c.stats.numMisses + 1 })

def freshen (c : LRUCacheBase V) (n : ListNode V) : LRUCacheBase V :=
  { c with lruOrderedList := n :: c.unlink n.cell }

def getFreshen (c : LRUCacheBase V) (key : GoogleString) : Option V × LRUCacheBase V :=
  match (c.map.lookup key).bind c.nodeAt with
  | some n => (some n.value, { c.freshen n with stats.numHits := c.stats.numHits + 1 })
  | none => (none, { c with stats.numMisses := c.stats.numMisses + 1 })

/-- One round of the loop in `EvictIfNecessary`, on the back of the list. -/
def evictBack (helper : ValueHelper V H) (n : ListNode V) (c : LRUCacheBase V) : LRUCacheBase V :=
  { c with
    lruOrderedList := c.lruOrderedList.dropLast
    currentBytesInCache := c.currentBytesInCache - entrySize helper n
    map := c.map.erase n.key
    stats.numEvictions := c.stats.numEvictions + 1 }

def evictLoop (helper : ValueHelper V H) (bytesNeeded : ℕ) : ℕ → LRUCacheBase V → H → LRUCacheBase V × H
  | 0, c, h => (c, h)
  | fuel + 1, c, h =>
    if c.maxBytesInCache < bytesNeeded + c.currentBytesInCache then
      match c.lruOrderedList.getLast? with
      | none => (c, h)
      | some n => evictLoop helper bytesNeeded fuel (evictBack helper n c) (helper.evictNotify n.value h)
    else (c, h)

def evictIfNecessary (helper : ValueHelper V H) (bytesNeeded : ℕ) (c : LRUCacheBase V) (h : H) :
    Bool × LRUCacheBase V × H :=
  if bytesNeeded < c.maxBytesInCache then
    let (c', h') := evictLoop helper bytesNeeded c.lruOrderedList.length c h
    (true, { c' with currentBytesInCache := c'.currentBytesInCache + bytesNeeded }, h')
  else (false, c, h)

def pushFront (c : LRUCacheBase V) (key : GoogleString) (value : V) : LRUCacheBase V :=
  { c with
    lruOrderedList := ⟨c.nextCell, key, value⟩ :: c.lruOrderedList
    map := c.map.insert key c.nextCell
    nextCell := c.nextCell + 1
    stats.numInserts := c.stats.numInserts + 1 }

def put (helper : ValueHelper V H) (key : GoogleString) (newValue : V) (c : LRUCacheBase V) (h : H) :
    LRUCacheBase V × H :=
  match (c.map.lookup key).bind c.nodeAt with
  | some n =>
    if !helper.shouldReplace n.value newValue then (c, h)
    else if helper.equal newValue n.value then
      ({ c.freshen n with stats.numIdenticalReinserts := c.stats.numIdenticalReinserts + 1 }, h)
    else
      let c₁ := { c with
        stats.numDeletes := c.stats.numDeletes + 1
        currentBytesInCache := c.currentBytesInCache - entrySize helper n
        lruOrderedList := c.unlink n.cell }
      match evictIfNecessary helper (key.length + helper.size newValue) c₁ h with
      | (true, c₂, h₂) => (c₂.pushFront key newValue, h₂)
      | (false, c₂, h₂) => ({ c₂ with map := c₂.map.erase key }, h₂)
  | none =>
    match evictIfNecessary helper (key.length + helper.size newValue) c h with
    | (true, c₂, h₂) => (c₂.pushFront key newValue, h₂)
    | (false, c₂, h₂) => (c₂, h₂)

def delete (helper : ValueHelper V H) (key : GoogleString) (c : LRUCacheBase V) : LRUCacheBase V :=
  match (c.map.lookup key).bind c.nodeAt with
  | some n => { c with
      lruOrderedList := c.unlink n.cell
      currentBytesInCache := c.currentBytesInCache - entrySize helper n
      map := c.map.erase key
      stats.numDeletes := c.stats.numDeletes + 1 }
  | none => c

def clear (c : LRUCacheBase V) : LRUCacheBase V :=
  { c with currentBytesInCache := 0, lruOrderedList := [], map := ∅ }

def clearStats (c : LRUCacheBase V) : LRUCacheBase V := { c with stats := {} }

/-- What the iterators from `Begin()` to `End()` walk over, oldest first. -/
def entries (c : LRUCacheBase V) : List (GoogleString × V) :=
  c.lruOrderedList.reverse.map fun n => (n.key, n.value)

end LRUCacheBase

end PageSpeed
