import PageSpeed.Base.RollingHash
import PageSpeed.Base.Wildcard

/-!
Groups of wildcards that later ones override (`kernel/base/fast_wildcard_group.cc`),
compiled into a hash table of one window of each pattern's longest literal.
A loop that does not end, or a `CHECK` that fails, gives `none`.
-/

namespace PageSpeed

open RollingHash

def Wildcard.findWildcard (spec : GoogleString) (pos : ℕ) : ℕ :=
  pos + (spec.drop pos).findIdx fun c => c == kMatchAny || c == kMatchOne

/-- The position and the length of the longest literal from `pos` on; each round takes at least one character. -/
def Wildcard.longestLiteralFrom (spec : GoogleString) : ℕ → ℕ → ℕ × ℕ → ℕ × ℕ
  | 0, _, longest => longest
  | fuel + 1, pos, longest =>
    if pos < spec.length then
      let nextWildcard := findWildcard spec pos
      let len := nextWildcard - pos
      longestLiteralFrom spec fuel (nextWildcard + 1) (if longest.2 < len then (pos, len) else longest)
    else longest

def Wildcard.longestLiteralString (w : Wildcard) : GoogleString :=
  match longestLiteralFrom w.spec w.spec.length 0 (0, 0) with
  | (pos, len) => (w.spec.drop pos).take len

structure FastWildcardGroup where
  patterns : List (Wildcard × Bool)
  rollingHashes : List (BitVec 64)
  effectiveIndices : List ℤ
  wildcardOnlyIndices : List ℕ
  patternHashIndex : List ℤ
  rollingHashLength : ℤ
deriving DecidableEq

namespace FastWildcardGroup

def kMaxRollingHashWindow : ℕ := 256

def kNoEntry : ℤ := -1

def kMinPatterns : ℕ := 11

def kUncompiled : ℤ := -1

def kDontHash : ℤ := 0

def empty : FastWildcardGroup := ⟨[], [], [], [], [], kUncompiled⟩

def uncompile (g : FastWildcardGroup) : FastWildcardGroup :=
  if g.rollingHashLength = kUncompiled then g else ⟨g.patterns, [], [], [], [], kUncompiled⟩

def clear (g : FastWildcardGroup) : FastWildcardGroup := { g.uncompile with patterns := [] }

def add (g : FastWildcardGroup) (expr : GoogleString) (allow : Bool) : FastWildcardGroup :=
  { g.uncompile with patterns := g.patterns ++ [(Wildcard.initFromSpec expr, allow)] }

def allow (g : FastWildcardGroup) (expr : GoogleString) : FastWildcardGroup := g.add expr true

def disallow (g : FastWildcardGroup) (expr : GoogleString) : FastWildcardGroup := g.add expr false

def appendFrom (g src : FastWildcardGroup) : FastWildcardGroup :=
  { g.uncompile with patterns := g.patterns ++ src.patterns }

def copyFrom (g src : FastWildcardGroup) : FastWildcardGroup := g.clear.appendFrom src

def matchesAt (g : FastWildcardGroup) (str : GoogleString) (i : ℕ) : Bool :=
  (g.patterns[i]?).any fun p => p.1.isMatch str

def allowAt (g : FastWildcardGroup) (i : ℕ) : Bool := (g.patterns[i]?).any Prod.snd

def slot (g : FastWildcardGroup) (rollingHash : BitVec 64) : ℕ :=
  (rollingHash &&& BitVec.ofNat 64 (g.patternHashIndex.length - 1)).toNat

def entry (g : FastWildcardGroup) (rollingHash : BitVec 64) : ℤ :=
  g.patternHashIndex.getD (g.slot rollingHash) kNoEntry

def chooseHash (g : FastWildcardGroup) (literal : GoogleString) (len : ℕ) : ℕ → ℕ → BitVec 64 → BitVec 64
  | 0, _, rollingHash => rollingHash
  | windows + 1, start, rollingHash =>
    if g.entry rollingHash = kNoEntry then rollingHash
    else g.chooseHash literal len windows (start + 1) (nextRollingHash literal start len rollingHash)

def freeSlot (g : FastWildcardGroup) : ℕ → BitVec 64 → Option (BitVec 64)
  | 0, _ => none
  | fuel + 1, rollingHash =>
    if g.entry rollingHash = kNoEntry then some rollingHash else g.freeSlot fuel (rollingHash + 1)

def insertPattern (g : FastWildcardGroup) (literal : GoogleString) (len i : ℕ) : Option FastWildcardGroup :=
  let rollingHash := g.chooseHash literal len (literal.length - len) 1 (rollingHash literal 0 len)
  (g.freeSlot g.patternHashIndex.length rollingHash).map fun free =>
    { g with
      rollingHashes := g.rollingHashes.set i rollingHash
      patternHashIndex := g.patternHashIndex.set (g.slot free) i }

def compilePatterns (literals : List GoogleString) (len : ℕ) :
    ℕ → ℕ → Bool → FastWildcardGroup → Option FastWildcardGroup
  | 0, _, _, g => some g
  | i + 1, currentEffectiveIndex, currentAllow, g =>
    let literal := literals.getD i []
    let effectiveIndex := if g.allowAt i ≠ currentAllow then i else currentEffectiveIndex
    let g := { g with effectiveIndices := g.effectiveIndices.set i effectiveIndex }
    (if literal.length = 0 then
      some { g with
        wildcardOnlyIndices := g.wildcardOnlyIndices ++ [i]
        rollingHashes := g.rollingHashes.set i 0 }
    else g.insertPattern literal len i).bind
      (compilePatterns literals len i effectiveIndex (g.allowAt i))

def countLiteral (counts : ℕ × ℕ) (literal : GoogleString) : ℕ × ℕ :=
  if 0 < literal.length then (counts.1 + 1, min counts.2 literal.length) else counts

/-- An `int` holds at most `2 ^ 30` here. -/
def hashIndexSize (numNontrivialPatterns : ℕ) : ℕ → ℕ → ℕ
  | 0, size => size
  | doublings + 1, size =>
    if size < 2 * numNontrivialPatterns then hashIndexSize numNontrivialPatterns doublings (size * 2) else size

def compileNonTrivial (g : FastWildcardGroup) : Option FastWildcardGroup :=
  let literals := g.patterns.map fun p => p.1.longestLiteralString
  match literals.foldl countLiteral (0, kMaxRollingHashWindow) with
  | (numNontrivialPatterns, len) =>
    if numNontrivialPatterns < kMinPatterns then some g
    else
      let last := g.patterns.length - 1
      (compilePatterns literals len g.patterns.length last (g.allowAt last)
        { g with
          patternHashIndex := List.replicate (hashIndexSize numNontrivialPatterns 27 8) kNoEntry
          rollingHashes := List.replicate g.patterns.length 0
          effectiveIndices := List.replicate g.patterns.length 0 }).map
        fun g => { g with rollingHashLength := len }

def compile (g : FastWildcardGroup) : Option FastWildcardGroup :=
  if g.rollingHashes = [] ∧ g.effectiveIndices = [] ∧ g.wildcardOnlyIndices = [] ∧ g.patternHashIndex = [] ∧
      g.rollingHashLength = kDontHash then
    if kMinPatterns ≤ g.patterns.length then g.compileNonTrivial else some g
  else none

def scanPatterns (patterns : List (Wildcard × Bool)) (str : GoogleString) (allow : Bool) : Bool :=
  match patterns.reverse.find? fun p => p.1.isMatch str with
  | some p => p.2
  | none => allow

def probeTable (g : FastWildcardGroup) (str : GoogleString) (rollingHash : BitVec 64) (maxEffectiveIndex : ℤ) :
    ℕ → ℕ → Option ℤ
  | 0, _ => none
  | fuel + 1, probe =>
    let index := g.entry (rollingHash + BitVec.ofNat 64 probe)
    if index ≤ maxEffectiveIndex then some maxEffectiveIndex
    else if g.rollingHashes[index.toNat]? = some rollingHash ∧ g.matchesAt str index.toNat then
      some (g.effectiveIndices.getD index.toNat kNoEntry)
    else g.probeTable str rollingHash maxEffectiveIndex fuel (probe + 1)

/-- The windows of the string from `ofs` on, the given number of them at most. -/
def rollThrough (g : FastWildcardGroup) (str : GoogleString) (len : ℕ) :
    ℕ → ℕ → BitVec 64 → ℤ → Option ℤ
  | 0, _, _, maxEffectiveIndex => some maxEffectiveIndex
  | windows + 1, ofs, rollingHash, maxEffectiveIndex =>
    if maxEffectiveIndex < g.patterns.length - 1 then
      (g.probeTable str rollingHash maxEffectiveIndex g.patternHashIndex.length 0).bind
        (g.rollThrough str len windows (ofs + 1)
          (if windows = 0 then rollingHash else nextRollingHash str (ofs + 1) len rollingHash))
    else some maxEffectiveIndex

def matchWildcardOnly (g : FastWildcardGroup) (str : GoogleString) : ℤ :=
  match g.wildcardOnlyIndices.find? (g.matchesAt str) with
  | some index => g.effectiveIndices.getD index kNoEntry
  | none => kNoEntry

def matchCompiled (g : FastWildcardGroup) (str : GoogleString) (allow : Bool) : Option Bool :=
  let rollingEnd := toInt32 (str.length - g.rollingHashLength)
  let len := g.rollingHashLength.toNat
  (g.rollThrough str len (rollingEnd + 1).toNat 0 (rollingHash str 0 len) (g.matchWildcardOnly str)).map
    fun maxEffectiveIndex => if maxEffectiveIndex = kNoEntry then allow else g.allowAt maxEffectiveIndex.toNat

/-- `FastWildcardGroup::Match`, with the group as the compilation leaves it. -/
def isMatch (g : FastWildcardGroup) (str : GoogleString) (allow : Bool) : Option (Bool × FastWildcardGroup) :=
  (if g.rollingHashLength = kUncompiled then { g with rollingHashLength := kDontHash }.compile else some g).bind
    fun g =>
      if g.rollingHashLength = kDontHash then some (scanPatterns g.patterns str allow, g)
      else (g.matchCompiled str allow).map (·, g)

end FastWildcardGroup

end PageSpeed
