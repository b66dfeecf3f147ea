import PageSpeed.SharedMem.SharedMemCache
import PageSpeed.Lib.Bag

/-!
The flags of an entry, and what the operations of a sector do to its LRU list and
to the lists of its blocks.
-/

namespace PageSpeed.SharedMem

open Links

namespace CacheEntry

theorem creating_iff (x : CacheEntry) : x.creating = true ↔ x.flags.toNat % 2 = 1 := by
  unfold creating
  simp only [bne_iff_ne, ne_eq, ← BitVec.toNat_inj, BitVec.toNat_and, BitVec.toNat_ofNat]
  simp only [Nat.reducePow, Nat.reduceMod, Nat.and_one_is_mod]
  omega

theorem openCount_toNat (x : CacheEntry) : x.openCount.toNat = x.flags.toNat / 2 := by
  unfold openCount
  rw [BitVec.toNat_ushiftRight, Nat.shiftRight_eq_div_pow, Nat.pow_one]

theorem setCreating_flags (x : CacheEntry) (value : Bool) :
    (x.setCreating value).flags.toNat = 2 * (x.flags.toNat / 2) + value.toNat := by
  unfold setCreating
  cases value with
  | true =>
    have hdiv : (x.flags.toNat ||| 1) / 2 = x.flags.toNat / 2 := by
      rw [Nat.or_div_two]
      exact Nat.or_zero _
    have hmod : (x.flags.toNat ||| 1) % 2 = 1 := Nat.or_mod_two_eq_one.mpr (Or.inr rfl)
    simp only [if_true, BitVec.toNat_or, Bool.toNat_true]
    change x.flags.toNat ||| 1 = _
    omega
  | false =>
    have hlt := x.flags.isLt
    have hdiv : (x.flags.toNat &&& (2 ^ 32 - 2)) / 2 = x.flags.toNat / 2 := by
      rw [Nat.and_div_two]
      change x.flags.toNat / 2 &&& (2 ^ 31 - 1) = _
      rw [Nat.and_two_pow_sub_one_eq_mod]
      omega
    have hmod : (x.flags.toNat &&& (2 ^ 32 - 2)) % 2 ≠ 1 := by
      rw [Ne, Nat.and_mod_two_eq_one]
      exact fun h => absurd h.2 (by decide)
    simp only [Bool.false_eq_true, if_false, BitVec.toNat_and, Bool.toNat_false]
    change x.flags.toNat &&& (2 ^ 32 - 2) = _
    omega

@[simp]
theorem creating_setCreating (x : CacheEntry) (value : Bool) : (x.setCreating value).creating = value := by
  rw [Bool.eq_iff_iff, creating_iff, setCreating_flags]
  cases value <;> simp

@[simp]
theorem openCount_setCreating (x : CacheEntry) (value : Bool) : (x.setCreating value).openCount = x.openCount := by
  rw [← BitVec.toNat_inj, openCount_toNat, openCount_toNat, setCreating_flags]
  cases value <;> simp only [Bool.toNat_true, Bool.toNat_false] <;> omega

@[simp]
theorem creating_increment (x : CacheEntry) : x.incrementOpenCount.creating = x.creating := by
  rw [Bool.eq_iff_iff, creating_iff, creating_iff]
  change (x.flags + 2#32).toNat % 2 = 1 ↔ _
  rw [BitVec.toNat_add, BitVec.toNat_ofNat]
  omega

@[simp]
theorem creating_decrement (x : CacheEntry) : x.decrementOpenCount.creating = x.creating := by
  rw [Bool.eq_iff_iff, creating_iff, creating_iff]
  change (x.flags - 2#32).toNat % 2 = 1 ↔ _
  rw [BitVec.toNat_sub, BitVec.toNat_ofNat]
  omega

structure Same (x y : CacheEntry) : Prop where
  hashBytes : y.hashBytes = x.hashBytes
  byteSize : y.byteSize = x.byteSize
  firstBlock : y.firstBlock = x.firstBlock
  flags : y.flags = x.flags

theorem Same.refl (x : CacheEntry) : Same x x := ⟨rfl, rfl, rfl, rfl⟩

variable {x y : CacheEntry}

theorem Same.trans {z : CacheEntry} (h : Same x y) (h' : Same y z) : Same x z :=
  ⟨h'.hashBytes.trans h.hashBytes, h'.byteSize.trans h.byteSize, h'.firstBlock.trans h.firstBlock,
    h'.flags.trans h.flags⟩

theorem Same.creating (h : Same x y) : y.creating = x.creating := by
  unfold CacheEntry.creating
  rw [h.flags]

theorem Same.openCount (h : Same x y) : y.openCount = x.openCount := by
  unfold CacheEntry.openCount
  rw [h.flags]

theorem Same.writeable (h : Same x y) : y.writeable = x.writeable := by
  unfold CacheEntry.writeable
  rw [h.creating, h.openCount]

structure Emptied (x y : CacheEntry) : Prop where
  hashBytes : y.hashBytes = nilHash
  byteSize : y.byteSize = 0
  firstBlock : y.firstBlock = none
  flags : y.flags = x.flags

end CacheEntry

namespace Sector

def next (s : Sector) (e : ℕ) : Option ℕ := (s.directory e).lruNext

def prev (s : Sector) (e : ℕ) : Option ℕ := (s.directory e).lruPrev

def Lru (s : Sector) (l : List ℕ) : Prop := Linked s.next s.prev s.lruListFront s.lruListRear l

structure Relinked (s s' : Sector) : Prop where
  same : ∀ e, CacheEntry.Same (s.directory e) (s'.directory e)
  blockSuccessors : s'.blockSuccessors = s.blockSuccessors
  freeListFront : s'.freeListFront = s.freeListFront
  usedBlocks : s'.stats.usedBlocks = s.stats.usedBlocks
  blockBytes : s'.blockBytes = s.blockBytes
  disabled : s'.disabled = s.disabled

theorem Relinked.refl (s : Sector) : Relinked s s := ⟨fun _ => .refl _, rfl, rfl, rfl, rfl, rfl⟩

variable {s : Sector} {e : ℕ} {x : CacheEntry} {l : List ℕ}

theorem Relinked.trans {s' s'' : Sector} (h : Relinked s s') (h' : Relinked s' s'') : Relinked s s'' :=
  ⟨fun e => (h.same e).trans (h'.same e), h'.blockSuccessors.trans h.blockSuccessors,
    h'.freeListFront.trans h.freeListFront, h'.usedBlocks.trans h.usedBlocks, h'.blockBytes.trans h.blockBytes,
    h'.disabled.trans h.disabled⟩

theorem setEntry_self (s : Sector) (e : ℕ) (x : CacheEntry) : (s.setEntry e x).directory e = x :=
  Function.update_self _ _ _

theorem setEntry_of_ne (s : Sector) {e' : ℕ} (h : e' ≠ e) (x : CacheEntry) :
    (s.setEntry e x).directory e' = s.directory e' := Function.update_of_ne h _ _

theorem setEntry_relinked (h : CacheEntry.Same (s.directory e) x) : Relinked s (s.setEntry e x) := by
  refine ⟨fun e' => ?_, rfl, rfl, rfl, rfl, rfl⟩
  by_cases he : e' = e
  · rw [he, setEntry_self]
    exact h
  · rw [setEntry_of_ne s he]
    exact .refl _

theorem setEntry_next (s : Sector) (e : ℕ) (x : CacheEntry) :
    (s.setEntry e x).next = Function.update s.next e x.lruNext := by
  funext e'
  by_cases he : e' = e
  · subst he
    rw [Function.update_self, next, setEntry_self]
  · rw [Function.update_of_ne he, next, setEntry_of_ne s he]
    rfl

theorem setEntry_prev (s : Sector) (e : ℕ) (x : CacheEntry) :
    (s.setEntry e x).prev = Function.update s.prev e x.lruPrev := by
  funext e'
  by_cases he : e' = e
  · subst he
    rw [Function.update_self, prev, setEntry_self]
  · rw [Function.update_of_ne he, prev, setEntry_of_ne s he]
    rfl

theorem setEntry_next_same (h : x.lruNext = s.next e) : (s.setEntry e x).next = s.next := by
  rw [setEntry_next, h, Function.update_eq_self]

theorem setEntry_prev_same (h : x.lruPrev = s.prev e) : (s.setEntry e x).prev = s.prev := by
  rw [setEntry_prev, h, Function.update_eq_self]

theorem unlinkNext_spec (s : Sector) (e : ℕ) :
    Relinked s (s.unlinkNext e) ∧ (s.unlinkNext e).checkFailed = s.checkFailed ∧ (s.unlinkNext e).next = s.next ∧
      (∀ e', (s.unlinkNext e).prev e' = if s.next e = some e' then s.prev e else s.prev e') ∧
      (s.unlinkNext e).lruListFront = s.lruListFront ∧
      (s.unlinkNext e).lruListRear =
        if s.next e = none ∧ s.lruListRear = some e then s.prev e else s.lruListRear := by
  cases hn : s.next e with
  | none =>
    have heq : s.unlinkNext e = if s.lruListRear = some e then { s with lruListRear := s.prev e } else s := by
      unfold unlinkNext
      simp only [show (s.directory e).lruNext = none from hn]
      rfl
    simp only [true_and, reduceCtorEq, if_false]
    rw [heq]
    by_cases hr : s.lruListRear = some e
    · rw [if_pos hr, if_pos hr]
      exact ⟨⟨fun _ => .refl _, rfl, rfl, rfl, rfl, rfl⟩, rfl, rfl, fun _ => rfl, rfl, rfl⟩
    · rw [if_neg hr, if_neg hr]
      exact ⟨.refl _, rfl, rfl, fun _ => rfl, rfl, rfl⟩
  | some a =>
    have heq : s.unlinkNext e = s.setEntry a { s.directory a with lruPrev := s.prev e } := by
      unfold unlinkNext
      simp only [show (s.directory e).lruNext = some a from hn]
      rfl
    simp only [reduceCtorEq, false_and, if_false, Option.some.injEq]
    rw [heq]
    refine ⟨setEntry_relinked ⟨rfl, rfl, rfl, rfl⟩, rfl, ?_, ?_, rfl, rfl⟩
    · exact setEntry_next_same rfl
    · intro e'
      rw [setEntry_prev]
      by_cases he : a = e'
      · subst he
        rw [Function.update_self, if_pos rfl]
      · rw [Function.update_of_ne (Ne.symm he), if_neg he]

theorem unlinkPrev_spec (s : Sector) (e : ℕ) :
    Relinked s (s.unlinkPrev e) ∧ (s.unlinkPrev e).checkFailed = s.checkFailed ∧ (s.unlinkPrev e).prev = s.prev ∧
      (∀ e', (s.unlinkPrev e).next e' = if s.prev e = some e' then s.next e else s.next e') ∧
      (s.unlinkPrev e).lruListRear = s.lruListRear ∧
      (s.unlinkPrev e).lruListFront =
        if s.prev e = none ∧ s.lruListFront = some e then s.next e else s.lruListFront := by
  cases hp : s.prev e with
  | none =>
    have heq : s.unlinkPrev e = if s.lruListFront = some e then { s with lruListFront := s.next e } else s := by
      unfold unlinkPrev
      simp only [show (s.directory e).lruPrev = none from hp]
      rfl
    simp only [true_and, reduceCtorEq, if_false]
    rw [heq]
    by_cases hf : s.lruListFront = some e
    · rw [if_pos hf, if_pos hf]
      exact ⟨⟨fun _ => .refl _, rfl, rfl, rfl, rfl, rfl⟩, rfl, rfl, fun _ => rfl, rfl, rfl⟩
    · rw [if_neg hf, if_neg hf]
      exact ⟨.refl _, rfl, rfl, fun _ => rfl, rfl, rfl⟩
  | some a =>
    have heq : s.unlinkPrev e = s.setEntry a { s.directory a with lruNext := s.next e } := by
      unfold unlinkPrev
      simp only [show (s.directory e).lruPrev = some a from hp]
      rfl
    simp only [reduceCtorEq, false_and, if_false, Option.some.injEq]
    rw [heq]
    refine ⟨setEntry_relinked ⟨rfl, rfl, rfl, rfl⟩, rfl, ?_, ?_, rfl, rfl⟩
    · exact setEntry_prev_same rfl
    · intro e'
      rw [setEntry_next]
      by_cases he : a = e'
      · subst he
        rw [Function.update_self, if_pos rfl]
      · rw [Function.update_of_ne (Ne.symm he), if_neg he]

theorem unlink_spec (hl : s.Lru l) (e : ℕ) :
    Relinked s (s.unlinkEntryFromLRU e) ∧ (s.unlinkEntryFromLRU e).checkFailed = s.checkFailed ∧
      (s.unlinkEntryFromLRU e).Lru (l.erase e) := by
  obtain ⟨s₁, heq, hrel, hcheck, hl₁⟩ : ∃ s₁ : Sector,
      s.unlinkEntryFromLRU e = ((s₁.unlinkNext e).unlinkPrev e).setEntry e
        { ((s₁.unlinkNext e).unlinkPrev e).directory e with lruPrev := none, lruNext := none } ∧
      Relinked s s₁ ∧ s₁.checkFailed = s.checkFailed ∧ s₁.Lru l := by
    refine ⟨_, rfl, ?_⟩
    split_ifs
    · exact ⟨⟨fun _ => .refl _, rfl, rfl, rfl, rfl, rfl⟩, rfl, hl⟩
    · exact ⟨.refl _, rfl, hl⟩
  rw [heq]
  have hnself : s₁.next e ≠ some e := hl₁.next_ne_self
  have hpself : s₁.prev e ≠ some e := hl₁.prev_ne_self
  obtain ⟨hrel₂, hcheck₂, hnext₂, hprev₂, hfront₂, hrear₂⟩ := unlinkNext_spec s₁ e
  obtain ⟨hrel₃, hcheck₃, hprev₃, hnext₃, hrear₃, hfront₃⟩ := unlinkPrev_spec (s₁.unlinkNext e) e
  have hpe : (s₁.unlinkNext e).prev e = s₁.prev e := by rw [hprev₂, if_neg hnself]
  refine ⟨?_, ?_, ?_⟩
  · refine ((hrel.trans hrel₂).trans hrel₃).trans (setEntry_relinked ?_)
    exact ⟨rfl, rfl, rfl, rfl⟩
  · exact hcheck₃.trans (hcheck₂.trans hcheck)
  · refine Linked.remove hl₁ (a := e) ?_ ?_ ?_ ?_
    · intro e'
      rw [setEntry_next]
      by_cases he : e' = e
      · subst he
        rw [Function.update_self, if_pos rfl]
      · rw [Function.update_of_ne he, if_neg he, hnext₃, hpe, hnext₂]
    · intro e'
      rw [setEntry_prev]
      by_cases he : e' = e
      · subst he
        rw [Function.update_self, if_pos rfl]
      · rw [Function.update_of_ne he, if_neg he, hprev₃, hprev₂]
    · change ((s₁.unlinkNext e).unlinkPrev e).lruListFront = _
      rw [hfront₃, hpe, hfront₂, hnext₂]
      by_cases hf : s₁.lruListFront = some e
      · have hp : s₁.prev e = none := by
          have hhead := hl₁.front_eq.symm.trans hf
          obtain ⟨ys, rfl⟩ := List.head?_eq_some_iff.mp hhead
          exact (hl₁.links [] e ys rfl).2
        rw [if_pos ⟨hp, hf⟩, if_pos hf]
      · rw [if_neg (fun h => hf h.2), if_neg hf]
    · change ((s₁.unlinkNext e).unlinkPrev e).lruListRear = _
      rw [hrear₃, hrear₂]
      by_cases hr : s₁.lruListRear = some e
      · have hn : s₁.next e = none := by
          have hlast := hl₁.rear_eq.symm.trans hr
          obtain ⟨xs, rfl⟩ := List.getLast?_eq_some_iff.mp hlast
          exact (hl₁.links xs e [] rfl).1
        rw [if_pos ⟨hn, hr⟩, if_pos hr]
      · rw [if_neg (fun h => hr h.2), if_neg hr]

theorem insert_spec (hl : s.Lru l) (he : e ∉ l) :
    Relinked s (s.insertEntryIntoLRU e) ∧ (s.insertEntryIntoLRU e).checkFailed = s.checkFailed ∧
      (s.insertEntryIntoLRU e).Lru (e :: l) := by
  obtain ⟨hn, hp⟩ := hl.unlinked e he
  have hcheck : ((s.directory e).lruPrev.isNone && (s.directory e).lruNext.isNone) = true := by
    change ((s.prev e).isNone && (s.next e).isNone) = true
    rw [hn, hp]
    rfl
  obtain ⟨s₁, heq, hrel, hchk, hnext, hprev, hfront, hrear⟩ : ∃ s₁ : Sector,
      ((s.lruListFront = none → s.insertEntryIntoLRU e = { s₁ with lruListRear := some e, lruListFront := some e }) ∧
        ∀ a, s.lruListFront = some a → s.insertEntryIntoLRU e =
          { s₁.setEntry a { s₁.directory a with lruPrev := some e } with lruListFront := some e }) ∧ Relinked s s₁ ∧ s₁.checkFailed = s.checkFailed ∧ s₁.next = Function.update s.next e s.lruListFront ∧
      s₁.prev = s.prev ∧ s₁.lruListFront = s.lruListFront ∧ s₁.lruListRear = s.lruListRear := by
    refine ⟨setEntry { s.check true with stats := { s.stats with usedEntries := s.stats.usedEntries + 1 } } e
      { s.directory e with lruNext := s.lruListFront }, ?_, ?_, ?_, ?_, ?_, rfl, rfl⟩
    · unfold insertEntryIntoLRU
      have hcheckFront : (s.check true).lruListFront = s.lruListFront := rfl
      simp only [hcheck, setEntry_self]
      constructor
      · intro hf
        rw [hcheckFront, hf]
        rfl
      · intro a hf
        rw [hcheckFront, hf]
        rfl
    · have h := setEntry_relinked (s := s) (e := e) (x := { s.directory e with lruNext := s.lruListFront })
        ⟨rfl, rfl, rfl, rfl⟩
      exact ⟨h.same, rfl, rfl, rfl, rfl, rfl⟩
    · exact Bool.or_false _
    · exact setEntry_next _ e _
    · exact setEntry_prev_same rfl
  have hne : s.lruListFront ≠ some e := by
    intro hf
    rw [hl.front_eq] at hf
    exact he (List.mem_of_mem_head? hf)
  have hn' : ∀ e', s₁.next e' = if e' = e then s.lruListFront else s.next e' := by
    intro e'
    rw [hnext]
    by_cases hee : e' = e
    · rw [hee, Function.update_self, if_pos rfl]
    · rw [Function.update_of_ne hee, if_neg hee]
  cases hf : s.lruListFront with
  | none =>
    rw [heq.1 hf]
    refine ⟨⟨hrel.same, hrel.blockSuccessors, hrel.freeListFront, hrel.usedBlocks, hrel.blockBytes, hrel.disabled⟩,
      hchk, ?_⟩
    have hp' : ∀ e', s₁.prev e' = if s.lruListFront = some e' then some e else s.prev e' := by
      intro e'
      rw [hf, if_neg (Option.some_ne_none _).symm, hprev]
    have hins := hl.insert he hn' hp'
    rw [hf, if_pos rfl] at hins
    exact hins
  | some a =>
    rw [heq.2 a hf]
    have hset := hrel.trans (setEntry_relinked (s := s₁) (e := a) (x := { s₁.directory a with lruPrev := some e })
      ⟨rfl, rfl, rfl, rfl⟩)
    refine ⟨⟨hset.same, hset.blockSuccessors, hset.freeListFront, hset.usedBlocks, hset.blockBytes, hset.disabled⟩,
      hchk, ?_⟩
    have hp' : ∀ e', (s₁.setEntry a { s₁.directory a with lruPrev := some e }).prev e' =
        if s.lruListFront = some e' then some e else s.prev e' := by
      intro e'
      rw [setEntry_prev, hprev, hf]
      by_cases hee : a = e'
      · rw [hee, Function.update_self, if_pos rfl]
      · rw [Function.update_of_ne (Ne.symm hee), if_neg (fun h => hee (Option.some.inj h))]
    have hn'' : ∀ e', (s₁.setEntry a { s₁.directory a with lruPrev := some e }).next e' =
        if e' = e then s.lruListFront else s.next e' := by
      intro e'
      refine (congrFun (setEntry_next_same ?_) e').trans (hn' e')
      rfl
    have hins := hl.insert he hn'' hp'
    rw [hf, if_neg (Option.some_ne_none a), ← hrear] at hins
    exact hins

theorem touch_spec (hl : s.Lru l) (timestampMs : ℤ) (e : ℕ) :
    Relinked s (s.touchEntry timestampMs e) ∧ (s.touchEntry timestampMs e).checkFailed = s.checkFailed ∧
      (s.touchEntry timestampMs e).Lru (e :: l.erase e) := by
  obtain ⟨hrel, hchk, hl'⟩ := unlink_spec hl e
  have he : e ∉ l.erase e := hl.nodup.not_mem_erase
  obtain ⟨hrel', hchk', hl''⟩ := insert_spec hl' he
  refine ⟨(hrel.trans hrel').trans (setEntry_relinked ?_), hchk'.trans hchk, ?_⟩
  · exact ⟨rfl, rfl, rfl, rfl⟩
  · refine hl''.congr ?_ ?_
    · exact congrFun (setEntry_next_same (x := { ((s.unlinkEntryFromLRU e).insertEntryIntoLRU e).directory e with
        lastUseTimestampMs := timestampMs }) rfl)
    · exact congrFun (setEntry_prev_same (x := { ((s.unlinkEntryFromLRU e).insertEntryIntoLRU e).directory e with
        lastUseTimestampMs := timestampMs }) rfl)

structure Frees (s s' : Sector) (e : ℕ) : Prop where
  emptied : CacheEntry.Emptied (s.directory e) (s'.directory e)
  same : ∀ e', e' ≠ e → CacheEntry.Same (s.directory e') (s'.directory e')
  blockSuccessors : s'.blockSuccessors = s.blockSuccessors
  freeListFront : s'.freeListFront = s.freeListFront
  usedBlocks : s'.stats.usedBlocks = s.stats.usedBlocks
  blockBytes : s'.blockBytes = s.blockBytes
  disabled : s'.disabled = s.disabled

theorem markEntryFree_spec (hl : s.Lru l) (hw : (s.directory e).writeable = true) :
    Frees s (s.markEntryFree e) e ∧ (s.markEntryFree e).checkFailed = s.checkFailed ∧
      (s.markEntryFree e).Lru (l.erase e) := by
  obtain ⟨hrel, hchk, hl'⟩ := unlink_spec hl e
  obtain ⟨s₁, hs₁⟩ : ∃ s₁, s₁ = s.unlinkEntryFromLRU e := ⟨_, rfl⟩
  rw [← hs₁] at hrel hchk hl'
  have hw' : (s₁.directory e).writeable = true := (hrel.same e).writeable.trans hw
  have heq : s.markEntryFree e = (s₁.check true).setEntry e { s₁.directory e with
      hashBytes := nilHash, lastUseTimestampMs := 0, byteSize := 0, firstBlock := none } := by
    unfold markEntryFree
    simp only [← hs₁, hw']
    rfl
  rw [heq]
  refine ⟨⟨?_, ?_, hrel.blockSuccessors, hrel.freeListFront, hrel.usedBlocks, hrel.blockBytes, hrel.disabled⟩, ?_, ?_⟩
  · rw [setEntry_self]
    exact ⟨rfl, rfl, rfl, (hrel.same e).flags⟩
  · intro e' he
    rw [setEntry_of_ne _ he]
    exact hrel.same e'
  · exact (Bool.or_false _).trans hchk
  · refine hl'.congr ?_ ?_
    · exact congrFun (setEntry_next_same (s := s₁.check true) (e := e) (x := { s₁.directory e with
        hashBytes := nilHash, lastUseTimestampMs := 0, byteSize := 0, firstBlock := none }) rfl)
    · exact congrFun (setEntry_prev_same (s := s₁.check true) (e := e) (x := { s₁.directory e with
        hashBytes := nilHash, lastUseTimestampMs := 0, byteSize := 0, firstBlock := none }) rfl)

end Sector

end PageSpeed.SharedMem
