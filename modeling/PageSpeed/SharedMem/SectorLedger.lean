import PageSpeed.SharedMem.SectorLists
import Mathlib.Algebra.Order.BigOperators.Group.Finset
import Mathlib.Tactic.Abel
import Mathlib.Tactic.Ring

/-!
Where the blocks of a sector are: in the free list, in the chain of an entry, or
in the hand of the critical section that is moving them.
-/

namespace PageSpeed.SharedMem.Sector

open Links Bag

structure Ledger (g : Config) (s : Sector) (x : Option ℕ) (free hand : List ℕ) (own : ℕ → List ℕ) : Prop where
  freeChain : Chain s.blockSuccessors s.freeListFront free
  chains : ∀ e, e < g.entriesPerSector → x ≠ some e →
    Chain s.blockSuccessors (s.directory e).firstBlock (own e) ∧
      (own e).length = g.dataBlocksForSize (s.directory e).byteSize
  partition : (free : Multiset ℕ) + (hand : Multiset ℕ) +
    ∑ e ∈ Finset.range g.entriesPerSector, (own e : Multiset ℕ) = Multiset.range g.blocksPerSector
  used : s.stats.usedBlocks + free.length = g.blocksPerSector

namespace Ledger

variable {g : Config} {s s' : Sector} {x : Option ℕ} {free hand : List ℕ} {own : ℕ → List ℕ}

theorem congr (h : Ledger g s x free hand own) (hsucc : s'.blockSuccessors = s.blockSuccessors)
    (hfront : s'.freeListFront = s.freeListFront) (hused : s'.stats.usedBlocks = s.stats.usedBlocks)
    (hentry : ∀ e, x ≠ some e → (s'.directory e).firstBlock = (s.directory e).firstBlock ∧
      (s'.directory e).byteSize = (s.directory e).byteSize) : Ledger g s' x free hand own where
  freeChain := by
    rw [hsucc, hfront]
    exact h.freeChain
  chains := by
    intro e he hx
    rw [hsucc, (hentry e hx).1, (hentry e hx).2]
    exact h.chains e he hx
  partition := h.partition
  used := by
    rw [hused]
    exact h.used

theorem relinked (h : Ledger g s x free hand own) (hrel : Relinked s s') : Ledger g s' x free hand own :=
  h.congr hrel.blockSuccessors hrel.freeListFront hrel.usedBlocks
    fun e _ => ⟨(hrel.same e).firstBlock, (hrel.same e).byteSize⟩

theorem nodup (h : Ledger g s x free hand own) :
    ((free : Multiset ℕ) + (hand : Multiset ℕ) +
      ∑ e ∈ Finset.range g.entriesPerSector, (own e : Multiset ℕ)).Nodup := by
  rw [h.partition]
  exact Multiset.nodup_range _

theorem hand_nodup (h : Ledger g s x free hand own) : hand.Nodup :=
  (Multiset.nodup_add.mp (Multiset.nodup_add.mp h.nodup).1).2.1

theorem hand_free (h : Ledger g s x free hand own) {b : ℕ} (hb : b ∈ hand) : b ∉ free := by
  intro hf
  have hdisj := (Multiset.nodup_add.mp (Multiset.nodup_add.mp h.nodup).1).2.2
  exact Multiset.disjoint_left.mp hdisj (Multiset.mem_coe.mpr hf) (Multiset.mem_coe.mpr hb)

theorem own_le {e : ℕ} (own : ℕ → List ℕ) (he : e < g.entriesPerSector) :
    (own e : Multiset ℕ) ≤ ∑ e ∈ Finset.range g.entriesPerSector, (own e : Multiset ℕ) :=
  Finset.single_le_sum (f := fun e => (own e : Multiset ℕ)) (fun _ _ => Multiset.zero_le _) (Finset.mem_range.mpr he)

theorem hand_own (h : Ledger g s x free hand own) {b e : ℕ} (hb : b ∈ hand) (he : e < g.entriesPerSector) :
    b ∉ own e := by
  intro ho
  have hdisj := (Multiset.nodup_add.mp h.nodup).2.2
  refine Multiset.disjoint_left.mp hdisj (Multiset.mem_add.mpr (Or.inr (Multiset.mem_coe.mpr hb))) ?_
  exact Multiset.mem_of_le (own_le own he) (Multiset.mem_coe.mpr ho)

theorem blockList (h : Ledger g s x free hand own) {e : ℕ} (he : e < g.entriesPerSector) (hx : x ≠ some e) :
    s.blockListForEntry g e = own e := by
  obtain ⟨hchain, hlen⟩ := h.chains e he hx
  unfold blockListForEntry
  rw [← hlen]
  exact hchain.follow_eq

theorem take {e : ℕ} (h : Ledger g s none free [] own) (he : e < g.entriesPerSector) :
    Ledger g s (some e) free (own e) (Function.update own e []) where
  freeChain := h.freeChain
  chains := by
    intro e' he' hx
    have hne : e' ≠ e := fun hee => hx (congrArg some hee.symm)
    rw [Function.update_of_ne hne]
    exact h.chains e' he' nofun
  partition := by
    have hsum := sum_update he (fun l : List ℕ => (l : Multiset ℕ)) own []
    have hp := h.partition
    simp only [Multiset.coe_nil, add_zero] at hsum hp
    rw [← hp, ← hsum]
    abel
  used := h.used

theorem steal {e : ℕ} (h : Ledger g s x free hand own) (he : e < g.entriesPerSector) (hx : x ≠ some e)
    (hf : Frees s s' e) : Ledger g s' x free (hand ++ own e) (Function.update own e []) where
  freeChain := by
    rw [hf.blockSuccessors, hf.freeListFront]
    exact h.freeChain
  chains := by
    intro e' he' hx'
    rw [hf.blockSuccessors]
    by_cases hee : e' = e
    · subst hee
      rw [Function.update_self, hf.emptied.firstBlock, hf.emptied.byteSize]
      refine ⟨rfl, ?_⟩
      change 0 = (0 + g.blockSize - 1) / g.blockSize
      have hpos := g.blockSize_pos
      rw [Nat.div_eq_of_lt (by omega)]
    · rw [Function.update_of_ne hee, (hf.same e' hee).firstBlock, (hf.same e' hee).byteSize]
      exact h.chains e' he' hx'
  partition := by
    have hsum := sum_update he (fun l : List ℕ => (l : Multiset ℕ)) own []
    simp only [Multiset.coe_nil, add_zero] at hsum
    rw [← h.partition, ← hsum, ← Multiset.coe_add]
    abel
  used := by
    rw [hf.usedBlocks]
    exact h.used

theorem alloc (h : Ledger g s x free hand own) (goal : ℕ) :
    (s.allocBlocksFromFreeList goal).2 = free.take goal ∧
      Ledger g (s.allocBlocksFromFreeList goal).1 x (free.drop goal)
        (hand ++ (s.allocBlocksFromFreeList goal).2) own := by
  obtain ⟨htake, hdrop⟩ := h.freeChain.takeFront_eq goal
  refine ⟨htake, hdrop, h.chains, ?_, ?_⟩
  · have hsplit : (free : Multiset ℕ) = (free.take goal : Multiset ℕ) + (free.drop goal : Multiset ℕ) := by
      rw [Multiset.coe_add, List.take_append_drop]
    change _ + ((hand ++ (takeFront s.blockSuccessors goal s.freeListFront).1 : List ℕ) : Multiset ℕ) + _ = _
    rw [htake, ← Multiset.coe_add, ← h.partition, hsplit]
    abel
  · change s.stats.usedBlocks + ((takeFront s.blockSuccessors goal s.freeListFront).1.length : ℤ) +
      (free.drop goal).length = _
    rw [htake, ← h.used, List.length_take, List.length_drop]
    omega

theorem giveBack {bs rest : List ℕ} (h : Ledger g s x free hand own)
    (hsplit : (hand : Multiset ℕ) = (bs : Multiset ℕ) + (rest : Multiset ℕ)) :
    Ledger g (s.returnBlocksToFreeList bs) x (bs.reverse ++ free) rest own := by
  have hmem : ∀ b ∈ bs, b ∈ hand := by
    intro b hb
    rw [← Multiset.mem_coe, hsplit]
    exact Multiset.mem_add.mpr (Or.inl hb)
  have hnodup : bs.Nodup := by
    have hn := Multiset.coe_nodup.mpr h.hand_nodup
    rw [hsplit] at hn
    exact (Multiset.nodup_add.mp hn).1
  refine ⟨?_, ?_, ?_, ?_⟩
  · exact chain_prepend hnodup (fun b hb => h.hand_free (hmem b hb)) h.freeChain
  · intro e he hx
    obtain ⟨hchain, hlen⟩ := h.chains e he hx
    refine ⟨hchain.congr fun b hb => prepend_of_notMem ?_, hlen⟩
    intro hbs
    exact h.hand_own (hmem b hbs) he hb
  · rw [← h.partition, hsplit, ← Multiset.coe_add, ← Multiset.coe_reverse bs]
    abel
  · change s.stats.usedBlocks - (bs.length : ℤ) + ((bs.reverse ++ free).length : ℤ) = _
    rw [← h.used, List.length_append, List.length_reverse]
    omega

end Ledger

structure Listed (g : Config) (s : Sector) (x : Option ℕ) (l : List ℕ) : Prop where
  lru : s.Lru l
  bound : ∀ e ∈ l, e < g.entriesPerSector
  sized : ∀ e, e < g.entriesPerSector → x ≠ some e → 0 < (s.directory e).byteSize → e ∈ l

/-- The entry is as it was or, if it was writeable, has been emptied; `o` and `o'` are its chains. -/
def Yields (x y : CacheEntry) (o o' : List ℕ) : Prop :=
  (CacheEntry.Same x y ∧ o' = o) ∨ (x.writeable = true ∧ CacheEntry.Emptied x y ∧ o' = [])

theorem Yields.trans {x y z : CacheEntry} {o o' o'' : List ℕ} (h : Yields x y o o') (h' : Yields y z o' o'') :
    Yields x z o o'' := by
  obtain ⟨hs, ho⟩ | ⟨hw, hem, ho⟩ := h <;> obtain ⟨hs', ho'⟩ | ⟨hw', hem', ho'⟩ := h'
  · exact Or.inl ⟨hs.trans hs', ho'.trans ho⟩
  · exact Or.inr ⟨hs.writeable.symm.trans hw', ⟨hem'.hashBytes, hem'.byteSize, hem'.firstBlock,
      hem'.flags.trans hs.flags⟩, ho'⟩
  · exact Or.inr ⟨hw, ⟨hs'.hashBytes.trans hem.hashBytes, hs'.byteSize.trans hem.byteSize,
      hs'.firstBlock.trans hem.firstBlock, hs'.flags.trans hem.flags⟩, ho'.trans ho⟩
  · exact Or.inr ⟨hw, ⟨hem'.hashBytes, hem'.byteSize, hem'.firstBlock, hem'.flags.trans hem.flags⟩, ho'⟩

structure Steals (s s' : Sector) (own own' : ℕ → List ℕ) : Prop where
  yields : ∀ e, Yields (s.directory e) (s'.directory e) (own e) (own' e)
  blockBytes : s'.blockBytes = s.blockBytes
  disabled : s'.disabled = s.disabled
  checkFailed : s'.checkFailed = s.checkFailed

theorem Steals.refl (s : Sector) (own : ℕ → List ℕ) : Steals s s own own :=
  ⟨fun _ => Or.inl ⟨.refl _, rfl⟩, rfl, rfl, rfl⟩

theorem Steals.trans {s s' s'' : Sector} {own own' own'' : ℕ → List ℕ} (h : Steals s s' own own')
    (h' : Steals s' s'' own' own'') : Steals s s'' own own'' :=
  ⟨fun e => (h.yields e).trans (h'.yields e), h'.blockBytes.trans h.blockBytes, h'.disabled.trans h.disabled,
    h'.checkFailed.trans h.checkFailed⟩

variable {g : Config} {s : Sector} {free hand : List ℕ} {own : ℕ → List ℕ} {l : List ℕ} {x e : ℕ}

theorem not_writeable_of_creating {y : CacheEntry} (h : y.creating = true) : y.writeable ≠ true := by
  unfold CacheEntry.writeable
  rw [h]
  simp

theorem markEntryFree_steals (hledger : Ledger g s (some x) free hand own) (hlisted : Listed g s (some x) l)
    (hx : (s.directory x).creating = true) (he : e ∈ l) (hw : (s.directory e).writeable = true) :
    Ledger g (s.markEntryFree e) (some x) free (hand ++ own e) (Function.update own e []) ∧
      Listed g (s.markEntryFree e) (some x) (l.erase e) ∧
      Steals s (s.markEntryFree e) own (Function.update own e []) := by
  obtain ⟨hfrees, hchk, hl⟩ := markEntryFree_spec hlisted.lru hw
  have hlt := hlisted.bound e he
  have hxe : some x ≠ some e := by
    intro h
    rw [Option.some.inj h] at hx
    exact not_writeable_of_creating hx hw
  refine ⟨hledger.steal hlt hxe hfrees, ⟨hl, ?_, ?_⟩, ?_, hfrees.blockBytes, hfrees.disabled, hchk⟩
  · intro e' he'
    exact hlisted.bound e' (List.mem_of_mem_erase he')
  · intro e' he' hx' hsize
    by_cases hee : e' = e
    · subst hee
      rw [hfrees.emptied.byteSize] at hsize
      exact absurd hsize (lt_irrefl 0)
    · rw [(hfrees.same e' hee).byteSize] at hsize
      exact (List.mem_erase_of_ne hee).mpr (hlisted.sized e' he' hx' hsize)
  · intro e'
    by_cases hee : e' = e
    · subst hee
      exact Or.inr ⟨hw, hfrees.emptied, Function.update_self _ _ _⟩
    · exact Or.inl ⟨hfrees.same e' hee, Function.update_of_ne hee _ _⟩

theorem mem_of_rear (hlisted : Listed g s (some x) l) {e' : ℕ} (h : s.lruListRear = some e') : e' ∈ l := by
  rw [hlisted.lru.rear_eq] at h
  exact List.mem_of_getLast? h

theorem mem_of_prev (hlisted : Listed g s (some x) l) {e' : ℕ} (h : (s.directory e).lruPrev = some e') : e' ∈ l := by
  by_cases he : e ∈ l
  · obtain ⟨xs, ys, rfl⟩ := List.append_of_mem he
    have hp := (hlisted.lru.links xs e ys rfl).2
    exact List.mem_append_left _ (List.mem_of_getLast? (hp.symm.trans h))
  · have hp := (hlisted.lru.unlinked e he).2
    rw [show s.prev e = some e' from h] at hp
    cases hp

theorem stealBlocks_spec (goal fuel got : ℕ) {o : Option ℕ}
    (hledger : Ledger g s (some x) free hand own) (hlisted : Listed g s (some x) l)
    (hx : (s.directory x).creating = true) (ho : ∀ e, o = some e → e ∈ l) :
    ∃ own' l', Ledger g (stealBlocks g goal fuel o s hand got).1 (some x) free
        (stealBlocks g goal fuel o s hand got).2.1 own' ∧
      Listed g (stealBlocks g goal fuel o s hand got).1 (some x) l' ∧
      Steals s (stealBlocks g goal fuel o s hand got).1 own own' ∧
      (stealBlocks g goal fuel o s hand got).2.2 + hand.length =
        got + (stealBlocks g goal fuel o s hand got).2.1.length := by
  induction fuel generalizing o s hand own l got with
  | zero => exact ⟨own, l, hledger, hlisted, .refl _ _, rfl⟩
  | succ fuel ih =>
    cases o with
    | none => exact ⟨own, l, hledger, hlisted, .refl _ _, rfl⟩
    | some e =>
      unfold stealBlocks
      by_cases hgot : got < goal
      · rw [if_pos hgot]
        by_cases hw : (s.directory e).writeable = true
        · simp only [if_pos hw]
          have he := ho e rfl
          have hxe : some x ≠ some e := by
            intro h
            rw [Option.some.inj h] at hx
            exact not_writeable_of_creating hx hw
          have hlen := (hledger.chains e (hlisted.bound e he) hxe).2
          obtain ⟨hledger', hlisted', hsteals⟩ := markEntryFree_steals hledger hlisted hx he hw
          rw [hledger.blockList (hlisted.bound e he) hxe]
          have hx' : ((s.markEntryFree e).directory x).creating = true := by
            obtain ⟨hs, -⟩ | ⟨hwx, -, -⟩ := hsteals.yields x
            · rw [hs.creating]
              exact hx
            · exact absurd hwx (not_writeable_of_creating hx)
          obtain ⟨own', l', h1, h2, h3, h4⟩ :=
            ih (got + g.dataBlocksForSize (s.directory e).byteSize) hledger' hlisted' hx'
              fun e' he' => mem_of_rear hlisted' he'
          refine ⟨own', l', h1, h2, hsteals.trans h3, ?_⟩
          rw [List.length_append] at h4
          omega
        · rw [if_neg hw]
          exact ih got hledger hlisted hx fun e' he' => mem_of_prev hlisted he'
      · rw [if_neg hgot]
        exact ⟨own, l, hledger, hlisted, .refl _ _, rfl⟩

/-- Enough fuel for the walk from an entry of the list on: each steal shortens the list and starts over. -/
theorem stealBlocks_fuel (goal fuel got : ℕ) {o : Option ℕ} (hl : s.Lru l) (ho : ∀ e, o = some e →
    ∃ xs ys, l = xs ++ e :: ys ∧ xs.length + 1 + l.length * l.length ≤ fuel) :
    stealBlocks g goal (fuel + 1) o s hand got = stealBlocks g goal fuel o s hand got := by
  induction fuel generalizing o s hand l got with
  | zero =>
    cases o with
    | none => rfl
    | some e =>
      obtain ⟨xs, ys, -, hle⟩ := ho e rfl
      omega
  | succ fuel ih =>
    cases o with
    | none => rfl
    | some e =>
      obtain ⟨xs, ys, hsplit, hle⟩ := ho e rfl
      rw [stealBlocks, stealBlocks]
      by_cases hw : (s.directory e).writeable = true
      · have hl' := (markEntryFree_spec hl hw).2.2
        have hlength : (l.erase e).length + 1 = l.length := by
          rw [List.length_erase_of_mem (by rw [hsplit]; simp)]
          have hpos : 0 < l.length := by
            rw [hsplit]
            simp
          omega
        simp only [if_pos hw]
        rw [ih _ hl' fun e' he' => ?_]
        rw [hl'.rear_eq, List.getLast?_eq_some_iff] at he'
        obtain ⟨xs', hxs'⟩ := he'
        refine ⟨xs', [], hxs', ?_⟩
        have hrear : xs'.length + 1 = (l.erase e).length := by rw [hxs', List.length_append, List.length_singleton]
        rw [← hlength] at hle
        have hsquare : ((l.erase e).length + 1) * ((l.erase e).length + 1) =
            (l.erase e).length * (l.erase e).length + 2 * (l.erase e).length + 1 := by ring
        omega
      · simp only [if_neg hw]
        rw [ih got hl fun e' he' => ?_]
        have hp := (hl.links xs e ys hsplit).2
        rw [show s.prev e = some e' from he', eq_comm, List.getLast?_eq_some_iff] at hp
        obtain ⟨xs', rfl⟩ := hp
        refine ⟨xs', e :: ys, by rw [hsplit, List.append_assoc]; rfl, ?_⟩
        rw [List.length_append, List.length_singleton] at hle
        omega

theorem stealFuel_suffices (goal more got : ℕ) (hlisted : Listed g s (some x) l) :
    stealBlocks g goal (stealFuel g + more) s.lruListRear s hand got =
      stealBlocks g goal (stealFuel g) s.lruListRear s hand got := by
  have hle : l.length ≤ g.entriesPerSector := by
    have hsub : l ⊆ List.range g.entriesPerSector := fun e he => List.mem_range.mpr (hlisted.bound e he)
    have hcount := (List.subperm_of_subset hlisted.lru.nodup hsub).length_le
    rwa [List.length_range] at hcount
  induction more with
  | zero => rfl
  | succ more ih =>
    rw [← ih, ← Nat.add_assoc]
    refine stealBlocks_fuel goal _ got hlisted.lru fun e he => ?_
    rw [hlisted.lru.rear_eq, List.getLast?_eq_some_iff] at he
    obtain ⟨xs, hxs⟩ := he
    refine ⟨xs, [], hxs, ?_⟩
    have hlength : xs.length + 1 = l.length := by rw [hxs, List.length_append, List.length_singleton]
    have hsquare := Nat.mul_le_mul hle hle
    have hfuel : stealFuel g = g.entriesPerSector * g.entriesPerSector + 2 * g.entriesPerSector + 1 := by
      rw [stealFuel]
      ring
    omega

theorem tryAllocateBlocks_spec (goal : ℕ) (hledger : Ledger g s (some x) free hand own)
    (hlisted : Listed g s (some x) l) (hx : (s.directory x).creating = true) :
    ∃ free' own' l', Ledger g (s.tryAllocateBlocks g goal hand).1 (some x) free'
        (s.tryAllocateBlocks g goal hand).2.1 own' ∧
      Listed g (s.tryAllocateBlocks g goal hand).1 (some x) l' ∧
      Steals s (s.tryAllocateBlocks g goal hand).1 own own' ∧
      ((s.tryAllocateBlocks g goal hand).2.2 = true →
        hand.length + goal ≤ (s.tryAllocateBlocks g goal hand).2.1.length) := by
  obtain ⟨-, hledger'⟩ := hledger.alloc goal
  have hlisted' : Listed g (s.allocBlocksFromFreeList goal).1 (some x) l := ⟨hlisted.lru, hlisted.bound, hlisted.sized⟩
  obtain ⟨own', l', h1, h2, h3, h4⟩ := stealBlocks_spec goal (stealFuel g)
    (s.allocBlocksFromFreeList goal).2.length hledger' hlisted' hx fun e' he' => mem_of_rear hlisted' he'
  refine ⟨_, own', l', h1, h2, ⟨h3.yields, h3.blockBytes, h3.disabled, h3.checkFailed⟩, ?_⟩
  intro hok
  have hgoal := of_decide_eq_true hok
  rw [List.length_append] at h4
  change _ ≤ (stealBlocks g goal _ _ _ _ _).2.1.length
  omega

end PageSpeed.SharedMem.Sector
