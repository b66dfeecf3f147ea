import PageSpeed.SharedMem.SectorLedger

/-!
What the critical sections of writers do to a sector that is in order.
-/

namespace PageSpeed.SharedMem.Sector

open Links Bag

variable {g : Config} {s s' : Sector} {free hand : List ℕ} {own : ℕ → List ℕ} {l : List ℕ} {e : ℕ}

theorem dataBlocksForSize_zero (g : Config) : g.dataBlocksForSize 0 = 0 := by
  have hpos := g.blockSize_pos
  change (0 + g.blockSize - 1) / g.blockSize = 0
  exact Nat.div_eq_of_lt (by omega)

theorem Ledger.clear (h : Ledger g s (some e) free [] own) (hown : own e = []) (hf : Frees s s' e) :
    Ledger g s' none free [] own where
  freeChain := by
    rw [hf.blockSuccessors, hf.freeListFront]
    exact h.freeChain
  chains := by
    intro e' he' _
    rw [hf.blockSuccessors]
    by_cases hee : e' = e
    · subst hee
      rw [hown, hf.emptied.firstBlock, hf.emptied.byteSize, dataBlocksForSize_zero]
      exact ⟨rfl, rfl⟩
    · rw [(hf.same e' hee).firstBlock, (hf.same e' hee).byteSize]
      exact h.chains e' he' fun hx => hee (Option.some.inj hx).symm
  partition := h.partition
  used := by
    rw [hf.usedBlocks]
    exact h.used

structure Fills (s s' : Sector) (e size : ℕ) (blocks : List ℕ) : Prop where
  hashBytes : (s'.directory e).hashBytes = (s.directory e).hashBytes
  byteSize : (s'.directory e).byteSize = size
  firstBlock : (s'.directory e).firstBlock = blocks.head?
  flags : (s'.directory e).flags = (s.directory e).flags
  same : ∀ e', e' ≠ e → CacheEntry.Same (s.directory e') (s'.directory e')
  blockSuccessors : s'.blockSuccessors = link s.blockSuccessors blocks
  freeListFront : s'.freeListFront = s.freeListFront
  usedBlocks : s'.stats.usedBlocks = s.stats.usedBlocks
  blockBytes : s'.blockBytes = s.blockBytes
  disabled : s'.disabled = s.disabled

theorem fillEntry_spec (hl : s.Lru l) (e : ℕ) (timestampMs : ℤ) (size : ℕ) (blocks : List ℕ) :
    Fills s (s.fillEntry e timestampMs size blocks) e size blocks ∧
      (s.fillEntry e timestampMs size blocks).checkFailed = s.checkFailed ∧
      (s.fillEntry e timestampMs size blocks).Lru (e :: l.erase e) := by
  obtain ⟨s₁, hs₁⟩ : ∃ s₁, s₁ = s.setEntry e { s.directory e with byteSize := size } := ⟨_, rfl⟩
  have hl₁ : s₁.Lru l := by
    rw [hs₁]
    refine hl.congr ?_ ?_
    · exact congrFun (setEntry_next_same (x := { s.directory e with byteSize := size }) rfl)
    · exact congrFun (setEntry_prev_same (x := { s.directory e with byteSize := size }) rfl)
  obtain ⟨hrel, hchk, hl₂⟩ := touch_spec hl₁ timestampMs e
  obtain ⟨s₂, hs₂⟩ : ∃ s₂, s₂ = s₁.touchEntry timestampMs e := ⟨_, rfl⟩
  have heq : s.fillEntry e timestampMs size blocks = (s₂.linkBlockSuccessors blocks).setEntry e
      { s₂.directory e with firstBlock := blocks.head? } := by
    rw [hs₂, hs₁]
    rfl
  rw [← hs₂] at hrel hchk hl₂
  have hself : s₁.directory e = { s.directory e with byteSize := size } := by
    rw [hs₁, setEntry_self]
  have hother : ∀ e', e' ≠ e → s₁.directory e' = s.directory e' := by
    intro e' he
    rw [hs₁, setEntry_of_ne _ he]
  have hrest : s₁.blockSuccessors = s.blockSuccessors ∧ s₁.freeListFront = s.freeListFront ∧
      s₁.stats = s.stats ∧ s₁.blockBytes = s.blockBytes ∧ s₁.disabled = s.disabled ∧
      s₁.checkFailed = s.checkFailed := by
    rw [hs₁]
    exact ⟨rfl, rfl, rfl, rfl, rfl, rfl⟩
  obtain ⟨hsucc, hfront, hstats, hbytes, hdis, hcf⟩ := hrest
  have hsame := hrel.same e
  rw [hself] at hsame
  rw [heq]
  refine ⟨⟨?_, ?_, ?_, ?_, ?_, ?_, ?_, ?_, ?_, ?_⟩, hchk.trans hcf, ?_⟩
  · rw [setEntry_self]
    exact hsame.hashBytes
  · rw [setEntry_self]
    exact hsame.byteSize
  · rw [setEntry_self]
  · rw [setEntry_self]
    exact hsame.flags
  · intro e' he
    rw [setEntry_of_ne _ he, ← hother e' he]
    exact hrel.same e'
  · change link s₂.blockSuccessors blocks = _
    rw [hrel.blockSuccessors, hsucc]
  · exact hrel.freeListFront.trans hfront
  · exact hrel.usedBlocks.trans (congrArg _ hstats)
  · exact hrel.blockBytes.trans hbytes
  · exact hrel.disabled.trans hdis
  · refine hl₂.congr ?_ ?_
    · exact congrFun (setEntry_next_same (s := s₂.linkBlockSuccessors blocks) (e := e)
        (x := { s₂.directory e with firstBlock := blocks.head? }) rfl)
    · exact congrFun (setEntry_prev_same (s := s₂.linkBlockSuccessors blocks) (e := e)
        (x := { s₂.directory e with firstBlock := blocks.head? }) rfl)

theorem Ledger.fill {size : ℕ} (h : Ledger g s (some e) free hand own) (he : e < g.entriesPerSector)
    (hown : own e = []) (hlen : hand.length = g.dataBlocksForSize size) (hf : Fills s s' e size hand) :
    Ledger g s' none free [] (Function.update own e hand) where
  freeChain := by
    rw [hf.blockSuccessors, hf.freeListFront]
    refine h.freeChain.congr fun b hb => link_of_notMem ?_
    exact fun hh => h.hand_free hh hb
  chains := by
    intro e' he' _
    rw [hf.blockSuccessors]
    by_cases hee : e' = e
    · subst hee
      rw [Function.update_self, hf.firstBlock, hf.byteSize]
      exact ⟨chain_link h.hand_nodup _, hlen⟩
    · rw [Function.update_of_ne hee, (hf.same e' hee).firstBlock, (hf.same e' hee).byteSize]
      obtain ⟨hchain, hlen'⟩ := h.chains e' he' fun hx => hee (Option.some.inj hx).symm
      refine ⟨hchain.congr fun b hb => link_of_notMem ?_, hlen'⟩
      exact fun hh => h.hand_own hh he' hb
  partition := by
    have hsum := sum_update he (fun l : List ℕ => (l : Multiset ℕ)) own hand
    simp only [hown, Multiset.coe_nil, add_zero] at hsum
    rw [← h.partition, hsum, Multiset.coe_nil]
    abel
  used := by
    rw [hf.usedBlocks]
    exact h.used

structure Spares (s s' : Sector) (e : ℕ) (own own' : ℕ → List ℕ) : Prop where
  yields : ∀ e', e' ≠ e → Yields (s.directory e') (s'.directory e') (own e') (own' e')
  blockBytes : s'.blockBytes = s.blockBytes
  disabled : s'.disabled = s.disabled
  checkFailed : s'.checkFailed = s.checkFailed

structure Cleared (x y : CacheEntry) : Prop where
  hashBytes : y.hashBytes = nilHash
  byteSize : y.byteSize = 0
  creating : y.creating = false
  openCount : y.openCount = x.openCount

def dropEntry (s : Sector) (e : ℕ) (hand : List ℕ) : Sector :=
  let s := s.returnBlocksToFreeList hand
  let s := s.setEntry e ((s.directory e).setCreating false)
  s.markEntryFree e

theorem dropEntry_spec (h : Ledger g s (some e) free hand own) (hlisted : Listed g s (some e) l) (hown : own e = [])
    (hopen : (s.directory e).openCount = 0#32) :
    Ledger g (s.dropEntry e hand) none (hand.reverse ++ free) [] own ∧
      Listed g (s.dropEntry e hand) none (l.erase e) ∧ Spares s (s.dropEntry e hand) e own own ∧
      Cleared (s.directory e) ((s.dropEntry e hand).directory e) := by
  obtain ⟨s₁, hs₁⟩ : ∃ s₁ : Sector, s₁ = (s.returnBlocksToFreeList hand).setEntry e
      ((s.directory e).setCreating false) := ⟨_, rfl⟩
  have heq : s.dropEntry e hand = s₁.markEntryFree e := by
    rw [hs₁]
    rfl
  have hself : s₁.directory e = (s.directory e).setCreating false := by rw [hs₁, setEntry_self]
  have hother : ∀ e', e' ≠ e → s₁.directory e' = s.directory e' := by
    intro e' he
    rw [hs₁, setEntry_of_ne _ he]
    rfl
  have hl₁ : s₁.Lru l := by
    rw [hs₁]
    refine hlisted.lru.congr ?_ ?_
    · exact congrFun (setEntry_next_same (s := s.returnBlocksToFreeList hand)
        (x := (s.directory e).setCreating false) rfl)
    · exact congrFun (setEntry_prev_same (s := s.returnBlocksToFreeList hand)
        (x := (s.directory e).setCreating false) rfl)
  have hledger : Ledger g s₁ (some e) (hand.reverse ++ free) [] own := by
    have hback : Ledger g (s.returnBlocksToFreeList hand) (some e) (hand.reverse ++ free) [] own :=
      h.giveBack (by simp)
    rw [hs₁]
    refine hback.congr rfl rfl rfl fun e' hx => ?_
    rw [setEntry_of_ne _ fun hee => hx (congrArg some hee.symm)]
    exact ⟨rfl, rfl⟩
  have hw : (s₁.directory e).writeable = true := by
    rw [hself]
    unfold CacheEntry.writeable
    rw [CacheEntry.creating_setCreating, CacheEntry.openCount_setCreating, hopen]
    rfl
  have hrest : s₁.blockBytes = s.blockBytes ∧ s₁.disabled = s.disabled ∧ s₁.checkFailed = s.checkFailed := by
    rw [hs₁]
    exact ⟨rfl, rfl, rfl⟩
  obtain ⟨hbytes, hdis, hcf⟩ := hrest
  obtain ⟨hfrees, hchk, hl₂⟩ := markEntryFree_spec hl₁ hw
  rw [heq]
  refine ⟨hledger.clear hown hfrees, ⟨hl₂, ?_, ?_⟩, ⟨?_, hfrees.blockBytes.trans hbytes,
    hfrees.disabled.trans hdis, hchk.trans hcf⟩, hfrees.emptied.hashBytes, hfrees.emptied.byteSize, ?_, ?_⟩
  · intro e' he'
    exact hlisted.bound e' (List.mem_of_mem_erase he')
  · intro e' he' _ hsize
    have hee : e' ≠ e := by
      rintro rfl
      rw [hfrees.emptied.byteSize] at hsize
      exact absurd hsize (lt_irrefl 0)
    rw [(hfrees.same e' hee).byteSize, hother e' hee] at hsize
    refine (List.mem_erase_of_ne hee).mpr (hlisted.sized e' he' ?_ hsize)
    exact fun hx => hee (Option.some.inj hx).symm
  · intro e' hee
    refine Or.inl ⟨?_, rfl⟩
    rw [← hother e' hee]
    exact hfrees.same e' hee
  · have hflags := hfrees.emptied.flags
    unfold CacheEntry.creating
    rw [hflags, hself]
    exact CacheEntry.creating_setCreating _ false
  · have hflags := hfrees.emptied.flags
    unfold CacheEntry.openCount
    rw [hflags, hself]
    exact CacheEntry.openCount_setCreating _ false

theorem growBlocks_spec (want : ℕ) (h : Ledger g s (some e) free hand own) (hlisted : Listed g s (some e) l)
    (hcreating : (s.directory e).creating = true) :
    ∃ free' own' l', Ledger g (s.growBlocks g want hand).1 (some e) free' (s.growBlocks g want hand).2.1 own' ∧
      Listed g (s.growBlocks g want hand).1 (some e) l' ∧ Steals s (s.growBlocks g want hand).1 own own' ∧
      ((s.growBlocks g want hand).2.2 = true → want ≤ (s.growBlocks g want hand).2.1.length) := by
  unfold growBlocks
  split_ifs with hlt
  · obtain ⟨free', own', l', h1, h2, h3, h4⟩ := tryAllocateBlocks_spec (want - hand.length) h hlisted hcreating
    refine ⟨free', own', l', h1, h2, h3, fun hok => ?_⟩
    have hle := h4 hok
    omega
  · exact ⟨free, own, l, h, hlisted, .refl _ _, fun _ => not_lt.mp hlt⟩

theorem shrinkBlocks_spec (want : ℕ) (h : Ledger g s (some e) free hand own) (hlisted : Listed g s (some e) l)
    (hle : want ≤ hand.length) :
    ∃ free', Ledger g (s.shrinkBlocks want hand).1 (some e) free' (s.shrinkBlocks want hand).2 own ∧
      Listed g (s.shrinkBlocks want hand).1 (some e) l ∧ Steals s (s.shrinkBlocks want hand).1 own own ∧
      (s.shrinkBlocks want hand).2.length = want := by
  unfold shrinkBlocks
  split_ifs with hlt
  · have hsplit : (hand : Multiset ℕ) =
        ((hand.drop want).reverse : Multiset ℕ) + (hand.take want : Multiset ℕ) := by
      rw [Multiset.coe_reverse, add_comm, Multiset.coe_add, List.take_append_drop]
    refine ⟨_, h.giveBack hsplit, ⟨hlisted.lru, hlisted.bound, hlisted.sized⟩, ?_, List.length_take_of_le hle⟩
    exact ⟨(Steals.refl s own).yields, rfl, rfl, rfl⟩
  · exact ⟨free, h, hlisted, .refl _ _, le_antisymm (not_lt.mp hlt) hle⟩

structure Written (x y : CacheEntry) (size : ℕ) : Prop where
  hashBytes : y.hashBytes = x.hashBytes
  byteSize : y.byteSize = size
  flags : y.flags = x.flags

theorem putIntoEntry_spec (h : Ledger g s none free [] own) (hlisted : Listed g s none l)
    (he : e < g.entriesPerSector) (hcreating : (s.directory e).creating = true)
    (hopen : (s.directory e).openCount = 0#32) (hdis : s.disabled = false) (timestampMs : ℤ) (value : GoogleString) :
    ∃ free' own' l', Ledger g (s.putIntoEntry g e timestampMs value).1 none free' [] own' ∧
      Listed g (s.putIntoEntry g e timestampMs value).1 none l' ∧
      Spares s (s.putIntoEntry g e timestampMs value).1 e own own' ∧
      ((s.putIntoEntry g e timestampMs value).2 = some (own' e) ∧
          Written (s.directory e) ((s.putIntoEntry g e timestampMs value).1.directory e) value.length ∨
        (s.putIntoEntry g e timestampMs value).2 = none ∧
          Cleared (s.directory e) ((s.putIntoEntry g e timestampMs value).1.directory e)) := by
  have htake := h.take he
  have hlisted' : Listed g s (some e) l := ⟨hlisted.lru, hlisted.bound, fun e' he' _ => hlisted.sized e' he' nofun⟩
  obtain ⟨free₁, own₁, l₁, hledger₁, hlisted₁, hsteals, henough⟩ :=
    growBlocks_spec (g.dataBlocksForSize value.length) htake hlisted' hcreating
  rw [← h.blockList he nofun] at hledger₁ hlisted₁ hsteals henough
  obtain ⟨a, ha⟩ : ∃ a, a = s.growBlocks g (g.dataBlocksForSize value.length) (s.blockListForEntry g e) := ⟨_, rfl⟩
  rw [← ha] at hledger₁ hlisted₁ hsteals henough
  -- The entry is being written, so it is not among those that were given up.
  have hsame : CacheEntry.Same (s.directory e) (a.1.directory e) ∧ own₁ e = [] := by
    obtain ⟨hs, ho⟩ | ⟨hw, -, -⟩ := hsteals.yields e
    · exact ⟨hs, ho.trans (Function.update_self _ _ _)⟩
    · exact absurd hw (not_writeable_of_creating hcreating)
  have hyields : ∀ e', e' ≠ e → Yields (s.directory e') (a.1.directory e') (own e') (own₁ e') := by
    intro e' hee
    have hy := hsteals.yields e'
    rw [Function.update_of_ne hee] at hy
    exact hy
  have heq : s.putIntoEntry g e timestampMs value =
      if a.2.2 then
        ((a.1.shrinkBlocks (g.dataBlocksForSize value.length) a.2.1).1.fillEntry e timestampMs value.length
          (a.1.shrinkBlocks (g.dataBlocksForSize value.length) a.2.1).2,
          some (a.1.shrinkBlocks (g.dataBlocksForSize value.length) a.2.1).2)
      else (a.1.dropEntry e a.2.1, none) := by
    unfold putIntoEntry
    rw [if_neg (by rw [hdis]; exact Bool.false_ne_true), ha]
    rfl
  rw [heq]
  split_ifs with hok
  · obtain ⟨free₂, hledger₂, hlisted₂, hsteals₂, hlen⟩ :=
      shrinkBlocks_spec (g.dataBlocksForSize value.length) hledger₁ hlisted₁ (henough hok)
    obtain ⟨b, hb⟩ : ∃ b, b = a.1.shrinkBlocks (g.dataBlocksForSize value.length) a.2.1 := ⟨_, rfl⟩
    have hdir : b.1.directory = a.1.directory := by
      rw [hb]
      unfold shrinkBlocks
      split_ifs <;> rfl
    rw [← hb] at hledger₂ hlisted₂ hsteals₂ hlen ⊢
    obtain ⟨hfills, hchk, hlru⟩ := fillEntry_spec hlisted₂.lru e timestampMs value.length b.2
    refine ⟨free₂, Function.update own₁ e b.2, e :: l₁.erase e, hledger₂.fill he hsame.2 hlen hfills,
      ⟨hlru, ?_, ?_⟩, ⟨?_, ?_, ?_, ?_⟩, Or.inl ⟨?_, ?_⟩⟩
    · intro e' he'
      obtain rfl | he' := List.mem_cons.mp he'
      · exact he
      · exact hlisted₁.bound e' (List.mem_of_mem_erase he')
    · intro e' he' _ hsize
      by_cases hee : e' = e
      · exact hee ▸ List.mem_cons_self
      · rw [(hfills.same e' hee).byteSize] at hsize
        refine List.mem_cons_of_mem e ((List.mem_erase_of_ne hee).mpr (hlisted₂.sized e' he' ?_ hsize))
        exact fun hx => hee (Option.some.inj hx).symm
    · intro e' hee
      have hs := hfills.same e' hee
      rw [hdir] at hs
      rw [Function.update_of_ne hee]
      exact (hyields e' hee).trans (Or.inl ⟨hs, rfl⟩)
    · exact hfills.blockBytes.trans (hsteals₂.blockBytes.trans hsteals.blockBytes)
    · exact hfills.disabled.trans (hsteals₂.disabled.trans hsteals.disabled)
    · exact hchk.trans (hsteals₂.checkFailed.trans hsteals.checkFailed)
    · rw [Function.update_self]
    · refine ⟨?_, hfills.byteSize, ?_⟩
      · rw [hfills.hashBytes, hdir]
        exact hsame.1.hashBytes
      · rw [hfills.flags, hdir]
        exact hsame.1.flags
  · have hopen₁ : (a.1.directory e).openCount = 0#32 := hsame.1.openCount.trans hopen
    obtain ⟨hledger₂, hlisted₂, hspares, hcleared⟩ := dropEntry_spec hledger₁ hlisted₁ hsame.2 hopen₁
    refine ⟨_, own₁, _, hledger₂, hlisted₂, ⟨?_, hspares.blockBytes.trans hsteals.blockBytes,
      hspares.disabled.trans hsteals.disabled, hspares.checkFailed.trans hsteals.checkFailed⟩, Or.inr ⟨rfl, ?_⟩⟩
    · exact fun e' hee => (hyields e' hee).trans (hspares.yields e' hee)
    · exact ⟨hcleared.hashBytes, hcleared.byteSize, hcleared.creating,
        hcleared.openCount.trans hsame.1.openCount⟩

theorem deleteReady_spec (h : Ledger g s none free [] own) (hlisted : Listed g s none l)
    (he : e < g.entriesPerSector) (hopen : (s.directory e).openCount = 0#32) (hdis : s.disabled = false) :
    ∃ free' own' l', Ledger g (s.deleteReady g e) none free' [] own' ∧ Listed g (s.deleteReady g e) none l' ∧
      Spares s (s.deleteReady g e) e own own' ∧ Cleared (s.directory e) ((s.deleteReady g e).directory e) := by
  have hlisted' : Listed g s (some e) l := ⟨hlisted.lru, hlisted.bound, fun e' he' _ => hlisted.sized e' he' nofun⟩
  have heq : s.deleteReady g e = s.dropEntry e (own e) := by
    unfold deleteReady
    rw [if_neg (by rw [hdis]; exact Bool.false_ne_true), h.blockList he nofun]
    rfl
  obtain ⟨hledger, hlisted₁, hspares, hcleared⟩ :=
    dropEntry_spec (h.take he) hlisted' (Function.update_self _ _ _) hopen
  rw [heq]
  refine ⟨_, _, _, hledger, hlisted₁, ⟨?_, hspares.blockBytes, hspares.disabled, hspares.checkFailed⟩, hcleared⟩
  intro e' hee
  have hy := hspares.yields e' hee
  rw [Function.update_of_ne hee] at hy ⊢
  exact hy

end PageSpeed.SharedMem.Sector
