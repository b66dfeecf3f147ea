import PageSpeed.SharedMem.SectorSteps
import Mathlib.Algebra.Order.Floor.Div

/-!
Every run keeps the blocks and the directory of each sector that is not disabled
in order, whatever its clients do.
-/

namespace PageSpeed.SharedMem

open Links Machine Sector

variable {g : Config} {t t' : State} {k : ℕ} {own : ℕ → List ℕ}

def Config.home (g : Config) (pc : Pc) : ℕ := (g.extractPosition pc.hash).sector

structure InOrder (g : Config) (t : State) (k : ℕ) (own : ℕ → List ℕ) : Prop where
  sound : Sound g (t.sectors k) own
  ready : ∀ pc ∈ t.threads, g.home pc = k → Ready g (t.sectors k) pc
  alone : ∀ (i j : ℕ) (p q : Pc) (e : ℕ), t.threads[i]? = some p → t.threads[j]? = some q → g.home p = k → g.home q = k →
    p.writing = some e → q.writing = some e → i = j
  checks : (t.sectors k).checkFailed = false

def State.after (t : State) (k : ℕ) (s : Sector) (i : ℕ) (pc : Pc) : State :=
  ⟨Function.update t.sectors k s, t.threads.set i pc⟩

theorem State.after_self (t : State) (k : ℕ) (s : Sector) (i : ℕ) (pc : Pc) : (t.after k s i pc).sectors k = s :=
  Function.update_self _ _ _

theorem State.after_of_ne (t : State) {k k' : ℕ} (hk : k ≠ k') (s : Sector) (i : ℕ) (pc : Pc) :
    (t.after k' s i pc).sectors k = t.sectors k := Function.update_of_ne hk _ _

theorem initialized_sound (g : Config) : Sound g (Sector.initialized g) fun _ => [] := by
  obtain ⟨s, hs⟩ : ∃ s : Sector, s = { Sector.zeroed g with
      lruListFront := none
      lruListRear := none
      directory := fun e => { (Sector.zeroed g).directory e with lruPrev := none, lruNext := none, firstBlock := none }
      freeListFront := none } := ⟨_, rfl⟩
  have hchain : Chain (s.returnBlocksToFreeList (List.range g.blocksPerSector)).blockSuccessors
      (s.returnBlocksToFreeList (List.range g.blocksPerSector)).freeListFront
      ((List.range g.blocksPerSector).reverse ++ []) := by
    refine chain_prepend List.nodup_range (fun _ _ => List.not_mem_nil) ?_
    rw [hs]
    exact rfl
  rw [hs, List.append_nil] at hchain
  refine ⟨⟨(List.range g.blocksPerSector).reverse, [], ⟨hchain, ?_, ?_, ?_⟩, ?_, nofun, ?_⟩, ?_, ?_⟩
  · intro e _ _
    exact ⟨rfl, (dataBlocksForSize_zero g).symm⟩
  · rw [Multiset.coe_nil, Finset.sum_const_zero, add_zero, add_zero, Multiset.coe_reverse]
    rfl
  · change (0 : ℤ) + _ = _
    rw [List.length_reverse, List.length_range, zero_add]
  · exact Linked.empty
  · intro e _ _ hpos
    exact absurd hpos (lt_irrefl 0)
  · intro e _ hnil
    exact absurd rfl hnil
  · intro e e' _ _ _ hnil
    exact absurd rfl hnil

theorem new_inOrder (g : Config) (k : ℕ) : InOrder g (State.new g) k fun _ => [] :=
  ⟨initialized_sound g, nofun, nofun, rfl⟩

variable {i : ℕ} {pc : Pc} {s : Sector}

theorem getElem?_concat {α : Type*} {l : List α} {a b : α} (h : (l ++ [a])[i]? = some b) :
    l[i]? = some b ∨ b = a := by
  rw [List.getElem?_append] at h
  split_ifs at h with hi
  · exact Or.inl h
  · exact Or.inr (List.mem_singleton.mp (List.mem_of_getElem? h))

theorem getElem?_set_cases {α : Type*} {l : List α} {a b : α} {j : ℕ} (h : (l.set i a)[j]? = some b) :
    (j = i ∧ b = a) ∨ (j ≠ i ∧ l[j]? = some b) := by
  by_cases hij : i = j
  · subst hij
    rw [List.getElem?_set_self'] at h
    obtain ⟨-, -, rfl⟩ := Option.map_eq_some_iff.mp h
    exact Or.inl ⟨rfl, rfl⟩
  · rw [List.getElem?_set_ne hij] at h
    exact Or.inr ⟨Ne.symm hij, h⟩

theorem InOrder.call (ho : InOrder g t k own) (hpc : pc.writing = none) :
    InOrder g { t with threads := t.threads ++ [pc] } k own := by
  refine ⟨ho.sound, fun q hq hk => ?_, fun i j p q e hp hq hkp hkq hwp hwq => ?_, ho.checks⟩
  · obtain hq | hq := List.mem_append.mp hq
    · exact ho.ready q hq hk
    · rw [List.mem_singleton.mp hq]
      intro e he
      rw [hpc] at he
      cases he
  · have hnew : ∀ r, r = pc → r.writing ≠ some e := by
      intro r hr he
      rw [hr, hpc] at he
      cases he
    have hp' := (getElem?_concat hp).resolve_right fun h => hnew p h hwp
    have hq' := (getElem?_concat hq).resolve_right fun h => hnew q h hwq
    exact ho.alone i j p q e hp' hq' hkp hkq hwp hwq

theorem InOrder.away (ho : InOrder g t k own) (hpc : g.home pc ≠ k) {k' : ℕ}
    (hk : k' ≠ k) : InOrder g (t.after k' s i pc) k own := by
  have hsector := t.after_of_ne hk.symm s i pc
  refine ⟨?_, fun q hq hkq => ?_, fun i₁ i₂ p q e hp hq hkp hkq => ?_, ?_⟩
  · rw [hsector]
    exact ho.sound
  · rw [hsector]
    obtain hq | rfl := List.mem_or_eq_of_mem_set hq
    · exact ho.ready q hq hkq
    · exact absurd hkq hpc
  · have hold : ∀ (j : ℕ) (r : Pc), (t.threads.set i pc)[j]? = some r → g.home r = k → t.threads[j]? = some r := by
      intro j r hr hkr
      obtain ⟨-, rfl⟩ | ⟨-, hr⟩ := getElem?_set_cases hr
      · exact absurd hkr hpc
      · exact hr
    exact ho.alone i₁ i₂ p q e (hold i₁ p hp hkp) (hold i₂ q hq hkq) hkp hkq
  · rw [hsector]
    exact ho.checks

theorem InOrder.here (ho : InOrder g t k own) {pc' : Pc} (hi : t.threads[i]? = some pc)
    (hk : g.home pc = k) {own' : ℕ → List ℕ} (hsteps : Steps g (t.sectors k) s own pc pc' own') :
    InOrder g (t.after k s i pc') k own' := by
  have hsector := t.after_self k s i pc'
  have heff := hsteps.effect
  obtain ⟨hready', hnew⟩ := heff.writing (ho.ready pc (List.mem_of_getElem? hi) hk)
  -- What another client writes is not what this one wrote before.
  have hother : ∀ (j : ℕ) (q : Pc) (e : ℕ), j ≠ i → t.threads[j]? = some q → g.home q = k → q.writing = some e →
      pc.writing ≠ some e :=
    fun j q e hji hq hkq hwq hwpc => hji (ho.alone j i q pc e hq hi hkq hk hwq hwpc)
  have hclash : ∀ (j : ℕ) (q : Pc) (e : ℕ), j ≠ i → t.threads[j]? = some q → g.home q = k → q.writing = some e →
      pc'.writing ≠ some e := by
    intro j q e hji hq hkq hwq hw'
    obtain hw | hidle := hnew e hw'
    · exact hother j q e hji hq hkq hwq hw
    · have hcreating := (ho.ready q (List.mem_of_getElem? hq) hkq e hwq).2.2
      rw [hidle] at hcreating
      cases hcreating
  refine ⟨?_, fun q hq hkq => ?_, fun i₁ i₂ p q e hp hq hkp hkq hwp hwq => ?_, ?_⟩
  · rw [hsector]
    exact hsteps.sound
  · rw [hsector]
    obtain ⟨j, hj⟩ := List.mem_iff_getElem?.mp hq
    obtain ⟨-, rfl⟩ | ⟨hji, hold⟩ := getElem?_set_cases hj
    · exact hready'
    · intro e he
      obtain ⟨hmem, hhash, hcreating⟩ := ho.ready q (List.mem_of_getElem? hold) hkq e he
      have hne := hother j q e hji hold hkq he
      exact ⟨hmem, (heff.keeps (Or.inl ⟨hcreating, hne⟩)).1.trans hhash, heff.creating hcreating hne⟩
  · obtain ⟨h₁, rfl⟩ | ⟨h₁, hp'⟩ := getElem?_set_cases hp <;> obtain ⟨h₂, rfl⟩ | ⟨h₂, hq'⟩ := getElem?_set_cases hq
    · exact h₁.trans h₂.symm
    · exact absurd hwp (hclash i₂ q e h₂ hq' hkq hwq)
    · exact absurd hwq (hclash i₁ p e h₁ hp' hkp hwp)
    · exact ho.alone i₁ i₂ p q e hp' hq' hkp hkq hwp hwq
  · rw [hsector]
    exact hsteps.checkFailed.trans ho.checks

theorem exec_disabled {nowMs : ℤ} {gaveUp : Bool} {r : Sector × Pc}
    (h : s.exec g nowMs gaveUp pc = some r) (hdis : s.disabled = true) : r.1.disabled = true := by
  have hwait : ∀ e, ¬ s.mustWait e = true := by
    intro e
    unfold mustWait
    rw [hdis]
    simp
  cases pc with
  | put h timestampMs value =>
    cases h
    unfold putRawHash
    rw [if_pos hdis]
    split_ifs <;> exact hdis
  | putWait h e timestampMs value =>
    cases h
    unfold putWhenReady
    rw [if_neg (hwait e), putAndCopy, putIntoEntry, if_pos hdis]
    exact hdis
  | putCopy h e value blocks b =>
    unfold exec at h
    cases hb : blocks[b]? <;> simp only [hb] at h <;> cases h <;> exact hdis
  | get h =>
    cases h
    unfold Sector.get
    rw [if_pos hdis]
    exact hdis
  | getExtend h e blocks =>
    cases h
    exact hdis
  | getCopy h e blocks str pos b =>
    unfold exec at h
    cases hb : blocks[b]? <;> simp only [hb] at h <;> cases h <;> exact hdis
  | delete h =>
    cases h
    unfold Sector.delete
    rw [if_pos hdis]
    exact hdis
  | deleteWait h e =>
    cases h
    unfold deleteWhenReady
    rw [if_neg (hwait e), deleteReady, if_pos hdis]
    exact hdis
  | stored h value => cases h
  | got h value => cases h
  | done h => cases h

theorem putAndCopy_hash (s : Sector) (h : RawHash) (e : ℕ) (timestampMs : ℤ) (value : GoogleString) :
    (s.putAndCopy g h e timestampMs value).2.hash = h := by
  unfold putAndCopy
  simp only
  cases (s.putIntoEntry g e timestampMs value).2 <;> rfl

theorem putWhenReady_hash (s : Sector) (h : RawHash) (e : ℕ) (timestampMs : ℤ) (value : GoogleString) (gaveUp : Bool) :
    (s.putWhenReady g h e timestampMs value gaveUp).2.hash = h := by
  unfold putWhenReady
  split_ifs
  · rfl
  · rfl
  · exact putAndCopy_hash s h e timestampMs value

theorem deleteWhenReady_hash (s : Sector) (h : RawHash) (e : ℕ) (gaveUp : Bool) :
    (s.deleteWhenReady g h e gaveUp).2.hash = h := by
  unfold deleteWhenReady
  split_ifs <;> rfl

theorem exec_hash {nowMs : ℤ} {gaveUp : Bool} {r : Sector × Pc}
    (h : s.exec g nowMs gaveUp pc = some r) : r.2.hash = pc.hash := by
  cases pc with
  | put h timestampMs value =>
    cases h
    unfold putRawHash
    split_ifs
    · rfl
    · rfl
    · simp only
      split
      · split_ifs
        · rfl
        · exact putWhenReady_hash _ _ _ _ _ _
      · split
        · rfl
        · exact putAndCopy_hash _ _ _ _ _
  | putWait h e timestampMs value =>
    cases h
    exact putWhenReady_hash _ _ _ _ _ _
  | putCopy h e value blocks b =>
    unfold exec at h
    cases hb : blocks[b]? <;> simp only [hb] at h <;> cases h <;> rfl
  | get h =>
    cases h
    unfold Sector.get
    split_ifs
    · rfl
    · simp only
      split
      · split_ifs <;> rfl
      · rfl
  | getExtend h e blocks =>
    cases h
    rfl
  | getCopy h e blocks str pos b =>
    unfold exec at h
    cases hb : blocks[b]? <;> simp only [hb] at h <;> cases h <;> rfl
  | delete h =>
    cases h
    unfold Sector.delete
    split_ifs
    · rfl
    · split
      · split_ifs
        · rfl
        · exact deleteWhenReady_hash _ _ _ _
      · rfl
  | deleteWait h e =>
    cases h
    exact deleteWhenReady_hash _ _ _ _
  | stored h value => cases h
  | got h value => cases h
  | done h => cases h

theorem step_cases {a : Action} (h : step g t a = some t') :
    (∃ key pc, (pc.Starts (g.toRawHash key) ∨ pc = .get (g.toRawHash key)) ∧
      t' = { t with threads := t.threads ++ [pc] }) ∨
    (∃ i nowMs gaveUp pc r, a = .thread i nowMs gaveUp ∧ t.threads[i]? = some pc ∧
      (t.sectors (g.home pc)).exec g nowMs gaveUp pc = some r ∧ t' = t.after (g.home pc) r.1 i r.2) ∨
    (∃ k left, a = .ownerDied k left ∧
      t' = { t with sectors := Function.update t.sectors k { left with disabled := true } }) := by
  cases a with
  | put key value timestampMs => exact Or.inl ⟨key, _, Or.inl (.put _ _), (Option.some.inj h).symm⟩
  | get key => exact Or.inl ⟨key, _, Or.inr rfl, (Option.some.inj h).symm⟩
  | delete key => exact Or.inl ⟨key, _, Or.inl .delete, (Option.some.inj h).symm⟩
  | thread i nowMs gaveUp =>
    unfold step at h
    cases hi : t.threads[i]? with
    | none =>
      simp only [hi] at h
      cases h
    | some pc =>
      simp only [hi] at h
      obtain ⟨r, hr, rfl⟩ := Option.map_eq_some_iff.mp h
      exact Or.inr (Or.inl ⟨i, nowMs, gaveUp, pc, r, rfl, hi, hr, rfl⟩)
  | ownerDied k left => exact Or.inr (Or.inr ⟨k, left, rfl, (Option.some.inj h).symm⟩)

def AllInOrder (g : Config) (t : State) : Prop :=
  ∀ k, (t.sectors k).disabled = false → ∃ own, InOrder g t k own

theorem step_inOrder {a : Action} (ho : AllInOrder g t) (h : step g t a = some t') : AllInOrder g t' := by
  intro k hdis
  obtain ⟨key, pc, hpc, rfl⟩ | ⟨i, nowMs, gaveUp, pc, r, -, hi, hexec, rfl⟩ | ⟨k', left, -, rfl⟩ := step_cases h
  · obtain ⟨own, ho⟩ := ho k hdis
    refine ⟨own, ho.call ?_⟩
    obtain hpc | rfl := hpc
    · cases hpc <;> rfl
    · rfl
  · by_cases hk : g.home pc = k
    · rw [hk] at hexec hdis ⊢
      rw [State.after_self] at hdis
      have hdis₀ : (t.sectors k).disabled = false := by
        rw [← Bool.not_eq_true]
        intro htrue
        rw [exec_disabled hexec htrue] at hdis
        cases hdis
      obtain ⟨own, ho⟩ := ho k hdis₀
      obtain ⟨own', hsteps⟩ := exec_steps ho.sound hdis₀ (ho.ready pc (List.mem_of_getElem? hi) hk) hexec
      exact ⟨own', ho.here hi hk hsteps⟩
    · rw [State.after_of_ne t (Ne.symm hk)] at hdis
      obtain ⟨own, ho⟩ := ho k hdis
      refine ⟨own, ho.away ?_ hk⟩
      unfold Config.home
      rw [exec_hash hexec]
      exact hk
  · have hk : k ≠ k' := by
      rintro rfl
      simp only [Function.update_self] at hdis
      cases hdis
    have hsector : Function.update t.sectors k' { left with disabled := true } k = t.sectors k :=
      Function.update_of_ne hk _ _
    simp only [hsector] at hdis
    obtain ⟨own, ho⟩ := ho k hdis
    refine ⟨own, ?_, ?_, ho.alone, ?_⟩ <;> simp only [hsector]
    · exact ho.sound
    · exact ho.ready
    · exact ho.checks

theorem run_inOrder {as : List Action} (h : run (step g) (State.new g) as = some t) : AllInOrder g t :=
  run_invariant (G := fun _ _ => True) (fun _ _ _ _ ho hstep => step_inOrder ho hstep)
    (fun k _ => ⟨_, new_inOrder g k⟩) (meets_true as) h

structure Conserved (g : Config) (s : Sector) (free lru : List ℕ) : Prop where
  freeList : Chain s.blockSuccessors s.freeListFront free
  chains : ∀ e, e < g.entriesPerSector →
    Chain s.blockSuccessors (s.directory e).firstBlock (s.blockListForEntry g e) ∧
      (s.blockListForEntry g e).length = (s.directory e).byteSize ⌈/⌉ g.blockSize
  blocks : (free : Multiset ℕ) + ∑ e ∈ Finset.range g.entriesPerSector, (s.blockListForEntry g e : Multiset ℕ) =
    Multiset.range g.blocksPerSector
  lruList : Linked s.next s.prev s.lruListFront s.lruListRear lru
  lruEntries : ∀ e ∈ lru, e < g.entriesPerSector
  lruHolds : ∀ e, e < g.entriesPerSector → 0 < (s.directory e).byteSize → e ∈ lru
  used : s.stats.usedBlocks = g.blocksPerSector - free.length
  keys : ∀ e e', e < g.entriesPerSector → e' < g.entriesPerSector →
    (s.directory e).hashBytes = (s.directory e').hashBytes → (s.directory e).hashBytes ≠ nilHash → e = e'

theorem Sector.Sound.conserved (hs : Sound g s own) : ∃ free lru, Conserved g s free lru := by
  obtain ⟨⟨free, l, hledger, hlisted⟩, hplaced⟩ := hs
  have hblocks : ∀ e, e < g.entriesPerSector → s.blockListForEntry g e = own e :=
    fun e he => hledger.blockList he nofun
  refine ⟨free, l, hledger.freeChain, fun e he => ?_, ?_, hlisted.lru, hlisted.bound,
    fun e he => hlisted.sized e he nofun, ?_, hplaced.unique⟩
  · obtain ⟨hchain, hlen⟩ := hledger.chains e he nofun
    rw [hblocks e he, hlen, Nat.ceilDiv_eq_add_pred_div]
    exact ⟨hchain, rfl⟩
  · have hsum : ∑ e ∈ Finset.range g.entriesPerSector, (s.blockListForEntry g e : Multiset ℕ) =
        ∑ e ∈ Finset.range g.entriesPerSector, (own e : Multiset ℕ) :=
      Finset.sum_congr rfl fun e he => by rw [hblocks e (Finset.mem_range.mp he)]
    rw [hsum, ← hledger.partition, Multiset.coe_nil, add_zero]
  · rw [← hledger.used]
    omega

/-- In every state of every run, each sector that is not disabled accounts for all its blocks. -/
theorem blocks_and_directory_conserved (g : Config) (as : List Action) (t : State)
    (hrun : run (step g) (State.new g) as = some t) (k : ℕ) (hdis : (t.sectors k).disabled = false) :
    ∃ free lru, Conserved g (t.sectors k) free lru := by
  obtain ⟨own, ho⟩ := run_inOrder hrun k hdis
  exact ho.sound.conserved

def smallConfig : Config where
  blockSize := 64
  blockSize_pos := by decide
  numSectors := 1
  numSectors_pos := by decide
  entriesPerSector := 4
  entriesPerSector_pos := by decide
  blocksPerSector := 16
  rawHash := fun key => ⟨(key ++ List.replicate 16 0).take 16, by simp⟩

def smallRun : List Action :=
  [.put [1] [2, 3] 5, .get [1], .thread 0 5 false, .thread 1 6 false, .thread 0 6 false]

theorem blocks_and_directory_conserved_put :
    ∃ t, run (step smallConfig) (State.new smallConfig) smallRun = some t ∧ (t.sectors 0).disabled = false ∧
      ∃ free lru, Conserved smallConfig (t.sectors 0) free lru :=
  ⟨_, rfl, rfl, blocks_and_directory_conserved smallConfig smallRun _ rfl 0 rfl⟩

end PageSpeed.SharedMem
