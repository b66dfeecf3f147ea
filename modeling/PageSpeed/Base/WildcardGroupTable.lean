import PageSpeed.Base.FastWildcardGroup
import PageSpeed.Lib.Probing
import Mathlib.Data.Nat.Bitwise

/-!
What the compilation of a group of wildcards leaves: effective indices, the patterns
without a literal, and a table in which every other pattern comes after later ones only.
-/

namespace PageSpeed

open RollingHash

namespace Wildcard

theorem longestLiteralFrom_literal (spec : GoogleString) (fuel pos : ℕ) (longest : ℕ × ℕ)
    (h : ∀ c ∈ (spec.drop longest.1).take longest.2, c ≠ kMatchAny ∧ c ≠ kMatchOne) :
    ∀ c ∈ (spec.drop (longestLiteralFrom spec fuel pos longest).1).take (longestLiteralFrom spec fuel pos longest).2,
      c ≠ kMatchAny ∧ c ≠ kMatchOne := by
  induction fuel generalizing pos longest with
  | zero => exact h
  | succ fuel ih =>
    unfold longestLiteralFrom
    split_ifs with hpos
    · refine ih _ _ ?_
      split_ifs
      · intro c hc
        simp only [findWildcard, Nat.add_sub_cancel_left] at hc
        obtain ⟨i, hi, rfl⟩ := List.mem_iff_getElem.mp hc
        rw [List.length_take] at hi
        have hnot := List.not_of_lt_findIdx (lt_of_lt_of_le hi (min_le_left _ _))
        rw [List.getElem_take]
        simpa using hnot
      · exact h
    · exact h

theorem longestLiteralString_literal (w : Wildcard) :
    ∀ c ∈ w.longestLiteralString, c ≠ kMatchAny ∧ c ≠ kMatchOne :=
  longestLiteralFrom_literal w.spec w.spec.length 0 (0, 0) (by simp)

theorem longestLiteralString_part (w : Wildcard) : w.longestLiteralString <:+: w.spec :=
  ( List.take_prefix _ _).isInfix.trans (List.drop_suffix _ _).isInfix

theorem longestLiteralString_of_isMatch (expr : GoogleString) {str : GoogleString}
    (h : (initFromSpec expr).isMatch str = true) : (initFromSpec expr).longestLiteralString <:+: str := by
  have hliteral := longestLiteralString_literal (initFromSpec expr)
  refine literal_infix_of_isMatch (longestLiteralString_part _) (fun hmem => ?_) (fun hmem => ?_) h
  · exact (hliteral _ hmem).1 rfl
  · exact (hliteral _ hmem).2 rfl

end Wildcard

namespace FastWildcardGroup

section Compilation

variable {g : FastWildcardGroup} {size : ℕ}

def table (g : FastWildcardGroup) (s : ℕ) : ℤ := g.patternHashIndex.getD s kNoEntry

variable {e i len : ℕ} {literals : List GoogleString}

theorem slot_add (he : e ≤ 64) (hsize : g.patternHashIndex.length = 2 ^ e) (rollingHash : BitVec 64) (k : ℕ) :
    g.slot (rollingHash + BitVec.ofNat 64 k) = (rollingHash.toNat + k) % 2 ^ e := by
  have hdvd : (2 : ℕ) ^ e ∣ 2 ^ 64 := pow_dvd_pow 2 he
  have hle : (2 : ℕ) ^ e ≤ 2 ^ 64 := Nat.pow_le_pow_right (by omega) he
  have hlt : 2 ^ e - 1 < 2 ^ 64 := lt_of_lt_of_le (Nat.sub_lt (Nat.two_pow_pos e) Nat.one_pos) hle
  unfold slot
  rw [hsize, BitVec.toNat_and, BitVec.toNat_ofNat, Nat.mod_eq_of_lt hlt, Nat.and_two_pow_sub_one_eq_mod,
    BitVec.toNat_add, BitVec.toNat_ofNat, Nat.mod_mod_of_dvd _ hdvd, Nat.add_mod, Nat.mod_mod_of_dvd _ hdvd, ← Nat.add_mod]

theorem chooseHash_window (literal : GoogleString) (len windows start : ℕ)
    (h : start + windows + len = literal.length) :
    ∃ start', start' + len ≤ literal.length ∧
      g.chooseHash literal len windows (start + 1) (rollingHash literal start len) = rollingHash literal start' len := by
  induction windows generalizing start with
  | zero => exact ⟨start, by omega, rfl⟩
  | succ windows ih =>
    unfold chooseHash
    split_ifs
    · exact ⟨start, by omega, rfl⟩
    · rw [nextRollingHash_eq literal start len (by omega)]
      exact ih (start + 1) (by omega)

theorem freeSlot_first (he : e ≤ 64) (hsize : g.patternHashIndex.length = 2 ^ e) (rollingHash : BitVec 64)
    (fuel p : ℕ) (hroom : ∃ q < fuel, g.table ((rollingHash.toNat + (p + q)) % 2 ^ e) = kNoEntry) :
    ∃ q < fuel, ∃ free, g.freeSlot fuel (rollingHash + BitVec.ofNat 64 p) = some free ∧
      g.slot free = (rollingHash.toNat + (p + q)) % 2 ^ e ∧
      g.table ((rollingHash.toNat + (p + q)) % 2 ^ e) = kNoEntry ∧
      ∀ r < q, g.table ((rollingHash.toNat + (p + r)) % 2 ^ e) ≠ kNoEntry := by
  induction fuel generalizing p with
  | zero =>
    obtain ⟨q, hq, -⟩ := hroom
    omega
  | succ fuel ih =>
    have hentry : g.entry (rollingHash + BitVec.ofNat 64 p) = g.table ((rollingHash.toNat + p) % 2 ^ e) := by
      unfold entry table
      rw [slot_add he hsize]
    unfold freeSlot
    rw [hentry]
    split_ifs with hfree
    · refine ⟨0, Nat.succ_pos _, _, rfl, ?_, ?_, nofun⟩
      · rw [slot_add he hsize, Nat.add_zero]
      · rw [Nat.add_zero]
        exact hfree
    · obtain ⟨q, hq, hq'⟩ := hroom
      obtain _ | q := q
      · rw [Nat.add_zero] at hq'
        exact absurd hq' hfree
      · have hnext : rollingHash + BitVec.ofNat 64 p + 1 = rollingHash + BitVec.ofNat 64 (p + 1) := by
          rw [BitVec.add_assoc, BitVec.ofNat_add]
          rfl
        obtain ⟨r, hr, free, hsome, hslot, hempty, hbefore⟩ := ih (p + 1) ⟨q, by omega, by
          rw [show p + 1 + q = p + (q + 1) by omega]
          exact hq'⟩
        refine ⟨r + 1, by omega, free, hnext ▸ hsome, ?_, ?_, fun k hk => ?_⟩
        · rw [hslot]
          congr 1
          omega
        · rw [← hempty]
          congr 2
          omega
        · obtain _ | k := k
          · exact hfree
          · have hk := hbefore k (by omega)
            rw [show p + 1 + k = p + (k + 1) by omega] at hk
            exact hk

structure Effective (g : FastWildcardGroup) (i currentEffectiveIndex : ℕ) (currentAllow : Bool) : Prop where
  length : g.effectiveIndices.length = g.patterns.length
  effective : ∀ k, i ≤ k → k < g.patterns.length → ∃ j : ℕ, g.effectiveIndices[k]? = some (j : ℤ) ∧ k ≤ j ∧
    j < g.patterns.length ∧ ∀ m, k ≤ m → m ≤ j → g.allowAt m = g.allowAt k
  current : i ≤ currentEffectiveIndex + 1
  currentLt : currentEffectiveIndex < g.patterns.length
  currentAllow : ∀ m, i ≤ m → m ≤ currentEffectiveIndex → g.allowAt m = currentAllow

theorem Effective.next {currentEffectiveIndex effectiveIndex : ℕ} {currentAllow : Bool}
    (h : Effective g (i + 1) currentEffectiveIndex currentAllow) (hi : i < g.patterns.length)
    (heffective : effectiveIndex = if g.allowAt i ≠ currentAllow then i else currentEffectiveIndex) :
    Effective { g with effectiveIndices := g.effectiveIndices.set i effectiveIndex } i effectiveIndex (g.allowAt i) := by
  have hcurrent := h.current
  -- the new current index reaches from `i` on over patterns with the same allow bit
  have hnew : i ≤ effectiveIndex ∧ effectiveIndex < g.patterns.length ∧
      ∀ m, i ≤ m → m ≤ effectiveIndex → g.allowAt m = g.allowAt i := by
    rw [heffective]
    split_ifs with hallow
    · refine ⟨le_refl i, hi, fun m hm hm' => ?_⟩
      rw [Nat.le_antisymm hm' hm]
    · refine ⟨by omega, h.currentLt, fun m hm hm' => ?_⟩
      obtain rfl | hlt := Nat.eq_or_lt_of_le hm
      · rfl
      · rw [h.currentAllow m hlt hm', not_not.mp hallow]
  obtain ⟨hle, hlt, hsame⟩ := hnew
  refine ⟨?_, fun k hk hk' => ?_, by omega, hlt, hsame⟩
  · exact List.length_set.trans h.length
  · change ∃ j : ℕ, (g.effectiveIndices.set i effectiveIndex)[k]? = _ ∧ _
    obtain rfl | hik := Nat.eq_or_lt_of_le hk
    · refine ⟨effectiveIndex, ?_, hle, hlt, hsame⟩
      rw [List.getElem?_set_self (by rw [h.length]; exact hi)]
    · rw [List.getElem?_set_ne (by omega)]
      exact h.effective k hik hk'

structure WildcardOnly (g : FastWildcardGroup) (literals : List GoogleString) (i : ℕ) : Prop where
  mem : ∀ k, k ∈ g.wildcardOnlyIndices ↔ i ≤ k ∧ k < g.patterns.length ∧ literals.getD k [] = []
  descending : g.wildcardOnlyIndices.Pairwise (· > ·)

theorem WildcardOnly.next (h : WildcardOnly g literals (i + 1))
    (hi : literals.getD i [] ≠ []) : WildcardOnly g literals i := by
  refine ⟨fun k => (h.mem k).trans ⟨fun hk => ⟨by omega, hk.2⟩, fun hk => ⟨?_, hk.2⟩⟩, h.descending⟩
  obtain rfl | hlt := Nat.eq_or_lt_of_le hk.1
  · exact absurd hk.2.2 hi
  · exact hlt

theorem WildcardOnly.push {rollingHashes : List (BitVec 64)}
    (h : WildcardOnly g literals (i + 1)) (hlt : i < g.patterns.length) (hi : literals.getD i [] = []) :
    WildcardOnly { g with wildcardOnlyIndices := g.wildcardOnlyIndices ++ [i], rollingHashes := rollingHashes }
      literals i := by
  refine ⟨fun k => ?_, ?_⟩
  · change k ∈ g.wildcardOnlyIndices ++ [i] ↔ _
    rw [List.mem_append, h.mem, List.mem_singleton]
    constructor
    · rintro (hk | rfl)
      · exact ⟨by omega, hk.2⟩
      · exact ⟨le_refl _, hlt, hi⟩
    · rintro ⟨hk, hk'⟩
      obtain rfl | hik := Nat.eq_or_lt_of_le hk
      · exact Or.inr rfl
      · exact Or.inl ⟨hik, hk'⟩
  · refine List.pairwise_append.mpr ⟨h.descending, List.pairwise_singleton _ _, fun k hk j hj => ?_⟩
    rw [List.mem_singleton.mp hj]
    exact ((h.mem k).mp hk).1

structure Hashed (g : FastWildcardGroup) (literals : List GoogleString) (len e i : ℕ) : Prop where
  length : g.rollingHashes.length = g.patterns.length
  size : g.patternHashIndex.length = 2 ^ e
  hashed : ∀ k, i ≤ k → k < g.patterns.length → literals.getD k [] ≠ [] → ∃ start,
    start + len ≤ (literals.getD k []).length ∧
    g.rollingHashes[k]? = some (rollingHash (literals.getD k []) start len) ∧
    Probing.Reached (2 ^ e) g.table ((k : ℤ) < ·) (rollingHash (literals.getD k []) start len).toNat k
  entries : ∀ s < 2 ^ e, g.table s ≠ kNoEntry → ∃ k : ℕ, g.table s = k ∧ i ≤ k ∧ k < g.patterns.length ∧
    literals.getD k [] ≠ []
  distinct : ∀ s < 2 ^ e, ∀ t < 2 ^ e, g.table s ≠ kNoEntry → g.table s = g.table t → s = t

theorem Hashed.skip {wildcardOnlyIndices : List ℕ}
    (h : Hashed g literals len e (i + 1)) (hi : literals.getD i [] = []) :
    Hashed { g with wildcardOnlyIndices := wildcardOnlyIndices, rollingHashes := g.rollingHashes.set i 0 }
      literals len e i := by
  refine ⟨?_, h.size, fun k hk hlt hne => ?_, fun s hs hs' => ?_, h.distinct⟩
  · exact (List.length_set).trans h.length
  · have hik : i ≠ k := by
      rintro rfl
      exact hne hi
    obtain ⟨start, hstart, hhash, hreached⟩ := h.hashed k (by omega) hlt hne
    refine ⟨start, hstart, ?_, hreached⟩
    rw [List.getElem?_set_ne hik]
    exact hhash
  · obtain ⟨k, heq, hk, hrest⟩ := h.entries s hs hs'
    exact ⟨k, heq, by omega, hrest⟩

def nontrivial (literals : List GoogleString) : Finset ℕ :=
  (Finset.range literals.length).filter fun k => literals.getD k [] ≠ []

theorem Hashed.room (h : Hashed g literals len e i)
    (hfew : (nontrivial literals).card < 2 ^ e) (hlength : literals.length = g.patterns.length) (hash : ℕ) :
    ∃ q < 2 ^ e, g.table ((hash + q) % 2 ^ e) = kNoEntry := by
  refine Probing.exists_free ((nontrivial literals).image fun k : ℕ => (k : ℤ)) ?_ (fun s hs hs' => ?_) h.distinct hash
  · exact lt_of_le_of_lt Finset.card_image_le hfew
  · obtain ⟨k, heq, -, hlt, hne⟩ := h.entries s hs hs'
    refine Finset.mem_image.mpr ⟨k, ?_, heq.symm⟩
    exact Finset.mem_filter.mpr ⟨Finset.mem_range.mpr (hlength ▸ hlt), hne⟩

theorem table_set {s : ℕ} (hs : s < g.patternHashIndex.length) (x : ℤ) (rollingHashes : List (BitVec 64)) :
    { g with rollingHashes := rollingHashes, patternHashIndex := g.patternHashIndex.set s x }.table =
      Probing.put g.table s x := by
  funext t
  unfold table Probing.put
  rw [List.getD_eq_getElem?_getD, List.getElem?_set]
  split_ifs with heq heq' heq'
  · rfl
  · exact absurd heq.symm heq'
  · exact absurd heq'.symm heq
  · exact List.getD_eq_getElem?_getD.symm

theorem Hashed.place {start q : ℕ} (h : Hashed g literals len e (i + 1))
    (hi : i < g.patterns.length) (hne : literals.getD i [] ≠ [])
    (hstart : start + len ≤ (literals.getD i []).length) (hq : q < 2 ^ e)
    (hempty : g.table (((rollingHash (literals.getD i []) start len).toNat + q) % 2 ^ e) = kNoEntry)
    (hbefore : ∀ r < q, g.table (((rollingHash (literals.getD i []) start len).toNat + r) % 2 ^ e) ≠ kNoEntry) :
    Hashed { g with
      rollingHashes := g.rollingHashes.set i (rollingHash (literals.getD i []) start len)
      patternHashIndex := g.patternHashIndex.set
        (((rollingHash (literals.getD i []) start len).toNat + q) % 2 ^ e) i } literals len e i := by
  have hslot : ((rollingHash (literals.getD i []) start len).toNat + q) % 2 ^ e < g.patternHashIndex.length := by
    rw [h.size]
    exact Nat.mod_lt _ (Nat.two_pow_pos e)
  have htable := table_set hslot i (g.rollingHashes.set i (rollingHash (literals.getD i []) start len))
  have hnot : ∀ z : ℕ, (z : ℤ) ≠ kNoEntry := fun z => by
    unfold kNoEntry
    omega
  -- what is in the table already comes from later patterns
  have hlater : ∀ s < 2 ^ e, g.table s ≠ kNoEntry → (i : ℤ) < g.table s := by
    intro s hs hs'
    obtain ⟨k, heq, hk, -⟩ := h.entries s hs hs'
    rw [heq]
    omega
  refine ⟨List.length_set.trans h.length, List.length_set.trans h.size, fun k hk hlt hk' => ?_, fun s hs hs' => ?_,
    fun s hs t ht hs' heq => ?_⟩
  · rw [htable]
    obtain rfl | hik := Nat.eq_or_lt_of_le hk
    · refine ⟨start, hstart, ?_, Probing.reached_put hq hempty hbefore hlater⟩
      exact List.getElem?_set_self (by rw [h.length]; exact hi)
    · obtain ⟨start', hstart', hhash, hreached⟩ := h.hashed k hik hlt hk'
      refine ⟨start', hstart', ?_, hreached.put hempty (hnot k) fun z hz => ?_⟩
      · exact (List.getElem?_set_ne (by omega)).trans hhash
      · unfold kNoEntry
        omega
  · rw [htable] at hs' ⊢
    unfold Probing.put at hs' ⊢
    split_ifs at hs' ⊢ with hcase
    · exact ⟨i, rfl, le_refl i, hi, hne⟩
    · obtain ⟨k, heq, hk, hrest⟩ := h.entries s hs hs'
      exact ⟨k, heq, by omega, hrest⟩
  · rw [htable] at hs' heq
    unfold Probing.put at hs' heq
    split_ifs at hs' heq with hcase hcase' hcase'
    · rw [hcase, hcase']
    · have hlt := hlater t ht (heq ▸ hnot i)
      omega
    · have hlt := hlater s hs hs'
      omega
    · exact h.distinct s hs t ht hs' heq

theorem Hashed.insertPattern (h : Hashed g literals len e (i + 1))
    (he : e ≤ 64) (hfew : (nontrivial literals).card < 2 ^ e) (hlength : literals.length = g.patterns.length)
    (hi : i < g.patterns.length) (hne : literals.getD i [] ≠ []) (hlen : len ≤ (literals.getD i []).length) :
    ∃ rollingHashes patternHashIndex, g.insertPattern (literals.getD i []) len i =
        some { g with rollingHashes := rollingHashes, patternHashIndex := patternHashIndex } ∧
      Hashed { g with rollingHashes := rollingHashes, patternHashIndex := patternHashIndex } literals len e i := by
  have hwindows : 0 + ((literals.getD i []).length - len) + len = (literals.getD i []).length := by omega
  obtain ⟨start, hstart, hchoose⟩ : ∃ start, start + len ≤ (literals.getD i []).length ∧ g.chooseHash _ _ _ _ _ = _ :=
    chooseHash_window (literals.getD i []) len _ 0 hwindows
  obtain ⟨q, hq, hroom⟩ := h.room hfew hlength (rollingHash (literals.getD i []) start len).toNat
  obtain ⟨q, hq, free, hfree, hslot, hempty, hbefore⟩ := freeSlot_first he h.size
    (rollingHash (literals.getD i []) start len) (2 ^ e) 0 ⟨q, hq, by rw [Nat.zero_add]; exact hroom⟩
  simp only [Nat.zero_add, BitVec.add_zero] at hslot hempty hbefore hfree
  refine ⟨g.rollingHashes.set i (rollingHash (literals.getD i []) start len), g.patternHashIndex.set (g.slot free) i,
    ?_, ?_⟩
  · unfold FastWildcardGroup.insertPattern
    rw [Nat.zero_add] at hchoose
    simp only [hchoose, h.size, hfree, Option.map_some]
  · rw [hslot]
    exact h.place hi hne hstart hq hempty hbefore

structure CompiledFrom (g : FastWildcardGroup) (literals : List GoogleString) (len e i : ℕ) : Prop where
  effective : ∃ currentEffectiveIndex currentAllow, Effective g i currentEffectiveIndex currentAllow
  wildcardOnly : WildcardOnly g literals i
  hashed : Hashed g literals len e i

theorem compilePatterns_some (he : e ≤ 64) (hfew : (nontrivial literals).card < 2 ^ e)
    (hlen : ∀ literal ∈ literals, literal ≠ [] → len ≤ literal.length) (i : ℕ) (g : FastWildcardGroup)
    {currentEffectiveIndex : ℕ} {currentAllow : Bool} (hlength : literals.length = g.patterns.length)
    (hi : i ≤ g.patterns.length) (heffective : Effective g i currentEffectiveIndex currentAllow)
    (honly : WildcardOnly g literals i) (hhashed : Hashed g literals len e i) :
    ∃ t, compilePatterns literals len i currentEffectiveIndex currentAllow g = some t ∧ t.patterns = g.patterns ∧
      CompiledFrom t literals len e 0 := by
  induction i generalizing g currentEffectiveIndex currentAllow with
  | zero => exact ⟨g, rfl, rfl, ⟨_, _, heffective⟩, honly, hhashed⟩
  | succ i ih =>
    unfold compilePatterns
    simp only
    generalize heq : (if g.allowAt i ≠ currentAllow then i else currentEffectiveIndex) = effectiveIndex
    have hnext := heffective.next hi heq.symm
    have honly' : WildcardOnly { g with effectiveIndices := g.effectiveIndices.set i effectiveIndex } literals (i + 1) :=
      ⟨honly.mem, honly.descending⟩
    have hhashed' : Hashed { g with effectiveIndices := g.effectiveIndices.set i effectiveIndex } literals len e (i + 1) :=
      ⟨hhashed.length, hhashed.size, hhashed.hashed, hhashed.entries, hhashed.distinct⟩
    split_ifs with hempty
    · have hempty := List.length_eq_zero_iff.mp hempty
      exact ih _ hlength (Nat.le_of_succ_le hi)
        ⟨hnext.length, hnext.effective, hnext.current, hnext.currentLt, hnext.currentAllow⟩
        (honly'.push hi hempty) (hhashed'.skip hempty)
    · have hne : literals.getD i [] ≠ [] := fun hnil => hempty (List.length_eq_zero_iff.mpr hnil)
      have hmem : literals.getD i [] ∈ literals := by
        rw [List.getD_eq_getElem _ _ (hlength ▸ hi)]
        exact List.getElem_mem _
      obtain ⟨hashes, index, heq, hinserted⟩ := hhashed'.insertPattern he hfew hlength hi hne (hlen _ hmem hne)
      rw [heq]
      exact ih _ hlength (Nat.le_of_succ_le hi)
        ⟨hnext.length, hnext.effective, hnext.current, hnext.currentLt, hnext.currentAllow⟩
        ⟨(honly'.next hne).mem, (honly'.next hne).descending⟩ hinserted

theorem nontrivial_append (literals : List GoogleString) (literal : GoogleString) :
    (nontrivial (literals ++ [literal])).card = (nontrivial literals).card + if literal ≠ [] then 1 else 0 := by
  have hbefore : ∀ k ∈ Finset.range literals.length,
      ((literals ++ [literal]).getD k [] ≠ [] ↔ literals.getD k [] ≠ []) := by
    intro k hk
    rw [List.getD_append _ _ _ _ (Finset.mem_range.mp hk)]
  have hlast : (literals ++ [literal]).getD literals.length [] = literal := by
    rw [List.getD_append_right _ _ _ _ (le_refl _), Nat.sub_self, List.getD_cons_zero]
  unfold nontrivial
  rw [List.length_append, List.length_singleton, Finset.range_add_one, Finset.filter_insert, hlast,
    Finset.filter_congr hbefore]
  split_ifs with hliteral
  · rw [Finset.card_insert_of_notMem]
    exact fun hmem => Finset.notMem_range_self (Finset.mem_filter.mp hmem).1
  · rfl

theorem foldl_countLiteral (literals : List GoogleString) :
    (literals.foldl countLiteral (0, kMaxRollingHashWindow)).1 = (nontrivial literals).card ∧
    0 < (literals.foldl countLiteral (0, kMaxRollingHashWindow)).2 ∧
    (literals.foldl countLiteral (0, kMaxRollingHashWindow)).2 ≤ kMaxRollingHashWindow ∧
    ∀ literal ∈ literals, literal ≠ [] →
      (literals.foldl countLiteral (0, kMaxRollingHashWindow)).2 ≤ literal.length := by
  induction literals using List.reverseRecOn with
  | nil => exact ⟨rfl, by decide, le_refl _, nofun⟩
  | append_singleton literals literal ih =>
    obtain ⟨hcount, hpos, hmax, hle⟩ := ih
    rw [List.foldl_append, List.foldl_cons, List.foldl_nil, nontrivial_append]
    generalize literals.foldl countLiteral (0, kMaxRollingHashWindow) = counts at hcount hpos hmax hle
    unfold countLiteral
    by_cases hliteral : literal = []
    · rw [if_neg (by simp [hliteral]), if_neg (by simp [hliteral])]
      refine ⟨hcount, hpos, hmax, fun x hx hne => ?_⟩
      obtain hx | hx := List.mem_append.mp hx
      · exact hle x hx hne
      · exact absurd ((List.mem_singleton.mp hx).trans hliteral) hne
    · have hlength : 0 < literal.length := List.length_pos_iff.mpr hliteral
      rw [if_pos hlength, if_pos hliteral]
      refine ⟨congrArg (· + 1) hcount, lt_min hpos hlength, min_le_of_left_le hmax, fun x hx hne => ?_⟩
      obtain hx | hx := List.mem_append.mp hx
      · exact min_le_of_left_le (hle x hx hne)
      · rw [List.mem_singleton.mp hx]
        exact min_le_right _ _

theorem hashIndexSize_spec (n doublings e : ℕ) (h : 2 * n ≤ 2 ^ (e + doublings)) :
    ∃ e', e ≤ e' ∧ e' ≤ e + doublings ∧ hashIndexSize n doublings (2 ^ e) = 2 ^ e' ∧ 2 * n ≤ 2 ^ e' := by
  induction doublings generalizing e with
  | zero => exact ⟨e, le_refl _, le_refl _, rfl, h⟩
  | succ doublings ih =>
    unfold hashIndexSize
    split_ifs with hsmall
    · obtain ⟨e', hle, hle', heq, hn⟩ := ih (e + 1) (by rw [Nat.add_right_comm]; exact h)
      exact ⟨e', by omega, by omega, heq, hn⟩
    · exact ⟨e, le_refl _, by omega, rfl, not_lt.mp hsmall⟩

structure Ready (g : FastWildcardGroup) (len e : ℕ) : Prop extends
    CompiledFrom g (g.patterns.map fun p => p.1.longestLiteralString) len e 0 where
  len_pos : 0 < len
  len_le : len ≤ kMaxRollingHashWindow
  rollingHashLength : g.rollingHashLength = len
  e_le : e ≤ 64
  few : (nontrivial (g.patterns.map fun p => p.1.longestLiteralString)).card < 2 ^ e

theorem compiledFrom_length (hpos : 0 < g.patterns.length)
    (hindex : g.patternHashIndex = List.replicate (2 ^ e) kNoEntry)
    (hhashes : g.rollingHashes.length = g.patterns.length) (hindices : g.effectiveIndices.length = g.patterns.length)
    (honly : g.wildcardOnlyIndices = []) :
    Effective g g.patterns.length (g.patterns.length - 1) (g.allowAt (g.patterns.length - 1)) ∧
      WildcardOnly g literals g.patterns.length ∧ Hashed g literals len e g.patterns.length := by
  have hfree : ∀ s, g.table s = kNoEntry := by
    intro s
    unfold table
    rw [hindex, List.getD_eq_getElem?_getD, List.getElem?_replicate]
    split_ifs <;> rfl
  refine ⟨⟨hindices, fun k hk hk' => by omega, by omega, by omega, fun m hm hm' => by omega⟩, ⟨fun k => ?_, ?_⟩,
    hhashes, ?_, fun k hk hk' => by omega, fun s _ hs => absurd (hfree s) hs, fun s _ _ _ hs => absurd (hfree s) hs⟩
  · rw [honly]
    constructor
    · nofun
    · rintro ⟨hk, hk', -⟩
      omega
  · rw [honly]
    exact List.Pairwise.nil
  · rw [hindex, List.length_replicate]

theorem compilePatterns_ready (hpos : 0 < g.patterns.length)
    (hindex : g.patternHashIndex = List.replicate (2 ^ e) kNoEntry)
    (hhashes : g.rollingHashes.length = g.patterns.length) (hindices : g.effectiveIndices.length = g.patterns.length)
    (honly : g.wildcardOnlyIndices = []) (he : e ≤ 64)
    (hfew : (nontrivial (g.patterns.map fun p => p.1.longestLiteralString)).card < 2 ^ e) (hlen : 0 < len)
    (hmax : len ≤ kMaxRollingHashWindow)
    (hle : ∀ literal ∈ g.patterns.map fun p => p.1.longestLiteralString, literal ≠ [] → len ≤ literal.length) :
    ∃ t, compilePatterns (g.patterns.map fun p => p.1.longestLiteralString) len g.patterns.length
        (g.patterns.length - 1) (g.allowAt (g.patterns.length - 1)) g = some t ∧ t.patterns = g.patterns ∧
      Ready { t with rollingHashLength := len } len e := by
  obtain ⟨heffective, honly, hhashed⟩ := compiledFrom_length hpos hindex hhashes hindices honly
  obtain ⟨t, ht, hsame, hcompiled⟩ := compilePatterns_some he hfew hle _ g (List.length_map _) (le_refl _)
    heffective honly hhashed
  refine ⟨t, ht, hsame, ?_⟩
  rw [← hsame] at hfew hcompiled
  obtain ⟨⟨j, bit, hj⟩, hw, hh⟩ := hcompiled
  exact ⟨⟨⟨j, bit, hj.length, hj.effective, hj.current, hj.currentLt, hj.currentAllow⟩, ⟨hw.mem, hw.descending⟩,
    hh.length, hh.size, hh.hashed, hh.entries, hh.distinct⟩, hlen, hmax, rfl, he, hfew⟩

theorem compileNonTrivial_some (hpatterns : g.patterns.length ≤ 2 ^ 29) (honly : g.wildcardOnlyIndices = [])
    (hlength : g.rollingHashLength = kDontHash) (hpos : 0 < g.patterns.length) :
    ∃ t, g.compileNonTrivial = some t ∧ t.patterns = g.patterns ∧
      (t.rollingHashLength = kDontHash ∨ ∃ len e, Ready t len e) := by
  obtain ⟨hcount, hlen, hmax, hle⟩ := foldl_countLiteral (g.patterns.map fun p => p.1.longestLiteralString)
  rcases hcounts : (g.patterns.map fun p => p.1.longestLiteralString).foldl countLiteral (0, kMaxRollingHashWindow)
    with ⟨numNontrivialPatterns, len⟩
  rw [hcounts] at hcount hlen hmax hle
  simp only at hcount hlen hmax hle
  unfold compileNonTrivial
  simp only [hcounts]
  split_ifs with hfew
  · exact ⟨g, rfl, rfl, .inl hlength⟩
  · have hnum : numNontrivialPatterns ≤ g.patterns.length := by
      rw [hcount]
      refine (Finset.card_filter_le _ _).trans ?_
      rw [Finset.card_range, List.length_map]
    obtain ⟨e, -, he, hsize, hroom⟩ := hashIndexSize_spec numNontrivialPatterns 27 3 (by omega)
    change hashIndexSize numNontrivialPatterns 27 8 = 2 ^ e at hsize
    have hcard : (nontrivial (g.patterns.map fun p => p.1.longestLiteralString)).card < 2 ^ e := by
      unfold kMinPatterns at hfew
      omega
    obtain ⟨t, ht, hsame, hready⟩ := compilePatterns_ready
      (g := { g with
        patternHashIndex := List.replicate (hashIndexSize numNontrivialPatterns 27 8) kNoEntry
        rollingHashes := List.replicate g.patterns.length 0
        effectiveIndices := List.replicate g.patterns.length 0 })
      hpos (by rw [hsize]) List.length_replicate List.length_replicate honly (by omega) hcard hlen hmax hle
    exact ⟨_, Option.map_eq_some_iff.mpr ⟨t, ht, rfl⟩, hsame, .inr ⟨len, e, hready⟩⟩

theorem compile_some (hpatterns : g.patterns.length ≤ 2 ^ 29) (hhashes : g.rollingHashes = [])
    (hindices : g.effectiveIndices = []) (honly : g.wildcardOnlyIndices = []) (hindex : g.patternHashIndex = [])
    (hlength : g.rollingHashLength = kDontHash) :
    ∃ t, g.compile = some t ∧ t.patterns = g.patterns ∧ (t.rollingHashLength = kDontHash ∨ ∃ len e, Ready t len e) := by
  unfold compile
  rw [if_pos ⟨hhashes, hindices, honly, hindex, hlength⟩]
  split_ifs with hmany
  · exact compileNonTrivial_some hpatterns honly hlength (lt_of_lt_of_le (by decide) hmany)
  · exact ⟨g, rfl, rfl, .inl hlength⟩

end Compilation

end FastWildcardGroup

end PageSpeed
