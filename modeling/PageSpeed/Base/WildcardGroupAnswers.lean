import PageSpeed.Base.WildcardGroupTable

/-!
A group of wildcards answers like a scan of its patterns.
-/

namespace PageSpeed

open RollingHash

namespace FastWildcardGroup

section Matching

variable {g : FastWildcardGroup} {str : GoogleString} {len e : ℕ} {m : ℤ}

def Settled (g : FastWildcardGroup) (str : GoogleString) (m : ℤ) : Prop :=
  m = kNoEntry ∨ ∃ j k : ℕ, g.matchesAt str j = true ∧ m = k ∧ j ≤ k ∧ ∀ i, j ≤ i → i ≤ k → g.allowAt i = g.allowAt j

theorem lt_of_matchesAt {i : ℕ} (h : g.matchesAt str i = true) : i < g.patterns.length := by
  by_contra hle
  unfold matchesAt at h
  rw [List.getElem?_eq_none (not_lt.mp hle)] at h
  cases h

theorem kNoEntry_lt (k : ℕ) : kNoEntry < k := by
  unfold kNoEntry
  omega

theorem Settled.ge (h : Settled g str m) : kNoEntry ≤ m := by
  obtain rfl | ⟨j, k, -, rfl, -⟩ := h
  · exact le_refl _
  · exact (kNoEntry_lt k).le

theorem scanPatterns_cases (g : FastWildcardGroup) (str : GoogleString) (allow : Bool) :
    (scanPatterns g.patterns str allow = allow ∧ ∀ i, g.matchesAt str i = false) ∨
    ∃ j, g.matchesAt str j = true ∧ (∀ i, g.matchesAt str i = true → i ≤ j) ∧
      scanPatterns g.patterns str allow = g.allowAt j := by
  unfold scanPatterns
  cases hfind : g.patterns.reverse.find? fun p => p.1.isMatch str with
  | none =>
    refine Or.inl ⟨rfl, fun i => ?_⟩
    unfold matchesAt
    cases hi : g.patterns[i]? with
    | none => rfl
    | some p =>
      have hnot := List.find?_eq_none.mp hfind p (List.mem_reverse.mpr (List.mem_of_getElem? hi))
      exact Bool.eq_false_iff.mpr hnot
  | some p =>
    obtain ⟨hp, back, front, heq, hback⟩ := List.find?_eq_some_iff_append.mp hfind
    have hpatterns : g.patterns = front.reverse ++ p :: back.reverse := by
      rw [← List.reverse_reverse g.patterns, heq, List.reverse_append, List.reverse_cons, List.append_assoc]
      rfl
    have hat : g.patterns[front.length]? = some p := by
      rw [hpatterns, List.getElem?_append_right (by simp), List.length_reverse, Nat.sub_self, List.getElem?_cons_zero]
    refine Or.inr ⟨front.length, ?_, fun i hi => ?_, ?_⟩
    · unfold matchesAt
      rw [hat]
      exact hp
    · by_contra hlt
      unfold matchesAt at hi
      obtain ⟨k, rfl⟩ : ∃ k, i = front.length + 1 + k := ⟨i - (front.length + 1), by omega⟩
      rw [hpatterns, List.getElem?_append_right (by simp; omega), List.length_reverse,
        show front.length + 1 + k - front.length = k + 1 by omega, List.getElem?_cons_succ] at hi
      cases hk : back.reverse[k]? with
      | none =>
        rw [hk] at hi
        cases hi
      | some q =>
        have hnot := hback q (List.mem_reverse.mp (List.mem_of_getElem? hk))
        rw [hk] at hi
        rw [Option.any_some] at hi
        rw [hi] at hnot
        cases hnot
    · unfold allowAt
      rw [hat]
      rfl

theorem Settled.answer (h : Settled g str m) (hall : ∀ i, g.matchesAt str i = true → (i : ℤ) ≤ m) (allow : Bool) :
    (if m = kNoEntry then allow else g.allowAt m.toNat) = scanPatterns g.patterns str allow := by
  obtain ⟨hscan, hnone⟩ | ⟨j, hj, hlast, hscan⟩ := scanPatterns_cases g str allow
  · obtain rfl | ⟨j, k, hj, -⟩ := h
    · rw [if_pos rfl, hscan]
    · exact Bool.noConfusion ((hnone j).symm.trans hj)
  · obtain rfl | ⟨i, k, hi, rfl, hik, hsame⟩ := h
    · exact absurd (hall j hj) (not_le.mpr (kNoEntry_lt j))
    · have hjk := hall j hj
      have hij := hlast i hi
      rw [if_neg (kNoEntry_lt k).ne', hscan, Int.toNat_natCast, hsame k hik (le_refl k), hsame j hij (by omega)]

/-- The entry `p` places after that of the hash. -/
def entryFrom (g : FastWildcardGroup) (rollingHash : BitVec 64) (e p : ℕ) : ℤ :=
  g.table ((rollingHash.toNat + p) % 2 ^ e)

theorem Ready.entry (h : Ready g len e) (rollingHash : BitVec 64) (p : ℕ) :
    g.entry (rollingHash + BitVec.ofNat 64 p) = g.entryFrom rollingHash e p := by
  unfold FastWildcardGroup.entry entryFrom table
  rw [slot_add h.e_le h.hashed.size]

theorem Ready.settled (h : Ready g len e) {j : ℕ} (hj : g.matchesAt str j = true) :
    Settled g str (g.effectiveIndices.getD j kNoEntry) ∧ (j : ℤ) ≤ g.effectiveIndices.getD j kNoEntry := by
  obtain ⟨_, _, heffective⟩ := h.effective
  obtain ⟨k, hk, hjk, -, hsame⟩ := heffective.effective j (Nat.zero_le j) (lt_of_matchesAt hj)
  rw [List.getD_eq_getElem?_getD, hk]
  exact ⟨Or.inr ⟨j, k, hj, rfl, hjk, hsame⟩, Int.ofNat_le.mpr hjk⟩

theorem Ready.le_of_hash (h : Ready g len e) {rollingHash : BitVec 64} {k p : ℕ} (hk : g.matchesAt str k = true)
    (hliteral : (g.patterns.map fun p => p.1.longestLiteralString).getD k [] ≠ [])
    (hhash : g.rollingHashes[k]? = some rollingHash)
    (hbefore : ∀ r < p, ¬ (g.rollingHashes[(g.entryFrom rollingHash e r).toNat]? = some rollingHash ∧
      g.matchesAt str (g.entryFrom rollingHash e r).toNat = true)) : (k : ℤ) ≤ g.entryFrom rollingHash e p := by
  obtain ⟨start, -, hhash', q, hq, hat, habove⟩ := h.hashed.hashed k (Nat.zero_le k) (lt_of_matchesAt hk) hliteral
  obtain rfl := Option.some.inj (hhash'.symm.trans hhash)
  obtain hlt | rfl | hlt := lt_trichotomy q p
  · refine absurd ⟨?_, ?_⟩ (hbefore q hlt)
    · unfold entryFrom
      rw [hat]
      exact hhash
    · unfold entryFrom
      rw [hat]
      exact hk
  · exact hat.ge
  · exact (habove p hlt).le

theorem Ready.probeTable_some (h : Ready g len e) (rollingHash : BitVec 64) (hm : Settled g str m) (fuel p : ℕ)
    (hfuel : p + fuel = 2 ^ e) (hbefore : ∀ r < p, m < g.entryFrom rollingHash e r ∧
      ¬ (g.rollingHashes[(g.entryFrom rollingHash e r).toNat]? = some rollingHash ∧
        g.matchesAt str (g.entryFrom rollingHash e r).toNat = true)) :
    ∃ m', g.probeTable str rollingHash m fuel p = some m' ∧ m ≤ m' ∧ Settled g str m' ∧
      ∀ k, g.matchesAt str k = true → (g.patterns.map fun p => p.1.longestLiteralString).getD k [] ≠ [] →
        g.rollingHashes[k]? = some rollingHash → (k : ℤ) ≤ m' := by
  induction fuel generalizing p with
  | zero =>
    obtain ⟨q, hq, hfree⟩ := h.hashed.room h.few (List.length_map _) rollingHash.toNat
    have hlt := (hbefore q (by omega)).1
    unfold entryFrom at hlt
    rw [hfree] at hlt
    exact absurd hm.ge (not_le.mpr hlt)
  | succ fuel ih =>
    unfold probeTable
    simp only [h.entry]
    have hle := fun k hk hliteral hhash => h.le_of_hash (k := k) hk hliteral hhash fun r hr => (hbefore r hr).2
    split_ifs with hsmall hmatch
    · exact ⟨m, rfl, le_refl m, hm, fun k hk hliteral hhash => (hle k hk hliteral hhash).trans hsmall⟩
    · obtain ⟨hsettled, hindex⟩ := h.settled hmatch.2
      have hnat : ((g.entryFrom rollingHash e p).toNat : ℤ) = g.entryFrom rollingHash e p := by
        have hge := hm.ge
        unfold kNoEntry at hge
        omega
      rw [hnat] at hindex
      refine ⟨_, rfl, (not_le.mp hsmall).le.trans hindex, hsettled, fun k hk hliteral hhash => ?_⟩
      exact (hle k hk hliteral hhash).trans hindex
    · refine ih (p + 1) (by omega) fun r hr => ?_
      obtain hr | rfl := Nat.lt_succ_iff_lt_or_eq.mp hr
      · exact hbefore r hr
      · exact ⟨not_le.mp hsmall, hmatch⟩

theorem Ready.rollThrough_some (h : Ready g len e) (windows ofs : ℕ) (rollingHash : BitVec 64)
    (hhash : windows ≠ 0 → rollingHash = RollingHash.rollingHash str ofs len)
    (hwindows : windows ≠ 0 → ofs + windows + len = str.length + 1) (hm : Settled g str m) :
    ∃ m', g.rollThrough str len windows ofs rollingHash m = some m' ∧ m ≤ m' ∧ Settled g str m' ∧
      ∀ k, g.matchesAt str k = true → (g.patterns.map fun p => p.1.longestLiteralString).getD k [] ≠ [] →
        (∃ o, ofs ≤ o ∧ o < ofs + windows ∧ g.rollingHashes[k]? = some (RollingHash.rollingHash str o len)) →
        (k : ℤ) ≤ m' := by
  induction windows generalizing ofs rollingHash m with
  | zero => exact ⟨m, rfl, le_refl m, hm, fun k _ _ ⟨o, ho, ho', _⟩ => by omega⟩
  | succ windows ih =>
    have hstart := hhash (Nat.succ_ne_zero _)
    have hrest := hwindows (Nat.succ_ne_zero _)
    unfold rollThrough
    split_ifs with hexit hlast
    · subst hlast
      obtain ⟨m', hprobe, hle, hsettled, hall⟩ := h.probeTable_some rollingHash hm (2 ^ e) 0 (Nat.zero_add _) nofun
      rw [h.hashed.size, hprobe]
      refine ⟨m', rfl, hle, hsettled, fun k hk hliteral ⟨o, ho, ho', hwindow⟩ => ?_⟩
      obtain rfl : o = ofs := by omega
      exact hall k hk hliteral (hstart ▸ hwindow)
    · obtain ⟨m', hprobe, hle, hsettled, hall⟩ := h.probeTable_some rollingHash hm (2 ^ e) 0 (Nat.zero_add _) nofun
      have hnext : nextRollingHash str (ofs + 1) len rollingHash = RollingHash.rollingHash str (ofs + 1) len := by
        rw [hstart, nextRollingHash_eq str ofs len (by omega)]
      obtain ⟨m'', hroll, hle', hsettled', hall'⟩ := ih (ofs + 1) _ (fun _ => hnext) (fun _ => by omega) hsettled
      rw [h.hashed.size, hprobe]
      refine ⟨m'', hroll, hle.trans hle', hsettled', fun k hk hliteral ⟨o, ho, ho', hwindow⟩ => ?_⟩
      obtain rfl | hlt := Nat.eq_or_lt_of_le ho
      · exact (hall k hk hliteral (hstart ▸ hwindow)).trans hle'
      · exact hall' k hk hliteral ⟨o, hlt, by omega, hwindow⟩
    · refine ⟨m, rfl, le_refl m, hm, fun k hk _ _ => ?_⟩
      have hlt := lt_of_matchesAt hk
      omega

theorem rollingHash_of_infix {literal : GoogleString} {start : ℕ} (hpart : literal <:+: str)
    (hstart : start + len ≤ literal.length) :
    ∃ o, o + len ≤ str.length ∧ rollingHash literal start len = rollingHash str o len := by
  obtain ⟨s, t, rfl⟩ := hpart
  refine ⟨s.length + start, ?_, ?_⟩
  · rw [List.length_append, List.length_append]
    omega
  · unfold rollingHash
    rw [List.append_assoc, ← List.drop_drop, List.drop_left, List.drop_append_of_le_length (by omega),
      List.take_append_of_le_length (by rw [List.length_drop]; omega)]

def Specified (patterns : List (Wildcard × Bool)) : Prop := ∀ p ∈ patterns, ∃ expr, p.1 = Wildcard.initFromSpec expr

theorem Ready.window_of_matchesAt (h : Ready g len e) (hspec : Specified g.patterns) {k : ℕ}
    (hk : g.matchesAt str k = true) (hliteral : (g.patterns.map fun p => p.1.longestLiteralString).getD k [] ≠ []) :
    ∃ o, o + len ≤ str.length ∧ g.rollingHashes[k]? = some (rollingHash str o len) := by
  obtain ⟨start, hstart, hhash, -⟩ := h.hashed.hashed k (Nat.zero_le k) (lt_of_matchesAt hk) hliteral
  have hlt := lt_of_matchesAt hk
  have hget : (g.patterns.map fun p => p.1.longestLiteralString).getD k [] = g.patterns[k].1.longestLiteralString := by
    rw [List.getD_eq_getElem _ _ (by rw [List.length_map]; exact hlt), List.getElem_map]
  obtain ⟨expr, hexpr⟩ := hspec g.patterns[k] (List.getElem_mem hlt)
  have hmatch : (Wildcard.initFromSpec expr).isMatch str = true := by
    unfold matchesAt at hk
    rw [List.getElem?_eq_getElem hlt, Option.any_some, hexpr] at hk
    exact hk
  rw [hget, hexpr] at hstart hhash
  obtain ⟨o, ho, heq⟩ := rollingHash_of_infix (Wildcard.longestLiteralString_of_isMatch expr hmatch) hstart
  exact ⟨o, ho, by rw [hhash, heq]⟩

theorem Ready.wildcardOnly_settled (h : Ready g len e) (str : GoogleString) :
    Settled g str (g.matchWildcardOnly str) ∧ ∀ k, g.matchesAt str k = true →
      (g.patterns.map fun p => p.1.longestLiteralString).getD k [] = [] → (k : ℤ) ≤ g.matchWildcardOnly str := by
  have hmem : ∀ k, g.matchesAt str k = true → (g.patterns.map fun p => p.1.longestLiteralString).getD k [] = [] →
      k ∈ g.wildcardOnlyIndices := fun k hk hnil =>
    (h.wildcardOnly.mem k).mpr ⟨Nat.zero_le k, lt_of_matchesAt hk, hnil⟩
  cases hfind : g.wildcardOnlyIndices.find? (g.matchesAt str) with
  | none =>
    have hm : g.matchWildcardOnly str = kNoEntry := by
      unfold matchWildcardOnly
      rw [hfind]
    refine ⟨Or.inl hm, fun k hk hnil => ?_⟩
    exact absurd hk (List.find?_eq_none.mp hfind k (hmem k hk hnil))
  | some j =>
    have hm : g.matchWildcardOnly str = g.effectiveIndices.getD j kNoEntry := by
      unfold matchWildcardOnly
      rw [hfind]
    obtain ⟨hj, front, back, heq, hfront⟩ := List.find?_eq_some_iff_append.mp hfind
    obtain ⟨hsettled, hle⟩ := h.settled hj
    rw [hm]
    refine ⟨hsettled, fun k hk hnil => ?_⟩
    have hdescending := h.wildcardOnly.descending
    have hkmem := hmem k hk hnil
    rw [heq] at hdescending hkmem
    obtain hk' | hk' := List.mem_append.mp hkmem
    · have hnot := hfront k hk'
      rw [hk] at hnot
      cases hnot
    · obtain rfl | hk' := List.mem_cons.mp hk'
      · exact hle
      · have hlt := List.rel_of_pairwise_cons (List.pairwise_append.mp hdescending).2.1 hk'
        exact (Int.ofNat_le.mpr (Nat.le_of_lt hlt)).trans hle

theorem Ready.matchCompiled_eq (h : Ready g len e) (hspec : Specified g.patterns) (hstr : str.length < 2 ^ 31)
    (allow : Bool) : g.matchCompiled str allow = some (scanPatterns g.patterns str allow) := by
  have hlen := h.len_le
  unfold kMaxRollingHashWindow at hlen
  have hend : toInt32 ((str.length : ℤ) - len) = str.length - len := toInt32_of_lt (by omega) (by omega)
  obtain ⟨hsettled, honly⟩ := h.wildcardOnly_settled str
  obtain ⟨m, hroll, hle, hsettled', hall⟩ := h.rollThrough_some (((str.length : ℤ) - len + 1).toNat) 0
    (rollingHash str 0 len) (fun _ => rfl) (fun hne => by omega) hsettled
  unfold matchCompiled
  simp only [h.rollingHashLength, hend, Int.toNat_natCast]
  rw [hroll, Option.map_some, hsettled'.answer]
  intro k hk
  by_cases hliteral : (g.patterns.map fun p => p.1.longestLiteralString).getD k [] = []
  · exact (honly k hk hliteral).trans hle
  · obtain ⟨o, ho, hhash⟩ := h.window_of_matchesAt hspec hk hliteral
    exact hall k hk hliteral ⟨o, Nat.zero_le o, by omega, hhash⟩

inductive Call where
  | allow (expr : GoogleString)
  | disallow (expr : GoogleString)
  | appendFrom (src : List (GoogleString × Bool))
  | copyFrom (src : List (GoogleString × Bool))
  | isMatch (str : GoogleString) (allow : Bool)

def ofPatterns (src : List (GoogleString × Bool)) : FastWildcardGroup :=
  src.foldl (fun g p => g.add p.1 p.2) empty

/-- The answers of the `Match` calls. -/
def answers : FastWildcardGroup → List Call → Option (List Bool)
  | _, [] => some []
  | g, .allow expr :: calls => answers (g.allow expr) calls
  | g, .disallow expr :: calls => answers (g.disallow expr) calls
  | g, .appendFrom src :: calls => answers (g.appendFrom (ofPatterns src)) calls
  | g, .copyFrom src :: calls => answers (g.copyFrom (ofPatterns src)) calls
  | g, .isMatch str allow :: calls =>
    (g.isMatch str allow).bind fun (answer, g) => (answers g calls).map (answer :: ·)

def wildcardsOf (src : List (GoogleString × Bool)) : List (Wildcard × Bool) :=
  src.map fun p => (Wildcard.initFromSpec p.1, p.2)

/-- The answers of a list of patterns that is scanned for each `Match` call. -/
def plainAnswers : List (Wildcard × Bool) → List Call → List Bool
  | _, [] => []
  | patterns, .allow expr :: calls => plainAnswers (patterns ++ wildcardsOf [(expr, true)]) calls
  | patterns, .disallow expr :: calls => plainAnswers (patterns ++ wildcardsOf [(expr, false)]) calls
  | patterns, .appendFrom src :: calls => plainAnswers (patterns ++ wildcardsOf src) calls
  | _, .copyFrom src :: calls => plainAnswers (wildcardsOf src) calls
  | patterns, .isMatch str allow :: calls => scanPatterns patterns str allow :: plainAnswers patterns calls

/-- An `int` holds the lengths of the strings. -/
def Call.Small : Call → Prop
  | .allow expr | .disallow expr => expr.length < 2 ^ 31
  | .appendFrom src | .copyFrom src => ∀ p ∈ src, p.1.length < 2 ^ 31
  | .isMatch str _ => str.length < 2 ^ 31

def Call.added : Call → ℕ
  | .allow _ | .disallow _ => 1
  | .appendFrom src | .copyFrom src => src.length
  | .isMatch _ _ => 0

structure Coherent (g : FastWildcardGroup) : Prop where
  specified : Specified g.patterns
  compiled : (g = ⟨g.patterns, [], [], [], [], kUncompiled⟩) ∨ g.rollingHashLength = kDontHash ∨ ∃ len e, Ready g len e

theorem Ready.length_ne (h : Ready g len e) : g.rollingHashLength ≠ kUncompiled ∧ g.rollingHashLength ≠ kDontHash := by
  have hpos := h.len_pos
  rw [h.rollingHashLength]
  unfold kUncompiled kDontHash
  omega

theorem Coherent.uncompile (h : Coherent g) : g.uncompile = ⟨g.patterns, [], [], [], [], kUncompiled⟩ := by
  unfold FastWildcardGroup.uncompile
  split_ifs with huncompiled
  · obtain heq | hdont | ⟨len, e, hready⟩ := h.compiled
    · exact heq
    · exact absurd (huncompiled.symm.trans hdont) (by decide)
    · exact absurd huncompiled hready.length_ne.1
  · rfl

theorem wildcardsOf_specified (src : List (GoogleString × Bool)) : Specified (wildcardsOf src) := by
  intro p hp
  obtain ⟨q, -, rfl⟩ := List.mem_map.mp hp
  exact ⟨q.1, rfl⟩

theorem Specified.append {patterns patterns' : List (Wildcard × Bool)} (h : Specified patterns)
    (h' : Specified patterns') : Specified (patterns ++ patterns') := by
  intro p hp
  obtain hp | hp := List.mem_append.mp hp
  · exact h p hp
  · exact h' p hp

theorem Coherent.add (h : Coherent g) (expr : GoogleString) (allow : Bool) :
    Coherent (g.add expr allow) ∧ (g.add expr allow).patterns = g.patterns ++ wildcardsOf [(expr, allow)] := by
  unfold FastWildcardGroup.add
  rw [h.uncompile]
  exact ⟨⟨h.specified.append (wildcardsOf_specified [(expr, allow)]), Or.inl rfl⟩, rfl⟩

theorem empty_coherent : Coherent empty := ⟨nofun, Or.inl rfl⟩

theorem ofPatterns_coherent (src : List (GoogleString × Bool)) :
    Coherent (ofPatterns src) ∧ (ofPatterns src).patterns = wildcardsOf src := by
  induction src using List.reverseRecOn with
  | nil => exact ⟨empty_coherent, rfl⟩
  | append_singleton src p ih =>
    obtain ⟨hcoherent, hpatterns⟩ := ih
    obtain ⟨hcoherent, hadded⟩ := hcoherent.add p.1 p.2
    unfold ofPatterns at hcoherent hadded hpatterns ⊢
    rw [List.foldl_append, List.foldl_cons, List.foldl_nil]
    refine ⟨hcoherent, hadded.trans ?_⟩
    rw [hpatterns]
    exact (List.map_append ..).symm

theorem Coherent.appendFrom (h : Coherent g) (src : List (GoogleString × Bool)) :
    Coherent (g.appendFrom (ofPatterns src)) ∧
      (g.appendFrom (ofPatterns src)).patterns = g.patterns ++ wildcardsOf src := by
  unfold FastWildcardGroup.appendFrom
  rw [h.uncompile, (ofPatterns_coherent src).2]
  exact ⟨⟨h.specified.append (wildcardsOf_specified src), Or.inl rfl⟩, rfl⟩

theorem Coherent.clear (h : Coherent g) : g.clear = empty := by
  unfold FastWildcardGroup.clear
  rw [h.uncompile]
  rfl

theorem Coherent.isMatch (h : Coherent g) (hpatterns : g.patterns.length ≤ 2 ^ 29) (hstr : str.length < 2 ^ 31)
    (allow : Bool) :
    ∃ t, g.isMatch str allow = some (scanPatterns g.patterns str allow, t) ∧ t.patterns = g.patterns ∧ Coherent t := by
  have hanswer : ∀ t : FastWildcardGroup, t.patterns = g.patterns →
      (t.rollingHashLength = kDontHash ∨ ∃ len e, Ready t len e) →
      (if t.rollingHashLength = kDontHash then some (scanPatterns t.patterns str allow, t)
        else (t.matchCompiled str allow).map (·, t)) = some (scanPatterns g.patterns str allow, t) := by
    intro t hsame ht
    rw [← hsame]
    obtain hdont | ⟨len, e, hready⟩ := ht
    · rw [if_pos hdont]
    · rw [if_neg hready.length_ne.2, hready.matchCompiled_eq (hsame ▸ h.specified) hstr]
      rfl
  unfold FastWildcardGroup.isMatch
  obtain heq | hcompiled := h.compiled
  · obtain ⟨t, ht, hsame, hcompiled⟩ := compile_some (g := { g with rollingHashLength := kDontHash }) hpatterns
      (by rw [heq]) (by rw [heq]) (by rw [heq]) (by rw [heq]) rfl
    rw [if_pos (by rw [heq]), ht]
    exact ⟨t, hanswer t hsame hcompiled, hsame, hsame ▸ h.specified, Or.inr hcompiled⟩
  · have hne : g.rollingHashLength ≠ kUncompiled := by
      obtain hdont | ⟨len, e, hready⟩ := hcompiled
      · rw [hdont]
        decide
      · exact hready.length_ne.1
    rw [if_neg hne]
    exact ⟨g, hanswer g rfl hcompiled, rfl, h⟩

theorem Coherent.answers_eq (calls : List Call) (g : FastWildcardGroup) (h : Coherent g)
    (hsmall : ∀ call ∈ calls, call.Small) (hcount : g.patterns.length + (calls.map Call.added).sum ≤ 2 ^ 29) :
    answers g calls = some (plainAnswers g.patterns calls) := by
  induction calls generalizing g with
  | nil => rfl
  | cons call calls ih =>
    have hrest : ∀ c ∈ calls, c.Small := fun c hc => hsmall c (List.mem_cons_of_mem _ hc)
    rw [List.map_cons, List.sum_cons] at hcount
    -- the calls that change the patterns
    have hgrown : ∀ t patterns, t.patterns = patterns → Coherent t → patterns.length ≤ g.patterns.length + call.added →
        answers t calls = some (plainAnswers patterns calls) := by
      rintro t _ rfl ht hlength
      exact ih t ht hrest (by omega)
    cases call with
    | allow expr =>
      obtain ⟨ht, hpatterns⟩ := h.add expr true
      exact hgrown _ _ hpatterns ht (by simp [wildcardsOf, Call.added])
    | disallow expr =>
      obtain ⟨ht, hpatterns⟩ := h.add expr false
      exact hgrown _ _ hpatterns ht (by simp [wildcardsOf, Call.added])
    | appendFrom src =>
      obtain ⟨ht, hpatterns⟩ := h.appendFrom src
      exact hgrown _ _ hpatterns ht (by simp [wildcardsOf, Call.added])
    | copyFrom src =>
      obtain ⟨ht, hpatterns⟩ := empty_coherent.appendFrom src
      rw [← h.clear] at ht hpatterns
      exact hgrown _ _ (hpatterns.trans (by rw [h.clear]; rfl)) ht (by simp [wildcardsOf, Call.added])
    | isMatch str allow =>
      obtain ⟨t, heq, hsame, ht⟩ := h.isMatch (by omega) (hsmall _ List.mem_cons_self) allow
      change (g.isMatch str allow).bind _ = _
      rw [heq]
      change (answers t calls).map _ = _
      rw [hgrown t g.patterns hsame ht (Nat.le_add_right _ _)]
      rfl

/-- A group answers every `Match` call, before and after it is compiled, like a scan of its patterns. -/
theorem answers_plain (calls : List Call) (hsmall : ∀ call ∈ calls, call.Small)
    (hcount : (calls.map Call.added).sum ≤ 2 ^ 29) : answers empty calls = some (plainAnswers [] calls) :=
  empty_coherent.answers_eq calls empty hsmall (by rw [show empty.patterns = [] from rfl, List.length_nil]; omega)

/-- Eleven times the pattern `*a`. -/
def anyEndingInA : List Call := List.replicate 11 (.allow [42, 97])

/-- The hash table is used. -/
theorem answers_plain_compiled :
    answers empty (anyEndingInA ++ [.isMatch [98, 97] false, .isMatch [98] false]) =
      some (plainAnswers [] (anyEndingInA ++ [.isMatch [98, 97] false, .isMatch [98] false])) := by
  refine answers_plain _ (fun call hcall => ?_) (by decide)
  obtain hcall | hcall := List.mem_append.mp hcall
  · rw [List.eq_of_mem_replicate hcall]
    change 2 < 2 ^ 31
    decide
  · obtain rfl | hcall := List.mem_cons.mp hcall
    · change 2 < 2 ^ 31
      decide
    · rw [List.mem_singleton.mp hcall]
      change 1 < 2 ^ 31
      decide

/-- `x`s and an `a` at the end. -/
def long (n : ℕ) : GoogleString := 120 :: (List.replicate n 120 ++ [97])

theorem isMatch_long (n : ℕ) (hn : n + 1 = 2 ^ 32) : (Wildcard.initFromSpec [42, 97]).isMatch (long n) = true := by
  have hw : Wildcard.initFromSpec [42, 97] = ⟨[42, 97, 42], 2, 1, false⟩ := by decide
  have hlength : (long n).length = 2 ^ 32 + 1 := by
    unfold long
    rw [List.length_cons, List.length_append, List.length_replicate, List.length_singleton, hn]
  have hdrop : (long n).drop (2 ^ 32) = [97] := by
    unfold long
    rw [← hn, List.drop_succ_cons, List.drop_left' List.length_replicate]
  have hskip : toInt32 (((2 ^ 32 + 1 : ℕ) : ℤ) - ((3 - 2 : ℕ) : ℤ)) = 0 := by decide
  have hlast : 2 ^ 32 + 1 - (3 - 1 - 1) = 2 ^ 32 := rfl
  have hfirst : Wildcard.matchBlock [42, 97, 42] (long n) = 0 := rfl
  rw [hw]
  unfold Wildcard.isMatch
  simp only [hlength, List.length_cons, List.length_nil, Nat.zero_add, Nat.reduceAdd, hskip, hlast, hdrop, hfirst]
  rw [if_neg Bool.false_ne_true, if_neg (by decide), if_neg (by decide), if_neg (by decide), if_neg (by decide)]
  unfold Wildcard.matchBlocks
  rfl

theorem answers_replicate (k : ℕ) (g : FastWildcardGroup) (expr : GoogleString) (calls : List Call) :
    answers g (List.replicate k (.allow expr) ++ calls) =
      answers ((List.replicate k (expr, true)).foldl (fun g p => g.add p.1 p.2) g) calls := by
  induction k generalizing g with
  | zero => rfl
  | succ k ih => exact ih (g.allow expr)

theorem answers_long (n : ℕ) (hn : n + 1 = 2 ^ 32) :
    answers empty (anyEndingInA ++ [.isMatch (long n) false]) = some [false] := by
  have hlength : (long n).length = 2 ^ 32 + 1 := by
    unfold long
    rw [List.length_cons, List.length_append, List.length_replicate, List.length_singleton, hn]
  -- the table has no entry for the first window, and there is no other window
  have hcompile : ({ ofPatterns (List.replicate 11 ([42, 97], true)) with rollingHashLength := kDontHash }).compile.any
      (fun t : FastWildcardGroup => t.rollingHashLength = 1 ∧ t.wildcardOnlyIndices = [] ∧ t.patterns.length = 11 ∧
        t.patternHashIndex.length = 32 ∧ t.entry (rollingHash [120] 0 1 + BitVec.ofNat 64 0) = kNoEntry) = true := by
    decide +kernel
  obtain ⟨t, ht, hprops⟩ := (Option.any_eq_true _ _).mp hcompile
  obtain ⟨hlen, honly, hpatterns, hsize, hentry⟩ := of_decide_eq_true hprops
  have hend : ((toInt32 (((2 ^ 32 + 1 : ℕ) : ℤ) - 1)) + 1).toNat = 1 := by decide
  have hwindow : rollingHash (long n) 0 (1 : ℤ).toNat = rollingHash [120] 0 1 := rfl
  have hwildcards : t.matchWildcardOnly (long n) = kNoEntry := by
    unfold matchWildcardOnly
    rw [honly]
    rfl
  have hmatch : t.matchCompiled (long n) false = some false := by
    unfold matchCompiled
    simp only [hlength, hlen, hwildcards, hend, hwindow]
    unfold rollThrough
    rw [hpatterns, if_pos (by decide), hsize]
    unfold probeTable
    simp only [hentry]
    rfl
  unfold anyEndingInA
  rw [answers_replicate]
  change ((ofPatterns (List.replicate 11 ([42, 97], true))).isMatch (long n) false).bind _ = _
  unfold isMatch
  rw [if_pos (by decide), ht, Option.bind_some, hlen, if_neg (by decide), hmatch]
  rfl

theorem plainAnswers_long (n : ℕ) (hn : n + 1 = 2 ^ 32) :
    plainAnswers [] (anyEndingInA ++ [.isMatch (long n) false]) = [true] := by
  have hscan : plainAnswers [] (anyEndingInA ++ [.isMatch (long n) false]) =
      [scanPatterns (List.replicate 10 (Wildcard.initFromSpec [42, 97], true) ++
        [(Wildcard.initFromSpec [42, 97], true)]) (long n) false] := rfl
  rw [hscan]
  unfold scanPatterns
  rw [List.reverse_append, List.reverse_singleton, List.singleton_append, List.find?_cons, isMatch_long n hn]

/-- From four gigabytes on the windows of the string are not all looked at. -/
theorem answers_of_long_string : ∃ calls, answers empty calls ≠ some (plainAnswers [] calls) := by
  have hn : 2 ^ 32 - 1 + 1 = 2 ^ 32 := rfl
  refine ⟨anyEndingInA ++ [.isMatch (long (2 ^ 32 - 1)) false], ?_⟩
  generalize 2 ^ 32 - 1 = n at hn
  rw [answers_long n hn, plainAnswers_long n hn]
  decide

end Matching

end FastWildcardGroup

end PageSpeed
