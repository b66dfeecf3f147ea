import PageSpeed.Base.Wildcard

/-!
The language of a pattern, and that a wildcard matches it. The blocks between the first and the
last are looked for one after the other, each as early as it can be.
-/

namespace PageSpeed.Wildcard

/-- `*` stands for any bytes, `?` for one byte, every other byte for itself. -/
def InLanguage : GoogleString → GoogleString → Prop
  | [], s => s = []
  | p :: pat, s =>
    if p = kMatchAny then ∃ u v, s = u ++ v ∧ InLanguage pat v
    else ∃ c v, s = c :: v ∧ (p = c ∨ p = kMatchOne) ∧ InLanguage pat v

variable {pat pat' s t b last actual rest : GoogleString} {blocks : List GoogleString}

theorem inLanguage_nil : InLanguage [] s ↔ s = [] := Iff.rfl

theorem inLanguage_any : InLanguage (kMatchAny :: pat) s ↔ ∃ u v, s = u ++ v ∧ InLanguage pat v := by
  rw [InLanguage, if_pos rfl]

theorem inLanguage_byte {p : UInt8} (hp : p ≠ kMatchAny) :
    InLanguage (p :: pat) s ↔ ∃ c v, s = c :: v ∧ (p = c ∨ p = kMatchOne) ∧ InLanguage pat v := by
  rw [InLanguage, if_neg hp]

theorem inLanguage_append :
    InLanguage (pat ++ pat') s ↔ ∃ u v, s = u ++ v ∧ InLanguage pat u ∧ InLanguage pat' v := by
  induction pat generalizing s with
  | nil =>
    constructor
    · intro h
      exact ⟨[], s, rfl, rfl, h⟩
    · rintro ⟨u, v, rfl, rfl, hv⟩
      exact hv
  | cons p pat ih =>
    rw [List.cons_append]
    by_cases hp : p = kMatchAny
    · subst hp
      simp only [inLanguage_any, ih]
      constructor
      · rintro ⟨a, _, rfl, u, v, rfl, hu, hv⟩
        exact ⟨a ++ u, v, (List.append_assoc a u v).symm, ⟨a, u, rfl, hu⟩, hv⟩
      · rintro ⟨_, v, rfl, ⟨a, u, rfl, hu⟩, hv⟩
        exact ⟨a, u ++ v, List.append_assoc a u v, u, v, rfl, hu, hv⟩
    · simp only [inLanguage_byte hp, ih]
      constructor
      · rintro ⟨c, _, rfl, hc, u, v, rfl, hu, hv⟩
        exact ⟨c :: u, v, rfl, ⟨c, u, rfl, hc, hu⟩, hv⟩
      · rintro ⟨_, v, rfl, ⟨c, u, rfl, hc, hu⟩, hv⟩
        exact ⟨c, u ++ v, rfl, hc, u, v, rfl, hu, hv⟩

def SameLanguage (pat pat' : GoogleString) : Prop := ∀ s, InLanguage pat s ↔ InLanguage pat' s

theorem SameLanguage.append (h : SameLanguage pat pat') (rest : GoogleString) :
    SameLanguage (pat ++ rest) (pat' ++ rest) := by
  intro s
  rw [inLanguage_append, inLanguage_append]
  constructor
  · rintro ⟨u, v, hs, hu, hv⟩
    exact ⟨u, v, hs, (h u).mp hu, hv⟩
  · rintro ⟨u, v, hs, hu, hv⟩
    exact ⟨u, v, hs, (h u).mpr hu, hv⟩

theorem SameLanguage.prepend (h : SameLanguage pat pat') (front : GoogleString) :
    SameLanguage (front ++ pat) (front ++ pat') := by
  intro s
  rw [inLanguage_append, inLanguage_append]
  constructor
  · rintro ⟨u, v, hs, hu, hv⟩
    exact ⟨u, v, hs, hu, (h v).mp hv⟩
  · rintro ⟨u, v, hs, hu, hv⟩
    exact ⟨u, v, hs, hu, (h v).mpr hv⟩

theorem any_any : SameLanguage [kMatchAny, kMatchAny] [kMatchAny] := by
  intro s
  simp only [inLanguage_any, inLanguage_nil]
  constructor
  · rintro ⟨u, _, rfl, v, _, rfl, rfl⟩
    exact ⟨u ++ v, [], by simp, rfl⟩
  · rintro ⟨u, v, rfl, rfl⟩
    exact ⟨u, [], rfl, [], [], rfl, rfl⟩

theorem any_one : SameLanguage [kMatchAny, kMatchOne] [kMatchOne, kMatchAny] := by
  intro s
  have hone : kMatchOne ≠ kMatchAny := by decide
  simp only [inLanguage_any, inLanguage_byte hone, inLanguage_nil]
  constructor
  · rintro ⟨u, _, rfl, c, _, rfl, -, rfl⟩
    cases u with
    | nil => exact ⟨c, [], rfl, .inr trivial, [], [], rfl, rfl⟩
    | cons a u => exact ⟨a, u ++ [c], rfl, .inr trivial, u ++ [c], [], by simp, rfl⟩
  · rintro ⟨c, _, rfl, -, u, _, rfl, rfl⟩
    rw [List.append_nil]
    obtain rfl | ⟨u, a, rfl⟩ := List.eq_nil_or_concat' u
    · exact ⟨[], [c], rfl, c, [], rfl, .inr trivial, rfl⟩
    · exact ⟨c :: u, [a], by simp, a, [], rfl, .inr trivial, rfl⟩

def soFar (state : Wildcard × Bool) : GoogleString := state.1.storage ++ if state.2 then [kMatchAny] else []

theorem initChar_language (state : Wildcard × Bool) (c : UInt8) :
    SameLanguage (soFar state ++ [c]) (soFar (initChar state c)) := by
  obtain ⟨w, lastWasAny⟩ := state
  by_cases hany : c = kMatchAny
  · have hstep : initChar (w, lastWasAny) c = ({ w with isSimple := false }, true) := if_pos hany
    rw [hstep, hany]
    unfold soFar
    rw [List.append_assoc]
    apply SameLanguage.prepend
    cases lastWasAny with
    | false => exact fun s => Iff.rfl
    | true => exact any_any
  · by_cases hone : c = kMatchOne
    · have hstep : initChar (w, lastWasAny) c =
          ({ w with storage := w.storage ++ [c], isSimple := false }, lastWasAny) :=
        (if_neg hany).trans (if_pos hone)
      rw [hstep, hone]
      unfold soFar
      rw [List.append_assoc, List.append_assoc]
      apply SameLanguage.prepend
      cases lastWasAny with
      | false => exact fun s => Iff.rfl
      | true => exact any_one
    · have hsame : soFar (w, lastWasAny) ++ [c] = soFar (initChar (w, lastWasAny) c) := by
        unfold soFar initChar
        cases lastWasAny <;> simp [hany, hone]
      rw [hsame]
      exact fun s => Iff.rfl

theorem foldl_language (wildcardSpec : GoogleString) (state : Wildcard × Bool) :
    SameLanguage (soFar state ++ wildcardSpec) (soFar (wildcardSpec.foldl initChar state)) := by
  induction wildcardSpec generalizing state with
  | nil =>
    rw [List.append_nil]
    exact fun s => Iff.rfl
  | cons c wildcardSpec ih =>
    intro s
    have hchar := (initChar_language state c).append wildcardSpec s
    rw [List.append_assoc, List.singleton_append] at hchar
    exact hchar.trans (ih (initChar state c) s)

theorem spec_language (wildcardSpec : GoogleString) :
    SameLanguage wildcardSpec (initFromSpec wildcardSpec).spec := by
  have hfold := foldl_language wildcardSpec (⟨[], 1, 0, true⟩, false)
  have hspec : (initFromSpec wildcardSpec).spec = soFar (wildcardSpec.foldl initChar (⟨[], 1, 0, true⟩, false)) := by
    unfold initFromSpec spec soFar
    generalize wildcardSpec.foldl initChar (⟨[], 1, 0, true⟩, false) = state
    obtain ⟨w, lastWasAny⟩ := state
    cases lastWasAny with
    | false => simp
    | true =>
      change (w.storage ++ [kMatchAny, kMatchAny]).take ((w.storage ++ [kMatchAny, kMatchAny]).length - 1) =
        w.storage ++ [kMatchAny]
      have hlen : (w.storage ++ [kMatchAny, kMatchAny]).length - 1 = (w.storage ++ [kMatchAny]).length := by simp
      rw [hlen, List.append_cons w.storage kMatchAny [kMatchAny], List.take_left]
  rw [hspec]
  exact hfold

theorem inLanguage_block (hb : kMatchAny ∉ b) :
    InLanguage (b ++ pat) s ↔ Fits b s ∧ InLanguage pat (s.drop b.length) := by
  induction b generalizing s with
  | nil => simp [Fits]
  | cons p b ih =>
    obtain ⟨hp, hb⟩ := not_or.mp (mt List.mem_cons.mpr hb)
    rw [List.cons_append, inLanguage_byte (Ne.symm hp)]
    cases s with
    | nil => simp [Fits]
    | cons c s =>
      constructor
      · rintro ⟨c', v, heq, hc, hv⟩
        obtain ⟨rfl, rfl⟩ := List.cons.inj heq
        obtain ⟨hfits, hrest⟩ := (ih hb).mp hv
        exact ⟨⟨hc, hfits⟩, hrest⟩
      · rintro ⟨⟨hc, hfits⟩, hrest⟩
        exact ⟨c, s, rfl, hc, (ih hb).mpr ⟨hfits, hrest⟩⟩

theorem inLanguage_any_drop : InLanguage (kMatchAny :: pat) s ↔ ∃ k, InLanguage pat (s.drop k) := by
  rw [inLanguage_any]
  constructor
  · rintro ⟨u, v, rfl, hv⟩
    exact ⟨u.length, by rwa [List.drop_left]⟩
  · rintro ⟨k, hk⟩
    exact ⟨s.take k, s.drop k, (List.take_append_drop k s).symm, hk⟩

theorem length_le_of_fits (h : Fits b s) : b.length ≤ s.length := by
  induction b generalizing s with
  | nil => exact Nat.zero_le _
  | cons p b ih =>
    cases s with
    | nil => exact h.elim
    | cons c s => exact Nat.succ_le_succ (ih h.2)

theorem fits_take (n : ℕ) (h : b.length ≤ n) : Fits b (s.take n) ↔ Fits b s := by
  induction b generalizing s n with
  | nil => exact Iff.rfl
  | cons p b ih =>
    obtain ⟨n, rfl⟩ := Nat.exists_eq_succ_of_ne_zero (Nat.ne_of_gt (Nat.lt_of_lt_of_le (Nat.succ_pos _) h))
    cases s with
    | nil => exact Iff.rfl
    | cons c s =>
      rw [List.take_succ_cons]
      exact and_congr_right fun _ => ih n (Nat.le_of_succ_le_succ h)

def Found : List GoogleString → GoogleString → Prop
  | [], _ => True
  | b :: blocks, s => ∃ k, Fits b (s.drop k) ∧ Found blocks (s.drop (k + b.length))

def total (blocks : List GoogleString) : ℕ := (blocks.map List.length).sum

theorem total_cons (b : GoogleString) (blocks : List GoogleString) : total (b :: blocks) = b.length + total blocks :=
  List.sum_cons

theorem found_of_drop {j : ℕ} (h : Found blocks (s.drop j)) : Found blocks s := by
  cases blocks with
  | nil => trivial
  | cons b blocks =>
    obtain ⟨k, hfits, hrest⟩ := h
    rw [List.drop_drop] at hfits hrest
    exact ⟨j + k, hfits, by rwa [Nat.add_assoc]⟩

theorem total_le_of_found (h : Found blocks s) : total blocks ≤ s.length := by
  induction blocks generalizing s with
  | nil => exact Nat.zero_le _
  | cons b blocks ih =>
    obtain ⟨k, hfits, hrest⟩ := h
    have hlen := length_le_of_fits hfits
    have hle := ih hrest
    rw [List.length_drop] at hlen hle
    rw [total_cons]
    cases b with
    | nil =>
      rw [List.length_nil] at hle ⊢
      omega
    | cons p b =>
      rw [List.length_cons] at hle hlen ⊢
      omega

theorem found_cons_iff (k : ℕ) (hbefore : ∀ j < k, ¬ Fits b (s.drop j)) :
    Found (b :: blocks) s ↔ Found (b :: blocks) (s.drop k) := by
  constructor
  · rintro ⟨j, hfits, hrest⟩
    have hle : k ≤ j := Nat.le_of_not_lt fun hlt => hbefore j hlt hfits
    refine ⟨j - k, ?_, ?_⟩
    · rwa [List.drop_drop, Nat.add_sub_cancel' hle]
    · rw [List.drop_drop, ← Nat.add_assoc, Nat.add_sub_cancel' hle]
      exact hrest
  · exact found_of_drop

theorem found_cons_of_fits (h : Fits b s) : Found (b :: blocks) s ↔ Found blocks (s.drop b.length) := by
  constructor
  · rintro ⟨k, -, hrest⟩
    rw [Nat.add_comm, ← List.drop_drop] at hrest
    exact found_of_drop hrest
  · intro hrest
    exact ⟨0, h, by rwa [Nat.zero_add]⟩

theorem inLanguage_stored (hblocks : ∀ b ∈ blocks, kMatchAny ∉ b ∧ b ≠ []) (hlast : kMatchAny ∉ last) :
    InLanguage (kMatchAny :: (stored blocks ++ last)) s ↔ last.length ≤ s.length ∧
      Fits last (s.drop (s.length - last.length)) ∧ Found blocks (s.take (s.length - last.length)) := by
  induction blocks generalizing s with
  | nil =>
    rw [inLanguage_any_drop, stored_nil, List.nil_append]
    have hexact : ∀ t, InLanguage last t ↔ Fits last t ∧ t.length ≤ last.length := by
      intro t
      have hblock : InLanguage (last ++ []) t ↔ Fits last t ∧ InLanguage [] (t.drop last.length) := inLanguage_block hlast
      rw [List.append_nil, inLanguage_nil, List.drop_eq_nil_iff] at hblock
      exact hblock
    constructor
    · rintro ⟨k, hk⟩
      obtain ⟨hfits, hle⟩ := (hexact _).mp hk
      have hge := length_le_of_fits hfits
      rw [List.length_drop] at hle hge
      have hdrop : s.drop k = s.drop (s.length - last.length) := by
        by_cases hks : k ≤ s.length
        · congr 1
          omega
        · rw [List.drop_of_length_le (by omega), List.drop_of_length_le (by omega)]
      rw [← hdrop]
      exact ⟨by omega, hfits, trivial⟩
    · rintro ⟨hle, hfits, -⟩
      refine ⟨s.length - last.length, (hexact _).mpr ⟨hfits, ?_⟩⟩
      rw [List.length_drop]
      omega
  | cons b blocks ih =>
    obtain ⟨hb, hne⟩ := hblocks b List.mem_cons_self
    have hpos := List.length_pos_iff.mpr hne
    have hpat : stored (b :: blocks) ++ last = b ++ kMatchAny :: (stored blocks ++ last) := by
      rw [stored_cons, List.append_assoc, List.cons_append]
    rw [inLanguage_any_drop, hpat]
    have hrest := fun t => ih (s := t) fun x hx => hblocks x (List.mem_cons_of_mem b hx)
    -- where the block ends is the start of what holds the other blocks
    have hcut : ∀ k, k + b.length + last.length ≤ s.length →
        (s.drop (k + b.length)).drop (s.length - (k + b.length) - last.length) = s.drop (s.length - last.length) ∧
        (s.drop (k + b.length)).take (s.length - (k + b.length) - last.length) =
          (s.take (s.length - last.length)).drop (k + b.length) ∧
        (Fits b ((s.take (s.length - last.length)).drop k) ↔ Fits b (s.drop k)) := by
      intro k hk
      refine ⟨?_, ?_, ?_⟩
      · rw [List.drop_drop]
        congr 1
        omega
      · rw [List.drop_take]
        congr 1
        omega
      · rw [List.drop_take, fits_take _ (by omega)]
    constructor
    · rintro ⟨k, hk⟩
      obtain ⟨hfits, hk⟩ := (inLanguage_block hb).mp hk
      have hlen := length_le_of_fits hfits
      obtain ⟨hle, hlastFits, hfound⟩ := (hrest _).mp hk
      simp only [List.drop_drop, List.length_drop] at hle hlen hlastFits hfound
      obtain ⟨hdrop, htake, hfits'⟩ := hcut k (by omega)
      rw [List.drop_drop] at hdrop
      refine ⟨by omega, hdrop ▸ hlastFits, k, hfits'.mpr hfits, htake ▸ hfound⟩
    · rintro ⟨hle, hlastFits, k, hfits, hfound⟩
      have hlen := length_le_of_fits hfits
      rw [List.length_drop, List.length_take] at hlen
      obtain ⟨hdrop, htake, hfits'⟩ := hcut k (by omega)
      refine ⟨k, (inLanguage_block hb).mpr ⟨hfits'.mp hfits, (hrest _).mpr ?_⟩⟩
      rw [List.drop_drop, List.length_drop, hdrop, htake]
      exact ⟨by omega, hlastFits, hfound⟩

theorem inLanguage_literal (hpat : ∀ c ∈ pat, c ≠ kMatchAny ∧ c ≠ kMatchOne) : InLanguage pat s ↔ s = pat := by
  induction pat generalizing s with
  | nil => exact Iff.rfl
  | cons p pat ih =>
    obtain ⟨hany, hone⟩ := hpat p List.mem_cons_self
    have hrest := fun v => ih (s := v) fun c hc => hpat c (List.mem_cons_of_mem p hc)
    rw [inLanguage_byte hany]
    constructor
    · rintro ⟨c, v, rfl, hc, hv⟩
      rw [hc.resolve_right hone, (hrest v).mp hv]
    · rintro rfl
      exact ⟨p, pat, rfl, .inl rfl, (hrest pat).mpr rfl⟩

variable {state : Wildcard × Bool} {c : UInt8} {wildcardSpec : GoogleString}

theorem isSimple_initChar (h : (initChar state c).1.isSimple = true) :
    state.1.isSimple = true ∧ c ≠ kMatchAny ∧ c ≠ kMatchOne := by
  obtain ⟨w, lastWasAny⟩ := state
  simp only [initChar] at h
  split_ifs at h with hany hone hlast
  · exact ⟨h, hany, hone⟩
  · exact ⟨h, hany, hone⟩

theorem isSimple_foldl (h : (wildcardSpec.foldl initChar state).1.isSimple = true) :
    state.1.isSimple = true ∧ ∀ c ∈ wildcardSpec, c ≠ kMatchAny ∧ c ≠ kMatchOne := by
  induction wildcardSpec generalizing state with
  | nil => exact ⟨h, nofun⟩
  | cons c wildcardSpec ih =>
    obtain ⟨hchar, hrest⟩ := ih h
    obtain ⟨hstate, hc⟩ := isSimple_initChar hchar
    exact ⟨hstate, List.forall_mem_cons.mpr ⟨hc, hrest⟩⟩

theorem foldl_literal (h : ∀ c ∈ wildcardSpec, c ≠ kMatchAny ∧ c ≠ kMatchOne) (w : Wildcard) :
    wildcardSpec.foldl initChar (w, false) = ({ w with storage := w.storage ++ wildcardSpec }, false) := by
  induction wildcardSpec generalizing w with
  | nil => simp
  | cons c wildcardSpec ih =>
    obtain ⟨⟨hany, hone⟩, hrest⟩ := List.forall_mem_cons.mp h
    have hchar : initChar (w, false) c = ({ w with storage := w.storage ++ [c] }, false) := by
      simp [initChar, hany, hone]
    rw [List.foldl_cons, hchar, ih hrest]
    simp

theorem spec_of_isSimple (h : (initFromSpec wildcardSpec).isSimple = true) :
    (initFromSpec wildcardSpec).spec = wildcardSpec ∧ ∀ c ∈ wildcardSpec, c ≠ kMatchAny ∧ c ≠ kMatchOne := by
  have hsimple : (wildcardSpec.foldl initChar (⟨[], 1, 0, true⟩, false)).1.isSimple = true := by
    unfold initFromSpec at h
    generalize wildcardSpec.foldl initChar (⟨[], 1, 0, true⟩, false) = state at h ⊢
    obtain ⟨w, lastWasAny⟩ := state
    cases lastWasAny <;> exact h
  have hliteral := (isSimple_foldl hsimple).2
  refine ⟨?_, hliteral⟩
  unfold initFromSpec spec
  rw [foldl_literal hliteral]
  simp

theorem length_foldl (wildcardSpec : GoogleString) (state : Wildcard × Bool) (n : ℕ)
    (h : state.1.storage.length + 1 ≤ n + state.1.numBlocks) :
    (wildcardSpec.foldl initChar state).1.storage.length + 1 ≤
      n + wildcardSpec.length + (wildcardSpec.foldl initChar state).1.numBlocks := by
  induction wildcardSpec generalizing state n with
  | nil => exact h
  | cons c wildcardSpec ih =>
    have hchar : (initChar state c).1.storage.length + 1 ≤ n + 1 + (initChar state c).1.numBlocks := by
      obtain ⟨w, lastWasAny⟩ := state
      simp only [initChar]
      split_ifs <;> simp only [List.length_append, List.length_cons, List.length_nil] at h ⊢ <;> omega
    have hrest := ih (initChar state c) (n + 1) hchar
    rw [List.foldl_cons, List.length_cons]
    omega

theorem length_storage_le (wildcardSpec : GoogleString) :
    (initFromSpec wildcardSpec).storage.length ≤ wildcardSpec.length + (initFromSpec wildcardSpec).numBlocks := by
  have hfold := length_foldl wildcardSpec (⟨[], 1, 0, true⟩, false) 0 (Nat.le_refl _)
  unfold initFromSpec
  generalize wildcardSpec.foldl initChar (⟨[], 1, 0, true⟩, false) = state at hfold ⊢
  obtain ⟨w, lastWasAny⟩ := state
  cases lastWasAny <;> simp at hfold ⊢ <;> omega

structure Canonical (storage : GoogleString) : Prop where
  one : ¬ [kMatchAny, kMatchOne] <:+: storage
  last : storage.getLast? ≠ some kMatchAny

theorem pair_infix_concat {a b : UInt8} {l : GoogleString} (h : [a, b] <:+: l ++ [c]) :
    [a, b] <:+: l ∨ (l.getLast? = some a ∧ c = b) := by
  obtain ⟨u, v, h⟩ := h
  obtain rfl | ⟨v, x, rfl⟩ := List.eq_nil_or_concat' v
  · right
    have heq : u ++ [a] ++ [b] = l ++ [c] := by simpa using h
    obtain ⟨rfl, hc⟩ := List.append_inj' heq rfl
    exact ⟨by simp, (List.cons.inj hc).1.symm⟩
  · left
    rw [← List.append_assoc] at h
    exact ⟨u, v, (List.append_inj' h rfl).1⟩

theorem Canonical.push {storage : GoogleString} (h : Canonical storage) (hc : c ≠ kMatchAny) :
    Canonical (storage ++ [c]) := by
  refine ⟨fun hinfix => ?_, by simpa using hc⟩
  obtain hinfix | ⟨hlast, -⟩ := pair_infix_concat hinfix
  · exact h.one hinfix
  · exact h.last hlast

theorem Canonical.one_concat {storage : GoogleString} (h : ¬ [kMatchAny, kMatchOne] <:+: storage)
    (hc : c ≠ kMatchOne) : ¬ [kMatchAny, kMatchOne] <:+: storage ++ [c] := by
  intro hinfix
  obtain hinfix | ⟨-, heq⟩ := pair_infix_concat hinfix
  · exact h hinfix
  · exact hc heq

theorem canonical_initChar (h : Canonical state.1.storage) (c : UInt8) : Canonical (initChar state c).1.storage := by
  obtain ⟨w, lastWasAny⟩ := state
  simp only [initChar]
  split_ifs with hany hone hlast
  · exact h
  · exact h.push hany
  · have hstored : w.storage ++ [kMatchAny, c] = w.storage ++ [kMatchAny] ++ [c] := by simp
    rw [hstored]
    refine ⟨Canonical.one_concat (Canonical.one_concat h.one (by decide)) hone, by simpa using hany⟩
  · exact h.push hany

theorem canonical_foldl (wildcardSpec : GoogleString) (h : Canonical state.1.storage) :
    Canonical (wildcardSpec.foldl initChar state).1.storage := by
  induction wildcardSpec generalizing state with
  | nil => exact h
  | cons c wildcardSpec ih => exact ih (canonical_initChar h c)

theorem not_infix_one (wildcardSpec : GoogleString) :
    ¬ [kMatchAny, kMatchOne] <:+: (initFromSpec wildcardSpec).storage := by
  have hempty : Canonical [] := ⟨fun h => absurd (List.infix_nil.mp h) (List.cons_ne_nil _ _), nofun⟩
  have hfold : Canonical (wildcardSpec.foldl initChar (⟨[], 1, 0, true⟩, false)).1.storage :=
    canonical_foldl wildcardSpec hempty
  have hstar : kMatchAny ≠ kMatchOne := by decide
  unfold initFromSpec
  generalize wildcardSpec.foldl initChar (⟨[], 1, 0, true⟩, false) = state at hfold ⊢
  obtain ⟨w, lastWasAny⟩ := state
  cases lastWasAny with
  | false => exact Canonical.one_concat hfold.one hstar
  | true =>
    have hstored : w.storage ++ [kMatchAny, kMatchAny] = w.storage ++ [kMatchAny] ++ [kMatchAny] := by simp
    change ¬ _ <:+: w.storage ++ [kMatchAny, kMatchAny]
    rw [hstored]
    exact Canonical.one_concat (Canonical.one_concat hfold.one hstar) hstar

theorem infix_any_block {b x : GoogleString} (hx : x ∈ blocks) : kMatchAny :: x <:+: stored (b :: blocks) := by
  induction blocks generalizing b with
  | nil => exact absurd hx List.not_mem_nil
  | cons y blocks ih =>
    rw [stored_cons]
    obtain rfl | hx := List.mem_cons.mp hx
    · refine ⟨b, kMatchAny :: stored blocks, ?_⟩
      rw [stored_cons]
      simp
    · exact (ih (b := y) hx).trans ⟨b ++ [kMatchAny], [], by simp⟩

theorem head_of_stored {w : Wildcard} {ending : GoogleString} (hw : Stored w (b :: blocks) last ending)
    (hone : ¬ [kMatchAny, kMatchOne] <:+: w.storage) :
    ∀ x ∈ blocks, kMatchAny ∉ x ∧ ∃ c x', x = c :: x' ∧ c ≠ kMatchOne := by
  intro x hx
  obtain ⟨c, x', rfl⟩ := List.exists_cons_of_ne_nil (hw.nonempty x hx)
  refine ⟨hw.noStar _ (List.mem_cons_of_mem b hx), c, x', rfl, ?_⟩
  rintro rfl
  apply hone
  rw [hw.storage, List.append_assoc]
  have hpair : [kMatchAny, kMatchOne] <:+: kMatchAny :: kMatchOne :: x' := ⟨[], x', rfl⟩
  exact hpair.trans ((infix_any_block hx).trans (List.prefix_append _ _).isInfix)

theorem length_stored (blocks : List GoogleString) : (stored blocks).length = total blocks + blocks.length := by
  induction blocks with
  | nil => rfl
  | cons b blocks ih =>
    rw [stored_cons, List.length_append, List.length_cons, ih, total_cons, List.length_cons]
    omega

end PageSpeed.Wildcard
