import Mathlib.Data.List.DropRight

/-!
The parts of a list between separators, without the empty ones.
-/

namespace PageSpeed.Words

variable {α : Type*} {p q : α → Bool}

def words (p : α → Bool) (s : List α) : List (List α) := (s.splitOnP p).filter fun w => !w.isEmpty

def trim (p : α → Bool) (s : List α) : List α := ((s.dropWhile p).reverse.dropWhile p).reverse

theorem words_nil (p : α → Bool) : words p [] = [] := by
  rw [words, List.splitOnP_nil]
  rfl

theorem words_append_cons {c : α} (hc : p c = true) (s t : List α) : words p (s ++ c :: t) = words p s ++ words p t := by
  rw [words, List.splitOnP_append_cons _ _ hc, List.filter_append]
  rfl

theorem words_of_free {s : List α} (h : ∀ c ∈ s, p c = false) (hne : s ≠ []) : words p s = [s] := by
  rw [words, List.splitOnP_eq_singleton h, List.filter_cons, List.filter_nil]
  cases s with
  | nil => exact absurd rfl hne
  | cons c s => rfl

theorem words_cons {c : α} (hc : p c = true) (s : List α) : words p (c :: s) = words p s := by
  have h := words_append_cons hc [] s
  rw [words_nil] at h
  exact h

theorem words_snoc {c : α} (hc : p c = true) (s : List α) : words p (s ++ [c]) = words p s := by
  rw [words_append_cons hc, words_nil, List.append_nil]

theorem words_append_blank (s : List α) {t : List α} (ht : ∀ c ∈ t, p c = true) : words p (s ++ t) = words p s := by
  induction t using List.reverseRecOn with
  | nil => rw [List.append_nil]
  | append_singleton t c ih =>
    rw [← List.append_assoc, words_snoc (ht c (by simp)), ih fun d hd => ht d (by simp [hd])]

theorem words_blank_append {t : List α} (ht : ∀ c ∈ t, p c = true) (s : List α) : words p (t ++ s) = words p s := by
  induction t with
  | nil => rfl
  | cons c t ih => rw [List.cons_append, words_cons (ht c List.mem_cons_self), ih fun d hd => ht d (by simp [hd])]

theorem exists_trim (p : α → Bool) (s : List α) :
    ∃ front back, s = front ++ trim p s ++ back ∧ (∀ c ∈ front, p c = true) ∧ ∀ c ∈ back, p c = true := by
  refine ⟨s.takeWhile p, ((s.dropWhile p).reverse.takeWhile p).reverse, ?_, ?_, ?_⟩
  · rw [trim, List.append_assoc, ← List.reverse_append, List.takeWhile_append_dropWhile, List.reverse_reverse,
      List.takeWhile_append_dropWhile]
  · exact fun c hc => List.mem_takeWhile_imp hc
  · exact fun c hc => List.mem_takeWhile_imp (List.mem_reverse.mp hc)

theorem words_trim (s : List α) : words p (trim p s) = words p s := by
  obtain ⟨front, back, hs, hfront, hback⟩ := exists_trim p s
  have hwords := congrArg (words p) hs
  rw [words_append_blank _ hback, words_blank_append hfront] at hwords
  exact hwords.symm

theorem trim_getLast (p : α → Bool) {s t : List α} {c : α} (h : trim p s = t ++ [c]) : p c = false := by
  have hrev : trim p s = (s.dropWhile p).rdropWhile p := rfl
  by_contra hc
  rw [Bool.not_eq_false] at hc
  have hidem := List.rdropWhile_idempotent p (s.dropWhile p)
  rw [← hrev, h, List.rdropWhile_concat_pos _ _ _ hc] at hidem
  have hlength := congrArg List.length hidem
  have hle := (List.rdropWhile_prefix p t).length_le
  rw [List.length_append, List.length_singleton] at hlength
  omega

theorem trim_head (p : α → Bool) {s t : List α} {c : α} (h : trim p s = c :: t) : p c = false := by
  obtain ⟨back, hback⟩ : (s.dropWhile p).rdropWhile p <+: s.dropWhile p := List.rdropWhile_prefix p _
  have hrev : trim p s = (s.dropWhile p).rdropWhile p := rfl
  rw [← hrev, h] at hback
  have hstop := List.head?_dropWhile_not p s
  rw [← hback] at hstop
  simpa using hstop

theorem free_or_first (p : α → Bool) (s : List α) :
    (∀ c ∈ s, p c = false) ∨ ∃ front c back, s = front ++ c :: back ∧ p c = true ∧ ∀ d ∈ front, p d = false := by
  induction s with
  | nil => exact Or.inl fun c hc => absurd hc List.not_mem_nil
  | cons d s ih =>
    cases hd : p d with
    | true => exact Or.inr ⟨[], d, s, rfl, hd, fun c hc => absurd hc List.not_mem_nil⟩
    | false =>
      obtain hfree | ⟨front, c, back, rfl, hc, hfront⟩ := ih
      · exact Or.inl (List.forall_mem_cons.mpr ⟨hd, hfree⟩)
      · exact Or.inr ⟨d :: front, c, back, rfl, hc, List.forall_mem_cons.mpr ⟨hd, hfront⟩⟩

theorem separator_induction {P : List α → Prop} (free : ∀ s, (∀ c ∈ s, p c = false) → P s)
    (separated : ∀ front c back, p c = true → (∀ d ∈ front, p d = false) → P back → P (front ++ c :: back))
    (s : List α) : P s := by
  induction hn : s.length using Nat.strong_induction_on generalizing s with
  | _ n ih =>
    obtain hfree | ⟨front, c, back, rfl, hc, hfront⟩ := free_or_first p s
    · exact free s hfree
    · refine separated front c back hc hfront (ih back.length ?_ back rfl)
      rw [← hn, List.length_append, List.length_cons]
      omega

theorem mem_words_free {s w : List α} : w ∈ words p s → w ≠ [] ∧ ∀ c ∈ w, p c = false := by
  have hfree : ∀ s, (∀ c ∈ s, p c = false) → w ∈ words p s → w ≠ [] ∧ ∀ c ∈ w, p c = false := by
    intro s hs hw
    by_cases hnil : s = []
    · rw [hnil, words_nil] at hw
      cases hw
    · rw [words_of_free hs hnil] at hw
      rw [List.mem_singleton.mp hw]
      exact ⟨hnil, hs⟩
  induction s using separator_induction (p := p) with
  | free s hs => exact hfree s hs
  | separated front c back hc hfront ih =>
    intro hw
    rw [words_append_cons hc] at hw
    obtain hw | hw := List.mem_append.mp hw
    · exact hfree front hfront hw
    · exact ih hw

theorem mem_splitOnP_infix {s w : List α} : w ∈ s.splitOnP p → ∃ front back, s = front ++ w ++ back := by
  induction s using separator_induction (p := p) with
  | free s hs =>
    intro hw
    rw [List.splitOnP_eq_singleton hs, List.mem_singleton] at hw
    exact ⟨[], [], by simp [hw]⟩
  | separated first c rest hc hfirst ih =>
    intro hw
    rw [List.splitOnP_append_cons _ _ hc, List.splitOnP_eq_singleton hfirst, List.singleton_append,
      List.mem_cons] at hw
    obtain rfl | hw := hw
    · exact ⟨[], c :: rest, by simp⟩
    · obtain ⟨front, back, rfl⟩ := ih hw
      exact ⟨first ++ c :: front, back, by simp⟩

theorem splitOnP_snoc {c : α} (hc : p c = true) (s : List α) : (s ++ [c]).splitOnP p = s.splitOnP p ++ [[]] := by
  rw [List.splitOnP_append_cons _ _ hc, List.splitOnP_nil]

theorem splitOnP_concat {c : α} (hc : p c = false) (s : List α) :
    ∃ front last, (s ++ [c]).splitOnP p = front ++ [last ++ [c]] := by
  induction s using separator_induction (p := p) with
  | free s hs =>
    refine ⟨[], s, List.splitOnP_eq_singleton fun d hd => ?_⟩
    obtain hd | hd := List.mem_append.mp hd
    · exact hs d hd
    · rw [List.mem_singleton.mp hd, hc]
  | separated first d rest hd hfirst ih =>
    obtain ⟨front, last, hsplit⟩ := ih
    exact ⟨first.splitOnP p ++ front, last, by
      rw [List.append_assoc, List.cons_append, List.splitOnP_append_cons _ _ hd, hsplit, List.append_assoc]⟩

theorem mem_words_infix {s w : List α} (h : w ∈ words p s) : ∃ front back, s = front ++ w ++ back :=
  mem_splitOnP_infix (List.mem_of_mem_filter h)

theorem words_refine (hpq : ∀ c, p c = true → q c = true) (s : List α) : words q s = (words p s).flatMap (words q) := by
  have hfree : ∀ s, (∀ c ∈ s, p c = false) → words q s = (words p s).flatMap (words q) := by
    intro s hs
    by_cases hnil : s = []
    · rw [hnil, words_nil, words_nil]
      rfl
    · rw [words_of_free hs hnil, List.flatMap_singleton]
  induction s using separator_induction (p := p) with
  | free s hs => exact hfree s hs
  | separated front c back hc hfront ih =>
    rw [words_append_cons hc, words_append_cons (hpq c hc), List.flatMap_append, ← ih, ← hfree front hfront]

theorem words_of_joined {s : List α} (h : ∀ a x run y b, s = a ++ x :: (run ++ y :: b) → p x = false → p y = false →
    (∀ c ∈ run, p c = true) → run = []) : words p s = if trim p s = [] then [] else [trim p s] := by
  obtain ⟨front, back, hs, hfront, hback⟩ := exists_trim p s
  split_ifs with hnil
  · rw [← words_trim, hnil, words_nil]
  · rw [← words_trim]
    refine words_of_free ?_ hnil
    obtain hfree | ⟨word, c, rest, hsplit, hc, hword⟩ := free_or_first p (trim p s)
    · exact hfree
    · exfalso
      -- The first separator stands between the word before it and the last element.
      obtain rfl | ⟨word', x, rfl⟩ := word.eq_nil_or_concat'
      · rw [trim_head p hsplit] at hc
        cases hc
      have hx := hword x (by simp)
      have hrest : ∃ y ∈ rest, p y = false := by
        obtain rfl | ⟨rest', y, rfl⟩ := rest.eq_nil_or_concat'
        · rw [trim_getLast p hsplit] at hc
          cases hc
        · exact ⟨y, by simp, trim_getLast p (t := word' ++ [x] ++ c :: rest') (hsplit.trans (by simp))⟩
      obtain ⟨y, hy, hpy⟩ := hrest
      have hdrop : rest.dropWhile p ≠ [] := by
        intro hall
        rw [List.dropWhile_eq_nil_iff] at hall
        rw [hall y hy] at hpy
        cases hpy
      obtain ⟨z, after, hafter⟩ := List.exists_cons_of_ne_nil hdrop
      have hz : p z = false := by
        have hstop := List.head?_dropWhile_not p rest
        rw [hafter] at hstop
        simpa using hstop
      have hrun := h (front ++ word') x (c :: rest.takeWhile p) z (after ++ back) (by
        conv_lhs => rw [hs, hsplit]
        conv_lhs => rw [← List.takeWhile_append_dropWhile (p := p) (l := rest), hafter]
        simp) hx hz (List.forall_mem_cons.mpr ⟨hc, fun d hd => List.mem_takeWhile_imp hd⟩)
      cases hrun

theorem trim_cons {c : α} (hc : p c = true) (s : List α) : trim p (c :: s) = trim p s := by
  rw [trim, List.dropWhile_cons_of_pos hc, trim]

theorem trim_snoc {c : α} (hc : p c = true) (s : List α) : trim p (s ++ [c]) = trim p s := by
  have hrev : ∀ s, trim p s = (s.dropWhile p).rdropWhile p := fun _ => rfl
  rw [hrev, hrev, List.dropWhile_append]
  split_ifs with hempty
  · rw [List.isEmpty_iff.mp hempty, List.dropWhile_cons_of_pos hc]
    rfl
  · rw [List.rdropWhile_concat_pos _ _ _ hc]

theorem trim_append_blank (s : List α) {t : List α} (ht : ∀ c ∈ t, p c = true) : trim p (s ++ t) = trim p s := by
  induction t using List.reverseRecOn with
  | nil => rw [List.append_nil]
  | append_singleton t c ih =>
    rw [← List.append_assoc, trim_snoc (ht c (by simp)), ih fun d hd => ht d (by simp [hd])]

theorem trim_blank_append {t : List α} (ht : ∀ c ∈ t, p c = true) (s : List α) : trim p (t ++ s) = trim p s := by
  induction t with
  | nil => rfl
  | cons c t ih => rw [List.cons_append, trim_cons (ht c List.mem_cons_self), ih fun d hd => ht d (by simp [hd])]

theorem trim_trim (s : List α) : trim p (trim p s) = trim p s := by
  obtain ⟨front, back, hs, hfront, hback⟩ := exists_trim p s
  have htrim := congrArg (trim p) hs
  rw [trim_append_blank _ hback, trim_blank_append hfront] at htrim
  exact htrim.symm

theorem map_trim_splitOnP (hqp : ∀ c, q c = true → p c = false) (s : List α) :
    ((trim q s).splitOnP p).map (trim q) = (s.splitOnP p).map (trim q) := by
  have hfront : ∀ front s : List α, (∀ c ∈ front, q c = true) →
      ((front ++ s).splitOnP p).map (trim q) = (s.splitOnP p).map (trim q) := by
    intro front s hblank
    induction front with
    | nil => rfl
    | cons c front ih =>
      rw [List.forall_mem_cons] at hblank
      rw [← ih hblank.2, List.cons_append, List.splitOnP_cons_eq_if_modifyHead, hqp c hblank.1,
        if_neg Bool.false_ne_true]
      obtain ⟨x, xs, hsplit⟩ := List.exists_cons_of_ne_nil (List.splitOnP_ne_nil p (front ++ s))
      rw [hsplit, List.modifyHead_cons, List.map_cons, List.map_cons, trim_cons hblank.1]
  have hback : ∀ s back : List α, (∀ c ∈ back, q c = true) →
      ((s ++ back).splitOnP p).map (trim q) = (s.splitOnP p).map (trim q) := by
    intro s back hblank
    induction s using separator_induction (p := p) with
    | free s hs =>
      have hfree : ∀ c ∈ s ++ back, p c = false := by
        intro c hc
        obtain hc | hc := List.mem_append.mp hc
        · exact hs c hc
        · exact hqp c (hblank c hc)
      rw [List.splitOnP_eq_singleton hfree, List.splitOnP_eq_singleton hs, List.map_singleton, List.map_singleton,
        trim_append_blank _ hblank]
    | separated first c rest hc hfirst ih =>
      rw [List.append_assoc, List.cons_append, List.splitOnP_append_cons _ _ hc, List.splitOnP_append_cons _ _ hc,
        List.map_append, List.map_append, ih]
  obtain ⟨front, back, hs, hfrontBlank, hbackBlank⟩ := exists_trim q s
  conv_rhs => rw [hs]
  rw [hback _ _ hbackBlank, hfront _ _ hfrontBlank]

/-! What is left is counted without the blanks. -/

theorem countP_dropWhile (p : α → Bool) (s : List α) :
    (s.dropWhile p).countP (fun c => !p c) = s.countP fun c => !p c := by
  conv_rhs => rw [← List.takeWhile_append_dropWhile (p := p) (l := s), List.countP_append]
  have hnone : (s.takeWhile p).countP (fun c => !p c) = 0 := by
    rw [List.countP_eq_zero]
    intro c hc
    rw [List.mem_takeWhile_imp hc]
    exact Bool.false_ne_true
  rw [hnone, Nat.zero_add]

theorem countP_rdropWhile (p : α → Bool) (s : List α) :
    (s.rdropWhile p).countP (fun c => !p c) = s.countP fun c => !p c := by
  rw [List.rdropWhile, List.countP_reverse, countP_dropWhile, List.countP_reverse]

theorem countP_trim (p : α → Bool) (s : List α) :
    (trim p s).countP (fun c => !p c) = s.countP fun c => !p c := by
  rw [← countP_dropWhile p s]
  exact countP_rdropWhile p (s.dropWhile p)

theorem blank_drop_of_countP {s : List α} {n : ℕ}
    (h : (s.take n).countP (fun c => !p c) = s.countP fun c => !p c) : ∀ c ∈ s.drop n, p c = true := by
  have hboth := congrArg (List.countP fun c => !p c) (List.take_append_drop n s)
  rw [List.countP_append, h] at hboth
  have hnone : (s.drop n).countP (fun c => !p c) = 0 := by omega
  rw [List.countP_eq_zero] at hnone
  intro c hc
  simpa using hnone c hc

theorem rdropWhile_append_blank (s : List α) {t : List α} (ht : ∀ c ∈ t, p c = true) :
    (s ++ t).rdropWhile p = s.rdropWhile p := by
  induction t using List.reverseRecOn with
  | nil => rw [List.append_nil]
  | append_singleton t c ih =>
    rw [← List.append_assoc, List.rdropWhile_concat_pos _ _ _ (ht c (by simp)), ih fun d hd => ht d (by simp [hd])]

theorem rdropWhile_take_iff (s : List α) (n : ℕ) :
    (s.take n).rdropWhile p = s.rdropWhile p ↔ ∀ c ∈ s.drop n, p c = true := by
  constructor
  · intro h
    have hcount := congrArg (List.countP fun c => !p c) h
    rw [countP_rdropWhile, countP_rdropWhile] at hcount
    exact blank_drop_of_countP hcount
  · intro h
    conv_rhs => rw [← List.take_append_drop n s, rdropWhile_append_blank _ h]

theorem trim_take_iff (s : List α) (n : ℕ) : trim p (s.take n) = trim p s ↔ ∀ c ∈ s.drop n, p c = true := by
  constructor
  · intro h
    have hcount := congrArg (List.countP fun c => !p c) h
    rw [countP_trim, countP_trim] at hcount
    exact blank_drop_of_countP hcount
  · intro h
    conv_rhs => rw [← List.take_append_drop n s, trim_append_blank _ h]

end PageSpeed.Words
