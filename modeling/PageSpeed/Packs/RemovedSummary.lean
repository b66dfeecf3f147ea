import PageSpeed.Base.Ascii
import PageSpeed.Base.StringUtil
import Mathlib.Data.List.Nodup
import Mathlib.Data.List.Perm.Subperm

/-!
`NoteRemoved` and `CapRemoved` of `kernel/packs/planner_common.cc`: the text of what a rule took out
of the page. The counts are of `size_t`.
-/

namespace PageSpeed.Packs

def kMaxAfterBytes : ℕ := 200

def markerRoom : GoogleString := ascii "; ...(+9999)"

structure Removal where
  item : GoogleString
  reason : GoogleString

def Removal.text (c : Removal) : GoogleString := c.item ++ ascii " (" ++ c.reason ++ ascii ")"

def noteRemoved (removed : GoogleString) (c : Removal) : GoogleString :=
  (if removed ≠ [] then removed ++ ascii "; " else removed) ++ c.text

def noted (calls : List Removal) : GoogleString := calls.foldl noteRemoved []

def separators : GoogleString → List ℕ
  | [] => []
  | c :: rest => (if c = 59 ∧ rest.head? = some 32 then [0] else []) ++ (separators rest).map (· + 1)

variable {s removed : GoogleString} {n p : ℕ} {calls : List Removal}

theorem mem_separators : p ∈ separators s ↔ [59, 32] <+: s.drop p := by
  induction s generalizing p with
  | nil => simp [separators]
  | cons c rest ih =>
    cases p with
    | zero =>
      rw [separators, List.drop_zero, List.mem_append]
      constructor
      · rintro (h | h)
        · split_ifs at h with hc
          · obtain ⟨rfl, hhead⟩ := hc
            obtain ⟨tail, rfl⟩ := List.head?_eq_some_iff.mp hhead
            exact ⟨tail, rfl⟩
          · cases h
        · simp at h
      · rintro ⟨tail, heq⟩
        obtain ⟨rfl, rfl⟩ := List.cons.inj heq
        exact .inl (by simp)
    | succ p =>
      rw [separators, List.drop_succ_cons, ← ih, List.mem_append, List.mem_map]
      constructor
      · rintro (h | ⟨q, hq, heq⟩)
        · split_ifs at h <;> simp at h
        · rwa [Nat.succ.inj heq] at hq
      · exact fun h => .inr ⟨p, h, rfl⟩

theorem separators_bound (h : p ∈ separators s) : p + 2 ≤ s.length := by
  have hlen := (mem_separators.mp h).length_le
  rw [List.length_drop] at hlen
  simp only [List.length_cons, List.length_nil] at hlen
  omega

def countFrom (s : GoogleString) (pos : ℕ) : ℕ :=
  match _h : (separators s).find? fun p => pos ≤ p with
  | none => 0
  | some p => countFrom s (p + 2) + 1
termination_by s.length + 1 - pos
decreasing_by
  have hbound := separators_bound (List.mem_of_find?_eq_some _h)
  have hpos : pos ≤ p := by simpa using List.find?_some _h
  omega

def backOff (value : GoogleString) : ℕ → ℕ
  | 0 => 0
  | n + 1 => if value[n + 1]?.any fun c => c &&& 0xC0 = 0x80 then backOff value n else n + 1

def truncateUtf8 (value : GoogleString) (maxBytes : ℕ) : GoogleString :=
  if value.length ≤ maxBytes then value else value.take (backOff value maxBytes)

def headOf (removed : GoogleString) : GoogleString := removed.take (kMaxAfterBytes - markerRoom.length)

def keep (removed : GoogleString) : GoogleString × ℕ :=
  match (separators (headOf removed)).getLast? with
  | none => ([], 0)
  | some cut => ((headOf removed).take cut, countFrom ((headOf removed).take cut) 0 + 1)

def summary (out : GoogleString) (n : ℕ) : GoogleString :=
  out ++ (if out = [] then [] else ascii "; ") ++ ascii "...(+" ++ Decimal.digits 20 n ++ ascii ")"

def capRemoved (removed : GoogleString) (total : ℕ) : GoogleString :=
  if removed.length ≤ kMaxAfterBytes then removed
  else summary (truncateUtf8 (keep removed).1 kMaxAfterBytes) ((total + 2 ^ 64 - (keep removed).2) % 2 ^ 64)

def itemsKept (calls : List Removal) (out : GoogleString) : ℕ :=
  ((List.range' 1 calls.length).filter fun k => (noted (calls.take k)).isPrefixOf out).length

structure Honest (calls : List Removal) (result : GoogleString) : Prop where
  short : result.length ≤ kMaxAfterBytes
  counted : kMaxAfterBytes < (noted calls).length →
    (keep (noted calls)).2 ≤ calls.length ∧
      ∃ out n, n < 2 ^ 64 ∧ result = summary out n ∧ n + itemsKept calls out = calls.length

def ends (calls : List Removal) : List ℕ :=
  (List.range' 1 (calls.length - 1)).map fun k => (noted (calls.take k)).length

def itemsInHead (calls : List Removal) : ℕ := ((ends calls).filter fun p => p + 2 ≤ 188).length

def OnlyItemsSeparated (calls : List Removal) : Prop :=
  ∀ p ∈ separators (noted calls), p + 2 ≤ 188 → p ∈ ends calls

theorem separators_pairwise (s : GoogleString) : (separators s).Pairwise fun p q => p + 2 ≤ q := by
  induction s with
  | nil => exact List.Pairwise.nil
  | cons c rest ih =>
    have hrest : ((separators rest).map (· + 1)).Pairwise fun p q => p + 2 ≤ q := by
      rw [List.pairwise_map]
      exact ih.imp fun h => by omega
    rw [separators]
    split_ifs with hc
    · refine List.pairwise_cons.mpr ⟨fun q hq => ?_, hrest⟩
      obtain ⟨p, hp, rfl⟩ := List.mem_map.mp hq
      cases p with
      | zero =>
        -- The byte after the first separator is a space.
        obtain ⟨tail, htail⟩ := mem_separators.mp hp
        rw [List.drop_zero] at htail
        rw [← htail] at hc
        simp at hc
      | succ p => omega
    · exact hrest

theorem separators_nodup (s : GoogleString) : (separators s).Nodup :=
  (separators_pairwise s).imp fun h => by omega

theorem separators_take : p ∈ separators (s.take n) ↔ p ∈ separators s ∧ p + 2 ≤ n := by
  rw [mem_separators, mem_separators, List.drop_take, List.prefix_take_iff]
  simp only [List.length_cons, List.length_nil]
  exact and_congr_right fun _ => by omega

theorem filter_of_find {l : List ℕ} (hl : l.Pairwise fun p q => p + 2 ≤ q) {pos : ℕ}
    (h : (l.find? fun q => pos ≤ q) = some p) : (l.filter fun q => pos ≤ q) = p :: l.filter fun q => p + 2 ≤ q := by
  induction l with
  | nil => cases h
  | cons x l ih =>
    obtain ⟨hx, hl⟩ := List.pairwise_cons.mp hl
    by_cases hpos : pos ≤ x
    · rw [List.find?_cons_of_pos (by simpa using hpos)] at h
      cases h
      rw [List.filter_cons_of_pos (by simpa using hpos), List.filter_cons_of_neg (by simp),
        List.filter_eq_self.mpr fun q hq => by have := hx q hq; simp; omega,
        List.filter_eq_self.mpr fun q hq => by simpa using hx q hq]
    · rw [List.find?_cons_of_neg (by simpa using hpos)] at h
      have hle : pos ≤ p := by simpa using List.find?_some h
      rw [List.filter_cons_of_neg (by simpa using hpos), ih hl h, List.filter_cons_of_neg (by simp; omega)]

theorem countFrom_eq (s : GoogleString) (pos : ℕ) :
    countFrom s pos = ((separators s).filter fun p => pos ≤ p).length := by
  fun_induction countFrom s pos with
  | case1 pos h =>
    rw [List.filter_eq_nil_iff.mpr (List.find?_eq_none.mp h)]
    rfl
  | case2 pos p h ih => rw [filter_of_find (separators_pairwise s) h, ih, List.length_cons]

theorem countFrom_zero (s : GoogleString) : countFrom s 0 = (separators s).length := by
  rw [countFrom_eq]
  simp

theorem keep_count (removed : GoogleString) : (keep removed).2 = (separators (headOf removed)).length := by
  rw [keep]
  cases hlast : (separators (headOf removed)).getLast? with
  | none =>
    rw [List.getLast?_eq_none_iff.mp hlast]
    rfl
  | some cut =>
    obtain ⟨before, heq⟩ := List.getLast?_eq_some_iff.mp hlast
    have hpair := separators_pairwise (headOf removed)
    rw [heq, List.pairwise_append] at hpair
    have hmem : ∀ p, p ∈ separators ((headOf removed).take cut) ↔ p ∈ before := by
      intro p
      rw [separators_take, heq, List.mem_append, List.mem_singleton]
      constructor
      · rintro ⟨hp | rfl, hle⟩
        · exact hp
        · omega
      · exact fun hp => ⟨.inl hp, hpair.2.2 p hp cut (List.mem_singleton_self cut)⟩
    have hnodup : before.Nodup := hpair.1.imp fun h => by omega
    have hperm := (List.perm_ext_iff_of_nodup (separators_nodup _) hnodup).mpr hmem
    dsimp only
    rw [countFrom_zero, hperm.length_eq, heq, List.length_append, List.length_singleton]

theorem Removal.text_length (c : Removal) : 3 ≤ c.text.length := by
  have hopen : (ascii " (").length = 2 := by decide
  have hclose : (ascii ")").length = 1 := by decide
  simp only [Removal.text, List.length_append, hopen, hclose]
  omega

theorem foldl_noted (removed : GoogleString) (calls : List Removal) :
    ∃ more, calls.foldl noteRemoved removed = removed ++ more ∧ 3 * calls.length ≤ more.length ∧
      (removed ≠ [] → calls ≠ [] → [59, 32] <+: more) := by
  induction calls generalizing removed with
  | nil => exact ⟨[], (List.append_nil _).symm, Nat.le_refl _, fun _ h => absurd rfl h⟩
  | cons c calls ih =>
    obtain ⟨more, heq, hlen, -⟩ := ih (noteRemoved removed c)
    have htext := c.text_length
    by_cases hne : removed = []
    · refine ⟨c.text ++ more, ?_, ?_, fun h => absurd hne h⟩
      · rw [List.foldl_cons, heq, noteRemoved, hne]
        simp
      · rw [List.length_append, List.length_cons]
        omega
    · refine ⟨ascii "; " ++ (c.text ++ more), ?_, ?_, fun _ _ => List.prefix_append (ascii "; ") _⟩
      · rw [List.foldl_cons, heq, noteRemoved, if_pos hne]
        simp
      · rw [List.length_append, List.length_append, List.length_cons]
        omega

theorem noted_append (a b : List Removal) : noted (a ++ b) = b.foldl noteRemoved (noted a) := List.foldl_append

theorem prefix_take_noted (calls : List Removal) (k : ℕ) : noted (calls.take k) <+: noted calls := by
  obtain ⟨more, heq, -⟩ := foldl_noted (noted (calls.take k)) (calls.drop k)
  rw [← noted_append, List.take_append_drop] at heq
  exact ⟨more, heq.symm⟩

theorem noted_take_lt {j k : ℕ} (hjk : j < k) (hk : k ≤ calls.length) :
    (noted (calls.take j)).length < (noted (calls.take k)).length := by
  obtain ⟨more, heq, hlen, -⟩ := foldl_noted (noted (calls.take j)) ((calls.take k).drop j)
  have htake : (calls.take k).take j = calls.take j := by rw [List.take_take, Nat.min_eq_left (Nat.le_of_lt hjk)]
  rw [← noted_append, ← htake, List.take_append_drop] at heq
  rw [List.length_drop, List.length_take] at hlen
  rw [heq, htake, List.length_append]
  omega

theorem ends_subset (calls : List Removal) : ends calls ⊆ separators (noted calls) := by
  intro p hp
  obtain ⟨k, hk, rfl⟩ := List.mem_map.mp hp
  rw [List.mem_range'_1] at hk
  obtain ⟨more, heq, -, hsep⟩ := foldl_noted (noted (calls.take k)) (calls.drop k)
  have hpos : 0 < (noted (calls.take k)).length := by
    have hlt := @noted_take_lt calls _ _ hk.1 (by omega)
    omega
  rw [← noted_append, List.take_append_drop] at heq
  rw [mem_separators, heq, List.drop_left]
  refine hsep (List.length_pos_iff.mp hpos) ?_
  rw [← List.length_pos_iff, List.length_drop]
  omega

theorem ends_nodup (calls : List Removal) : (ends calls).Nodup := by
  refine List.Nodup.map_on ?_ List.nodup_range'
  intro j hj k hk heq
  rw [List.mem_range'_1] at hj hk
  obtain hlt | rfl | hlt := Nat.lt_trichotomy j k
  · have hless := @noted_take_lt calls _ _ hlt (by omega)
    omega
  · rfl
  · have hless := @noted_take_lt calls _ _ hlt (by omega)
    omega

theorem mem_headOf : p ∈ separators (headOf removed) ↔ p ∈ separators removed ∧ p + 2 ≤ 188 := by
  have hroom : kMaxAfterBytes - markerRoom.length = 188 := by decide
  rw [headOf, hroom, separators_take]

theorem keep_some {cut : ℕ} (h : (separators (headOf removed)).getLast? = some cut) :
    (keep removed).1 = removed.take cut ∧ cut ∈ separators (headOf removed) ∧
      ∀ p ∈ separators (headOf removed), p ≤ cut := by
  obtain ⟨before, heq⟩ := List.getLast?_eq_some_iff.mp h
  have hpair := separators_pairwise (headOf removed)
  rw [heq, List.pairwise_append] at hpair
  have hmem : cut ∈ separators (headOf removed) := by simp [heq]
  refine ⟨?_, hmem, fun p hp => ?_⟩
  · have hroom : kMaxAfterBytes - markerRoom.length = 188 := by decide
    have hcut := (mem_headOf.mp hmem).2
    rw [keep, h]
    dsimp only
    rw [headOf, hroom, List.take_take, Nat.min_eq_left (by omega)]
  · rw [heq, List.mem_append, List.mem_singleton] at hp
    obtain hp | rfl := hp
    · have hle := hpair.2.2 p hp cut (List.mem_singleton_self cut)
      omega
    · exact Nat.le_refl _

theorem keep_none (h : (separators (headOf removed)).getLast? = none) : (keep removed).1 = [] := by
  rw [keep, h]

theorem keep_length (removed : GoogleString) : (keep removed).1.length ≤ 186 := by
  cases hlast : (separators (headOf removed)).getLast? with
  | none =>
    rw [keep_none hlast]
    exact Nat.zero_le _
  | some cut =>
    obtain ⟨hout, hcut, -⟩ := keep_some hlast
    have hle := (mem_headOf.mp hcut).2
    rw [hout, List.length_take]
    omega

theorem itemsKept_keep (hlong : kMaxAfterBytes < (noted calls).length) :
    itemsKept calls (keep (noted calls)).1 = itemsInHead calls := by
  have hpos : calls.length - 1 + 1 = calls.length := by
    cases calls with
    | nil => simp [noted] at hlong
    | cons c calls => rfl
  have hrange : List.range' 1 calls.length = List.range' 1 (calls.length - 1) ++ [calls.length] := by
    conv => lhs; rw [← hpos, List.range'_concat]
    congr 2
    omega
  have hends : itemsInHead calls =
      ((List.range' 1 (calls.length - 1)).filter fun k => (noted (calls.take k)).length + 2 ≤ 188).length := by
    rw [itemsInHead, ends, List.filter_map, List.length_map]
    rfl
  have hfull : ¬noted calls <+: (keep (noted calls)).1 := by
    intro hprefix
    have hle := hprefix.length_le
    have hshort := keep_length (noted calls)
    unfold kMaxAfterBytes at hlong
    omega
  rw [hends, itemsKept, hrange, List.filter_append, List.filter_cons_of_neg (by simp [hfull]), List.filter_nil,
    List.append_nil]
  congr 1
  refine List.filter_congr fun k hk => ?_
  rw [List.mem_range'_1] at hk
  have hk' : 0 < (noted (calls.take k)).length := by
    have hlt := @noted_take_lt calls _ _ hk.1 (by omega)
    omega
  have hsep : (noted (calls.take k)).length + 2 ≤ 188 →
      (noted (calls.take k)).length ∈ separators (headOf (noted calls)) := by
    intro hle
    refine mem_headOf.mpr ⟨ends_subset calls (List.mem_map.mpr ⟨k, ?_, rfl⟩), hle⟩
    rw [List.mem_range'_1]
    exact hk
  rw [Bool.eq_iff_iff, List.isPrefixOf_iff_prefix, decide_eq_true_eq]
  cases hlast : (separators (headOf (noted calls))).getLast? with
  | none =>
    rw [List.getLast?_eq_none_iff] at hlast
    rw [keep_none (List.getLast?_eq_none_iff.mpr hlast), List.prefix_nil, ← List.length_eq_zero_iff]
    refine iff_of_false (by omega) fun hle => ?_
    have hmem := hsep hle
    rw [hlast] at hmem
    cases hmem
  | some cut =>
    obtain ⟨hout, hcut, hmax⟩ := keep_some hlast
    rw [hout, List.prefix_take_iff, and_iff_right (prefix_take_noted calls k)]
    have hle := (mem_headOf.mp hcut).2
    exact ⟨fun h => by omega, fun h => hmax _ (hsep h)⟩

theorem itemsInHead_le (calls : List Removal) :
    itemsInHead calls ≤ (separators (headOf (noted calls))).length := by
  refine (List.subperm_of_subset ((ends_nodup calls).filter _) fun p hp => ?_).length_le
  rw [List.mem_filter, decide_eq_true_eq] at hp
  exact mem_headOf.mpr ⟨ends_subset calls hp.1, hp.2⟩

theorem onlyItemsSeparated_iff (calls : List Removal) :
    OnlyItemsSeparated calls ↔ (separators (headOf (noted calls))).length = itemsInHead calls := by
  have hsub : ((ends calls).filter fun p => p + 2 ≤ 188) ⊆ separators (headOf (noted calls)) := by
    intro p hp
    rw [List.mem_filter, decide_eq_true_eq] at hp
    exact mem_headOf.mpr ⟨ends_subset calls hp.1, hp.2⟩
  have hnodup := (ends_nodup calls).filter fun p => decide (p + 2 ≤ 188)
  constructor
  · intro honly
    have hsub' : separators (headOf (noted calls)) ⊆ (ends calls).filter fun p => p + 2 ≤ 188 := by
      intro p hp
      obtain ⟨hmem, hle⟩ := mem_headOf.mp hp
      rw [List.mem_filter, decide_eq_true_eq]
      exact ⟨honly p hmem hle, hle⟩
    exact Nat.le_antisymm (List.subperm_of_subset (separators_nodup _) hsub').length_le (itemsInHead_le calls)
  · intro hlen p hp hle
    have hperm := (List.subperm_of_subset hnodup hsub).perm_of_length_le (Nat.le_of_eq hlen)
    have hmem := hperm.mem_iff.mpr (mem_headOf.mpr ⟨hp, hle⟩)
    exact (List.mem_filter.mp hmem).1

theorem append_digits_injective {body body' digits digits' : GoogleString} (hbody : body.getLast? = some 43)
    (hbody' : body'.getLast? = some 43) (hdigits : digits.all Decimal.isDigit = true)
    (hdigits' : digits'.all Decimal.isDigit = true) (h : body ++ digits = body' ++ digits') :
    body = body' ∧ digits = digits' := by
  have hnot : ∀ {b b' d : GoogleString}, b'.getLast? = some 43 → d.all Decimal.isDigit = true → ∀ mid rest,
      b' = b ++ mid → d = mid ++ rest → mid = [] := by
    intro b b' d hlast hall mid rest hb hd
    by_contra hne
    rw [hb, List.getLast?_append_of_ne_nil _ hne] at hlast
    have hmem : (43 : UInt8) ∈ d := by
      rw [hd]
      exact List.mem_append_left _ (List.mem_of_getLast? hlast)
    exact absurd (List.all_eq_true.mp hall 43 hmem) (by decide)
  obtain ⟨mid, hmid, hrest⟩ | ⟨mid, hmid, hrest⟩ := List.append_eq_append_iff.mp h
  · obtain rfl := hnot hbody' hdigits mid digits' hmid hrest
    exact ⟨by simpa using hmid.symm, by simpa using hrest⟩
  · obtain rfl := hnot hbody hdigits' mid digits hmid hrest
    exact ⟨by simpa using hmid, by simpa using hrest.symm⟩

theorem summary_injective {out out' : GoogleString} {n' : ℕ} (hn : n < 2 ^ 64) (hn' : n' < 2 ^ 64)
    (h : summary out n = summary out' n') : out = out' ∧ n = n' := by
  unfold summary at h
  have hlast : ∀ body : GoogleString, (body ++ ascii "...(+").getLast? = some 43 := by
    intro body
    rw [List.getLast?_append_of_ne_nil _ (by decide)]
    rfl
  obtain ⟨hbody, hdigits⟩ := append_digits_injective (hlast _) (hlast _) (Decimal.digits_all 20 n)
    (Decimal.digits_all 20 n') (List.append_cancel_right h)
  have hvalue := congrArg Decimal.value hdigits
  rw [Decimal.value_digits 20 n (by omega), Decimal.value_digits 20 n' (by omega)] at hvalue
  refine ⟨?_, hvalue⟩
  have hout := List.append_cancel_right hbody
  have hsep : ascii "; " ≠ [] := by decide
  by_cases hnil : out = [] <;> by_cases hnil' : out' = []
  · rw [hnil, hnil']
  · simp [hnil, hnil'] at hout
  · simp [hnil, hnil'] at hout
  · rw [if_neg hnil, if_neg hnil'] at hout
    exact List.append_cancel_right hout

theorem summary_length (out : GoogleString) (n : ℕ) : (summary out n).length =
    out.length + (if out = [] then 0 else 2) + (Decimal.digits 20 n).length + 6 := by
  have hopen : (ascii "...(+").length = 5 := by decide
  have hclose : (ascii ")").length = 1 := by decide
  have hsep : (ascii "; ").length = 2 := by decide
  simp only [summary, List.length_append, hopen, hclose]
  split_ifs
  · simp only [List.length_nil]
    omega
  · rw [hsep]
    omega

theorem digits_length_le (fuel n : ℕ) : (Decimal.digits fuel n).length ≤ fuel := by
  induction fuel generalizing n with
  | zero => exact Nat.le_refl _
  | succ fuel ih =>
    have hle := ih (n / 10)
    rw [Decimal.digits]
    split_ifs
    · simp
    · rw [List.length_append, List.length_singleton]
      omega

theorem summary_short (out : GoogleString) (n : ℕ) : (summary out n).length ≤ kMaxAfterBytes ↔
    out.length + 8 + (Decimal.digits 20 n).length ≤ kMaxAfterBytes := by
  have hdigits := digits_length_le 20 n
  rw [summary_length]
  unfold kMaxAfterBytes
  split_ifs with hnil
  · rw [hnil, List.length_nil]
    omega
  · omega

theorem separators_length_le (s : GoogleString) : (separators s).length ≤ s.length := by
  induction s with
  | nil => exact Nat.le_refl _
  | cons c rest ih =>
    rw [separators, List.length_append, List.length_map, List.length_cons]
    split_ifs
    · rw [List.length_singleton]
      omega
    · rw [List.length_nil]
      omega

theorem filter_range'_le {j : ℕ} (h : j ≤ n) : ((List.range' 1 n).filter fun k => k ≤ j).length = j := by
  have hsplit : List.range' 1 n = List.range' 1 j ++ List.range' (1 + j) (n - j) := by
    rw [List.range'_append_1]
    congr 1
    omega
  rw [hsplit, List.filter_append, List.filter_eq_self.mpr, List.filter_eq_nil_iff.mpr, List.append_nil,
    List.length_range']
  · intro k hk
    rw [List.mem_range'_1] at hk
    simp
    omega
  · intro k hk
    rw [List.mem_range'_1] at hk
    simp
    omega

theorem capRemoved_eq (hlong : kMaxAfterBytes < (noted calls).length) (total : ℕ) :
    capRemoved (noted calls) total = summary (keep (noted calls)).1
      ((total + 2 ^ 64 - (separators (headOf (noted calls))).length) % 2 ^ 64) := by
  have hshort := keep_length (noted calls)
  rw [capRemoved, if_neg (Nat.not_le.mpr hlong), keep_count, truncateUtf8, if_pos (by unfold kMaxAfterBytes; omega)]

theorem keep_of_only (hlong : kMaxAfterBytes < (noted calls).length)
    (honly : OnlyItemsSeparated calls) : (keep (noted calls)).1 = noted (calls.take (itemsInHead calls)) := by
  have hcount := itemsKept_keep hlong
  cases hlast : (separators (headOf (noted calls))).getLast? with
  | none =>
    have hzero : itemsInHead calls = 0 := by
      rw [← (onlyItemsSeparated_iff calls).mp honly, List.getLast?_eq_none_iff.mp hlast]
      rfl
    rw [keep_none hlast, hzero]
    rfl
  | some cut =>
    obtain ⟨hout, hcut, -⟩ := keep_some hlast
    obtain ⟨hmem, hle⟩ := mem_headOf.mp hcut
    obtain ⟨j, hj, rfl⟩ := List.mem_map.mp (honly cut hmem hle)
    rw [List.mem_range'_1] at hj
    have hkeep : (keep (noted calls)).1 = noted (calls.take j) := by
      rw [hout]
      exact (List.prefix_iff_eq_take.mp (prefix_take_noted calls j)).symm
    have hcountj : itemsKept calls (noted (calls.take j)) = j := by
      refine Eq.trans ?_ (filter_range'_le (by omega : j ≤ calls.length))
      rw [itemsKept]
      congr 1
      refine List.filter_congr fun k hk => ?_
      rw [List.mem_range'_1] at hk
      rw [Bool.eq_iff_iff, List.isPrefixOf_iff_prefix, decide_eq_true_eq]
      constructor
      · intro hprefix
        by_contra hlt
        have hless := @noted_take_lt calls j k (by omega) (by omega)
        have hlen := hprefix.length_le
        omega
      · intro hkj
        have htake : calls.take k = (calls.take j).take k := by rw [List.take_take, Nat.min_eq_left hkj]
        rw [htake]
        exact prefix_take_noted _ k
    rw [hkeep, hcountj] at hcount
    rw [hkeep, ← hcount]

/-- The summary is honest just if it was not cut, or if no item or reason brings a separator of its own into the
head and the items of the head leave room for the count of the others. -/
theorem capRemoved_honest_iff {calls : List Removal} (hcalls : calls.length < 2 ^ 64) :
    Honest calls (capRemoved (noted calls) calls.length) ↔
      (noted calls).length ≤ kMaxAfterBytes ∨ OnlyItemsSeparated calls ∧
        (noted (calls.take (itemsInHead calls))).length + 8 +
          (Decimal.digits 20 (calls.length - itemsInHead calls)).length ≤ kMaxAfterBytes := by
  by_cases hlong : kMaxAfterBytes < (noted calls).length
  · rw [or_iff_right (Nat.not_le.mpr hlong), capRemoved_eq hlong]
    have hkept := separators_length_le (headOf (noted calls))
    have hhead : (headOf (noted calls)).length ≤ 188 := by
      have hroom : kMaxAfterBytes - markerRoom.length = 188 := by decide
      rw [headOf, hroom, List.length_take]
      omega
    have hin := itemsInHead_le calls
    have hends : itemsInHead calls ≤ calls.length := by
      refine Nat.le_trans (List.length_filter_le _ _) ?_
      rw [ends, List.length_map, List.length_range']
      omega
    constructor
    · rintro ⟨hshort, hcounted⟩
      obtain ⟨hle, out, n, hn, heq, hsum⟩ := hcounted hlong
      obtain ⟨rfl, rfl⟩ := summary_injective (Nat.mod_lt _ (by decide)) hn heq
      rw [keep_count] at hle
      rw [itemsKept_keep hlong] at hsum
      have hequal : (separators (headOf (noted calls))).length = itemsInHead calls := by omega
      have honly := (onlyItemsSeparated_iff calls).mpr hequal
      have hcount : (calls.length + 2 ^ 64 - (separators (headOf (noted calls))).length) % 2 ^ 64 =
          calls.length - itemsInHead calls := by omega
      rw [summary_short, hcount, keep_of_only hlong honly] at hshort
      exact ⟨honly, hshort⟩
    · rintro ⟨honly, hshort⟩
      have hequal := (onlyItemsSeparated_iff calls).mp honly
      have hcount : (calls.length + 2 ^ 64 - (separators (headOf (noted calls))).length) % 2 ^ 64 =
          calls.length - itemsInHead calls := by omega
      rw [hcount]
      refine ⟨?_, fun _ => ⟨?_, (keep (noted calls)).1, calls.length - itemsInHead calls, by omega, rfl, ?_⟩⟩
      · rw [summary_short, keep_of_only hlong honly]
        exact hshort
      · rw [keep_count, hequal]
        exact hends
      · rw [itemsKept_keep hlong]
        omega
  · have hle := Nat.le_of_not_lt hlong
    rw [capRemoved, if_pos hle]
    exact iff_of_true ⟨hle, fun h => absurd h hlong⟩ (.inl hle)

/-- Twenty items of eleven bytes, of which fourteen stand in the head. -/
theorem capRemoved_honest_twenty :
    Honest (List.replicate 20 ⟨ascii "en=/a", ascii "dup"⟩)
      (capRemoved (noted (List.replicate 20 ⟨ascii "en=/a", ascii "dup"⟩)) 20) := by
  have honly : OnlyItemsSeparated (List.replicate 20 ⟨ascii "en=/a", ascii "dup"⟩) := by
    unfold OnlyItemsSeparated
    decide +kernel
  exact (@capRemoved_honest_iff (List.replicate 20 ⟨ascii "en=/a", ascii "dup"⟩) (by decide)).mpr
    (.inr ⟨honly, by decide⟩)

/-- One block whose type has separators of its own is taken for many. -/
theorem capRemoved_counts_types :
    ¬Honest [⟨ascii (String.join (List.replicate 70 "a; ")), ascii "duplicate"⟩]
      (capRemoved (noted [⟨ascii (String.join (List.replicate 70 "a; ")), ascii "duplicate"⟩]) 1) := by
  have htext : ascii (String.join (List.replicate 70 "a; ")) = (List.replicate 70 (ascii "a; ")).flatten := by
    rw [ascii, String.toList_join, List.map_flatMap]
    rfl
  rw [htext]
  intro h
  obtain ⟨hle, -⟩ := h.counted (by decide +kernel)
  rw [keep_count] at hle
  revert hle
  decide +kernel

end PageSpeed.Packs
