import PageSpeed.Html.HtmlKeywords

/-!
What the unescaping of a text makes of one reference, and of what stands before and after it.
-/

namespace PageSpeed.HtmlKeywords

@[simp] theorem loop_amp (rest buf : GoogleString) :
    unescapeLoop (38 :: rest) none buf = unescapeLoop rest (some {}) buf := by
  conv => lhs; unfold unescapeLoop
  rfl

variable {ch : UInt8} {e e' : Escape} {run name rest digits : GoogleString}

theorem loop_plain (hch : ch ≠ 38) (hlow : ch ≤ 127) (rest buf : GoogleString) :
    unescapeLoop (ch :: rest) none buf = unescapeLoop rest none (buf ++ [ch]) := by
  conv => lhs; unfold unescapeLoop
  rw [if_neg hch, if_neg (UInt8.not_lt.mpr hlow)]

theorem loop_high (hhigh : 127 < ch) (rest buf : GoogleString) : unescapeLoop (ch :: rest) none buf = none := by
  conv => lhs; unfold unescapeLoop
  rw [if_neg (by rintro rfl; revert hhigh; decide), if_pos hhigh]

theorem sequences_letter : ∀ entry ∈ kHtmlKeywordsSequences, entry.1.head?.any isAlpha = true := by decide

theorem mem_of_insensitive {entry : GoogleString × UInt8} (h : entry ∈ unescapeInsensitiveMap) :
    entry ∈ kHtmlKeywordsSequences := by
  suffices hfold : ∀ (seqs : List (GoogleString × UInt8)) (maps : List GoogleString × List (GoogleString × UInt8)),
      entry ∈ (seqs.foldl (fun maps seq =>
        if maps.1.any (stringCaseEqual seq.1) then maps
        else if maps.2.any fun entry => stringCaseEqual seq.1 entry.1 then
          (seq.1 :: maps.1, maps.2.filter fun entry => !stringCaseEqual seq.1 entry.1)
        else (maps.1, maps.2 ++ [seq])) maps).2 → entry ∈ maps.2 ∨ entry ∈ seqs by
    rw [unescapeInsensitiveMap] at h
    exact (hfold _ _ h).resolve_left List.not_mem_nil
  intro seqs
  induction seqs with
  | nil => exact fun _ hmem => Or.inl hmem
  | cons seq seqs ih =>
    intro maps hmem
    obtain hmaps | hseqs := ih _ hmem
    · dsimp only at hmaps
      split_ifs at hmaps
      · exact Or.inl hmaps
      · exact Or.inl (List.mem_filter.mp hmaps).1
      · obtain hmaps | hmaps := List.mem_append.mp hmaps
        · exact Or.inl hmaps
        · exact Or.inr (List.mem_singleton.mp hmaps ▸ List.mem_cons_self)
    · exact Or.inr (List.mem_cons_of_mem seq hseqs)

theorem unknown_of_head (h : name.head?.any isAlpha = false) : kHtmlKeywordsSequences.lookup name = none ∧
    (unescapeInsensitiveMap.find? fun entry => stringCaseEqual name entry.1) = none := by
  refine ⟨List.lookup_eq_none_iff.mpr fun entry hentry => ?_, List.find?_eq_none.mpr fun entry hentry heq => ?_⟩
  · rw [bne_iff_ne]
    rintro rfl
    cases (sequences_letter entry hentry).symm.trans h
  · have hletter := sequences_letter entry (mem_of_insensitive hentry)
    rw [stringCaseEqual, beq_iff_eq] at heq
    have hhead := congrArg List.head? heq
    rw [List.head?_map, List.head?_map] at hhead
    obtain ⟨d, hd, hd'⟩ := (Option.any_eq_true _ _).mp hletter
    rw [hd] at hhead
    obtain ⟨c, hc, hupper⟩ := Option.map_eq_some_iff.mp hhead
    rw [hc, Option.any_some] at h
    unfold isAlpha upperChar at *
    grind

theorem loop_end (e : Escape) (buf : GoogleString) : unescapeLoop [] (some e) buf = e.tryUnescape false buf := by
  conv => lhs; unfold unescapeLoop
  split_ifs with h
  · obtain ⟨hnone, hfind⟩ := unknown_of_head (show ([] : GoogleString).head?.any isAlpha = false from rfl)
    have hmulti : kHtmlKeywordsSequencesMultiByte.any (stringCaseEqual []) = false := by decide
    have hapos : stringCaseEqual [] (ascii "apos") = false := by decide
    simp [Escape.tryUnescape, tryUnescape, h, hnone, hmulti, hfind, hapos]
  · rfl

theorem loop_semicolon (e : Escape) (rest buf : GoogleString) :
    unescapeLoop (59 :: rest) (some e) buf = (e.tryUnescape true buf).bind (unescapeLoop rest none) := by
  conv => lhs; unfold unescapeLoop
  rw [if_neg (by simp), if_pos rfl]
  cases e.tryUnescape true buf <;> rfl

theorem loop_high_in_escape (hhigh : 127 < ch) (e : Escape) (rest buf : GoogleString) :
    unescapeLoop (ch :: rest) (some e) buf = none := by
  have hhash : ch ≠ 35 := by rintro rfl; revert hhigh; decide
  have hsemi : ch ≠ 59 := by rintro rfl; revert hhigh; decide
  conv => lhs; unfold unescapeLoop
  rw [if_neg (fun h => hhash h.2), if_neg hsemi, if_pos hhigh]

def digitOf (hexMode : Bool) (ch : UInt8) : Option ℕ :=
  if 48 ≤ ch ∧ ch ≤ 57 then some (ch.toNat - 48)
  else if hexMode = true ∧ 97 ≤ ch ∧ ch ≤ 102 then some (ch.toNat - 87)
  else if hexMode = true ∧ 65 ≤ ch ∧ ch ≤ 70 then some (ch.toNat - 55)
  else none

def base (hexMode : Bool) : ℕ := if hexMode then 16 else 10

theorem accumulate_numeric (he : e.accumulateNumericCode = true) (ch : UInt8) :
    e.accumulate ch = (digitOf e.hexMode ch).map fun d =>
      { e with
        numericValue := min (base e.hexMode * e.numericValue + d) 0x110000
        escape := e.escape ++ [ch] } := by
  rw [Escape.accumulate, if_pos he]
  cases e.hexMode with
  | true =>
    unfold accumulateHexValue digitOf base
    simp only [true_and, if_true, Nat.mul_comm e.numericValue]
    split_ifs <;> simp <;> omega
  | false =>
    unfold accumulateDecimalValue digitOf base
    simp only [Bool.false_eq_true, false_and, if_false, Nat.mul_comm e.numericValue]
    split_ifs <;> rfl

theorem accumulate_name (he : e.accumulateNumericCode = false) (ch : UInt8) :
    e.accumulate ch = if isAlnum ch then some { e with escape := e.escape ++ [ch] } else none := by
  rw [Escape.accumulate, if_neg (by simp [he])]

theorem isAlnum_of_digitOf {hexMode : Bool} {d : ℕ} (h : digitOf hexMode ch = some d) : isAlnum ch = true := by
  revert h
  unfold digitOf isAlnum isAlpha isDigit
  grind

theorem isAlnum_of_accumulate (h : e.accumulate ch = some e') : isAlnum ch = true := by
  by_cases he : e.accumulateNumericCode = true
  · rw [accumulate_numeric he, Option.map_eq_some_iff] at h
    obtain ⟨d, hd, -⟩ := h
    exact isAlnum_of_digitOf hd
  · rw [accumulate_name (by simpa using he)] at h
    by_contra hch
    rw [if_neg hch] at h
    cases h

theorem alnum_low (h : isAlnum ch = true) : ch ≤ 127 ∧ ch ≠ 59 ∧ ch ≠ 38 ∧ ch ≠ 35 := by
  revert h
  unfold isAlnum isAlpha isDigit
  grind

theorem loop_accumulate (h : e.accumulate ch = some e') (rest buf : GoogleString) :
    unescapeLoop (ch :: rest) (some e) buf = unescapeLoop rest (some e') buf := by
  obtain ⟨hlow, hsemi, -, hhash⟩ := alnum_low (isAlnum_of_accumulate h)
  conv => lhs; unfold unescapeLoop
  rw [if_neg (fun h => hhash h.2), if_neg hsemi, if_neg (UInt8.not_lt.mpr hlow), h]

theorem accumulate_amp (e : Escape) : e.accumulate 38 = none := by
  cases h : e.accumulate 38 with
  | none => rfl
  | some e' => exact absurd rfl (alnum_low (isAlnum_of_accumulate h)).2.2.1

theorem loop_outside (h : e.accumulate ch = none) (hhash : ¬(e.escape = [] ∧ ch = 35))
    (hsemi : ch ≠ 59) (rest buf : GoogleString) :
    unescapeLoop (ch :: rest) (some e) buf = (e.tryUnescape false buf).bind (unescapeLoop (ch :: rest) none) := by
  by_cases hhigh : 127 < ch
  · rw [loop_high_in_escape hhigh]
    cases e.tryUnescape false buf with
    | none => rfl
    | some buf => exact (loop_high hhigh rest buf).symm
  · conv => lhs; unfold unescapeLoop
    rw [if_neg hhash, if_neg hsemi, if_neg hhigh, h]
    cases e.tryUnescape false buf with
    | none => rfl
    | some buf =>
      by_cases hamp : ch = 38
      · subst hamp
        exact (loop_amp rest buf).symm
      · dsimp only
        rw [if_neg hamp, Option.bind_some, loop_plain hamp (UInt8.not_lt.mp hhigh)]

def Escape.decimal (e : Escape) : Escape := { e with escape := [35], accumulateNumericCode := true }

def Escape.hex (e : Escape) : Escape := { e with escape := [35], accumulateNumericCode := true, hexMode := true }

theorem loop_hash (he : e.escape = []) (h : ∀ x ∈ rest.head?, upperChar x ≠ 88)
    (buf : GoogleString) : unescapeLoop (35 :: rest) (some e) buf = unescapeLoop rest (some e.decimal) buf := by
  conv => lhs; unfold unescapeLoop
  rw [if_pos ⟨he, rfl⟩]
  cases rest with
  | nil => rfl
  | cons x rest =>
    have hx : upperChar x ≠ 88 := h x rfl
    simp only [if_neg hx]
    rfl

theorem loop_hash_hex (he : e.escape = []) {x : UInt8} (h : upperChar x = 88) (rest buf : GoogleString) :
    unescapeLoop (35 :: x :: rest) (some e) buf = unescapeLoop rest (some e.hex) buf := by
  conv => lhs; unfold unescapeLoop
  rw [if_pos ⟨he, rfl⟩]
  simp only [h, if_true]
  rfl

theorem tryUnescape_append (a : Bool) (n : ℕ) (escape : GoogleString) (t : Bool) (pre buf : GoogleString) :
    tryUnescape a n escape t (pre ++ buf) = (tryUnescape a n escape t buf).map (pre ++ ·) := by
  unfold tryUnescape
  split_ifs
  · simp
  · rfl
  all_goals
    cases kHtmlKeywordsSequences.lookup escape with
    | some value => simp
    | none =>
      cases unescapeInsensitiveMap.find? fun entry => stringCaseEqual escape entry.1 <;> simp

theorem unescapeLoop_append : ∀ (text : GoogleString) (e : Option Escape) (pre buf : GoogleString),
    unescapeLoop text e (pre ++ buf) = (unescapeLoop text e buf).map (pre ++ ·)
  | [], none, pre, buf => rfl
  | [], some e, pre, buf => by
    rw [loop_end, loop_end, Escape.tryUnescape, Escape.tryUnescape, tryUnescape_append]
  | ch :: rest, none, pre, buf => by
    by_cases hamp : ch = 38
    · rw [hamp, loop_amp, loop_amp, unescapeLoop_append rest]
    · by_cases hhigh : 127 < ch
      · rw [loop_high hhigh, loop_high hhigh]
        rfl
      · rw [loop_plain hamp (UInt8.not_lt.mp hhigh), loop_plain hamp (UInt8.not_lt.mp hhigh), List.append_assoc,
          unescapeLoop_append rest]
  | ch :: rest, some e, pre, buf => by
    by_cases hhash : e.escape = [] ∧ ch = 35
    · obtain ⟨he, rfl⟩ := hhash
      match rest with
      | [] => rw [loop_hash he (by simp), loop_hash he (by simp), unescapeLoop_append []]
      | x :: rest =>
        by_cases hx : upperChar x = 88
        · rw [loop_hash_hex he hx, loop_hash_hex he hx, unescapeLoop_append rest]
        · have hhead : ∀ y ∈ (x :: rest).head?, upperChar y ≠ 88 := by
            rintro y ⟨⟩
            exact hx
          rw [loop_hash he hhead, loop_hash he hhead, unescapeLoop_append (x :: rest)]
    · by_cases hsemi : ch = 59
      · subst hsemi
        rw [loop_semicolon, loop_semicolon, Escape.tryUnescape, Escape.tryUnescape, tryUnescape_append]
        cases tryUnescape e.accumulateNumericCode e.numericValue e.escape true buf with
        | none => rfl
        | some buf => exact unescapeLoop_append rest none pre buf
      · cases hacc : e.accumulate ch with
        | some e' => rw [loop_accumulate hacc, loop_accumulate hacc, unescapeLoop_append rest]
        | none =>
          rw [loop_outside hacc hhash hsemi, loop_outside hacc hhash hsemi, Escape.tryUnescape, Escape.tryUnescape,
            tryUnescape_append]
          cases tryUnescape e.accumulateNumericCode e.numericValue e.escape false buf with
          | none => rfl
          | some buf => exact unescapeLoop_append (ch :: rest) none pre buf
termination_by text e => (text.length, e.isSome.toNat)

theorem unescapeLoop_amp : ∀ (pre : GoogleString) (e : Option Escape) (rest buf : GoogleString),
    unescapeLoop (pre ++ 38 :: rest) e buf = (unescapeLoop pre e buf).bind (unescapeLoop rest (some {}))
  | [], none, rest, buf => loop_amp rest buf
  | [], some e, rest, buf => by
    rw [List.nil_append, loop_outside (accumulate_amp e) (by simp) (by decide), loop_end]
    cases e.tryUnescape false buf with
    | none => rfl
    | some buf => exact loop_amp rest buf
  | ch :: pre, none, rest, buf => by
    rw [List.cons_append]
    by_cases hamp : ch = 38
    · rw [hamp, loop_amp, loop_amp, unescapeLoop_amp pre]
    · by_cases hhigh : 127 < ch
      · rw [loop_high hhigh, loop_high hhigh]
        rfl
      · rw [loop_plain hamp (UInt8.not_lt.mp hhigh), loop_plain hamp (UInt8.not_lt.mp hhigh), unescapeLoop_amp pre]
  | ch :: pre, some e, rest, buf => by
    by_cases hhash : e.escape = [] ∧ ch = 35
    · obtain ⟨he, rfl⟩ := hhash
      match pre with
      | [] =>
        rw [List.cons_append, List.nil_append, loop_hash he (by simp; decide), loop_hash he (by simp)]
        exact unescapeLoop_amp [] _ rest buf
      | x :: pre =>
        by_cases hx : upperChar x = 88
        · rw [List.cons_append, List.cons_append, loop_hash_hex he hx, loop_hash_hex he hx, unescapeLoop_amp pre]
        · have hhead : ∀ rest : GoogleString, ∀ y ∈ (x :: rest).head?, upperChar y ≠ 88 := by
            rintro rest y ⟨⟩
            exact hx
          rw [List.cons_append, List.cons_append, loop_hash he (hhead _), loop_hash he (hhead _), ← List.cons_append,
            unescapeLoop_amp (x :: pre)]
    · rw [List.cons_append]
      by_cases hsemi : ch = 59
      · subst hsemi
        rw [loop_semicolon, loop_semicolon]
        cases e.tryUnescape true buf with
        | none => rfl
        | some buf => exact unescapeLoop_amp pre none rest buf
      · cases hacc : e.accumulate ch with
        | some e' => rw [loop_accumulate hacc, loop_accumulate hacc, unescapeLoop_amp pre]
        | none =>
          rw [loop_outside hacc hhash hsemi, loop_outside hacc hhash hsemi]
          cases e.tryUnescape false buf with
          | none => rfl
          | some buf => exact unescapeLoop_amp (ch :: pre) none rest buf
termination_by pre e => (pre.length, e.isSome.toNat)

theorem unescape_amp (pre rest : GoogleString) :
    unescape (pre ++ 38 :: rest) = (unescape pre).bind fun out => (unescape (38 :: rest)).map (out ++ ·) := by
  rw [unescape, unescape, unescapeLoop_amp, unescape, loop_amp]
  congr 1
  funext out
  simpa using unescapeLoop_append rest (some {}) out []

theorem unescape_cons (hch : ch ≠ 38) (hlow : ch ≤ 127) (rest : GoogleString) :
    unescape (ch :: rest) = (unescape rest).map (ch :: ·) := by
  rw [unescape, loop_plain hch hlow, List.nil_append, unescape]
  exact unescapeLoop_append rest none [ch] []

theorem unescapeLoop_high (hhigh : 127 < ch) :
    ∀ (text : GoogleString) (e : Option Escape) (buf : GoogleString), ch ∈ text → unescapeLoop text e buf = none
  | c :: rest, none, buf, hmem => by
    by_cases hc : 127 < c
    · exact loop_high hc rest buf
    · have hrest : ch ∈ rest := (List.mem_cons.mp hmem).resolve_left fun h => hc (h ▸ hhigh)
      by_cases hamp : c = 38
      · rw [hamp, loop_amp, unescapeLoop_high hhigh rest _ _ hrest]
      · rw [loop_plain hamp (UInt8.not_lt.mp hc), unescapeLoop_high hhigh rest _ _ hrest]
  | c :: rest, some e, buf, hmem => by
    by_cases hc : 127 < c
    · exact loop_high_in_escape hc e rest buf
    have hrest : ch ∈ rest := (List.mem_cons.mp hmem).resolve_left fun h => hc (h ▸ hhigh)
    by_cases hhash : e.escape = [] ∧ c = 35
    · obtain ⟨he, rfl⟩ := hhash
      cases rest with
      | nil => cases hrest
      | cons x rest =>
        by_cases hx : upperChar x = 88
        · have hne : ch ≠ x := by
            rintro rfl
            revert hx hhigh
            unfold upperChar
            grind
          rw [loop_hash_hex he hx, unescapeLoop_high hhigh rest _ _ ((List.mem_cons.mp hrest).resolve_left hne)]
        · have hhead : ∀ y ∈ (x :: rest).head?, upperChar y ≠ 88 := by
            rintro y ⟨⟩
            exact hx
          rw [loop_hash he hhead, unescapeLoop_high hhigh (x :: rest) _ _ hrest]
    · by_cases hsemi : c = 59
      · subst hsemi
        rw [loop_semicolon]
        cases e.tryUnescape true buf with
        | none => rfl
        | some buf => exact unescapeLoop_high hhigh rest none buf hrest
      · cases hacc : e.accumulate c with
        | some e' => rw [loop_accumulate hacc, unescapeLoop_high hhigh rest _ _ hrest]
        | none =>
          rw [loop_outside hacc hhash hsemi]
          cases e.tryUnescape false buf with
          | none => rfl
          | some buf => exact unescapeLoop_high hhigh (c :: rest) none buf hmem
termination_by text e => (text.length, e.isSome.toNat)

theorem loop_run (h : run.foldlM Escape.accumulate e = some e')
    (rest buf : GoogleString) : unescapeLoop (run ++ rest) (some e) buf = unescapeLoop rest (some e') buf := by
  induction run generalizing e with
  | nil =>
    cases h
    rfl
  | cons ch run ih =>
    rw [List.foldlM_cons] at h
    cases hacc : e.accumulate ch with
    | none =>
      rw [hacc] at h
      cases h
    | some e₁ =>
      rw [hacc] at h
      rw [List.cons_append, loop_accumulate hacc, ih h]

def terminated (rest : GoogleString) : Bool := rest.head? == some 59

def afterReference : GoogleString → GoogleString
  | 59 :: rest => rest
  | rest => rest

theorem loop_close (hout : ∀ ch ∈ rest.head?, e.accumulate ch = none)
    (hhash : e.escape = [] → rest.head? ≠ some 35) (buf : GoogleString) :
    unescapeLoop rest (some e) buf =
      (e.tryUnescape (terminated rest) buf).bind (unescapeLoop (afterReference rest) none) := by
  cases rest with
  | nil =>
    have hterm : terminated [] = false := by decide
    rw [loop_end, hterm]
    cases e.tryUnescape false buf <;> rfl
  | cons ch rest =>
    by_cases hsemi : ch = 59
    · subst hsemi
      exact loop_semicolon e rest buf
    · have hafter : afterReference (ch :: rest) = ch :: rest := by
        unfold afterReference
        split
        · simp_all
        · rfl
      have hterm : terminated (ch :: rest) = false := by simpa [terminated] using hsemi
      rw [hafter, hterm]
      refine loop_outside (hout ch rfl) ?_ hsemi rest buf
      rintro ⟨he, rfl⟩
      exact hhash he rfl

def numeral (hexMode : Bool) (digits : GoogleString) : ℕ :=
  digits.foldl (fun n ch => base hexMode * n + (digitOf hexMode ch).getD 0) 0

theorem run_name (h : ∀ ch ∈ name, isAlnum ch = true) (he : e.accumulateNumericCode = false) :
    name.foldlM Escape.accumulate e = some { e with escape := e.escape ++ name } := by
  induction name generalizing e with
  | nil => simp
  | cons ch name ih =>
    obtain ⟨hch, hname⟩ := List.forall_mem_cons.mp h
    rw [List.foldlM_cons, accumulate_name he, if_pos hch]
    simpa using ih hname (e := { e with escape := e.escape ++ [ch] }) he

theorem run_digits (he : e.accumulateNumericCode = true)
    (h : ∀ ch ∈ digits, (digitOf e.hexMode ch).isSome) {n : ℕ} (hn : e.numericValue = min n 0x110000) :
    digits.foldlM Escape.accumulate e = some { e with
      numericValue :=
        min (digits.foldl (fun n ch => base e.hexMode * n + (digitOf e.hexMode ch).getD 0) n) 0x110000
      escape := e.escape ++ digits } := by
  induction digits generalizing e n with
  | nil => simp [← hn]
  | cons ch digits ih =>
    obtain ⟨hch, hdigits⟩ := List.forall_mem_cons.mp h
    obtain ⟨d, hd⟩ := Option.isSome_iff_exists.mp hch
    have hvalue : min (base e.hexMode * e.numericValue + d) 0x110000 = min (base e.hexMode * n + d) 0x110000 := by
      rw [hn]
      unfold base
      split_ifs <;> omega
    let e₁ : Escape := { e with
      numericValue := min (base e.hexMode * n + d) 0x110000
      escape := e.escape ++ [ch] }
    have hstep : e.accumulate ch = some e₁ := by rw [accumulate_numeric he, hd, Option.map_some, hvalue]
    rw [List.foldlM_cons, hstep]
    refine (@ih e₁ he hdigits _ rfl).trans ?_
    simp [e₁, hd]

def afterEscape (e : Escape) (rest : GoogleString) : Option GoogleString :=
  (e.tryUnescape (terminated rest) []).bind fun value => (unescape (afterReference rest)).map (value ++ ·)

theorem loop_reference (h : run.foldlM Escape.accumulate e = some e')
    (hout : ∀ ch ∈ rest.head?, e'.accumulate ch = none) (hhash : e'.escape = [] → rest.head? ≠ some 35) :
    unescapeLoop (run ++ rest) (some e) [] = afterEscape e' rest := by
  rw [loop_run h, loop_close hout hhash, afterEscape]
  congr 1
  funext value
  simpa [unescape] using unescapeLoop_append (afterReference rest) none value []

theorem unescape_name (hname : ∀ ch ∈ name, isAlnum ch = true)
    (hout : ∀ ch ∈ rest.head?, isAlnum ch = false) (hhash : name = [] → rest.head? ≠ some 35) :
    unescape (38 :: (name ++ rest)) = afterEscape { escape := name } rest := by
  rw [unescape, loop_amp]
  refine loop_reference (run_name hname rfl) (fun ch hch => ?_) hhash
  rw [accumulate_name rfl, if_neg (by simp [hout ch hch])]

theorem unescape_decimal (hdigits : ∀ ch ∈ digits, (digitOf false ch).isSome)
    (hout : ∀ ch ∈ rest.head?, digitOf false ch = none) (hhex : digits = [] → ∀ ch ∈ rest.head?, upperChar ch ≠ 88) :
    unescape (38 :: 35 :: (digits ++ rest)) =
      afterEscape
        { escape := 35 :: digits
          numericValue := min (numeral false digits) 0x110000
          accumulateNumericCode := true } rest := by
  have hhead : ∀ ch ∈ (digits ++ rest).head?, upperChar ch ≠ 88 := by
    cases digits with
    | nil => exact hhex rfl
    | cons ch digits =>
      rintro x ⟨⟩
      have hx := (List.forall_mem_cons.mp hdigits).1
      revert hx
      unfold digitOf upperChar
      grind
  rw [unescape, loop_amp, loop_hash rfl hhead]
  refine loop_reference (run_digits rfl hdigits (Nat.zero_min _).symm) (fun ch hch => ?_) (fun h => nomatch h)
  rw [accumulate_numeric rfl]
  simp [hout ch hch]

theorem unescape_hex {x : UInt8} (hx : upperChar x = 88)
    (hdigits : ∀ ch ∈ digits, (digitOf true ch).isSome) (hout : ∀ ch ∈ rest.head?, digitOf true ch = none) :
    unescape (38 :: 35 :: x :: (digits ++ rest)) =
      afterEscape
        { escape := 35 :: digits
          numericValue := min (numeral true digits) 0x110000
          accumulateNumericCode := true
          hexMode := true } rest := by
  rw [unescape, loop_amp, loop_hash_hex rfl hx]
  refine loop_reference (run_digits rfl hdigits (Nat.zero_min _).symm) (fun ch hch => ?_) (fun h => nomatch h)
  rw [accumulate_numeric rfl]
  simp [hout ch hch]

theorem unescape_named {value : UInt8} (hname : ∀ ch ∈ name, isAlnum ch = true)
    (hvalue : tryUnescape false 0 name true [] = some [value]) (rest : GoogleString) :
    unescape (38 :: (name ++ 59 :: rest)) = (unescape rest).map (value :: ·) := by
  have hsemi : ∀ ch ∈ (59 :: rest : GoogleString).head?, isAlnum ch = false := by
    rintro ch ⟨⟩
    rfl
  rw [unescape_name hname hsemi (fun _ => by simp), afterEscape, Escape.tryUnescape]
  simp only [terminated, List.head?_cons, beq_self_eq_true, hvalue, Option.bind_some, afterReference]
  rfl

theorem tryUnescape_numeral (hexMode : Bool) (hne : digits ≠ []) (t : Bool) :
    tryUnescape true (min (numeral hexMode digits) 0x110000) (35 :: digits) t [] =
      if numeral hexMode digits ≤ 255 then some [(numeral hexMode digits).toUInt8] else none := by
  have hlen : 0 < digits.length := List.length_pos_iff.mpr hne
  rw [tryUnescape, if_pos (by simpa using hlen)]
  by_cases hle : numeral hexMode digits ≤ 255
  · have hmin : min (numeral hexMode digits) 0x110000 = numeral hexMode digits := by omega
    rw [if_pos (by omega), if_pos hle, hmin, List.nil_append]
  · rw [if_neg (by omega), if_neg hle]

inductive Marker : Bool → GoogleString → Prop
  | decimal : Marker false []
  | hex {x : UInt8} (hx : upperChar x = 88) : Marker true [x]

theorem unescape_numeral {hexMode : Bool} {marker : GoogleString} (hmarker : Marker hexMode marker)
    (hne : digits ≠ []) (hdigits : ∀ ch ∈ digits, (digitOf hexMode ch).isSome)
    (hout : ∀ ch ∈ rest.head?, digitOf hexMode ch = none) :
    unescape (38 :: 35 :: (marker ++ (digits ++ rest))) =
      if numeral hexMode digits ≤ 255 then
        (unescape (afterReference rest)).map ((numeral hexMode digits).toUInt8 :: ·)
      else none := by
  have hafter : ∀ e : Escape, e.accumulateNumericCode = true → e.escape = 35 :: digits →
      e.numericValue = min (numeral hexMode digits) 0x110000 → afterEscape e rest =
        if numeral hexMode digits ≤ 255 then
          (unescape (afterReference rest)).map ((numeral hexMode digits).toUInt8 :: ·)
        else none := by
    intro e hnumeric hescape hvalue
    rw [afterEscape, Escape.tryUnescape, hnumeric, hescape, hvalue, tryUnescape_numeral hexMode hne]
    split_ifs <;> rfl
  cases hmarker with
  | decimal => rw [List.nil_append, unescape_decimal hdigits hout (fun h => absurd h hne), hafter _ rfl rfl rfl]
  | hex hx => rw [List.singleton_append, unescape_hex hx hdigits hout, hafter _ rfl rfl rfl]

theorem unescape_run (h : ∀ ch ∈ run, ch ≠ 38 ∧ ch ≤ 127) (rest : GoogleString) :
    unescape (run ++ rest) = (unescape rest).map (run ++ ·) := by
  induction run with
  | nil => simp
  | cons ch run ih =>
    obtain ⟨⟨hamp, hlow⟩, hrun⟩ := List.forall_mem_cons.mp h
    rw [List.cons_append, unescape_cons hamp hlow, ih hrun, Option.map_map]
    rfl

theorem afterEscape_word {word : GoogleString}
    (h : ∀ t, e.tryUnescape t [] = some (38 :: word ++ if t then [59] else [])) (rest : GoogleString) :
    afterEscape e rest = (unescape rest).map (38 :: word ++ ·) := by
  rw [afterEscape, h, Option.bind_some]
  by_cases hterm : terminated rest = true
  · cases rest with
    | nil => simp [terminated] at hterm
    | cons ch rest =>
      obtain rfl : ch = 59 := by simpa [terminated] using hterm
      rw [unescape_cons (by decide) (by decide), hterm]
      simp [afterReference, Function.comp_def]
  · have hafter : afterReference rest = rest := by
      unfold afterReference
      split
      · simp [terminated] at hterm
      · rfl
    rw [hafter, if_neg hterm, List.append_nil]

end PageSpeed.HtmlKeywords
