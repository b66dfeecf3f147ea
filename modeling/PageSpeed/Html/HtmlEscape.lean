import PageSpeed.Base.StringUtil
import PageSpeed.Html.HtmlReferences

/-!
`HtmlKeywords::Escape`, which `unescape` undoes, and the numbers that stand for a byte.
-/

namespace PageSpeed.HtmlKeywords

structure EscapeSequences where
  caseSensitiveSymbols : List GoogleString := []
  insensitiveSymbols : List GoogleString := []
  escapeMap : List (UInt8 × GoogleString) := []

def EscapeSequences.insert (s : EscapeSequences) (seq : GoogleString × UInt8) : EscapeSequences :=
  if s.caseSensitiveSymbols.any (stringCaseEqual seq.1) then s
  else if s.insensitiveSymbols.any (stringCaseEqual seq.1) then
    { caseSensitiveSymbols := seq.1 :: s.caseSensitiveSymbols
      insensitiveSymbols := s.insensitiveSymbols.filter fun symbol => !stringCaseEqual seq.1 symbol
      escapeMap := (seq.2, seq.1) :: s.escapeMap }
  else
    { s with
      insensitiveSymbols := s.insensitiveSymbols ++ [seq.1]
      escapeMap := (seq.2, seq.1) :: s.escapeMap }

def escapeMap : List (UInt8 × GoogleString) := (kHtmlKeywordsSequences.foldl EscapeSequences.insert {}).escapeMap

def format02d (n : ℕ) : GoogleString := List.replicate (2 - (Decimal.digits 3 n).length) 48 ++ Decimal.digits 3 n

def escapeByte (ch : UInt8) : GoogleString :=
  if isHtmlSpace ch = false ∧ (127 < ch ∨ ch < 32 ∨ ch = 34 ∨ ch = 39 ∨ ch = 38 ∨ ch = 60 ∨ ch = 62) then
    match escapeMap.lookup ch with
    | none => [38, 35] ++ format02d ch.toNat ++ [59]
    | some name => [38] ++ name ++ [59]
  else [ch]

def escape (unescaped : GoogleString) : GoogleString := unescaped.flatMap escapeByte

theorem format02d_value : ∀ n < 256, format02d n ≠ [] ∧ (∀ ch ∈ format02d n, (digitOf false ch).isSome) ∧
    numeral false (format02d n) = n := by
  have hall : ∀ n < 256, format02d n ≠ [] ∧ (format02d n).all (fun ch => (digitOf false ch).isSome) = true ∧
      numeral false (format02d n) = n := by decide +kernel
  intro n hn
  obtain ⟨hne, hdigits, hvalue⟩ := hall n hn
  exact ⟨hne, List.all_eq_true.mp hdigits, hvalue⟩

theorem escapeMap_inverse : ∀ entry ∈ escapeMap,
    (∀ ch ∈ entry.2, isAlnum ch = true) ∧ tryUnescape false 0 entry.2 true [] = some [entry.1] := by
  have hall : ∀ entry ∈ escapeMap, entry.2.all isAlnum = true ∧
      tryUnescape false 0 entry.2 true [] = some [entry.1] := by
    unfold escapeMap tryUnescape kHtmlKeywordsSequences
    simp only [ascii_eq_textBytes]
    decide +kernel
  intro entry hentry
  obtain ⟨hname, hvalue⟩ := hall entry hentry
  exact ⟨List.all_eq_true.mp hname, hvalue⟩

theorem escapeByte_cases (ch : UInt8) :
    escapeByte ch = [ch] ∧ ch ≠ 38 ∧ ch ≤ 127 ∨
      (∃ name, (ch, name) ∈ escapeMap ∧ escapeByte ch = 38 :: (name ++ [59])) ∨
      escapeByte ch = 38 :: 35 :: (format02d ch.toNat ++ [59]) := by
  unfold escapeByte
  split_ifs with h
  · right
    cases hlookup : escapeMap.lookup ch with
    | none => exact .inr rfl
    | some name =>
      obtain ⟨l₁, l₂, hsplit, -⟩ := List.lookup_eq_some_iff.mp hlookup
      exact .inl ⟨name, by simp [hsplit], rfl⟩
  · refine .inl ⟨rfl, ?_, ?_⟩
    · rintro rfl
      exact h (by decide)
    · by_contra hhigh
      have hspace : isHtmlSpace ch = false := by
        unfold isHtmlSpace
        grind
      exact h ⟨hspace, .inl (UInt8.not_le.mp hhigh)⟩

theorem unescape_escapeByte (ch : UInt8) (rest : GoogleString) :
    unescape (escapeByte ch ++ rest) = (unescape rest).map (ch :: ·) := by
  obtain ⟨heq, hamp, hlow⟩ | ⟨name, hmem, heq⟩ | heq := escapeByte_cases ch
  · rw [heq, List.singleton_append, unescape_cons hamp hlow]
  · obtain ⟨hname, hvalue⟩ := escapeMap_inverse _ hmem
    rw [heq, List.cons_append, List.append_assoc, List.singleton_append]
    exact unescape_named hname hvalue rest
  · obtain ⟨hne, hdigits, hvalue⟩ := format02d_value ch.toNat ch.toNat_lt
    have hsemi : ∀ c ∈ (59 :: rest : GoogleString).head?, digitOf false c = none := by
      rintro c ⟨⟩
      rfl
    have hle : ch.toNat ≤ 255 := Nat.le_of_lt_succ ch.toNat_lt
    have href := unescape_numeral .decimal hne hdigits hsemi
    rw [hvalue, if_pos hle, Nat.toUInt8_eq, UInt8.ofNat_toNat] at href
    rw [heq, List.cons_append, List.cons_append, List.append_assoc, List.singleton_append]
    exact href

theorem unescape_escape (s : GoogleString) : unescape (escape s) = some s := by
  induction s with
  | nil => rfl
  | cons ch s ih =>
    rw [escape, List.flatMap_cons, unescape_escapeByte]
    exact congrArg (Option.map (ch :: ·)) ih

/-- `Unescape` undoes `Escape`, and makes a byte of a number only if the number is one. -/
theorem escape_round_trip :
    (∀ s, unescape (escape s) = some s) ∧
      ∀ (hexMode : Bool) (marker digits pre rest : GoogleString), Marker hexMode marker → digits ≠ [] →
        (∀ ch ∈ digits, (digitOf hexMode ch).isSome) → (∀ ch ∈ rest.head?, digitOf hexMode ch = none) →
        unescape (pre ++ 38 :: 35 :: (marker ++ (digits ++ rest))) =
          if numeral hexMode digits ≤ 255 then
            (unescape pre).bind fun out => (unescape (afterReference rest)).map fun after =>
              out ++ (numeral hexMode digits).toUInt8 :: after
          else none := by
  refine ⟨unescape_escape, ?_⟩
  intro hexMode marker digits pre rest hmarker hne hdigits hout
  rw [unescape_amp, unescape_numeral hmarker hne hdigits hout]
  split_ifs with hle
  · simp only [Option.map_map]
    rfl
  · cases unescape pre <;> rfl

theorem escape_round_trip_at :
    unescape (escape [38, 39, 0, 233, 128]) = some [38, 39, 0, 233, 128] ∧
      unescape (ascii "a&#x4294967361;") = none := by
  obtain ⟨hround, hnumeral⟩ := escape_round_trip
  refine ⟨hround _, ?_⟩
  exact hnumeral true [120] (ascii "4294967361") [97] [59] (.hex rfl) (by decide) (List.all_eq_true.mp rfl) fun
    | _, rfl => rfl

end PageSpeed.HtmlKeywords
