import PageSpeed.Rewriter.CssLexing

/-!
The turns of the loop of `TransformUrlsStreaming`. A turn that is settled on the start of a text
is the turn on the whole text, and at the end of the text every turn is settled.
-/

namespace PageSpeed.CssTagScanner

open InputPortion LexResult

theorem extractLoop_suffix (int : ℕ → ℤ) (isString : Bool) (inputKind : InputPortion) (term : UInt8)
    (original : GoogleString) (turns : ℕ) (inp out : GoogleString)
    (h : (extractLoop int isString inputKind term original turns inp out).result ≠ interrupted) :
    (extractLoop int isString inputKind term original turns inp out).rest <:+ inp := by
  have hunclosed : ∀ {inp out : GoogleString}, (unclosed inputKind original inp out).result ≠ interrupted →
      (unclosed inputKind original inp out).rest = inp := by
    intro inp out h
    cases inputKind with
    | inputIncludesEnd => rfl
    | inputDoesNotIncludeEnd => exact absurd rfl h
  induction turns generalizing inp out with
  | zero => exact (hunclosed h).symm ▸ List.suffix_refl _
  | succ turns ih =>
    cases inp with
    | nil => exact (hunclosed h).symm ▸ List.suffix_refl _
    | cons c inp =>
      have hcons : inp <:+ c :: inp := List.suffix_cons c inp
      rw [extractLoop_cons] at h ⊢
      split_ifs at h ⊢
      · exact hcons
      · cases inp with
        | nil =>
          cases inputKind with
          | inputIncludesEnd => exact hcons
          | inputDoesNotIncludeEnd => exact absurd rfl h
        | cons escapeVal inp =>
          have hcons := (List.suffix_cons escapeVal inp).trans hcons
          simp only at h ⊢
          split_ifs at h ⊢
          · exact (ih _ _ h).trans hcons
          · exact (ih _ _ h).trans ((eatLiteral_suffix _ _ _).trans hcons)
          · exact (ih _ _ h).trans hcons
          · exact hcons
      · cases hahead : lookAhead (int inp.length) term inp with
        | none => exact List.suffix_refl _
        | some p =>
          obtain ⟨space, rest⟩ := p
          rw [hahead] at h
          exact (ih _ _ h).trans ((lookAhead_suffix hahead).trans hcons)
      · exact (hunclosed h).symm ▸ List.suffix_refl _
      · exact (ih _ _ h).trans hcons

theorem extractLoop_end (int : ℕ → ℤ) (isString : Bool) (term : UInt8) (original : GoogleString) (turns : ℕ)
    (inp out : GoogleString) :
    (extractLoop int isString inputIncludesEnd term original turns inp out).result ≠ interrupted := by
  induction turns generalizing inp out with
  | zero => simp [extractLoop, unclosed]
  | succ turns ih =>
    cases inp with
    | nil => simp [extractLoop, unclosed]
    | cons c inp =>
      rw [extractLoop_cons]
      split_ifs
      · simp
      · cases inp with
        | nil => simp
        | cons escapeVal inp =>
          simp only
          split_ifs
          · exact ih _ _
          · exact ih _ _
          · exact ih _ _
          · simp
      · cases lookAhead (int inp.length) term inp with
        | none => simp
        | some p => exact ih _ _
      · simp [unclosed]
      · exact ih _ _

theorem extractString_suffix (inputKind : InputPortion) (inp : GoogleString)
    (h : (cssExtractString inputKind inp).2.result ≠ interrupted) :
    (cssExtractString inputKind inp).2.rest <:+ inp := by
  cases inp with
  | nil => exact List.suffix_refl _
  | cons c inp =>
    rw [cssExtractString] at h ⊢
    split_ifs at h ⊢
    · exact (extractLoop_suffix _ _ _ _ _ _ _ _ h).trans (List.suffix_cons c inp)
    · exact (extractLoop_suffix _ _ _ _ _ _ _ _ h).trans (List.suffix_cons c inp)
    · exact List.suffix_refl _

theorem extractString_end (inp : GoogleString) :
    (cssExtractString inputIncludesEnd inp).2.result ≠ interrupted := by
  cases inp with
  | nil => simp [cssExtractString]
  | cons c inp =>
    rw [cssExtractString]
    split_ifs
    · exact extractLoop_end _ _ _ _ _ _ _
    · exact extractLoop_end _ _ _ _ _ _ _
    · simp

theorem toInt32_size_le (n : ℕ) : (fun size : ℕ => toInt32 size) n ≤ n := toInt32_le n

theorem toInt32_size {n : ℕ} (h : n < 2 ^ 31) : (fun size : ℕ => toInt32 size) n = n :=
  toInt32_of_lt (by omega) (by omega)

theorem extractUntil_append {isString : Bool} {term : UInt8} {a : GoogleString} (b : GoogleString)
    (hnear : isString = false → term = 41 ∧ farSpace (a ++ b) = false)
    (h : (cssExtractUntil isString inputDoesNotIncludeEnd term a).result ≠ interrupted) :
    Extends isString b (cssExtractUntil isString inputDoesNotIncludeEnd term a)
      (cssExtractUntil isString inputIncludesEnd term (a ++ b)) :=
  extractLoop_append toInt32_size_le (fun _ => toInt32_size) (Nat.le_refl _) (Nat.le_refl _)
    (fun hfalse => ⟨(hnear hfalse).1, .inr (hnear hfalse).2⟩) h

theorem Extends.eq {b : GoogleString} {r r' : Extraction} (h : Extends true b r r') :
    r' = { r with rest := r.rest ++ b } := by
  obtain ⟨hresult, hrest, hterm, hout, -⟩ := h
  cases r'
  simp only at hresult hrest hterm hout
  rw [hresult, hrest, hterm, hout trivial]

theorem extractString_append {a : GoogleString} (b : GoogleString)
    (h : (cssExtractString inputDoesNotIncludeEnd (trimLeadingWhitespace a)).2.result ≠ interrupted) :
    cssExtractString inputIncludesEnd (trimLeadingWhitespace (a ++ b)) =
      ((cssExtractString inputDoesNotIncludeEnd (trimLeadingWhitespace a)).1,
        { (cssExtractString inputDoesNotIncludeEnd (trimLeadingWhitespace a)).2 with
          rest := (cssExtractString inputDoesNotIncludeEnd (trimLeadingWhitespace a)).2.rest ++ b }) := by
  have hne : trimLeadingWhitespace a ≠ [] := by
    intro hnil
    rw [hnil] at h
    exact h rfl
  rw [trimLeadingWhitespace_append b hne]
  obtain ⟨c, inp, hcons⟩ := List.exists_cons_of_ne_nil hne
  rw [hcons] at h ⊢
  rw [cssExtractString] at h ⊢
  rw [List.cons_append, cssExtractString]
  split_ifs at h ⊢
  · rw [(extractUntil_append b (by simp) h).eq]
  · rw [(extractUntil_append b (by simp) h).eq]
  · rfl

theorem eatLiteral_trim_append {expected : GoogleString} (hexpected : expected ≠ []) (a b : GoogleString)
    (h : (eatLiteral inputDoesNotIncludeEnd expected (trimLeadingWhitespace a)).1 ≠ interrupted) :
    eatLiteral inputIncludesEnd expected (trimLeadingWhitespace (a ++ b)) =
      ((eatLiteral inputDoesNotIncludeEnd expected (trimLeadingWhitespace a)).1,
        (eatLiteral inputDoesNotIncludeEnd expected (trimLeadingWhitespace a)).2 ++ b) := by
  have hne : trimLeadingWhitespace a ≠ [] := by
    intro hnil
    obtain ⟨c, expected, rfl⟩ := List.exists_cons_of_ne_nil hexpected
    rw [hnil] at h
    exact h rfl
  rw [trimLeadingWhitespace_append b hne, eatLiteral_append _ _ _ b h]

theorem turnImport_append {a rest : GoogleString} {use : Option UrlUse} (b : GoogleString)
    (h : turnImport inputDoesNotIncludeEnd a = .passed use rest) :
    turnImport inputIncludesEnd (a ++ b) = .passed use (rest ++ b) := by
  rw [turnImport] at h
  rcases hlit : eatLiteralNoCase inputDoesNotIncludeEnd (ascii "import") a with ⟨result, remaining⟩
  have hwhole := eatLiteralNoCase_append inputIncludesEnd (ascii "import") a b
  rw [hlit] at h hwhole
  cases result with
  | interrupted => contradiction
  | no =>
    cases h
    rw [turnImport, hwhole (by simp)]
  | yes =>
    rw [turnImport, hwhole (by simp)]
    have hext := extractString_append (a := remaining) b
    simp only at h ⊢
    generalize cssExtractString inputDoesNotIncludeEnd (trimLeadingWhitespace remaining) = s at h hext
    cases hresult : s.2.result with
    | interrupted =>
      rw [hresult] at h
      contradiction
    | no =>
      rw [hext (by simp [hresult])]
      simp only [hresult] at h ⊢
      cases h
      rfl
    | yes =>
      rw [hext (by simp [hresult])]
      simp only [hresult] at h ⊢
      cases h
      rfl

/-- The text that an unquoted URL is read from after a `u`, if one is. -/
def unquotedPayload (remaining : GoogleString) : Option GoogleString :=
  match eatLiteralNoCase inputIncludesEnd (ascii "rl(") remaining with
  | (yes, remaining) =>
    let quoted := (cssExtractString inputIncludesEnd (trimLeadingWhitespace remaining)).2
    if quoted.result = no then some quoted.rest else none
  | _ => none

theorem turnUrl_append {a rest : GoogleString} {use : Option UrlUse} (b : GoogleString)
    (hnear : ∀ payload ∈ unquotedPayload (a ++ b), farSpace payload = false)
    (h : turnUrl inputDoesNotIncludeEnd a = .passed use rest) :
    turnUrl inputIncludesEnd (a ++ b) = .passed use (rest ++ b) := by
  rw [turnUrl] at h
  rcases hlit : eatLiteralNoCase inputDoesNotIncludeEnd (ascii "rl(") a with ⟨result, remaining⟩
  have hwhole := eatLiteralNoCase_append inputIncludesEnd (ascii "rl(") a b
  rw [hlit] at h hwhole
  cases result with
  | interrupted => contradiction
  | no =>
    cases h
    rw [turnUrl, hwhole (by simp)]
  | yes =>
    rw [unquotedPayload, hwhole (by simp)] at hnear
    rw [turnUrl, hwhole (by simp)]
    have hext := extractString_append (a := remaining) b
    simp only at h hnear ⊢
    generalize cssExtractString inputDoesNotIncludeEnd (trimLeadingWhitespace remaining) = s at h hext
    cases hresult : s.2.result with
    | interrupted =>
      rw [hresult] at h
      contradiction
    | yes =>
      rw [hext (by simp [hresult])]
      simp only [hresult] at h ⊢
      have hparen := @eatLiteral_trim_append (ascii ")") (by decide) s.2.rest b
      rcases hclose : eatLiteral inputDoesNotIncludeEnd (ascii ")") (trimLeadingWhitespace s.2.rest) with
        ⟨close, remaining⟩
      rw [hclose] at h hparen
      cases close with
      | interrupted => contradiction
      | no =>
        rw [hparen (by simp)]
        cases h
        rfl
      | yes =>
        rw [hparen (by simp)]
        cases h
        rfl
    | no =>
      rw [hext (by simp [hresult])] at hnear ⊢
      simp only [hresult, if_true, Option.mem_some_iff, forall_eq'] at h hnear ⊢
      have hwrapped := @extractUntil_append false 41 s.2.rest b (fun _ => ⟨rfl, hnear⟩)
      generalize cssExtractUntil false inputDoesNotIncludeEnd 41 s.2.rest = r at h hwrapped
      generalize cssExtractUntil false inputIncludesEnd 41 (s.2.rest ++ b) = r' at hwrapped ⊢
      cases hr : r.result with
      | interrupted =>
        rw [hr] at h
        contradiction
      | no =>
        obtain ⟨hr', hrest, -, -, -⟩ := hwrapped (by simp [hr])
        simp only [hr, hr', hrest] at h ⊢
        cases h
        rfl
      | yes =>
        obtain ⟨hr', hrest, hterm, -, hout⟩ := hwrapped (by simp [hr])
        simp only [hr, hr', hrest, hterm, hout] at h ⊢
        cases h
        rfl

theorem turn_append {c : UInt8} {a rest : GoogleString} {use : Option UrlUse} (b : GoogleString)
    (hnear : c = 117 ∨ c = 85 → ∀ payload ∈ unquotedPayload (a ++ b), farSpace payload = false)
    (h : turn inputDoesNotIncludeEnd c a = .passed use rest) :
    turn inputIncludesEnd c (a ++ b) = .passed use (rest ++ b) := by
  rw [turn] at h ⊢
  split_ifs at h ⊢ with himport hurl
  · exact turnImport_append b h
  · exact turnUrl_append b (hnear hurl) h
  · cases h
    rfl

def Turn.Sound (inputPortion : InputPortion) (remaining : GoogleString) : Turn → Prop
  | .interrupted => inputPortion ≠ inputIncludesEnd
  | .passed _ rest => rest <:+ remaining

theorem turnImport_sound (inputPortion : InputPortion) (remaining : GoogleString) :
    (turnImport inputPortion remaining).Sound inputPortion remaining := by
  have hlit := eatLiteralNoCase_suffix inputPortion (ascii "import") remaining
  have hend := eatLiteralNoCase_end (ascii "import") remaining
  rw [turnImport]
  generalize hl : eatLiteralNoCase inputPortion (ascii "import") remaining = l at hlit
  obtain ⟨result, inp⟩ := l
  cases result with
  | interrupted =>
    rintro rfl
    exact hend (by rw [hl])
  | no => exact hlit
  | yes =>
    have hstring := extractString_suffix inputPortion (trimLeadingWhitespace inp)
    have hstringEnd := extractString_end (trimLeadingWhitespace inp)
    have htrim : trimLeadingWhitespace inp <:+ remaining := (List.dropWhile_suffix _).trans hlit
    simp only
    generalize hs : cssExtractString inputPortion (trimLeadingWhitespace inp) = s at hstring
    cases hresult : s.2.result with
    | interrupted =>
      rintro rfl
      rw [hs] at hstringEnd
      exact hstringEnd hresult
    | no => exact (hstring (by simp [hresult])).trans htrim
    | yes => exact (hstring (by simp [hresult])).trans htrim

theorem turnUrl_sound (inputPortion : InputPortion) (remaining : GoogleString) :
    (turnUrl inputPortion remaining).Sound inputPortion remaining := by
  have hlit := eatLiteralNoCase_suffix inputPortion (ascii "rl(") remaining
  have hend := eatLiteralNoCase_end (ascii "rl(") remaining
  rw [turnUrl]
  generalize hl : eatLiteralNoCase inputPortion (ascii "rl(") remaining = l at hlit
  obtain ⟨result, inp⟩ := l
  cases result with
  | interrupted =>
    rintro rfl
    exact hend (by rw [hl])
  | no => exact hlit
  | yes =>
    have hstring := extractString_suffix inputPortion (trimLeadingWhitespace inp)
    have hstringEnd := extractString_end (trimLeadingWhitespace inp)
    have htrim : trimLeadingWhitespace inp <:+ remaining := (List.dropWhile_suffix _).trans hlit
    simp only
    generalize hs : cssExtractString inputPortion (trimLeadingWhitespace inp) = s at hstring
    cases hresult : s.2.result with
    | interrupted =>
      rintro rfl
      rw [hs] at hstringEnd
      exact hstringEnd hresult
    | yes =>
      have hquoted := (hstring (by simp [hresult])).trans htrim
      have hclose := (eatLiteral_suffix inputPortion (ascii ")") (trimLeadingWhitespace s.2.rest)).trans
        ((List.dropWhile_suffix _).trans hquoted)
      have hcloseEnd := eatLiteral_end (ascii ")") (trimLeadingWhitespace s.2.rest)
      simp only
      generalize hp : eatLiteral inputPortion (ascii ")") (trimLeadingWhitespace s.2.rest) = p at hclose
      obtain ⟨close, inp⟩ := p
      cases close with
      | interrupted =>
        rintro rfl
        exact hcloseEnd (by rw [hp])
      | no => exact hclose
      | yes => exact hclose
    | no =>
      have hpayload := (hstring (by simp [hresult])).trans htrim
      have hwrapped := extractLoop_suffix (fun size => toInt32 size) false inputPortion 41 s.2.rest
        s.2.rest.length s.2.rest []
      have hwrappedEnd := extractLoop_end (fun size => toInt32 size) false 41 s.2.rest
        s.2.rest.length s.2.rest []
      simp only [cssExtractUntil]
      generalize hr : extractLoop (fun size => toInt32 size) false inputPortion 41 s.2.rest s.2.rest.length
        s.2.rest [] = r at hwrapped
      cases hresult : r.result with
      | interrupted =>
        rintro rfl
        rw [hr] at hwrappedEnd
        exact hwrappedEnd hresult
      | no => exact (hwrapped (by simp [hresult])).trans hpayload
      | yes => exact (hwrapped (by simp [hresult])).trans hpayload

theorem turn_sound (inputPortion : InputPortion) (c : UInt8) (remaining : GoogleString) :
    (turn inputPortion c remaining).Sound inputPortion remaining := by
  rw [turn]
  split_ifs
  · exact turnImport_sound inputPortion remaining
  · exact turnUrl_sound inputPortion remaining
  · exact List.suffix_refl _

end PageSpeed.CssTagScanner
