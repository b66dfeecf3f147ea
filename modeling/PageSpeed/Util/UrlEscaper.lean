import PageSpeed.Base.Ascii
import Mathlib.Tactic.IntervalCases

/-!
`kernel/util/url_escaper.cc`: text as a part of a URL that servers and browsers pass on. The
character `,` begins an escape.
-/

namespace PageSpeed.UrlEscaper

def kPassThroughChars : GoogleString := ascii "._=+-"

def isPassThrough (c : UInt8) : Bool := isAlnum c || kPassThroughChars.contains c || c == 0

def hexDigit (n : ℕ) : UInt8 := if n < 10 then UInt8.ofNat (48 + n) else UInt8.ofNat (55 + n)

def charCodes : List (UInt8 × UInt8) :=
  [(94, 117), (37, 80), (47, 95), (92, 45), (44, 44), (63, 113), (38, 97)]

def encodeChar (c : UInt8) (src : GoogleString) : GoogleString × ℕ :=
  match charCodes.lookup c with
  | some d => ([44, d], 0)
  | none =>
    if c = 104 ∧ (ascii "ttp://").isPrefixOf src then ([44, 104], 6)
    else if c = 46 ∧ (ascii "pagespeed.").isPrefixOf src then ([44, 77], 10)
    else if isPassThrough c then ([c], 0)
    else ([44, hexDigit (c.toNat / 16), hexDigit (c.toNat % 16)], 0)

def encodeFrom : ℕ → GoogleString → GoogleString
  | _, [] => []
  | skip + 1, _ :: src => encodeFrom skip src
  | 0, c :: src => (encodeChar c src).1 ++ encodeFrom (encodeChar c src).2 src

def encodeToUrlSegment (s : GoogleString) : GoogleString := encodeFrom 0 s

def decodeHexEncoding : GoogleString → Option (UInt8 × GoogleString)
  | a :: b :: rest => do
    let value ← accumulateHexValue a 0
    let value ← accumulateHexValue b value
    return (UInt8.ofNat value, rest)
  | _ => none

def commaCodes : List (UInt8 × GoogleString) :=
  [(95, ascii "/"), (45, ascii "\\"), (44, ascii ","), (97, ascii "&"), (77, ascii ".pagespeed."),
    (80, ascii "%"), (113, ascii "?"), (117, ascii "^")] ++
  [(99, ascii ".com"), (101, ascii ".edu"), (103, ascii ".gif"), (104, ascii "http://"), (106, ascii ".jpg"),
    (107, ascii ".jpeg"), (108, ascii ".js"), (110, ascii ".net"), (111, ascii "."), (112, ascii ".png"),
    (115, ascii ".css"), (116, ascii ".html"), (119, ascii "www.")]

def decodeComma : GoogleString → Option (GoogleString × GoogleString)
  | [] => none
  | d :: rest =>
    match commaCodes.lookup d with
    | some out => some (out, rest)
    | none => (decodeHexEncoding (d :: rest)).map fun (c, rest) => ([c], rest)

def decodeUnit : GoogleString → Option (GoogleString × GoogleString)
  | [] => none
  | c :: rest =>
    if isPassThrough c then some ([c], rest)
    else if rest = [] then none
    else if c = 44 then decodeComma rest
    else if c = 37 then do
      let (c, rest) ← decodeHexEncoding rest
      -- Some browsers write a plus sign as a space.
      let c := if c = 32 then 43 else c
      if c = 44 then decodeComma rest else some ([c], rest)
    else none

def decodeFuel : ℕ → GoogleString → GoogleString × Bool
  | 0, s => ([], s.isEmpty)
  | fuel + 1, s =>
    if s = [] then ([], true)
    else match decodeUnit s with
    | none => ([], false)
    | some (out, rest) => (out ++ (decodeFuel fuel rest).1, (decodeFuel fuel rest).2)

/-- What is appended to `out`, and whether the text was a segment. -/
def decodeFromUrlSegment (urlSegment : GoogleString) : GoogleString × Bool :=
  decodeFuel urlSegment.length urlSegment

theorem encodeFrom_skip (skip : ℕ) (s : GoogleString) : encodeFrom skip s = encodeToUrlSegment (s.drop skip) := by
  induction skip generalizing s with
  | zero => rfl
  | succ skip ih =>
    cases s with
    | nil => rfl
    | cons c src => exact ih src

theorem encodeToUrlSegment_cons (c : UInt8) (src : GoogleString) :
    encodeToUrlSegment (c :: src) =
      (encodeChar c src).1 ++ encodeToUrlSegment (src.drop (encodeChar c src).2) := by
  rw [← encodeFrom_skip]
  rfl

theorem encodeChar_ne_nil (c : UInt8) (src : GoogleString) : (encodeChar c src).1 ≠ [] := by
  unfold encodeChar
  split
  · exact List.cons_ne_nil _ _
  · split_ifs <;> exact List.cons_ne_nil _ _

theorem accumulateHexValue_hexDigit {n : ℕ} (h : n < 16) (value : ℕ) :
    accumulateHexValue (hexDigit n) value = some (min (value * 16 + n) 0x110000) := by
  interval_cases n <;> rfl

theorem lookup_hexDigit {n : ℕ} (h : n < 16) : commaCodes.lookup (hexDigit n) = none := by
  interval_cases n <;> decide

variable {c d : UInt8}

theorem decodeComma_code {out : GoogleString} (h : commaCodes.lookup d = some out) (t : GoogleString) :
    decodeComma (d :: t) = some (out, t) := by
  rw [decodeComma, h]

theorem decodeComma_hex (c : UInt8) (t : GoogleString) :
    decodeComma (hexDigit (c.toNat / 16) :: hexDigit (c.toNat % 16) :: t) = some ([c], t) := by
  have hlt := c.toNat_lt
  have hhigh : c.toNat / 16 < 16 := by omega
  have hlow : c.toNat % 16 < 16 := Nat.mod_lt _ (by decide)
  have hvalue : min (min (0 * 16 + c.toNat / 16) 0x110000 * 16 + c.toNat % 16) 0x110000 = c.toNat := by omega
  rw [decodeComma, lookup_hexDigit hhigh]
  simp only [decodeHexEncoding, accumulateHexValue_hexDigit hhigh, accumulateHexValue_hexDigit hlow, hvalue,
    Option.bind_eq_bind, Option.bind_some, Option.pure_def, Option.map_some, UInt8.ofNat_toNat]

theorem decodeUnit_comma (d : UInt8) (t : GoogleString) : decodeUnit (44 :: d :: t) = decodeComma (d :: t) := by
  rw [decodeUnit, if_neg (by decide), if_neg (List.cons_ne_nil _ _), if_pos rfl]

theorem decodeUnit_code (d : UInt8) {out : GoogleString} (h : commaCodes.lookup d = some out) (t : GoogleString) :
    decodeUnit (44 :: d :: t) = some (out, t) := by
  rw [decodeUnit_comma, decodeComma_code h]

theorem decodeUnit_passThrough (h : isPassThrough c = true) (t : GoogleString) :
    decodeUnit (c :: t) = some ([c], t) := by
  rw [decodeUnit, if_pos h]

theorem lookup_charCodes (h : charCodes.lookup c = some d) : commaCodes.lookup d = some [c] := by
  have hall : charCodes.all (fun code => commaCodes.lookup code.2 == some [code.1]) = true := by decide
  obtain ⟨l, l', hsplit, _⟩ := List.lookup_eq_some_iff.mp h
  exact eq_of_beq (List.all_eq_true.mp hall (c, d) (by rw [hsplit]; simp))

theorem take_of_isPrefixOf {code src : GoogleString} (h : code.isPrefixOf src = true) :
    src.take code.length = code :=
  (List.prefix_iff_eq_take.mp (List.isPrefixOf_iff_prefix.mp h)).symm

theorem decodeUnit_encodeChar (c : UInt8) (src t : GoogleString) :
    decodeUnit ((encodeChar c src).1 ++ t) = some (c :: src.take (encodeChar c src).2, t) := by
  unfold encodeChar
  cases hcode : charCodes.lookup c with
  | some d => exact decodeUnit_code d (lookup_charCodes hcode) t
  | none =>
    dsimp only
    split_ifs with hhttp hsystem hpass
    · have hletter : commaCodes.lookup 104 = some (104 :: src.take 6) := by
        rw [show src.take 6 = ascii "ttp://" from take_of_isPrefixOf hhttp.2]
        decide
      rw [hhttp.1]
      exact decodeUnit_code 104 hletter t
    · have hletter : commaCodes.lookup 77 = some (46 :: src.take 10) := by
        rw [show src.take 10 = ascii "pagespeed." from take_of_isPrefixOf hsystem.2]
        decide
      rw [hsystem.1]
      exact decodeUnit_code 77 hletter t
    · exact decodeUnit_passThrough hpass t
    · exact (decodeUnit_comma _ _).trans (decodeComma_hex c t)

theorem decodeFuel_encode (fuel : ℕ) (s : GoogleString) (h : (encodeToUrlSegment s).length ≤ fuel) :
    decodeFuel fuel (encodeToUrlSegment s) = (s, true) := by
  induction fuel generalizing s with
  | zero =>
    cases s with
    | nil => rfl
    | cons c src =>
      rw [encodeToUrlSegment_cons, List.length_append] at h
      have hpos := List.length_pos_iff.mpr (encodeChar_ne_nil c src)
      omega
  | succ fuel ih =>
    cases s with
    | nil => rfl
    | cons c src =>
      have hne : encodeToUrlSegment (c :: src) ≠ [] := by
        rw [encodeToUrlSegment_cons]
        exact List.append_ne_nil_of_left_ne_nil (encodeChar_ne_nil c src) _
      have hpos := List.length_pos_iff.mpr (encodeChar_ne_nil c src)
      rw [decodeFuel, if_neg hne]
      rw [encodeToUrlSegment_cons, List.length_append] at h
      rw [encodeToUrlSegment_cons, decodeUnit_encodeChar]
      dsimp only
      rw [ih _ (by omega), List.cons_append, List.take_append_drop]

theorem decode_encode (s : GoogleString) : decodeFromUrlSegment (encodeToUrlSegment s) = (s, true) :=
  decodeFuel_encode _ s (Nat.le_refl _)

def isSegmentChar (c : UInt8) : Bool := isAlnum c || (ascii "._=+-,").contains c

theorem encode_induction {P : GoogleString → Prop} (nil : P [])
    (cons : ∀ c src, P (src.drop (encodeChar c src).2) → P (c :: src)) (s : GoogleString) : P s := by
  induction hn : s.length using Nat.strong_induction_on generalizing s with
  | _ n ih =>
    cases s with
    | nil => exact nil
    | cons c src =>
      have hlt : (src.drop (encodeChar c src).2).length < n := by
        rw [← hn, List.length_drop, List.length_cons]
        omega
      exact cons c src (ih _ hlt _ rfl)

def IsEscape (unit : GoogleString) : Prop := ∃ code, unit = 44 :: code ∧ 46 ∉ code ∧ code.all isSegmentChar = true

theorem isEscape_code (h : charCodes.lookup c = some d) : IsEscape [44, d] := by
  have hall : charCodes.all (fun code => code.2 != 46 && isSegmentChar code.2) = true := by decide
  obtain ⟨l, l', hsplit, _⟩ := List.lookup_eq_some_iff.mp h
  have hd := List.all_eq_true.mp hall (c, d) (by rw [hsplit]; simp)
  rw [Bool.and_eq_true, bne_iff_ne] at hd
  exact ⟨[d], rfl, fun hmem => hd.1 (List.mem_singleton.mp hmem).symm, by simpa using hd.2⟩

theorem isSegmentChar_hexDigit {n : ℕ} (h : n < 16) : hexDigit n ≠ 46 ∧ isSegmentChar (hexDigit n) = true := by
  interval_cases n <;> decide

theorem isEscape_hex (c : UInt8) : IsEscape [44, hexDigit (c.toNat / 16), hexDigit (c.toNat % 16)] := by
  have hlt := c.toNat_lt
  have hhigh := isSegmentChar_hexDigit (show c.toNat / 16 < 16 by omega)
  have hlow := isSegmentChar_hexDigit (Nat.mod_lt c.toNat (show 0 < 16 by decide))
  exact ⟨_, rfl, by simp [hhigh.1.symm, hlow.1.symm], by simp [hhigh.2, hlow.2]⟩

theorem encodeChar_cases (c : UInt8) (src : GoogleString) :
    (encodeChar c src = ([c], 0) ∧ isPassThrough c = true ∧ ¬(c = 46 ∧ ascii "pagespeed." <+: src)) ∨
      (IsEscape (encodeChar c src).1 ∧ c ≠ 0 ∧ 0 ∉ src.take (encodeChar c src).2) := by
  unfold encodeChar
  cases hcode : charCodes.lookup c with
  | some d =>
    refine .inr ⟨isEscape_code hcode, ?_, List.not_mem_nil⟩
    rintro rfl
    exact absurd hcode nofun
  | none =>
    dsimp only
    split_ifs with hhttp hsystem hpass
    · refine .inr ⟨⟨[104], rfl, by decide, by decide⟩, by rw [hhttp.1]; decide, ?_⟩
      rw [show src.take 6 = ascii "ttp://" from take_of_isPrefixOf hhttp.2]
      decide
    · refine .inr ⟨⟨[77], rfl, by decide, by decide⟩, by rw [hsystem.1]; decide, ?_⟩
      rw [show src.take 10 = ascii "pagespeed." from take_of_isPrefixOf hsystem.2]
      decide
    · refine .inl ⟨rfl, hpass, fun h => hsystem ⟨h.1, List.isPrefixOf_iff_prefix.mpr h.2⟩⟩
    · refine .inr ⟨isEscape_hex c, ?_, List.not_mem_nil⟩
      rintro rfl
      exact hpass (by decide)

theorem isSegmentChar_of_passThrough (h : isPassThrough c = true) (hzero : c ≠ 0) : isSegmentChar c = true := by
  unfold isPassThrough at h
  rw [Bool.or_eq_true, Bool.or_eq_true] at h
  unfold isSegmentChar
  rw [Bool.or_eq_true]
  obtain (halnum | hpass) | heq := h
  · exact .inl halnum
  · right
    rw [List.contains_iff_mem] at hpass ⊢
    revert hpass
    rw [show ascii "._=+-," = kPassThroughChars ++ [44] by decide]
    exact List.mem_append_left [44]
  · exact absurd (beq_iff_eq.mp heq) hzero

theorem encode_safe (s : GoogleString) (h : 0 ∉ s) : ∀ b ∈ encodeToUrlSegment s, isSegmentChar b = true := by
  induction s using encode_induction with
  | nil => nofun
  | cons c src ih =>
    have hrest : 0 ∉ src.drop (encodeChar c src).2 := fun hmem => h (List.mem_cons_of_mem c (List.mem_of_mem_drop hmem))
    intro b hb
    rw [encodeToUrlSegment_cons] at hb
    obtain hb | hb := List.mem_append.mp hb
    · obtain ⟨heq, hpass, _⟩ | ⟨⟨code, heq, _, hcode⟩, _⟩ := encodeChar_cases c src
      · rw [heq] at hb
        obtain rfl := List.mem_singleton.mp hb
        exact isSegmentChar_of_passThrough hpass fun hzero => h (hzero ▸ List.mem_cons_self)
      · rw [heq] at hb
        obtain rfl | hb := List.mem_cons.mp hb
        · decide
        · exact List.all_eq_true.mp hcode b hb
    · exact ih hrest b hb

theorem zero_mem_encode (s : GoogleString) (h : 0 ∈ s) : 0 ∈ encodeToUrlSegment s := by
  induction s using encode_induction with
  | nil => exact h
  | cons c src ih =>
    rw [encodeToUrlSegment_cons]
    obtain ⟨heq, -⟩ | ⟨-, hne, htake⟩ := encodeChar_cases c src
    · rw [heq] at ih ⊢
      obtain rfl | hmem := List.mem_cons.mp h
      · exact List.mem_cons_self
      · exact List.mem_append_right _ (ih hmem)
    · obtain hzero | hmem := List.mem_cons.mp h
      · exact absurd hzero.symm hne
      · rw [← List.take_append_drop (encodeChar c src).2 src] at hmem
        exact List.mem_append_right _ (ih ((List.mem_append.mp hmem).resolve_left htake))

theorem prefix_of_encode {w s : GoogleString} (hw : 44 ∉ w) (h : w <+: encodeToUrlSegment s) : w <+: s := by
  induction w generalizing s with
  | nil => exact List.nil_prefix
  | cons b w ih =>
    obtain ⟨hb, hw⟩ := not_or.mp (mt List.mem_cons.mpr hw)
    cases s with
    | nil => exact h
    | cons c src =>
      rw [encodeToUrlSegment_cons] at h
      obtain ⟨heq, -⟩ | ⟨⟨code, heq, -⟩, -⟩ := encodeChar_cases c src
      · rw [heq] at h
        obtain ⟨rfl, hrest⟩ := List.cons_prefix_cons.mp h
        exact List.cons_prefix_cons.mpr ⟨rfl, ih hw hrest⟩
      · rw [heq] at h
        exact absurd (List.cons_prefix_cons.mp h).1.symm hb

theorem infix_of_dot_not_mem {w code t : GoogleString} (hcode : 46 ∉ code) (h : 46 :: w <:+: code ++ t) :
    46 :: w <:+: t := by
  induction code with
  | nil => exact h
  | cons b code ih =>
    obtain ⟨hb, hcode⟩ := not_or.mp (mt List.mem_cons.mpr hcode)
    obtain hprefix | hinfix := List.infix_cons_iff.mp h
    · exact absurd (List.cons_prefix_cons.mp hprefix).1 hb
    · exact ih hcode hinfix

theorem system_not_infix_encode (s : GoogleString) : ¬ ascii ".pagespeed." <:+: encodeToUrlSegment s := by
  have hdot : ascii ".pagespeed." = 46 :: ascii "pagespeed." := by decide
  rw [hdot]
  induction s using encode_induction with
  | nil => exact fun h => absurd (List.infix_nil.mp h) (List.cons_ne_nil _ _)
  | cons c src ih =>
    rw [encodeToUrlSegment_cons]
    intro h
    obtain ⟨heq, -, hsystem⟩ | ⟨⟨code, heq, hcode, -⟩, -⟩ := encodeChar_cases c src
    · rw [heq] at h ih
      obtain hprefix | hinfix := List.infix_cons_iff.mp h
      · obtain ⟨hc, hrest⟩ := List.cons_prefix_cons.mp hprefix
        exact hsystem ⟨hc.symm, prefix_of_encode (by decide) hrest⟩
      · exact ih hinfix
    · rw [heq] at h
      have hunit : 46 ∉ 44 :: code := List.not_mem_cons_of_ne_of_not_mem (by decide) hcode
      exact ih (infix_of_dot_not_mem hunit h)

/-- The round trip, and a segment that is safe, just if there is no NUL. -/
theorem round_trip_safe_iff (s : GoogleString) :
    (decodeFromUrlSegment (encodeToUrlSegment s) = (s, true) ∧
      (∀ b ∈ encodeToUrlSegment s, isSegmentChar b = true) ∧
      ¬ ascii ".pagespeed." <:+: encodeToUrlSegment s) ↔ 0 ∉ s := by
  constructor
  · rintro ⟨-, hsafe, -⟩ hmem
    exact absurd (hsafe 0 (zero_mem_encode s hmem)) (by decide)
  · intro h
    exact ⟨decode_encode s, encode_safe s h, system_not_infix_encode s⟩

theorem nul_not_escaped :
    ¬ (decodeFromUrlSegment (encodeToUrlSegment [0]) = ([0], true) ∧
      (∀ b ∈ encodeToUrlSegment [0], isSegmentChar b = true) ∧ ¬ ascii ".pagespeed." <:+: encodeToUrlSegment [0]) := by
  rintro ⟨-, hsafe, -⟩
  exact absurd (hsafe 0 (by decide)) (by decide)

end PageSpeed.UrlEscaper
