import PageSpeed.Lib.Json

/-!
Where a reader of a JSON text is after each byte, and the texts whose holes are between the
characters of strings: such a text is one of a value just if it is without its holes.
-/

namespace PageSpeed.Json

variable {H : Type}

inductive Place
  | outside
  | inside
  /-- In a character, before the last `more + 1` of its bytes. -/
  | middle (more : ℕ)
  | escaped
  /-- In an escape, before the last `more + 1` of its digits. -/
  | hex (more : ℕ)
  | wrong
deriving DecidableEq

def step : Place → UInt8 → Place
  | .outside, b => if b = 34 then .inside else .outside
  | .inside, b =>
    if b = 34 then .outside
    else if b = 92 then .escaped
    else if b < 0x20 then .wrong
    else if b < 0x80 then .inside
    else if b < 0xE0 then .middle 0
    else if b < 0xF0 then .middle 1
    else .middle 2
  | .middle 0, _ => .inside
  | .middle (more + 1), _ => .middle more
  | .escaped, b => if b = 117 then .hex 3 else if escapes.any (·.1 = b) then .inside else .wrong
  | .hex 0, b => if isHexDigit b then .inside else .wrong
  | .hex (more + 1), b => if isHexDigit b then .hex more else .wrong
  | .wrong, _ => .wrong

def scan : Place → List (UInt8 ⊕ H) → Place
  | p, [] => p
  | p, .inl b :: s => scan (step p b) s
  | p, .inr _ :: s => scan p s

/-- Every hole is at a place that `P` holds of. -/
def HolesAt (P : Place → Prop) : Place → List (UInt8 ⊕ H) → Prop
  | _, [] => True
  | p, .inl b :: s => HolesAt P (step p b) s
  | p, .inr _ :: s => P p ∧ HolesAt P p s

def decidableHolesAt {P : Place → Prop} [DecidablePred P] :
    (p : Place) → (s : List (UInt8 ⊕ H)) → Decidable (HolesAt P p s)
  | _, [] => .isTrue trivial
  | p, .inl b :: s => decidableHolesAt (step p b) s
  | p, .inr _ :: s => @instDecidableAnd _ _ (inferInstanceAs (Decidable (P p))) (decidableHolesAt p s)

instance {P : Place → Prop} [DecidablePred P] (p : Place) (s : List (UInt8 ⊕ H)) : Decidable (HolesAt P p s) :=
  decidableHolesAt p s

theorem scan_append (p : Place) (s t : List (UInt8 ⊕ H)) : scan p (s ++ t) = scan (scan p s) t := by
  induction s generalizing p with
  | nil => rfl
  | cons c s ih =>
    cases c with
    | inl b => exact ih (step p b)
    | inr h => exact ih p

def Through : Place → Bytes → Prop
  | _, [] => True
  | p, b :: s => p ≠ .inside ∧ Through (step p b) s

theorem through_outside {word : Bytes} (h : 34 ∉ word) : Through .outside word ∧
    scan .outside (plain (H := H) word) = .outside := by
  induction word with
  | nil => exact ⟨trivial, rfl⟩
  | cons b word ih =>
    rw [List.mem_cons, not_or] at h
    have hb : step .outside b = .outside := if_neg (Ne.symm h.1)
    rw [Through, plain_cons, scan, hb]
    exact ⟨⟨nofun, (ih h.2).1⟩, (ih h.2).2⟩

theorem literal_free {word : Bytes} (h : IsLiteral word) : 34 ∉ word :=
  fun hmem => absurd (literal_bytes h 34 hmem) (by decide)

theorem step_ofNat {n : ℕ} (h : 0x80 ≤ n) (hlt : n < 0x100) : step .inside (UInt8.ofNat n) =
    if n < 0xE0 then .middle 0 else if n < 0xF0 then .middle 1 else .middle 2 := by
  have htoNat : (UInt8.ofNat n).toNat = n := UInt8.toNat_ofNat_of_lt' hlt
  have hlow (k : UInt8) : UInt8.ofNat n < k ↔ n < k.toNat := by rw [UInt8.lt_iff_toNat_lt, htoNat]
  have hne (k : UInt8) (hk : k.toNat < 0x80) : UInt8.ofNat n ≠ k := by
    rintro rfl
    omega
  have hcontrol : ¬UInt8.ofNat n < 0x20 := by
    rw [hlow]
    exact Nat.not_lt.mpr (Nat.le_trans (by decide) h)
  have hascii : ¬UInt8.ofNat n < 0x80 := by
    rw [hlow]
    exact Nat.not_lt.mpr h
  have htwo : UInt8.ofNat n < 0xE0 ↔ n < 0xE0 := hlow 0xE0
  have hthree : UInt8.ofNat n < 0xF0 ↔ n < 0xF0 := hlow 0xF0
  rw [step, if_neg (hne 34 (by decide)), if_neg (hne 92 (by decide)), if_neg hcontrol, if_neg hascii]
  simp only [htwo, hthree]

theorem through_char {units : List ℕ} {bytes : Bytes} (h : IsChar units bytes) :
    ∃ b rest, bytes = b :: rest ∧ Through (step .inside b) rest ∧
      scan (step .inside b) (plain (H := H) rest) = .inside := by
  cases h with
  | @char c hlow hquote hback =>
    have hvalid := Utf8.code_valid c
    rw [Utf8.encodeChar_eq, Utf8.bytes]
    split_ifs with h₁ h₂ h₃
    · have htoNat : (UInt8.ofNat c.toNat).toNat = c.toNat := UInt8.toNat_ofNat_of_lt' (Nat.lt_trans h₁ (by decide))
      have hne (k : UInt8) (hk : c.toNat ≠ k.toNat) : UInt8.ofNat c.toNat ≠ k := by
        rintro rfl
        exact hk htoNat.symm
      have hcontrol : ¬UInt8.ofNat c.toNat < 0x20 := by
        rw [UInt8.lt_iff_toNat_lt, htoNat]
        exact Nat.not_lt.mpr hlow
      have hascii : UInt8.ofNat c.toNat < 0x80 := by
        rw [UInt8.lt_iff_toNat_lt, htoNat]
        exact h₁
      refine ⟨_, [], rfl, trivial, ?_⟩
      rw [step, if_neg (hne 34 hquote), if_neg (hne 92 hback), if_neg hcontrol, if_pos hascii]
      rfl
    · have hlead := step_ofNat (by omega : 0x80 ≤ c.toNat / 64 + 0xC0) (by omega)
      rw [if_pos (by omega)] at hlead
      refine ⟨_, _, rfl, ?_, ?_⟩
      · rw [hlead]
        exact ⟨by rintro ⟨⟩, trivial⟩
      · rw [hlead]
        rfl
    · have hlead := step_ofNat (by omega : 0x80 ≤ c.toNat / 4096 + 0xE0) (by omega)
      rw [if_neg (by omega), if_pos (by omega)] at hlead
      refine ⟨_, _, rfl, ?_, ?_⟩
      · rw [hlead]
        exact ⟨by rintro ⟨⟩, by rintro ⟨⟩, trivial⟩
      · rw [hlead]
        rfl
    · have hlead := step_ofNat (by omega : 0x80 ≤ c.toNat / 262144 + 0xF0) (by omega)
      rw [if_neg (by omega), if_neg (by omega)] at hlead
      refine ⟨_, _, rfl, ?_, ?_⟩
      · rw [hlead]
        exact ⟨by rintro ⟨⟩, by rintro ⟨⟩, by rintro ⟨⟩, trivial⟩
      · rw [hlead]
        rfl
  | @escape letter unit hmem =>
    have hletter : letter ≠ 117 := by
      rintro rfl
      exact absurd hmem (by simp [escapes])
    have hany : escapes.any (·.1 = letter) = true := List.any_eq_true.mpr ⟨_, hmem, by simp⟩
    refine ⟨92, [letter], rfl, ⟨by rintro ⟨⟩, trivial⟩, ?_⟩
    change step .escaped letter = .inside
    rw [step, if_neg hletter, if_pos hany]
  | @hex digits hlength hdigits =>
    obtain ⟨a, b, c, d, rfl⟩ := List.length_eq_four.mp hlength
    simp only [List.forall_mem_cons] at hdigits
    obtain ⟨ha, hb, hc, hd, -⟩ := hdigits
    have hplaces : step (.hex 3) a = .hex 2 ∧ step (.hex 2) b = .hex 1 ∧ step (.hex 1) c = .hex 0 ∧
        step (.hex 0) d = .inside := ⟨if_pos ha, if_pos hb, if_pos hc, if_pos hd⟩
    refine ⟨92, [117, a, b, c, d], rfl, ⟨by rintro ⟨⟩, by rintro ⟨⟩, ?_⟩, ?_⟩
    · change Through (step (.hex 3) a) [b, c, d]
      rw [hplaces.1]
      refine ⟨by rintro ⟨⟩, ?_⟩
      rw [hplaces.2.1]
      refine ⟨by rintro ⟨⟩, ?_⟩
      rw [hplaces.2.2.1]
      exact ⟨by rintro ⟨⟩, trivial⟩
    · change step (step (step (step (.hex 3) a) b) c) d = .inside
      rw [hplaces.1, hplaces.2.1, hplaces.2.2.1, hplaces.2.2.2]

theorem scan_chars {units : List (ℕ ⊕ H)} {chars : List (UInt8 ⊕ H)} (h : IsChars units chars) :
    scan .inside chars = .inside := by
  induction h with
  | nil => rfl
  | hole _ _ ih => exact ih
  | char hc _ ih =>
    obtain ⟨b, rest, rfl, -, hscan⟩ := through_char (H := H) hc
    rw [plain_cons, List.cons_append, scan, scan_append, hscan]
    exact ih

theorem scan_lexes {tokens : List (Token H)} {s : List (UInt8 ⊕ H)} (h : Lexes tokens s) : scan .outside s = .outside := by
  induction h with
  | nil => rfl
  | @ws b _ _ hb _ ih =>
    have hquote : b ≠ 34 := by
      rintro rfl
      exact absurd hb (by decide)
    rw [scan, step, if_neg hquote]
    exact ih
  | @mark b _ _ hb _ ih =>
    have hquote : b ≠ 34 := by
      rintro rfl
      exact absurd hb (by decide)
    rw [scan, step, if_neg hquote]
    exact ih
  | literal hword _ ih =>
    rw [scan_append, (through_outside (literal_free hword)).2]
    exact ih
  | string hchars _ ih =>
    change scan .inside _ = _
    rw [scan_append, scan_chars hchars]
    exact ih

theorem word_of_erase {p : Place} {word : Bytes} (hword : Through p word) {s : List (UInt8 ⊕ H)}
    {e : List (UInt8 ⊕ Empty)} (hs : erase s = plain word ++ e) (hholes : HolesAt (· = .inside) p s) :
    ∃ t, s = plain word ++ t ∧ erase t = e ∧ HolesAt (· = .inside) (scan p (plain (H := H) word)) t := by
  induction word generalizing p s with
  | nil => exact ⟨s, rfl, hs, hholes⟩
  | cons b word ih =>
    cases s with
    | nil => cases hs
    | cons c s =>
      cases c with
      | inr h => exact absurd hholes.1 hword.1
      | inl a =>
        obtain ⟨ha, hrest⟩ := List.cons.inj hs
        obtain rfl : a = b := Sum.inl.inj ha
        obtain ⟨t, rfl, ht, hholes⟩ := ih hword.2 hrest hholes
        exact ⟨t, rfl, ht, hholes⟩

theorem byte_of_erase {b : UInt8} {s : List (UInt8 ⊕ H)} {e : List (UInt8 ⊕ Empty)} (hs : erase s = .inl b :: e)
    (hholes : HolesAt (· = .inside) .inside s) :
    ∃ (holes : List H) (t : List (UInt8 ⊕ H)), s = holes.map .inr ++ .inl b :: t ∧ erase t = e ∧
      HolesAt (· = .inside) (step .inside b) t := by
  induction s with
  | nil => cases hs
  | cons c s ih =>
    cases c with
    | inl a =>
      obtain ⟨ha, hrest⟩ := List.cons.inj hs
      obtain rfl : a = b := Sum.inl.inj ha
      exact ⟨[], s, rfl, hrest, hholes⟩
    | inr h =>
      obtain ⟨holes, t, rfl, ht, hholes⟩ := ih hs hholes.2
      exact ⟨h :: holes, t, rfl, ht, hholes⟩

theorem IsChars.holes (holes : List H) {units : List (ℕ ⊕ H)} {s : List (UInt8 ⊕ H)} (h : IsChars units s) :
    IsChars (holes.map .inr ++ units) (holes.map .inr ++ s) := by
  induction holes with
  | nil => exact h
  | cons hole holes ih => exact .hole hole ih

theorem erase_holes {α : Type} (holes : List H) (s : List (α ⊕ H)) : erase (holes.map .inr ++ s) = erase s := by
  induction holes with
  | nil => rfl
  | cons hole holes ih => exact ih

theorem chars_of_erase {units : List (ℕ ⊕ Empty)} {chars : List (UInt8 ⊕ Empty)} (h : IsChars units chars)
    {s : List (UInt8 ⊕ H)} {e : List (UInt8 ⊕ Empty)} (hs : erase s = chars ++ .inl 34 :: e)
    (hholes : HolesAt (· = .inside) .inside s) :
    ∃ (units' : List (ℕ ⊕ H)) (chars' t : List (UInt8 ⊕ H)), s = chars' ++ .inl 34 :: t ∧ IsChars units' chars' ∧
      erase units' = units ∧ erase t = e ∧ HolesAt (· = .inside) .outside t := by
  induction h generalizing s with
  | nil =>
    obtain ⟨holes, t, rfl, ht, hholes⟩ := byte_of_erase hs hholes
    have hchars := IsChars.holes holes (IsChars.nil (H := H))
    rw [List.append_nil, List.append_nil] at hchars
    refine ⟨holes.map .inr, holes.map .inr, t, rfl, hchars, ?_, ht, hholes⟩
    have herase := erase_holes holes ([] : List (ℕ ⊕ H))
    rwa [List.append_nil] at herase
  | hole h => exact h.elim
  | @char units bytes more chars hc hmore ih =>
    obtain ⟨b, rest, rfl, hthrough, hscan⟩ := through_char (H := H) hc
    rw [List.append_assoc, plain_cons, List.cons_append] at hs
    obtain ⟨holes, t, rfl, ht, hholes⟩ := byte_of_erase hs hholes
    obtain ⟨t, rfl, ht, hholes⟩ := word_of_erase hthrough ht hholes
    rw [hscan] at hholes
    obtain ⟨units', chars', t, rfl, hchars, hunits, ht, hholes⟩ := ih ht hholes
    refine ⟨holes.map .inr ++ (plain units ++ units'), holes.map .inr ++ (plain (b :: rest) ++ chars'), t, ?_,
      IsChars.holes holes (.char hc hchars), ?_, ht, hholes⟩
    · simp only [plain_cons, List.append_assoc, List.cons_append]
    · rw [erase_holes, erase, subst_append, subst_plain, ← erase, hunits]

theorem lexes_of_erase {tokens : List (Token Empty)} {e : List (UInt8 ⊕ Empty)} (h : Lexes tokens e)
    {s : List (UInt8 ⊕ H)} (hs : erase s = e) (hholes : HolesAt (· = .inside) .outside s) :
    ∃ tokens' : List (Token H), Lexes tokens' s ∧ tokens'.map (Token.fill fun _ => []) = tokens := by
  induction h generalizing s with
  | nil =>
    cases s with
    | nil => exact ⟨[], .nil, rfl⟩
    | cons c s =>
      cases c with
      | inl b => cases hs
      | inr h => exact absurd hholes.1 nofun
  | @ws b tokens e hb _ ih =>
    have hquote : 34 ∉ [b] := by
      rw [List.mem_singleton]
      rintro rfl
      exact absurd hb (by decide)
    obtain ⟨hthrough, hscan⟩ := through_outside (H := H) hquote
    obtain ⟨t, rfl, ht, hholes⟩ := word_of_erase hthrough hs hholes
    rw [hscan] at hholes
    obtain ⟨tokens', hlexes, hmap⟩ := ih ht hholes
    exact ⟨tokens', .ws hb hlexes, hmap⟩
  | @mark b tokens e hb _ ih =>
    have hquote : 34 ∉ [b] := by
      rw [List.mem_singleton]
      rintro rfl
      exact absurd hb (by decide)
    obtain ⟨hthrough, hscan⟩ := through_outside (H := H) hquote
    obtain ⟨t, rfl, ht, hholes⟩ := word_of_erase hthrough hs hholes
    rw [hscan] at hholes
    obtain ⟨tokens', hlexes, hmap⟩ := ih ht hholes
    exact ⟨.mark b :: tokens', .mark hb hlexes, by rw [List.map_cons, hmap]; rfl⟩
  | @literal word tokens e hword _ ih =>
    obtain ⟨hthrough, hscan⟩ := through_outside (H := H) (literal_free hword)
    obtain ⟨t, rfl, ht, hholes⟩ := word_of_erase hthrough hs hholes
    rw [hscan] at hholes
    obtain ⟨tokens', hlexes, hmap⟩ := ih ht hholes
    exact ⟨.literal word :: tokens', .literal hword hlexes, by rw [List.map_cons, hmap]; rfl⟩
  | @string units chars tokens e hchars _ ih =>
    obtain ⟨t, rfl, ht, hholes⟩ := @word_of_erase H .outside [34] ⟨nofun, trivial⟩ _ _ hs hholes
    obtain ⟨units', chars', t, rfl, hchars', hunits, ht, hholes⟩ := chars_of_erase hchars ht hholes
    obtain ⟨tokens', hlexes, hmap⟩ := ih ht hholes
    refine ⟨.string units' :: tokens', .string hchars' hlexes, ?_⟩
    rw [List.map_cons, hmap, Token.fill, ← erase, hunits]

theorem text_of_erase {tokens : List (Token Empty)} {s : List (UInt8 ⊕ H)} (h : IsText tokens (erase s))
    (hholes : HolesAt (· = .inside) .outside s) :
    ∃ tokens' : List (Token H), IsText tokens' s ∧ tokens'.map (Token.fill fun _ => []) = tokens := by
  obtain ⟨tokens', hlexes, rfl⟩ := lexes_of_erase h.1 rfl hholes
  have hkind : Token.kind ∘ Token.fill (K := Empty) (fun _ : H => []) = Token.kind :=
    funext fun t => Token.kind_fill _ t
  have hvalue := h.2
  rw [List.map_map, hkind] at hvalue
  exact ⟨tokens', ⟨hlexes, hvalue⟩, rfl⟩

end PageSpeed.Json
