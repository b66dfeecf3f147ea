import PageSpeed.Packs.EntityDecode

/-!
`EscapeAttributeValue` and `DecodeAttribute` of `kernel/packs/planner_common.cc`.
-/

namespace PageSpeed.Packs

open Utf8 (encode WellFormed IsAscii)
open HtmlKeywords

def escapeAttributeByte (c : UInt8) : GoogleString :=
  if c = 38 then ascii "&amp;"
  else if c = 60 then ascii "&lt;"
  else if c = 62 then ascii "&gt;"
  else if c = 34 then ascii "&quot;"
  else if c = 39 then ascii "&#39;"
  else [c]

def escapeAttributeValue (s : GoogleString) : GoogleString := s.flatMap escapeAttributeByte

def appendUtf8 (cp : ℕ) : GoogleString :=
  (if cp < 0x80 then [cp]
  else if cp < 0x800 then [0xC0 ||| cp >>> 6, 0x80 ||| cp &&& 0x3F]
  else if cp < 0x10000 then [0xE0 ||| cp >>> 12, 0x80 ||| (cp >>> 6) &&& 0x3F, 0x80 ||| cp &&& 0x3F]
  else [0xF0 ||| cp >>> 18, 0x80 ||| (cp >>> 12) &&& 0x3F, 0x80 ||| (cp >>> 6) &&& 0x3F, 0x80 ||| cp &&& 0x3F]).map
    Nat.toUInt8

def numericReference : GoogleString → Option (ℕ × GoogleString)
  | 38 :: 35 :: x :: rest =>
    let hex := decide (x = 120 ∨ x = 88)
    let post := if hex then rest else x :: rest
    let digits := (post.take 8).takeWhile fun d => (digitOf hex d).isSome
    let cp := numeral hex digits
    if digits ≠ [] ∧ (post.drop digits.length).head? = some 59 ∧ 0x20 ≤ cp ∧ cp ≤ 0x10FFFF ∧
        ¬(0xD800 ≤ cp ∧ cp ≤ 0xDFFF) then
      some (cp, post.drop (digits.length + 1))
    else none
  | _ => none

variable {s rest : GoogleString} {c : UInt8} {seg : List Char}

theorem numericReference_length {cp : ℕ} (h : numericReference s = some (cp, rest)) : rest.length < s.length := by
  unfold numericReference at h
  split at h
  · rename_i x post
    dsimp only at h
    split_ifs at h
    all_goals
      obtain ⟨-, rfl⟩ := Prod.mk.inj (Option.some.inj h)
      simp only [List.length_drop, List.length_cons]
      omega
  · cases h

/-- The loop of `DecodeAttribute`, after the bytes `seg` since the last reference. -/
def decodeFrom (seg escaped : GoogleString) : GoogleString :=
  match escaped with
  | [] => safeDecodeHtmlEntities seg
  | c :: rest =>
    match _h : numericReference (c :: rest) with
    | some (cp, rest') => safeDecodeHtmlEntities seg ++ appendUtf8 cp ++ decodeFrom [] rest'
    | none => decodeFrom (seg ++ [c]) rest
termination_by escaped.length
decreasing_by
  · exact numericReference_length _h
  · exact Nat.lt_succ_self _

def decodeAttribute (escaped : GoogleString) : GoogleString := decodeFrom [] escaped

theorem decodeFrom_skip (h : numericReference (c :: rest) = none)
    (seg : GoogleString) : decodeFrom seg (c :: rest) = decodeFrom (seg ++ [c]) rest := by
  conv => lhs; rw [decodeFrom]
  split <;> simp_all

theorem decodeFrom_reference {rest' : GoogleString} {cp : ℕ}
    (h : numericReference (c :: rest) = some (cp, rest')) (seg : GoogleString) :
    decodeFrom seg (c :: rest) = safeDecodeHtmlEntities seg ++ appendUtf8 cp ++ decodeFrom [] rest' := by
  conv => lhs; rw [decodeFrom]
  split <;> simp_all

theorem numericReference_none (h : c = 38 → rest.head? ≠ some 35) : numericReference (c :: rest) = none := by
  unfold numericReference
  split
  · rename_i heq
    obtain ⟨rfl, rfl⟩ := List.cons.inj heq
    exact absurd rfl (h rfl)
  · rfl

theorem decodeFrom_escapeByte (hc : c ≠ 39) (seg rest : GoogleString) :
    decodeFrom seg (escapeAttributeByte c ++ rest) = decodeFrom (seg ++ escapeAttributeByte c) rest := by
  have hword : ∀ (word : GoogleString) (seg : GoogleString), 38 ∉ word →
      decodeFrom seg (word ++ rest) = decodeFrom (seg ++ word) rest := by
    intro word
    induction word with
    | nil => simp
    | cons b word ih =>
      intro seg hamp
      rw [List.mem_cons, not_or] at hamp
      rw [List.cons_append, decodeFrom_skip (numericReference_none fun h => absurd h.symm hamp.1), ih _ hamp.2,
        List.append_assoc, List.singleton_append]
  have hname : ∀ (x : UInt8) (word : GoogleString), x ≠ 35 → 38 ∉ x :: word →
      decodeFrom seg (38 :: (x :: word ++ rest)) = decodeFrom (seg ++ 38 :: x :: word) rest := by
    intro x word hx hamp
    rw [decodeFrom_skip (numericReference_none fun _ => by simpa using hx), hword _ _ hamp, List.append_assoc,
      List.singleton_append]
  unfold escapeAttributeByte
  split_ifs with h₁ h₂ h₃ h₄
  · exact hname 97 _ (by decide) (by decide)
  · exact hname 108 _ (by decide) (by decide)
  · exact hname 103 _ (by decide) (by decide)
  · exact hname 113 _ (by decide) (by decide)
  · exact hword [c] seg (by simpa using Ne.symm h₁)

theorem decodeFrom_escape (hs : 39 ∉ s) (seg rest : GoogleString) :
    decodeFrom seg (escapeAttributeValue s ++ rest) = decodeFrom (seg ++ escapeAttributeValue s) rest := by
  induction s generalizing seg with
  | nil => simp [escapeAttributeValue]
  | cons c s ih =>
    rw [List.mem_cons, not_or] at hs
    rw [escapeAttributeValue, List.flatMap_cons, List.append_assoc, decodeFrom_escapeByte (Ne.symm hs.1)]
    exact (ih hs.2 _).trans (by rw [List.append_assoc]; rfl)

theorem decodeFrom_apostrophe (seg rest : GoogleString) :
    decodeFrom seg (escapeAttributeByte 39 ++ rest) = safeDecodeHtmlEntities seg ++ 39 :: decodeFrom [] rest := by
  have hreference : numericReference (escapeAttributeByte 39 ++ rest) = some (39, rest) := rfl
  refine (decodeFrom_reference hreference seg).trans ?_
  rw [List.append_assoc]
  rfl

theorem unescape_escapeAttributeByte (hc : c < 0x80) (rest : GoogleString) :
    unescape (escapeAttributeByte c ++ rest) = (unescape rest).map (c :: ·) := by
  have hdigits : unescape (38 :: 35 :: ([] ++ ([51, 57] ++ 59 :: rest))) = (unescape rest).map (39 :: ·) :=
    unescape_numeral .decimal (by decide) (List.all_eq_true.mp rfl) (by
      rintro ch ⟨⟩
      rfl)
  unfold escapeAttributeByte
  split_ifs with h₁ h₂ h₃ h₄ h₅
  · exact h₁ ▸ @unescape_named (ascii "amp") 38 (List.all_eq_true.mp rfl) (by decide) rest
  · exact h₂ ▸ @unescape_named (ascii "lt") 60 (List.all_eq_true.mp rfl) (by decide) rest
  · exact h₃ ▸ @unescape_named (ascii "gt") 62 (List.all_eq_true.mp rfl) (by decide) rest
  · exact h₄ ▸ @unescape_named (ascii "quot") 34 (List.all_eq_true.mp rfl) (by decide) rest
  · exact h₅ ▸ hdigits
  · exact unescape_cons h₁ (Nat.le_of_lt_succ hc) rest

theorem unescape_escapeAttribute (hs : ∀ c ∈ s, c < 0x80) : unescape (escapeAttributeValue s) = some s := by
  induction s with
  | nil => rfl
  | cons c s ih =>
    obtain ⟨hc, hs⟩ := List.forall_mem_cons.mp hs
    rw [escapeAttributeValue, List.flatMap_cons, unescape_escapeAttributeByte hc]
    exact congrArg (Option.map (c :: ·)) (ih hs)

def isSpecial (c : Char) : Bool := c = '&' ∨ c = '<' ∨ c = '>' ∨ c = '"'

def Mixed (text : List Char) : Prop := (∃ c ∈ text, ¬IsAscii c) ∧ ∃ c ∈ text, isSpecial c = true

theorem escapeAttributeByte_cases (c : UInt8) : escapeAttributeByte c = [c] ∧ c ∉ ([38, 60, 62, 34, 39] : GoogleString) ∨
    1 < (escapeAttributeByte c).length ∧ 38 ∈ escapeAttributeByte c ∧ c ∈ ([38, 60, 62, 34, 39] : GoogleString) := by
  unfold escapeAttributeByte
  split_ifs with h₁ h₂ h₃ h₄ h₅
  · exact .inr ⟨by decide, by decide, by simp [h₁]⟩
  · exact .inr ⟨by decide, by decide, by simp [h₂]⟩
  · exact .inr ⟨by decide, by decide, by simp [h₃]⟩
  · exact .inr ⟨by decide, by decide, by simp [h₄]⟩
  · exact .inr ⟨by decide, by decide, by simp [h₅]⟩
  · exact .inl ⟨rfl, by simp [h₁, h₂, h₃, h₄, h₅]⟩

theorem length_escapeAttribute (s : GoogleString) : s.length ≤ (escapeAttributeValue s).length ∧
    ((escapeAttributeValue s).length = s.length → ∀ c ∈ s, c ∉ ([38, 60, 62, 34, 39] : GoogleString)) := by
  induction s with
  | nil => exact ⟨Nat.le_refl _, by simp⟩
  | cons c s ih =>
    rw [escapeAttributeValue, List.flatMap_cons, ← escapeAttributeValue, List.length_append, List.length_cons]
    obtain ⟨heq, hplain⟩ | ⟨hlong, -⟩ := escapeAttributeByte_cases c
    · rw [heq, List.length_singleton]
      exact ⟨by omega, fun hlen => List.forall_mem_cons.mpr ⟨hplain, ih.2 (by omega)⟩⟩
    · have hle := ih.1
      exact ⟨by omega, fun hlen => by omega⟩

theorem escapeAttribute_plain (h : ∀ c ∈ s, c ∉ ([38, 60, 62, 34, 39] : GoogleString)) :
    escapeAttributeValue s = s := by
  induction s with
  | nil => rfl
  | cons c s ih =>
    obtain ⟨hc, hs⟩ := List.forall_mem_cons.mp h
    obtain ⟨heq, -⟩ | ⟨-, -, hmem⟩ := escapeAttributeByte_cases c
    · rw [escapeAttributeValue, List.flatMap_cons, heq, ← escapeAttributeValue, ih hs]
      rfl
    · exact absurd hmem hc

theorem exists_special (hquote : '\'' ∉ seg) :
    (∃ c ∈ encode seg, c ∈ ([38, 60, 62, 34, 39] : GoogleString)) ↔ ∃ d ∈ seg, isSpecial d = true := by
  constructor
  · rintro ⟨c, hc, hspecial⟩
    have hlow : c < 0x80 := by
      simp only [List.mem_cons, List.not_mem_nil, or_false] at hspecial
      obtain rfl | rfl | rfl | rfl | rfl := hspecial <;> decide
    obtain ⟨d, hd, hascii, rfl⟩ := (Utf8.mem_encode_ascii hlow).mp hc
    have hd' : d ∈ ['&', '<', '>', '"', '\''] := by
      simp only [List.mem_cons, List.not_mem_nil, or_false] at hspecial ⊢
      exact hspecial.imp (byte_inj hascii (by decide)) (Or.imp (byte_inj hascii (by decide))
        (Or.imp (byte_inj hascii (by decide)) (Or.imp (byte_inj hascii (by decide)) (byte_inj hascii (by decide)))))
    refine ⟨d, hd, ?_⟩
    simp only [List.mem_cons, List.not_mem_nil, or_false] at hd'
    obtain rfl | rfl | rfl | rfl | rfl := hd'
    · rfl
    · rfl
    · rfl
    · rfl
    · exact absurd hd hquote
  · rintro ⟨d, hd, hspecial⟩
    have hd' : d = '&' ∨ d = '<' ∨ d = '>' ∨ d = '"' := by simpa [isSpecial] using hspecial
    have hmem : ∀ b : UInt8, b < 0x80 → IsAscii d → d.toNat.toUInt8 = b → b ∈ encode seg :=
      fun b hb hascii heq => (Utf8.mem_encode_ascii hb).mpr ⟨d, hd, hascii, heq⟩
    obtain rfl | rfl | rfl | rfl := hd'
    · exact ⟨38, hmem 38 (by decide) (by decide) rfl, by decide⟩
    · exact ⟨60, hmem 60 (by decide) (by decide) rfl, by decide⟩
    · exact ⟨62, hmem 62 (by decide) (by decide) rfl, by decide⟩
    · exact ⟨34, hmem 34 (by decide) (by decide) rfl, by decide⟩

theorem safeDecode_plain (hamp : 38 ∉ s) (hs : WellFormed s) : safeDecodeHtmlEntities s = s := by
  obtain ⟨text, rfl⟩ := hs
  rw [safeDecodeHtmlEntities, if_pos hamp, prefixLen_encode, List.take_length]

theorem decode_segment (hquote : '\'' ∉ seg) :
    (encode seg).length ≤ (safeDecodeHtmlEntities (escapeAttributeValue (encode seg))).length ∧
      (safeDecodeHtmlEntities (escapeAttributeValue (encode seg)) = encode seg ↔ ¬Mixed seg) := by
  obtain ⟨hle, hlong⟩ := length_escapeAttribute (encode seg)
  by_cases hspecial : ∃ d ∈ seg, isSpecial d = true
  · obtain ⟨c, hc, hmem⟩ := (exists_special hquote).mpr hspecial
    have hamp : 38 ∈ escapeAttributeValue (encode seg) := by
      obtain ⟨-, hplain⟩ | ⟨-, hamp, -⟩ := escapeAttributeByte_cases c
      · exact absurd hmem hplain
      · exact List.mem_flatMap.mpr ⟨c, hc, hamp⟩
    by_cases hhigh : ∃ e ∈ seg, ¬IsAscii e
    · have hkept : safeDecodeHtmlEntities (escapeAttributeValue (encode seg)) = escapeAttributeValue (encode seg) := by
        obtain ⟨e, he, hhigh⟩ := hhigh
        obtain ⟨b, hb, hlow⟩ := Utf8.exists_high he hhigh
        have hsame : b ∈ escapeAttributeByte b := by
          obtain ⟨heq, -⟩ | ⟨-, -, hmem⟩ := escapeAttributeByte_cases b
          · rw [heq]
            exact List.mem_singleton_self b
          · revert hmem hlow
            simp only [List.mem_cons, List.not_mem_nil, or_false]
            rintro hlow (rfl | rfl | rfl | rfl | rfl) <;> exact absurd hlow (by decide)
        have hnone : unescape (escapeAttributeValue (encode seg)) = none :=
          unescapeLoop_high (Nat.lt_of_lt_of_le (by decide) hlow) _ _ _ (List.mem_flatMap.mpr ⟨b, hb, hsame⟩)
        rw [safeDecodeHtmlEntities, if_neg (not_not.mpr hamp), hnone]
      rw [hkept]
      exact ⟨hle, iff_of_false (fun heq => hlong (congrArg List.length heq) c hc hmem) (not_not.mpr ⟨hhigh, hspecial⟩)⟩
    · have hbytes : ∀ b ∈ encode seg, b < 0x80 := by
        intro b hb
        obtain ⟨e, he, hbe⟩ := List.mem_flatMap.mp hb
        have hascii : IsAscii e := not_not.mp fun h => hhigh ⟨e, he, h⟩
        have hlt : e.toNat < 0x80 := hascii
        rw [Utf8.ascii_encodeChar hascii, List.mem_singleton] at hbe
        rw [hbe, UInt8.lt_iff_toNat_lt, toNat_latin1 (by omega)]
        exact hlt
      have hfold : foldLatin1Nbsp (encode seg) = encode seg := by
        refine (List.map_congr_left fun b hb => if_neg ?_).trans (List.map_id' _)
        rintro rfl
        exact absurd (hbytes _ hb) (by decide)
      have hdecoded : safeDecodeHtmlEntities (escapeAttributeValue (encode seg)) = encode seg := by
        rw [safeDecodeHtmlEntities, if_neg (not_not.mpr hamp), unescape_escapeAttribute hbytes]
        simp only [hfold, (isWellFormedUtf8_iff _).mpr ⟨seg, rfl⟩, if_true]
      rw [hdecoded]
      exact ⟨Nat.le_refl _, iff_of_true rfl fun hmixed => hhigh hmixed.1⟩
  · have hplain : ∀ c ∈ encode seg, c ∉ ([38, 60, 62, 34, 39] : GoogleString) := by
      simpa using mt (exists_special hquote).mp hspecial
    rw [escapeAttribute_plain hplain, safeDecode_plain (fun hmem => hplain 38 hmem (by simp)) ⟨seg, rfl⟩]
    exact ⟨Nat.le_refl _, iff_of_true rfl fun hmixed => hspecial hmixed.2⟩

theorem quote_mem_encode (hquote : '\'' ∉ seg) : 39 ∉ encode seg := by
  intro hmem
  obtain ⟨c, hc, hascii, heq⟩ := (Utf8.mem_encode_ascii (by decide)).mp hmem
  rw [byte_inj hascii (by decide : IsAscii '\'') heq] at hc
  exact hquote hc

theorem decodeAttribute_segment (hquote : '\'' ∉ seg) :
    decodeAttribute (escapeAttributeValue (encode seg)) =
      safeDecodeHtmlEntities (escapeAttributeValue (encode seg)) := by
  have hread := decodeFrom_escape (quote_mem_encode hquote) [] []
  rw [List.append_nil, List.nil_append] at hread
  rw [decodeAttribute, hread, decodeFrom]

theorem decodeAttribute_quote (hquote : '\'' ∉ seg) (rest : List Char) :
    decodeAttribute (escapeAttributeValue (encode (seg ++ '\'' :: rest))) =
      safeDecodeHtmlEntities (escapeAttributeValue (encode seg)) ++
        39 :: decodeAttribute (escapeAttributeValue (encode rest)) := by
  have hsplit : escapeAttributeValue (encode (seg ++ '\'' :: rest)) =
      escapeAttributeValue (encode seg) ++ (escapeAttributeByte 39 ++ escapeAttributeValue (encode rest)) := by
    rw [Utf8.encode_append, Utf8.encode_cons, Utf8.ascii_encodeChar (by decide), escapeAttributeValue,
      List.flatMap_append, List.singleton_append, List.flatMap_cons]
    rfl
  rw [decodeAttribute, hsplit, decodeFrom_escape (quote_mem_encode hquote), List.nil_append, decodeFrom_apostrophe]
  rfl

theorem infix_of_split {a b : List Char} {x : Char} (h : seg <:+: a ++ x :: b) (hx : x ∉ seg) :
    seg <:+: a ∨ seg <:+: b := by
  obtain h | h | ⟨l, r, rfl, hl, hr⟩ := List.infix_append_iff.mp h
  · exact .inl h
  · obtain h | h := List.infix_cons_iff.mp h
    · cases seg with
      | nil => exact .inr (List.nil_infix)
      | cons c seg =>
        obtain ⟨t, ht⟩ := h
        exact absurd (List.cons.inj ht).1.symm (fun heq => hx (by simp [heq]))
    · exact .inr h
  · cases r with
    | nil => exact .inl (by simpa using hl.isInfix)
    | cons c r =>
      obtain ⟨t, ht⟩ := hr
      exact absurd (List.cons.inj ht).1.symm (fun heq => hx (by simp [heq]))

theorem Mixed.mono {part text : List Char} (h : part ⊆ text) : Mixed part → Mixed text := by
  rintro ⟨⟨c, hc, hhigh⟩, d, hd, hspecial⟩
  exact ⟨⟨c, h hc, hhigh⟩, d, h hd, hspecial⟩

theorem decodeAttribute_escape (n : ℕ) : ∀ text : List Char, text.length = n →
    (encode text).length ≤ (decodeAttribute (escapeAttributeValue (encode text))).length ∧
      (decodeAttribute (escapeAttributeValue (encode text)) = encode text ↔
        ∀ seg, seg <:+: text → '\'' ∉ seg → ¬Mixed seg) := by
  induction n using Nat.strongRecOn with
  | ind n ih =>
    intro text hn
    by_cases hquote : '\'' ∈ text
    · obtain ⟨seg, rest, rfl, hseg⟩ := List.eq_append_cons_of_mem hquote
      obtain ⟨hle, heq⟩ := decode_segment hseg
      obtain ⟨hle', heq'⟩ := ih rest.length (by simp only [List.length_append, List.length_cons] at hn; omega) rest rfl
      have hencode : encode (seg ++ '\'' :: rest) = encode seg ++ 39 :: encode rest := by
        rw [Utf8.encode_append, Utf8.encode_cons, Utf8.ascii_encodeChar (by decide)]
        rfl
      rw [decodeAttribute_quote hseg, hencode]
      refine ⟨by simp only [List.length_append, List.length_cons]; omega, ?_⟩
      constructor
      · intro hsame
        have hlens := congrArg List.length hsame
        simp only [List.length_append, List.length_cons] at hlens
        obtain ⟨hleft, hright⟩ := List.append_inj hsame (by omega)
        have hrest := heq'.mp (List.cons.inj hright).2
        have hmixed := heq.mp hleft
        intro part hpart hfree
        obtain hpart | hpart := infix_of_split hpart hfree
        · exact fun h => hmixed (h.mono hpart.subset)
        · exact hrest part hpart hfree
      · intro hall
        have hleft := heq.mpr (hall seg (List.prefix_append seg _).isInfix hseg)
        have hright := heq'.mpr fun part hpart =>
          hall part (hpart.trans ((List.suffix_cons _ rest).trans (List.suffix_append seg _)).isInfix)
        rw [hleft, hright]
    · obtain ⟨hle, heq⟩ := decode_segment hquote
      rw [decodeAttribute_segment hquote]
      exact ⟨hle, heq.trans ⟨fun hmixed part hpart _ h => hmixed (h.mono hpart.subset),
        fun hall => hall text (List.infix_refl text) hquote⟩⟩

/-- An attribute value comes back from the page just if no stretch of it between apostrophes has both a character
that is not of ASCII and one of `&`, `<`, `>` and `"`. -/
theorem decodeAttribute_escapeAttributeValue (text : List Char) :
    decodeAttribute (escapeAttributeValue (encode text)) = encode text ↔
      ∀ seg, seg <:+: text → '\'' ∉ seg → ¬Mixed seg :=
  (decodeAttribute_escape _ text rfl).2

theorem accent_and_ampersand_stay_escaped :
    encode [Char.ofNat 0xE9, '&'] = [0xC3, 0xA9, 38] ∧
      decodeAttribute (escapeAttributeValue [0xC3, 0xA9, 38]) ≠ [0xC3, 0xA9, 38] := by
  have hencode : encode [Char.ofNat 0xE9, '&'] = [0xC3, 0xA9, 38] := by decide
  have hquote : '\'' ∉ [Char.ofNat 0xE9, '&'] := by decide
  have hmixed : Mixed [Char.ofNat 0xE9, '&'] :=
    ⟨⟨Char.ofNat 0xE9, by decide, by decide⟩, '&', by decide, by decide⟩
  refine ⟨hencode, ?_⟩
  rw [← hencode, decodeAttribute_segment hquote]
  exact fun h => (decode_segment hquote).2.mp h hmixed

end PageSpeed.Packs
