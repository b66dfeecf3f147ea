import PageSpeed.Packs.EntityDecode

/-!
`kernel/packs/planner_common.cc` and `kernel/base/escaping.cc`: two more readers of UTF-8, the one that
replaces what is no text and the one of the JSON escaper, against the scan of `entity_decode.cc`.
-/

namespace PageSpeed.Packs

open Utf8 (encode WellFormed IsAscii)

def replacement : GoogleString := [0xEF, 0xBF, 0xBD]

def announced (c : UInt8) : ℕ × ℕ × ℕ :=
  if 0xC2 ≤ c ∧ c ≤ 0xDF then (2, (c &&& 0x1F).toNat, 0x80)
  else if 0xE0 ≤ c ∧ c ≤ 0xEF then (3, (c &&& 0x0F).toNat, 0x800)
  else if 0xF0 ≤ c ∧ c ≤ 0xF4 then (4, (c &&& 0x07).toNat, 0x10000)
  else (0, 0, 0)

/-- The length of the sequence of `c` and of what is after it in `rest`, when it is kept. -/
def keptLen (c : UInt8) (rest : GoogleString) : Option ℕ :=
  match announced c with
  | (len, lead, min) =>
    if len = 0 ∨ rest.length + 1 < len then none
    else do
      let cp ← (rest.take (len - 1)).foldlM addByte lead
      if min ≤ cp ∧ cp ≤ 0x10FFFF ∧ ¬(0xD800 ≤ cp ∧ cp ≤ 0xDFFF) then some len else none

def replaceInvalidUtf8 : GoogleString → GoogleString
  | [] => []
  | c :: rest =>
    if c < 0x80 then c :: replaceInvalidUtf8 rest
    else match keptLen c rest with
      | some len => c :: rest.take (len - 1) ++ replaceInvalidUtf8 (rest.drop (len - 1))
      | none => replacement ++ replaceInvalidUtf8 rest
termination_by s => s.length

def secondRange (lead : UInt8) : Option (ℕ × UInt8 × UInt8) :=
  if 0xC2 ≤ lead ∧ lead ≤ 0xDF then some (2, 0x80, 0xBF)
  else if lead = 0xE0 then some (3, 0xA0, 0xBF)
  else if lead = 0xED then some (3, 0x80, 0x9F)
  else if 0xE1 ≤ lead ∧ lead ≤ 0xEF then some (3, 0x80, 0xBF)
  else if lead = 0xF0 then some (4, 0x90, 0xBF)
  else if 0xF1 ≤ lead ∧ lead ≤ 0xF3 then some (4, 0x80, 0xBF)
  else if lead = 0xF4 then some (4, 0x80, 0x8F)
  else none

def utf8SequenceLengthIfValid : GoogleString → ℕ
  | [] => 0
  | lead :: rest =>
    match secondRange lead with
    | none => 0
    | some (length, minSecond, maxSecond) =>
      if rest.length + 1 < length then 0
      else match rest with
        | [] => 0
        | second :: more =>
          if second < minSecond ∨ maxSecond < second then 0
          else if (more.take (length - 2)).all fun c => 0x80 ≤ c ∧ c ≤ 0xBF then length
          else 0

def hexDigit (n : ℕ) : UInt8 := if n < 10 then UInt8.ofNat (48 + n) else UInt8.ofNat (87 + n)

/-- `\u00xx` of a byte. -/
def escapedByte (code : UInt8) : GoogleString :=
  [92, 117, 48, 48, hexDigit (code.toNat / 16), hexDigit (code.toNat % 16)]

def escapedJson : GoogleString → GoogleString
  | [] => []
  | code :: rest =>
    if code ≤ 0x1F ∨ code = 60 ∨ code = 62 ∨ code = 34 ∨ code = 92 then escapedByte code ++ escapedJson rest
    else if code < 0x80 then code :: escapedJson rest
    else if 0 < utf8SequenceLengthIfValid (code :: rest) then
      code :: rest.take (utf8SequenceLengthIfValid (code :: rest) - 1) ++
        escapedJson (rest.drop (utf8SequenceLengthIfValid (code :: rest) - 1))
    else escapedByte code ++ escapedJson rest
termination_by s => s.length

def escapeToJsonStringLiteral (original : GoogleString) (addQuotes : Bool) (escaped : GoogleString) : GoogleString :=
  escaped ++ (if addQuotes then [34] else []) ++ escapedJson original ++ if addQuotes then [34] else []

def Complete (cont lead : ℕ) (rest : GoogleString) : Prop :=
  cont ≤ rest.length ∧ (∀ b ∈ rest.take cont, b.toNat / 64 = 2) ∧
    isOverlong cont (codeOf lead (rest.take cont)) = false ∧
    (codeOf lead (rest.take cont) < 0xD800 ∨
      0xDFFF < codeOf lead (rest.take cont) ∧ codeOf lead (rest.take cont) < 0x110000)

variable {c : UInt8} {cont lead : ℕ} {s : GoogleString}

theorem sequenceLen_lead (hlead : leadByte c = some (cont, lead)) (rest : GoogleString)
    (n : ℕ) : sequenceLen (c :: rest) = some n ↔ n = cont + 1 ∧ Complete cont lead rest := by
  by_cases hlen : cont ≤ rest.length
  · have htake : (rest.take cont).length = cont := by rw [List.length_take, Nat.min_eq_left hlen]
    conv => lhs; rw [← List.take_append_drop cont rest, sequenceLen_high hlead htake]
    rw [Option.ite_none_right_eq_some, all_cont, Complete, Option.some.injEq]
    tauto
  · have hhigh : ¬c < 0x80 := by
      intro hlt
      have hlt' : c.toNat < 0x80 := hlt
      rw [leadByte_eq, if_neg (by omega), if_neg (by omega), if_neg (by omega)] at hlead
      cases hlead
    rw [sequenceLen, if_neg hhigh, hlead, Complete]
    simp [hlen, Nat.lt_of_not_le hlen]

theorem announced_eq (c : UInt8) : announced c =
    if 0xC2 ≤ c.toNat ∧ c.toNat ≤ 0xDF then (2, c.toNat % 32, 0x80)
    else if 0xE0 ≤ c.toNat ∧ c.toNat ≤ 0xEF then (3, c.toNat % 16, 0x800)
    else if 0xF0 ≤ c.toNat ∧ c.toNat ≤ 0xF4 then (4, c.toNat % 8, 0x10000)
    else (0, 0, 0) := by
  have hall : ∀ n < 256, announced (UInt8.ofNat n) =
      if 0xC2 ≤ n ∧ n ≤ 0xDF then (2, n % 32, 0x80)
      else if 0xE0 ≤ n ∧ n ≤ 0xEF then (3, n % 16, 0x800)
      else if 0xF0 ≤ n ∧ n ≤ 0xF4 then (4, n % 8, 0x10000)
      else (0, 0, 0) := by decide +kernel
  simpa using hall c.toNat c.toNat_lt

theorem addBytes_codeOf (rest : GoogleString) (lead : ℕ) : rest.foldlM addByte lead =
    if rest.all (·.toNat / 64 = 2) then some (codeOf lead rest) else none :=
  addBytes_eq rest lead

theorem keptLen_announced {min : ℕ} (h : announced c = (cont + 1, lead, min))
    (hmin : ∀ cp, isOverlong cont cp = false ↔ min ≤ cp) (rest : GoogleString) (n : ℕ) :
    keptLen c rest = some n ↔ n = cont + 1 ∧ Complete cont lead rest := by
  rw [keptLen, h]
  by_cases hlen : cont ≤ rest.length
  · have hcond : ¬(cont + 1 = 0 ∨ rest.length + 1 < cont + 1) := by omega
    simp only [hcond, if_false, Nat.add_sub_cancel, addBytes_codeOf, Complete, hmin]
    by_cases hcont : ∀ b ∈ rest.take cont, b.toNat / 64 = 2
    · rw [if_pos (all_cont.mpr hcont)]
      simp only [Option.bind_eq_bind, Option.bind_some, Option.ite_none_right_eq_some, Option.some.injEq]
      constructor
      · rintro ⟨hvalid, rfl⟩
        exact ⟨rfl, hlen, hcont, hvalid.1, by omega⟩
      · rintro ⟨rfl, -, -, hlow, hvalid⟩
        exact ⟨⟨hlow, by omega, by omega⟩, rfl⟩
    · rw [if_neg fun h => hcont (all_cont.mp h)]
      simp [hcont]
  · simp [Complete, hlen, Nat.lt_of_not_le hlen]

theorem sequenceLen_none (hhigh : ¬c < 0x80) (hlead : leadByte c = none) (rest : GoogleString) :
    sequenceLen (c :: rest) = none := by
  rw [sequenceLen, if_neg hhigh, hlead]
  rfl

theorem codeOf_bounds (more : GoogleString) (x : ℕ) :
    x * 64 ^ more.length ≤ codeOf x more ∧ codeOf x more < (x + 1) * 64 ^ more.length := by
  induction more generalizing x with
  | nil => simp [codeOf]
  | cons b more ih =>
    have hcode : codeOf x (b :: more) = codeOf (x * 64 + b.toNat % 64) more := rfl
    obtain ⟨hlow, hhigh⟩ := ih (x * 64 + b.toNat % 64)
    have hbits : x * 64 + b.toNat % 64 + 1 ≤ (x + 1) * 64 := by omega
    rw [hcode, List.length_cons, Nat.pow_succ, Nat.mul_comm (64 ^ more.length), ← Nat.mul_assoc, ← Nat.mul_assoc]
    exact ⟨(Nat.mul_le_mul_right _ (Nat.le_add_right _ _)).trans hlow,
      hhigh.trans_le (Nat.mul_le_mul_right _ hbits)⟩

theorem not_complete_low (h : lead < 2) (rest : GoogleString) : ¬Complete 1 lead rest := by
  rintro ⟨hlen, -, hshort, -⟩
  obtain ⟨b, rest, rfl⟩ := List.exists_cons_of_length_pos hlen
  simp [isOverlong, codeOf] at hshort
  omega

theorem not_complete_high (h : 5 ≤ lead) (rest : GoogleString) : ¬Complete 3 lead rest := by
  rintro ⟨hlen, -, -, hvalid⟩
  have hlow : lead * 64 ^ 3 ≤ codeOf lead (rest.take 3) := by
    have hbound := (codeOf_bounds (rest.take 3) lead).1
    rwa [List.length_take, Nat.min_eq_left hlen] at hbound
  omega

theorem keptLen_eq (hhigh : ¬c < 0x80) (rest : GoogleString) : keptLen c rest = sequenceLen (c :: rest) := by
  have hc : ¬c.toNat < 0x80 := hhigh
  have hlt := c.toNat_lt
  apply Option.ext
  intro n
  by_cases h₂ : 0xC2 ≤ c.toNat ∧ c.toNat ≤ 0xDF
  · rw [sequenceLen_lead (by rw [leadByte_eq, if_pos (by omega)]),
      keptLen_announced (by rw [announced_eq, if_pos h₂]) (by simp [isOverlong])]
  by_cases h₃ : 0xE0 ≤ c.toNat ∧ c.toNat ≤ 0xEF
  · rw [sequenceLen_lead (by rw [leadByte_eq, if_neg (by omega), if_pos (by omega)]),
      keptLen_announced (by rw [announced_eq, if_neg h₂, if_pos h₃]) (by simp [isOverlong])]
  by_cases h₄ : 0xF0 ≤ c.toNat ∧ c.toNat ≤ 0xF4
  · rw [sequenceLen_lead (by rw [leadByte_eq, if_neg (by omega), if_neg (by omega), if_pos (by omega)]),
      keptLen_announced (by rw [announced_eq, if_neg h₂, if_neg h₃, if_pos h₄]) (by simp [isOverlong])]
  have hnone : keptLen c rest = none := by
    rw [keptLen, announced_eq, if_neg h₂, if_neg h₃, if_neg h₄]
    rfl
  rw [hnone]
  by_cases hlow : c.toNat / 32 = 6
  · rw [sequenceLen_lead (by rw [leadByte_eq, if_pos hlow])]
    have hnot : ¬Complete 1 (c.toNat % 32) rest := not_complete_low (by omega) rest
    simp [hnot]
  by_cases htop : c.toNat / 8 = 30
  · rw [sequenceLen_lead (by rw [leadByte_eq, if_neg hlow, if_neg (by omega), if_pos htop])]
    have hnot : ¬Complete 3 (c.toNat % 8) rest := not_complete_high (by omega) rest
    simp [hnot]
  · rw [sequenceLen_none hhigh (by rw [leadByte_eq, if_neg hlow, if_neg (by omega), if_neg htop])]

/-- What the second byte must hold with the bits before it, when `cont` more follow. -/
def SecondFits (cont x : ℕ) : Prop :=
  isOverlong (cont + 1) (x * 64 ^ cont) = false ∧ (x * 64 ^ cont < 0xD800 ∨ 0xE000 ≤ x * 64 ^ cont ∧ x * 64 ^ cont < 0x110000)

theorem complete_cons (hcont : cont < 3) (bits : ℕ) (second : UInt8) (more : GoogleString) :
    Complete (cont + 1) bits (second :: more) ↔
      cont ≤ more.length ∧ (second.toNat / 64 = 2 ∧ SecondFits cont (bits * 64 + second.toNat % 64)) ∧
        ∀ b ∈ more.take cont, b.toNat / 64 = 2 := by
  have hcode : codeOf bits (second :: more.take cont) = codeOf (bits * 64 + second.toNat % 64) (more.take cont) := rfl
  simp only [Complete, List.take_succ_cons, List.length_cons, List.forall_mem_cons, hcode, Nat.add_le_add_iff_right]
  by_cases hlen : cont ≤ more.length
  · have hbounds := codeOf_bounds (more.take cont) (bits * 64 + second.toNat % 64)
    rw [List.length_take, Nat.min_eq_left hlen] at hbounds
    generalize codeOf (bits * 64 + second.toNat % 64) (more.take cont) = code at hbounds
    generalize bits * 64 + second.toNat % 64 = x at hbounds
    have hfits : isOverlong (cont + 1) code = false ∧ (code < 0xD800 ∨ 0xDFFF < code ∧ code < 0x110000) ↔
        SecondFits cont x := by
      unfold SecondFits isOverlong
      obtain rfl | rfl | rfl : cont = 0 ∨ cont = 1 ∨ cont = 2 := by omega
      all_goals
        simp
        omega
    rw [hfits]
    tauto
  · simp [hlen]

theorem lengthIfValid_range {lead : UInt8} {lo hi : UInt8} (h : secondRange lead = some (cont + 2, lo, hi))
    (second : UInt8) (more : GoogleString) (n : ℕ) :
    utf8SequenceLengthIfValid (lead :: second :: more) = n + 1 ↔
      n = cont + 1 ∧ cont ≤ more.length ∧ (lo ≤ second ∧ second ≤ hi) ∧ ∀ b ∈ more.take cont, b.toNat / 64 = 2 := by
  have hall : ((more.take (cont + 2 - 2)).all fun c => 0x80 ≤ c ∧ c ≤ 0xBF) = true ↔
      ∀ b ∈ more.take cont, b.toNat / 64 = 2 := by
    rw [Nat.add_sub_cancel, List.all_eq_true]
    refine forall₂_congr fun b _ => ?_
    simp only [decide_eq_true_eq, UInt8.le_iff_toNat_le]
    have hb := b.toNat_lt
    change 128 ≤ b.toNat ∧ b.toNat ≤ 191 ↔ _
    omega
  rw [utf8SequenceLengthIfValid, h]
  simp only [List.length_cons, ← UInt8.not_le, hall]
  split_ifs <;> grind

theorem secondRange_eq (lead : UInt8) : secondRange lead =
    if 0xC2 ≤ lead.toNat ∧ lead.toNat ≤ 0xDF then some (2, 0x80, 0xBF)
    else if lead.toNat = 0xE0 then some (3, 0xA0, 0xBF)
    else if lead.toNat = 0xED then some (3, 0x80, 0x9F)
    else if 0xE1 ≤ lead.toNat ∧ lead.toNat ≤ 0xEF then some (3, 0x80, 0xBF)
    else if lead.toNat = 0xF0 then some (4, 0x90, 0xBF)
    else if 0xF1 ≤ lead.toNat ∧ lead.toNat ≤ 0xF3 then some (4, 0x80, 0xBF)
    else if lead.toNat = 0xF4 then some (4, 0x80, 0x8F)
    else none := by
  simp only [secondRange, UInt8.le_iff_toNat_le, ← UInt8.toNat_inj]
  rfl

theorem byte_range {lo hi : ℕ} (second : UInt8) (hlo : lo < 256) (hhi : hi < 256) :
    (UInt8.ofNat lo ≤ second ∧ second ≤ UInt8.ofNat hi) ↔ lo ≤ second.toNat ∧ second.toNat ≤ hi := by
  rw [UInt8.le_iff_toNat_le, UInt8.le_iff_toNat_le, toNat_ofNat hlo, toNat_ofNat hhi]

theorem fits_of_secondRange {lead : UInt8} {len : ℕ} {lo hi : UInt8} (h : secondRange lead = some (len, lo, hi)) :
    ∃ cont bits, len = cont + 2 ∧ cont < 3 ∧ leadByte lead = some (cont + 1, bits) ∧ ∀ second : UInt8,
      (lo ≤ second ∧ second ≤ hi ↔ second.toNat / 64 = 2 ∧ SecondFits cont (bits * 64 + second.toNat % 64)) := by
  rw [secondRange_eq] at h
  rw [leadByte_eq]
  split_ifs at h <;> cases h
  · refine ⟨0, lead.toNat % 32, rfl, by omega, by rw [if_pos (by omega)], fun second => ?_⟩
    refine (byte_range second (by decide) (by decide)).trans ?_
    simp [SecondFits, isOverlong]
    omega
  iterate 3
    refine ⟨1, lead.toNat % 16, rfl, by omega, by rw [if_neg (by omega), if_pos (by omega)], fun second => ?_⟩
    refine (byte_range second (by decide) (by decide)).trans ?_
    simp [SecondFits, isOverlong]
    omega
  iterate 3
    refine ⟨2, lead.toNat % 8, rfl, by omega, by rw [if_neg (by omega), if_neg (by omega), if_pos (by omega)],
      fun second => ?_⟩
    refine (byte_range second (by decide) (by decide)).trans ?_
    simp [SecondFits, isOverlong]
    omega

theorem not_complete_of_secondRange {lead : UInt8} (h : secondRange lead = none) {bits : ℕ}
    (hlead : leadByte lead = some (cont, bits)) (rest : GoogleString) : ¬Complete cont bits rest := by
  have hlt := lead.toNat_lt
  rw [secondRange_eq] at h
  rw [leadByte_eq] at hlead
  by_cases htwo : lead.toNat / 32 = 6
  · rw [if_pos htwo] at hlead
    cases hlead
    refine not_complete_low ?_ rest
    grind
  rw [if_neg htwo] at hlead
  by_cases hthree : lead.toNat / 16 = 14
  · grind
  rw [if_neg hthree] at hlead
  split_ifs at hlead with hfour
  cases hlead
  refine not_complete_high ?_ rest
  grind

theorem high_of_leadByte (h : leadByte c = some (cont, lead)) : ¬c < 0x80 := by
  intro hlt
  have hlt' : c.toNat < 0x80 := hlt
  rw [leadByte_eq, if_neg (by omega), if_neg (by omega), if_neg (by omega)] at h
  cases h

theorem lengthIfValid_iff (lead : UInt8) (rest : GoogleString) (n : ℕ) :
    utf8SequenceLengthIfValid (lead :: rest) = n + 1 ↔
      ¬lead < 0x80 ∧ sequenceLen (lead :: rest) = some (n + 1) := by
  cases hrange : secondRange lead with
  | none =>
    have hzero : utf8SequenceLengthIfValid (lead :: rest) = 0 := by simp only [utf8SequenceLengthIfValid, hrange]
    rw [hzero]
    refine ⟨nofun, fun ⟨hhigh, hseq⟩ => ?_⟩
    cases hlead : leadByte lead with
    | none =>
      rw [sequenceLen_none hhigh hlead] at hseq
      cases hseq
    | some pair =>
      exact absurd ((sequenceLen_lead hlead rest _).mp hseq).2 (not_complete_of_secondRange hrange hlead rest)
  | some range =>
    obtain ⟨len, lo, hi⟩ := range
    obtain ⟨cont, bits, rfl, hcont, hlead, hfits⟩ := fits_of_secondRange hrange
    rw [sequenceLen_lead hlead rest]
    cases rest with
    | nil => simp [utf8SequenceLengthIfValid, hrange, Complete]
    | cons second more =>
      rw [lengthIfValid_range hrange, complete_cons hcont, hfits second]
      have hhigh := high_of_leadByte hlead
      simp [hhigh]

theorem lengthIfValid_encodeChar (s : GoogleString) (n : ℕ) :
    n ≠ 0 ∧ utf8SequenceLengthIfValid s = n ↔
      ∃ c rest, ¬IsAscii c ∧ s = String.utf8EncodeChar c ++ rest ∧ n = (String.utf8EncodeChar c).length := by
  constructor
  · rintro ⟨hn, heq⟩
    obtain ⟨n, rfl⟩ := Nat.exists_eq_succ_of_ne_zero hn
    cases s with
    | nil => cases heq
    | cons lead rest =>
      obtain ⟨hhigh, hseq⟩ := (lengthIfValid_iff lead rest n).mp heq
      obtain ⟨c, tail, hs, hlen⟩ := exists_char_of_sequenceLen hseq
      refine ⟨c, tail, fun hascii => ?_, hs, hlen⟩
      rw [Utf8.ascii_encodeChar hascii] at hs
      obtain ⟨rfl, -⟩ := List.cons.inj hs
      refine hhigh ?_
      have hlt : c.toNat < 0x80 := hascii
      change c.toNat.toUInt8.toNat < 0x80
      rwa [toNat_latin1 (by omega)]
  · rintro ⟨c, rest, hc, rfl, rfl⟩
    have hpos := Utf8.encodeChar_length_pos c
    have hseq := sequenceLen_encodeChar c rest
    obtain ⟨n, hn⟩ := Nat.exists_eq_succ_of_ne_zero hpos.ne'
    obtain ⟨a, more, lead, heq, hlead⟩ := encodeChar_sequence hc
    rw [hn] at hseq ⊢
    rw [heq, List.cons_append] at hseq ⊢
    exact ⟨n.succ_ne_zero, (lengthIfValid_iff a (more ++ rest) n).mpr ⟨high_of_leadByte hlead.leads, hseq⟩⟩

theorem wellFormed_nil : WellFormed [] := ⟨[], rfl⟩

theorem wellFormed_append {t : GoogleString} (hs : WellFormed s) (ht : WellFormed t) : WellFormed (s ++ t) := by
  obtain ⟨text, rfl⟩ := hs
  obtain ⟨others, rfl⟩ := ht
  exact ⟨text ++ others, (Utf8.encode_append text others).symm⟩

theorem wellFormed_encodeChar (c : Char) : WellFormed (String.utf8EncodeChar c) :=
  ⟨[c], by rw [Utf8.encode_cons, Utf8.encode_nil, List.append_nil]⟩

theorem wellFormed_cons {b : UInt8} (hb : b < 0x80) (h : WellFormed s) : WellFormed (b :: s) :=
  (Utf8.wellFormed_split hb [] s).mpr ⟨wellFormed_nil, h⟩

theorem wellFormed_ascii (h : s.all (· < 0x80) = true) : WellFormed s := by
  induction s with
  | nil => exact wellFormed_nil
  | cons b s ih =>
    simp only [List.all_cons, Bool.and_eq_true, decide_eq_true_eq] at h
    exact wellFormed_cons h.1 (ih h.2)

theorem replacement_wellFormed : WellFormed replacement := ⟨[Char.ofNat 0xFFFD], rfl⟩

theorem split_of_sequenceLen {rest : GoogleString} {len : ℕ} (h : sequenceLen (c :: rest) = some len) :
    ∃ d, c :: rest.take (len - 1) = String.utf8EncodeChar d := by
  obtain ⟨d, tail, heq, rfl⟩ := exists_char_of_sequenceLen h
  have hpos := Utf8.encodeChar_length_pos d
  refine ⟨d, ?_⟩
  rw [← List.take_succ_cons, Nat.sub_add_cancel hpos, heq, List.take_left]

theorem replaceInvalidUtf8_wellFormed (s : GoogleString) : WellFormed (replaceInvalidUtf8 s) := by
  induction s using replaceInvalidUtf8.induct with
  | case1 =>
    rw [replaceInvalidUtf8]
    exact wellFormed_nil
  | case2 c rest hc ih =>
    rw [replaceInvalidUtf8, if_pos hc]
    exact wellFormed_cons hc ih
  | case3 c rest hc len hlen ih =>
    rw [replaceInvalidUtf8, if_neg hc, hlen]
    rw [keptLen_eq hc] at hlen
    obtain ⟨d, hd⟩ := split_of_sequenceLen hlen
    change WellFormed (c :: rest.take (len - 1) ++ _)
    rw [hd]
    exact wellFormed_append (wellFormed_encodeChar d) ih
  | case4 c rest hc hlen ih =>
    rw [replaceInvalidUtf8, if_neg hc, hlen]
    exact wellFormed_append replacement_wellFormed ih

theorem replaceInvalidUtf8_encode (text : List Char) : replaceInvalidUtf8 (encode text) = encode text := by
  induction text with
  | nil => simp [replaceInvalidUtf8]
  | cons c text ih =>
    rw [Utf8.encode_cons]
    have hseq := sequenceLen_encodeChar c (encode text)
    by_cases hc : IsAscii c
    · rw [Utf8.ascii_encodeChar hc, List.singleton_append, replaceInvalidUtf8, if_pos ?_, ih]
      have hlt : c.toNat < 0x80 := hc
      change c.toNat.toUInt8.toNat < 0x80
      rwa [toNat_latin1 (by omega)]
    · obtain ⟨a, more, lead, heq, hlead⟩ := encodeChar_sequence hc
      have hhigh := high_of_leadByte hlead.leads
      rw [heq, List.cons_append, ← keptLen_eq hhigh] at hseq
      rw [heq, List.cons_append, replaceInvalidUtf8, if_neg hhigh, hseq]
      simp [ih]

theorem hexDigit_ascii {n : ℕ} (h : n < 16) : hexDigit n < 0x80 := by
  have hall : ∀ n < 16, hexDigit n < 0x80 := by decide
  exact hall n h

theorem escapedByte_wellFormed (code : UInt8) : WellFormed (escapedByte code) := by
  have hlt := code.toNat_lt
  refine wellFormed_ascii ?_
  simp [escapedByte, hexDigit_ascii (n := code.toNat / 16) (by omega), hexDigit_ascii (Nat.mod_lt code.toNat (by decide : 0 < 16))]

theorem escapedJson_wellFormed (s : GoogleString) : WellFormed (escapedJson s) := by
  induction s using escapedJson.induct with
  | case1 =>
    rw [escapedJson]
    exact wellFormed_nil
  | case2 code rest hcode ih =>
    rw [escapedJson, if_pos hcode]
    exact wellFormed_append (escapedByte_wellFormed code) ih
  | case3 code rest hcode hlow ih =>
    rw [escapedJson, if_neg hcode, if_pos hlow]
    exact wellFormed_cons hlow ih
  | case4 code rest hcode hlow hlen ih =>
    rw [escapedJson, if_neg hcode, if_neg hlow, if_pos hlen]
    obtain ⟨n, hn⟩ := Nat.exists_eq_succ_of_ne_zero hlen.ne'
    obtain ⟨d, hd⟩ := split_of_sequenceLen ((lengthIfValid_iff code rest n).mp hn).2
    rw [hn]
    rw [hn] at ih
    rw [hd]
    exact wellFormed_append (wellFormed_encodeChar d) ih
  | case5 code rest hcode hlow hlen ih =>
    rw [escapedJson, if_neg hcode, if_neg hlow, if_neg hlen]
    exact wellFormed_append (escapedByte_wellFormed code) ih

/-- The readers agree: on texts, on what stands for a character above ASCII, and in what they write. -/
theorem utf8_validators_agree (s : GoogleString) :
    isWellFormedUtf8 (replaceInvalidUtf8 s) = true ∧
    (replaceInvalidUtf8 s = s ↔ isWellFormedUtf8 s = true) ∧
    (isWellFormedUtf8 s = true ↔ ∃ text : List Char, s = text.flatMap String.utf8EncodeChar) ∧
    (∀ n, n ≠ 0 ∧ utf8SequenceLengthIfValid s = n ↔
      ∃ c rest, ¬IsAscii c ∧ s = String.utf8EncodeChar c ++ rest ∧ n = (String.utf8EncodeChar c).length) ∧
    (∀ n, n ≠ 0 ∧ utf8SequenceLengthIfValid s = n ↔ 1 < n ∧ sequenceLen s = some n) ∧
    ∀ addQuotes escaped, ∃ literal,
      escapeToJsonStringLiteral s addQuotes escaped = escaped ++ literal ∧ isWellFormedUtf8 literal = true := by
  refine ⟨(isWellFormedUtf8_iff _).mpr (replaceInvalidUtf8_wellFormed s), ⟨fun h => ?_, fun h => ?_⟩,
    isWellFormedUtf8_iff s, lengthIfValid_encodeChar s, fun n => ?_, fun addQuotes escaped => ?_⟩
  · rw [isWellFormedUtf8_iff, ← h]
    exact replaceInvalidUtf8_wellFormed s
  · obtain ⟨text, rfl⟩ := (isWellFormedUtf8_iff s).mp h
    exact replaceInvalidUtf8_encode text
  · rw [lengthIfValid_encodeChar]
    constructor
    · rintro ⟨c, rest, hc, rfl, rfl⟩
      exact ⟨(Utf8.high_encodeChar hc).1, sequenceLen_encodeChar c rest⟩
    · rintro ⟨hn, hseq⟩
      obtain ⟨c, rest, hs, rfl⟩ := exists_char_of_sequenceLen hseq
      refine ⟨c, rest, fun hascii => ?_, hs, rfl⟩
      rw [Utf8.ascii_encodeChar hascii] at hn
      exact absurd hn (lt_irrefl 1)
  · refine ⟨(if addQuotes then [34] else []) ++ escapedJson s ++ if addQuotes then [34] else [], ?_, ?_⟩
    · simp [escapeToJsonStringLiteral]
    · have hquote : WellFormed (if addQuotes then [34] else []) := by
        cases addQuotes
        · exact wellFormed_nil
        · exact wellFormed_ascii rfl
      exact (isWellFormedUtf8_iff _).mpr
        (wellFormed_append (wellFormed_append hquote (escapedJson_wellFormed s)) hquote)

end PageSpeed.Packs
