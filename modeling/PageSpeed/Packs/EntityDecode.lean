import PageSpeed.Html.HtmlReferences

/-!
`kernel/packs/entity_decode.cc`: the scan for well-formed UTF-8 and the decoding of references that
never ships a byte that is not.
-/

namespace PageSpeed.Packs

open Utf8 (encode WellFormed IsAscii)

def leadByte (c : UInt8) : Option (ℕ × ℕ) :=
  if c &&& 0xE0 = 0xC0 then some (1, (c &&& 0x1F).toNat)
  else if c &&& 0xF0 = 0xE0 then some (2, (c &&& 0x0F).toNat)
  else if c &&& 0xF8 = 0xF0 then some (3, (c &&& 0x07).toNat)
  else none

def addByte (cp : ℕ) (cc : UInt8) : Option ℕ :=
  if cc &&& 0xC0 = 0x80 then some (cp <<< 6 ||| (cc &&& 0x3F).toNat) else none

def isOverlong (cont cp : ℕ) : Bool := cont = 1 ∧ cp < 0x80 ∨ cont = 2 ∧ cp < 0x800 ∨ cont = 3 ∧ cp < 0x10000

def sequenceLen : GoogleString → Option ℕ
  | [] => none
  | c :: rest =>
    if c < 0x80 then some 1
    else do
      let (cont, lead) ← leadByte c
      -- A sequence that the text ends in is cut off.
      if rest.length < cont then none
      else do
        let cp ← (rest.take cont).foldlM addByte lead
        if isOverlong cont cp then none
        else if cp > 0x10FFFF ∨ 0xD800 ≤ cp ∧ cp ≤ 0xDFFF then none
        else some (cont + 1)

theorem leadByte_eq (c : UInt8) : leadByte c =
    if c.toNat / 32 = 6 then some (1, c.toNat % 32)
    else if c.toNat / 16 = 14 then some (2, c.toNat % 16)
    else if c.toNat / 8 = 30 then some (3, c.toNat % 8)
    else none := by
  have hall : ∀ n < 256, leadByte (UInt8.ofNat n) =
      if n / 32 = 6 then some (1, n % 32)
      else if n / 16 = 14 then some (2, n % 16)
      else if n / 8 = 30 then some (3, n % 8)
      else none := by decide +kernel
  simpa using hall c.toNat c.toNat_lt

theorem addByte_eq (cp : ℕ) (cc : UInt8) :
    addByte cp cc = if cc.toNat / 64 = 2 then some (cp * 64 + cc.toNat % 64) else none := by
  have hall : ∀ n < 256, (UInt8.ofNat n &&& 0xC0 = 0x80 ↔ n / 64 = 2) ∧ (UInt8.ofNat n &&& 0x3F).toNat = n % 64 := by
    decide +kernel
  obtain ⟨hcont, hbits⟩ := hall cc.toNat cc.toNat_lt
  rw [UInt8.ofNat_toNat] at hcont hbits
  rw [addByte, hbits, ← Nat.shiftLeft_add_eq_or_of_lt (i := 6) (Nat.mod_lt _ (by decide)), Nat.shiftLeft_eq]
  simp only [hcont]

theorem addBytes_eq (rest : GoogleString) (cp : ℕ) : rest.foldlM addByte cp =
    if rest.all (·.toNat / 64 = 2) then some (rest.foldl (fun cp b => cp * 64 + b.toNat % 64) cp) else none := by
  induction rest generalizing cp with
  | nil => simp
  | cons b rest ih =>
    rw [List.foldlM_cons, addByte_eq]
    by_cases hb : b.toNat / 64 = 2
    · simp [hb, ih]
    · simp [hb]

variable {s more : GoogleString} {n : ℕ}

theorem all_cont : more.all (·.toNat / 64 = 2) = true ↔ ∀ b ∈ more, b.toNat / 64 = 2 := by
  simp

theorem sequenceLen_ascii {a : UInt8} (ha : a.toNat < 0x80) (rest : GoogleString) :
    sequenceLen (a :: rest) = some 1 := by
  have hlt : a < 0x80 := ha
  rw [sequenceLen, if_pos hlt]

def codeOf (lead : ℕ) (more : GoogleString) : ℕ := more.foldl (fun cp b => cp * 64 + b.toNat % 64) lead

theorem sequenceLen_high {a : UInt8} {cont lead : ℕ} (hlead : leadByte a = some (cont, lead))
    (hmore : more.length = cont) (rest : GoogleString) :
    sequenceLen (a :: (more ++ rest)) =
      if more.all (·.toNat / 64 = 2) = true ∧ isOverlong cont (codeOf lead more) = false ∧
          (codeOf lead more < 0xD800 ∨ 0xDFFF < codeOf lead more ∧ codeOf lead more < 0x110000) then
        some (cont + 1)
      else none := by
  have hhigh : ¬a < 0x80 := by
    intro hlt
    have hlt' : a.toNat < 0x80 := hlt
    rw [leadByte_eq, if_neg (by omega), if_neg (by omega), if_neg (by omega)] at hlead
    cases hlead
  have htake : (more ++ rest).take cont = more := by rw [← hmore, List.take_left]
  have hlen : ¬(more ++ rest).length < cont := by
    rw [List.length_append]
    omega
  rw [sequenceLen, if_neg hhigh, hlead]
  simp only [Option.bind_eq_bind, Option.bind_some, hlen, if_false, htake, addBytes_eq]
  by_cases hcont : more.all (·.toNat / 64 = 2) = true
  · rw [if_pos hcont, Option.bind_some, ← codeOf]
    by_cases hover : isOverlong cont (codeOf lead more) = true
    · rw [if_pos hover, if_neg (by simp [hover])]
    · rw [if_neg hover]
      by_cases hvalid : codeOf lead more < 0xD800 ∨ 0xDFFF < codeOf lead more ∧ codeOf lead more < 0x110000
      · rw [if_neg (by omega), if_pos ⟨hcont, by simpa using hover, hvalid⟩]
      · rw [if_pos (by omega), if_neg (fun h => hvalid h.2.2)]
  · rw [if_neg hcont, if_neg (fun h => hcont h.1), Option.bind_none]

theorem toNat_ofNat (h : n < 256) : (UInt8.ofNat n).toNat = n := UInt8.toNat_ofNat_of_lt' h

structure Sequence (c : Char) (a : UInt8) (more : GoogleString) (lead : ℕ) : Prop where
  leads : leadByte a = some (more.length, lead)
  cont : ∀ b ∈ more, b.toNat / 64 = 2
  code : codeOf lead more = c.toNat
  short : isOverlong more.length c.toNat = false

theorem cont_ofNat (n : ℕ) : (UInt8.ofNat (n % 64 + 0x80)).toNat / 64 = 2 := by
  rw [toNat_ofNat (by omega)]
  omega

theorem bits_ofNat (n : ℕ) : (UInt8.ofNat (n % 64 + 0x80)).toNat % 64 = n % 64 := by
  rw [toNat_ofNat (by omega)]
  omega

theorem encodeChar_sequence {c : Char} (h : ¬IsAscii c) :
    ∃ a more lead, String.utf8EncodeChar c = a :: more ∧ Sequence c a more lead := by
  have hvalid := Utf8.code_valid c
  have h₁ : ¬c.toNat < 0x80 := h
  rw [Utf8.encodeChar_eq, Utf8.bytes, if_neg h₁]
  by_cases h₂ : c.toNat < 0x800
  · rw [if_pos h₂]
    refine ⟨_, _, c.toNat / 64, rfl, ?_, ?_, ?_, ?_⟩
    · rw [leadByte_eq, toNat_ofNat (by omega), if_pos (by omega)]
      refine congrArg some (Prod.ext rfl ?_)
      dsimp only
      omega
    · simpa using cont_ofNat c.toNat
    · simp only [codeOf, List.map_cons, List.map_nil, List.foldl_cons, List.foldl_nil, bits_ofNat]
      omega
    · simpa [isOverlong] using Nat.le_of_not_lt h₁
  rw [if_neg h₂]
  by_cases h₃ : c.toNat < 0x10000
  · rw [if_pos h₃]
    refine ⟨_, _, c.toNat / 4096, rfl, ?_, ?_, ?_, ?_⟩
    · rw [leadByte_eq, toNat_ofNat (by omega), if_neg (by omega), if_pos (by omega)]
      refine congrArg some (Prod.ext rfl ?_)
      dsimp only
      omega
    · simpa using ⟨cont_ofNat (c.toNat / 64), cont_ofNat c.toNat⟩
    · simp only [codeOf, List.map_cons, List.map_nil, List.foldl_cons, List.foldl_nil, bits_ofNat]
      omega
    · simpa [isOverlong] using Nat.le_of_not_lt h₂
  · rw [if_neg h₃]
    refine ⟨_, _, c.toNat / 262144, rfl, ?_, ?_, ?_, ?_⟩
    · rw [leadByte_eq, toNat_ofNat (by omega), if_neg (by omega), if_neg (by omega), if_pos (by omega)]
      refine congrArg some (Prod.ext rfl ?_)
      dsimp only
      omega
    · simpa using ⟨cont_ofNat (c.toNat / 4096), cont_ofNat (c.toNat / 64), cont_ofNat c.toNat⟩
    · simp only [codeOf, List.map_cons, List.map_nil, List.foldl_cons, List.foldl_nil, bits_ofNat]
      omega
    · simpa [isOverlong] using Nat.le_of_not_lt h₃

theorem ofNat_eq {b : UInt8} (h : n = b.toNat) : UInt8.ofNat n = b := by rw [h, UInt8.ofNat_toNat]

theorem sequence_encodeChar {a : UInt8} {lead : ℕ} (hlead : leadByte a = some (more.length, lead))
    (hcont : ∀ b ∈ more, b.toNat / 64 = 2) (hshort : isOverlong more.length (codeOf lead more) = false)
    (hvalid : codeOf lead more < 0xD800 ∨ 0xDFFF < codeOf lead more ∧ codeOf lead more < 0x110000) :
    String.utf8EncodeChar (Char.ofNat (codeOf lead more)) = a :: more := by
  rw [Utf8.encodeChar_eq, Utf8.toNat_ofNat hvalid]
  rw [leadByte_eq] at hlead
  split_ifs at hlead with h₁ h₂ h₃
  · obtain ⟨hlen, rfl⟩ : 1 = more.length ∧ a.toNat % 32 = lead := by simpa using hlead
    obtain ⟨b, rfl⟩ := List.length_eq_one_iff.mp hlen.symm
    have hlong : 0x80 ≤ codeOf (a.toNat % 32) [b] := by simpa [isOverlong] using hshort
    simp only [codeOf, List.foldl_cons, List.foldl_nil, List.mem_singleton, forall_eq] at *
    rw [Utf8.bytes, if_neg (by omega), if_pos (by omega)]
    simp only [List.map_cons, List.map_nil, List.cons.injEq, and_true]
    exact ⟨ofNat_eq (by omega), ofNat_eq (by omega)⟩
  · obtain ⟨hlen, rfl⟩ : 2 = more.length ∧ a.toNat % 16 = lead := by simpa using hlead
    obtain ⟨b, c, rfl⟩ := List.length_eq_two.mp hlen.symm
    have hlong : 0x800 ≤ codeOf (a.toNat % 16) [b, c] := by simpa [isOverlong] using hshort
    simp only [codeOf, List.foldl_cons, List.foldl_nil, List.mem_cons, List.not_mem_nil, or_false, forall_eq_or_imp,
      forall_eq] at *
    rw [Utf8.bytes, if_neg (by omega), if_neg (by omega), if_pos (by omega)]
    simp only [List.map_cons, List.map_nil, List.cons.injEq, and_true]
    exact ⟨ofNat_eq (by omega), ofNat_eq (by omega), ofNat_eq (by omega)⟩
  · obtain ⟨hlen, rfl⟩ : 3 = more.length ∧ a.toNat % 8 = lead := by simpa using hlead
    obtain ⟨b, c, d, rfl⟩ := List.length_eq_three.mp hlen.symm
    have hlong : 0x10000 ≤ codeOf (a.toNat % 8) [b, c, d] := by simpa [isOverlong] using hshort
    simp only [codeOf, List.foldl_cons, List.foldl_nil, List.mem_cons, List.not_mem_nil, or_false, forall_eq_or_imp,
      forall_eq] at *
    rw [Utf8.bytes, if_neg (by omega), if_neg (by omega), if_neg (by omega)]
    simp only [List.map_cons, List.map_nil, List.cons.injEq, and_true]
    exact ⟨ofNat_eq (by omega), ofNat_eq (by omega), ofNat_eq (by omega), ofNat_eq (by omega)⟩

theorem sequenceLen_encodeChar (c : Char) (rest : GoogleString) :
    sequenceLen (String.utf8EncodeChar c ++ rest) = some (String.utf8EncodeChar c).length := by
  by_cases h : IsAscii c
  · rw [Utf8.ascii_encodeChar h]
    have hlt : c.toNat < 0x80 := h
    refine sequenceLen_ascii ?_ rest
    rw [Nat.toUInt8_eq, toNat_ofNat (by omega)]
    exact hlt
  · obtain ⟨a, more, lead, heq, hseq⟩ := encodeChar_sequence h
    rw [heq, List.cons_append, sequenceLen_high hseq.leads rfl,
      if_pos ⟨all_cont.mpr hseq.cont, by rw [hseq.code]; exact hseq.short, by rw [hseq.code]; exact Utf8.code_valid c⟩]
    rfl

theorem exists_char_of_sequenceLen (h : sequenceLen s = some n) :
    ∃ c rest, s = String.utf8EncodeChar c ++ rest ∧ n = (String.utf8EncodeChar c).length := by
  cases s with
  | nil => cases h
  | cons a rest =>
    by_cases ha : a < 0x80
    · rw [sequenceLen, if_pos ha] at h
      cases h
      exact ⟨Char.ofNat a.toNat, rest, by rw [Utf8.ascii_ofNat ha]; rfl, by rw [Utf8.ascii_ofNat ha]; rfl⟩
    cases hlead : leadByte a with
    | none =>
      rw [sequenceLen, if_neg ha, hlead] at h
      cases h
    | some pair =>
      obtain ⟨cont, lead⟩ := pair
      by_cases hlen : rest.length < cont
      · rw [sequenceLen, if_neg ha, hlead] at h
        simp [hlen] at h
      · have hmore : (rest.take cont).length = cont := by
          rw [List.length_take]
          omega
        rw [← List.take_append_drop cont rest, sequenceLen_high hlead hmore] at h
        split_ifs at h with hall
        cases h
        obtain ⟨hcont, hshort, hvalid⟩ := hall
        have hchar := sequence_encodeChar (by rw [hmore]; exact hlead) (all_cont.mp hcont) (by rw [hmore]; exact hshort) hvalid
        refine ⟨Char.ofNat (codeOf lead (rest.take cont)), rest.drop cont, ?_, ?_⟩
        · rw [hchar, List.cons_append, List.take_append_drop]
        · rw [hchar, List.length_cons, hmore]

theorem sequenceLen_bounds (h : sequenceLen s = some n) : 0 < n ∧ n ≤ s.length := by
  obtain ⟨c, rest, rfl, rfl⟩ := exists_char_of_sequenceLen h
  rw [List.length_append]
  exact ⟨Utf8.encodeChar_length_pos c, Nat.le_add_right _ _⟩

def wellFormedUtf8PrefixLen (s : GoogleString) : ℕ :=
  match _h : sequenceLen s with
  | none => 0
  | some n => n + wellFormedUtf8PrefixLen (s.drop n)
termination_by s.length
decreasing_by
  have hbounds := sequenceLen_bounds _h
  rw [List.length_drop]
  omega

def isWellFormedUtf8 (s : GoogleString) : Bool := wellFormedUtf8PrefixLen s == s.length

def foldLatin1Nbsp (s : GoogleString) : GoogleString := s.map fun c => if c = 0xA0 then 32 else c

def safeDecodeHtmlEntities (s : GoogleString) : GoogleString :=
  if 38 ∉ s then s.take (wellFormedUtf8PrefixLen s)
  else match HtmlKeywords.unescape s with
    | none => s
    | some out => if isWellFormedUtf8 (foldLatin1Nbsp out) then foldLatin1Nbsp out else s

theorem prefixLen_of_none (h : sequenceLen s = none) : wellFormedUtf8PrefixLen s = 0 := by
  rw [wellFormedUtf8PrefixLen]
  split <;> simp_all

theorem prefixLen_of_some (h : sequenceLen s = some n) :
    wellFormedUtf8PrefixLen s = n + wellFormedUtf8PrefixLen (s.drop n) := by
  conv => lhs; rw [wellFormedUtf8PrefixLen]
  split <;> simp_all

theorem prefixLen_encode (text : List Char) : wellFormedUtf8PrefixLen (encode text) = (encode text).length := by
  induction text with
  | nil => exact prefixLen_of_none rfl
  | cons c text ih =>
    rw [Utf8.encode_cons, prefixLen_of_some (sequenceLen_encodeChar c _), List.drop_left, ih, List.length_append]

theorem wellFormed_of_prefixLen (n : ℕ) :
    ∀ s : GoogleString, s.length = n → wellFormedUtf8PrefixLen s = s.length → WellFormed s := by
  induction n using Nat.strongRecOn with
  | ind n ih =>
    intro s hn hlen
    cases hseq : sequenceLen s with
    | none =>
      rw [prefixLen_of_none hseq] at hlen
      exact ⟨[], List.length_eq_zero_iff.mp hlen.symm⟩
    | some k =>
      obtain ⟨c, rest, rfl, rfl⟩ := exists_char_of_sequenceLen hseq
      have hpos := Utf8.encodeChar_length_pos c
      rw [prefixLen_of_some hseq, List.drop_left, List.length_append, Nat.add_left_cancel_iff] at hlen
      rw [List.length_append] at hn
      obtain ⟨text, rfl⟩ := ih rest.length (by omega) rest rfl hlen
      exact ⟨c :: text, (Utf8.encode_cons c text).symm⟩

theorem isWellFormedUtf8_iff (s : GoogleString) : isWellFormedUtf8 s = true ↔ WellFormed s := by
  rw [isWellFormedUtf8, beq_iff_eq]
  constructor
  · exact wellFormed_of_prefixLen _ s rfl
  · rintro ⟨text, rfl⟩
    exact prefixLen_encode text

theorem toNat_latin1 {c : Char} (h : c.toNat ≤ 255) : c.toNat.toUInt8.toNat = c.toNat := toNat_ofNat (by omega)

theorem byte_inj {c d : Char} (hc : IsAscii c) (hd : IsAscii d) (h : c.toNat.toUInt8 = d.toNat.toUInt8) : c = d := by
  have hc' : c.toNat < 0x80 := hc
  have hd' : d.toNat < 0x80 := hd
  have hnat := congrArg UInt8.toNat h
  rw [toNat_latin1 (by omega), toNat_latin1 (by omega)] at hnat
  exact Char.toNat_inj.mp hnat

end PageSpeed.Packs
