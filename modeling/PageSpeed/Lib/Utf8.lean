import Mathlib.Data.String.Basic
import Mathlib.Data.Nat.Bitwise

/-!
Texts as the bytes of their characters in UTF-8: what begins a character, where such bytes can be
cut, and which of them are ASCII.
-/

namespace PageSpeed.Utf8

def encode (text : List Char) : List UInt8 := text.flatMap String.utf8EncodeChar

def WellFormed (s : List UInt8) : Prop := ∃ text, s = encode text

def IsAscii (c : Char) : Prop := c.toNat < 0x80

instance : DecidablePred IsAscii := fun c => inferInstanceAs (Decidable (c.toNat < 0x80))

@[simp] theorem encode_nil : encode [] = [] := rfl

@[simp] theorem encode_cons (c : Char) (text : List Char) :
    encode (c :: text) = String.utf8EncodeChar c ++ encode text := List.flatMap_cons

@[simp] theorem encode_append (text others : List Char) : encode (text ++ others) = encode text ++ encode others :=
  List.flatMap_append

def bytes (v : ℕ) : List ℕ :=
  if v < 0x80 then [v]
  else if v < 0x800 then [v / 64 + 0xC0, v % 64 + 0x80]
  else if v < 0x10000 then [v / 4096 + 0xE0, v / 64 % 64 + 0x80, v % 64 + 0x80]
  else [v / 262144 + 0xF0, v / 4096 % 64 + 0x80, v / 64 % 64 + 0x80, v % 64 + 0x80]

theorem code_valid (c : Char) : c.toNat < 0xD800 ∨ 0xDFFF < c.toNat ∧ c.toNat < 0x110000 := c.valid

theorem encodeChar_eq (c : Char) : String.utf8EncodeChar c = (bytes c.toNat).map UInt8.ofNat := by
  have hvalid := code_valid c
  have htoNat : c.val.toNat = c.toNat := rfl
  unfold String.utf8EncodeChar bytes
  simp only [htoNat]
  by_cases h₁ : c.toNat < 0x80
  · rw [if_pos (by omega), if_pos h₁]
    rfl
  by_cases h₂ : c.toNat < 0x800
  · have hlead : c.toNat / 64 % 32 = c.toNat / 64 := by omega
    rw [if_neg (by omega), if_pos (by omega), if_neg h₁, if_pos h₂, hlead]
    rfl
  by_cases h₃ : c.toNat < 0x10000
  · have hlead : c.toNat / 4096 % 16 = c.toNat / 4096 := by omega
    rw [if_neg (by omega), if_neg (by omega), if_pos (by omega), if_neg h₁, if_neg h₂, if_pos h₃, hlead]
    rfl
  · have hlead : c.toNat / 262144 % 8 = c.toNat / 262144 := by omega
    rw [if_neg (by omega), if_neg (by omega), if_neg (by omega), if_neg h₁, if_neg h₂, if_neg h₃, hlead]
    rfl

theorem ascii_encodeChar {c : Char} (h : IsAscii c) : String.utf8EncodeChar c = [c.toNat.toUInt8] := by
  have hlt : c.toNat < 0x80 := h
  rw [encodeChar_eq, bytes, if_pos hlt]
  rfl

theorem high_encodeChar {c : Char} (h : ¬IsAscii c) :
    1 < (String.utf8EncodeChar c).length ∧ ∀ b ∈ String.utf8EncodeChar c, 0x80 ≤ b := by
  have hvalid := code_valid c
  have hlt : ¬c.toNat < 0x80 := h
  have hbytes : 1 < (bytes c.toNat).length ∧ ∀ n ∈ bytes c.toNat, 0x80 ≤ n ∧ n < 0x100 := by
    unfold bytes
    rw [if_neg hlt]
    split_ifs <;> simp <;> omega
  rw [encodeChar_eq, List.length_map]
  refine ⟨hbytes.1, fun b hb => ?_⟩
  obtain ⟨n, hn, rfl⟩ := List.mem_map.mp hb
  obtain ⟨hlow, hhigh⟩ := hbytes.2 n hn
  rw [UInt8.le_iff_toNat_le, UInt8.toNat_ofNat_of_lt' hhigh]
  exact hlow

variable {text : List Char}

theorem mem_encode_ascii {b : UInt8} (hb : b < 0x80) :
    b ∈ encode text ↔ ∃ c ∈ text, IsAscii c ∧ c.toNat.toUInt8 = b := by
  constructor
  · intro hmem
    obtain ⟨c, hc, hbc⟩ := List.mem_flatMap.mp hmem
    by_cases hascii : IsAscii c
    · rw [ascii_encodeChar hascii, List.mem_singleton] at hbc
      exact ⟨c, hc, hascii, hbc.symm⟩
    · exact absurd hb (UInt8.not_lt.mpr ((high_encodeChar hascii).2 b hbc))
  · rintro ⟨c, hc, hascii, rfl⟩
    exact List.mem_flatMap.mpr ⟨c, hc, by rw [ascii_encodeChar hascii]; exact List.mem_singleton_self _⟩

theorem exists_high {c : Char} (hmem : c ∈ text) (hhigh : ¬IsAscii c) : ∃ b ∈ encode text, 0x80 ≤ b := by
  obtain ⟨hlong, hbytes⟩ := high_encodeChar hhigh
  obtain ⟨b, hb⟩ := List.exists_mem_of_length_pos (Nat.lt_trans Nat.zero_lt_one hlong)
  exact ⟨b, List.mem_flatMap.mpr ⟨c, hmem, hb⟩, hbytes b hb⟩

theorem encodeChar_length_pos (c : Char) : 0 < (String.utf8EncodeChar c).length := by
  rw [String.length_utf8EncodeChar]
  exact c.utf8Size_pos

theorem encode_length_le (text : List Char) : text.length ≤ (encode text).length := by
  induction text with
  | nil => exact Nat.le_refl _
  | cons c text ih =>
    have hpos := encodeChar_length_pos c
    rw [encode_cons, List.length_append, List.length_cons]
    omega

theorem ascii_of_length (h : (encode text).length = text.length) : ∀ c ∈ text, IsAscii c := by
  induction text with
  | nil => simp
  | cons c text ih =>
    have hle := encode_length_le text
    have hpos := encodeChar_length_pos c
    rw [encode_cons, List.length_append, List.length_cons] at h
    refine List.forall_mem_cons.mpr ⟨?_, ih (by omega)⟩
    by_contra hhigh
    have hlong := (high_encodeChar hhigh).1
    omega

theorem encode_ascii (h : ∀ c ∈ text, IsAscii c) : encode text = text.map fun c => c.toNat.toUInt8 := by
  induction text with
  | nil => rfl
  | cons c text ih =>
    obtain ⟨hc, htext⟩ := List.forall_mem_cons.mp h
    rw [encode_cons, ascii_encodeChar hc, ih htext]
    rfl

theorem toNat_ofNat {v : ℕ} (h : v < 0xD800 ∨ 0xDFFF < v ∧ v < 0x110000) : (Char.ofNat v).toNat = v := by
  have hvalid : v.isValidChar := h
  rw [Char.ofNat, dif_pos hvalid]
  rfl

theorem ascii_ofNat {b : UInt8} (hb : b < 0x80) : String.utf8EncodeChar (Char.ofNat b.toNat) = [b] := by
  have hlt : b.toNat < 0x80 := hb
  have hcode : (Char.ofNat b.toNat).toNat = b.toNat := toNat_ofNat (by omega)
  have hascii : IsAscii (Char.ofNat b.toNat) := by
    rw [IsAscii, hcode]
    exact hlt
  rw [ascii_encodeChar hascii, hcode, Nat.toUInt8_eq, UInt8.ofNat_toNat]

theorem wellFormed_split {b : UInt8} (hb : b < 0x80) (s t : List UInt8) :
    WellFormed (s ++ b :: t) ↔ WellFormed s ∧ WellFormed t := by
  constructor
  · rintro ⟨text, heq⟩
    induction text generalizing s with
    | nil => simp at heq
    | cons c text ih =>
      rw [encode_cons, List.append_eq_append_iff] at heq
      obtain ⟨mid, hc, htail⟩ | ⟨mid, rfl, htail⟩ := heq
      · cases mid with
        | nil =>
          rw [List.append_nil] at hc
          obtain ⟨-, hafter⟩ := ih [] htail
          exact ⟨⟨[c], by rw [encode_cons, hc, encode_nil, List.append_nil]⟩, hafter⟩
        | cons x mid =>
          obtain ⟨rfl, rfl⟩ := List.cons.inj htail
          -- The byte is of the first character, which is of ASCII then.
          have hascii : IsAscii c := by
            by_contra hhigh
            have hmem : b ∈ String.utf8EncodeChar c := by simp [hc]
            exact absurd hb (UInt8.not_lt.mpr ((high_encodeChar hhigh).2 b hmem))
          rw [ascii_encodeChar hascii] at hc
          obtain rfl : s = [] := by
            cases s with
            | nil => rfl
            | cons y s => simp at hc
          obtain rfl : mid = [] := by simpa using (List.cons.inj hc).2.symm
          exact ⟨⟨[], rfl⟩, ⟨text, rfl⟩⟩
      · obtain ⟨⟨before, rfl⟩, hafter⟩ := ih mid htail.symm
        exact ⟨⟨c :: before, (encode_cons c before).symm⟩, hafter⟩
  · rintro ⟨⟨text, rfl⟩, ⟨others, rfl⟩⟩
    exact ⟨text ++ Char.ofNat b.toNat :: others, by rw [encode_append, encode_cons, ascii_ofNat hb]; rfl⟩

end PageSpeed.Utf8
