import PageSpeed.Base.Ascii
import Mathlib.Tactic.Ring

/-!
The mappings text of a source map: segments of base64 VLQ fields, separated by ',' and, where the
generated line changes, by ';'. Beside the encoder stands the decoding of one field.
-/

namespace PageSpeed.SourceMap

structure Mapping where
  genLine : Int32
  genCol : Int32
  srcFile : Int32
  srcLine : Int32
  srcCol : Int32
deriving DecidableEq

def base64Chars : GoogleString := ascii "ABCDEFGHIJKLMNOPQRSTUVWXYZabcdefghijklmnopqrstuvwxyz0123456789+/"

def kNumDataBits : ℕ := 5

def kContinuationBit : ℕ := 1 <<< kNumDataBits

def kDataMask : ℕ := kContinuationBit - 1

def encodeBase64 (val : Int) : UInt8 :=
  if val < 0 ∨ 64 ≤ val then 63 else base64Chars.getD val.toNat 63

def signed (inputVal : Int32) : ℕ :=
  if inputVal.toInt < 0 then inputVal.toInt.natAbs <<< 1 ||| 1 else inputVal.toInt.natAbs <<< 1

def vlqBlocks (val : ℕ) : GoogleString :=
  if kDataMask < val then encodeBase64 ↑((val &&& kDataMask) ||| kContinuationBit) :: vlqBlocks (val >>> kNumDataBits)
  else [encodeBase64 val]
termination_by val
decreasing_by
  rw [Nat.shiftRight_eq_div_pow]
  exact Nat.div_lt_self (by omega) (by decide)

def encodeVlq (inputVal : Int32) : GoogleString := vlqBlocks (signed inputVal)

def relative (field : Mapping → Int32) (prev : Option Mapping) (m : Mapping) : Int32 :=
  match prev with
  | none => field m
  | some p => field m - field p

def segment (prev : Option Mapping) (firstSegmentInLine : Bool) (m : Mapping) : GoogleString :=
  encodeVlq (if firstSegmentInLine then m.genCol else relative Mapping.genCol prev m) ++
  encodeVlq (relative Mapping.srcFile prev m) ++ encodeVlq (relative Mapping.srcLine prev m) ++
  encodeVlq (relative Mapping.srcCol prev m)

def comma (currentGenLine : Int32) : List Mapping → GoogleString
  | [] => []
  | next :: _ => if next.genLine = currentGenLine then [44] else []

/-- The number of times `while (gen_line > current_gen_line)` runs. -/
def linesBetween (currentGenLine genLine : Int32) : ℕ := (genLine.toInt - currentGenLine.toInt).toNat

/-- The loop of `EncodeMappings`: whether it succeeds, and what it has appended. -/
def encodeFrom (prev : Option Mapping) (currentGenLine : Int32) (firstSegmentInLine : Bool) :
    List Mapping → Bool × GoogleString
  | [] => (true, [])
  | m :: rest =>
    if m.genLine < currentGenLine then (false, []) else
      let lines := linesBetween currentGenLine m.genLine
      let tail := encodeFrom (some m) m.genLine false rest
      (tail.1, List.replicate lines 59 ++ segment prev (firstSegmentInLine || 0 < lines) m ++
        comma m.genLine rest ++ tail.2)

/-- The number of mappings goes through an `int`. -/
def encodeMappings (mappings : List Mapping) : Bool × GoogleString :=
  encodeFrom none 0 true (mappings.take (toInt32 mappings.length).toNat)

def base64Value (c : UInt8) : Option ℕ := base64Chars.findIdx? (· == c)

def unsigned (val : ℕ) : Int := if val % 2 = 1 then -↑(val / 2) else ↑(val / 2)

/-- The fields of a segment. `shift` and `val` are of the blocks read of the field that is open. -/
def fieldsFrom : ℕ → ℕ → GoogleString → Option (List Int)
  | shift, _, [] => if shift = 0 then some [] else none
  | shift, val, c :: rest =>
    match base64Value c with
    | none => none
    | some block =>
      let val := val + block % 32 * 2 ^ shift
      if block < 32 then (unsigned val :: ·) <$> fieldsFrom 0 0 rest else fieldsFrom (shift + 5) val rest

theorem base64Value_encodeBase64 {block : ℕ} (h : block < 64) : base64Value (encodeBase64 block) = some block := by
  have hall : ∀ b : Fin 64, base64Value (encodeBase64 b.val) = some b.val := by decide +kernel
  exact hall ⟨block, h⟩

theorem encodeBase64_mem {block : ℕ} (h : block < 64) : encodeBase64 block ∈ base64Chars := by
  have hall : ∀ b : Fin 64, encodeBase64 b.val ∈ base64Chars := by decide +kernel
  exact hall ⟨block, h⟩

theorem data_or_continuation (val : ℕ) : (val &&& kDataMask) ||| kContinuationBit = val % 32 + 32 := by
  have hlow : val &&& kDataMask = val % 2 ^ 5 := Nat.and_two_pow_sub_one_eq_mod val 5
  have hor := Nat.two_pow_add_eq_or_of_lt (Nat.mod_lt val (by decide : 0 < 2 ^ 5)) 1
  rw [hlow, Nat.or_comm, Nat.add_comm]
  exact hor.symm

theorem vlqBlocks_of_lt {val : ℕ} (h : val < 32) : vlqBlocks val = [encodeBase64 val] := by
  rw [vlqBlocks, if_neg (by simp [kDataMask, kContinuationBit, kNumDataBits]; omega)]

theorem vlqBlocks_of_le {val : ℕ} (h : 32 ≤ val) :
    vlqBlocks val = encodeBase64 ↑(val % 32 + 32) :: vlqBlocks (val / 32) := by
  rw [vlqBlocks, if_pos (by simp [kDataMask, kContinuationBit, kNumDataBits]; omega), data_or_continuation]
  rw [Nat.shiftRight_eq_div_pow]
  rfl

theorem vlqBlocks_chars (val : ℕ) : ∀ c ∈ vlqBlocks val, c ∈ base64Chars := by
  induction val using Nat.strongRecOn with
  | ind val ih =>
    intro c hc
    rcases Nat.lt_or_ge val 32 with hlt | hge
    · rw [vlqBlocks_of_lt hlt, List.mem_singleton] at hc
      subst hc
      exact encodeBase64_mem (by omega)
    · rw [vlqBlocks_of_le hge, List.mem_cons] at hc
      rcases hc with rfl | hc
      · exact encodeBase64_mem (by omega)
      · exact ih (val / 32) (by omega) c hc

theorem vlqBlocks_ne_nil (val : ℕ) : vlqBlocks val ≠ [] := by
  rw [vlqBlocks]
  split_ifs <;> simp

theorem fieldsFrom_vlqBlocks (shift acc val : ℕ) (rest : GoogleString) :
    fieldsFrom shift acc (vlqBlocks val ++ rest) =
      (unsigned (acc + val * 2 ^ shift) :: ·) <$> fieldsFrom 0 0 rest := by
  induction val using Nat.strongRecOn generalizing shift acc with
  | ind val ih =>
    rcases Nat.lt_or_ge val 32 with hlt | hge
    · rw [vlqBlocks_of_lt hlt, List.singleton_append, fieldsFrom, base64Value_encodeBase64 (by omega)]
      simp only [hlt, if_true, Nat.mod_eq_of_lt hlt]
    · have hblock : ¬ val % 32 + 32 < 32 := by omega
      have hmod : (val % 32 + 32) % 32 = val % 32 := by omega
      have hval : acc + val % 32 * 2 ^ shift + val / 32 * 2 ^ (shift + 5) = acc + val * 2 ^ shift := by
        conv_rhs => rw [← Nat.mod_add_div val 32]
        ring
      rw [vlqBlocks_of_le hge, List.cons_append, fieldsFrom, base64Value_encodeBase64 (by omega)]
      simp only [hblock, if_false, hmod]
      rw [ih (val / 32) (by omega), hval]

theorem unsigned_signed (v : Int32) : unsigned (signed v) = v.toInt := by
  have hor : v.toInt.natAbs <<< 1 ||| 1 = v.toInt.natAbs * 2 + 1 := by
    rw [Nat.shiftLeft_eq, ← Nat.shiftLeft_eq, ← Nat.shiftLeft_add_eq_or_of_lt (by decide), Nat.shiftLeft_eq]
  unfold unsigned signed
  rw [hor, Nat.shiftLeft_eq]
  split_ifs <;> omega

theorem fieldsFrom_encodeVlq (v : Int32) (rest : GoogleString) :
    fieldsFrom 0 0 (encodeVlq v ++ rest) = (v.toInt :: ·) <$> fieldsFrom 0 0 rest := by
  rw [encodeVlq, fieldsFrom_vlqBlocks, Nat.zero_add, Nat.pow_zero, Nat.mul_one, unsigned_signed]

theorem segment_chars (prev : Option Mapping) (first : Bool) (m : Mapping) :
    ∀ c ∈ segment prev first m, c ∈ base64Chars := by
  intro c hc
  simp only [segment, List.mem_append] at hc
  rcases hc with ((hc | hc) | hc) | hc <;> exact vlqBlocks_chars _ c hc

theorem not_mem_segment {sep : UInt8} (hsep : sep ∉ base64Chars) (prev : Option Mapping) (first : Bool) (m : Mapping) :
    sep ∉ segment prev first m :=
  fun h => hsep (segment_chars prev first m sep h)

theorem segment_ne_nil (prev : Option Mapping) (first : Bool) (m : Mapping) : segment prev first m ≠ [] := by
  intro h
  simp only [segment, List.append_eq_nil_iff] at h
  exact vlqBlocks_ne_nil _ h.2

theorem semicolon_not_mem : (59 : UInt8) ∉ base64Chars := by decide

theorem comma_not_mem : (44 : UInt8) ∉ base64Chars := by decide

end PageSpeed.SourceMap
