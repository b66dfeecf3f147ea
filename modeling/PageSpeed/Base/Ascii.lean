import PageSpeed.Basic
import PageSpeed.Lib.Utf8

/-!
Text as bytes, and the byte classes that do not depend on a locale.
-/

namespace PageSpeed

def ascii (s : String) : GoogleString := s.toList.map fun c => c.toNat.toUInt8

def textBytes (s : String) : GoogleString :=
  if s.toByteArray.data.toList.all (· < 0x80) then s.toByteArray.data.toList else ascii s

theorem ascii_eq_textBytes (s : String) : ascii s = textBytes s := by
  have hencode : s.toByteArray.data.toList = Utf8.encode s.toList := by
    rw [← String.utf8Encode_toList, List.utf8Encode, List.data_toByteArray]
    rfl
  unfold textBytes
  split_ifs with hlow
  · rw [hencode] at hlow ⊢
    refine (Utf8.encode_ascii fun c hc => ?_).symm
    by_contra hhigh
    obtain ⟨b, hb, hle⟩ := Utf8.exists_high hc hhigh
    have hlt : b < 0x80 := of_decide_eq_true (List.all_eq_true.mp hlow b hb)
    exact absurd hlt (UInt8.not_lt.mpr hle)
  · rfl

def upperChar (c : UInt8) : UInt8 := if 97 ≤ c ∧ c ≤ 122 then c - 32 else c

def lowerChar (c : UInt8) : UInt8 := if 65 ≤ c ∧ c ≤ 90 then c + 32 else c

def isDigit (c : UInt8) : Bool := 48 ≤ c ∧ c ≤ 57

def isAlpha (c : UInt8) : Bool := 65 ≤ c ∧ c ≤ 90 ∨ 97 ≤ c ∧ c ≤ 122

def isAlnum (c : UInt8) : Bool := isAlpha c || isDigit c

def stringCaseEqual (s t : GoogleString) : Bool := s.map upperChar == t.map upperChar

def stringCaseStartsWith (str start : GoogleString) : Bool :=
  decide (start.length ≤ str.length) && stringCaseEqual start (str.take start.length)

def isHtmlSpace (c : UInt8) : Bool := c = 32 ∨ c = 9 ∨ c = 13 ∨ c = 10 ∨ c = 12

def trimLeadingWhitespace (s : GoogleString) : GoogleString := s.dropWhile isHtmlSpace

def trimTrailingWhitespace (s : GoogleString) : GoogleString := (s.reverse.dropWhile isHtmlSpace).reverse

def trimWhitespace (s : GoogleString) : GoogleString := trimTrailingWhitespace (trimLeadingWhitespace s)

def accumulateDecimalValue (c : UInt8) (value : ℕ) : Option ℕ :=
  if 48 ≤ c ∧ c ≤ 57 then some (min (value * 10 + (c.toNat - 48)) 0x110000) else none

def accumulateHexValue (c : UInt8) (value : ℕ) : Option ℕ :=
  if 48 ≤ c ∧ c ≤ 57 then some (min (value * 16 + (c.toNat - 48)) 0x110000)
  else if 97 ≤ c ∧ c ≤ 102 then some (min (value * 16 + (10 + c.toNat - 97)) 0x110000)
  else if 65 ≤ c ∧ c ≤ 70 then some (min (value * 16 + (10 + c.toNat - 65)) 0x110000)
  else none

theorem lowerChar_upperChar (c : UInt8) : lowerChar (upperChar c) = lowerChar c := by
  unfold lowerChar upperChar
  grind

theorem upperChar_lowerChar (c : UInt8) : upperChar (lowerChar c) = upperChar c := by
  unfold lowerChar upperChar
  grind

theorem stringCaseEqual_iff_lower {s t : GoogleString} :
    stringCaseEqual s t = true ↔ s.map lowerChar = t.map lowerChar := by
  rw [stringCaseEqual, beq_iff_eq]
  constructor
  · intro h
    simpa [List.map_map, Function.comp_def, lowerChar_upperChar] using congrArg (List.map lowerChar) h
  · intro h
    simpa [List.map_map, Function.comp_def, upperChar_lowerChar] using congrArg (List.map upperChar) h

def isOws (c : UInt8) : Bool := c = 32 ∨ c = 9

def trimOws (v : GoogleString) : GoogleString := ((v.dropWhile isOws).reverse.dropWhile isOws).reverse

theorem mem_of_mem_trimOws {v : GoogleString} {c : UInt8} (h : c ∈ trimOws v) : c ∈ v := by
  have hrev := (List.dropWhile_sublist isOws).mem (List.mem_reverse.mp h)
  exact (List.dropWhile_sublist isOws).mem (List.mem_reverse.mp hrev)

end PageSpeed
