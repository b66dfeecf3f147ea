import Mathlib.Algebra.Order.Ring.Int
import Mathlib.Data.List.Basic

/-!
Byte strings and the few standard-library functions the models share.
-/

namespace PageSpeed

abbrev GoogleString := List UInt8

instance : LawfulBEq GoogleString := List.instLawfulBEq

/-- The `int` that a size or a difference of sizes is converted to. -/
def toInt32 (n : Int) : Int := n.bmod (2 ^ 32)

theorem toInt32_of_lt {n : Int} (h : n < 2 ^ 31) (h' : -2 ^ 31 ≤ n) : toInt32 n = n := by
  unfold toInt32
  rw [Int.bmod_def]
  split_ifs <;> omega

def stdMax (a b : Int64) : Int64 := if a < b then b else a

theorem le_stdMax_left (a b : Int64) : a ≤ stdMax a b := by grind [stdMax]

theorem le_stdMax_right (a b : Int64) : b ≤ stdMax a b := by grind [stdMax]

theorem le_stdMax_iff (a b c : Int64) : c ≤ stdMax a b ↔ c ≤ a ∨ c ≤ b := by grind [stdMax]

end PageSpeed
