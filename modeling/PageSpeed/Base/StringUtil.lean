import PageSpeed.Basic
import Mathlib.Tactic.IntervalCases

/-!
The string functions of `kernel/base/string_util.h` that text formats are read and written
with. Positions and lengths of `substr` are `uint32`. The conversions between numbers and
text are those of a library, which `Int64Text` stands for.
-/

namespace PageSpeed

structure Int64Text where
  integer64ToString : Int64 → GoogleString
  stringToInt64 : GoogleString → Option Int64

structure Int64Text.Lawful (text : Int64Text) : Prop where
  parses : ∀ v, text.stringToInt64 (text.integer64ToString v) = some v
  digits : ∀ v, ∀ c ∈ text.integer64ToString v, c = 45 ∨ 48 ≤ c ∧ c ≤ 57
  nonempty : ∀ v, text.integer64ToString v ≠ []

def substr (sp : GoogleString) (pos : ℕ) (n : ℤ) : GoogleString :=
  (sp.drop (pos % 2 ^ 32)).take (n % 2 ^ 32).toNat

/-- `substr` without a length. -/
def substrFrom (sp : GoogleString) (pos : ℕ) : GoogleString := sp.drop (pos % 2 ^ 32)

/-- The loop of `SplitStringPieceToVector` from `pos` on, where `rest` is what it has yet to search. -/
def splitFrom (sp separators : GoogleString) (omitEmptyStrings : Bool) :
    GoogleString → ℕ → ℕ → List GoogleString
  | [], prevPos, _ =>
    if !omitEmptyStrings || decide (prevPos < sp.length) then [substr sp prevPos (prevPos - sp.length)] else []
  | c :: rest, prevPos, pos =>
    if c ∈ separators then
      if !omitEmptyStrings || decide (prevPos < pos) then
        substr sp prevPos (pos - prevPos) :: splitFrom sp separators omitEmptyStrings rest (pos + 1) (pos + 1)
      else splitFrom sp separators omitEmptyStrings rest (pos + 1) (pos + 1)
    else splitFrom sp separators omitEmptyStrings rest prevPos (pos + 1)

def splitStringPieceToVector (sp separators : GoogleString) (omitEmptyStrings : Bool) : List GoogleString :=
  splitFrom sp separators omitEmptyStrings sp 0 0

theorem substr_append (pre s rest : GoogleString) (h : (pre ++ s ++ rest).length < 2 ^ 32) :
    substr (pre ++ s ++ rest) pre.length s.length = s := by
  rw [List.length_append, List.length_append] at h
  have hpos : pre.length % 2 ^ 32 = pre.length := Nat.mod_eq_of_lt (by omega)
  have hlen : ((s.length : ℤ) % 2 ^ 32).toNat = s.length := by omega
  rw [substr, hpos, hlen, List.append_assoc, List.drop_left, List.take_left]

theorem substrFrom_append (pre s : GoogleString) (h : pre.length < 2 ^ 32) :
    substrFrom (pre ++ s) pre.length = s := by
  rw [substrFrom, Nat.mod_eq_of_lt h, List.drop_left]

theorem splitFrom_skip (sp separators : GoogleString) (omitEmptyStrings : Bool) {line : GoogleString}
    (hline : ∀ c ∈ line, c ∉ separators) (rest : GoogleString) (prevPos pos : ℕ) :
    splitFrom sp separators omitEmptyStrings (line ++ rest) prevPos pos =
      splitFrom sp separators omitEmptyStrings rest prevPos (pos + line.length) := by
  induction line generalizing pos with
  | nil => rfl
  | cons c line ih =>
    rw [List.cons_append, splitFrom, if_neg (hline c List.mem_cons_self),
      ih (fun d hd => hline d (List.mem_cons_of_mem c hd))]
    congr 1
    rw [List.length_cons]
    omega

variable {sp : GoogleString} {parts : List GoogleString}

theorem splitFrom_eq_nil {separators : GoogleString} (rest : GoogleString) (prevPos pos : ℕ)
    (hpos : sp.length = pos + rest.length) (hprev : prevPos ≤ pos)
    (hnil : splitFrom sp separators true rest prevPos pos = []) : prevPos = pos ∧ ∀ c ∈ rest, c ∈ separators := by
  induction rest generalizing prevPos pos with
  | nil =>
    rw [splitFrom] at hnil
    rw [List.length_nil] at hpos
    split at hnil
    · cases hnil
    · next hshort =>
      rw [Bool.not_true, Bool.false_or, decide_eq_true_eq] at hshort
      exact ⟨by omega, nofun⟩
  | cons c rest ih =>
    rw [List.length_cons] at hpos
    rw [splitFrom] at hnil
    split at hnil
    · next hc =>
      split at hnil
      · cases hnil
      · next hshort =>
        rw [Bool.not_true, Bool.false_or, decide_eq_true_eq] at hshort
        obtain ⟨-, hrest⟩ := ih (pos + 1) (pos + 1) (by omega) (Nat.le_refl _) hnil
        exact ⟨by omega, List.forall_mem_cons.mpr ⟨hc, hrest⟩⟩
    · obtain ⟨heq, -⟩ := ih prevPos (pos + 1) (by omega) (by omega) hnil
      omega

def unlines (lines : List GoogleString) : GoogleString := lines.flatMap (· ++ [10])

theorem splitFrom_unlines (lines : List GoogleString) (hnone : ∀ line ∈ lines, line ≠ [] ∧ 10 ∉ line)
    (pre sp : GoogleString) (hsp : sp = pre ++ unlines lines) (hlt : sp.length < 2 ^ 32) :
    splitFrom sp [10] true (unlines lines) pre.length pre.length = lines := by
  induction lines generalizing pre with
  | nil =>
    rw [hsp, unlines, List.flatMap_nil, List.append_nil, splitFrom]
    simp
  | cons line lines ih =>
    obtain ⟨hne, hfree⟩ := hnone line List.mem_cons_self
    have hsplit : sp = pre ++ line ++ 10 :: unlines lines := by
      rw [hsp, unlines, List.flatMap_cons]
      simp [unlines]
    have hrest : unlines (line :: lines) = line ++ 10 :: unlines lines := by
      rw [unlines, List.flatMap_cons]
      simp [unlines]
    have hskip : ∀ c ∈ line, c ∉ ([10] : GoogleString) := by
      rintro c hc hmem
      rw [List.mem_singleton.mp hmem] at hc
      exact hfree hc
    have hlong : pre.length < pre.length + line.length := Nat.lt_add_of_pos_right (List.length_pos_iff.mpr hne)
    have hpiece : substr sp pre.length (((pre.length + line.length : ℕ) : ℤ) - pre.length) = line := by
      have hdiff : ((pre.length + line.length : ℕ) : ℤ) - pre.length = line.length := by omega
      rw [hdiff, hsplit]
      rw [hsplit] at hlt
      exact substr_append pre line _ hlt
    have hnext := ih (fun l hl => hnone l (List.mem_cons_of_mem line hl)) (pre ++ line ++ [10])
      (by rw [hsplit]; simp)
    have hpos : (pre ++ line ++ [10]).length = pre.length + line.length + 1 := by
      rw [List.length_append, List.length_append, List.length_singleton]
    rw [hpos] at hnext
    rw [hrest, splitFrom_skip _ _ _ hskip, splitFrom, if_pos (List.mem_singleton.mpr rfl), hnext, hpiece]
    simp only [Bool.not_true, Bool.false_or, hlong, decide_true, if_true]

theorem split_unlines {lines : List GoogleString} (hnone : ∀ line ∈ lines, line ≠ [] ∧ 10 ∉ line)
    (hlt : (unlines lines).length < 2 ^ 32) : splitStringPieceToVector (unlines lines) [10] true = lines :=
  splitFrom_unlines lines hnone [] _ rfl hlt

theorem splitFrom_free {separators : GoogleString} {omitEmptyStrings : Bool} (hlt : sp.length < 2 ^ 32)
    (rest : GoogleString) : ∀ (pre cur : GoogleString), sp = pre ++ cur ++ rest → (∀ c ∈ cur, c ∉ separators) →
      ∀ piece ∈ splitFrom sp separators omitEmptyStrings rest pre.length (pre ++ cur).length,
        ∀ c ∈ piece, c ∉ separators := by
  induction rest with
  | nil =>
    intro pre cur hsp hcur piece hpiece c hc
    rw [splitFrom] at hpiece
    split_ifs at hpiece
    · rw [List.mem_singleton.mp hpiece, substr] at hc
      rw [List.append_nil] at hsp
      rw [hsp, List.length_append] at hlt
      have hc := List.mem_of_mem_take hc
      rw [Nat.mod_eq_of_lt (by omega), hsp, List.drop_left] at hc
      exact hcur c hc
    · cases hpiece
  | cons d rest ih =>
    intro pre cur hsp hcur
    rw [splitFrom]
    by_cases hd : d ∈ separators
    · have hnext := ih (pre ++ cur ++ [d]) [] (by rw [hsp]; simp) nofun
      have hpos : (pre ++ cur ++ [d]).length = (pre ++ cur).length + 1 := by
        rw [List.length_append, List.length_singleton]
      rw [List.append_nil, hpos] at hnext
      have hpiece : substr sp pre.length (((pre ++ cur).length : ℤ) - pre.length) = cur := by
        have hdiff : ((pre ++ cur).length : ℤ) - pre.length = cur.length := by
          rw [List.length_append]
          omega
        rw [hdiff, hsp]
        rw [hsp] at hlt
        exact substr_append pre cur _ hlt
      rw [if_pos hd, hpiece]
      split_ifs
      · intro piece hmem
        obtain rfl | hmem := List.mem_cons.mp hmem
        · exact hcur
        · exact hnext piece hmem
      · exact hnext
    · rw [if_neg hd]
      have hnext := ih pre (cur ++ [d]) (by rw [hsp]; simp) fun c hc => ?_
      · rw [← List.append_assoc, @List.length_append _ _ [d]] at hnext
        exact hnext
      · obtain hc | hc := List.mem_append.mp hc
        · exact hcur c hc
        · rw [List.mem_singleton.mp hc]
          exact hd

theorem split_free (separator : UInt8) (omitEmptyStrings : Bool) (hlt : sp.length < 2 ^ 32) :
    ∀ piece ∈ splitStringPieceToVector sp [separator] omitEmptyStrings, separator ∉ piece := fun piece hpiece hmem =>
  splitFrom_free hlt sp [] [] rfl nofun piece hpiece separator hmem (List.mem_singleton.mpr rfl)

theorem substr_last (pre cur : GoogleString) (h : (pre ++ cur).length < 2 ^ 31) :
    substr (pre ++ cur) pre.length (pre.length - (pre ++ cur).length : ℤ) = cur := by
  rw [List.length_append] at h
  have hpos : pre.length % 2 ^ 32 = pre.length := Nat.mod_eq_of_lt (by omega)
  have hlen : ((pre.length : ℤ) - (pre ++ cur).length) = -cur.length := by
    rw [List.length_append]
    omega
  rw [substr, hpos, hlen, List.drop_left]
  cases cur with
  | nil => exact List.take_nil
  | cons c cur =>
    rw [List.length_cons] at h ⊢
    exact List.take_of_length_le (by rw [List.length_cons]; omega)

theorem splitFrom_eq_splitOn {separator : UInt8} {omitEmptyStrings : Bool}
    (hlt : sp.length < 2 ^ 31) (rest : GoogleString) :
    ∀ (pre cur : GoogleString), sp = pre ++ cur ++ rest → separator ∉ cur →
      splitFrom sp [separator] omitEmptyStrings rest pre.length (pre ++ cur).length =
        ((cur ++ rest).splitOn separator).filter fun piece => !omitEmptyStrings || !piece.isEmpty := by
  induction rest with
  | nil =>
    intro pre cur hsp hcur
    rw [List.append_nil] at hsp
    have hlonger : decide (pre.length < (pre ++ cur).length) = !cur.isEmpty := by
      cases cur <;> simp
    rw [hsp] at hlt
    rw [List.append_nil, List.splitOn_eq_singleton hcur, splitFrom, hsp, substr_last pre cur hlt, hlonger,
      List.filter_cons, List.filter_nil]
  | cons d rest ih =>
    intro pre cur hsp hcur
    rw [splitFrom]
    by_cases hd : d = separator
    · have hnext := ih (pre ++ cur ++ [d]) [] (by rw [hsp]; simp) nofun
      have hpos : (pre ++ cur ++ [d]).length = (pre ++ cur).length + 1 := by
        rw [List.length_append, List.length_singleton]
      have hlonger : decide (pre.length < (pre ++ cur).length) = !cur.isEmpty := by
        cases cur <;> simp
      have hpiece : substr sp pre.length (((pre ++ cur).length : ℤ) - pre.length) = cur := by
        have hdiff : ((pre ++ cur).length : ℤ) - pre.length = cur.length := by
          rw [List.length_append]
          omega
        rw [hdiff, hsp]
        rw [hsp] at hlt
        exact substr_append pre cur _ (by omega)
      rw [List.append_nil, hpos, List.nil_append] at hnext
      rw [if_pos (List.mem_singleton.mpr hd), hpiece, hnext, hlonger, hd, List.splitOn_append_cons_self,
        List.splitOn_eq_singleton hcur, List.filter_append, List.filter_cons, List.filter_nil]
      split_ifs <;> rfl
    · have hnext := ih pre (cur ++ [d]) (by rw [hsp]; simp) fun hmem => ?_
      · rw [← List.append_assoc, @List.length_append _ _ [d], List.append_assoc cur] at hnext
        rw [if_neg (fun hmem => hd (List.mem_singleton.mp hmem))]
        exact hnext
      · obtain hmem | hmem := List.mem_append.mp hmem
        · exact hcur hmem
        · exact hd (List.mem_singleton.mp hmem).symm

theorem split_eq_splitOn (separator : UInt8) (omitEmptyStrings : Bool) (hlt : sp.length < 2 ^ 31) :
    splitStringPieceToVector sp [separator] omitEmptyStrings =
      (sp.splitOn separator).filter fun piece => !omitEmptyStrings || !piece.isEmpty :=
  splitFrom_eq_splitOn hlt sp [] [] rfl nofun

def joinCollection (parts : List GoogleString) (separator : GoogleString) : GoogleString :=
  separator.intercalate parts

theorem splitOn_join (separator : UInt8) (h : parts ≠ []) :
    (joinCollection parts [separator]).splitOn separator = parts.flatMap (·.splitOn separator) := by
  induction parts with
  | nil => exact absurd rfl h
  | cons part parts ih =>
    cases parts with
    | nil => rw [joinCollection, List.intercalate_singleton, List.flatMap_singleton]
    | cons next parts =>
      have hrest := ih (List.cons_ne_nil _ _)
      rw [joinCollection] at hrest ⊢
      rw [List.intercalate_cons_cons, List.append_assoc, List.singleton_append, List.splitOn_append_cons_self,
        hrest]
      rfl

theorem join_append {others : List GoogleString} (hne : parts ≠ []) (hne' : others ≠ []) (separator : GoogleString) :
    joinCollection (parts ++ others) separator =
      joinCollection parts separator ++ separator ++ joinCollection others separator := by
  induction parts with
  | nil => exact absurd rfl hne
  | cons part parts ih =>
    cases parts with
    | nil =>
      rw [joinCollection, joinCollection, joinCollection, List.singleton_append, List.intercalate_singleton,
        List.intercalate_cons_of_ne_nil hne']
    | cons next parts =>
      have hrest := ih (List.cons_ne_nil _ _)
      rw [joinCollection, joinCollection, joinCollection] at hrest ⊢
      rw [List.cons_append, List.intercalate_cons_of_ne_nil (List.append_ne_nil_of_right_ne_nil _ hne'), hrest,
        List.intercalate_cons_cons]
      simp only [List.append_assoc]

theorem length_le_join {part : GoogleString} (h : part ∈ parts) (separator : GoogleString) :
    part.length ≤ (joinCollection parts separator).length := by
  induction parts with
  | nil => cases h
  | cons next parts ih =>
    cases parts with
    | nil =>
      rw [List.mem_singleton.mp h, joinCollection, List.intercalate_singleton]
    | cons after parts =>
      rw [joinCollection] at ih ⊢
      rw [List.intercalate_cons_cons, List.length_append, List.length_append]
      obtain rfl | h := List.mem_cons.mp h
      · omega
      · have hle := ih h
        omega

theorem join_splitOn (s : GoogleString) (separator : UInt8) :
    joinCollection (s.splitOn separator) [separator] = s := List.intercalate_splitOn separator

namespace Decimal

/-- The decimal digits of a number below `10 ^ fuel`. -/
def digits : ℕ → ℕ → GoogleString
  | 0, _ => []
  | fuel + 1, n =>
    if n < 10 then [UInt8.ofNat (48 + n)] else digits fuel (n / 10) ++ [UInt8.ofNat (48 + n % 10)]

def isDigit (c : UInt8) : Bool := decide (48 ≤ c) && decide (c ≤ 57)

def isSpace (c : UInt8) : Bool := decide (c = 32) || decide (9 ≤ c) && decide (c ≤ 13)

def value (s : GoogleString) : ℕ := s.foldl (fun n c => 10 * n + (c.toNat - 48)) 0

def trim (s : GoogleString) : GoogleString := ((s.dropWhile isSpace).reverse.dropWhile isSpace).reverse

def signed : GoogleString → Bool × GoogleString
  | 45 :: s => (true, s)
  | 43 :: s => (false, s)
  | s => (false, s)

def parse (s : GoogleString) : Option Int64 :=
  let (negative, s) := signed (trim s)
  let n : ℤ := if negative then -value s else value s
  if s ≠ [] ∧ s.all isDigit ∧ -2 ^ 63 ≤ n ∧ n < 2 ^ 63 then some (Int64.ofInt n) else none

def text : Int64Text where
  integer64ToString v := if v.toInt < 0 then 45 :: digits 20 v.toInt.natAbs else digits 20 v.toInt.natAbs
  stringToInt64 := parse

theorem isDigit_ofNat {d : ℕ} (h : d < 10) : isDigit (UInt8.ofNat (48 + d)) = true := by
  interval_cases d <;> decide

theorem toNat_ofNat {d : ℕ} (h : d < 10) : (UInt8.ofNat (48 + d)).toNat - 48 = d := by
  interval_cases d <;> decide

theorem digits_all (fuel n : ℕ) : (digits fuel n).all isDigit = true := by
  induction fuel generalizing n with
  | zero => rfl
  | succ fuel ih =>
    rw [digits]
    split_ifs with h
    · rw [List.all_cons, isDigit_ofNat h, List.all_nil]
      rfl
    · rw [List.all_append, ih, List.all_cons, isDigit_ofNat (Nat.mod_lt n (by decide)), List.all_nil]
      rfl

theorem digits_ne_nil (fuel n : ℕ) : digits (fuel + 1) n ≠ [] := by
  rw [digits]
  split_ifs
  · exact List.cons_ne_nil _ _
  · exact List.append_ne_nil_of_right_ne_nil _ (List.cons_ne_nil _ _)

theorem value_append (s : GoogleString) (c : UInt8) : value (s ++ [c]) = 10 * value s + (c.toNat - 48) := by
  rw [value, List.foldl_append]
  rfl

theorem value_digits (fuel n : ℕ) (h : n < 10 ^ fuel) : value (digits fuel n) = n := by
  induction fuel generalizing n with
  | zero => rw [Nat.lt_one_iff.mp h]; rfl
  | succ fuel ih =>
    rw [digits]
    split_ifs with hlt
    · exact (value_append [] _).trans (by rw [toNat_ofNat hlt]; exact Nat.zero_add n)
    · rw [value_append, toNat_ofNat (Nat.mod_lt n (by decide)), ih _ (by rw [pow_succ] at h; omega)]
      exact Nat.div_add_mod n 10

theorem not_space_of_digit {c : UInt8} (h : isDigit c = true) : isSpace c = false := by
  unfold isDigit at h
  unfold isSpace
  grind

theorem trim_eq_self {s : GoogleString} (h : ∀ c ∈ s, isSpace c = false) : trim s = s := by
  have hdrop : ∀ l : GoogleString, (∀ c ∈ l, isSpace c = false) → l.dropWhile isSpace = l := by
    intro l hl
    cases l with
    | nil => rfl
    | cons c l => exact List.dropWhile_cons_of_neg (by rw [hl c List.mem_cons_self]; exact Bool.false_ne_true)
  rw [trim, hdrop s h, hdrop _ fun c hc => h c (List.mem_reverse.mp hc), List.reverse_reverse]

theorem signed_of_digits {s : GoogleString} (h : s.all isDigit = true) : signed s = (false, s) := by
  unfold signed
  split
  · cases h
  · cases h
  · rfl

theorem parse_text (negative : Bool) (n : ℕ) (hn : n < 10 ^ 20) (v : Int64)
    (hv : v.toInt = if negative then -(n : ℤ) else n) :
    parse (if negative then 45 :: digits 20 n else digits 20 n) = some v := by
  have hall := digits_all 20 n
  have hspace : ∀ c ∈ digits 20 n, isSpace c = false := fun c hc => not_space_of_digit (List.all_eq_true.mp hall c hc)
  have hsigned : signed (trim (if negative then 45 :: digits 20 n else digits 20 n)) = (negative, digits 20 n) := by
    cases negative with
    | true =>
      rw [if_pos rfl, trim_eq_self]
      · rfl
      · intro c hc
        obtain rfl | hc := List.mem_cons.mp hc
        · rfl
        · exact hspace c hc
    | false =>
      rw [if_neg Bool.false_ne_true, trim_eq_self hspace]
      exact signed_of_digits hall
  have hle := v.le_toInt
  have hlt := v.toInt_lt
  unfold parse
  rw [hsigned]
  simp only [value_digits 20 n hn]
  rw [← hv, if_pos ⟨digits_ne_nil 19 n, hall, hle, hlt⟩, Int64.ofInt_toInt]

theorem lawful : text.Lawful := by
  have hsmall : ∀ v : Int64, v.toInt.natAbs < 10 ^ 20 := by
    intro v
    have hle := v.le_toInt
    have hlt := v.toInt_lt
    omega
  refine ⟨fun v => ?_, fun v c hc => ?_, fun v => ?_⟩
  · have hparse := parse_text (decide (v.toInt < 0)) v.toInt.natAbs (hsmall v) v (by split_ifs <;> grind)
    simp only [decide_eq_true_eq] at hparse
    exact hparse
  · have hdigit : c ∈ digits 20 v.toInt.natAbs → c = 45 ∨ 48 ≤ c ∧ c ≤ 57 := by
      intro hmem
      have h := List.all_eq_true.mp (digits_all 20 _) c hmem
      unfold isDigit at h
      simp only [Bool.and_eq_true, decide_eq_true_eq] at h
      exact Or.inr h
    change c ∈ (if v.toInt < 0 then 45 :: digits 20 v.toInt.natAbs else digits 20 v.toInt.natAbs) at hc
    split_ifs at hc
    · obtain rfl | hc := List.mem_cons.mp hc
      · exact Or.inl rfl
      · exact hdigit hc
    · exact hdigit hc
  · change (if v.toInt < 0 then 45 :: digits 20 v.toInt.natAbs else digits 20 v.toInt.natAbs) ≠ []
    split_ifs
    · exact List.cons_ne_nil _ _
    · exact digits_ne_nil 19 _

end Decimal

def cStr (s : GoogleString) : GoogleString := s.takeWhile fun c => c ≠ 0

def stringToInt (s : GoogleString) : Option ℤ :=
  let (negative, digits) := Decimal.signed (Decimal.trim s)
  let n : ℤ := if negative then -Decimal.value digits else Decimal.value digits
  if digits ≠ [] ∧ digits.all Decimal.isDigit ∧ -2 ^ 31 ≤ n ∧ n < 2 ^ 31 then some n else none

end PageSpeed
