import Mathlib.Data.List.TakeWhile
import Mathlib.Order.Lattice

/-!
The binary search of a list that is sorted by a key. The search halves the range it looks at,
whether the list is sorted or not.
-/

namespace BinarySearch

variable {α κ : Type}

def lowerBoundFuel (below : α → Bool) : ℕ → List α → ℕ
  | 0, _ => 0
  | fuel + 1, l =>
    match l.drop (l.length / 2) with
    | [] => 0
    | x :: rest =>
      if below x then l.length / 2 + 1 + lowerBoundFuel below fuel rest
      else lowerBoundFuel below fuel (l.take (l.length / 2))

def lowerBound (below : α → Bool) (l : List α) : ℕ := lowerBoundFuel below l.length l

def binarySearch (below above : α → Bool) (l : List α) : Bool :=
  match l.drop (lowerBound below l) with
  | [] => false
  | x :: _ => !above x

theorem lowerBoundFuel_append {below : α → Bool} (fuel : ℕ) (front back : List α)
    (hfront : ∀ x ∈ front, below x = true) (hback : ∀ x ∈ back, below x = false)
    (hfuel : (front ++ back).length ≤ fuel) : lowerBoundFuel below fuel (front ++ back) = front.length := by
  induction fuel generalizing front back with
  | zero =>
    have hnil := List.length_eq_zero_iff.mp (Nat.le_zero.mp hfuel)
    rw [(List.append_eq_nil_iff.mp hnil).1]
    rfl
  | succ fuel ih =>
    rw [lowerBoundFuel]
    by_cases hmid : (front ++ back).length / 2 < front.length
    · obtain ⟨x, rest, hrest⟩ := List.exists_cons_of_ne_nil (List.drop_eq_nil_iff.not.mpr (Nat.not_le.mpr hmid))
      have hx : below x = true := hfront x (List.mem_of_mem_drop (hrest ▸ List.mem_cons_self))
      have hlen : rest.length + (front ++ back).length / 2 + 1 = front.length := by
        have hdrop := congrArg List.length hrest
        rw [List.length_drop, List.length_cons] at hdrop
        omega
      have hrec := ih rest back (fun y hy => hfront y (List.mem_of_mem_drop (hrest ▸ List.mem_cons_of_mem x hy))) hback
        (by rw [List.length_append] at hfuel ⊢; omega)
      rw [List.drop_append_of_le_length (by omega), hrest, List.cons_append]
      dsimp only
      rw [if_pos hx, hrec]
      omega
    · rw [List.drop_append, List.drop_of_length_le (Nat.not_lt.mp hmid), List.nil_append]
      cases hrest : back.drop ((front ++ back).length / 2 - front.length) with
      | nil =>
        have hall := List.drop_eq_nil_iff.mp hrest
        rw [List.length_append] at hmid hall
        dsimp only
        omega
      | cons x rest =>
        have hx : below x = false := hback x (List.mem_of_mem_drop (hrest ▸ List.mem_cons_self))
        dsimp only
        rw [if_neg (by rw [hx]; exact Bool.false_ne_true), List.take_append,
          List.take_of_length_le (Nat.not_lt.mp hmid)]
        have hlong : (front ++ back).length ≠ 0 := by
          intro hzero
          have hnil := List.append_eq_nil_iff.mp (List.length_eq_zero_iff.mp hzero)
          rw [hnil.2, List.drop_nil] at hrest
          cases hrest
        apply ih _ _ hfront fun y hy => hback y (List.mem_of_mem_take hy)
        rw [List.length_append, List.length_take]
        rw [List.length_append] at hfuel hmid hlong ⊢
        omega

theorem lowerBound_append {below : α → Bool} {front back : List α} (hfront : ∀ x ∈ front, below x = true)
    (hback : ∀ x ∈ back, below x = false) : lowerBound below (front ++ back) = front.length :=
  lowerBoundFuel_append _ front back hfront hback (Nat.le_refl _)

variable [LinearOrder κ] (key : α → κ)

def Sorted (l : List α) : Prop := l.Pairwise fun a b => key a ≤ key b

variable {key} {l : List α} {k : κ} {below above : α → Bool}

theorem Sorted.split (h : Sorted key l) (hbelow : ∀ x, below x = true ↔ key x < k) :
    ∃ front back, l = front ++ back ∧ (∀ x ∈ front, key x < k) ∧ (∀ x ∈ back, k ≤ key x) ∧
      lowerBound below l = front.length := by
  have hcut : l = l.takeWhile below ++ l.dropWhile below := (List.takeWhile_append_dropWhile).symm
  have hfront : ∀ x ∈ l.takeWhile below, below x = true := fun x hx => List.mem_takeWhile_imp hx
  have hback : ∀ x ∈ l.dropWhile below, k ≤ key x := by
    cases hrest : l.dropWhile below with
    | nil => nofun
    | cons y rest =>
      have hy : k ≤ key y := by
        have hstop := List.head?_dropWhile_not below l
        rw [hrest] at hstop
        exact not_lt.mp ((hbelow y).not.mp (Bool.eq_false_iff.mp hstop))
      have hsorted : Sorted key (y :: rest) := hrest ▸ h.sublist (List.dropWhile_sublist _)
      intro x hx
      obtain rfl | hx := List.mem_cons.mp hx
      · exact hy
      · exact hy.trans ((List.pairwise_cons.mp hsorted).1 x hx)
  have hbound := lowerBound_append hfront
    fun x hx => Bool.eq_false_iff.mpr ((hbelow x).not.mpr (not_lt.mpr (hback x hx)))
  rw [List.takeWhile_append_dropWhile] at hbound
  exact ⟨_, _, hcut, fun x hx => (hbelow x).mp (hfront x hx), hback, hbound⟩

theorem Sorted.binarySearch_iff (h : Sorted key l) (hbelow : ∀ x, below x = true ↔ key x < k)
    (habove : ∀ x, above x = true ↔ k < key x) : binarySearch below above l = true ↔ ∃ x ∈ l, key x = k := by
  obtain ⟨front, back, hcut, hfront, hback, hbound⟩ := h.split hbelow
  have hsorted : Sorted key back := h.sublist (hcut ▸ List.sublist_append_right front back)
  have hiff : (∃ x ∈ l, key x = k) ↔ ∃ x ∈ back, key x = k := by
    constructor
    · rintro ⟨x, hx, heq⟩
      rw [hcut] at hx
      obtain hx | hx := List.mem_append.mp hx
      · exact absurd heq (hfront x hx).ne
      · exact ⟨x, hx, heq⟩
    · rintro ⟨x, hx, heq⟩
      exact ⟨x, hcut ▸ List.mem_append_right front hx, heq⟩
  rw [hiff, binarySearch, hbound, hcut, List.drop_left]
  cases back with
  | nil => simp
  | cons y rest =>
    have hy := hback y List.mem_cons_self
    dsimp only
    rw [Bool.not_eq_true', Bool.eq_false_iff, Ne, habove, not_lt]
    constructor
    · intro hle
      exact ⟨y, List.mem_cons_self, le_antisymm hle hy⟩
    · rintro ⟨x, hx, heq⟩
      obtain rfl | hx := List.mem_cons.mp hx
      · exact heq.le
      · exact ((List.pairwise_cons.mp hsorted).1 x hx).trans heq.le

theorem Sorted.insert_lowerBound (h : Sorted key l) {a : α} (hbelow : ∀ x, below x = true ↔ key x < key a) :
    Sorted key (l.take (lowerBound below l) ++ a :: l.drop (lowerBound below l)) := by
  obtain ⟨front, back, hcut, hfront, hback, hbound⟩ := h.split hbelow
  rw [hbound, hcut, List.take_left, List.drop_left]
  rw [hcut] at h
  obtain ⟨hsf, hsb, hcross⟩ := List.pairwise_append.mp h
  apply List.pairwise_append.mpr
  constructor
  · exact hsf
  constructor
  · exact List.pairwise_cons.mpr ⟨hback, hsb⟩
  · intro x hx y hy
    obtain rfl | hy := List.mem_cons.mp hy
    · exact (hfront x hx).le
    · exact hcross x hx y hy

end BinarySearch
