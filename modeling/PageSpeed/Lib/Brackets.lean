import Mathlib.Data.List.Count

/-!
Traces of things that are opened and closed, each inside the one opened last. An event
carries the thing it is said to stand in, and `Nested es is` says that `es` is such a trace,
right about where its events stand, and that `is` is open after it, the innermost first.
-/

namespace PageSpeed.Brackets

variable {ι : Type*}

inductive Event (ι : Type*)
  | opened (i : ι) (parent : Option ι)
  | closed (i : ι) (parent : Option ι)
  | inside (parent : Option ι)

variable [DecidableEq ι]

def Event.opens (i : ι) : Event ι → Bool
  | .opened j _ => decide (j = i)
  | _ => false

def Event.closes (i : ι) : Event ι → Bool
  | .closed j _ => decide (j = i)
  | _ => false

inductive Nested : List (Event ι) → List ι → Prop
  | nil : Nested [] []
  | opened {es is i} : Nested es is → es.countP (Event.opens i) = 0 → Nested (es ++ [.opened i is.head?]) (i :: is)
  | closed {es is i} : Nested es (i :: is) → Nested (es ++ [.closed i is.head?]) is
  | inside {es is} : Nested es is → Nested (es ++ [.inside is.head?]) is

variable {es : List (Event ι)} {is : List ι} {i : ι}

omit [DecidableEq ι] in
theorem countP_snoc (p : Event ι → Bool) (e : Event ι) :
    (es ++ [e]).countP p = es.countP p + if p e then 1 else 0 := by
  rw [List.countP_append, List.countP_singleton]

theorem Nested.balance (h : Nested es is) (i : ι) :
    es.countP (Event.closes i) + is.count i = es.countP (Event.opens i) := by
  induction h with
  | nil => rfl
  | @opened es is j h hnew ih =>
    rw [countP_snoc, countP_snoc, List.count_cons]
    simp only [Event.closes, Event.opens, decide_eq_true_eq, beq_iff_eq, Bool.false_eq_true, if_false]
    omega
  | @closed es is j h ih =>
    rw [List.count_cons] at ih
    rw [countP_snoc, countP_snoc]
    simp only [Event.closes, Event.opens, decide_eq_true_eq, beq_iff_eq, Bool.false_eq_true, if_false] at ih ⊢
    omega
  | inside h ih =>
    rw [countP_snoc, countP_snoc]
    exact ih

theorem Nested.opens_le_one (h : Nested es is) (i : ι) : es.countP (Event.opens i) ≤ 1 := by
  induction h with
  | nil => exact Nat.zero_le 1
  | @opened es is j h hnew ih =>
    rw [countP_snoc]
    by_cases hj : j = i
    · subst hj
      rw [hnew]
      simp [Event.opens]
    · simpa [Event.opens, hj] using ih
  | closed h ih =>
    rw [countP_snoc]
    exact ih
  | inside h ih =>
    rw [countP_snoc]
    exact ih

theorem Nested.closed_once (h : Nested es is) {p : Option ι} (hopened : .opened i p ∈ es) (hi : i ∉ is) :
    es.countP (Event.opens i) = 1 ∧ es.countP (Event.closes i) = 1 := by
  have hpos : 0 < es.countP (Event.opens i) := List.countP_pos_iff.mpr ⟨_, hopened, decide_eq_true rfl⟩
  have hbalance := h.balance i
  have hone := h.opens_le_one i
  rw [List.count_eq_zero_of_not_mem hi] at hbalance
  omega

end PageSpeed.Brackets
