import PageSpeed.Lib.BinarySearch

/-!
Closed ranges that do not meet, listed in order: a scan of neighbours shows it, and a binary
search on the upper ends finds the range of a key.
-/

namespace Ranges

variable {α κ : Type} [LinearOrder κ] (lo hi : α → κ)

def Separated (l : List α) : Prop := l.Pairwise fun a b => hi a < lo b

def overlapping : List α → Bool
  | a :: b :: l => decide (lo b ≤ hi a) || overlapping (b :: l)
  | _ => false

def contains (k : κ) (a : α) : Bool := decide (lo a ≤ k) && decide (k ≤ hi a)

def lookup (k : κ) (l : List α) : Option α :=
  match l.drop (BinarySearch.lowerBound (fun a => decide (hi a < k)) l) with
  | [] => none
  | a :: _ => if contains lo hi k a then some a else none

variable {lo hi} {l : List α} {k : κ} {a b : α}

theorem Separated.sorted (h : Separated lo hi l) (hle : ∀ a ∈ l, lo a ≤ hi a) : BinarySearch.Sorted hi l := by
  refine List.Pairwise.imp_of_mem ?_ h
  intro a b _ hb hab
  exact hab.le.trans (hle b hb)

theorem separated_of_map {β : Type} {lo' hi' : β → κ} {m : List β}
    (hends : m.map (fun b => (lo' b, hi' b)) = l.map fun a => (lo a, hi a)) (h : Separated lo hi l) :
    Separated lo' hi' m := by
  have hpairs : (m.map fun b => (lo' b, hi' b)).Pairwise fun p q => p.2 < q.1 := by
    rw [hends]
    exact List.pairwise_map.mpr h
  exact List.pairwise_map.mp hpairs

theorem lookup_eq_none (h : ∀ a ∈ l, contains lo hi k a = false) : lookup lo hi k l = none := by
  rw [lookup]
  split
  · rfl
  · rename_i a rest hdrop
    have ha : a ∈ l := List.mem_of_mem_drop (hdrop ▸ List.mem_cons_self)
    rw [h a ha]
    rfl

end Ranges
