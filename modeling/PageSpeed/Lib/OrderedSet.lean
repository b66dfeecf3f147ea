import Mathlib.Data.List.Basic
import Mathlib.Order.Lattice

/-!
Sets kept as lists in the order of a key, as `std::set` keeps them: an element is
found by its key, and the keys of the elements must not change while they are in.
-/

namespace PageSpeed.OrderedSet

variable {α κ : Type*} [LinearOrder κ] {k k' : α → κ} {x y : α} {l : List α}

def insert (k : α → κ) (x : α) : List α → List α
  | [] => [x]
  | y :: l => if k x < k y then x :: y :: l else if k y < k x then y :: insert k x l else y :: l

def erase (k : α → κ) (x : α) (l : List α) : List α := l.filter fun y => k y ≠ k x

def Ordered (k : α → κ) (l : List α) : Prop := l.Pairwise fun x y => k x < k y

theorem mem_insert_of_new (hk : ∀ z ∈ l, k z = k x → z = x) : y ∈ insert k x l ↔ y = x ∨ y ∈ l := by
  induction l with
  | nil => simp [insert]
  | cons z l ih =>
    unfold insert
    split_ifs with hlt hgt
    · rw [List.mem_cons]
    · rw [List.mem_cons, ih fun w hw => hk w (List.mem_cons_of_mem z hw), List.mem_cons]
      tauto
    · obtain rfl : z = x := hk z List.mem_cons_self (le_antisymm (not_lt.mp hlt) (not_lt.mp hgt))
      simp

theorem mem_insert (hk : k.Injective) : y ∈ insert k x l ↔ y = x ∨ y ∈ l :=
  mem_insert_of_new fun _ _ heq => hk heq

theorem eq_or_mem_of_mem_insert (h : y ∈ insert k x l) : y = x ∨ y ∈ l := by
  induction l with
  | nil => exact Or.inl (List.mem_singleton.mp h)
  | cons z l ih =>
    unfold insert at h
    split_ifs at h with hlt hgt
    · exact List.mem_cons.mp h
    · obtain rfl | h := List.mem_cons.mp h
      · exact Or.inr List.mem_cons_self
      · exact (ih h).imp_right (List.mem_cons_of_mem z)
    · exact Or.inr h

theorem insert_ordered (h : Ordered k l) : Ordered k (insert k x l) := by
  induction l with
  | nil => exact List.pairwise_singleton _ x
  | cons z l ih =>
    obtain ⟨hz, hl⟩ := List.pairwise_cons.mp h
    unfold insert
    split_ifs with hlt hgt
    · refine List.pairwise_cons.mpr ⟨fun y hy => ?_, h⟩
      obtain rfl | hy := List.mem_cons.mp hy
      · exact hlt
      · exact hlt.trans (hz y hy)
    · refine List.pairwise_cons.mpr ⟨fun y hy => ?_, ih hl⟩
      obtain rfl | hy := eq_or_mem_of_mem_insert hy
      · exact hgt
      · exact hz y hy
    · exact h

theorem insert_first (h : ∀ y ∈ l.head?, k x < k y) : insert k x l = x :: l := by
  cases l with
  | nil => rfl
  | cons y l => exact if_pos (h y rfl)

theorem head?_insert (hlt : k y < k x) : (insert k x (y :: l)).head? = some y := by
  rw [insert, if_neg hlt.not_gt, if_pos hlt]
  rfl

theorem mem_erase (hk : k.Injective) : y ∈ erase k x l ↔ y ∈ l ∧ y ≠ x := by
  simp [erase, hk.eq_iff]

theorem erase_of_notMem (hk : k.Injective) (h : x ∉ l) : erase k x l = l := by
  refine List.filter_eq_self.mpr fun y hy => ?_
  have hne : y ≠ x := fun he => h (he ▸ hy)
  simpa [hk.eq_iff] using hne

theorem head?_erase (hk : k.Injective) (h : l.head? = some y) (hne : y ≠ x) : (erase k x l).head? = some y := by
  cases l with
  | nil => cases h
  | cons z l =>
    obtain rfl := Option.some.inj h
    have hkeep : k z ≠ k x := fun he => hne (hk he)
    simp [erase, hkeep]

theorem erase_first (hk : k.Injective) (h : Ordered k (x :: l)) : erase k x (x :: l) = l := by
  have hx : x ∉ l := fun hx => lt_irrefl _ ((List.pairwise_cons.mp h).1 x hx)
  have hcons : erase k x (x :: l) = erase k x l := by simp [erase]
  rw [hcons, erase_of_notMem hk hx]

theorem erase_ordered (h : Ordered k l) : Ordered k (erase k x l) := List.Pairwise.sublist List.filter_sublist h

theorem Ordered.nodup (h : Ordered k l) : l.Nodup :=
  List.Pairwise.imp (fun hlt => ne_of_apply_ne k hlt.ne) h

theorem Ordered.congr (h : Ordered k l) (hkey : ∀ x ∈ l, k' x = k x) : Ordered k' l := by
  refine List.Pairwise.imp_of_mem (fun {a b} ha hb hlt => ?_) h
  rw [hkey a ha, hkey b hb]
  exact hlt

theorem Ordered.first_le (h : Ordered k (x :: l)) (hy : y ∈ x :: l) : k x ≤ k y := by
  obtain rfl | hy := List.mem_cons.mp hy
  · exact le_refl _
  · exact ((List.pairwise_cons.mp h).1 y hy).le

end PageSpeed.OrderedSet
