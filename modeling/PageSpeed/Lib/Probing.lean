import Mathlib.Data.Finset.Card

/-!
Hash tables with linear probing, as functions from their slots: which entries are met
on the way from a hash to another entry, and that there is room.
-/

namespace PageSpeed.Probing

variable {α : Type*} {size : ℕ} {table : ℕ → α} {free x y : α} {P : α → Prop} {h : ℕ}

/-- From the slot of `h` on, the entry `x` comes after entries that satisfy `P`. -/
def Reached (size : ℕ) (table : ℕ → α) (P : α → Prop) (h : ℕ) (x : α) : Prop :=
  ∃ q < size, table ((h + q) % size) = x ∧ ∀ r < q, P (table ((h + r) % size))

/-- The table with `y` in a slot. -/
def put (table : ℕ → α) (slot : ℕ) (y : α) : ℕ → α := fun s => if s = slot then y else table s

theorem Reached.put {slot : ℕ} (hr : Reached size table P h x) (hslot : table slot = free) (hx : x ≠ free)
    (hP : ∀ z, P z → z ≠ free) : Reached size (put table slot y) P h x := by
  have hother : ∀ s, table s ≠ free → Probing.put table slot y s = table s := by
    intro s hs
    refine if_neg ?_
    rintro rfl
    exact hs hslot
  obtain ⟨q, hq, heq, hbefore⟩ := hr
  refine ⟨q, hq, ?_, fun r hr => ?_⟩
  · rw [hother _ (heq ▸ hx), heq]
  · rw [hother _ (hP _ (hbefore r hr))]
    exact hbefore r hr

theorem exists_free [DecidableEq α] (entries : Finset α) (hcard : entries.card < size)
    (hmem : ∀ s < size, table s ≠ free → table s ∈ entries)
    (hinj : ∀ s < size, ∀ t < size, table s ≠ free → table s = table t → s = t) (h : ℕ) :
    ∃ q < size, table ((h + q) % size) = free := by
  by_contra hnone
  have hfull : ∀ s < size, table s ≠ free := by
    intro s hs hfree
    refine hnone ⟨(s + size - h % size) % size, Nat.mod_lt _ (by omega), ?_⟩
    have hlt : h % size < size := Nat.mod_lt _ (by omega)
    have hslot : (h + (s + size - h % size) % size) % size = s := by
      rw [Nat.add_mod_mod, ← Nat.mod_add_mod, show h % size + (s + size - h % size) = s + size by omega,
        Nat.add_mod_right, Nat.mod_eq_of_lt hs]
    rw [hslot]
    exact hfree
  have hle : (Finset.range size).card ≤ entries.card := by
    refine Finset.card_le_card_of_injOn table (fun s hs => ?_) fun s hs t ht heq => ?_
    · have hs := Finset.mem_range.mp hs
      exact hmem s hs (hfull s hs)
    · have hs := Finset.mem_range.mp hs
      exact hinj s hs t (Finset.mem_range.mp ht) (hfull s hs) heq
  rw [Finset.card_range] at hle
  omega

theorem reached_put {q : ℕ} (hq : q < size) (hfree : table ((h + q) % size) = free)
    (hbefore : ∀ r < q, table ((h + r) % size) ≠ free) (hP : ∀ s < size, table s ≠ free → P (table s)) :
    Reached size (put table ((h + q) % size) y) P h y := by
  refine ⟨q, hq, if_pos rfl, fun r hr => ?_⟩
  have hne : (h + r) % size ≠ (h + q) % size := by
    intro heq
    exact hbefore r hr (heq ▸ hfree)
  unfold put
  rw [if_neg hne]
  exact hP _ (Nat.mod_lt _ (by omega)) (hbefore r hr)

end PageSpeed.Probing
