import Mathlib.Data.List.Nodup
import Mathlib.Algebra.Order.BigOperators.Group.List
import Mathlib.Algebra.Order.Ring.Nat

/-!
Weighted keyed records, oldest first, and the eviction of the oldest ones until
the rest fits a budget.
-/

namespace PageSpeed.Records

variable {K V : Type*}

def weight (w : K × V → ℕ) (l : List (K × V)) : ℕ := (l.map w).sum

/-- The oldest records that go until the rest weighs at most `room`. -/
def dropped (w : K × V → ℕ) (room : ℕ) : List (K × V) → List (K × V)
  | [] => []
  | e :: l => if room < weight w (e :: l) then e :: dropped w room l else []

def kept (w : K × V → ℕ) (room : ℕ) : List (K × V) → List (K × V)
  | [] => []
  | e :: l => if room < weight w (e :: l) then kept w room l else e :: l

@[simp] theorem weight_nil (w : K × V → ℕ) : weight w [] = 0 := rfl

@[simp] theorem weight_cons (w : K × V → ℕ) (e : K × V) (l : List (K × V)) :
    weight w (e :: l) = w e + weight w l := by simp [weight]

@[simp] theorem weight_append (w : K × V → ℕ) (l m : List (K × V)) :
    weight w (l ++ m) = weight w l + weight w m := by simp [weight]

theorem dropped_append_kept (w : K × V → ℕ) (room : ℕ) (l : List (K × V)) :
    dropped w room l ++ kept w room l = l := by
  induction l with
  | nil => rfl
  | cons e l ih =>
    unfold dropped kept
    split_ifs
    · simp [ih]
    · rfl

theorem weight_kept (w : K × V → ℕ) (room : ℕ) (l : List (K × V)) : weight w (kept w room l) ≤ room := by
  induction l with
  | nil => simp [kept]
  | cons e l ih =>
    unfold kept
    split_ifs with h
    · exact ih
    · exact Nat.le_of_not_lt h

theorem dropped_shortest {w : K × V → ℕ} {room : ℕ} {l d m : List (K × V)} (hl : l = d ++ m)
    (hm : weight w m ≤ room) : (dropped w room l).length ≤ d.length := by
  induction l generalizing d with
  | nil => exact Nat.zero_le _
  | cons e l ih =>
    unfold dropped
    split_ifs with h
    · cases d with
      | nil =>
        rw [List.nil_append] at hl
        rw [hl] at h
        exact absurd hm (Nat.not_le.mpr h)
      | cons f d =>
        rw [List.cons_append] at hl
        exact Nat.succ_le_succ (ih (List.cons.inj hl).2)
    · exact Nat.zero_le _

theorem kept_of_le {w : K × V → ℕ} {room : ℕ} {l : List (K × V)} (h : weight w l ≤ room) :
    kept w room l = l ∧ dropped w room l = [] := by
  cases l with
  | nil => exact ⟨rfl, rfl⟩
  | cons e l =>
    rw [kept, dropped, if_neg (Nat.not_lt.mpr h), if_neg (Nat.not_lt.mpr h)]
    exact ⟨rfl, rfl⟩

variable [DecidableEq K]

def find (k : K) (l : List (K × V)) : Option V := (l.find? (·.1 = k)).map Prod.snd

def remove (k : K) (l : List (K × V)) : List (K × V) := l.filter fun e => !decide (e.1 = k)

@[simp] theorem find_nil (k : K) : find k ([] : List (K × V)) = none := rfl

theorem find_cons (k : K) (e : K × V) (l : List (K × V)) :
    find k (e :: l) = if e.1 = k then some e.2 else find k l := by
  unfold find
  by_cases h : e.1 = k <;> simp [h]

theorem find_eq_none {k : K} {l : List (K × V)} : find k l = none ↔ k ∉ l.map Prod.fst := by
  simp only [find, Option.map_eq_none_iff, List.find?_eq_none, decide_eq_true_eq, List.mem_map, not_exists,
    not_and]

theorem mem_of_find {k : K} {v : V} {l : List (K × V)} (h : find k l = some v) : (k, v) ∈ l := by
  induction l with
  | nil => simp at h
  | cons e l ih =>
    rw [find_cons] at h
    split_ifs at h with he
    · cases h
      exact List.mem_cons.mpr (Or.inl (by rw [← he]))
    · exact List.mem_cons_of_mem _ (ih h)

theorem find_of_mem {k : K} {v : V} {l : List (K × V)} (hl : (l.map Prod.fst).Nodup) (h : (k, v) ∈ l) :
    find k l = some v := by
  induction l with
  | nil => simp at h
  | cons e l ih =>
    simp only [List.map_cons, List.nodup_cons] at hl
    rw [find_cons]
    rcases List.mem_cons.mp h with rfl | h
    · simp
    · have he : e.1 ≠ k := fun he => hl.1 (he ▸ List.mem_map_of_mem h)
      rw [if_neg he]
      exact ih hl.2 h

theorem remove_of_not_mem {k : K} {l : List (K × V)} (h : k ∉ l.map Prod.fst) : remove k l = l := by
  apply List.filter_eq_self.mpr
  intro e he
  have hk : e.1 ≠ k := fun hk => h (hk ▸ List.mem_map_of_mem he)
  simp [hk]

theorem weight_remove (w : K × V → ℕ) {k : K} {v : V} {l : List (K × V)} (hl : (l.map Prod.fst).Nodup)
    (h : (k, v) ∈ l) : weight w l = w (k, v) + weight w (remove k l) := by
  induction l with
  | nil => cases h
  | cons e l ih =>
    obtain ⟨hnot, hnodup⟩ := List.nodup_cons.mp hl
    obtain rfl | hmem := List.mem_cons.mp h
    · have hself : remove k ((k, v) :: l) = remove k l := by simp [remove]
      rw [weight_cons, hself, remove_of_not_mem hnot]
    · have hne : e.1 ≠ k := fun he => hnot (he ▸ List.mem_map_of_mem hmem)
      have hother : remove k (e :: l) = e :: remove k l := by simp [remove, hne]
      rw [weight_cons, hother, weight_cons, ih hnodup hmem]
      omega

theorem weight_remove_le (w : K × V → ℕ) (k : K) (l : List (K × V)) : weight w (remove k l) ≤ weight w l :=
  (List.filter_sublist.map w).sum_le_sum fun _ _ => Nat.zero_le _

def insert (w : K × V → ℕ) (budget : ℕ) (e : K × V) (l : List (K × V)) : List (K × V) × List (K × V) :=
  if w e < budget then (kept w (budget - w e) l ++ [e], dropped w (budget - w e) l) else (l, [])

def put (w : K × V → ℕ) (budget : ℕ) (replace equal : V → V → Bool) (k : K) (v : V)
    (l : List (K × V)) : List (K × V) × List (K × V) :=
  match find k l with
  | some old =>
    if !replace old v then (l, [])
    else if equal v old then (remove k l ++ [(k, old)], [])
    else insert w budget (k, v) (remove k l)
  | none => insert w budget (k, v) l

omit [DecidableEq K] in
theorem weight_insert_le {w : K × V → ℕ} {budget : ℕ} (e : K × V) {l : List (K × V)} (h : weight w l ≤ budget) :
    weight w (insert w budget e l).1 ≤ budget := by
  unfold insert
  split_ifs with hfit
  · have hkept := weight_kept w (budget - w e) l
    rw [weight_append, weight_cons, weight_nil]
    omega
  · exact h

omit [DecidableEq K] in
theorem insert_of_room {w : K × V → ℕ} {budget : ℕ} {e : K × V} {l : List (K × V)} (hfit : w e < budget)
    (h : weight w l + w e ≤ budget) : insert w budget e l = (l ++ [e], []) := by
  obtain ⟨hkept, hdropped⟩ := kept_of_le (by omega : weight w l ≤ budget - w e)
  rw [insert, if_pos hfit, hkept, hdropped]

end PageSpeed.Records
