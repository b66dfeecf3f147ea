import PageSpeed.Lib.Records

/-!
Maps kept as lists in the order of their keys, as `std::map` keeps them: no key occurs twice.
-/

structure SortedMap (K V : Type) where
  entries : List (K × V)
  nodup : (entries.map Prod.fst).Nodup

namespace SortedMap

open PageSpeed

variable {K V : Type}

def empty : SortedMap K V := ⟨[], List.nodup_nil⟩

def keys (m : SortedMap K V) : List K := m.entries.map Prod.fst

def place (lt : K → K → Bool) (k : K) (v : V) : List (K × V) → List (K × V)
  | [] => [(k, v)]
  | e :: l => if lt k e.1 then (k, v) :: e :: l else e :: place lt k v l

theorem perm_place (lt : K → K → Bool) (k : K) (v : V) (l : List (K × V)) : (place lt k v l).Perm ((k, v) :: l) := by
  induction l with
  | nil => exact List.Perm.refl _
  | cons e l ih =>
    rw [place]
    split_ifs
    · exact List.Perm.refl _
    · exact (ih.cons e).trans (List.Perm.swap (k, v) e l)

variable [DecidableEq K]

def get (m : SortedMap K V) (k : K) : Option V := Records.find k m.entries

def change (k : K) (f : V → V) (l : List (K × V)) : List (K × V) :=
  l.map fun e => if e.1 = k then (e.1, f e.2) else e

theorem keys_change (k : K) (f : V → V) (l : List (K × V)) : (change k f l).map Prod.fst = l.map Prod.fst := by
  rw [change, List.map_map]
  apply List.map_congr_left
  intro e _
  dsimp only [Function.comp]
  split_ifs <;> rfl

def insert (lt : K → K → Bool) (m : SortedMap K V) (k : K) (v : V) : SortedMap K V :=
  if h : Records.find k m.entries = none then
    ⟨place lt k v m.entries, by
      rw [((perm_place lt k v m.entries).map Prod.fst).nodup_iff]
      exact List.nodup_cons.mpr ⟨Records.find_eq_none.mp h, m.nodup⟩⟩
  else m

def modify (m : SortedMap K V) (k : K) (f : V → V) : SortedMap K V :=
  ⟨change k f m.entries, by rw [keys_change]; exact m.nodup⟩

def filterMap (m : SortedMap K V) (f : V → Option V) : SortedMap K V :=
  ⟨m.entries.filterMap fun e => (f e.2).map (e.1, ·), by
    refine List.Nodup.sublist ?_ m.nodup
    rw [List.map_filterMap]
    induction m.entries with
    | nil => exact List.Sublist.refl _
    | cons e l ih =>
      rw [List.map_cons]
      cases hf : f e.2 with
      | none =>
        rw [List.filterMap_cons_none (by rw [hf]; rfl)]
        exact ih.cons _
      | some v =>
        rw [List.filterMap_cons_some (by rw [hf]; rfl)]
        exact ih.cons_cons _⟩

variable (lt : K → K → Bool) (m : SortedMap K V) (j k : K) (v : V) (f : V → V)

@[simp] theorem get_empty : (empty : SortedMap K V).get k = none := rfl

theorem mem_keys : k ∈ m.keys ↔ (m.get k).isSome = true := by
  rw [← not_iff_not, keys, get, Bool.not_eq_true, Option.isSome_eq_false_iff, Option.isNone_iff_eq_none,
    Records.find_eq_none]

theorem find_place (l : List (K × V)) (h : Records.find k l = none) :
    Records.find j (place lt k v l) = if j = k then some v else Records.find j l := by
  induction l with
  | nil =>
    rw [place, Records.find_cons]
    by_cases hj : j = k
    · rw [if_pos hj, if_pos hj.symm]
    · rw [if_neg hj, if_neg (Ne.symm hj)]
  | cons e l ih =>
    rw [Records.find_cons] at h
    split_ifs at h with he
    rw [place]
    split_ifs with hlt hj hj
    · rw [Records.find_cons, if_pos hj.symm]
    · rw [Records.find_cons, if_neg (Ne.symm hj)]
    · rw [Records.find_cons, if_neg (hj ▸ he), ih h, if_pos hj]
    · rw [Records.find_cons, ih h, if_neg hj, ← Records.find_cons]

theorem get_insert : (m.insert lt k v).get j = if j = k then some ((m.get k).getD v) else m.get j := by
  unfold insert
  split_ifs with h hj hj
  · rw [get, find_place lt j k v m.entries h, if_pos hj, get, h, Option.getD_none]
  · rw [get, find_place lt j k v m.entries h, if_neg hj, get]
  · obtain ⟨w, hw⟩ := Option.ne_none_iff_exists'.mp h
    rw [hj, get, hw, Option.getD_some]
  · rfl

theorem get_modify : (m.modify k f).get j = if j = k then (m.get k).map f else m.get j := by
  unfold modify get
  dsimp only
  induction m.entries with
  | nil => split_ifs <;> rfl
  | cons e l ih =>
    rw [change, List.map_cons, Records.find_cons, Records.find_cons, Records.find_cons]
    rw [change] at ih
    by_cases hk : e.1 = k
    · by_cases hj : j = k
      · simp [hk, hj]
      · simp [hk, hj, Ne.symm hj, ih]
    · by_cases hj : j = k
      · rw [if_pos hj, hj] at ih
        simp [hk, hj, ih]
      · by_cases he : e.1 = j <;> simp [hk, hj, he, ih]

theorem get_filterMap (f : V → Option V) : (m.filterMap f).get k = (m.get k).bind f := by
  obtain ⟨entries, hkeys⟩ := m
  unfold filterMap get
  dsimp only
  induction entries with
  | nil => rfl
  | cons e l ih =>
    rw [List.map_cons, List.nodup_cons] at hkeys
    specialize ih hkeys.2
    rw [Records.find_cons]
    cases hf : f e.2 with
    | none =>
      rw [List.filterMap_cons_none (by rw [hf]; rfl), ih]
      split_ifs with hk
      · rw [Option.bind_some, hf, Records.find_eq_none.mpr (hk ▸ hkeys.1), Option.bind_none]
      · rfl
    | some v =>
      rw [List.filterMap_cons_some (by rw [hf]; rfl), Records.find_cons, ih]
      split_ifs with hk
      · rw [Option.bind_some, hf]
      · rfl

@[simp] theorem keys_modify : (m.modify k f).keys = m.keys := keys_change k f m.entries

theorem perm_keys_insert (h : m.get k = none) : (m.insert lt k v).keys.Perm (k :: m.keys) := by
  unfold insert
  rw [dif_pos (show Records.find k m.entries = none from h)]
  exact (perm_place lt k v m.entries).map Prod.fst

end SortedMap
