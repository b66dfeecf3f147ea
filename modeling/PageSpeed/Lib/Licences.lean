import Mathlib.Data.List.Lattice

/-!
Items that are kept as long as a bag has them: a bag of its own for every key, against one bag for
all the keys.
-/

namespace PageSpeed.Licences

section Bag

variable {α : Type*} [DecidableEq α]

def taken (bag values : List α) : List α := values.bagInter bag

def rest (bag values : List α) : List α := bag.diff values

@[simp]
theorem taken_nil (bag : List α) : taken bag [] = [] := List.nil_bagInter bag

theorem taken_cons_of_mem {bag : List α} {a : α} (h : a ∈ bag) (values : List α) :
    taken bag (a :: values) = a :: taken (bag.erase a) values := List.cons_bagInter_of_mem values h

theorem taken_cons_of_not_mem {bag : List α} {a : α} (h : a ∉ bag) (values : List α) :
    taken bag (a :: values) = taken bag values := List.cons_bagInter_of_not_mem values h

theorem count_taken (bag values : List α) (a : α) : (taken bag values).count a = min (values.count a) (bag.count a) :=
  List.count_bagInter

theorem taken_sublist (bag values : List α) : (taken bag values).Sublist values := List.bagInter_sublist_left

@[simp]
theorem rest_nil (bag : List α) : rest bag [] = bag := List.diff_nil bag

theorem rest_cons (bag : List α) (a : α) (values : List α) : rest bag (a :: values) = rest (bag.erase a) values :=
  List.diff_cons bag values a

theorem rest_append (bag values others : List α) : rest bag (values ++ others) = rest (rest bag values) others :=
  List.diff_append bag values others

end Bag

variable {κ α : Type*} [DecidableEq κ] [DecidableEq α]

def separate (bags : κ → List α) : List (κ × α) → List α
  | [] => []
  | (k, a) :: items =>
    if a ∈ bags k then a :: separate (Function.update bags k ((bags k).erase a)) items else separate bags items

def itemsOf (k : κ) (items : List (κ × α)) : List α := items.flatMap fun item => if item.1 = k then [item.2] else []

def left (bags : κ → List α) (items : List (κ × α)) (k : κ) : List α := rest (bags k) (itemsOf k items)

omit [DecidableEq α] in
theorem itemsOf_cons (k : κ) (item : κ × α) (items : List (κ × α)) :
    itemsOf k (item :: items) = (if item.1 = k then [item.2] else []) ++ itemsOf k items := List.flatMap_cons

theorem left_cons (bags : κ → List α) (k : κ) (a : α) (items : List (κ × α)) :
    left bags ((k, a) :: items) = left (Function.update bags k ((bags k).erase a)) items := by
  funext k'
  rw [left, left, itemsOf_cons]
  by_cases h : k = k'
  · subst h
    rw [if_pos rfl, Function.update_self, List.singleton_append, rest_cons]
  · rw [if_neg h, Function.update_of_ne (Ne.symm h), List.nil_append]

omit [DecidableEq α] in
theorem itemsOf_append (k : κ) (items others : List (κ × α)) :
    itemsOf k (items ++ others) = itemsOf k items ++ itemsOf k others := List.flatMap_append

theorem left_append (bags : κ → List α) (items others : List (κ × α)) :
    left bags (items ++ others) = left (left bags items) others := by
  funext k
  rw [left, left, left, itemsOf_append, rest_append]

theorem left_single (bags : κ → List α) (k : κ) (values : List α) :
    left bags (values.map (Prod.mk k)) = Function.update bags k (rest (bags k) values) := by
  funext k'
  rw [left]
  by_cases h : k' = k
  · subst h
    have hall : itemsOf k' (values.map (Prod.mk k')) = values := by
      rw [itemsOf, List.flatMap_map]
      simp only [if_true]
      exact List.flatMap_singleton' values
    rw [hall, Function.update_self]
  · have hnone : itemsOf k' (values.map (Prod.mk k)) = [] := by
      rw [itemsOf, List.flatMap_map, List.flatMap_eq_nil_iff]
      exact fun _ _ => if_neg (Ne.symm h)
    rw [hnone, Function.update_of_ne h, rest_nil]

theorem update_erase_of_not_mem {bags : κ → List α} {k : κ} {a : α} (h : a ∉ bags k) :
    Function.update bags k ((bags k).erase a) = bags := by
  rw [List.erase_of_not_mem h, Function.update_eq_self]

theorem separate_append (bags : κ → List α) (items others : List (κ × α)) :
    separate bags (items ++ others) = separate bags items ++ separate (left bags items) others := by
  induction items generalizing bags with
  | nil => rfl
  | cons item items ih =>
    obtain ⟨k, a⟩ := item
    rw [List.cons_append, separate, separate, left_cons]
    split_ifs with h
    · rw [ih, List.cons_append]
    · rw [ih, update_erase_of_not_mem h]

theorem separate_single (bags : κ → List α) (k : κ) (values : List α) :
    separate bags (values.map (Prod.mk k)) = taken (bags k) values := by
  induction values generalizing bags with
  | nil => exact (taken_nil _).symm
  | cons a values ih =>
    rw [List.map_cons, separate]
    split_ifs with h
    · rw [ih, Function.update_self, taken_cons_of_mem h]
    · rw [ih, taken_cons_of_not_mem h]

theorem separate_congr {bags bags' : κ → List α} {items : List (κ × α)} (h : ∀ item ∈ items, bags item.1 = bags' item.1) :
    separate bags items = separate bags' items := by
  induction items generalizing bags bags' with
  | nil => rfl
  | cons item items ih =>
    obtain ⟨k, a⟩ := item
    have hk : bags k = bags' k := h (k, a) List.mem_cons_self
    have hrest : ∀ item ∈ items, bags item.1 = bags' item.1 := fun item hitem => h item (List.mem_cons_of_mem _ hitem)
    rw [separate, separate, hk, ih hrest]
    have hupdate : separate (Function.update bags k ((bags' k).erase a)) items =
        separate (Function.update bags' k ((bags' k).erase a)) items := by
      apply ih
      intro item hitem
      by_cases heq : item.1 = k
      · rw [heq, Function.update_self, Function.update_self]
      · rw [Function.update_of_ne heq, Function.update_of_ne heq, hrest item hitem]
    rw [hupdate]

theorem le_count_separate (a : α) (k : κ) (items : List (κ × α)) (bags : κ → List α) (c : ℕ)
    (hbags : ∀ k', k' ≠ k → c ≤ (bags k').count a) :
    min (items.countP fun item => item.1 = k ∧ item.2 = a) ((bags k).count a) +
      min (items.countP fun item => item.1 ≠ k ∧ item.2 = a) c ≤ (separate bags items).count a := by
  induction items generalizing bags c with
  | nil => simp [separate]
  | cons item items ih =>
    obtain ⟨k', b⟩ := item
    rw [separate]
    by_cases hb : b = a
    · subst hb
      by_cases hk : k' = k
      · subst hk
        have hothers := ih bags c hbags
        have herased := ih (Function.update bags k' ((bags k').erase b)) c fun k'' hne => by
          rw [Function.update_of_ne hne]
          exact hbags k'' hne
        rw [Function.update_self, List.count_erase_self] at herased
        split_ifs with hmem
        · have hpos := List.count_pos_iff.mpr hmem
          simp only [List.countP_cons, List.count_cons_self, true_and, ne_eq, not_true_eq_false, false_and, decide_true,
            decide_false, if_true, Bool.false_eq_true, if_false] at herased ⊢
          omega
        · have hzero := List.count_eq_zero.mpr hmem
          rw [hzero] at hothers ⊢
          simp only [List.countP_cons, ne_eq, not_true_eq_false, false_and, decide_false, Bool.false_eq_true, if_false]
            at hothers ⊢
          omega
      · have hc := hbags k' hk
        have hothers := ih bags c hbags
        have herased := ih (Function.update bags k' ((bags k').erase b)) (c - 1) fun k'' hne => by
          by_cases heq : k'' = k'
          · subst heq
            rw [Function.update_self, List.count_erase_self]
            omega
          · rw [Function.update_of_ne heq]
            have := hbags k'' hne
            omega
        rw [Function.update_of_ne (Ne.symm hk)] at herased
        simp only [List.countP_cons, hk, false_and, ne_eq, not_false_eq_true, true_and, decide_true, decide_false,
          if_true, Bool.false_eq_true, if_false] at herased hothers ⊢
        split_ifs with hmem
        · rw [List.count_cons_self]
          omega
        · have hzero := List.count_eq_zero.mpr hmem
          omega
    · have hcount : ∀ k'', ((Function.update bags k' ((bags k').erase b)) k'').count a = (bags k'').count a := by
        intro k''
        by_cases heq : k'' = k'
        · subst heq
          rw [Function.update_self, List.count_erase_of_ne (Ne.symm hb)]
        · rw [Function.update_of_ne heq]
      have herased := ih (Function.update bags k' ((bags k').erase b)) c fun k'' hne => by
        rw [hcount]
        exact hbags k'' hne
      have hothers := ih bags c hbags
      rw [hcount] at herased
      simp only [List.countP_cons, hb, and_false, decide_false, Bool.false_eq_true, if_false, Nat.add_zero] at herased hothers ⊢
      split_ifs
      · rw [List.count_cons_of_ne hb]
        exact herased
      · exact hothers

def OneKey (items : List (κ × α)) (bag : List α) : Prop :=
  ∀ a ∈ bag, (items.map Prod.snd).count a ≤ bag.count a ∨ ∃ k, ∀ item ∈ items, item.2 = a → item.1 = k

def Alike (items : List (κ × α)) (bags : κ → List α) (bag : List α) (a : α) : Prop :=
  ((items.map Prod.snd).count a ≤ bag.count a ∧ ∀ k, (items.map Prod.snd).count a ≤ (bags k).count a) ∨
    (∃ k, (∀ item ∈ items, item.2 = a → item.1 = k) ∧ (bags k).count a = bag.count a) ∨
    (bag.count a = 0 ∧ ∀ k, (bags k).count a = 0)

omit [DecidableEq κ] in
theorem Alike.mem_iff {items : List (κ × α)} {bags : κ → List α} {bag : List α} {k : κ} {a : α}
    (h : Alike ((k, a) :: items) bags bag a) : a ∈ bags k ↔ a ∈ bag := by
  rw [← List.count_pos_iff, ← List.count_pos_iff]
  obtain ⟨hbag, hbags⟩ | ⟨k', hkey, hcount⟩ | ⟨hbag, hbags⟩ := h
  · have hk := hbags k
    rw [List.map_cons, List.count_cons_self] at hbag hk
    omega
  · obtain rfl : k = k' := hkey (k, a) List.mem_cons_self rfl
    rw [hcount]
  · rw [hbag, hbags k]

omit [DecidableEq κ] in
theorem Alike.tail {item : κ × α} {items : List (κ × α)} {bags : κ → List α} {bag : List α} {a : α}
    (h : Alike (item :: items) bags bag a) : Alike items bags bag a := by
  have hle : (items.map Prod.snd).count a ≤ ((item :: items).map Prod.snd).count a := List.count_le_count_cons
  obtain ⟨hbag, hbags⟩ | ⟨k, hkey, hcount⟩ | hnone := h
  · exact Or.inl ⟨Nat.le_trans hle hbag, fun k => Nat.le_trans hle (hbags k)⟩
  · exact Or.inr (Or.inl ⟨k, fun item' hitem' => hkey item' (List.mem_cons_of_mem _ hitem'), hcount⟩)
  · exact Or.inr (Or.inr hnone)

theorem Alike.take {k : κ} {b : α} {items : List (κ × α)} {bags : κ → List α} {bag : List α} {a : α}
    (h : Alike ((k, b) :: items) bags bag a) :
    Alike items (Function.update bags k ((bags k).erase b)) (bag.erase b) a := by
  by_cases hb : b = a
  · subst hb
    have hself : (Function.update bags k ((bags k).erase b) k).count b = (bags k).count b - 1 := by
      rw [Function.update_self, List.count_erase_self]
    have herase : (bag.erase b).count b = bag.count b - 1 := List.count_erase_self
    obtain ⟨hbag, hbags⟩ | ⟨k', hkey, hcount⟩ | ⟨hbag, hbags⟩ := h
    · rw [List.map_cons, List.count_cons_self] at hbag
      left
      refine ⟨by omega, fun k' => ?_⟩
      have hk' := hbags k'
      rw [List.map_cons, List.count_cons_self] at hk'
      by_cases heq : k' = k
      · rw [heq] at hk' ⊢
        omega
      · rw [Function.update_of_ne heq]
        omega
    · right; left
      obtain rfl : k = k' := hkey (k, b) List.mem_cons_self rfl
      refine ⟨k, fun item hitem => hkey item (List.mem_cons_of_mem _ hitem), ?_⟩
      rw [hself, herase, hcount]
    · right; right
      refine ⟨by omega, fun k' => ?_⟩
      by_cases heq : k' = k
      · rw [heq, hself, hbags k]
      · rw [Function.update_of_ne heq, hbags k']
  · have hcount : ∀ k', (Function.update bags k ((bags k).erase b) k').count a = (bags k').count a := by
      intro k'
      by_cases heq : k' = k
      · rw [heq, Function.update_self, List.count_erase_of_ne (Ne.symm hb)]
      · rw [Function.update_of_ne heq]
    have htail := h.tail
    simp only [Alike, hcount, List.count_erase_of_ne (Ne.symm hb)] at htail ⊢
    exact htail

theorem separate_eq_of_alike {items : List (κ × α)} {bags : κ → List α} {bag : List α}
    (h : ∀ a, Alike items bags bag a) : separate bags items = taken bag (items.map Prod.snd) := by
  induction items generalizing bags bag with
  | nil => exact (taken_nil _).symm
  | cons item items ih =>
    obtain ⟨k, a⟩ := item
    have hmem := (h a).mem_iff
    rw [separate, List.map_cons]
    by_cases ha : a ∈ bag
    · rw [if_pos (hmem.mpr ha), ih fun b => (h b).take, taken_cons_of_mem ha]
    · rw [if_neg (mt hmem.mp ha), ih fun b => (h b).tail, taken_cons_of_not_mem ha]

theorem count_eq_own_add_others (a : α) (k : κ) (items : List (κ × α)) :
    (items.map Prod.snd).count a = (items.countP fun item => item.1 = k ∧ item.2 = a) +
      items.countP fun item => item.1 ≠ k ∧ item.2 = a := by
  induction items with
  | nil => rfl
  | cons item items ih =>
    rw [List.map_cons, List.count_cons, List.countP_cons, List.countP_cons, ih]
    by_cases hk : item.1 = k <;> by_cases ha : item.2 = a <;> simp [hk, ha] <;> omega

theorem separate_eq_iff {items : List (κ × α)} {bag : List α} :
    separate (fun _ => bag) items = taken bag (items.map Prod.snd) ↔ OneKey items bag := by
  constructor
  · intro heq a ha
    by_contra hnone
    obtain ⟨hmany, hkeys⟩ := not_or.mp hnone
    rw [Nat.not_le] at hmany
    push Not at hkeys
    have hpos : 0 < bag.count a := List.count_pos_iff.mpr ha
    -- Some key has the item, and some other key too.
    obtain ⟨first, hfirst, heqa⟩ : ∃ item ∈ items, item.2 = a :=
      List.mem_map.mp (List.count_pos_iff.mp (Nat.lt_trans hpos hmany))
    obtain ⟨other, hother, hsame, hne⟩ := hkeys first.1
    have hcount := le_count_separate a first.1 items (fun _ => bag) (bag.count a) fun _ _ => Nat.le_refl _
    have hown : 0 < items.countP fun item => item.1 = first.1 ∧ item.2 = a :=
      List.countP_pos_iff.mpr ⟨first, hfirst, by simp [heqa]⟩
    have hothers : 0 < items.countP fun item => item.1 ≠ first.1 ∧ item.2 = a :=
      List.countP_pos_iff.mpr ⟨other, hother, by simp [hne, hsame]⟩
    have htotal := count_eq_own_add_others a first.1 items
    rw [heq, count_taken] at hcount
    omega
  · intro hone
    apply separate_eq_of_alike
    intro a
    by_cases ha : a ∈ bag
    · obtain hfew | ⟨k, hkey⟩ := hone a ha
      · exact Or.inl ⟨hfew, fun _ => hfew⟩
      · exact Or.inr (Or.inl ⟨k, hkey, rfl⟩)
    · exact Or.inr (Or.inr ⟨List.count_eq_zero.mpr ha, fun _ => List.count_eq_zero.mpr ha⟩)

end PageSpeed.Licences
