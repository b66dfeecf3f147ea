import Mathlib.Data.List.AList
import Mathlib.Algebra.BigOperators.Group.Finset.Basic

/-!
Bags of work: an indexed list seen as a bag, and maps from keys to lists of
items, with the bag of all items that a map holds.
-/

namespace PageSpeed.Bag

variable {α K V : Type*}

theorem exists_rest {l : List α} {i : ℕ} {a : α} (h : l[i]? = some a) :
    ∃ r : Multiset α, (l : Multiset α) = a ::ₘ r ∧ (∀ b, (l.set i b : Multiset α) = b ::ₘ r) ∧
      (l.eraseIdx i : Multiset α) = r := by
  obtain ⟨hi, rfl⟩ := List.getElem?_eq_some_iff.mp h
  refine ⟨l.eraseIdx i, ?_, ?_, rfl⟩
  · exact Multiset.coe_eq_coe.mpr (List.getElem_cons_eraseIdx_perm hi).symm
  · intro b
    exact Multiset.coe_eq_coe.mpr (List.set_perm_cons_eraseIdx hi b)

section Totals

variable {M : Type*} [AddCommMonoid M]

def total (φ : α → M) (l : List α) : M := (l.map φ).sum

theorem total_append (φ : α → M) (l l' : List α) : total φ (l ++ l') = total φ l + total φ l' := by
  simp [total]

theorem total_filter {φ : α → M} {p : α → Bool} {l : List α} (h : ∀ a ∈ l, p a = false → φ a = 0) :
    total φ (l.filter p) = total φ l := by
  induction l with
  | nil => rfl
  | cons a l ih =>
    have ih := ih fun b hb => h b (List.mem_cons_of_mem a hb)
    have hcons : total φ (a :: l) = φ a + total φ l := List.sum_cons
    cases hp : p a with
    | true =>
      rw [List.filter_cons_of_pos hp, hcons, ← ih]
      exact List.sum_cons
    | false =>
      rw [List.filter_cons_of_neg (by rw [hp]; exact Bool.false_ne_true), hcons, h a List.mem_cons_self hp, zero_add, ih]

theorem total_set {l : List α} {i : ℕ} {a : α} (h : l[i]? = some a) (φ : α → M) :
    ∃ r, total φ l = φ a + r ∧ ∀ b, total φ (l.set i b) = φ b + r := by
  obtain ⟨r, hl, hset, -⟩ := exists_rest h
  have htotal : ∀ l' : List α, total φ l' = ((l' : Multiset α).map φ).sum := by
    intro l'
    simp [total]
  refine ⟨(r.map φ).sum, ?_, fun b => ?_⟩
  · rw [htotal, hl, Multiset.map_cons, Multiset.sum_cons]
  · rw [htotal, hset, Multiset.map_cons, Multiset.sum_cons]

theorem mem_total {β : Type*} {φ : α → Multiset β} {l : List α} {b : β} : b ∈ total φ l ↔ ∃ a ∈ l, b ∈ φ a := by
  induction l with
  | nil => simp [total]
  | cons a l ih =>
    have hcons : total φ (a :: l) = φ a + total φ l := List.sum_cons
    rw [hcons, Multiset.mem_add, ih]
    simp only [List.mem_cons, exists_eq_or_imp]

theorem sum_update {β : Type*} {n i : ℕ} (hi : i < n) (φ : β → M) (f : ℕ → β) (b : β) :
    (∑ x ∈ Finset.range n, φ (Function.update f i b x)) + φ (f i) = (∑ x ∈ Finset.range n, φ (f x)) + φ b := by
  have hmem := Finset.mem_range.mpr hi
  have hsum : ∑ x ∈ (Finset.range n).erase i, φ (Function.update f i b x) =
      ∑ x ∈ (Finset.range n).erase i, φ (f x) :=
    Finset.sum_congr rfl fun x hx => by rw [Function.update_of_ne (Finset.ne_of_mem_erase hx)]
  rw [← Finset.add_sum_erase _ _ hmem, ← Finset.add_sum_erase _ (fun x => φ (f x)) hmem, Function.update_self, hsum]
  ac_rfl

end Totals

abbrev ListMap (K V : Type*) := AList fun _ : K => List V

def keys (m : ListMap K V) : Multiset K := m.keys

def items (m : ListMap K V) : Multiset V := (m.entries.map fun e => (e.2 : Multiset V)).sum

theorem mem_keys {m : ListMap K V} {k : K} : k ∈ keys m ↔ k ∈ m := Multiset.mem_coe

theorem nodup_keys (m : ListMap K V) : (keys m).Nodup := Multiset.coe_nodup.mpr m.keys_nodup

variable [DecidableEq K]

/-- `m[k].push_back(v)` -/
def push (m : ListMap K V) (k : K) (v : V) : ListMap K V := m.insert k ((m.lookup k).getD [] ++ [v])

/-- `m.emplace(k, vs)`, which keeps what is there. -/
def emplace (m : ListMap K V) (e : (_ : K) × List V) : ListMap K V :=
  if e.1 ∈ m then m else m.insert e.1 e.2

theorem entries_perm {W : Type*} {m : AList fun _ : K => W} {k : K} {w : W} (h : m.lookup k = some w) :
    m.entries.Perm (⟨k, w⟩ :: (m.erase k).entries) := by
  have hk : k ∈ m.entries.keys := AList.mem_keys.mp (AList.lookup_isSome.mp (by rw [h]; rfl))
  obtain ⟨w', l₁, l₂, hnot, hsplit, herase⟩ := List.exists_of_kerase hk
  have hmem : (⟨k, w'⟩ : (_ : K) × W) ∈ m.entries := by rw [hsplit]; simp
  have hw' : m.lookup k = some w' := AList.mem_lookup_iff.mpr hmem
  obtain rfl := Option.some.inj (h.symm.trans hw')
  change m.entries.Perm (_ :: m.entries.kerase k)
  rw [herase]
  conv_lhs => rw [hsplit]
  exact List.perm_middle

section Tallies

variable {W : Type*} {M : Type*} [AddCommMonoid M]

def tally (φ : K → W → M) (m : AList fun _ : K => W) : M := total (fun e => φ e.1 e.2) m.entries

def update (m : AList fun _ : K => W) (k : K) : Option W → AList fun _ : K => W
  | some w => m.insert k w
  | none => m.erase k

theorem lookup_update (m : AList fun _ : K => W) (j k : K) (o : Option W) :
    (update m k o).lookup j = if j = k then o else m.lookup j := by
  cases o with
  | none =>
    rw [update]
    split_ifs with hj
    · rw [hj, AList.lookup_erase]
    · exact AList.lookup_erase_ne hj
  | some w =>
    rw [update]
    split_ifs with hj
    · rw [hj, AList.lookup_insert]
    · exact AList.lookup_insert_ne hj

theorem tally_erase (φ : K → W → M) (m : AList fun _ : K => W) (k : K) :
    tally φ (m.erase k) + (m.lookup k).elim 0 (φ k) = tally φ m := by
  cases h : m.lookup k with
  | none =>
    have herase : m.erase k = m := AList.ext (List.kerase_of_notMem_keys (AList.lookup_eq_none.mp h))
    rw [herase]
    exact add_zero _
  | some w =>
    have hperm := ((entries_perm h).map fun e => φ e.1 e.2).sum_eq
    exact (add_comm _ _).trans hperm.symm

theorem tally_update (φ : K → W → M) (m : AList fun _ : K => W) (k : K) (o : Option W) :
    tally φ (update m k o) + (m.lookup k).elim 0 (φ k) = tally φ m + o.elim 0 (φ k) := by
  have herase := tally_erase φ m k
  cases o with
  | none =>
    rw [update, herase]
    exact (add_zero _).symm
  | some w =>
    have hinsert : tally φ (m.insert k w) = φ k w + tally φ (m.erase k) := List.sum_cons
    rw [update, hinsert, add_assoc, herase]
    exact add_comm _ _

end Tallies

theorem items_erase {m : ListMap K V} {k : K} {vs : List V} (h : m.lookup k = some vs) :
    items m = vs + items (m.erase k) := by
  unfold items
  rw [((entries_perm h).map _).sum_eq]
  rfl

theorem keys_erase {m : ListMap K V} {k : K} {vs : List V} (h : m.lookup k = some vs) :
    keys m = k ::ₘ keys (m.erase k) :=
  Multiset.coe_eq_coe.mpr ((entries_perm h).map Sigma.fst)

theorem items_insert (m : ListMap K V) (k : K) (vs : List V) :
    items (m.insert k vs) = vs + items (m.erase k) := rfl

theorem erase_of_lookup_none {m : ListMap K V} {k : K} (h : m.lookup k = none) : m.erase k = m :=
  AList.ext (List.kerase_of_notMem_keys (AList.lookup_eq_none.mp h))

theorem items_push (m : ListMap K V) (k : K) (v : V) : items (push m k v) = v ::ₘ items m := by
  unfold push
  rw [items_insert]
  cases h : m.lookup k with
  | none =>
    rw [erase_of_lookup_none h]
    rfl
  | some vs =>
    rw [items_erase h, Option.getD_some, ← Multiset.coe_add, Multiset.coe_singleton,
      ← Multiset.singleton_add]
    ac_rfl

theorem keys_push_of_mem {m : ListMap K V} {k : K} (h : k ∈ m) (v : V) : keys (push m k v) = keys m := by
  obtain ⟨vs, hvs⟩ := Option.isSome_iff_exists.mp (AList.lookup_isSome.mpr h)
  rw [keys_erase hvs]
  rfl

theorem keys_push_of_notMem {m : ListMap K V} {k : K} (h : k ∉ m) (v : V) :
    keys (push m k v) = k ::ₘ keys m := by
  conv_rhs => rw [← erase_of_lookup_none (AList.lookup_eq_none.mpr h)]
  rfl

theorem mem_push {m : ListMap K V} {k k' : K} {v : V} : k ∈ push m k' v ↔ k = k' ∨ k ∈ m := AList.mem_insert m

theorem foldl_emplace {es : List ((_ : K) × List V)} {m : ListMap K V} (hnodup : (es.map Sigma.fst).Nodup)
    (hnew : ∀ e ∈ es, e.1 ∉ m) :
    keys (es.foldl emplace m) = ↑(es.map Sigma.fst) + keys m ∧
      items (es.foldl emplace m) = (es.map fun e => (e.2 : Multiset V)).sum + items m := by
  induction es generalizing m with
  | nil => simp
  | cons e es ih =>
    obtain ⟨hnot, hnodup⟩ := List.nodup_cons.mp hnodup
    have he := hnew e List.mem_cons_self
    have hlater : ∀ e' ∈ es, e'.1 ∉ m.insert e.1 e.2 := by
      intro e' he' hmem
      obtain hk | hm := (AList.mem_insert m).mp hmem
      · exact hnot (hk ▸ List.mem_map_of_mem he')
      · exact hnew e' (List.mem_cons_of_mem e he') hm
    obtain ⟨hkeys, hitems⟩ := ih hnodup hlater
    have hstep : emplace m e = m.insert e.1 e.2 := if_neg he
    have herase := erase_of_lookup_none (AList.lookup_eq_none.mpr he)
    have hk1 : keys (m.insert e.1 e.2) = e.1 ::ₘ keys m := by
      conv_rhs => rw [← herase]
      rfl
    rw [List.foldl_cons, hstep, hkeys, hitems, hk1, items_insert, herase]
    constructor
    · rw [List.map_cons, ← Multiset.cons_coe, ← Multiset.singleton_add, ← Multiset.singleton_add]
      ac_rfl
    · rw [List.map_cons, List.sum_cons]
      ac_rfl

def Filled (m : ListMap K V) : Prop := ∀ e ∈ m.entries, e.2 ≠ []

theorem filled_lookup {m : ListMap K V} (h : Filled m) {k : K} {vs : List V} (hk : m.lookup k = some vs) :
    vs ≠ [] := h ⟨k, vs⟩ (AList.mem_lookup_iff.mp hk)

theorem filled_erase {m : ListMap K V} (h : Filled m) (k : K) : Filled (m.erase k) :=
  fun e he => h e ((List.kerase_sublist k m.entries).subset he)

theorem filled_insert {m : ListMap K V} (h : Filled m) (k : K) {vs : List V} (hvs : vs ≠ []) :
    Filled (m.insert k vs) := by
  intro e he
  obtain rfl | he := List.mem_cons.mp he
  · exact hvs
  · exact filled_erase h k e he

theorem filled_push {m : ListMap K V} (h : Filled m) (k : K) (v : V) : Filled (push m k v) :=
  filled_insert h k (by simp)

theorem filled_foldl_emplace {es : List ((_ : K) × List V)} {m : ListMap K V} (hes : ∀ e ∈ es, e.2 ≠ [])
    (h : Filled m) : Filled (es.foldl emplace m) := by
  induction es generalizing m with
  | nil => exact h
  | cons e es ih =>
    apply ih fun e' he' => hes e' (List.mem_cons_of_mem e he')
    unfold emplace
    split_ifs
    · exact h
    · exact filled_insert h e.1 (hes e List.mem_cons_self)

end PageSpeed.Bag
