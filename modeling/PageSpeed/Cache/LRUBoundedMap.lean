import PageSpeed.Cache.LRURefinement
import Mathlib.Data.List.Induction

/-!
A cache with a fixed size is a bounded map: it holds the latest values of the
keys it has kept, in the order of their last use, and drops the least recently
used ones first.
-/

namespace PageSpeed.LRUCacheBase

variable {V H : Type} {helper : ValueHelper V H}

inductive Op (V : Type) where
  | put (key : GoogleString) (value : V)
  | getFreshen (key : GoogleString)
  | getNoFreshen (key : GoogleString)
  | delete (key : GoogleString)
  | clear

def apply (helper : ValueHelper V H) (r : LRUCacheBase V × H) : Op V → LRUCacheBase V × H
  | .put key value => r.1.put helper key value r.2
  | .getFreshen key => ((r.1.getFreshen key).2, r.2)
  | .getNoFreshen key => ((r.1.getNoFreshen key).2, r.2)
  | .delete key => (r.1.delete helper key, r.2)
  | .clear => (r.1.clear, r.2)

def applyAll (helper : ValueHelper V H) (maxSize : ℕ) (h : H) (ops : List (Op V)) : LRUCacheBase V × H :=
  ops.foldl (apply helper) (.new maxSize, h)

/-- The loop in `EvictIfNecessary` takes the back of an empty list. -/
def popsEmpty (helper : ValueHelper V H) (bytesNeeded : ℕ) : ℕ → LRUCacheBase V → Bool
  | 0, c => decide (c.maxBytesInCache < bytesNeeded + c.currentBytesInCache)
  | fuel + 1, c =>
    if c.maxBytesInCache < bytesNeeded + c.currentBytesInCache then
      match c.lruOrderedList.getLast? with
      | none => true
      | some n => popsEmpty helper bytesNeeded fuel (evictBack helper n c)
    else false

def evictPopsEmpty (helper : ValueHelper V H) (bytesNeeded : ℕ) (c : LRUCacheBase V) : Bool :=
  decide (bytesNeeded < c.maxBytesInCache) && popsEmpty helper bytesNeeded c.lruOrderedList.length c

/-- The same for the call in `Put`, which has taken out the old node of the key. -/
def putPopsEmpty (helper : ValueHelper V H) (key : GoogleString) (newValue : V) (c : LRUCacheBase V) : Bool :=
  match (c.map.lookup key).bind c.nodeAt with
  | some n =>
    helper.shouldReplace n.value newValue && !helper.equal newValue n.value &&
      evictPopsEmpty helper (key.length + helper.size newValue) { c with
        stats.numDeletes := c.stats.numDeletes + 1
        currentBytesInCache := c.currentBytesInCache - entrySize helper n
        lruOrderedList := c.unlink n.cell }
  | none => evictPopsEmpty helper (key.length + helper.size newValue) c

theorem popsEmpty_eq_false (bytesNeeded : ℕ) (r : List (ListNode V)) (c : LRUCacheBase V)
    (hl : c.lruOrderedList = r.reverse) (hn : bytesNeeded < c.maxBytesInCache)
    (hb : c.currentBytesInCache = Records.weight (pairSize helper) c.entries) :
    popsEmpty helper bytesNeeded r.length c = false := by
  induction r generalizing c with
  | nil =>
    have he : c.entries = [] := by simp [entries, hl]
    rw [he, Records.weight_nil] at hb
    exact decide_eq_false (by omega)
  | cons n r ih =>
    have he : c.entries = pair n :: r.map pair := by simp [entries, hl, pair]
    rw [List.length_cons, popsEmpty]
    split_ifs with hc
    · have hlast : c.lruOrderedList.getLast? = some n := by simp [hl]
      have hd : (evictBack helper n c).lruOrderedList = r.reverse := by simp [evictBack, hl]
      have hde : (evictBack helper n c).entries = r.map pair := by simp [entries, hd, pair]
      rw [hlast]
      refine ih (evictBack helper n c) hd hn ?_
      rw [hde]
      simp only [evictBack, hb, he, Records.weight_cons, pairSize_pair]
      omega
    · rfl

theorem Awaiting.not_popsEmpty {key : GoogleString} {c : LRUCacheBase V} (hc : Awaiting helper key c) (n : ℕ) :
    evictPopsEmpty helper n c = false := by
  unfold evictPopsEmpty
  by_cases hn : n < c.maxBytesInCache
  · have hp := popsEmpty_eq_false n c.lruOrderedList.reverse c (by simp) hn hc.bytes
    rw [List.length_reverse] at hp
    rw [hp, Bool.and_false]
  · rw [decide_eq_false hn, Bool.false_and]

theorem WellFormed.not_putPopsEmpty {c : LRUCacheBase V} (hc : c.WellFormed helper) (key : GoogleString) (value : V) :
    putPopsEmpty helper key value c = false := by
  unfold putPopsEmpty
  cases hl : (c.map.lookup key).bind c.nodeAt with
  | none => exact (hc.awaiting hl).not_popsEmpty _
  | some n =>
    obtain ⟨hn, rfl⟩ := (lookup_nodeAt hc key n).mp hl
    have ha := hc.unlinked hn { c.stats with numDeletes := c.stats.numDeletes + 1 }
    simp only [ha.not_popsEmpty, Bool.and_false]

def Op.uses (k : GoogleString) : Op V → Prop
  | .put key _ | .getFreshen key => key = k
  | _ => False

/-- The last use of `j` comes before a use of `k`. -/
def UsedBefore (ops : List (Op V)) (j k : GoogleString) : Prop :=
  ∃ a op b, ops = a ++ op :: b ∧ op.uses k ∧ ∀ x ∈ op :: b, ¬ x.uses j

/-- `v` is the value of the last `Put` of `k`. -/
def LatestPut (ops : List (Op V)) (k : GoogleString) (v : V) : Prop :=
  ∃ a b, ops = a ++ .put k v :: b ∧ ∀ x ∈ b, ∀ w, x ≠ .put k w

variable {k : GoogleString} {maxSize : ℕ}

theorem UsedBefore.append {ops : List (Op V)} {j : GoogleString} {x : Op V} (h : UsedBefore ops j k)
    (hx : ¬ x.uses j) : UsedBefore (ops ++ [x]) j k := by
  obtain ⟨a, op, b, rfl, hop, hb⟩ := h
  refine ⟨a, op, b ++ [x], by simp, hop, fun y hy => ?_⟩
  rw [← List.cons_append, List.mem_append, List.mem_singleton] at hy
  obtain hy | rfl := hy
  · exact hb y hy
  · exact hx

theorem usedBefore_concat {ops : List (Op V)} {j : GoogleString} {x : Op V} (hk : x.uses k) (hj : ¬ x.uses j) :
    UsedBefore (ops ++ [x]) j k := by
  refine ⟨ops, x, [], rfl, hk, fun y hy => ?_⟩
  rw [List.mem_singleton.mp hy]
  exact hj

theorem LatestPut.append {ops : List (Op V)} {v : V} {x : Op V} (h : LatestPut ops k v)
    (hx : ∀ w, x ≠ .put k w) : LatestPut (ops ++ [x]) k v := by
  obtain ⟨a, b, rfl, hb⟩ := h
  refine ⟨a, b ++ [x], by simp, fun y hy => ?_⟩
  obtain hy | hy := List.mem_append.mp hy
  · exact hb y hy
  · rw [List.mem_singleton.mp hy]
    exact hx

structure Recent (ops : List (Op V)) (es : List (GoogleString × V)) : Prop where
  order : es.Pairwise fun e f => UsedBefore ops e.1 f.1
  latest : ∀ e ∈ es, LatestPut ops e.1 e.2

variable {ops : List (Op V)} {es : List (GoogleString × V)}

theorem Recent.sublist (h : Recent ops es) {es' : List (GoogleString × V)} (hsub : List.Sublist es' es) {x : Op V}
    (huse : ∀ e ∈ es', ¬ x.uses e.1) : Recent (ops ++ [x]) es' := by
  refine ⟨?_, fun e he => (h.latest e (hsub.subset he)).append fun w hw => ?_⟩
  · refine (h.order.sublist hsub).imp_of_mem fun he _ hused => hused.append (huse _ he)
  · subst hw
    exact huse e he rfl

theorem Recent.concat {x : Op V} {v : V} (h : Recent (ops ++ [x]) es) (huse : ∀ e ∈ es, ¬ x.uses e.1)
    (hk : x.uses k) (hlatest : LatestPut (ops ++ [x]) k v) : Recent (ops ++ [x]) (es ++ [(k, v)]) := by
  refine ⟨List.pairwise_append.mpr ⟨h.order, List.pairwise_singleton _ _, ?_⟩, ?_⟩
  · intro e he f hf
    rw [List.mem_singleton.mp hf]
    exact usedBefore_concat hk (huse e he)
  · intro e he
    obtain he | he := List.mem_append.mp he
    · exact h.latest e he
    · rw [List.mem_singleton.mp he]
      exact hlatest

theorem kept_sublist (w : GoogleString × V → ℕ) (room : ℕ) (l : List (GoogleString × V)) :
    List.Sublist (Records.kept w room l) l := by
  conv_rhs => rw [← Records.dropped_append_kept w room l]
  exact List.sublist_append_right _ _

structure Holds (helper : ValueHelper V H) (maxSize : ℕ) (ops : List (Op V)) (c : LRUCacheBase V) : Prop where
  wellFormed : c.WellFormed helper
  maxBytes : c.maxBytesInCache = maxSize
  fits : ∀ e ∈ c.entries, pairSize helper e < maxSize
  weight : Records.weight (pairSize helper) c.entries ≤ maxSize
  recent : Recent ops c.entries

theorem weight_sublist {w : GoogleString × V → ℕ} {l m : List (GoogleString × V)} (h : List.Sublist l m) :
    Records.weight w l ≤ Records.weight w m := (h.map w).sum_le_sum fun _ _ => Nat.zero_le _

theorem put_records_eq {c : LRUCacheBase V} (hreplace : ∀ a b, helper.shouldReplace a b = true)
    (hequal : ∀ a b, helper.equal a b = true → a = b) (hc : Holds helper maxSize ops c) (key : GoogleString) (value : V) :
    Records.put (pairSize helper) c.maxBytesInCache helper.shouldReplace helper.equal key value c.entries =
      Records.insert (pairSize helper) c.maxBytesInCache (key, value) (Records.remove key c.entries) := by
  unfold Records.put
  cases hf : Records.find key c.entries with
  | none => rw [Records.remove_of_not_mem (Records.find_eq_none.mp hf)]
  | some old =>
    simp only [hreplace, Bool.not_true, Bool.false_eq_true, if_false]
    split_ifs with heq
    · obtain rfl := hequal value old heq
      have hmem := Records.mem_of_find hf
      have hfit : pairSize helper (key, value) < c.maxBytesInCache := hc.maxBytes ▸ hc.fits _ hmem
      have hw := Records.weight_remove (pairSize helper) (entries_nodup hc.wellFormed) hmem
      have hle := hc.weight
      rw [← hc.maxBytes] at hle
      -- The other records leave room for this one, as they did before.
      have hroom : ¬ c.maxBytesInCache - pairSize helper (key, value) <
          Records.weight (pairSize helper) (Records.remove key c.entries) := by omega
      unfold Records.insert
      rw [if_pos hfit]
      cases hr : Records.remove key c.entries with
      | nil => rfl
      | cons e l =>
        rw [hr] at hroom
        unfold Records.kept Records.dropped
        rw [if_neg hroom, if_neg hroom]
    · rfl

theorem apply_holds {r : LRUCacheBase V × H} (hreplace : ∀ a b, helper.shouldReplace a b = true)
    (hequal : ∀ a b, helper.equal a b = true → a = b) (hc : Holds helper maxSize ops r.1) (op : Op V) :
    Holds helper maxSize (ops ++ [op]) (apply helper r op).1 := by
  have hsub : ∀ k, List.Sublist (Records.remove k r.1.entries) r.1.entries := fun k => List.filter_sublist
  have hne : ∀ k, ∀ e ∈ Records.remove k r.1.entries, k ≠ e.1 := by
    intro k e he hk
    have hkeep := (List.mem_filter.mp he).2
    simp [hk] at hkeep
  -- Some entries are left, none of them used.
  have hrest : ∀ (es : List (GoogleString × V)), List.Sublist es r.1.entries → (∀ e ∈ es, ¬ op.uses e.1) →
      (∀ e ∈ es, pairSize helper e < maxSize) ∧ Records.weight (pairSize helper) es ≤ maxSize ∧
        Recent (ops ++ [op]) es :=
    fun es hes huse => ⟨fun e he => hc.fits e (hes.subset he), (weight_sublist hes).trans hc.weight,
      hc.recent.sublist hes huse⟩
  cases op with
  | put key value =>
    have hp := put_spec hc.wellFormed key value r.2
    rw [put_records_eq hreplace hequal hc] at hp
    have hwf := hp.wellFormed
    have hmax := hp.maxBytes.trans hc.maxBytes
    have hentries := hp.entries
    unfold Records.insert at hentries
    split_ifs at hentries with hfit
    · obtain ⟨kept, hkept⟩ : ∃ kept, kept = Records.kept (pairSize helper)
          (r.1.maxBytesInCache - pairSize helper (key, value)) (Records.remove key r.1.entries) := ⟨_, rfl⟩
      have hks : List.Sublist kept (Records.remove key r.1.entries) := hkept ▸ kept_sublist _ _ _
      have huse : ∀ e ∈ kept, ¬ (Op.put key value).uses e.1 := fun e he => hne key e (hks.subset he)
      obtain ⟨hfits, -, hrecent⟩ := hrest kept (hks.trans (hsub key)) huse
      have hw := Records.weight_kept (pairSize helper) (r.1.maxBytesInCache - pairSize helper (key, value))
        (Records.remove key r.1.entries)
      rw [← hkept] at hentries hw
      change (r.1.put helper key value r.2).1.entries = kept ++ [(key, value)] at hentries
      rw [hc.maxBytes] at hfit hw
      refine ⟨hwf, hmax, ?_, ?_, ?_⟩
      · change ∀ e ∈ (r.1.put helper key value r.2).1.entries, _
        rw [hentries]
        intro e he
        obtain he | he := List.mem_append.mp he
        · exact hfits e he
        · rw [List.mem_singleton.mp he]
          exact hfit
      · change Records.weight _ (r.1.put helper key value r.2).1.entries ≤ _
        rw [hentries, Records.weight_append, Records.weight_cons, Records.weight_nil]
        omega
      · change Recent _ (r.1.put helper key value r.2).1.entries
        rw [hentries]
        exact hrecent.concat huse rfl ⟨ops, [], rfl, nofun⟩
    · obtain ⟨hfits, hw, hrecent⟩ := hrest (Records.remove key r.1.entries) (hsub key) (hne key)
      refine ⟨hwf, hmax, ?_, ?_, ?_⟩
      · exact hentries ▸ hfits
      · exact hentries ▸ hw
      · exact hentries ▸ hrecent
  | getFreshen key =>
    obtain ⟨hwf, -, hentries, hmax⟩ := getFreshen_spec hc.wellFormed key
    cases hf : Records.find key r.1.entries with
    | none =>
      rw [hf] at hentries
      have huse : ∀ e ∈ r.1.entries, ¬ (Op.getFreshen key : Op V).uses e.1 := by
        intro e he hk
        exact Records.find_eq_none.mp hf (hk ▸ List.mem_map_of_mem he)
      obtain ⟨hfits, hw, hrecent⟩ := hrest r.1.entries (List.Sublist.refl _) huse
      exact ⟨hwf, hmax.trans hc.maxBytes, hentries ▸ hfits, hentries ▸ hw, hentries ▸ hrecent⟩
    | some v =>
      rw [hf] at hentries
      have hmem := Records.mem_of_find hf
      obtain ⟨hfits, -, hrecent⟩ := hrest (Records.remove key r.1.entries) (hsub key) (hne key)
      have hbytes := hwf.bytes
      refine ⟨hwf, hmax.trans hc.maxBytes, ?_, ?_, ?_⟩
      · change ∀ e ∈ (r.1.getFreshen key).2.entries, _
        rw [hentries]
        intro e he
        obtain he | he := List.mem_append.mp he
        · exact hfits e he
        · rw [List.mem_singleton.mp he]
          exact hc.fits _ hmem
      · have hperm := Records.weight_remove (pairSize helper) (entries_nodup hc.wellFormed) hmem
        change Records.weight _ (r.1.getFreshen key).2.entries ≤ _
        rw [hentries, Records.weight_append, Records.weight_cons, Records.weight_nil, add_zero, add_comm, ← hperm]
        exact hc.weight
      · change Recent _ (r.1.getFreshen key).2.entries
        rw [hentries]
        exact hrecent.concat (hne key) rfl ((hc.recent.latest _ hmem).append nofun)
  | getNoFreshen key =>
    obtain ⟨hfits, hw, hrecent⟩ := hrest r.1.entries (List.Sublist.refl _) fun _ _ h => h
    have hc' : (r.1.getNoFreshen key).2.WellFormed helper ∧ (r.1.getNoFreshen key).2.entries = r.1.entries ∧
        (r.1.getNoFreshen key).2.maxBytesInCache = r.1.maxBytesInCache := by
      have hwf := hc.wellFormed
      unfold getNoFreshen
      split <;> exact ⟨⟨hwf.keys, hwf.cells, hwf.fresh, hwf.mapped, hwf.bytes⟩, rfl, rfl⟩
    obtain ⟨hwf, hentries, hmax⟩ := hc'
    exact ⟨hwf, hmax.trans hc.maxBytes, hentries ▸ hfits, hentries ▸ hw, hentries ▸ hrecent⟩
  | delete key =>
    obtain ⟨hwf, hentries, hmax⟩ := delete_spec hc.wellFormed key
    obtain ⟨hfits, hw, hrecent⟩ := hrest (Records.remove key r.1.entries) (hsub key) fun _ _ h => h
    exact ⟨hwf, hmax.trans hc.maxBytes, hentries ▸ hfits, hentries ▸ hw, hentries ▸ hrecent⟩
  | clear =>
    exact ⟨clear_wellFormed r.1, hc.maxBytes, nofun, Nat.zero_le _, List.Pairwise.nil, nofun⟩

theorem applyAll_holds (hreplace : ∀ a b, helper.shouldReplace a b = true)
    (hequal : ∀ a b, helper.equal a b = true → a = b) (maxSize : ℕ) (h : H) (ops : List (Op V)) :
    Holds helper maxSize ops (applyAll helper maxSize h ops).1 := by
  induction ops using List.reverseRecOn with
  | nil => exact ⟨new_wellFormed maxSize, rfl, nofun, Nat.zero_le _, List.Pairwise.nil, nofun⟩
  | append_singleton ops op ih =>
    unfold applyAll at ih ⊢
    rw [List.foldl_append, List.foldl_cons, List.foldl_nil]
    exact apply_holds hreplace hequal ih op

/-- `evicted` is the shortest run of least recently used entries, other than that of the key, whose removal
makes room for a new one. -/
def ShortestEvicted (helper : ValueHelper V H) (c : LRUCacheBase V) (e : GoogleString × V)
    (evicted : List (GoogleString × V)) : Prop :=
  ∃ kept, Records.remove e.1 c.entries = evicted ++ kept ∧
    Records.weight (pairSize helper) kept + pairSize helper e ≤ c.maxBytesInCache ∧
    ∀ d m, Records.remove e.1 c.entries = d ++ m →
      Records.weight (pairSize helper) m + pairSize helper e ≤ c.maxBytesInCache → evicted.length ≤ d.length

structure PutEvicts (helper : ValueHelper V H) (r : LRUCacheBase V × H) (e : GoogleString × V)
    (r' : LRUCacheBase V × H) : Prop where
  fitting : pairSize helper e < r.1.maxBytesInCache → ∃ evicted, ShortestEvicted helper r.1 e evicted ∧
    r'.1.entries = (Records.remove e.1 r.1.entries).drop evicted.length ++ [e] ∧
    r'.2 = notifyAll helper r.2 evicted
  refused : r.1.maxBytesInCache ≤ pairSize helper e → r'.1.entries = Records.remove e.1 r.1.entries ∧ r'.2 = r.2

structure BoundedMap (helper : ValueHelper V H) (maxSize : ℕ) (ops : List (Op V)) (r : LRUCacheBase V × H) : Prop where
  distinct : (r.1.lruOrderedList.map ListNode.key).Nodup
  sameKeys : ∀ k, k ∈ r.1.map ↔ k ∈ r.1.lruOrderedList.map ListNode.key
  bytes : r.1.currentBytesInCache = (r.1.lruOrderedList.map (entrySize helper)).sum
  bounded : r.1.currentBytesInCache ≤ maxSize
  lookup : ∀ k v, (r.1.getNoFreshen k).1 = some v ∨ (r.1.getFreshen k).1 = some v → LatestPut ops k v
  order : (r.1.lruOrderedList.map ListNode.key).Pairwise fun k j => UsedBefore ops j k
  popsNonempty : ∀ k v, putPopsEmpty helper k v r.1 = false
  evicts : ∀ k v, PutEvicts helper r (k, v) (r.1.put helper k v r.2)

theorem sum_entrySize (c : LRUCacheBase V) :
    Records.weight (pairSize helper) c.entries = (c.lruOrderedList.map (entrySize helper)).sum := by
  rw [Records.weight, entries, List.map_map, List.map_reverse, List.sum_reverse]
  rfl

theorem Holds.putEvicts {r : LRUCacheBase V × H} (hreplace : ∀ a b, helper.shouldReplace a b = true)
    (hequal : ∀ a b, helper.equal a b = true → a = b) (hc : Holds helper maxSize ops r.1) (k : GoogleString) (v : V) :
    PutEvicts helper r (k, v) (r.1.put helper k v r.2) := by
  have hp := put_spec hc.wellFormed k v r.2
  rw [put_records_eq hreplace hequal hc] at hp
  have hentries := hp.entries
  have hnotified := hp.notified
  unfold Records.insert at hentries hnotified
  refine ⟨fun hfit => ?_, fun hbig => ?_⟩
  · rw [if_pos hfit] at hentries hnotified
    obtain ⟨room, hroom⟩ : ∃ room, room = r.1.maxBytesInCache - pairSize helper (k, v) := ⟨_, rfl⟩
    rw [← hroom] at hentries hnotified
    have hsplit := Records.dropped_append_kept (pairSize helper) room (Records.remove k r.1.entries)
    have hkept := Records.weight_kept (pairSize helper) room (Records.remove k r.1.entries)
    refine ⟨Records.dropped (pairSize helper) room (Records.remove k r.1.entries), ⟨_, hsplit.symm, by omega, ?_⟩, ?_,
      hnotified⟩
    · intro d m hd hm
      exact Records.dropped_shortest hd (by omega)
    · have hdrop : (Records.dropped (pairSize helper) room (Records.remove k r.1.entries) ++
          Records.kept (pairSize helper) room (Records.remove k r.1.entries)).drop _ = _ := List.drop_left
      rw [hsplit] at hdrop
      rw [hdrop]
      exact hentries
  · rw [if_neg (Nat.not_lt.mpr hbig)] at hentries hnotified
    exact ⟨hentries, hnotified⟩

/-- After any operations, with a helper that always lets a new value replace the old one, the cache is a bounded
map with least-recently-used eviction. -/
theorem refines_bounded_map (helper : ValueHelper V H) (hreplace : ∀ a b, helper.shouldReplace a b = true)
    (hequal : ∀ a b, helper.equal a b = true → a = b) (maxSize : ℕ) (h : H) (ops : List (Op V)) :
    BoundedMap helper maxSize ops (applyAll helper maxSize h ops) := by
  have hc := applyAll_holds hreplace hequal maxSize h ops
  obtain ⟨r, hr⟩ : ∃ r, r = applyAll helper maxSize h ops := ⟨_, rfl⟩
  rw [← hr] at hc ⊢
  have hwf := hc.wellFormed
  refine ⟨hwf.keys, fun k => ?_, ?_, ?_, fun k v hv => ?_, ?_, fun k v => hwf.not_putPopsEmpty k v,
    fun k v => hc.putEvicts hreplace hequal k v⟩
  · rw [← AList.lookup_isSome, Option.isSome_iff_exists, List.mem_map]
    constructor
    · rintro ⟨i, hi⟩
      obtain ⟨n, hn, hk, -⟩ := (hwf.mapped k i).mp hi
      exact ⟨n, hn, hk⟩
    · rintro ⟨n, hn, hk⟩
      exact ⟨n.cell, (hwf.mapped k n.cell).mpr ⟨n, hn, hk, rfl⟩⟩
  · rw [hwf.bytes, sum_entrySize]
  · rw [hwf.bytes]
    exact hc.weight
  · have hfind : Records.find k r.1.entries = some v := by
      obtain hv | hv := hv
      · rw [← getNoFreshen_eq hwf, hv]
      · rw [← (getFreshen_spec hwf k).2.1, hv]
    exact hc.recent.latest (k, v) (Records.mem_of_find hfind)
  · have horder := List.pairwise_map.mpr hc.recent.order
    rw [entries_keys, List.pairwise_reverse] at horder
    exact horder

def stringHelper : ValueHelper GoogleString Unit where
  size := List.length
  equal := fun a b => a == b
  evictNotify := fun _ h => h
  shouldReplace := fun _ _ => true

theorem refines_bounded_map_string :
    (∀ a b, stringHelper.shouldReplace a b = true) ∧ (∀ a b, stringHelper.equal a b = true → a = b) ∧
      BoundedMap stringHelper 8 [.put [1] [1, 1], .put [2] [2, 2], .getFreshen [1], .put [3] [3, 3]]
        (applyAll stringHelper 8 () [.put [1] [1, 1], .put [2] [2, 2], .getFreshen [1], .put [3] [3, 3]]) := by
  have hequal : ∀ a b, stringHelper.equal a b = true → a = b := fun a b h => beq_iff_eq.mp h
  exact ⟨fun _ _ => rfl, hequal, refines_bounded_map stringHelper (fun _ _ => rfl) hequal 8 () _⟩

/-- An entry of three bytes could take the place of the only one in a cache of three bytes, but nothing is evicted
for it. -/
theorem put_of_max_size_evicts_nothing :
    ∃ r, r = applyAll stringHelper 3 () [.put [1] [1]] ∧ r.1.entries = [([1], [1])] ∧
      ShortestEvicted stringHelper r.1 ([2], [2, 2]) [([1], [1])] ∧
      (r.1.put stringHelper [2] [2, 2] r.2).1.entries = [([1], [1])] ∧
      ¬ ShortestEvicted stringHelper r.1 ([2], [2, 2]) [] := by
  refine ⟨_, rfl, rfl, ⟨[], rfl, by decide, ?_⟩, rfl, ?_⟩
  · intro d m hd hm
    cases d with
    | nil =>
      rw [List.nil_append] at hd
      subst hd
      exact absurd hm (by decide)
    | cons e d => exact Nat.succ_le_succ (Nat.zero_le _)
  · rintro ⟨kept, hkept, hroom, -⟩
    rw [List.nil_append] at hkept
    subst hkept
    exact absurd hroom (by decide)

end PageSpeed.LRUCacheBase
