import PageSpeed.Cache.LRUCacheBase

/-!
The list and the map of a cache hold the same keys, and `Put` acts on the
entries as `Records.put` does.
-/

namespace PageSpeed.LRUCacheBase

variable {V H : Type} {helper : ValueHelper V H}

def pair (n : ListNode V) : GoogleString × V := (n.key, n.value)

def pairSize (helper : ValueHelper V H) (e : GoogleString × V) : ℕ := e.1.length + helper.size e.2

theorem pairSize_pair (n : ListNode V) : pairSize helper (pair n) = entrySize helper n := rfl

structure WellFormed (helper : ValueHelper V H) (c : LRUCacheBase V) : Prop where
  keys : (c.lruOrderedList.map ListNode.key).Nodup
  cells : (c.lruOrderedList.map ListNode.cell).Nodup
  fresh : ∀ n ∈ c.lruOrderedList, n.cell < c.nextCell
  mapped : ∀ k i, c.map.lookup k = some i ↔ ∃ n ∈ c.lruOrderedList, n.key = k ∧ n.cell = i
  bytes : c.currentBytesInCache = Records.weight (pairSize helper) c.entries

theorem new_wellFormed (maxSize : ℕ) : (new maxSize : LRUCacheBase V).WellFormed helper where
  keys := by simp [new]
  cells := by simp [new]
  fresh := by simp [new]
  mapped := by simp [new]
  bytes := rfl

theorem clear_wellFormed (c : LRUCacheBase V) : c.clear.WellFormed helper where
  keys := by simp [clear]
  cells := by simp [clear]
  fresh := by simp [clear]
  mapped := by simp [clear]
  bytes := rfl

theorem WellFormed.clearStats {c : LRUCacheBase V} (h : c.WellFormed helper) :
    c.clearStats.WellFormed helper :=
  ⟨h.keys, h.cells, h.fresh, h.mapped, h.bytes⟩

theorem nodeAt_eq_some {c : LRUCacheBase V} (h : c.WellFormed helper) (i : ℕ) (n : ListNode V) :
    c.nodeAt i = some n ↔ n ∈ c.lruOrderedList ∧ n.cell = i := by
  constructor
  · intro hn
    exact ⟨List.mem_of_find?_eq_some hn, by simpa using List.find?_some hn⟩
  · rintro ⟨hn, rfl⟩
    obtain ⟨m, hm⟩ : ∃ m, c.nodeAt n.cell = some m :=
      Option.isSome_iff_exists.mp (List.find?_isSome.mpr ⟨n, hn, by simp⟩)
    have hmem := List.mem_of_find?_eq_some hm
    have hcell : m.cell = n.cell := by simpa using List.find?_some hm
    rw [hm, List.inj_on_of_nodup_map h.cells hmem hn hcell]

theorem lookup_nodeAt {c : LRUCacheBase V} (h : c.WellFormed helper) (k : GoogleString) (n : ListNode V) :
    (c.map.lookup k).bind c.nodeAt = some n ↔ n ∈ c.lruOrderedList ∧ n.key = k := by
  simp only [Option.bind_eq_some_iff, nodeAt_eq_some h, h.mapped]
  constructor
  · rintro ⟨i, ⟨m, hm, hk, hi⟩, hn, hc⟩
    have he : m = n := List.inj_on_of_nodup_map h.cells hm hn (hi.trans hc.symm)
    exact ⟨hn, he ▸ hk⟩
  · rintro ⟨hn, hk⟩
    exact ⟨n.cell, ⟨n, hn, hk, rfl⟩, hn, rfl⟩

theorem entries_keys (c : LRUCacheBase V) :
    c.entries.map Prod.fst = (c.lruOrderedList.map ListNode.key).reverse := by
  simp [entries, List.map_reverse, Function.comp_def]

theorem entries_nodup {c : LRUCacheBase V} (h : c.WellFormed helper) : (c.entries.map Prod.fst).Nodup := by
  rw [entries_keys]
  exact List.nodup_reverse.mpr h.keys

theorem find_entries {c : LRUCacheBase V} (h : c.WellFormed helper) (k : GoogleString) :
    Records.find k c.entries = ((c.map.lookup k).bind c.nodeAt).map ListNode.value := by
  have hnd : (c.entries.map Prod.fst).Nodup := by rw [entries_keys]; exact List.nodup_reverse.mpr h.keys
  cases hn : (c.map.lookup k).bind c.nodeAt with
  | some n =>
    obtain ⟨hm, rfl⟩ := (lookup_nodeAt h k n).mp hn
    apply Records.find_of_mem hnd
    exact List.mem_map.mpr ⟨n, List.mem_reverse.mpr hm, rfl⟩
  | none =>
    apply Records.find_eq_none.mpr
    rw [entries_keys, List.mem_reverse, List.mem_map]
    rintro ⟨n, hm, hk⟩
    rw [(lookup_nodeAt h k n).mpr ⟨hm, hk⟩] at hn
    cases hn

theorem getNoFreshen_eq {c : LRUCacheBase V} (h : c.WellFormed helper) (k : GoogleString) :
    (c.getNoFreshen k).1 = Records.find k c.entries := by
  rw [find_entries h, getNoFreshen]
  cases (c.map.lookup k).bind c.nodeAt <;> rfl

def notifyAll (helper : ValueHelper V H) (h : H) (es : List (GoogleString × V)) : H :=
  es.foldl (fun h e => helper.evictNotify e.2 h) h

structure Evicted (helper : ValueHelper V H) (room : ℕ) (c : LRUCacheBase V) (h : H)
    (c' : LRUCacheBase V) (h' : H) : Prop where
  entries : c'.entries = Records.kept (pairSize helper) room c.entries
  sublist : List.Sublist c'.lruOrderedList c.lruOrderedList
  lookup : ∀ k, c'.map.lookup k =
    if k ∈ (Records.dropped (pairSize helper) room c.entries).map Prod.fst then none else c.map.lookup k
  bytes : c'.currentBytesInCache = Records.weight (pairSize helper) c'.entries
  notified : h' = notifyAll helper h (Records.dropped (pairSize helper) room c.entries)
  maxBytes : c'.maxBytesInCache = c.maxBytesInCache
  nextCell : c'.nextCell = c.nextCell

theorem evictLoop_spec (bytesNeeded : ℕ) (r : List (ListNode V)) (c : LRUCacheBase V) (h : H)
    (hl : c.lruOrderedList = r.reverse) (hn : bytesNeeded < c.maxBytesInCache)
    (hb : c.currentBytesInCache = Records.weight (pairSize helper) c.entries) :
    Evicted helper (c.maxBytesInCache - bytesNeeded) c h
      (evictLoop helper bytesNeeded r.length c h).1 (evictLoop helper bytesNeeded r.length c h).2 := by
  induction r generalizing c h with
  | nil =>
    have he : c.entries = [] := by simp [entries, hl]
    exact ⟨by simp [evictLoop, he, Records.kept], List.Sublist.refl _,
      by simp [evictLoop, he, Records.dropped], hb, by simp [evictLoop, he, Records.dropped, notifyAll], rfl, rfl⟩
  | cons n r ih =>
    have he : c.entries = pair n :: r.map pair := by simp [entries, hl, pair]
    rw [List.length_cons, evictLoop]
    by_cases hc : c.maxBytesInCache < bytesNeeded + c.currentBytesInCache
    · have hroom : c.maxBytesInCache - bytesNeeded < Records.weight (pairSize helper) (pair n :: r.map pair) := by
        rw [← he, ← hb]; omega
      have hd : (evictBack helper n c).lruOrderedList = r.reverse := by simp [evictBack, hl]
      have hde : (evictBack helper n c).entries = r.map pair := by simp [entries, hd, pair]
      have hbd : (evictBack helper n c).currentBytesInCache =
          Records.weight (pairSize helper) (evictBack helper n c).entries := by
        rw [hde]
        simp only [evictBack, hb, he, Records.weight_cons, pairSize_pair]
        omega
      have hlast : c.lruOrderedList.getLast? = some n := by simp [hl]
      rw [if_pos hc, hlast]
      obtain ⟨h₁, h₂, h₃, h₄, h₅, h₆, h₇⟩ := ih (evictBack helper n c) (helper.evictNotify n.value h) hd hn hbd
      rw [hde] at h₁ h₃ h₅
      have hmax : (evictBack helper n c).maxBytesInCache = c.maxBytesInCache := rfl
      rw [hmax] at h₁ h₃ h₅
      refine ⟨?_, h₂.trans ?_, ?_, h₄, ?_, h₆, h₇⟩
      · rw [h₁, he, Records.kept, if_pos hroom]
      · rw [hd, hl, List.reverse_cons]
        exact List.sublist_append_left _ _
      · intro k
        rw [h₃ k, he, Records.dropped, if_pos hroom, List.map_cons]
        by_cases hk : k = n.key
        · subst hk; simp [evictBack, pair]
        · have hlook : (evictBack helper n c).map.lookup k = c.map.lookup k := AList.lookup_erase_ne hk
          have hne : k ≠ (pair n).1 := hk
          simp only [hlook, List.mem_cons, hne, false_or]
      · rw [h₅, he, Records.dropped, if_pos hroom]
        rfl
    · have hroom : ¬ c.maxBytesInCache - bytesNeeded < Records.weight (pairSize helper) (pair n :: r.map pair) := by
        rw [← he, ← hb]; omega
      rw [if_neg hc]
      have hd : Records.dropped (pairSize helper) (c.maxBytesInCache - bytesNeeded) c.entries = [] := by
        rw [he, Records.dropped, if_neg hroom]
      exact ⟨by rw [he, Records.kept, if_neg hroom], List.Sublist.refl _, by simp [hd], hb,
        by rw [hd]; rfl, rfl, rfl⟩

structure Awaiting (helper : ValueHelper V H) (key : GoogleString) (c : LRUCacheBase V) : Prop where
  keys : (c.lruOrderedList.map ListNode.key).Nodup
  cells : (c.lruOrderedList.map ListNode.cell).Nodup
  fresh : ∀ n ∈ c.lruOrderedList, n.cell < c.nextCell
  absent : key ∉ c.lruOrderedList.map ListNode.key
  mapped : ∀ k ≠ key, ∀ i, c.map.lookup k = some i ↔ ∃ n ∈ c.lruOrderedList, n.key = k ∧ n.cell = i
  bytes : c.currentBytesInCache = Records.weight (pairSize helper) c.entries

variable {key : GoogleString}

theorem Awaiting.evicted {room : ℕ} {c c' : LRUCacheBase V} {h h' : H}
    (hc : Awaiting helper key c) (he : Evicted helper room c h c' h') : Awaiting helper key c' where
  keys := hc.keys.sublist (he.sublist.map _)
  cells := hc.cells.sublist (he.sublist.map _)
  fresh := fun n hn => he.nextCell ▸ hc.fresh n (he.sublist.subset hn)
  absent := fun hk => hc.absent ((he.sublist.map _).subset hk)
  mapped := by
    intro k hk i
    have hsplit := Records.dropped_append_kept (pairSize helper) room c.entries
    have hnd : (c.entries.map Prod.fst).Nodup := by
      rw [entries_keys]; exact List.nodup_reverse.mpr hc.keys
    rw [← hsplit, List.map_append, List.nodup_append] at hnd
    have hkept : ∀ n ∈ c'.lruOrderedList,
        n.key ∉ (Records.dropped (pairSize helper) room c.entries).map Prod.fst := by
      intro n hn hd
      refine hnd.2.2 _ hd n.key ?_ rfl
      rw [← he.entries, entries_keys]
      exact List.mem_reverse.mpr (List.mem_map_of_mem hn)
    have hall : ∀ n ∈ c.lruOrderedList,
        n.key ∉ (Records.dropped (pairSize helper) room c.entries).map Prod.fst → n ∈ c'.lruOrderedList := by
      intro n hn hd
      have hmem : n.key ∈ c.entries.map Prod.fst := by
        rw [entries_keys]; exact List.mem_reverse.mpr (List.mem_map_of_mem hn)
      rw [← hsplit, List.map_append, List.mem_append, ← he.entries, entries_keys] at hmem
      obtain ⟨m, hm, hk⟩ := List.mem_map.mp (List.mem_reverse.mp (hmem.resolve_left hd))
      rwa [← List.inj_on_of_nodup_map hc.keys (he.sublist.subset hm) hn hk]
    rw [he.lookup]
    split_ifs with hd
    · rw [false_iff]
      rintro ⟨n, hn, rfl, -⟩
      exact hkept n hn hd
    · rw [hc.mapped k hk]
      constructor
      · rintro ⟨n, hn, rfl, hi⟩
        exact ⟨n, hall n hn hd, rfl, hi⟩
      · rintro ⟨n, hn, hnk, hi⟩
        exact ⟨n, he.sublist.subset hn, hnk, hi⟩
  bytes := he.bytes

theorem Awaiting.pushFront {c : LRUCacheBase V} (hc : Awaiting helper key c) (value : V) :
    ({ c with currentBytesInCache := c.currentBytesInCache + pairSize helper (key, value) }.pushFront key
      value).WellFormed helper where
  keys := by simpa [LRUCacheBase.pushFront] using ⟨by simpa using hc.absent, hc.keys⟩
  cells := by
    simp only [LRUCacheBase.pushFront, List.map_cons, List.nodup_cons, List.mem_map, not_exists, not_and]
    exact ⟨fun n hn he => absurd he (hc.fresh n hn).ne, hc.cells⟩
  fresh := by
    simp only [LRUCacheBase.pushFront, List.mem_cons]
    rintro n (rfl | hn)
    · exact Nat.lt_succ_self _
    · have := hc.fresh n hn; omega
  mapped := by
    intro k i
    simp only [LRUCacheBase.pushFront, List.mem_cons]
    by_cases hk : k = key
    · subst hk
      rw [AList.lookup_insert]
      constructor
      · rintro ⟨⟩
        exact ⟨_, Or.inl rfl, rfl, rfl⟩
      · rintro ⟨n, rfl | hn, hk, rfl⟩
        · rfl
        · exact absurd (List.mem_map.mpr ⟨n, hn, hk⟩) hc.absent
    · rw [AList.lookup_insert_ne hk, hc.mapped k hk]
      constructor
      · rintro ⟨n, hn, h⟩
        exact ⟨n, Or.inr hn, h⟩
      · rintro ⟨n, rfl | hn, hnk, hi⟩
        · exact absurd hnk.symm hk
        · exact ⟨n, hn, hnk, hi⟩
  bytes := by
    simp [LRUCacheBase.pushFront, entries, hc.bytes]

theorem pushFront_entries (c : LRUCacheBase V) (key : GoogleString) (value : V) :
    (c.pushFront key value).entries = c.entries ++ [(key, value)] := by
  simp [pushFront, entries]

structure Puts (helper : ValueHelper V H) (c : LRUCacheBase V) (h : H)
    (out : List (GoogleString × V) × List (GoogleString × V)) (r : LRUCacheBase V × H) : Prop where
  wellFormed : r.1.WellFormed helper
  entries : r.1.entries = out.1
  notified : r.2 = notifyAll helper h out.2
  maxBytes : r.1.maxBytesInCache = c.maxBytesInCache

theorem Awaiting.insert {c : LRUCacheBase V} (hc : Awaiting helper key c) (value : V) (h : H)
    (hfit : pairSize helper (key, value) < c.maxBytesInCache) :
    ∃ c₂ h₂, evictIfNecessary helper (key.length + helper.size value) c h = (true, c₂, h₂) ∧
      Puts helper c h (Records.insert (pairSize helper) c.maxBytesInCache (key, value) c.entries)
        (c₂.pushFront key value, h₂) := by
  have hfit' : key.length + helper.size value < c.maxBytesInCache := hfit
  have he := evictLoop_spec _ c.lruOrderedList.reverse c h (by simp) hfit' hc.bytes
  rw [List.length_reverse] at he
  refine ⟨_, (evictLoop helper (key.length + helper.size value) c.lruOrderedList.length c h).2, ?_,
    (hc.evicted he).pushFront value, ?_, ?_, he.maxBytes⟩
  · rw [evictIfNecessary, if_pos hfit']
    rfl
  · rw [Records.insert, if_pos hfit, pushFront_entries]
    exact congrArg (· ++ [(key, value)]) he.entries
  · rw [Records.insert, if_pos hfit]
    exact he.notified

theorem WellFormed.awaiting {c : LRUCacheBase V} (hc : c.WellFormed helper)
    (hk : (c.map.lookup key).bind c.nodeAt = none) : Awaiting helper key c where
  keys := hc.keys
  cells := hc.cells
  fresh := hc.fresh
  absent := by
    intro hm
    obtain ⟨n, hn, hnk⟩ := List.mem_map.mp hm
    rw [(lookup_nodeAt hc key n).mpr ⟨hn, hnk⟩] at hk
    cases hk
  mapped := fun k _ => hc.mapped k
  bytes := hc.bytes

theorem unlink_eq {c : LRUCacheBase V} (hc : c.WellFormed helper) {n : ListNode V}
    (hn : n ∈ c.lruOrderedList) :
    c.unlink n.cell = c.lruOrderedList.filter fun m => !decide (m.key = n.key) := by
  apply List.filter_congr
  intro m hm
  have : m.cell = n.cell ↔ m.key = n.key :=
    ⟨fun h => by rw [List.inj_on_of_nodup_map hc.cells hm hn h],
      fun h => by rw [List.inj_on_of_nodup_map hc.keys hm hn h]⟩
  simp [this]

theorem unlink_entries {c : LRUCacheBase V} (hc : c.WellFormed helper) {n : ListNode V}
    (hn : n ∈ c.lruOrderedList) :
    (c.unlink n.cell).reverse.map (fun m => (m.key, m.value)) = Records.remove n.key c.entries := by
  rw [unlink_eq hc hn, Records.remove, entries, List.filter_map, List.filter_reverse]
  rfl

theorem weight_remove {c : LRUCacheBase V} (hc : c.WellFormed helper) {n : ListNode V}
    (hn : n ∈ c.lruOrderedList) :
    Records.weight (pairSize helper) c.entries =
      entrySize helper n + Records.weight (pairSize helper) (Records.remove n.key c.entries) := by
  have hmem : (n.key, n.value) ∈ c.entries := List.mem_map.mpr ⟨n, List.mem_reverse.mpr hn, rfl⟩
  exact Records.weight_remove (pairSize helper) (entries_nodup hc) hmem

theorem WellFormed.unlinked {c : LRUCacheBase V} (hc : c.WellFormed helper) {n : ListNode V}
    (hn : n ∈ c.lruOrderedList) (stats : LRUStats) :
    Awaiting helper n.key { c with
      stats := stats
      currentBytesInCache := c.currentBytesInCache - entrySize helper n
      lruOrderedList := c.unlink n.cell } where
  keys := hc.keys.sublist (List.filter_sublist.map _)
  cells := hc.cells.sublist (List.filter_sublist.map _)
  fresh := fun m hm => hc.fresh m (List.mem_of_mem_filter hm)
  absent := by simp [unlink_eq hc hn]
  mapped := by
    intro k hk i
    rw [hc.mapped, unlink_eq hc hn]
    constructor
    · rintro ⟨m, hm, rfl, hi⟩
      exact ⟨m, List.mem_filter.mpr ⟨hm, by simpa using hk⟩, rfl, hi⟩
    · rintro ⟨m, hm, hmk, hi⟩
      exact ⟨m, List.mem_of_mem_filter hm, hmk, hi⟩
  bytes := by
    have hw := weight_remove hc hn
    have he : LRUCacheBase.entries { c with
        stats := stats
        currentBytesInCache := c.currentBytesInCache - entrySize helper n
        lruOrderedList := c.unlink n.cell } = Records.remove n.key c.entries := unlink_entries hc hn
    rw [he]
    change c.currentBytesInCache - entrySize helper n = _
    rw [hc.bytes]
    omega

theorem insert_refused (value : V) (c : LRUCacheBase V) (h : H)
    (hfit : ¬ pairSize helper (key, value) < c.maxBytesInCache) :
    evictIfNecessary helper (key.length + helper.size value) c h = (false, c, h) ∧
      Records.insert (pairSize helper) c.maxBytesInCache (key, value) c.entries = (c.entries, []) :=
  ⟨if_neg hfit, if_neg hfit⟩

theorem freshen_wellFormed {c : LRUCacheBase V} (hc : c.WellFormed helper) {n : ListNode V}
    (hn : n ∈ c.lruOrderedList) : (c.freshen n).WellFormed helper ∧
      (c.freshen n).entries = Records.remove n.key c.entries ++ [(n.key, n.value)] := by
  have he : (c.freshen n).entries = Records.remove n.key c.entries ++ [(n.key, n.value)] := by
    rw [← unlink_entries hc hn]
    simp [freshen, entries]
  have hmem : ∀ m, m ∈ (c.freshen n).lruOrderedList ↔ m ∈ c.lruOrderedList := by
    intro m
    simp only [freshen, List.mem_cons, unlink_eq hc hn, List.mem_filter, Bool.not_eq_true',
      decide_eq_false_iff_not]
    constructor
    · rintro (rfl | ⟨hm, -⟩)
      · exact hn
      · exact hm
    · intro hm
      by_cases hk : m.key = n.key
      · exact Or.inl (List.inj_on_of_nodup_map hc.keys hm hn hk)
      · exact Or.inr ⟨hm, hk⟩
  refine ⟨⟨?_, ?_, ?_, ?_, ?_⟩, he⟩
  · simpa [freshen, unlink_eq hc hn] using hc.keys.sublist (List.filter_sublist.map _)
  · simpa [freshen, unlink] using hc.cells.sublist (List.filter_sublist.map _)
  · exact fun m hm => hc.fresh m ((hmem m).mp hm)
  · intro k i
    simp only [hmem]
    exact hc.mapped k i
  · have hw := weight_remove hc hn
    rw [he, Records.weight_append]
    simp only [freshen, hc.bytes, hw, Records.weight_cons, Records.weight_nil, pairSize, entrySize]
    omega

theorem Awaiting.erase {c : LRUCacheBase V} (hc : Awaiting helper key c) :
    WellFormed helper { c with map := c.map.erase key } where
  keys := hc.keys
  cells := hc.cells
  fresh := hc.fresh
  mapped := by
    intro k i
    by_cases hk : k = key
    · subst hk
      rw [AList.lookup_erase]
      refine ⟨(nomatch ·), ?_⟩
      rintro ⟨m, hm, hmk, -⟩
      exact (hc.absent (List.mem_map.mpr ⟨m, hm, hmk⟩)).elim
    · rw [AList.lookup_erase_ne hk]
      exact hc.mapped k hk i
  bytes := hc.bytes

theorem put_spec {c : LRUCacheBase V} (hc : c.WellFormed helper) (key : GoogleString) (value : V) (h : H) :
    Puts helper c h (Records.put (pairSize helper) c.maxBytesInCache helper.shouldReplace helper.equal key value
      c.entries) (c.put helper key value h) := by
  rw [Records.put, find_entries hc, put]
  cases hl : (c.map.lookup key).bind c.nodeAt with
  | none =>
    have ha := hc.awaiting hl
    by_cases hfit : pairSize helper (key, value) < c.maxBytesInCache
    · obtain ⟨c₂, h₂, he, hp⟩ := ha.insert value h hfit
      simp only [he, Option.map_none]
      exact hp
    · obtain ⟨he, hi⟩ := insert_refused value c h hfit
      simp only [he, hi, Option.map_none]
      exact ⟨hc, rfl, rfl, rfl⟩
  | some n =>
    obtain ⟨hn, rfl⟩ := (lookup_nodeAt hc key n).mp hl
    simp only [Option.map_some]
    by_cases hr : helper.shouldReplace n.value value = false
    · simp only [hr, Bool.not_false, ↓reduceIte]
      exact ⟨hc, rfl, rfl, rfl⟩
    · rw [Bool.not_eq_false] at hr
      simp only [hr, Bool.not_true, Bool.false_eq_true, ↓reduceIte]
      by_cases heq : helper.equal value n.value = true
      · obtain ⟨hw, he⟩ := freshen_wellFormed hc hn
        simp only [heq, ↓reduceIte]
        exact ⟨⟨hw.keys, hw.cells, hw.fresh, hw.mapped, hw.bytes⟩, he, rfl, rfl⟩
      · rw [Bool.not_eq_true] at heq
        simp only [heq, Bool.false_eq_true, ↓reduceIte]
        have ha := hc.unlinked hn { c.stats with numDeletes := c.stats.numDeletes + 1 }
        by_cases hfit : pairSize helper (n.key, value) < c.maxBytesInCache
        · obtain ⟨c₂, h₂, he, hp⟩ := ha.insert value h hfit
          simp only [he, ← unlink_entries hc hn]
          exact ⟨hp.wellFormed, hp.entries, hp.notified, hp.maxBytes⟩
        · obtain ⟨he, -⟩ := insert_refused value { c with
            stats := { c.stats with numDeletes := c.stats.numDeletes + 1 }
            currentBytesInCache := c.currentBytesInCache - entrySize helper n
            lruOrderedList := c.unlink n.cell } h hfit
          simp only [he, Records.insert, if_neg hfit]
          exact ⟨ha.erase, unlink_entries hc hn, rfl, rfl⟩

theorem getFreshen_spec {c : LRUCacheBase V} (hc : c.WellFormed helper) (key : GoogleString) :
    (c.getFreshen key).2.WellFormed helper ∧ (c.getFreshen key).1 = Records.find key c.entries ∧
      (c.getFreshen key).2.entries = (match Records.find key c.entries with
        | some v => Records.remove key c.entries ++ [(key, v)]
        | none => c.entries) ∧
      (c.getFreshen key).2.maxBytesInCache = c.maxBytesInCache := by
  rw [find_entries hc, getFreshen]
  cases hl : (c.map.lookup key).bind c.nodeAt with
  | none => exact ⟨⟨hc.keys, hc.cells, hc.fresh, hc.mapped, hc.bytes⟩, rfl, rfl, rfl⟩
  | some n =>
    obtain ⟨hn, rfl⟩ := (lookup_nodeAt hc key n).mp hl
    obtain ⟨hw, he⟩ := freshen_wellFormed hc hn
    exact ⟨⟨hw.keys, hw.cells, hw.fresh, hw.mapped, hw.bytes⟩, rfl, he, rfl⟩

theorem delete_spec {c : LRUCacheBase V} (hc : c.WellFormed helper) (key : GoogleString) :
    (c.delete helper key).WellFormed helper ∧ (c.delete helper key).entries = Records.remove key c.entries ∧
      (c.delete helper key).maxBytesInCache = c.maxBytesInCache := by
  have hfind := find_entries hc key
  rw [delete]
  cases hl : (c.map.lookup key).bind c.nodeAt with
  | none =>
    rw [hl] at hfind
    exact ⟨hc, (Records.remove_of_not_mem (Records.find_eq_none.mp hfind)).symm, rfl⟩
  | some n =>
    obtain ⟨hn, rfl⟩ := (lookup_nodeAt hc key n).mp hl
    have ha := (hc.unlinked hn { c.stats with numDeletes := c.stats.numDeletes + 1 }).erase
    exact ⟨ha, unlink_entries hc hn, rfl⟩

end PageSpeed.LRUCacheBase
