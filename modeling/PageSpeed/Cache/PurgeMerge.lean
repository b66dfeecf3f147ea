import PageSpeed.Cache.PurgeCover

/-!
What a merge of two purge sets holds: the purges of both, in records of theirs that are
not before the global timestamp.
-/

namespace PageSpeed.PurgeSet

def AboveGlobal (s : PurgeSet) : Prop := ∀ e ∈ s.lru.entries, s.globalInvalidationTimestampMs ≤ e.2

def Latest (s : PurgeSet) : Prop := ∃ key, s.Purged key s.lastInvalidationTimestampMs

theorem notifyAll_le {global bound : Int64} {es : List (GoogleString × Int64)} (hglobal : global ≤ bound)
    (hes : ∀ e ∈ es, e.2 ≤ bound) : LRUCacheBase.notifyAll helper global es ≤ bound := by
  obtain h | ⟨e, he, h⟩ := (le_notifyAll global es _).mp (Int64.le_refl _)
  · exact Int64.le_trans h hglobal
  · exact Int64.le_trans h (hes e he)

theorem insert_aboveGlobal {w : GoogleString × Int64 → ℕ} {budget : ℕ} {e : GoogleString × Int64} {global : Int64}
    {records : List (GoogleString × Int64)} (hs : records.Pairwise fun a b => a.2 ≤ b.2)
    (he : ∀ f ∈ records, f.2 ≤ e.2) (hglobal : ∀ f ∈ records, global ≤ f.2) (hnew : global ≤ e.2) :
    ∀ f ∈ (Records.insert w budget e records).1,
      LRUCacheBase.notifyAll helper global (Records.insert w budget e records).2 ≤ f.2 := by
  unfold Records.insert
  split_ifs
  · have hsplit := Records.dropped_append_kept w (budget - w e) records
    rw [← hsplit] at hs he hglobal
    intro f hf
    obtain hf | hf := List.mem_append.mp hf
    · exact notifyAll_le (hglobal f (List.mem_append_right _ hf))
        fun d hd => (List.pairwise_append.mp hs).2.2 d hd f hf
    · rw [List.mem_singleton.mp hf]
      exact notifyAll_le hnew fun d hd => he d (List.mem_append_left _ hd)
  · exact fun f hf => hglobal f hf

variable {maxSize : ℕ} {s t : PurgeSet}

theorem put_records {b : Bool} (hs : Ordered maxSize s) (habove : s.AboveGlobal)
    {key : GoogleString} {timestampMs v : Int64}
    (hr : sanitizeTimestamp s.lastInvalidationTimestampMs timestampMs = some (.accepted v v))
    (h : s.put key timestampMs = some (b, t)) :
    t.AboveGlobal ∧ (∀ e ∈ t.lru.entries, e ∈ s.lru.entries ∨ e = (key, v)) ∧ t.lastInvalidationTimestampMs = v := by
  obtain ⟨-, hle, -⟩ := sanitize_accepted hr
  have hput := put_eq hr key
  cases hput.symm.trans h
  split_ifs with hg
  · have hp := LRUCacheBase.put_spec hs.wellFormed key v s.globalInvalidationTimestampMs
    have hrecent : ∀ e ∈ s.lru.entries, e.2 ≤ v := fun e he => Int64.le_trans (hs.recent e he) hle
    have hsub : ∀ f ∈ Records.remove key s.lru.entries, f ∈ s.lru.entries := fun f hf => List.mem_of_mem_filter hf
    unfold AboveGlobal
    simp only [hp.entries, hp.notified]
    obtain ⟨old, hold, hlt, heq⟩ | ⟨-, heq⟩ :=
      put_cases (LRUCacheBase.pairSize helper) s.lru.maxBytesInCache key v s.lru.entries
    · rw [heq]
      exact ⟨habove, fun e he => Or.inl he, trivial⟩
    · rw [heq]
      refine ⟨?_, fun e he => ?_, trivial⟩
      · refine insert_aboveGlobal (hs.sorted.sublist List.filter_sublist) (fun f hf => hrecent f (hsub f hf))
          (fun f hf => habove f (hsub f hf)) ?_
        exact Int64.le_of_lt hg
      · obtain he | ⟨rfl, -⟩ := insert_mem he
        · exact Or.inl (hsub e he)
        · exact Or.inr rfl
  · exact ⟨habove, fun e he => Or.inl he, rfl⟩

theorem put_records_of_le {b : Bool} (hs : Ordered maxSize s) (habove : s.AboveGlobal)
    {key : GoogleString} {v : Int64} (hle : s.lastInvalidationTimestampMs ≤ v) (h : s.put key v = some (b, t)) :
    t.AboveGlobal ∧ (∀ e ∈ t.lru.entries, e ∈ s.lru.entries ∨ e = (key, v)) ∧ t.lastInvalidationTimestampMs = v :=
  put_records hs habove (sanitize_of_le (Int64.le_trans hs.initial hs.global) hle) h

theorem putAll_records (es : List (GoogleString × Int64)) (hs : Ordered maxSize s)
    (habove : s.AboveGlobal) (hsorted : es.Pairwise fun a b => a.2 ≤ b.2)
    (hlast : ∀ e ∈ es, s.lastInvalidationTimestampMs ≤ e.2) (hfits : ∀ e ∈ es, e.1.length + 8 < maxSize)
    (hlatest : s.Latest) (h : s.putAll es = some t) :
    t.AboveGlobal ∧ (∀ e ∈ t.lru.entries, e ∈ s.lru.entries ∨ e ∈ es) ∧ t.Latest ∧
      (t.lastInvalidationTimestampMs = s.lastInvalidationTimestampMs ∨
        ∃ e ∈ es, t.lastInvalidationTimestampMs = e.2) := by
  induction es generalizing s with
  | nil =>
    cases h
    exact ⟨habove, fun e he => Or.inl he, hlatest, Or.inl rfl⟩
  | cons e es ih =>
    obtain ⟨he, hsorted⟩ := List.pairwise_cons.mp hsorted
    obtain ⟨⟨b, u⟩, hput, hrest⟩ := Option.bind_eq_some_iff.mp h
    have hle := hlast e List.mem_cons_self
    have hinit : initialTimestampMs ≤ s.lastInvalidationTimestampMs := Int64.le_trans hs.initial hs.global
    obtain ⟨u', hput', ho, hlast', -, hcovers⟩ := put_accepted hs (sanitize_of_le hinit hle) e.1
    cases hput'.symm.trans hput
    obtain ⟨habove', hmem, -⟩ := put_records_of_le hs habove hle hput
    have hlatest' : u.Latest := ⟨e.1, hcovers (hfits e List.mem_cons_self) _ (hlast' ▸ Int64.le_refl _)⟩
    obtain ⟨h₁, h₂, h₃, h₄⟩ := ih ho habove' hsorted (fun f hf => hlast' ▸ he f hf)
      (fun f hf => hfits f (List.mem_cons_of_mem e hf)) hlatest' hrest
    refine ⟨h₁, fun f hf => ?_, h₃, ?_⟩
    · obtain hf | hf := h₂ f hf
      · obtain hf | rfl := hmem f hf
        · exact Or.inl hf
        · exact Or.inr List.mem_cons_self
      · exact Or.inr (List.mem_cons_of_mem e hf)
    · refine Or.inr ?_
      obtain h₄ | ⟨f, hf, h₄⟩ := h₄
      · exact ⟨e, List.mem_cons_self, h₄.trans hlast'⟩
      · exact ⟨f, List.mem_cons_of_mem e hf, h₄⟩

structure Merged (maxSize : ℕ) (s src t : PurgeSet) : Prop where
  ordered : Ordered maxSize t
  purged : ∀ key u, s.Purged key u ∨ src.Purged key u → t.Purged key u
  aboveGlobal : t.AboveGlobal
  mem : ∀ e ∈ t.lru.entries, (e ∈ s.lru.entries ∨ e ∈ src.lru.entries) ∧ 0 ≤ e.2
  latest : t.Latest
  last : t.lastInvalidationTimestampMs = stdMax s.globalInvalidationTimestampMs src.globalInvalidationTimestampMs ∨
    ∃ e, (e ∈ s.lru.entries ∨ e ∈ src.lru.entries) ∧ t.lastInvalidationTimestampMs = e.2

theorem merge_merged {src : PurgeSet} (hs : Ordered maxSize s) (hsrc : Ordered maxSize src) :
    ∃ t, s.merge src = some t ∧ Merged maxSize s src t := by
  obtain ⟨global, hglobal⟩ : ∃ g, g = stdMax s.globalInvalidationTimestampMs src.globalInvalidationTimestampMs :=
    ⟨_, rfl⟩
  have hge : s.globalInvalidationTimestampMs ≤ global := hglobal ▸ le_stdMax_left _ _
  have hge' : src.globalInvalidationTimestampMs ≤ global := hglobal ▸ le_stdMax_right _ _
  have hempty : s.lru.clear.clearStats.entries = [] := rfl
  have hinit : initialTimestampMs ≤ global := Int64.le_trans hs.initial hge
  have hbase : Ordered maxSize ⟨global, global, s.lru.clear.clearStats⟩ :=
    ⟨(LRUCacheBase.clear_wellFormed _).clearStats, hs.maxBytes, by rw [hempty]; exact List.Pairwise.nil,
      by rw [hempty]; exact nofun, by rw [hempty]; exact nofun, Int64.le_refl _, hinit⟩
  have hsorted := mergeContext_sorted hs hsrc global
  have hlast : ∀ e ∈ mergeContext s src global, global ≤ e.2 := fun e he => Int64.le_of_lt (mem_mergeContext.mp he).2
  have hfits : ∀ e ∈ mergeContext s src global, e.1.length + 8 < maxSize := fun e he =>
    (mem_mergeContext.mp he).1.elim (hs.fits e) (hsrc.fits e)
  obtain ⟨t, ht, ho, hmono, hc⟩ := putAll_ordered (mergeContext s src global) hbase hsorted hlast hfits
  obtain ⟨habove, hmem, hlatest, hlast'⟩ := putAll_records (mergeContext s src global) hbase
    (by unfold AboveGlobal; rw [hempty]; exact nofun) hsorted hlast hfits ⟨[], Or.inl (Int64.le_refl _)⟩ ht
  have hcovers : ∀ (m : PurgeSet), m.globalInvalidationTimestampMs ≤ global →
      (∀ e ∈ m.lru.entries, e ∈ s.lru.entries ∨ e ∈ src.lru.entries) → ∀ key u, m.Purged key u → t.Purged key u := by
    rintro m hm hsub key u (hu | ⟨r, hr, hu⟩)
    · exact hmono key u (Or.inl (Int64.le_trans hu hm))
    · by_cases hg : global < r
      · exact hc (key, r) (mem_mergeContext.mpr ⟨hsub _ hr, hg⟩) u hu
      · exact hmono key u (Or.inl (Int64.le_trans hu (by grind)))
  refine ⟨t, by rw [merge, ← hglobal]; exact ht, ho, ?_, habove, fun e he => ?_, hlatest, ?_⟩
  · rintro key u (hu | hu)
    · exact hcovers s hge (fun e he => Or.inl he) key u hu
    · exact hcovers src hge' (fun e he => Or.inr he) key u hu
  · obtain he | he := hmem e he
    · rw [hempty] at he
      cases he
    · obtain ⟨he, hlt⟩ := mem_mergeContext.mp he
      refine ⟨he, ?_⟩
      have hi : initialTimestampMs.toInt = -1 := rfl
      have hz : (0 : Int64).toInt = 0 := rfl
      rw [Int64.le_iff_toInt_le, hi] at hinit
      rw [Int64.lt_iff_toInt_lt] at hlt
      rw [Int64.le_iff_toInt_le, hz]
      omega
  · obtain h | ⟨e, he, h⟩ := hlast'
    · exact Or.inl (h.trans hglobal)
    · exact Or.inr ⟨e, (mem_mergeContext.mp he).1, h⟩

end PageSpeed.PurgeSet
