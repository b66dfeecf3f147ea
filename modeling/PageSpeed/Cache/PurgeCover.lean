import PageSpeed.Cache.LRURefinement
import PageSpeed.Cache.PurgeSet

/-!
A purge set covers a key up to a time when its global timestamp or its record
for the key reaches that time. No operation uncovers anything, because the list
of records is sorted by time and the last timestamp bounds it.
-/

namespace PageSpeed.PurgeSet

abbrev helper := invalidationTimestampHelper

def Covers (global : Int64) (records : List (GoogleString × Int64)) (key : GoogleString) (t : Int64) : Prop :=
  t ≤ global ∨ ∃ r, (key, r) ∈ records ∧ t ≤ r

theorem le_notifyAll (global : Int64) (es : List (GoogleString × Int64)) (t : Int64) :
    t ≤ LRUCacheBase.notifyAll helper global es ↔ t ≤ global ∨ ∃ e ∈ es, t ≤ e.2 := by
  induction es generalizing global with
  | nil => simp [LRUCacheBase.notifyAll]
  | cons e es ih =>
    have hstep : LRUCacheBase.notifyAll helper global (e :: es) =
        LRUCacheBase.notifyAll helper (stdMax e.2 global) es := rfl
    rw [hstep, ih, le_stdMax_iff]
    simp only [List.mem_cons, exists_eq_or_imp]
    tauto

variable {w : GoogleString × Int64 → ℕ} {budget maxSize : ℕ} {e : GoogleString × Int64}
  {records : List (GoogleString × Int64)} {key : GoogleString} {t v timestampMs : Int64} {s src : PurgeSet}

theorem insert_covers {global : Int64} (h : Covers global records key t) :
    Covers (LRUCacheBase.notifyAll helper global (Records.insert w budget e records).2)
      (Records.insert w budget e records).1 key t := by
  unfold Records.insert
  split_ifs with hfit
  · rcases h with h | ⟨r, hr, ht⟩
    · exact Or.inl ((le_notifyAll _ _ _).mpr (Or.inl h))
    · rw [← Records.dropped_append_kept w (budget - w e) records, List.mem_append] at hr
      rcases hr with hr | hr
      · exact Or.inl ((le_notifyAll _ _ _).mpr (Or.inr ⟨_, hr, ht⟩))
      · exact Or.inr ⟨r, List.mem_append_left _ hr, ht⟩
  · exact h

theorem insert_self_covers
    (global : Int64) (records : List (GoogleString × Int64)) (hfit : w (key, v) < budget) (ht : t ≤ v) :
    Covers (LRUCacheBase.notifyAll helper global (Records.insert w budget (key, v) records).2)
      (Records.insert w budget (key, v) records).1 key t := by
  refine Or.inr ⟨v, ?_, ht⟩
  rw [Records.insert, if_pos hfit]
  simp

theorem insert_mem {f : GoogleString × Int64} (h : f ∈ (Records.insert w budget e records).1) :
    f ∈ records ∨ f = e ∧ w e < budget := by
  unfold Records.insert at h
  split_ifs at h with hfit
  · rcases List.mem_append.mp h with h | h
    · left
      rw [← Records.dropped_append_kept w (budget - w e) records]
      exact List.mem_append_right _ h
    · exact Or.inr ⟨List.mem_singleton.mp h, hfit⟩
  · exact Or.inl h

theorem insert_sorted (hs : records.Pairwise fun a b => a.2 ≤ b.2) (he : ∀ f ∈ records, f.2 ≤ e.2) :
    (Records.insert w budget e records).1.Pairwise fun a b => a.2 ≤ b.2 := by
  unfold Records.insert
  split_ifs with hfit
  · have hsplit := Records.dropped_append_kept w (budget - w e) records
    rw [← hsplit] at hs he
    refine List.pairwise_append.mpr ⟨(List.pairwise_append.mp hs).2.1, List.pairwise_singleton _ _, ?_⟩
    intro a ha b hb
    rw [List.mem_singleton.mp hb]
    exact he a (List.mem_append_right _ ha)
  · exact hs

theorem put_cases (w : GoogleString × Int64 → ℕ) (budget : ℕ) (key : GoogleString) (v : Int64)
    (records : List (GoogleString × Int64)) :
    (∃ old, Records.find key records = some old ∧ v ≤ old ∧
      Records.put w budget helper.shouldReplace helper.equal key v records = (records, [])) ∨
    ((∀ old, Records.find key records = some old → old < v) ∧
      Records.put w budget helper.shouldReplace helper.equal key v records =
        Records.insert w budget (key, v) (Records.remove key records)) := by
  unfold Records.put
  cases hf : Records.find key records with
  | none =>
    right
    rw [Records.remove_of_not_mem (Records.find_eq_none.mp hf)]
    exact ⟨by simp, rfl⟩
  | some old =>
    by_cases hlt : old < v
    · have hne : (v == old) = false := by grind
      right
      refine ⟨fun o ho => by cases ho; exact hlt, ?_⟩
      simp [helper, invalidationTimestampHelper, hlt, hne]
    · left
      refine ⟨old, rfl, by grind, ?_⟩
      simp [helper, invalidationTimestampHelper, hlt]

structure Ordered (maxSize : ℕ) (s : PurgeSet) : Prop where
  wellFormed : s.lru.WellFormed helper
  maxBytes : s.lru.maxBytesInCache = maxSize
  sorted : s.lru.entries.Pairwise fun a b => a.2 ≤ b.2
  recent : ∀ e ∈ s.lru.entries, e.2 ≤ s.lastInvalidationTimestampMs
  fits : ∀ e ∈ s.lru.entries, e.1.length + 8 < maxSize
  global : s.globalInvalidationTimestampMs ≤ s.lastInvalidationTimestampMs
  initial : initialTimestampMs ≤ s.globalInvalidationTimestampMs

def Purged (s : PurgeSet) (key : GoogleString) (t : Int64) : Prop :=
  Covers s.globalInvalidationTimestampMs s.lru.entries key t

theorem isValid_eq_false (h : s.lru.WellFormed helper) (key : GoogleString) (t : Int64) :
    s.isValid key t = false ↔ s.Purged key t := by
  unfold isValid Purged Covers
  rw [LRUCacheBase.getNoFreshen_eq h]
  by_cases hg : t ≤ s.globalInvalidationTimestampMs
  · simp [hg]
  · rw [if_neg hg]
    cases hf : Records.find key s.lru.entries with
    | none =>
      have hk := Records.find_eq_none.mp hf
      simp only [Bool.true_eq_false, hg, false_or, false_iff, not_exists, not_and]
      exact fun r hr => absurd (List.mem_map_of_mem (f := Prod.fst) hr) hk
    | some old =>
      have hm := Records.mem_of_find hf
      simp only [decide_eq_false_iff_not, hg, false_or]
      constructor
      · intro ht
        exact ⟨old, hm, by grind⟩
      · rintro ⟨r, hr, ht⟩
        rw [Records.find_of_mem (LRUCacheBase.entries_nodup h) hr] at hf
        cases hf
        grind

theorem new_ordered (maxSize : ℕ) : Ordered maxSize (.new maxSize) where
  wellFormed := LRUCacheBase.new_wellFormed maxSize
  maxBytes := rfl
  sorted := List.Pairwise.nil
  recent := by simp [PurgeSet.new, LRUCacheBase.entries, LRUCacheBase.new]
  fits := by simp [PurgeSet.new, LRUCacheBase.entries, LRUCacheBase.new]
  global := show initialTimestampMs ≤ 0 by decide
  initial := show initialTimestampMs ≤ initialTimestampMs by decide

theorem int64Sub_eq_some {a b d : Int64} (h : int64Sub a b = some d) : d.toInt = a.toInt - b.toInt := by
  unfold int64Sub at h
  split_ifs at h with he
  cases h
  exact he

theorem sanitize_accepted {lastMs l : Int64} (h : sanitizeTimestamp lastMs timestampMs = some (.accepted l t)) :
    l = t ∧ lastMs ≤ t ∧ timestampMs ≤ t := by
  obtain ⟨d, hd, he⟩ := Option.map_eq_some_iff.mp h
  have hsub := int64Sub_eq_some hd
  have hzero : (0 : Int64).toInt = 0 := rfl
  simp only [Int64.le_iff_toInt_le] at he ⊢
  split_ifs at he with h₁ h₂
  · cases he
    exact ⟨rfl, by omega, by omega⟩
  · cases he
    exact ⟨rfl, by omega, by omega⟩

theorem lruPut_ordered (hs : Ordered maxSize s) (key : GoogleString) (hlast : s.lastInvalidationTimestampMs = t) :
    let r := s.lru.put helper key t s.globalInvalidationTimestampMs
    Ordered maxSize { s with lru := r.1, globalInvalidationTimestampMs := r.2 } ∧
      (∀ k u, s.Purged k u → Covers r.2 r.1.entries k u) ∧
      (key.length + 8 < maxSize → ∀ u ≤ t, Covers r.2 r.1.entries key u) := by
  intro r
  have hp := LRUCacheBase.put_spec hs.wellFormed key t s.globalInvalidationTimestampMs
  rw [hs.maxBytes] at hp
  have hentries : r.1.entries = _ := hp.entries
  have hnotified : r.2 = _ := hp.notified
  rcases put_cases (LRUCacheBase.pairSize helper) maxSize key t s.lru.entries with ⟨old, hold, hle, hput⟩ | ⟨hlt, hput⟩
  · rw [hput] at hentries hnotified
    have hg : r.2 = s.globalInvalidationTimestampMs := hnotified
    refine ⟨⟨hp.wellFormed, hp.maxBytes.trans hs.maxBytes, ?_, ?_, ?_, ?_, ?_⟩, ?_, ?_⟩
    · exact hentries.symm ▸ hs.sorted
    · exact fun e he => hs.recent e (hentries.subst (motive := (e ∈ ·)) he)
    · exact fun e he => hs.fits e (hentries.subst (motive := (e ∈ ·)) he)
    · exact hg.symm ▸ hs.global
    · exact hg.symm ▸ hs.initial
    · intro k u hu
      rw [hg, hentries]
      exact hu
    · intro _ u hu
      refine Or.inr ⟨old, ?_, by grind⟩
      rw [hentries]
      exact Records.mem_of_find hold
  · rw [hput] at hentries hnotified
    have hsub : ∀ f ∈ Records.remove key s.lru.entries, f ∈ s.lru.entries := fun f hf => List.mem_of_mem_filter hf
    have hmem : ∀ f ∈ r.1.entries, f ∈ s.lru.entries ∨ f = (key, t) ∧ key.length + 8 < maxSize := by
      intro f hf
      rw [hentries] at hf
      exact (insert_mem hf).imp_left (hsub f)
    have hglobal : ∀ u, u ≤ r.2 → u ≤ s.globalInvalidationTimestampMs ∨ ∃ f ∈ s.lru.entries, u ≤ f.2 := by
      intro u hu
      rw [hnotified, le_notifyAll] at hu
      rcases hu with hu | ⟨f, hf, hu⟩
      · exact Or.inl hu
      · refine Or.inr ⟨f, ?_, hu⟩
        unfold Records.insert at hf
        split_ifs at hf
        · apply hsub
          rw [← Records.dropped_append_kept (LRUCacheBase.pairSize helper)
            (maxSize - LRUCacheBase.pairSize helper (key, t)) (Records.remove key s.lru.entries)]
          exact List.mem_append_left _ hf
        · cases hf
    refine ⟨⟨hp.wellFormed, hp.maxBytes.trans hs.maxBytes, ?_, ?_, ?_, ?_, ?_⟩, ?_, ?_⟩
    · rw [hentries]
      exact insert_sorted (hs.sorted.sublist List.filter_sublist)
        fun f hf => by have := hs.recent f (hsub f hf); rw [hlast] at this; exact this
    · intro e he
      rcases hmem e he with he | ⟨rfl, -⟩
      · exact hs.recent e he
      · change t ≤ s.lastInvalidationTimestampMs
        rw [hlast]
        grind
    · intro e he
      rcases hmem e he with he | ⟨rfl, hfit⟩
      · exact hs.fits e he
      · exact hfit
    · change r.2 ≤ s.lastInvalidationTimestampMs
      rcases hglobal r.2 (by grind) with h | ⟨f, hf, h⟩
      · have := hs.global; grind
      · have := hs.recent f hf; grind
    · change initialTimestampMs ≤ r.2
      rw [hnotified, le_notifyAll]
      exact Or.inl hs.initial
    · intro k u hu
      rw [hentries, hnotified]
      by_cases hk : k = key
      · subst hk
        rcases hu with hu | ⟨old, hm, hu⟩
        · exact insert_covers (Or.inl hu)
        · have hold := hlt old (Records.find_of_mem (LRUCacheBase.entries_nodup hs.wellFormed) hm)
          exact insert_self_covers _ _ (show k.length + 8 < maxSize from hs.fits _ hm) (by grind)
      · apply insert_covers
        rcases hu with hu | ⟨old, hm, hu⟩
        · exact Or.inl hu
        · exact Or.inr ⟨old, List.mem_filter.mpr ⟨hm, by simpa using hk⟩, hu⟩
    · intro hfit u hu
      rw [hentries, hnotified]
      exact insert_self_covers _ _ hfit hu

theorem Ordered.accept (hs : Ordered maxSize s)
    (hv : s.lastInvalidationTimestampMs ≤ v) : Ordered maxSize { s with lastInvalidationTimestampMs := v } where
  wellFormed := hs.wellFormed
  maxBytes := hs.maxBytes
  sorted := hs.sorted
  recent := fun e he => by have := hs.recent e he; grind
  fits := hs.fits
  global := by have := hs.global; grind
  initial := hs.initial

theorem updateGlobal_ordered {t : PurgeSet} {b : Bool}
    (hs : Ordered maxSize s) (h : s.updateGlobalInvalidationTimestampMs timestampMs = some (b, t)) :
    Ordered maxSize t ∧ ∀ k u, s.Purged k u → t.Purged k u := by
  obtain ⟨r, hr, he⟩ := Option.map_eq_some_iff.mp h
  cases r with
  | rejected =>
    cases he
    exact ⟨hs, fun _ _ hu => hu⟩
  | accepted l v =>
    obtain ⟨rfl, hl, -⟩ := sanitize_accepted hr
    cases he
    have hs' := hs.accept hl
    refine ⟨{ hs' with global := ?_, initial := ?_ }, ?_⟩
    · have := hs.global
      change stdMax l s.globalInvalidationTimestampMs ≤ l
      grind [stdMax]
    · have := hs.initial
      change initialTimestampMs ≤ stdMax l s.globalInvalidationTimestampMs
      grind [stdMax]
    · rintro k u (hu | hu)
      · exact Or.inl ((le_stdMax_iff _ _ _).mpr (Or.inr hu))
      · exact Or.inr hu

theorem int64Sub_of_le {a b : Int64} (ha : initialTimestampMs ≤ a) (h : a ≤ b) : int64Sub a b = some (a - b) := by
  have hi : initialTimestampMs.toInt = -1 := rfl
  have hb := b.toInt_lt
  rw [Int64.le_iff_toInt_le] at ha h
  apply if_pos
  rw [Int64.toInt_sub]
  exact Int.bmod_eq_of_le (by omega) (by omega)

theorem sanitize_of_le {lastMs : Int64} (hl : initialTimestampMs ≤ lastMs) (h : lastMs ≤ timestampMs) :
    sanitizeTimestamp lastMs timestampMs = some (.accepted timestampMs timestampMs) := by
  rw [sanitizeTimestamp, int64Sub_of_le hl h, Option.map_some]
  have hd := int64Sub_eq_some (int64Sub_of_le hl h)
  have hle : lastMs - timestampMs ≤ 0 := by
    rw [Int64.le_iff_toInt_le] at h ⊢
    have hzero : (0 : Int64).toInt = 0 := rfl
    omega
  rw [if_pos hle]

theorem put_eq (hr : sanitizeTimestamp s.lastInvalidationTimestampMs timestampMs = some (.accepted v v))
    (key : GoogleString) :
    s.put key timestampMs = some (true,
      if s.globalInvalidationTimestampMs < v then
        ⟨(s.lru.put helper key v s.globalInvalidationTimestampMs).2, v,
          (s.lru.put helper key v s.globalInvalidationTimestampMs).1⟩
      else ⟨s.globalInvalidationTimestampMs, v, s.lru⟩) := by
  rw [put, hr, Option.map_some]
  by_cases hg : s.globalInvalidationTimestampMs < v
  · simp only [if_pos hg]
  · simp only [if_neg hg]

theorem put_accepted (hs : Ordered maxSize s)
    (hr : sanitizeTimestamp s.lastInvalidationTimestampMs timestampMs = some (.accepted v v)) (key : GoogleString) :
    ∃ t, s.put key timestampMs = some (true, t) ∧ Ordered maxSize t ∧ t.lastInvalidationTimestampMs = v ∧
      (∀ k u, s.Purged k u → t.Purged k u) ∧ (key.length + 8 < maxSize → ∀ u ≤ v, t.Purged key u) := by
  obtain ⟨-, hl, -⟩ := sanitize_accepted hr
  have hs' := hs.accept hl
  refine ⟨_, put_eq hr key, ?_⟩
  split_ifs with hg
  · obtain ⟨ho, hmono, hc⟩ := lruPut_ordered hs' key rfl
    exact ⟨ho, rfl, hmono, hc⟩
  · refine ⟨hs', rfl, fun _ _ hu => hu, ?_⟩
    intro _ u hu
    exact Or.inl (show u ≤ s.globalInvalidationTimestampMs by grind)

theorem put_ordered {t : PurgeSet} {b : Bool} (hs : Ordered maxSize s) (h : s.put key timestampMs = some (b, t)) :
    Ordered maxSize t ∧ ∀ k u, s.Purged k u → t.Purged k u := by
  obtain ⟨r, hr, he⟩ := Option.map_eq_some_iff.mp h
  cases r with
  | rejected =>
    cases he
    exact ⟨hs, fun _ _ hu => hu⟩
  | accepted l v =>
    obtain ⟨rfl, -, -⟩ := sanitize_accepted hr
    obtain ⟨t', ht', ho, -, hmono, -⟩ := put_accepted hs hr key
    cases ht'.symm.trans h
    exact ⟨ho, hmono⟩

theorem putAll_ordered (es : List (GoogleString × Int64)) (hs : Ordered maxSize s)
    (hsorted : es.Pairwise fun a b => a.2 ≤ b.2) (hlast : ∀ e ∈ es, s.lastInvalidationTimestampMs ≤ e.2)
    (hfits : ∀ e ∈ es, e.1.length + 8 < maxSize) :
    ∃ t, s.putAll es = some t ∧ Ordered maxSize t ∧ (∀ k u, s.Purged k u → t.Purged k u) ∧
      ∀ e ∈ es, ∀ u ≤ e.2, t.Purged e.1 u := by
  induction es generalizing s with
  | nil => exact ⟨s, rfl, hs, fun _ _ hu => hu, by simp⟩
  | cons e es ih =>
    obtain ⟨he, hsorted⟩ := List.pairwise_cons.mp hsorted
    have hinit : initialTimestampMs ≤ s.lastInvalidationTimestampMs := by
      have h₁ := hs.initial; have h₂ := hs.global; grind
    have hr := sanitize_of_le hinit (hlast e List.mem_cons_self)
    obtain ⟨t, ht, ho, hlast', hmono, hc⟩ := put_accepted hs hr e.1
    obtain ⟨t', ht', ho', hmono', hc'⟩ := ih ho hsorted (fun f hf => hlast' ▸ he f hf)
      (fun f hf => hfits f (List.mem_cons_of_mem _ hf))
    refine ⟨t', by rw [putAll, ht]; exact ht', ho', fun k u hu => hmono' k u (hmono k u hu), ?_⟩
    intro f hf u hu
    rcases List.mem_cons.mp hf with rfl | hf
    · exact hmono' _ _ (hc (hfits f List.mem_cons_self) u hu)
    · exact hc' f hf u hu

theorem mergeContext_sorted (hs : Ordered maxSize s) (hsrc : Ordered maxSize src)
    (global : Int64) : (mergeContext s src global).Pairwise fun a b => a.2 ≤ b.2 := by
  apply List.Pairwise.filter
  refine (List.pairwise_merge ?_ ?_ s.lru.entries src.lru.entries ?_ ?_).imp ?_
  · intro a b c hab hbc
    simp only [Bool.not_eq_true', decide_eq_false_iff_not] at *
    grind
  · intro a b
    simp only [Bool.or_eq_true, Bool.not_eq_true', decide_eq_false_iff_not]
    grind
  · refine hs.sorted.imp fun h => ?_
    simp only [Bool.not_eq_true', decide_eq_false_iff_not]
    grind
  · refine hsrc.sorted.imp fun h => ?_
    simp only [Bool.not_eq_true', decide_eq_false_iff_not]
    grind
  · intro a b h
    simp only [Bool.not_eq_true', decide_eq_false_iff_not] at h
    grind

theorem mem_mergeContext {global : Int64} :
    e ∈ mergeContext s src global ↔ (e ∈ s.lru.entries ∨ e ∈ src.lru.entries) ∧ global < e.2 := by
  simp only [mergeContext, List.mem_filter, List.mem_merge, decide_eq_true_eq]

theorem merge_ordered (hs : Ordered maxSize s) (hsrc : Ordered maxSize src) :
    ∃ t, s.merge src = some t ∧ Ordered maxSize t ∧ ∀ k u, s.Purged k u → t.Purged k u := by
  let global := stdMax s.globalInvalidationTimestampMs src.globalInvalidationTimestampMs
  have hge : s.globalInvalidationTimestampMs ≤ global := le_stdMax_left _ _
  have hempty : s.lru.clear.clearStats.entries = [] := rfl
  have hbase : Ordered maxSize ⟨global, global, s.lru.clear.clearStats⟩ :=
    ⟨(LRUCacheBase.clear_wellFormed _).clearStats, hs.maxBytes, by rw [hempty]; exact List.Pairwise.nil,
      by rw [hempty]; simp, by rw [hempty]; simp, by grind, by have := hs.initial; grind⟩
  obtain ⟨t, ht, ho, hmono, hc⟩ := putAll_ordered (mergeContext s src global) hbase
    (mergeContext_sorted hs hsrc global)
    (fun e he => by
      have := (mem_mergeContext.mp he).2
      change global ≤ e.2
      grind)
    (fun e he => (mem_mergeContext.mp he).1.elim (hs.fits e) (hsrc.fits e))
  refine ⟨t, ht, ho, ?_⟩
  rintro k u (hu | ⟨r, hr, hu⟩)
  · exact hmono k u (Or.inl (show u ≤ global by grind))
  · by_cases hg : global < r
    · exact hc (k, r) (mem_mergeContext.mpr ⟨Or.inl hr, hg⟩) u hu
    · exact hmono k u (Or.inl (show u ≤ global by grind))

theorem reachable_ordered (h : Reachable maxSize s) : Ordered maxSize s := by
  induction h with
  | new => exact new_ordered maxSize
  | put _ h ih =>
    obtain ⟨⟨b, t⟩, hp, rfl⟩ := Option.map_eq_some_iff.mp h
    exact (put_ordered ih hp).1
  | updateGlobal _ h ih =>
    obtain ⟨⟨b, t⟩, hp, rfl⟩ := Option.map_eq_some_iff.mp h
    exact (updateGlobal_ordered ih hp).1
  | merge _ _ h ih ihsrc =>
    obtain ⟨t, ht, ho, -⟩ := merge_ordered ih ihsrc
    cases ht.symm.trans h
    exact ho

end PageSpeed.PurgeSet
