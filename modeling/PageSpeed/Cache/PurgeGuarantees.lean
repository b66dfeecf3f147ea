import PageSpeed.Cache.PurgeCover

/-!
What a purge set promises its clients: an operation never makes a purged time
valid again, and when a `Put` that reports success did take effect.
-/

namespace PageSpeed.PurgeSet

theorem isValid_never_restored {maxSize : ℕ} {s t : PurgeSet} (hs : Reachable maxSize s) (op : Op)
    (hsrc : ∀ src, op = .merge src → Reachable maxSize src) (h : op.apply s = some t)
    (key : GoogleString) (u : Int64) (hu : s.isValid key u = false) : t.isValid key u = false := by
  have ho := reachable_ordered hs
  rw [isValid_eq_false ho.wellFormed] at hu
  have hres : Ordered maxSize t ∧ ∀ k u, s.Purged k u → t.Purged k u := by
    cases op with
    | put key timestampMs =>
      obtain ⟨⟨b, t⟩, hp, rfl⟩ := Option.map_eq_some_iff.mp h
      exact put_ordered ho hp
    | updateGlobal timestampMs =>
      obtain ⟨⟨b, t⟩, hp, rfl⟩ := Option.map_eq_some_iff.mp h
      exact updateGlobal_ordered ho hp
    | merge src =>
      obtain ⟨t', ht, hres⟩ := merge_ordered ho (reachable_ordered (hsrc src rfl))
      cases ht.symm.trans h
      exact hres
  exact (isValid_eq_false hres.1.wellFormed key u).mpr (hres.2 key u hu)

/-- Ten bytes hold one record of a one-byte key, so the second record evicts the first. -/
theorem isValid_never_restored_evicting :
    ∃ s t, Reachable 10 s ∧ (Op.put [98] 7).apply s = some t ∧ s.isValid [97] 5 = false ∧
      t.isValid [97] 5 = false := by
  obtain ⟨s, hs⟩ := Option.isSome_iff_exists.mp
    (show ((Op.put [97] 5).apply (.new 10)).isSome by decide)
  obtain ⟨t, ht⟩ := Option.isSome_iff_exists.mp
    (show (((Op.put [97] 5).apply (.new 10)).bind (Op.put [98] 7).apply).isSome by decide)
  have hv : ((Op.put [97] 5).apply (.new 10)).map (fun s => s.isValid [97] 5) = some false := by decide
  rw [hs] at hv
  rw [hs, Option.bind_some] at ht
  have hr : Reachable 10 s := .put .new hs
  have hf : s.isValid [97] 5 = false := by simpa using hv
  exact ⟨s, t, hr, ht, hf, isValid_never_restored hr _ (by simp) ht [97] 5 hf⟩

/-- What the header promises of the result of `Put(key, timestampMs)`. -/
def Honest (key : GoogleString) (timestampMs : Int64) (result : Bool × PurgeSet) : Prop :=
  (result.1 = true → ∀ u ≤ timestampMs, result.2.isValid key u = false) ∧
    (¬ (∀ u ≤ timestampMs, result.2.isValid key u = false) → result.1 = false)

theorem honest_iff {maxSize : ℕ} {s : PurgeSet} (hs : Ordered maxSize s) (key : GoogleString)
    {timestampMs : Int64} : Honest key timestampMs (true, s) ↔ s.Purged key timestampMs := by
  constructor
  · rintro ⟨h, -⟩
    exact (isValid_eq_false hs.wellFormed _ _).mp (h rfl timestampMs (by grind))
  · intro h
    have hall : ∀ u ≤ timestampMs, s.isValid key u = false := by
      intro u hu
      rw [isValid_eq_false hs.wellFormed]
      rcases h with h | ⟨r, hr, h⟩
      · exact Or.inl (by grind)
      · exact Or.inr ⟨r, hr, by grind⟩
    exact ⟨fun _ => hall, fun hn => absurd hall hn⟩

theorem sanitize_accepts_iff {lastMs timestampMs : Int64} {r : Sanitized}
    (h : sanitizeTimestamp lastMs timestampMs = some r) :
    (∃ v, r = .accepted v v ∧ timestampMs ≤ v) ↔
      lastMs.toInt - timestampMs.toInt ≤ clockSkewAllowanceMs.toInt := by
  obtain ⟨d, hd, rfl⟩ := Option.map_eq_some_iff.mp h
  have hsub := int64Sub_eq_some hd
  have hz : (0 : Int64).toInt = 0 := rfl
  have hk : clockSkewAllowanceMs.toInt = 600000 := rfl
  simp only [Int64.le_iff_toInt_le, hz]
  split_ifs with h₁ h₂
  · exact iff_of_true ⟨_, rfl, le_refl _⟩ (by omega)
  · exact iff_of_true ⟨_, rfl, by omega⟩ (by omega)
  · exact iff_of_false (by rintro ⟨v, hv, -⟩; cases hv) (by omega)

theorem lruPut_refused {maxSize : ℕ} {s : PurgeSet} (hs : Ordered maxSize s) (key : GoogleString) (v : Int64)
    (hfit : ¬ key.length + 8 < maxSize) :
    (s.lru.put helper key v s.globalInvalidationTimestampMs).1.entries = s.lru.entries ∧
      (s.lru.put helper key v s.globalInvalidationTimestampMs).2 = s.globalInvalidationTimestampMs := by
  have hp := LRUCacheBase.put_spec hs.wellFormed key v s.globalInvalidationTimestampMs
  have hnone : Records.find key s.lru.entries = none := by
    cases hf : Records.find key s.lru.entries with
    | none => rfl
    | some old => exact absurd (hs.fits _ (Records.mem_of_find hf)) hfit
  have hput : Records.put (LRUCacheBase.pairSize helper) s.lru.maxBytesInCache helper.shouldReplace helper.equal
      key v s.lru.entries = (s.lru.entries, []) := by
    rw [Records.put, hnone, hs.maxBytes]
    exact if_neg hfit
  rw [hput] at hp
  exact ⟨hp.entries, hp.notified⟩

theorem put_honest_iff {maxSize : ℕ} {s : PurgeSet} (hs : Reachable maxSize s) (key : GoogleString)
    (timestampMs : Int64) (result : Bool × PurgeSet) (h : s.put key timestampMs = some result) :
    Honest key timestampMs result ↔ s.isValid key timestampMs = false ∨
      (s.lastInvalidationTimestampMs.toInt - timestampMs.toInt ≤ clockSkewAllowanceMs.toInt ∧
        key.length + 8 < maxSize) := by
  have ho := reachable_ordered hs
  rw [isValid_eq_false ho.wellFormed]
  obtain ⟨r, hr, he⟩ := Option.map_eq_some_iff.mp h
  rw [← sanitize_accepts_iff hr]
  cases r with
  | rejected =>
    cases he
    rw [honest_iff ho]
    simp
  | accepted l v =>
    obtain ⟨rfl, -, hv⟩ := sanitize_accepted hr
    obtain ⟨t, ht, ho', -, hmono, hc⟩ := put_accepted ho hr key
    cases ht.symm.trans h
    rw [honest_iff ho']
    constructor
    · intro hp
      by_cases hfit : key.length + 8 < maxSize
      · exact Or.inr ⟨⟨l, rfl, hv⟩, hfit⟩
      · left
        rw [put_eq hr key] at ht
        split_ifs at ht with hg
        · obtain ⟨hentries, hglobal⟩ := lruPut_refused ho key l hfit
          cases ht
          unfold Purged at hp ⊢
          rwa [hentries, hglobal] at hp
        · cases ht
          exact hp
    · rintro (hp | ⟨-, hfit⟩)
      · exact hmono _ _ hp
      · exact hc hfit timestampMs hv

theorem put_honest_iff_first :
    ∃ result, (new 100).put [97] 5 = some result ∧ Honest [97] 5 result := by
  obtain ⟨result, hr⟩ := Option.isSome_iff_exists.mp (show ((new 100).put [97] 5).isSome by decide)
  exact ⟨result, hr, (put_honest_iff .new [97] 5 result hr).mpr (Or.inr (by decide))⟩

/-- A record eleven minutes behind the last one is dropped, and `Put` reports success. -/
theorem put_dishonest : ∃ s result, Reachable 100 s ∧ s.put [98] 0 = some result ∧
    result.1 = true ∧ result.2.isValid [98] 0 = true ∧ ¬ Honest [98] 0 result := by
  obtain ⟨s, hs⟩ := Option.isSome_iff_exists.mp
    (show ((Op.put [97] 660000).apply (.new 100)).isSome by decide)
  obtain ⟨result, hr⟩ := Option.isSome_iff_exists.mp
    (show (((Op.put [97] 660000).apply (.new 100)).bind fun s => s.put [98] 0).isSome by decide)
  have hv : (((Op.put [97] 660000).apply (.new 100)).bind fun s => s.put [98] 0).map
      (fun r => (r.1, r.2.isValid [98] 0)) = some (true, true) := by decide
  rw [hr] at hv
  rw [hs, Option.bind_some] at hr
  simp only [Option.map_some, Option.some.injEq, Prod.mk.injEq] at hv
  refine ⟨s, result, .put .new hs, hr, hv.1, hv.2, ?_⟩
  rintro ⟨h, -⟩
  have := h hv.1 0 (by decide)
  rw [hv.2] at this
  cases this

end PageSpeed.PurgeSet
