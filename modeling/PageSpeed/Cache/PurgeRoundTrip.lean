import PageSpeed.Cache.PurgeFile

/-!
A merged purge set that is written to the file and read back answers as it did.
-/

namespace PageSpeed.PurgeSet

variable {maxSize : ℕ} {s t : PurgeSet} {b : Bool} {key : GoogleString} {timestampMs : Int64}

structure Settled (maxSize : ℕ) (s : PurgeSet) : Prop where
  ordered : Ordered maxSize s
  aboveGlobal : s.AboveGlobal
  within : Records.weight (LRUCacheBase.pairSize helper) s.lru.entries ≤ maxSize

theorem weight_put_le {w : GoogleString × Int64 → ℕ} {budget : ℕ} (key : GoogleString) (v : Int64)
    {records : List (GoogleString × Int64)} (h : Records.weight w records ≤ budget) :
    Records.weight w (Records.put w budget helper.shouldReplace helper.equal key v records).1 ≤ budget := by
  obtain ⟨old, -, -, heq⟩ | ⟨-, heq⟩ := put_cases w budget key v records
  · rwa [heq]
  · rw [heq]
    exact Records.weight_insert_le (key, v) ((Records.weight_remove_le w key records).trans h)

theorem Settled.put (hs : Settled maxSize s) (h : s.put key timestampMs = some (b, t)) : Settled maxSize t := by
  obtain ⟨r, hr, he⟩ := Option.map_eq_some_iff.mp h
  cases r with
  | rejected =>
    cases he
    exact hs
  | accepted l v =>
    obtain ⟨rfl, -, -⟩ := sanitize_accepted hr
    refine ⟨(put_ordered hs.ordered h).1, (put_records hs.ordered hs.aboveGlobal hr h).1, ?_⟩
    cases (put_eq hr key).symm.trans h
    split_ifs with hg
    · have hp := LRUCacheBase.put_spec hs.ordered.wellFormed key l s.globalInvalidationTimestampMs
      rw [hs.ordered.maxBytes] at hp
      rw [hp.entries]
      exact weight_put_le key l hs.within
    · exact hs.within

theorem Settled.putAll (es : List (GoogleString × Int64)) (hs : Settled maxSize s) (h : s.putAll es = some t) :
    Settled maxSize t := by
  induction es generalizing s with
  | nil =>
    cases h
    exact hs
  | cons e es ih =>
    obtain ⟨⟨b, u⟩, hput, hrest⟩ := Option.bind_eq_some_iff.mp h
    exact ih (hs.put hput) hrest

theorem settled_empty {v : Int64} (hv : initialTimestampMs ≤ v) {lru : LRUCacheBase Int64}
    (hwell : lru.WellFormed helper) (hmax : lru.maxBytesInCache = maxSize) (hempty : lru.entries = []) :
    Settled maxSize ⟨v, v, lru⟩ where
  ordered := ⟨hwell, hmax, by rw [hempty]; exact List.Pairwise.nil, by rw [hempty]; exact nofun,
    by rw [hempty]; exact nofun, Int64.le_refl v, hv⟩
  aboveGlobal := by unfold AboveGlobal; rw [hempty]; exact nofun
  within := by simp [hempty]

theorem merge_settled {src : PurgeSet} (hinit : initialTimestampMs ≤ s.globalInvalidationTimestampMs)
    (hmax : s.lru.maxBytesInCache = maxSize) (h : s.merge src = some t) : Settled maxSize t := by
  have hglobal : initialTimestampMs ≤ stdMax s.globalInvalidationTimestampMs src.globalInvalidationTimestampMs :=
    Int64.le_trans hinit (le_stdMax_left _ _)
  exact (settled_empty hglobal (LRUCacheBase.clear_wellFormed s.lru).clearStats hmax rfl).putAll _ h

theorem put_of_room (hs : Ordered maxSize s) (hle : s.lastInvalidationTimestampMs ≤ timestampMs)
    (hkey : key ∉ s.lru.entries.map Prod.fst) (hfit : key.length + 8 < maxSize)
    (hroom : Records.weight (LRUCacheBase.pairSize helper) s.lru.entries + (key.length + 8) ≤ maxSize) :
    ∃ t, s.put key timestampMs = some (true, t) ∧ Ordered maxSize t ∧ t.lastInvalidationTimestampMs = timestampMs ∧
      t.globalInvalidationTimestampMs = s.globalInvalidationTimestampMs ∧
      t.lru.entries = s.lru.entries ++ [(key, timestampMs)].filter (fun e => decide (s.globalInvalidationTimestampMs < e.2)) := by
  have hr := sanitize_of_le (Int64.le_trans hs.initial hs.global) hle
  obtain ⟨t, ht, ho, hlast, -⟩ := put_accepted hs hr key
  refine ⟨t, ht, ho, hlast, ?_⟩
  cases (put_eq hr key).symm.trans ht
  by_cases hg : s.globalInvalidationTimestampMs < timestampMs
  · have hp := LRUCacheBase.put_spec hs.wellFormed key timestampMs s.globalInvalidationTimestampMs
    have hinsert : Records.put (LRUCacheBase.pairSize helper) s.lru.maxBytesInCache helper.shouldReplace helper.equal key
        timestampMs s.lru.entries = (s.lru.entries ++ [(key, timestampMs)], []) := by
      rw [hs.maxBytes, Records.put, Records.find_eq_none.mpr hkey]
      exact Records.insert_of_room hfit hroom
    rw [hinsert] at hp
    simp [hg, hp.entries, hp.notified, LRUCacheBase.notifyAll]
  · simp [hg]

theorem putAll_of_room (es : List (GoogleString × Int64)) (hs : Ordered maxSize s)
    (hsorted : es.Pairwise fun a b => a.2 ≤ b.2) (hlast : ∀ e ∈ es, s.lastInvalidationTimestampMs ≤ e.2)
    (hkeys : ((s.lru.entries ++ es).map Prod.fst).Nodup) (hfits : ∀ e ∈ es, e.1.length + 8 < maxSize)
    (hroom : Records.weight (LRUCacheBase.pairSize helper) (s.lru.entries ++ es) ≤ maxSize) :
    ∃ t, s.putAll es = some t ∧ Ordered maxSize t ∧ t.globalInvalidationTimestampMs = s.globalInvalidationTimestampMs ∧
      t.lru.entries = s.lru.entries ++ es.filter (fun e => decide (s.globalInvalidationTimestampMs < e.2)) := by
  induction es generalizing s with
  | nil => exact ⟨s, rfl, hs, rfl, by simp⟩
  | cons e es ih =>
    obtain ⟨he, hsorted⟩ := List.pairwise_cons.mp hsorted
    have hsize : LRUCacheBase.pairSize helper e = e.1.length + 8 := rfl
    have hkey : e.1 ∉ s.lru.entries.map Prod.fst := by
      rw [List.map_append, List.nodup_append] at hkeys
      exact fun hmem => hkeys.2.2 e.1 hmem e.1 (by simp) rfl
    rw [Records.weight_append, Records.weight_cons, hsize] at hroom
    obtain ⟨u, hput, ho, hulast, huglobal, huentries⟩ :=
      put_of_room hs (hlast e List.mem_cons_self) hkey (hfits e List.mem_cons_self) (by omega)
    have hsub : (u.lru.entries ++ es).Sublist (s.lru.entries ++ e :: es) := by
      rw [huentries, List.append_cons s.lru.entries]
      exact (List.filter_sublist.append_left _).append_right _
    have hweight : Records.weight (LRUCacheBase.pairSize helper) (u.lru.entries ++ es) ≤ maxSize := by
      have hle := (hsub.map (LRUCacheBase.pairSize helper)).sum_le_sum fun _ _ => Nat.zero_le _
      refine Nat.le_trans hle ?_
      rw [← Records.weight, Records.weight_append, Records.weight_cons, hsize]
      omega
    obtain ⟨t, ht, ho', htglobal, htentries⟩ := ih ho hsorted (fun f hf => hulast ▸ he f hf)
      (hkeys.sublist (hsub.map _)) (fun f hf => hfits f (List.mem_cons_of_mem e hf)) hweight
    refine ⟨t, by rw [PurgeSet.putAll, hput]; exact ht, ho', htglobal.trans huglobal, ?_⟩
    rw [htentries, huentries, huglobal, List.append_assoc, ← List.filter_append]
    rfl

theorem isValid_eq_of_filter {u : Int64} (hs : s.lru.WellFormed helper) (ht : t.lru.WellFormed helper) (hu : 0 < u)
    (hglobal : t.globalInvalidationTimestampMs = stdMax s.globalInvalidationTimestampMs 0)
    (hentries : t.lru.entries = s.lru.entries.filter fun e => decide (t.globalInvalidationTimestampMs < e.2)) :
    t.isValid key u = s.isValid key u := by
  have hle : u ≤ t.globalInvalidationTimestampMs ↔ u ≤ s.globalInvalidationTimestampMs := by
    rw [hglobal]
    grind [stdMax]
  have hpurged : t.Purged key u ↔ s.Purged key u := by
    constructor
    · rintro (h | ⟨r, hr, h⟩)
      · exact .inl (hle.mp h)
      · rw [hentries] at hr
        exact .inr ⟨r, List.mem_of_mem_filter hr, h⟩
    · rintro (h | ⟨r, hr, h⟩)
      · exact .inl (hle.mpr h)
      · by_cases hlt : t.globalInvalidationTimestampMs < r
        · exact .inr ⟨r, by rw [hentries]; exact List.mem_filter.mpr ⟨hr, decide_eq_true hlt⟩, h⟩
        · exact .inl (by grind)
  rw [← isValid_eq_false ht, ← isValid_eq_false hs] at hpurged
  exact Bool.eq_iff_iff.mpr (by grind)

end PageSpeed.PurgeSet

namespace PageSpeed.PurgeFile

open PurgeSet

variable {text : Int64Text} {maxSize : ℕ} {a b s : PurgeSet} {nowMs : ℤ}

section OneRecord

variable {key : GoogleString}

theorem put_first (key : GoogleString) (hs : Ordered maxSize s) (hempty : s.lru.entries = []) (hle : s.lastInvalidationTimestampMs ≤ 5)
    (hlt : s.globalInvalidationTimestampMs < 5) (hfit : key.length + 8 < maxSize) :
    ∃ t, s.put key 5 = some (true, t) ∧ Ordered maxSize t ∧
      t.globalInvalidationTimestampMs = s.globalInvalidationTimestampMs ∧ t.lru.entries = [(key, 5)] := by
  obtain ⟨t, ht, ho, -, hglobal, hentries⟩ := put_of_room hs hle (show key ∉ _ by simp [hempty]) hfit
    (by simpa [hempty] using Nat.le_of_lt hfit)
  refine ⟨t, ht, ho, hglobal, ?_⟩
  simp [hentries, hempty, hlt]

def started (maxSize : ℕ) : PurgeSet := ⟨0, 0, .new maxSize⟩

theorem started_reachable (maxSize : ℕ) : Reachable maxSize (started maxSize) := by
  have happly : (Op.updateGlobal 0).apply (.new maxSize) = some (started maxSize) := by
    rw [Op.apply, updateGlobal_new (by decide)]
    rfl
  exact Reachable.new.updateGlobal happly

theorem merged_single (key : GoogleString) (hfit : key.length + 8 < maxSize) :
    ∃ b s, Reachable maxSize b ∧ (started maxSize).merge b = some s ∧ s.lru.WellFormed helper ∧
      s.globalInvalidationTimestampMs = 0 ∧ s.lru.entries = [(key, 5)] := by
  have hempty : (started maxSize).lru.entries = [] := rfl
  have hstart : (started maxSize).globalInvalidationTimestampMs = 0 := rfl
  obtain ⟨b, hb, -, hbglobal, hbentries⟩ := put_first key (new_ordered maxSize) rfl
    (show (0 : Int64) ≤ 5 by decide) (show (-1 : Int64) < 5 by decide) hfit
  have hbase : Settled maxSize ⟨0, 0, (started maxSize).lru.clear.clearStats⟩ :=
    settled_empty (by decide) (LRUCacheBase.clear_wellFormed _).clearStats rfl rfl
  obtain ⟨s, hs, ho, hglobal, hentries⟩ := put_first key hbase.ordered rfl
    (show (0 : Int64) ≤ 5 by decide) (show (0 : Int64) < 5 by decide) hfit
  have happly : (Op.put key 5).apply (.new maxSize) = some b := by
    rw [Op.apply, hb]
    rfl
  refine ⟨b, s, Reachable.new.put happly, ?_, ho.wellFormed, hglobal, hentries⟩
  have hcontext : mergeContext (started maxSize) b 0 = [(key, 5)] := by
    rw [mergeContext, hbentries, hempty, List.nil_merge]
    rfl
  have hmax : stdMax (0 : Int64) (PurgeSet.new maxSize).globalInvalidationTimestampMs = 0 := rfl
  rw [merge, hbglobal, hstart, hmax, hcontext, putAll, hs]
  rfl

theorem split_long (hkey : 10 ∉ key) (hlen : key.length = 2 ^ 32) :
    splitStringPieceToVector ([48, 10, 53, 32] ++ key ++ [10]) [10] true = [[48], [53, 32]] := by
  obtain ⟨buffer, hbuffer⟩ : ∃ buffer, buffer = [48, 10, 53, 32] ++ key ++ [10] := ⟨_, rfl⟩
  have hline : ∀ c ∈ [53, 32] ++ key, c ∉ ([10] : GoogleString) := by
    intro c hc hten
    rw [List.mem_singleton.mp hten] at hc
    simp [hkey] at hc
  have hskip := splitFrom_skip buffer [10] true hline [10] 2 2
  have hfirst : substr buffer 0 1 = [48] := by rw [hbuffer]; rfl
  have hcut : substr buffer 2 (2 ^ 32 + 2) = [53, 32] := by rw [hbuffer]; rfl
  have hsize : buffer.length = 2 ^ 32 + 5 := by
    rw [hbuffer, List.length_append, List.length_append, hlen]
    rfl
  have hdiff : ((2 + ([53, 32] ++ key).length : ℕ) : ℤ) - ((2 : ℕ) : ℤ) = 2 ^ 32 + 2 := by
    rw [List.length_append, hlen]
    rfl
  have hrest : splitFrom buffer [10] true ([53, 32] ++ key ++ [10]) 2 2 = [[53, 32]] := by
    rw [hskip, splitFrom, if_pos (List.mem_singleton.mpr rfl), hdiff, hcut]
    simp [splitFrom, hsize, hlen]
  have hstart : splitFrom buffer [10] true ([48] ++ 10 :: ([53, 32] ++ key ++ [10])) 0 0 =
      substr buffer 0 1 :: splitFrom buffer [10] true ([53, 32] ++ key ++ [10]) 2 2 := rfl
  rw [← hbuffer, splitStringPieceToVector]
  calc splitFrom buffer [10] true buffer 0 0
      = splitFrom buffer [10] true ([48] ++ 10 :: ([53, 32] ++ key ++ [10])) 0 0 := by
        congr 1
    _ = [[48], [53, 32]] := by rw [hstart, hfirst, hrest]

end OneRecord

/-- A merged set is read back from its text as one that answers as it does. -/
theorem readBuffer_merged (h : text.Lawful) (hmerge : a.merge b = some s)
    (hinit : initialTimestampMs ≤ a.globalInvalidationTimestampMs) (hmax : a.lru.maxBytesInCache = maxSize)
    (hs : Writable text nowMs s) :
    ∃ t, readBuffer text maxSize nowMs (writeBuffer text s) = some (0, t) ∧
      ∀ key, ∀ u > 0, t.isValid key u = s.isValid key u := by
  have hsettled := merge_settled hinit hmax hmerge
  have hempty : (LRUCacheBase.new maxSize : LRUCacheBase Int64).entries = [] := rfl
  have hstart : initialTimestampMs ≤ stdMax s.globalInvalidationTimestampMs 0 :=
    Int64.le_trans hsettled.ordered.initial (le_stdMax_left _ _)
  have hbase := settled_empty hstart (LRUCacheBase.new_wellFormed maxSize) rfl hempty
  have hlast : ∀ e ∈ s.lru.entries, stdMax s.globalInvalidationTimestampMs 0 ≤ e.2 := by
    intro e he
    have habove := hsettled.aboveGlobal e he
    have hpositive := (hs.records e he).1
    grind [stdMax]
  have hnodup := LRUCacheBase.entries_nodup hsettled.ordered.wellFormed
  obtain ⟨t, ht, ho, hglobal, hentries⟩ := putAll_of_room s.lru.entries hbase.ordered hsettled.ordered.sorted hlast
    (by rwa [hempty, List.nil_append]) hsettled.ordered.fits (by rw [hempty, List.nil_append]; exact hsettled.within)
  refine ⟨t, by rw [readBuffer_writable h hs, ht, Option.map_some], fun key u hu => ?_⟩
  rw [← hglobal, hempty, List.nil_append] at hentries
  exact isValid_eq_of_filter hsettled.ordered.wellFormed ho.wellFormed hu hglobal hentries

theorem readBuffer_merged_single : ∃ b s, (started 100).merge b = some s ∧ s.lru.entries = [([97], 5)] ∧
    ∃ t, readBuffer Decimal.text 100 0 (writeBuffer Decimal.text s) = some (0, t) ∧
      ∀ key, ∀ u > 0, t.isValid key u = s.isValid key u := by
  obtain ⟨b, s, -, hs, -, hglobal, hentries⟩ := merged_single [97] (show _ < 100 by decide)
  have hwritable : Writable Decimal.text 0 s := by
    refine ⟨by simp [hentries], by simp [hentries]; decide, by rw [hglobal]; decide, ?_⟩
    rw [writeBuffer, hglobal, hentries]
    decide
  exact ⟨b, s, hs, hentries, readBuffer_merged Decimal.lawful hs (by decide) rfl hwritable⟩

/-- A key of 2^32 bytes is not read back. -/
theorem long_key_lost : ∃ b s : PurgeSet, Reachable (2 ^ 33) b ∧ (started (2 ^ 33)).merge b = some s ∧
    (∀ e ∈ s.lru.entries, 10 ∉ e.1) ∧ (∀ e ∈ s.lru.entries, e.2 = 5) ∧ s.globalInvalidationTimestampMs = 0 ∧
    ∃ t, readBuffer Decimal.text (2 ^ 33) 0 (writeBuffer Decimal.text s) = some (0, t) ∧
      t.isValid (List.replicate (2 ^ 32) 97) 3 ≠ s.isValid (List.replicate (2 ^ 32) 97) 3 := by
  obtain ⟨key, hkey⟩ : ∃ key : GoogleString, key = List.replicate (2 ^ 32) 97 := ⟨_, rfl⟩
  have hlen : key.length = 2 ^ 32 := by rw [hkey, List.length_replicate]
  have hnewline : 10 ∉ key := by
    rw [hkey, List.mem_replicate]
    exact fun h => absurd h.2 (by decide)
  obtain ⟨b, s, hb, hs, hwell, hglobal, hentries⟩ := merged_single key (show _ < 2 ^ 33 by omega)
  have hzero : Decimal.text.integer64ToString 0 = [48] := by decide
  have hfive : Decimal.text.integer64ToString 5 = [53] := by decide
  rw [← hkey]
  have htext : writeBuffer Decimal.text s = [48, 10, 53, 32] ++ key ++ [10] := by
    rw [writeBuffer, hglobal, hentries]
    simp [unlines, recordLine, hzero, hfive]
  have hparse : parseAndValidateTimestamp Decimal.text [48] 0 = some 0 := by
    rw [← hzero]
    exact validate_of_le Decimal.lawful (by decide) (by decide)
  have hline : parseLine Decimal.text [53, 32] 0 = some ([], 5) := by
    have hrecord : recordLine Decimal.text ([], 5) = [53, 32] := by rw [recordLine, hfive]; rfl
    rw [← hrecord]
    exact parseLine_recordLine Decimal.lawful (by decide) (by decide) (by rw [hrecord]; decide)
  obtain ⟨t, ht, ho, htglobal, htentries⟩ := put_first [] (reachable_ordered (started_reachable (2 ^ 33))) rfl
    (show (0 : Int64) ≤ 5 by decide) (show (0 : Int64) < 5 by decide) (by decide)
  refine ⟨b, s, hb, hs, by simpa [hentries] using hnewline, by simp [hentries], hglobal, t, ?_, ?_⟩
  · rw [readBuffer, htext, split_long hnewline hlen]
    simp only [hparse, updateGlobal_new (show initialTimestampMs ≤ 0 by decide), Option.bind_some, readLines, hline]
    exact congrArg (Option.bind · _) ht
  · have hsfalse : s.isValid key 3 = false := (isValid_eq_false hwell key 3).mpr (.inr ⟨5, by simp [hentries], by decide⟩)
    have htvalid : t.isValid key 3 ≠ false := by
      rw [Ne, isValid_eq_false ho.wellFormed]
      rintro (h | ⟨r, hr, -⟩)
      · rw [htglobal] at h
        exact absurd h (by decide)
      · rw [htentries, List.mem_singleton] at hr
        have hnil : key = [] := congrArg Prod.fst hr
        rw [hnil, List.length_nil] at hlen
        omega
    rwa [hsfalse]

end PageSpeed.PurgeFile
