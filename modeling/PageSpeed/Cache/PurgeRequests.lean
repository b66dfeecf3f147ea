import PageSpeed.Cache.PurgeEvictions
import PageSpeed.Cache.PurgeFile
import PageSpeed.Cache.PurgeGuarantees

/-!
What reading the purge file gives, and what one request does to a set.
-/

namespace PageSpeed.PurgeSet

variable {maxSize : ℕ} {s : PurgeSet} {key : GoogleString} {timestampMs : Int64} {r : Bool × PurgeSet}

theorem purged_le_last (hs : Ordered maxSize s) {t : Int64} (h : s.Purged key t) : t ≤ s.lastInvalidationTimestampMs := by
  obtain h | ⟨v, hv, h⟩ := h
  · exact Int64.le_trans h hs.global
  · exact Int64.le_trans h (hs.recent _ hv)

theorem stdMax_toInt_le {a b : Int64} {n : ℤ} (ha : a.toInt ≤ n) (hb : b.toInt ≤ n) : (stdMax a b).toInt ≤ n := by
  unfold stdMax
  split_ifs
  · exact hb
  · exact ha

theorem sanitize_eq_stdMax {lastMs l v : Int64} (h : sanitizeTimestamp lastMs timestampMs = some (.accepted l v)) :
    l = stdMax timestampMs lastMs := by
  obtain ⟨rfl, hle, hv⟩ := sanitize_accepted h
  obtain ⟨d, -, hd⟩ := Option.map_eq_some_iff.mp h
  split_ifs at hd <;> grind [stdMax]

structure Requested (maxSize : ℕ) (s t : PurgeSet) (timestampMs : Int64) : Prop where
  ordered : Ordered maxSize t
  mono : ∀ key u, s.Purged key u → t.Purged key u
  last : s.lastInvalidationTimestampMs ≤ t.lastInvalidationTimestampMs
  bound : ∀ n : ℤ, s.lastInvalidationTimestampMs.toInt ≤ n → timestampMs.toInt ≤ n → t.lastInvalidationTimestampMs.toInt ≤ n

theorem put_requested (hs : Ordered maxSize s) (h : s.put key timestampMs = some r) :
    Requested maxSize s r.2 timestampMs ∧ ∀ e ∈ r.2.lru.entries, e ∈ s.lru.entries ∨ e.1 = key := by
  obtain ⟨ho, hmono⟩ := put_ordered (b := r.1) (t := r.2) hs h
  obtain ⟨a, ha, he⟩ := Option.map_eq_some_iff.mp h
  cases a with
  | rejected =>
    obtain rfl := he
    exact ⟨⟨ho, hmono, Int64.le_refl _, fun n hn _ => hn⟩, fun e he => Or.inl he⟩
  | accepted l v =>
    have hmax := sanitize_eq_stdMax ha
    obtain ⟨rfl, hle, -⟩ := sanitize_accepted ha
    have hput := put_eq ha key
    obtain ⟨t, ht, -, hlast, -, -⟩ := put_accepted hs ha key
    obtain rfl := Option.some.inj (ht.symm.trans h)
    refine ⟨⟨ho, hmono, ?_, fun n hn hn' => ?_⟩, ?_⟩
    · rw [hlast]
      exact hle
    · rw [hlast, hmax]
      exact stdMax_toInt_le hn' hn
    · obtain rfl := (Prod.ext_iff.mp (Option.some.inj (hput.symm.trans ht))).2
      split_ifs
      · intro e he
        change e ∈ (s.lru.put helper key l s.globalInvalidationTimestampMs).1.entries at he
        rw [(LRUCacheBase.put_spec hs.wellFormed key l s.globalInvalidationTimestampMs).entries] at he
        obtain ⟨old, -, -, heq⟩ | ⟨-, heq⟩ :=
          put_cases (LRUCacheBase.pairSize helper) s.lru.maxBytesInCache key l s.lru.entries
        · rw [heq] at he
          exact Or.inl he
        · rw [heq] at he
          obtain he | ⟨rfl, -⟩ := insert_mem he
          · exact Or.inl (List.mem_of_mem_filter he)
          · exact Or.inr rfl
      · exact fun e he => Or.inl he

theorem updateGlobal_requested (hs : Ordered maxSize s) (h : s.updateGlobalInvalidationTimestampMs timestampMs = some r) :
    Requested maxSize s r.2 timestampMs ∧ r.2.lru = s.lru := by
  obtain ⟨ho, hmono⟩ := updateGlobal_ordered (b := r.1) (t := r.2) hs h
  obtain ⟨a, ha, he⟩ := Option.map_eq_some_iff.mp h
  cases a with
  | rejected =>
    obtain rfl := he
    exact ⟨⟨ho, hmono, Int64.le_refl _, fun n hn _ => hn⟩, rfl⟩
  | accepted l v =>
    have hmax := sanitize_eq_stdMax ha
    obtain ⟨rfl, hle, -⟩ := sanitize_accepted ha
    obtain rfl := he
    refine ⟨⟨ho, hmono, hle, fun n hn hn' => ?_⟩, rfl⟩
    change l.toInt ≤ n
    rw [hmax]
    exact stdMax_toInt_le hn' hn

theorem put_purged (hs : Ordered maxSize s) (h : s.put key timestampMs = some r)
    (heffect : s.isValid key timestampMs = false ∨
      s.lastInvalidationTimestampMs.toInt - timestampMs.toInt ≤ clockSkewAllowanceMs.toInt ∧ key.length + 8 < maxSize) :
    r.2.Purged key timestampMs := by
  obtain hvalid | ⟨haccepted, hfit⟩ := heffect
  · exact (put_ordered (b := r.1) (t := r.2) hs h).2 _ _ ((isValid_eq_false hs.wellFormed _ _).mp hvalid)
  · obtain ⟨a, ha, -⟩ := Option.map_eq_some_iff.mp h
    obtain ⟨v, rfl, hv⟩ := (sanitize_accepts_iff ha).mpr haccepted
    obtain ⟨t, ht, -, -, -, hc⟩ := put_accepted hs ha key
    obtain rfl := Option.some.inj (ht.symm.trans h)
    exact hc hfit timestampMs hv

theorem updateGlobal_purged (hs : Ordered maxSize s) (h : s.updateGlobalInvalidationTimestampMs timestampMs = some r)
    (heffect : timestampMs ≤ s.globalInvalidationTimestampMs ∨
      s.lastInvalidationTimestampMs.toInt - timestampMs.toInt ≤ clockSkewAllowanceMs.toInt) (key : GoogleString) :
    r.2.Purged key timestampMs := by
  obtain hglobal | haccepted := heffect
  · exact (updateGlobal_ordered (b := r.1) (t := r.2) hs h).2 _ _ (Or.inl hglobal)
  · obtain ⟨a, ha, he⟩ := Option.map_eq_some_iff.mp h
    obtain ⟨v, rfl, hv⟩ := (sanitize_accepts_iff ha).mpr haccepted
    obtain rfl := he
    exact Or.inl (Int64.le_trans hv (le_stdMax_left _ _))

end PageSpeed.PurgeSet

namespace PageSpeed.PurgeFile

open PurgeSet

variable {text : Int64Text} {maxSize : ℕ} {nowMs : ℤ}

structure FromFile (maxSize : ℕ) (nowMs : ℤ) (s : PurgeSet) : Prop where
  ordered : Ordered maxSize s
  newline : ∀ e ∈ s.lru.entries, 10 ∉ e.1
  last : s.lastInvalidationTimestampMs.toInt ≤ nowMs + clockSkewAllowanceMs.toInt

theorem new_fromFile (hnow : 0 ≤ nowMs + clockSkewAllowanceMs.toInt) : FromFile maxSize nowMs (.new maxSize) :=
  ⟨new_ordered maxSize, nofun, hnow⟩

theorem validate_le (hnow : 0 ≤ nowMs + clockSkewAllowanceMs.toInt) {timeString : GoogleString} {v : Int64}
    (h : parseAndValidateTimestamp text timeString nowMs = some v) : v.toInt ≤ nowMs + clockSkewAllowanceMs.toInt := by
  obtain ⟨w, -, hw⟩ := Option.bind_eq_some_iff.mp h
  obtain ⟨hok, heq⟩ := Option.ite_none_left_eq_some.mp hw
  obtain rfl := Option.some.inj heq
  by_cases hinit : w = initialTimestampMs
  · rw [hinit]
    exact le_trans (by decide) hnow
  · by_contra hgt
    exact hok ⟨hinit, Or.inr (not_le.mp hgt)⟩

theorem readLines_fromFile (hnow : 0 ≤ nowMs + clockSkewAllowanceMs.toInt) {lines : List GoogleString}
    (hlines : ∀ line ∈ lines, 10 ∉ line) {n : ℕ} {s : PurgeSet} (hs : FromFile maxSize nowMs s) {r : ℕ × PurgeSet}
    (h : readLines text nowMs lines n s = some r) : FromFile maxSize nowMs r.2 := by
  induction lines generalizing n s with
  | nil =>
    obtain rfl := Option.some.inj h
    exact hs
  | cons line lines ih =>
    have ih := @ih fun l hl => hlines l (List.mem_cons_of_mem line hl)
    rw [readLines] at h
    cases hparse : parseLine text line nowMs with
    | none =>
      rw [hparse] at h
      exact ih hs h
    | some e =>
      rw [hparse] at h
      obtain ⟨⟨b, t⟩, hput, hrest⟩ := Option.bind_eq_some_iff.mp h
      obtain ⟨pos, -, hmap⟩ := Option.bind_eq_some_iff.mp hparse
      obtain ⟨v, hv, rfl⟩ := Option.map_eq_some_iff.mp hmap
      obtain ⟨hreq, hmem⟩ := put_requested hs.ordered hput
      refine ih ⟨hreq.ordered, fun f hf => ?_, hreq.bound _ hs.last (validate_le hnow hv)⟩ hrest
      obtain hf | hf := hmem f hf
      · exact hs.newline f hf
      · rw [hf]
        exact fun hmem => hlines line List.mem_cons_self (List.mem_of_mem_drop hmem)

theorem readBuffer_fromFile (hnow : 0 ≤ nowMs + clockSkewAllowanceMs.toInt) {buffer : GoogleString}
    (hshort : buffer.length < 2 ^ 32) {r : ℕ × PurgeSet} (h : readBuffer text maxSize nowMs buffer = some r) :
    FromFile maxSize nowMs r.2 := by
  unfold readBuffer at h
  have hlines := split_free 10 true hshort
  cases hsplit : splitStringPieceToVector buffer [10] true with
  | nil =>
    rw [hsplit] at h
    obtain rfl := Option.some.inj h
    exact new_fromFile hnow
  | cons line lines =>
    rw [hsplit] at h hlines
    simp only at h
    cases hparse : parseAndValidateTimestamp text line nowMs with
    | none =>
      rw [hparse] at h
      obtain rfl := Option.some.inj h
      exact new_fromFile hnow
    | some v =>
      rw [hparse] at h
      obtain ⟨⟨b, t⟩, hglobal, hrest⟩ := Option.bind_eq_some_iff.mp h
      obtain ⟨hreq, hlru⟩ := updateGlobal_requested (new_ordered maxSize) hglobal
      refine readLines_fromFile hnow (fun l hl => hlines l (List.mem_cons_of_mem line hl))
        ⟨hreq.ordered, ?_, hreq.bound _ hnow (validate_le hnow hparse)⟩ hrest
      rw [hlru]
      exact nofun

end PageSpeed.PurgeFile
