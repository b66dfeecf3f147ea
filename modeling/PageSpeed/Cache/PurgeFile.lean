import PageSpeed.Base.StringUtil
import PageSpeed.Cache.PurgeMerge

/-!
The text of the purge file (`kernel/cache/purge_context.cc`): how `ModifyPurgeSet` writes a
set, and how `ReadPurgeFile` reads one.
-/

namespace PageSpeed.PurgeFile

open PurgeSet

section

variable (text : Int64Text)

/-- `nowMs + kClockSkewAllowanceMs` is taken not to overflow. -/
def parseAndValidateTimestamp (timeString : GoogleString) (nowMs : ℤ) : Option Int64 :=
  (text.stringToInt64 timeString).bind fun timestampMs =>
    if timestampMs ≠ initialTimestampMs ∧ (timestampMs < 0 ∨ nowMs + clockSkewAllowanceMs.toInt < timestampMs.toInt)
    then none else some timestampMs

def parseLine (line : GoogleString) (nowMs : ℤ) : Option (GoogleString × Int64) :=
  (line.findIdx? (· == 32)).bind fun pos =>
    (parseAndValidateTimestamp text (substr line 0 pos) nowMs).map fun timestampMs =>
      (substrFrom line (pos + 1), timestampMs)

def readLines (nowMs : ℤ) : List GoogleString → ℕ → PurgeSet → Option (ℕ × PurgeSet)
  | [], failures, s => some (failures, s)
  | line :: lines, failures, s =>
    match parseLine text line nowMs with
    | none => readLines nowMs lines (failures + 1) s
    | some (url, timestampMs) => (s.put url timestampMs).bind fun r => readLines nowMs lines failures r.2

/-- `ReadPurgeFile` of a buffer, where single urls can be purged. -/
def readBuffer (maxBytesInCache : ℕ) (nowMs : ℤ) (buffer : GoogleString) : Option (ℕ × PurgeSet) :=
  match splitStringPieceToVector buffer [10] true with
  | [] => some (1, .new maxBytesInCache)
  | line :: lines =>
    match parseAndValidateTimestamp text line nowMs with
    | none => some (1, .new maxBytesInCache)
    | some timestampMs =>
      ((PurgeSet.new maxBytesInCache).updateGlobalInvalidationTimestampMs timestampMs).bind fun r =>
        readLines text nowMs lines 0 r.2

def recordLine (e : GoogleString × Int64) : GoogleString := text.integer64ToString e.2 ++ 32 :: e.1

/-- The write-buffer of `ModifyPurgeSet`. -/
def writeBuffer (s : PurgeSet) : GoogleString :=
  unlines (text.integer64ToString s.globalInvalidationTimestampMs :: s.lru.entries.map (recordLine text))

end

variable {text : Int64Text} {maxSize : ℕ} {s : PurgeSet} {nowMs : ℤ}

theorem noSpace (h : text.Lawful) (v : Int64) : 32 ∉ text.integer64ToString v := by
  intro hmem
  have := h.digits v 32 hmem
  revert this
  decide

theorem noNewline (h : text.Lawful) (v : Int64) : 10 ∉ text.integer64ToString v := by
  intro hmem
  have := h.digits v 10 hmem
  revert this
  decide

theorem validate_of_le (h : text.Lawful) {v : Int64} (hinit : initialTimestampMs ≤ v)
    (hv : v.toInt ≤ nowMs + clockSkewAllowanceMs.toInt) :
    parseAndValidateTimestamp text (text.integer64ToString v) nowMs = some v := by
  have hi : initialTimestampMs.toInt = -1 := rfl
  have hz : (0 : Int64).toInt = 0 := rfl
  rw [parseAndValidateTimestamp, h.parses, Option.bind_some, if_neg]
  rintro ⟨hne, hbad⟩
  rw [Int64.le_iff_toInt_le, hi] at hinit
  rw [Int64.lt_iff_toInt_lt, hz] at hbad
  have heq : v.toInt ≠ initialTimestampMs.toInt := fun heq => hne (Int64.toInt_inj.mp heq)
  omega

theorem parseLine_recordLine (h : text.Lawful) {e : GoogleString × Int64} (hinit : initialTimestampMs ≤ e.2)
    (hv : e.2.toInt ≤ nowMs + clockSkewAllowanceMs.toInt) (hlt : (recordLine text e).length < 2 ^ 32) :
    parseLine text (recordLine text e) nowMs = some e := by
  have hfind : (recordLine text e).findIdx? (· == 32) = some (text.integer64ToString e.2).length := by
    rw [recordLine, List.findIdx?_append, List.findIdx?_eq_none_iff.mpr]
    · rw [List.findIdx?_cons]
      simp
    · intro c hc
      rw [beq_eq_false_iff_ne]
      rintro rfl
      exact noSpace h e.2 hc
  have htime : substr (recordLine text e) 0 (text.integer64ToString e.2).length = text.integer64ToString e.2 :=
    substr_append [] _ (32 :: e.1) hlt
  have hurl : substrFrom (recordLine text e) ((text.integer64ToString e.2).length + 1) = e.1 := by
    have hsplit : recordLine text e = (text.integer64ToString e.2 ++ [32]) ++ e.1 := by
      rw [recordLine, List.append_assoc]
      rfl
    have hlen : (text.integer64ToString e.2 ++ [32]).length = (text.integer64ToString e.2).length + 1 := by
      rw [List.length_append, List.length_singleton]
    rw [hsplit] at hlt ⊢
    rw [← hlen]
    exact substrFrom_append _ _ (by rw [List.length_append] at hlt; omega)
  rw [parseLine, hfind, Option.bind_some, htime, validate_of_le h hinit hv, Option.map_some, hurl]

theorem readLines_recordLines {es : List (GoogleString × Int64)}
    (hes : ∀ e ∈ es, parseLine text (recordLine text e) nowMs = some e) (failures : ℕ) (s : PurgeSet) :
    readLines text nowMs (es.map (recordLine text)) failures s = (s.putAll es).map fun t => (failures, t) := by
  induction es generalizing s with
  | nil => rfl
  | cons e es ih =>
    rw [List.map_cons, readLines, hes e List.mem_cons_self]
    simp only [putAll]
    cases s.put e.1 e.2 with
    | none => rfl
    | some r => exact ih (fun f hf => hes f (List.mem_cons_of_mem e hf)) r.2

structure Readable (text : Int64Text) (nowMs : ℤ) (s : PurgeSet) : Prop where
  newline : ∀ e ∈ s.lru.entries, 10 ∉ e.1
  positive : ∀ e ∈ s.lru.entries, 0 ≤ e.2
  aboveGlobal : s.AboveGlobal
  last : s.lastInvalidationTimestampMs.toInt ≤ nowMs + clockSkewAllowanceMs.toInt
  short : (writeBuffer text s).length < 2 ^ 32

theorem length_line_le {lines : List GoogleString} {line : GoogleString} (h : line ∈ lines) :
    line.length ≤ (unlines lines).length := by
  obtain ⟨l, r, rfl⟩ := List.append_of_mem h
  unfold unlines
  simp only [List.flatMap_append, List.flatMap_cons, List.length_append]
  omega

theorem updateGlobal_new {v : Int64} (hinit : initialTimestampMs ≤ v) :
    (PurgeSet.new maxSize).updateGlobalInvalidationTimestampMs v =
      some (true, ⟨stdMax v 0, stdMax v 0, .new maxSize⟩) := by
  have hi : initialTimestampMs.toInt = -1 := rfl
  have hz : (0 : Int64).toInt = 0 := rfl
  have hsanitize : sanitizeTimestamp 0 v = some (.accepted (stdMax v 0) (stdMax v 0)) := by
    by_cases hv : (0 : Int64) ≤ v
    · have hmax : stdMax v 0 = v := by grind [stdMax]
      rw [hmax]
      exact sanitize_of_le (by decide) hv
    · have hv' : v = initialTimestampMs := by
        rw [Int64.le_iff_toInt_le] at hinit hv
        exact Int64.toInt_inj.mp (by omega)
      rw [hv']
      decide
  have hmax : stdMax (stdMax v 0) initialTimestampMs = stdMax v 0 := by
    have h0 : initialTimestampMs ≤ stdMax v 0 := Int64.le_trans (by decide) (le_stdMax_right v 0)
    grind [stdMax]
  change (sanitizeTimestamp 0 v).map _ = _
  rw [hsanitize, Option.map_some]
  change some (true, (⟨stdMax (stdMax v 0) initialTimestampMs, _, _⟩ : PurgeSet)) = _
  rw [hmax]
  rfl

structure Writable (text : Int64Text) (nowMs : ℤ) (s : PurgeSet) : Prop where
  newline : ∀ e ∈ s.lru.entries, 10 ∉ e.1
  records : ∀ e ∈ s.lru.entries, 0 ≤ e.2 ∧ e.2.toInt ≤ nowMs + clockSkewAllowanceMs.toInt
  global : initialTimestampMs ≤ s.globalInvalidationTimestampMs ∧
    s.globalInvalidationTimestampMs.toInt ≤ nowMs + clockSkewAllowanceMs.toInt
  short : (writeBuffer text s).length < 2 ^ 32

theorem Readable.writable (hs : Ordered maxSize s) (hr : Readable text nowMs s) : Writable text nowMs s where
  newline := hr.newline
  records := fun e he => ⟨hr.positive e he, (Int64.le_iff_toInt_le.mp (hs.recent e he)).trans hr.last⟩
  global := ⟨hs.initial, (Int64.le_iff_toInt_le.mp hs.global).trans hr.last⟩
  short := hr.short

theorem readBuffer_writable (h : text.Lawful) (hs : Writable text nowMs s) :
    readBuffer text maxSize nowMs (writeBuffer text s) =
      (putAll ⟨stdMax s.globalInvalidationTimestampMs 0, stdMax s.globalInvalidationTimestampMs 0, .new maxSize⟩
        s.lru.entries).map fun t => (0, t) := by
  have hlines : splitStringPieceToVector (writeBuffer text s) [10] true =
      text.integer64ToString s.globalInvalidationTimestampMs :: s.lru.entries.map (recordLine text) := by
    refine split_unlines (fun line hline => ?_) hs.short
    obtain rfl | hline := List.mem_cons.mp hline
    · exact ⟨h.nonempty _, noNewline h _⟩
    · obtain ⟨e, he, rfl⟩ := List.mem_map.mp hline
      refine ⟨List.append_ne_nil_of_right_ne_nil _ (List.cons_ne_nil _ _), fun hmem => ?_⟩
      obtain hmem | hmem := List.mem_append.mp hmem
      · exact noNewline h _ hmem
      · obtain heq | hmem := List.mem_cons.mp hmem
        · cases heq
        · exact hs.newline e he hmem
  have hparse : ∀ e ∈ s.lru.entries, parseLine text (recordLine text e) nowMs = some e := by
    intro e he
    refine parseLine_recordLine h (Int64.le_trans (by decide) (hs.records e he).1) (hs.records e he).2 ?_
    exact (length_line_le (List.mem_cons_of_mem _ (List.mem_map_of_mem he))).trans_lt hs.short
  rw [readBuffer, hlines]
  simp only [validate_of_le h hs.global.1 hs.global.2, updateGlobal_new hs.global.1, Option.bind_some,
    readLines_recordLines hparse]

theorem readBuffer_writeBuffer (h : text.Lawful) (hs : Ordered maxSize s) (hr : Readable text nowMs s) :
    ∃ t, readBuffer text maxSize nowMs (writeBuffer text s) = some (0, t) ∧ Ordered maxSize t ∧
      ∀ key u, s.Purged key u → t.Purged key u := by
  have hg : s.globalInvalidationTimestampMs ≤ stdMax s.globalInvalidationTimestampMs 0 := le_stdMax_left _ _
  have hempty : (LRUCacheBase.new maxSize : LRUCacheBase Int64).entries = [] := rfl
  have hbase : Ordered maxSize ⟨stdMax s.globalInvalidationTimestampMs 0, stdMax s.globalInvalidationTimestampMs 0,
      .new maxSize⟩ :=
    ⟨(new_ordered maxSize).wellFormed, rfl, by rw [hempty]; exact List.Pairwise.nil, by rw [hempty]; exact nofun,
      by rw [hempty]; exact nofun, Int64.le_refl _, Int64.le_trans hs.initial hg⟩
  obtain ⟨t, ht, ho, hmono, hcovers⟩ := putAll_ordered s.lru.entries hbase hs.sorted
    (fun e he => by
      have h₁ := hr.aboveGlobal e he
      have h₂ := hr.positive e he
      change stdMax s.globalInvalidationTimestampMs 0 ≤ e.2
      grind [stdMax]) hs.fits
  refine ⟨t, ?_, ho, ?_⟩
  · rw [readBuffer_writable h (hr.writable hs), ht, Option.map_some]
  · rintro key u (hu | ⟨r, hr, hu⟩)
    · exact hmono key u (Or.inl (Int64.le_trans hu hg))
    · exact hcovers (key, r) hr u hu

end PageSpeed.PurgeFile
