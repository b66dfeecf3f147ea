import PageSpeed.Http.ResponseHeadersParser
import PageSpeed.Http.OverCaching

/-!
The lines of a head that the parser stores and those that it drops, and what a dropped line means for
caching.
-/

namespace PageSpeed

open Headers

namespace ResponseHeaders

theorem lines_parseFirstLineHelper (r : ResponseHeaders) (firstLine : GoogleString) :
    (r.parseFirstLineHelper firstLine).lines = r.lines ∨
      (r.parseFirstLineHelper firstLine).lines = { r.lines with cacheFieldsDirty := true } := by
  unfold parseFirstLineHelper
  split
  · split
    · split
      · exact Or.inr rfl
      · exact Or.inl rfl
    · exact Or.inl rfl
  · exact Or.inl rfl

theorem options_parseFirstLineHelper (r : ResponseHeaders) (firstLine : GoogleString) :
    (r.parseFirstLineHelper firstLine).forceCacheTtlMs = r.forceCacheTtlMs ∧
      (r.parseFirstLineHelper firstLine).proxyCacheable = r.proxyCacheable := by
  unfold parseFirstLineHelper
  split
  · split
    · split <;> exact ⟨rfl, rfl⟩
    · exact ⟨rfl, rfl⟩
  · exact ⟨rfl, rfl⟩

theorem not_storable_noCache (t : TimeText) {r : ResponseHeaders} (hf : r.lines.Faithful)
    (hroom : r.lines.headers.length < kMaxHeaders) :
    ¬ (r.add HttpAttributes.kCacheControl HttpAttributes.kNoCacheMaxAge0).Storable t := by
  rintro ⟨-, -, hcomputer, -⟩
  rw [CachingHeaders.isProxyCacheable, Bool.and_eq_true] at hcomputer
  have hno := CachingHeaders.not_noCache_of_isCacheable hcomputer.1
  have hadded : (r.add HttpAttributes.kCacheControl HttpAttributes.kNoCacheMaxAge0).lines.Faithful := hf.add _ _
  have hnoCache : (r.add HttpAttributes.kCacheControl HttpAttributes.kNoCacheMaxAge0).computer.cacheControl.noCache =
      true := by
    have hvalues := congrFun (values_eq hadded) HttpAttributes.kCacheControl
    have hlines : (r.add HttpAttributes.kCacheControl HttpAttributes.kNoCacheMaxAge0).lines.headers =
        r.lines.headers ++ [⟨HttpAttributes.kCacheControl, HttpAttributes.kNoCacheMaxAge0⟩] := add_of_room hroom _ _
    obtain ⟨-, hspec, -⟩ := parseCacheControl_spec
      ((r.add HttpAttributes.kCacheControl HttpAttributes.kNoCacheMaxAge0).values HttpAttributes.kCacheControl)
    refine hspec.trans ?_
    rw [hvalues, hlines, linesOf_append, List.any_append]
    exact Bool.or_eq_true_iff.mpr (Or.inr (by decide))
  simp only [CachingHeaders.hasExplicitNoCacheDirective, hnoCache, Bool.true_or] at hno
  cases hno

end ResponseHeaders

namespace ResponseHeadersParser

variable {t : TimeText}

structure Received (lines : List NameValue) (overlong : ℕ) (p : ResponseHeadersParser) : Prop where
  headers : p.responseHeaders.lines.headers = lines.take kMaxHeaders
  faithful : p.responseHeaders.lines.Faithful
  dirty : lines ≠ [] → p.responseHeaders.cacheFieldsDirty = true
  dropped : p.droppedOverlongLine = decide (0 < overlong)
  skipping : p.skippingOverlongLine = true → 0 < overlong
  unforced : p.responseHeaders.forceCacheTtlMs ≤ 0
  uncacheable : p.responseHeaders.proxyCacheable = false

theorem take_add (lines : List NameValue) (h : Headers) (hheaders : h.headers = lines.take kMaxHeaders)
    (name value : GoogleString) : (h.add name value).headers = (lines ++ [NameValue.mk name value]).take kMaxHeaders := by
  have hlength := congrArg List.length hheaders
  rw [List.length_take] at hlength
  by_cases hroom : lines.length < kMaxHeaders
  · rw [add_of_room (by omega), hheaders, List.take_of_length_le (by omega),
      List.take_of_length_le (by rw [List.length_append, List.length_singleton]; omega)]
  · rw [Headers.add, if_pos (by omega), hheaders, List.take_append_of_le_length (by omega)]

theorem dirty_add {h : Headers} (hroom : h.headers.length < kMaxHeaders) (name value : GoogleString) :
    (h.add name value).cacheFieldsDirty = true := by
  rw [Headers.add, if_neg (Nat.not_le.mpr hroom)]

theorem Received.dropOverlongLine {lines : List NameValue} {overlong : ℕ} {p : ResponseHeadersParser}
    (h : Received lines overlong p) : Received lines (overlong + 1) p.dropOverlongLine :=
  ⟨h.headers, h.faithful, h.dirty, (decide_eq_true (Nat.succ_pos _)).symm, fun _ => Nat.succ_pos _, h.unforced,
    h.uncacheable⟩

theorem Received.endLine {lines : List NameValue} {overlong : ℕ} {p : ResponseHeadersParser} (h : Received lines overlong p) :
    Received (lines ++ if p.parsingHttp = false then [⟨p.parseName, p.parseValue⟩] else []) overlong p.endLine := by
  cases hhttp : p.parsingHttp with
  | true =>
    rw [if_neg (by decide), List.append_nil]
    have hresponse : p.endLine.responseHeaders = p.responseHeaders.parseFirstLineHelper p.parseValue := by
      rw [ResponseHeadersParser.endLine, hhttp]
      rfl
    obtain ⟨hforce, hproxy⟩ := ResponseHeaders.options_parseFirstLineHelper p.responseHeaders p.parseValue
    obtain hlines | hlines := ResponseHeaders.lines_parseFirstLineHelper p.responseHeaders p.parseValue
    · constructor
      · rw [hresponse, hlines]; exact h.headers
      · rw [hresponse, hlines]; exact h.faithful
      · rw [hresponse, ResponseHeaders.cacheFieldsDirty, hlines]; exact h.dirty
      · exact h.dropped
      · exact h.skipping
      · rw [hresponse, hforce]; exact h.unforced
      · rw [hresponse, hproxy]; exact h.uncacheable
    · constructor
      · rw [hresponse, hlines]; exact h.headers
      · rw [hresponse, hlines]; exact h.faithful
      · rw [hresponse, ResponseHeaders.cacheFieldsDirty, hlines]; exact fun _ => rfl
      · exact h.dropped
      · exact h.skipping
      · rw [hresponse, hforce]; exact h.unforced
      · rw [hresponse, hproxy]; exact h.uncacheable
  | false =>
    rw [if_pos rfl]
    have hresponse : p.endLine.responseHeaders = p.responseHeaders.add p.parseName p.parseValue := by
      rw [ResponseHeadersParser.endLine, hhttp]
      rfl
    constructor
    · rw [hresponse]; exact take_add lines _ h.headers _ _
    · rw [hresponse]; exact h.faithful.add _ _
    · intro _
      rw [hresponse]
      by_cases hroom : p.responseHeaders.lines.headers.length < kMaxHeaders
      · exact dirty_add hroom _ _
      · have hlines : lines ≠ [] := by
          rintro rfl
          rw [h.headers] at hroom
          exact hroom (by decide)
        have hsame : p.responseHeaders.lines.add p.parseName p.parseValue = p.responseHeaders.lines := by
          rw [Headers.add, if_pos (Nat.not_lt.mp hroom)]
        rw [ResponseHeaders.cacheFieldsDirty, ResponseHeaders.add, hsame]
        exact h.dirty hlines
    · exact h.dropped
    · exact h.skipping
    · rw [hresponse]; exact h.unforced
    · rw [hresponse]; exact h.uncacheable

theorem parseByte_cases (t : TimeText) (p : ResponseHeadersParser) (c : UInt8) :
    (p.skippingOverlongLine = true ∧ p.parseByte t c = p) ∨
    (p.skippingOverlongLine = true ∧ p.parseByte t c = { p with skippingOverlongLine := false, parsingValue := false }) ∨
    (p.skippingOverlongLine = false ∧ c = 10 ∧ p.parseName = [] ∧ p.parseByte t c = p.completeHeaders t) ∨
    (p.skippingOverlongLine = false ∧ c = 10 ∧ p.parseName ≠ [] ∧ p.parseByte t c = p.endLine) ∨
    (p.skippingOverlongLine = false ∧ c ≠ 10 ∧ p.parseByte t c = p.dropOverlongLine) ∨
    (p.skippingOverlongLine = false ∧ c ≠ 10 ∧ ∃ parsingHttp parsingValue parseName parseValue,
      p.parseByte t c = { p with parsingHttp, parsingValue, parseName, parseValue }) := by
  by_cases hskip : p.skippingOverlongLine = true
  · rw [parseByte, if_pos hskip]
    split
    · exact Or.inr (Or.inl ⟨hskip, rfl⟩)
    · exact Or.inl ⟨hskip, rfl⟩
  · right
    right
    rw [parseByte, if_neg hskip]
    have hskip := Bool.eq_false_iff.mpr hskip
    by_cases hlf : c = 10
    · rw [if_neg (by rw [hlf]; exact fun h => absurd h.1 (by decide)), if_neg (by rw [hlf]; simp),
        if_neg (by rw [hlf]; decide), if_pos hlf]
      by_cases hname : p.parseName = []
      · rw [if_pos hname]
        exact Or.inl ⟨hskip, hlf, hname, rfl⟩
      · rw [if_neg hname]
        exact Or.inr (Or.inl ⟨hskip, hlf, hname, rfl⟩)
    · right
      right
      rw [if_neg hlf]
      have htaken : ∀ q : ResponseHeadersParser, (∃ parsingHttp parsingValue parseName parseValue,
            q = { p with parsingHttp, parsingValue, parseName, parseValue }) →
          (p.skippingOverlongLine = false ∧ c ≠ 10 ∧ q = p.dropOverlongLine) ∨
          (p.skippingOverlongLine = false ∧ c ≠ 10 ∧ ∃ parsingHttp parsingValue parseName parseValue,
            q = { p with parsingHttp, parsingValue, parseName, parseValue }) := fun _ hq => Or.inr ⟨hskip, hlf, hq⟩
      split
      · split
        · exact htaken _ ⟨_, _, _, _, rfl⟩
        · exact htaken _ ⟨_, _, _, _, rfl⟩
      · split
        · exact htaken _ ⟨_, _, _, _, rfl⟩
        · split
          · exact htaken _ ⟨_, _, _, _, rfl⟩
          · unfold ResponseHeadersParser.addByte
            split
            · exact htaken _ ⟨_, _, _, _, rfl⟩
            · split
              · exact Or.inl ⟨hskip, hlf, rfl⟩
              · split
                · exact htaken _ ⟨_, _, _, _, rfl⟩
                · exact htaken _ ⟨_, _, _, _, rfl⟩

theorem Received.parseByte {lines : List NameValue} {overlong : ℕ} {p : ResponseHeadersParser}
    (h : Received lines overlong p) {c : UInt8} (hgoes : (p.parseByte t c).headersComplete = false) :
    Received (lines ++ (p.endedLine c).toList)
      (overlong + if !p.skippingOverlongLine && (p.parseByte t c).skippingOverlongLine then 1 else 0)
      (p.parseByte t c) := by
  obtain ⟨hskip, heq⟩ | ⟨hskip, heq⟩ | ⟨hskip, hlf, hname, heq⟩ | ⟨hskip, hlf, hname, heq⟩ | ⟨hskip, hlf, heq⟩ |
    ⟨hskip, hlf, parsingHttp, parsingValue, parseName, parseValue, heq⟩ := parseByte_cases t p c
  · rw [heq, endedLine, hskip]
    simpa using h
  · rw [heq, endedLine, hskip]
    simp only [Bool.not_true, Bool.false_and, Bool.false_eq_true, if_false, Nat.add_zero, reduceCtorEq, false_and,
      Option.toList_none, List.append_nil]
    exact ⟨h.headers, h.faithful, h.dirty, h.dropped, nofun, h.unforced, h.uncacheable⟩
  · rw [heq] at hgoes
    cases hgoes
  · have hline : (p.endedLine c).toList = if p.parsingHttp = false then [⟨p.parseName, p.parseValue⟩] else [] := by
      unfold endedLine
      cases p.parsingHttp <;> simp [hskip, hlf, hname]
    have hended : p.endLine.skippingOverlongLine = false := hskip
    rw [heq, hline, hended, Bool.and_false, if_neg Bool.false_ne_true]
    exact h.endLine
  · rw [heq, endedLine, hskip]
    simp only [hlf, false_and, and_false, if_false, Option.toList_none, List.append_nil]
    exact h.dropOverlongLine
  · rw [heq, endedLine, hskip]
    simp only [hlf, false_and, and_false, if_false, Option.toList_none, List.append_nil]
    exact ⟨h.headers, h.faithful, h.dirty, h.dropped, nofun, h.unforced, h.uncacheable⟩

theorem completes {p : ResponseHeadersParser} {c : UInt8} (hp : p.headersComplete = false)
    (hcomplete : (p.parseByte t c).headersComplete = true) : p.parseByte t c = p.completeHeaders t := by
  obtain ⟨hskip, heq⟩ | ⟨hskip, heq⟩ | ⟨hskip, hlf, hname, heq⟩ | ⟨hskip, hlf, hname, heq⟩ | ⟨hskip, hlf, heq⟩ |
    ⟨hskip, hlf, parsingHttp, parsingValue, parseName, parseValue, heq⟩ := parseByte_cases t p c
  · rw [heq, hp] at hcomplete
    cases hcomplete
  · rw [heq] at hcomplete
    exact absurd (hp.symm.trans hcomplete) Bool.false_ne_true
  · exact heq
  · rw [heq] at hcomplete
    exact absurd (hp.symm.trans hcomplete) Bool.false_ne_true
  · rw [heq] at hcomplete
    exact absurd (hp.symm.trans hcomplete) Bool.false_ne_true
  · rw [heq] at hcomplete
    exact absurd (hp.symm.trans hcomplete) Bool.false_ne_true

theorem Received.text {lines : List NameValue} {overlong : ℕ} {p : ResponseHeadersParser} (h : Received lines overlong p)
    (text : GoogleString) :
    Received (lines ++ headerLines t p text) (overlong + overlongLines t p text) (received t p text) := by
  induction text generalizing lines overlong p with
  | nil =>
    rw [headerLines, List.append_nil]
    exact h
  | cons c text ih =>
    rw [headerLines, overlongLines, received]
    split
    · rw [List.append_nil]
      exact h
    · next hgoes =>
      rw [← List.append_assoc, ← Nat.add_assoc]
      exact ih (h.parseByte (Bool.eq_false_iff.mpr hgoes))

theorem headersComplete_completeHeaders (p : ResponseHeadersParser) : (p.completeHeaders t).headersComplete = true := rfl

theorem parseChunk_completes {p : ResponseHeadersParser} (hp : p.headersComplete = false) (text : GoogleString)
    (hcomplete : (p.parseChunk t text).1.headersComplete = true) :
    (p.parseChunk t text).1 = (received t p text).completeHeaders t := by
  induction text generalizing p with
  | nil =>
    rw [parseChunk, hp] at hcomplete
    cases hcomplete
  | cons c text ih =>
    rw [parseChunk] at hcomplete ⊢
    rw [received]
    split at hcomplete
    · next hends =>
      rw [if_pos hends, if_pos hends]
      exact completes hp hends
    · next hgoes =>
      rw [if_neg hgoes, if_neg hgoes]
      exact ih (Bool.eq_false_iff.mpr hgoes) hcomplete

def fresh (implicitCacheTtlMs : ℤ) : ResponseHeadersParser := { responseHeaders := { implicitCacheTtlMs } }

theorem received_fresh (implicitCacheTtlMs : ℤ) : Received [] 0 (fresh implicitCacheTtlMs) :=
  ⟨rfl, faithful_of_none rfl, fun h => absurd rfl h, rfl, nofun, (by decide : (-1 : ℤ) ≤ 0), rfl⟩

theorem completeHeaders_uncacheable_iff {lines : List NameValue} {overlong : ℕ} {p : ResponseHeadersParser}
    (h : Received lines overlong p) :
    ((0 < overlong ∨ kMaxHeaders < lines.length) → (p.completeHeaders t).responseHeaders.proxyCacheable = false) ↔
      lines.length + (if 0 < overlong then 1 else 0) ≤ kMaxHeaders ∨ ¬ p.responseHeaders.Storable t := by
  have hlength : p.responseHeaders.lines.headers.length = min kMaxHeaders lines.length := by
    rw [h.headers, List.length_take]
  have hresponse : (p.completeHeaders t).responseHeaders =
      (if 0 < overlong then p.responseHeaders.add HttpAttributes.kCacheControl HttpAttributes.kNoCacheMaxAge0
        else p.responseHeaders).computeCaching t := by
    rw [completeHeaders, h.dropped]
    simp only [decide_eq_true_eq]
  rw [hresponse]
  by_cases hfull : kMaxHeaders ≤ lines.length
  · -- The line that stands for a dropped one finds no room.
    have hsame : p.responseHeaders.add HttpAttributes.kCacheControl HttpAttributes.kNoCacheMaxAge0 = p.responseHeaders := by
      rw [ResponseHeaders.add, Headers.add, if_pos (by omega)]
    have hdirty : p.responseHeaders.cacheFieldsDirty = true :=
      h.dirty (List.length_pos_iff.mp (Nat.lt_of_lt_of_le (by decide) hfull))
    rw [hsame, ite_self, ← ResponseHeaders.proxyCacheable_iff hdirty h.unforced, Bool.not_eq_true]
    by_cases hover : 0 < overlong
    · rw [if_pos hover]
      constructor
      · exact fun hclaim => Or.inr (hclaim (Or.inl hover))
      · rintro (hle | hnot) -
        · omega
        · exact hnot
    · rw [if_neg hover]
      constructor
      · intro hclaim
        by_cases hmore : kMaxHeaders < lines.length
        · exact Or.inr (hclaim (Or.inr hmore))
        · exact Or.inl (by omega)
      · rintro (hle | hnot) hdropped
        · omega
        · exact hnot
  · have hroom : p.responseHeaders.lines.headers.length < kMaxHeaders := by omega
    constructor
    · intro _
      left
      split_ifs <;> omega
    · rintro - (hover | hmore)
      · have hdirty : (p.responseHeaders.add HttpAttributes.kCacheControl
            HttpAttributes.kNoCacheMaxAge0).cacheFieldsDirty = true := dirty_add hroom _ _
        rw [if_pos hover]
        apply Bool.eq_false_iff.mpr
        rw [ne_eq, ResponseHeaders.proxyCacheable_iff hdirty h.unforced]
        exact ResponseHeaders.not_storable_noCache t h.faithful hroom
      · omega

/-- The lines that are stored, and when those that are not keep the response out of the caches. -/
theorem dropped_lines_uncacheable_iff (implicitCacheTtlMs : ℤ) (chunks : List GoogleString)
    (hcomplete : ((fresh implicitCacheTtlMs).parseChunks t chunks).headersComplete = true) :
    (received t (fresh implicitCacheTtlMs) chunks.flatten).responseHeaders.lines.headers =
        (headerLines t (fresh implicitCacheTtlMs) chunks.flatten).take kMaxHeaders ∧
      ((0 < overlongLines t (fresh implicitCacheTtlMs) chunks.flatten ∨
          kMaxHeaders < (headerLines t (fresh implicitCacheTtlMs) chunks.flatten).length →
        ((fresh implicitCacheTtlMs).parseChunks t chunks).responseHeaders.proxyCacheable = false) ↔
      (headerLines t (fresh implicitCacheTtlMs) chunks.flatten).length +
          (if 0 < overlongLines t (fresh implicitCacheTtlMs) chunks.flatten then 1 else 0) ≤ kMaxHeaders ∨
        ¬ (received t (fresh implicitCacheTtlMs) chunks.flatten).responseHeaders.Storable t) := by
  have hreceived := (received_fresh implicitCacheTtlMs).text (t := t) chunks.flatten
  rw [List.nil_append, Nat.zero_add] at hreceived
  rw [parseChunks_eq t rfl] at hcomplete ⊢
  rw [parseChunk_completes rfl chunks.flatten hcomplete]
  exact ⟨hreceived.headers, completeHeaders_uncacheable_iff hreceived⟩

inductive Reads (t : TimeText) : ResponseHeadersParser → GoogleString → ResponseHeadersParser → List NameValue → Prop
  | nil (p) : Reads t p [] p []
  | cons {p q c text lines} (hgoes : (p.parseByte t c).headersComplete = false)
      (h : Reads t (p.parseByte t c) text q lines) : Reads t p (c :: text) q ((p.endedLine c).toList ++ lines)

theorem Reads.append {p q r : ResponseHeadersParser} {text more : GoogleString} {lines others : List NameValue}
    (h : Reads t p text q lines) (h' : Reads t q more r others) : Reads t p (text ++ more) r (lines ++ others) := by
  induction h with
  | nil => exact h'
  | cons hgoes _ ih =>
    rw [List.append_assoc]
    exact .cons hgoes (ih h')

theorem Reads.received {p q : ResponseHeadersParser} {text : GoogleString} {lines : List NameValue}
    (h : Reads t p text q lines) (rest : GoogleString) :
    received t p (text ++ rest) = received t q rest ∧ headerLines t p (text ++ rest) = lines ++ headerLines t q rest ∧
      (p.parseChunk t (text ++ rest)).1 = (q.parseChunk t rest).1 := by
  induction h with
  | nil => exact ⟨rfl, rfl, rfl⟩
  | cons hgoes _ ih =>
    obtain ⟨hreceived, hlines, hchunk⟩ := ih
    rw [List.cons_append, ResponseHeadersParser.received, headerLines, parseChunk, hgoes]
    refine ⟨hreceived, ?_, hchunk⟩
    rw [List.append_assoc, ← hlines]
    rfl

theorem reads_name (p : ResponseHeadersParser) (hskip : p.skippingOverlongLine = false) (hvalue : p.parsingValue = false)
    (hempty : p.parseValue = []) (hp : p.headersComplete = false) {name : GoogleString}
    (hplain : ∀ c ∈ name, c ≠ 10 ∧ c ≠ 13 ∧ c ≠ 47 ∧ c ≠ 58)
    (hlength : p.parseName.length + name.length ≤ kMaxHeaderLineBytes) :
    Reads t p name { p with parseName := p.parseName ++ name } [] := by
  induction name generalizing p with
  | nil =>
    rw [List.append_nil]
    exact .nil p
  | cons c name ih =>
    obtain ⟨hlf, hcr, hslash, hcolon⟩ := hplain c List.mem_cons_self
    rw [List.length_cons] at hlength
    have hstep : p.parseByte t c = { p with parseName := p.parseName ++ [c] } := by
      rw [parseByte, if_neg (by rw [hskip]; decide), if_neg (fun h => hslash h.1), if_neg (by simp [hcolon]), if_neg hcr,
        if_neg hlf, addByte, if_neg (by simp [hvalue]), if_neg (by rw [hempty, List.length_nil]; omega),
        if_neg (by simp [hvalue])]
    have hnone : p.endedLine c = none := if_neg fun h => hlf h.2.1
    have hrest := ih { p with parseName := p.parseName ++ [c] } hskip hvalue hempty hp
      (fun d hd => hplain d (List.mem_cons_of_mem c hd)) (by rw [List.length_append, List.length_singleton]; omega)
    rw [List.append_assoc, List.singleton_append] at hrest
    have hcons : Reads t p (c :: name) { p with parseName := p.parseName ++ c :: name } ((p.endedLine c).toList ++ []) :=
      .cons (by rw [hstep]; exact hp) (by rw [hstep]; exact hrest)
    rw [hnone] at hcons
    exact hcons

theorem reads_value (p : ResponseHeadersParser) (hskip : p.skippingOverlongLine = false) (hvalue : p.parsingValue = true)
    (hname : p.parseName ≠ ascii "HTTP") (hp : p.headersComplete = false) {value : GoogleString}
    (hplain : ∀ c ∈ value, c ≠ 10 ∧ c ≠ 13) (hfirst : p.parseValue = [] → ∀ c ∈ value.head?, isHtmlSpace c = false)
    (hlength : p.parseName.length + p.parseValue.length + value.length ≤ kMaxHeaderLineBytes) :
    Reads t p value { p with parseValue := p.parseValue ++ value } [] := by
  induction value generalizing p with
  | nil =>
    rw [List.append_nil]
    exact .nil p
  | cons c value ih =>
    obtain ⟨hlf, hcr⟩ := hplain c List.mem_cons_self
    rw [List.length_cons] at hlength
    have hkept : ¬ (p.parsingValue && p.parseValue.isEmpty && isHtmlSpace c && decide (c ≠ 12)) = true := by
      intro hspace
      simp only [Bool.and_eq_true, List.isEmpty_iff] at hspace
      rw [hfirst hspace.1.1.2 c rfl] at hspace
      exact Bool.false_ne_true hspace.1.2
    have hstep : p.parseByte t c = { p with parseValue := p.parseValue ++ [c] } := by
      rw [parseByte, if_neg (by rw [hskip]; decide), if_neg (fun h => hname h.2), if_neg (by simp [hvalue]), if_neg hcr,
        if_neg hlf, addByte, if_neg hkept, if_neg (by omega), if_pos hvalue]
    have hnone : p.endedLine c = none := if_neg fun h => hlf h.2.1
    have hrest := ih { p with parseValue := p.parseValue ++ [c] } hskip hvalue hname hp
      (fun d hd => hplain d (List.mem_cons_of_mem c hd))
      (fun hnil => absurd hnil (List.append_ne_nil_of_right_ne_nil _ (List.cons_ne_nil _ _)))
      (by dsimp only; rw [List.length_append, List.length_singleton]; omega)
    rw [List.append_assoc, List.singleton_append] at hrest
    have hcons : Reads t p (c :: value) { p with parseValue := p.parseValue ++ c :: value }
        ((p.endedLine c).toList ++ []) := .cons (by rw [hstep]; exact hp) (by rw [hstep]; exact hrest)
    rw [hnone] at hcons
    exact hcons

structure Plain (header : NameValue) : Prop where
  named : header.name ≠ [] ∧ header.name ≠ ascii "HTTP"
  name : ∀ c ∈ header.name, c ≠ 10 ∧ c ≠ 13 ∧ c ≠ 47 ∧ c ≠ 58
  value : ∀ c ∈ header.value, c ≠ 10 ∧ c ≠ 13
  first : ∀ c ∈ header.value.head?, isHtmlSpace c = false
  short : header.name.length + header.value.length ≤ kMaxHeaderLineBytes

def lineText (header : NameValue) : GoogleString := header.name ++ (58 :: (header.value ++ [10]))

theorem reads_line (r : ResponseHeaders) {header : NameValue} (h : Plain header) :
    Reads t { responseHeaders := r } (lineText header) { responseHeaders := r.add header.name header.value } [header] := by
  have hlength := h.short
  have hname : Reads t { responseHeaders := r } header.name { responseHeaders := r, parseName := header.name } [] :=
    reads_name _ rfl rfl rfl rfl h.name (by rw [List.length_nil, Nat.zero_add]; omega)
  have hcolon : Reads t { responseHeaders := r, parseName := header.name } [58]
      { responseHeaders := r, parseName := header.name, parsingValue := true } [] := .cons rfl (.nil _)
  have hvalue : Reads t { responseHeaders := r, parseName := header.name, parsingValue := true } header.value
      { responseHeaders := r, parseName := header.name, parsingValue := true, parseValue := header.value } [] :=
    reads_value _ rfl rfl h.named.2 rfl h.value (fun _ => h.first) (by rw [List.length_nil]; omega)
  have hend : Reads t
      { responseHeaders := r, parseName := header.name, parsingValue := true, parseValue := header.value } [10]
      { responseHeaders := r.add header.name header.value } [header] := by
    have hstep : ({ responseHeaders := r, parseName := header.name, parsingValue := true, parseValue := header.value } :
        ResponseHeadersParser).parseByte t 10 = { responseHeaders := r.add header.name header.value } := by
      rw [parseByte, if_neg Bool.false_ne_true, if_neg (by simp), if_neg (by simp), if_neg (by decide), if_pos rfl,
        if_neg h.named.1]
      rfl
    have hline : ({ responseHeaders := r, parseName := header.name, parsingValue := true, parseValue := header.value } :
        ResponseHeadersParser).endedLine 10 = some header := if_pos ⟨rfl, rfl, h.named.1, rfl⟩
    have hcons : Reads t { responseHeaders := r, parseName := header.name, parsingValue := true, parseValue := header.value }
        [10] { responseHeaders := r.add header.name header.value } _ := .cons (by rw [hstep]) (by rw [hstep]; exact .nil _)
    rw [hline] at hcons
    exact hcons
  exact hname.append (hcolon.append (hvalue.append hend))

theorem reads_lines (r : ResponseHeaders) {headers : List NameValue} (h : ∀ header ∈ headers, Plain header) :
    Reads t { responseHeaders := r } (headers.flatMap lineText)
      { responseHeaders := headers.foldl (fun r header => r.add header.name header.value) r } headers := by
  induction headers generalizing r with
  | nil => exact .nil _
  | cons header headers ih =>
    exact (reads_line r (h header List.mem_cons_self)).append
      (ih _ fun other hother => h other (List.mem_cons_of_mem header hother))

def goes (t : TimeText) : ResponseHeadersParser → GoogleString → Bool
  | _, [] => true
  | p, c :: text => !(p.parseByte t c).headersComplete && goes t (p.parseByte t c) text

theorem reads_of_goes {p : ResponseHeadersParser} {text : GoogleString} (h : goes t p text = true) :
    Reads t p text (text.foldl (parseByte t) p) (headerLines t p text) := by
  induction text generalizing p with
  | nil => exact .nil p
  | cons c text ih =>
    rw [goes, Bool.and_eq_true, Bool.not_eq_true'] at h
    rw [headerLines, if_neg (by rw [h.1]; exact Bool.false_ne_true)]
    exact .cons h.1 (ih h.2)

def keptLines : List NameValue :=
  [⟨HttpAttributes.kDate, ascii "Mon, 05 Apr 2010 18:51:26 GMT"⟩, ⟨HttpAttributes.kContentType, ascii "text/css"⟩] ++
    List.replicate 998 ⟨ascii "X", ascii "y"⟩

def lostLine : NameValue := ⟨HttpAttributes.kCacheControl, ascii "private"⟩

theorem plain_crowded : ∀ header ∈ keptLines ++ [lostLine], Plain header := by
  have hfew : ∀ header ∈ [NameValue.mk HttpAttributes.kDate (ascii "Mon, 05 Apr 2010 18:51:26 GMT"),
      ⟨HttpAttributes.kContentType, ascii "text/css"⟩, ⟨ascii "X", ascii "y"⟩, lostLine], Plain header := by
    have hchecked : ∀ header ∈ [NameValue.mk HttpAttributes.kDate (ascii "Mon, 05 Apr 2010 18:51:26 GMT"),
        ⟨HttpAttributes.kContentType, ascii "text/css"⟩, ⟨ascii "X", ascii "y"⟩, lostLine],
        (header.name ≠ [] ∧ header.name ≠ ascii "HTTP") ∧
          (header.name.all fun c => c ≠ 10 ∧ c ≠ 13 ∧ c ≠ 47 ∧ c ≠ 58) = true ∧
          (header.value.all fun c => c ≠ 10 ∧ c ≠ 13) = true ∧
          (header.value.head?.all fun c => !isHtmlSpace c) = true ∧
          header.name.length + header.value.length ≤ kMaxHeaderLineBytes := by decide
    intro header hheader
    obtain ⟨hnamed, hname, hvalue, hfirst, hshort⟩ := hchecked header hheader
    refine ⟨hnamed, by simpa using hname, by simpa using hvalue, ?_, hshort⟩
    rintro c hc
    rw [Option.mem_def] at hc
    rw [hc] at hfirst
    simpa using hfirst
  intro header hheader
  apply hfew
  rw [keptLines, List.append_assoc, List.mem_append, List.mem_append, List.mem_replicate] at hheader
  simp only [List.mem_cons, List.not_mem_nil, or_false] at hheader ⊢
  tauto

theorem linesOf_kept {name : GoogleString} (hname : stringCaseEqual (ascii "X") name = false) :
    linesOf keptLines name =
      linesOf [⟨HttpAttributes.kDate, ascii "Mon, 05 Apr 2010 18:51:26 GMT"⟩, ⟨HttpAttributes.kContentType, ascii "text/css"⟩]
        name := by
  have hfiller : linesOf (List.replicate 998 ⟨ascii "X", ascii "y"⟩) name = [] := by
    apply linesOf_eq_nil_iff.mpr
    intro header hheader
    rw [List.eq_of_mem_replicate hheader]
    exact hname
  rw [keptLines, linesOf_append, hfiller, List.append_nil]

theorem storable_kept {r : ResponseHeaders} (hf : r.lines.Faithful) (hlines : r.lines.headers = keptLines)
    (hstatus : r.statusCode = some 200) : r.Storable ResponseHeaders.april := by
  have hvalues : ∀ {name : GoogleString}, stringCaseEqual (ascii "X") name = false → r.values name = linesOf
      [⟨HttpAttributes.kDate, ascii "Mon, 05 Apr 2010 18:51:26 GMT"⟩, ⟨HttpAttributes.kContentType, ascii "text/css"⟩]
        name := by
    intro name hname
    rw [ResponseHeaders.values_eq hf, hlines, linesOf_kept hname]
  have htype : r.determineContentType = some .kCss := by
    rw [ResponseHeaders.determineContentType, hvalues (by decide)]
    decide
  have hdate : r.parseDateHeader ResponseHeaders.april HttpAttributes.kDate = some 1270493486000 := by
    rw [ResponseHeaders.parseDateHeader, Headers.lookup1, hf.lookup, hlines, linesOf_kept (by decide)]
    decide
  have hcc : r.computer.cacheControl = {} := by
    change parseCacheControl (r.values HttpAttributes.kCacheControl) = {}
    rw [hvalues (by decide)]
    decide
  have hexpires : r.values HttpAttributes.kExpires = [] := (hvalues (by decide)).trans (by decide)
  have hpragma : r.values HttpAttributes.kPragma = [] := (hvalues (by decide)).trans (by decide)
  have hvary : r.values HttpAttributes.kVary = [] := (hvalues (by decide)).trans (by decide)
  have hcode : r.computer.statusCode = 200 := by
    change r.statusCode.getD 0 = 200
    rw [hstatus]
    rfl
  have hexpiresMs : r.computer.expiresMs ResponseHeaders.april = none := by
    change (r.values HttpAttributes.kExpires).head?.bind _ = none
    rw [hexpires]
    rfl
  have hno : r.computer.hasExplicitNoCacheDirective ResponseHeaders.april = false := by
    rw [CachingHeaders.hasExplicitNoCacheDirective, hcc, CachingHeaders.expiresInvalid]
    change (false || false || false || false || (!(r.values HttpAttributes.kExpires).isEmpty && _) ||
      (r.values HttpAttributes.kPragma).any _ || decide (ascii "*" ∈ r.values HttpAttributes.kVary)) = false
    rw [hexpires, hpragma, hvary]
    rfl
  have hfresh : r.computer.freshnessLifetimeMillis ResponseHeaders.april = none := by
    rw [CachingHeaders.freshness_eq hno, CachingHeaders.grantedLifetimeMs, hcc]
    dsimp only
    rw [hexpiresMs]
    rfl
  have hstatic : r.computer.isLikelyStaticResourceType = true := by
    have hcomputerType : r.computer.contentType = some .kCss := htype
    rw [CachingHeaders.isLikelyStaticResourceType, hcomputerType, Option.any_some, Bool.or_eq_true_iff]
    exact Or.inr rfl
  have hredirect : r.computer.isRedirectStatusCode = false := by
    rw [CachingHeaders.isRedirectStatusCode, hcode]
    decide
  refine ⟨by rw [hdate]; rfl, ?_, ?_, ?_⟩
  · rw [CachingHeaders.isAllowedCacheableStatusCode, CachingHeaders.isCacheableResourceStatusCode, hcode]
    decide
  · rw [CachingHeaders.isProxyCacheable, CachingHeaders.isCacheable, hfresh, hcc]
    dsimp only
    rw [CachingHeaders.isHeuristicallyCacheable, hcc, CachingHeaders.isCacheableResourceStatusCode, hcode, hstatic]
    decide
  · rw [ResponseHeaders.guardsCookies, htype, hredirect]
    rfl

theorem statusCode_foldl_add (headers : List NameValue) (r : ResponseHeaders) :
    (headers.foldl (fun r header => r.add header.name header.value) r).statusCode = r.statusCode ∧
      (headers.foldl (fun r header => r.add header.name header.value) r).lines =
        headers.foldl (fun h header => h.add header.name header.value) r.lines := by
  induction headers generalizing r with
  | nil => exact ⟨rfl, rfl⟩
  | cons header headers ih => exact ih (r.add header.name header.value)

def started (status : ℤ) : ResponseHeaders := ({ implicitCacheTtlMs := 300000 } : ResponseHeaders).setFirstLine 1 1 status

/-- A head with one line more than there is room for. -/
def crowded (firstLine : GoogleString) : GoogleString := firstLine ++ (keptLines ++ [lostLine]).flatMap lineText ++ [10]

theorem length_crowded : kMaxHeaders < (keptLines ++ [lostLine]).length := by
  rw [keptLines, List.length_append, List.length_append, List.length_replicate]
  exact Nat.lt_succ_self _

structure Filled (status : ℤ) (filled : ResponseHeaders) : Prop where
  headers : filled.lines.headers = keptLines
  faithful : filled.lines.Faithful
  statusCode : filled.statusCode = some status

theorem reads_crowded {firstLine : GoogleString} {status : ℤ}
    (hgoes : goes ResponseHeaders.april (fresh 300000) firstLine = true)
    (hstate : firstLine.foldl (parseByte ResponseHeaders.april) (fresh 300000) = { responseHeaders := started status })
    (hnone : headerLines ResponseHeaders.april (fresh 300000) firstLine = []) :
    ∃ filled, Filled status filled ∧
      received ResponseHeaders.april (fresh 300000) (crowded firstLine) = { responseHeaders := filled } ∧
      headerLines ResponseHeaders.april (fresh 300000) (crowded firstLine) = keptLines ++ [lostLine] ∧
      ((fresh 300000).parseChunk ResponseHeaders.april (crowded firstLine)).1 =
        ({ responseHeaders := filled } : ResponseHeadersParser).completeHeaders ResponseHeaders.april := by
  have hfirst := reads_of_goes hgoes
  rw [hstate, hnone] at hfirst
  obtain ⟨hreceived, hlines, hchunk⟩ := (hfirst.append (reads_lines (started status) plain_crowded)).received [10]
  refine ⟨_, ⟨?_, ?_, ?_⟩, hreceived, hlines.trans (List.append_nil _), hchunk⟩
  · have hcount : keptLines.length = kMaxHeaders := by
      rw [keptLines, List.length_append, List.length_replicate]
      rfl
    have hkept : (keptLines.foldl (fun h header => h.add header.name header.value) (started status).lines).headers =
        keptLines := by
      rw [foldl_add_of_room NameValue.name NameValue.value (Nat.le_of_eq (by rw [hcount]; rfl))]
      exact List.map_id _
    rw [(statusCode_foldl_add _ _).2, List.foldl_concat, Headers.add, if_pos (by rw [hkept, hcount]), hkept]
  · rw [(statusCode_foldl_add _ _).2]
    exact Faithful.foldl_add (faithful_of_none rfl) NameValue.name NameValue.value _
  · rw [(statusCode_foldl_add _ _).1]
    rfl

/-- A `private` that finds no room is lost, and the response is cached. -/
theorem crowded_head_cached : ¬ ∀ (t : TimeText) (implicitCacheTtlMs : ℤ) (chunks : List GoogleString),
    ((fresh implicitCacheTtlMs).parseChunks t chunks).headersComplete = true →
      0 < overlongLines t (fresh implicitCacheTtlMs) chunks.flatten ∨
          kMaxHeaders < (headerLines t (fresh implicitCacheTtlMs) chunks.flatten).length →
        ((fresh implicitCacheTtlMs).parseChunks t chunks).responseHeaders.proxyCacheable = false := by
  intro hclaim
  obtain ⟨filled, hfilled, hreceived, hlines, hchunk⟩ := @reads_crowded (ascii "HTTP/1.1 200 OK\n") 200
    (by decide) (by decide) (by decide)
  generalize crowded (ascii "HTTP/1.1 200 OK\n") = text at hreceived hlines hchunk
  have hstate := (received_fresh 300000).text (t := ResponseHeaders.april) text
  rw [hreceived, hlines] at hstate
  have hcached : (filled.computeCaching ResponseHeaders.april).proxyCacheable = true :=
    (ResponseHeaders.proxyCacheable_iff (hstate.dirty (List.append_ne_nil_of_right_ne_nil _
      (List.append_ne_nil_of_right_ne_nil _ (List.cons_ne_nil _ _)))) hstate.unforced).mpr
      (storable_kept hfilled.faithful hfilled.headers hfilled.statusCode)
  have hwhole := hclaim ResponseHeaders.april 300000 [text]
  rw [parseChunks_eq _ rfl, List.flatten_singleton, hchunk, hlines] at hwhole
  have huncached := hwhole (headersComplete_completeHeaders _) (Or.inr length_crowded)
  exact Bool.false_ne_true (huncached.symm.trans hcached)

/-- Nor does a response that is not to be cached become so when a line finds no room. -/
theorem dropped_lines_uncacheable_notFound :
    kMaxHeaders < (headerLines ResponseHeaders.april (fresh 300000)
      [crowded (ascii "HTTP/1.1 404 Not Found\n")].flatten).length ∧
    ((fresh 300000).parseChunks ResponseHeaders.april
      [crowded (ascii "HTTP/1.1 404 Not Found\n")]).responseHeaders.proxyCacheable = false := by
  obtain ⟨filled, hfilled, hreceived, hlines, hchunk⟩ := @reads_crowded (ascii "HTTP/1.1 404 Not Found\n") 404
    (by decide) (by decide) (by decide)
  generalize crowded (ascii "HTTP/1.1 404 Not Found\n") = text at hreceived hlines hchunk ⊢
  have hcomplete : ((fresh 300000).parseChunks ResponseHeaders.april [text]).headersComplete = true := by
    rw [parseChunks_eq _ rfl, List.flatten_singleton, hchunk]
    exact headersComplete_completeHeaders _
  have hmore : kMaxHeaders < (headerLines ResponseHeaders.april (fresh 300000) [text].flatten).length := by
    rw [List.flatten_singleton, hlines]
    exact length_crowded
  refine ⟨hmore, (dropped_lines_uncacheable_iff 300000 _ hcomplete).2.mpr (Or.inr ?_) (Or.inr hmore)⟩
  rw [List.flatten_singleton, hreceived]
  rintro ⟨-, hallowed, -⟩
  rw [CachingHeaders.isAllowedCacheableStatusCode, CachingHeaders.isCacheableResourceStatusCode] at hallowed
  have hstatus : filled.computer.statusCode = 404 := congrArg (Option.getD · 0) hfilled.statusCode
  dsimp only at hallowed
  rw [hstatus] at hallowed
  revert hallowed
  decide

end ResponseHeadersParser

end PageSpeed
