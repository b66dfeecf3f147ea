import PageSpeed.Http.OverCaching
import PageSpeed.System.RecorderCuts

/-!
A recording has one outcome, gives its slot back and stores only what is complete and allowed. It keeps to the size
limits unless the cache's limit is lost on the way to the recorder.
-/

namespace PageSpeed

namespace InPlaceResourceRecorder

def sizeLimits (maxResponseBytes : Int32) (cacheLimit : Int64) : List ℤ :=
  let limit := maxCacheableResponseContentLength cacheLimit
  (if 0 < maxResponseBytes then [maxResponseBytes.toInt] else []) ++ if limit = -1 then [] else [limit.toInt]

def LimitTaken (maxResponseBytes : Int32) (cacheLimit : Int64) : Prop :=
  let limit := maxCacheableResponseContentLength cacheLimit
  limit = -1 ∨ 0 < limit.toInt32 ∨ limit.toInt32 = -1 ∧ 0 < maxResponseBytes

theorem neg_one_le_limit (cacheLimit : Int64) : -1 ≤ (maxCacheableResponseContentLength cacheLimit).toInt := by
  rw [maxCacheableResponseContentLength]
  split
  · rename_i h
    exact Int64.le_iff_toInt_le.mp h
  · decide

variable {m : Int32} {l : Int64}

theorem limitTaken_iff :
    LimitTaken m l ↔ (maxCacheableResponseContentLength l).toInt = -1 ∨
      0 < (maxCacheableResponseContentLength l).toInt.bmod (2 ^ 32) ∨
        (maxCacheableResponseContentLength l).toInt.bmod (2 ^ 32) = -1 ∧ 0 < m.toInt := by
  rw [LimitTaken, ← Int64.toInt_toInt32]
  exact or_congr Int64.toInt_inj.symm
    (or_congr Int32.lt_iff_toInt_lt (and_congr Int32.toInt_inj.symm Int32.lt_iff_toInt_lt))

theorem mem_sizeLimits {limit : ℤ} :
    limit ∈ sizeLimits m l ↔ 0 < m.toInt ∧ limit = m.toInt ∨
      (maxCacheableResponseContentLength l).toInt ≠ -1 ∧ limit = (maxCacheableResponseContentLength l).toInt := by
  rw [sizeLimits, List.mem_append]
  apply or_congr
  · have hpos : 0 < m ↔ 0 < m.toInt := Int32.lt_iff_toInt_lt
    rw [← hpos]
    split <;> simp_all
  · have hunlimited : maxCacheableResponseContentLength l = -1 ↔ (maxCacheableResponseContentLength l).toInt = -1 :=
      Int64.toInt_inj.symm
    rw [Ne, ← hunlimited]
    split <;> simp_all

theorem responseLimit_eq (m : Int32) (l : Int64) :
    responseLimit m l = if (maxCacheableResponseContentLength l).toInt.bmod (2 ^ 32) ≠ -1 then
      if m.toInt ≤ 0 then (maxCacheableResponseContentLength l).toInt.bmod (2 ^ 32)
      else min m.toInt ((maxCacheableResponseContentLength l).toInt.bmod (2 ^ 32))
    else m.toInt := by
  rw [← Int64.toInt_toInt32]
  exact if_congr Iff.rfl (if_congr Int32.le_iff_toInt_le rfl rfl) rfl

theorem below_limits (h : LimitTaken m l) {n : ℤ}
    (hn : responseLimit m l ≤ 0 ∨ n < responseLimit m l) : ∀ limit ∈ sizeLimits m l, n < limit := by
  intro limit hlimit
  have hleast := neg_one_le_limit l
  have hmost := m.toInt_lt
  rw [limitTaken_iff] at h
  rw [mem_sizeLimits] at hlimit
  rw [responseLimit_eq] at hn
  generalize (maxCacheableResponseContentLength l).toInt = L at *
  generalize m.toInt = M at *
  rw [Int.bmod_def] at *
  split_ifs at * <;> omega

theorem limit_lost (h : ¬ LimitTaken m l) :
    responseLimit m l ≤ 0 ∧ (maxCacheableResponseContentLength l).toInt ∈ sizeLimits m l := by
  rw [limitTaken_iff] at h
  rw [mem_sizeLimits, responseLimit_eq]
  constructor
  · split_ifs <;> omega
  · exact Or.inr ⟨fun hunlimited => h (Or.inl hunlimited), rfl⟩

variable (t : TimeText) (g : GzipInflater)

theorem construct_fresh (active : ℤ) (p : RequestProperties) (v : Bool) (m c : Int32) (l : Int64) :
    (construct g active p v m c l).maxResponseBytes = responseLimit m l ∧
      (construct g active p v m c l).resourceValue = [] ∧
      (construct g active p v m c l).fullResponseHeadersConsidered = false ∧
      .writeError ∉ (construct g active p v m c l).effects ∧
      (∀ calls, Uncompressed calls → Uncoded (construct g active p v m c l) calls) := by
  have hcoding : InflatingFetch.contentCoding {} = none := by decide
  rw [construct]
  dsimp only
  split
  · split
    · exact ⟨rfl, rfl, rfl, by simp [recordSpecificOutcome, emit], fun _ h => ⟨Or.inl rfl, hcoding, fun _ => h⟩⟩
    · exact ⟨rfl, rfl, rfl, by simp [emit], fun _ h => ⟨Or.inl rfl, hcoding, fun _ => h⟩⟩
  · exact ⟨rfl, rfl, rfl, by simp, fun _ h => ⟨Or.inl rfl, hcoding, fun _ => h⟩⟩

theorem construct_within (active : ℤ) (p : RequestProperties) (v : Bool) (m c : Int32) (l : Int64) :
    Within (construct g active p v m c l) := by
  obtain ⟨-, hempty, -⟩ := construct_fresh g active p v m c l
  rw [Within, hempty]
  exact le_or_gt _ _

structure Proper (start : InPlaceResourceRecorder g) (limits : List ℤ) (calls : List Call) (h : ResponseHeaders)
    (entire : Bool) : Prop where
  outcome : outcomes ((start.run t calls).doneAndSetHeaders t h entire).effects = 1
  active : activeChange ((start.run t calls).doneAndSetHeaders t h entire).effects = 0
  stored : ∀ headers contents, .put headers contents ∈ ((start.run t calls).doneAndSetHeaders t h entire).effects →
    Stored t start calls h entire contents ∧ ∀ limit ∈ limits, (contents.length : ℤ) < limit
  cuts : ∀ (before : List Call) (pieces pieces' : List GoogleString) (after : List Call),
    calls = before ++ pieces.map .write ++ after → Uncompressed calls → pieces.flatten = pieces'.flatten →
      ((start.run t calls).doneAndSetHeaders t h entire).effects =
        ((start.run t (before ++ pieces'.map .write ++ after)).doneAndSetHeaders t h entire).effects

theorem uncompressed_cuts {before after : List Call} {pieces : List GoogleString}
    (h : Uncompressed (before ++ pieces.map .write ++ after)) (pieces' : List GoogleString) :
    Uncompressed (before ++ pieces'.map .write ++ after) := by
  have hwrites (pieces : List GoogleString) : (pieces.map Call.write).findSome? Call.headers = none := by
    simp [Call.headers]
  intro first hfirst
  apply h first
  rw [List.findSome?_append, List.findSome?_append, hwrites] at hfirst ⊢
  exact hfirst

theorem construct_proper (active : ℤ) (p : RequestProperties) (v : Bool) {c : Int32} {calls : List Call}
    (hserved : Served calls) (h : ResponseHeaders) (entire : Bool) {limits : List ℤ}
    (hlimits : ∀ n : ℤ, responseLimit m l ≤ 0 ∨ n < responseLimit m l → ∀ limit ∈ limits, n < limit) :
    Proper t g (construct g active p v m c l) limits calls h entire := by
  have hsound := construct_sound (g := g) active p v m c l
  have hwithin := construct_within g active p v m c l
  obtain ⟨hmax, -, hfull, hwritten, huncoded⟩ := construct_fresh g active p v m c l
  constructor
  · exact doneAndSetHeaders_outcomes t (run_sound t hsound calls) h entire
  · exact doneAndSetHeaders_active t (run_sound t hsound calls) h entire
  · intro headers contents hput
    obtain ⟨hstored, hbelow⟩ := put_stored t hsound hwithin hfull hwritten hserved hput
    rw [hmax] at hbelow
    exact ⟨hstored, hlimits _ hbelow⟩
  · rintro before pieces pieces' after rfl hplain hsame
    have hleft := cut_same t hwithin (huncoded _ hplain)
    have hright := cut_same t hwithin (huncoded _ (uncompressed_cuts hplain pieces'))
    rw [hsame] at hleft
    exact (hleft.trans hright.symm).effects t h entire

structure Storable (h : ResponseHeaders) : Prop where
  decodes : canDecodeContentEncoding h = true
  contentType : isIproContentType h = true
  status : h.status = 200
  success : h.isErrorStatus = false
  cacheable : h.isProxyCacheableFor {} false false = true
  coding : InflatingFetch.contentCoding h.copyFrom = none

section Storable

variable {g} {h : ResponseHeaders} {r : InPlaceResourceRecorder g}

theorem Storable.considered (hh : Storable h) (hlimit : r.maxResponseBytes ≤ 0) (kind : HeadersKind)
    (hproperties : r.requestProperties = {}) (hvary : r.respectVary = false) (horigin : r.originCachingHeaders = none) :
    r.considerResponseHeaders t kind h =
      ({ r with
          considerResponseHeadersCalled := true
          fetchHeaders := if r.considerResponseHeadersCalled then r.fetchHeaders else h.copyFrom
          statusCode := 200
          fullResponseHeadersConsidered := r.fullResponseHeadersConsidered || decide (kind = .full) }, h) := by
  obtain ⟨hdecodes, htype, hstatus, hsuccess, hcacheable, -⟩ := hh
  have hlength : decide (0 < r.maxResponseBytes) = false := decide_eq_false (not_lt.mpr hlimit)
  cases kind with
  | preliminary =>
    cases hcalled : r.considerResponseHeadersCalled with
    | true => simp [considerResponseHeaders, considerDecodable, contentLengthExceeds, *]
    | false => simp [considerResponseHeaders, considerDecodable, contentLengthExceeds, *]
  | full =>
    cases hcalled : r.considerResponseHeadersCalled with
    | true =>
      simp [considerResponseHeaders, considerDecodable, contentLengthExceeds, considerFullHeaders,
        IproRecorder.applyOriginCachingHeaders, *]
    | false =>
      simp [considerResponseHeaders, considerDecodable, contentLengthExceeds, considerFullHeaders,
        IproRecorder.applyOriginCachingHeaders, *]

theorem Storable.put (hh : Storable h) (hlimit : r.maxResponseBytes ≤ 0) (hproperties : r.requestProperties = {})
    (hvary : r.respectVary = false) (horigin : r.originCachingHeaders = none)
    (hr : r.failure = false) (hfull : r.fullResponseHeadersConsidered = false) (hcontents : r.resourceValue ≠ []) :
    ∃ headers, .put headers r.resourceValue ∈ (r.doneAndSetHeaders t h true).effects := by
  have hempty : r.resourceValue.isEmpty = false := by
    rw [List.isEmpty_eq_false_iff]
    exact hcontents
  have hjudge : r.judge t h true = ((r.considerResponseHeaders t .full h).1.refuseEmpty, h) := by
    simp [judge, hr, hfull, hh.considered t hlimit _ hproperties hvary horigin]
  rw [hh.considered t hlimit _ hproperties hvary horigin, refuseEmpty] at hjudge
  simp only [hempty, Bool.and_false, Bool.false_eq_true, ↓reduceIte] at hjudge
  have hput (r' : InPlaceResourceRecorder g) (hr' : r'.failure = false) :
      .put (r'.storedHeaders h) r'.resourceValue ∈ (r'.settle h).destruct.effects := by
    rw [settle, hr', if_neg Bool.false_ne_true, destruct]
    split
    · simp [emit]
    · simp [emit]
  rw [doneAndSetHeaders, hjudge]
  exact ⟨_, hput _ hr⟩

theorem Storable.unlimited (hh : Storable h) {m : Int32} {l : Int64} (hlimit : responseLimit m l ≤ 0)
    {contents : GoogleString} (hcontents : contents ≠ []) : ∃ headers, .put headers contents ∈
      (((construct g 0 {} false m 0 l).run t
        [.considerResponseHeaders .preliminary h, .write contents]).doneAndSetHeaders t h true).effects := by
  let considered : InPlaceResourceRecorder g :=
    { requestProperties := {}, respectVary := false, maxConcurrentRecordings := 0
      maxResponseBytes := responseLimit m l, effects := [.countResource]
      considerResponseHeadersCalled := true, fetchHeaders := h.copyFrom, statusCode := 200 }
  have hplain : Plain considered := by
    rw [Plain, Option.getD_none, InflatingFetch.headersComplete, hh.coding]
  have hwithin : Within (considered.accept contents) := Or.inl hlimit
  have hwritten : (considered.write contents).1 = considered.accept contents := by
    rw [write_plain rfl hplain, if_pos hwithin]
  have hconsidered : ((construct g 0 {} false m 0 l).considerResponseHeaders t .preliminary h).1 = considered :=
    congrArg Prod.fst (hh.considered t hlimit .preliminary rfl rfl rfl)
  rw [run, List.foldl_cons, List.foldl_cons, List.foldl_nil, step, step, hconsidered, hwritten]
  exact hh.put t hlimit rfl rfl rfl rfl rfl hcontents

end Storable

def AlwaysProper (m : Int32) (l : Int64) : Prop :=
  ∀ (t : TimeText) (g : GzipInflater) (active : ℤ) (p : RequestProperties) (v : Bool) (c : Int32) (calls : List Call)
    (h : ResponseHeaders) (entire : Bool), Served calls →
      Proper t g (construct g active p v m c l) (sizeLimits m l) calls h entire

def noInflater : GzipInflater := ⟨Empty, fun _ => none, fun s => s.elim⟩

def sheet : ResponseHeaders := (ResponseHeaders.styleSheet (ascii "max-age=600")).computeCaching ResponseHeaders.april

theorem sheet_storable : Storable sheet := by
  constructor <;> decide

theorem not_proper {limit : ℤ} (hlimit : responseLimit m l ≤ 0)
    (hmem : limit ∈ sizeLimits m l) : ¬ AlwaysProper m l := by
  intro hproper
  let contents : GoogleString := List.replicate (limit.toNat + 1) 0
  have hserved : Served [.considerResponseHeaders .preliminary sheet, .write contents] := by
    intro before full after hcalls
    have hmember : Call.considerResponseHeaders .full full ∈
        [Call.considerResponseHeaders .preliminary sheet, Call.write contents] := by
      rw [hcalls]
      exact List.mem_append_right _ List.mem_cons_self
    simp at hmember
  have hcontents : contents ≠ [] := List.cons_ne_nil _ _
  obtain ⟨headers, hput⟩ :=
    @Storable.unlimited ResponseHeaders.april noInflater sheet sheet_storable m l hlimit contents hcontents
  have hbelow := ((hproper _ _ _ _ _ _ _ _ _ hserved).stored headers _ hput).2 limit hmem
  rw [List.length_replicate] at hbelow
  omega

/-- Exactly when the cache's limit reaches the recorder, all its recordings are proper. -/
theorem proper_iff (m : Int32) (l : Int64) : AlwaysProper m l ↔ LimitTaken m l := by
  constructor
  · intro hproper
    by_contra hlost
    obtain ⟨hlimit, hmem⟩ := limit_lost hlost
    exact not_proper hlimit hmem hproper
  · intro htaken t g active p v c calls h entire hserved
    exact construct_proper t g active p v hserved h entire fun n => below_limits htaken

/-- A cache limit of three gibibytes lifts a recording limit of ten mebibytes. -/
theorem three_gibibytes : ¬ AlwaysProper 10485760 3221225472 := by
  apply not_proper
  · decide
  · exact mem_sizeLimits.mpr (Or.inl ⟨by decide, rfl⟩)

end InPlaceResourceRecorder

end PageSpeed
