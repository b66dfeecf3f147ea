import PageSpeed.Http.AppendedDirective

/-!
The computed fields over whole runs of calls: as long as they are not dirty, they are those of a new
response with the same lines.
-/

namespace PageSpeed

open Headers StringMultiMap

namespace Headers

theorem linesOf_add_other (h : Headers) {name other : GoogleString} (hother : stringCaseEqual name other = false)
    (value : GoogleString) : linesOf (h.add name value).headers other = linesOf h.headers other := by
  unfold Headers.add
  split
  · rfl
  · rw [linesOf_append, linesOf_singleton, if_neg (by rw [hother]; exact Bool.false_ne_true), List.append_nil]

theorem linesOf_foldl_add_other {α : Type} {name other : GoogleString} (hother : stringCaseEqual name other = false)
    (value : α → GoogleString) (l : List α) (h : Headers) :
    linesOf (l.foldl (fun h a => h.add name (value a)) h).headers other = linesOf h.headers other := by
  induction l generalizing h with
  | nil => rfl
  | cons a l ih => rw [List.foldl_cons, ih, linesOf_add_other h hother]

section Other

variable {h : Headers} (hf : Faithful h) {name other : GoogleString} (hother : stringCaseEqual name other = false)
include hf hother

theorem Faithful.linesOf_removeAll_other : linesOf (h.removeAll name).2.headers other = linesOf h.headers other := by
  rw [Headers.removeAll, hf.removeAll_headers (sortedNames_single name), linesOf_filter, listed_single, hother,
    if_neg Bool.false_ne_true]

theorem Faithful.linesOf_replace_other (value : GoogleString) :
    linesOf (h.replace name value).headers other = linesOf h.headers other := by
  rw [Headers.replace, linesOf_add_other _ hother, hf.linesOf_removeAll_other hother]

theorem Faithful.linesOf_remove_other (value : GoogleString) :
    linesOf (h.remove name value).2.headers other = linesOf h.headers other := by
  unfold Headers.remove
  split
  · rw [headers_populateMap]
  · split
    · dsimp only
      split
      · split
        · exact hf.linesOf_removeAll_other hother
        · exact (linesOf_add_other _ hother _).trans (hf.linesOf_removeAll_other hother)
      · exact (linesOf_foldl_add_other hother id _ _).trans (hf.linesOf_removeAll_other hother)
    · rw [headers_populateMap]

end Other

theorem Faithful.linesOf_replace {h : Headers} (hf : Faithful h) (hle : h.headers.length ≤ kMaxHeaders)
    (name value : GoogleString) :
    linesOf (h.replace name value).headers name = splitValues name value ∨
      linesOf (h.replace name value).headers name = [] ∧ linesOf h.headers name = [] := by
  have hself : stringCaseEqual name name = true := stringCaseEqual_iff.mpr rfl
  have hheaders : (h.removeAll name).2.headers = h.headers.filter fun header => !listed [name] header.name :=
    hf.removeAll_headers (sortedNames_single name)
  have hremoved : linesOf (h.removeAll name).2.headers name = [] := by
    rw [hheaders, linesOf_filter, listed_single, hself, if_pos rfl]
  by_cases hroom : (h.removeAll name).2.headers.length < kMaxHeaders
  · left
    rw [Headers.replace, add_of_room hroom, linesOf_append, hremoved, linesOf_singleton, if_pos hself, List.nil_append]
  · right
    have hall : (h.removeAll name).2.headers = h.headers := by
      have hfilter := List.length_filter_le (fun header : NameValue => !listed [name] header.name) h.headers
      rw [hheaders] at hroom ⊢
      exact List.filter_eq_self.mpr (List.length_filter_eq_length_iff.mp (by omega))
    have hnone : linesOf h.headers name = [] := by rw [← hall, hremoved]
    rw [Headers.replace, Headers.add, if_pos (Nat.not_lt.mp hroom)]
    exact ⟨hremoved, hnone⟩

def Hooked (h h' : Headers) : Prop := h'.cacheFieldsDirty = false → h.cacheFieldsDirty = false ∧ h'.headers = h.headers

theorem hooked_refl (h : Headers) : Hooked h h := fun hclean => ⟨hclean, rfl⟩

theorem Hooked.trans {h h' h'' : Headers} (hfirst : Hooked h h') (hsecond : Hooked h' h'') : Hooked h h'' := by
  intro hclean
  obtain ⟨hclean, hheaders⟩ := hsecond hclean
  obtain ⟨hclean, hheaders'⟩ := hfirst hclean
  exact ⟨hclean, hheaders.trans hheaders'⟩

theorem hooked_of_dirty (h : Headers) {h' : Headers} (hdirty : h'.cacheFieldsDirty = true) : Hooked h h' := by
  intro hclean
  rw [hclean] at hdirty
  cases hdirty

theorem hooked_populateMap (h : Headers) : Hooked h h.populateMap := by
  intro hclean
  refine ⟨?_, headers_populateMap h⟩
  unfold Headers.populateMap at hclean
  split at hclean
  · exact hclean
  · exact hclean

theorem hooked_add (h : Headers) (name value : GoogleString) : Hooked h (h.add name value) := by
  unfold Headers.add
  split
  · exact hooked_refl h
  · exact hooked_of_dirty h rfl

theorem hooked_removeAllFromSortedArray (h : Headers) (names : List GoogleString) :
    Hooked h (h.removeAllFromSortedArray names).2 := by
  unfold Headers.removeAllFromSortedArray
  dsimp only
  split
  · exact hooked_of_dirty h rfl
  · exact hooked_populateMap h

theorem hooked_replace (h : Headers) (name value : GoogleString) : Hooked h (h.replace name value) :=
  (hooked_removeAllFromSortedArray h [name]).trans (hooked_add _ name value)

theorem hooked_foldl_add {α : Type} (name value : α → GoogleString) (l : List α) (h : Headers) :
    Hooked h (l.foldl (fun h a => h.add (name a) (value a)) h) := by
  induction l generalizing h with
  | nil => exact hooked_refl h
  | cons a l ih => exact (hooked_add h (name a) (value a)).trans (ih _)

theorem hooked_updateFrom (h other : Headers) : Hooked h (h.updateFrom other) :=
  (hooked_removeAllFromSortedArray h _).trans (hooked_foldl_add NameValue.name NameValue.value other.headers _)

theorem hooked_remove (h : Headers) (name value : GoogleString) : Hooked h (h.remove name value).2 := by
  unfold Headers.remove
  split
  · exact hooked_populateMap h
  · split
    · exact hooked_of_dirty h rfl
    · exact hooked_populateMap h

theorem hooked_removeAllWithPrefix (h : Headers) (start : GoogleString) : Hooked h (h.removeAllWithPrefix start).2 := by
  unfold Headers.removeAllWithPrefix
  dsimp only
  split
  · exact hooked_of_dirty h rfl
  · exact hooked_refl h

theorem hooked_removeIfNotIn (h keep : Headers) : Hooked h (h.removeIfNotIn keep).2 := by
  have hsame := keepLoop_unchanged keep h.headers []
  unfold Headers.removeIfNotIn
  dsimp only
  split
  · exact hooked_of_dirty h rfl
  · next hchanged => exact fun hclean => ⟨hclean, hsame (Bool.eq_false_iff.mpr hchanged)⟩

theorem hooked_removeCookie (h : Headers) (cookieName : GoogleString) : Hooked h (h.removeCookie cookieName) := by
  unfold Headers.removeCookie
  split
  · exact hooked_populateMap h
  · dsimp only
    split
    · have hremoved : Hooked h ({ h with cookies := false }.removeAll HttpAttributes.kCookie).2 :=
        hooked_removeAllFromSortedArray { h with cookies := false } _
      exact hremoved.trans (hooked_foldl_add (fun _ => HttpAttributes.kCookie) id _ _)
    · exact hooked_populateMap h

theorem hooked_populateCookieMap (h : Headers) : Hooked h h.populateCookieMap := by
  unfold Headers.populateCookieMap
  split
  · exact hooked_refl h
  · exact hooked_populateMap h

def Op.setsValue : Op → Bool
  | .setValue _ _ => true
  | _ => false

theorem hooked_apply (h : Headers) {op : Op} (hop : op.setsValue = false) : Hooked h (h.apply op) := by
  cases op with
  | add name value => exact hooked_add h name value
  | remove name value => exact hooked_remove h name value
  | removeAll name => exact hooked_removeAllFromSortedArray h [name]
  | removeAllFromSortedArray names => exact hooked_removeAllFromSortedArray h names
  | removeAllWithPrefix start => exact hooked_removeAllWithPrefix h start
  | removeIfNotIn keep => exact hooked_removeIfNotIn h keep
  | replace name value => exact hooked_replace h name value
  | updateFrom other => exact hooked_updateFrom h other
  | removeCookie cookieName => exact hooked_removeCookie h cookieName
  | setValue i value => cases hop
  | lookup name => exact hooked_populateMap h
  | has name => exact hooked_populateMap h
  | hasCookie name => exact hooked_populateCookieMap h

end Headers

namespace ResponseHeaders

variable (t : TimeText)

def anew (r : ResponseHeaders) : ResponseHeaders :=
  { lines := { headers := r.lines.headers, cacheFieldsDirty := true }
    statusCode := r.statusCode
    forceCacheTtlMs := r.forceCacheTtlMs
    implicitCacheTtlMs := r.implicitCacheTtlMs }

structure SameFields (f g : CacheFields) : Prop where
  dateMs : f.dateMs = g.dateMs
  browserCacheable : f.browserCacheable = g.browserCacheable
  proxyCacheable : f.proxyCacheable = g.proxyCacheable
  cacheTtlMs : f.browserCacheable = true → f.cacheTtlMs = g.cacheTtlMs
  expirationTimeMs : f.expirationTimeMs.getD 0 = g.expirationTimeMs.getD 0
  requiresBrowserRevalidation : f.requiresBrowserRevalidation = g.requiresBrowserRevalidation
  requiresProxyRevalidation : f.requiresProxyRevalidation = g.requiresProxyRevalidation

def Settled (r : ResponseHeaders) : Prop :=
  SameFields r.fields (r.anew.computedFields t) ∧ (r.isImplicitlyCacheable = false → r.anew.isImplicit t = false)

def dateKept (r : ResponseHeaders) : Bool := (r.parseDateHeader t HttpAttributes.kDate).isSome || r.dateMs.isNone

theorem sameView_anew {r : ResponseHeaders} (hf : r.lines.Faithful) : SameView r.anew r := by
  have hnew : r.anew.lines.Faithful := faithful_of_none rfl
  have hlookup : ∀ name, r.anew.lines.lookup name = r.lines.lookup name := by
    intro name
    rw [hnew.lookup, hf.lookup]
    rfl
  constructor
  · exact fun name _ => hlookup name
  · exact congrArg parseCacheControl (congrArg (Option.getD · []) (hlookup HttpAttributes.kCacheControl))
  · rfl
  · rfl
  · rfl

theorem computedFields_anew {r s : ResponseHeaders} (h : SameView s.anew r.anew) :
    s.anew.computedFields t = r.anew.computedFields t := by
  have hcc := h.cacheControl
  rw [computedFields, computedFields, h.date, h.browserCacheable, h.proxyCacheable, h.ttlMs, h.isImplicit, hcc]
  rfl

theorem Settled.view {r s : ResponseHeaders} (hr : Settled t r) (hfields : s.fields = r.fields)
    (h : SameView s.anew r.anew) : Settled t s := by
  have himplicit : s.isImplicitlyCacheable = r.isImplicitlyCacheable := congrArg CacheFields.isImplicitlyCacheable hfields
  constructor
  · rw [hfields, computedFields_anew t h]
    exact hr.1
  · rw [himplicit, h.isImplicit]
    exact hr.2

theorem settled_computeCaching {r : ResponseHeaders} (hf : r.lines.Faithful) (hdirty : r.cacheFieldsDirty = true)
    (hdate : r.dateKept t = true) :
    SameFields (r.computeCaching t).fields (r.anew.computedFields t) ∧
      ((r.computeCaching t).isImplicitlyCacheable = false → r.anew.isImplicit t = false) := by
  have hview := sameView_anew hf
  have hfields := fields_computeCaching t hdirty
  have himplicit : (r.computeCaching t).isImplicitlyCacheable = (r.isImplicitlyCacheable || r.isImplicit t) :=
    congrArg CacheFields.isImplicitlyCacheable hfields
  constructor
  · rw [hfields]
    constructor
    · change (r.parseDateHeader t _).or r.dateMs = (r.anew.parseDateHeader t _).or none
      rw [hview.date]
      rw [dateKept, Bool.or_eq_true, Option.isNone_iff_eq_none] at hdate
      obtain hsome | hnone := hdate
      · obtain ⟨dateMs, hsome⟩ := Option.isSome_iff_exists.mp hsome
        rw [hsome]
        rfl
      · rw [hnone]
    · exact (hview.browserCacheable t).symm
    · change (_ && _) = (r.anew.isBrowserCacheable t && ResponseHeaders.isProxyCacheable t r.anew)
      rw [hview.browserCacheable, hview.proxyCacheable]
    · intro hcacheable
      have hcacheable : r.isBrowserCacheable t = true := hcacheable
      have hcacheable' : r.anew.isBrowserCacheable t = true := by rw [hview.browserCacheable, hcacheable]
      rw [computedFields, computedFields]
      dsimp only
      rw [if_pos hcacheable, if_pos hcacheable', hview.ttlMs]
    · rw [computedFields, computedFields]
      dsimp only
      rw [hview.browserCacheable, hview.date, hview.ttlMs]
    · exact congrArg CacheControl.mustRevalidate hview.cacheControl.symm
    · rw [computedFields, computedFields]
      dsimp only
      rw [hview.cacheControl]
  · intro hnone
    rw [himplicit, Bool.or_eq_false_iff] at hnone
    rw [hview.isImplicit, hnone.2]

def Edited (r r' : ResponseHeaders) : Prop :=
  ∃ lines, r' = { r with lines } ∧ Hooked r.lines lines ∧ (r.lines.Faithful → lines.Faithful) ∧
    (r.lines.headers.length ≤ kMaxHeaders → lines.headers.length ≤ kMaxHeaders)

theorem edited_refl (r : ResponseHeaders) : Edited r r := ⟨r.lines, rfl, hooked_refl _, id, id⟩

variable {r' : ResponseHeaders}

theorem Edited.trans {r r'' : ResponseHeaders} (h : Edited r r') (h' : Edited r' r'') : Edited r r'' := by
  obtain ⟨lines, rfl, hhooked, hfaithful, hbounded⟩ := h
  obtain ⟨lines', rfl, hhooked', hfaithful', hbounded'⟩ := h'
  exact ⟨lines', rfl, hhooked.trans hhooked', hfaithful' ∘ hfaithful, hbounded' ∘ hbounded⟩

theorem edited_apply (r : ResponseHeaders) {op : Headers.Op} (hallowed : op.Allowed)
    (hop : op.setsValue = false) : Edited r { r with lines := r.lines.apply op } :=
  ⟨_, rfl, hooked_apply r.lines hop, fun hf => hf.apply hallowed, length_apply_le r.lines op⟩

theorem edited_replace (r : ResponseHeaders) (name value : GoogleString) : Edited r (r.replace name value) :=
  @edited_apply r (.replace name value) trivial rfl

theorem edited_removeAll (r : ResponseHeaders) (name : GoogleString) : Edited r (r.removeAll name) :=
  @edited_apply r (.removeAll name) trivial rfl

theorem edited_setTimeHeader (r : ResponseHeaders) (header : GoogleString) (timeMs : ℤ) :
    Edited r (r.setTimeHeader t header timeMs) := by
  unfold setTimeHeader
  split
  · exact edited_replace r header _
  · exact edited_refl r

theorem edited_setDateAndCaching (r : ResponseHeaders) (dateMs ttlMs : ℤ) (suffix : GoogleString) :
    Edited r (r.setDateAndCaching t dateMs ttlMs suffix) :=
  ((edited_setTimeHeader t r _ dateMs).trans (edited_setTimeHeader t _ _ _)).trans (edited_replace _ _ _)

theorem edited_applyTimeDelta (r : ResponseHeaders) (attr : GoogleString) (deltaMs : ℤ) :
    Edited r (applyTimeDelta t attr deltaMs r) := by
  unfold applyTimeDelta
  split
  · split
    · exact edited_setTimeHeader t r attr _
    · exact edited_refl r
  · exact edited_refl r

/-- The dates as `FixDateHeaders` leaves them, before anything is computed. -/
def fixDates (r : ResponseHeaders) (nowMs : ℤ) : ResponseHeaders :=
  match r.knownDate t with
  | some dateMs =>
    if dateMs < nowMs ∨ nowMs + kMaxAllowedDateDriftMs < dateMs then
      (r.setDate t nowMs).applyTimeDelta t HttpAttributes.kExpires (nowMs - dateMs)
    else r
  | none => ((r.setDate t nowMs).setDate t nowMs).removeAll HttpAttributes.kExpires

theorem edited_fixDates (r : ResponseHeaders) (nowMs : ℤ) : Edited r (r.fixDates t nowMs) := by
  unfold fixDates
  split
  · split
    · exact (edited_setTimeHeader t r _ nowMs).trans (edited_applyTimeDelta t _ _ _)
    · exact edited_refl r
  · exact ((edited_setTimeHeader t r _ nowMs).trans (edited_setTimeHeader t _ _ nowMs)).trans (edited_removeAll _ _)

theorem computeCaching_of_clean {r : ResponseHeaders} (hclean : r.cacheFieldsDirty = false) : r.computeCaching t = r := by
  rw [computeCaching, hclean]
  rfl

theorem parseDateHeader_removeAll {r : ResponseHeaders} (hf : r.lines.Faithful) (name : GoogleString) :
    (r.removeAll name).parseDateHeader t name = none := by
  have hself : listed [name] name = true := listed_iff.mpr ⟨name, List.mem_cons_self, rfl⟩
  have hremoved : (r.removeAll name).lines.Faithful := hf.removeAll (sortedNames_single name)
  have hheaders : (r.removeAll name).lines.headers = r.lines.headers.filter fun header => !listed [name] header.name :=
    hf.removeAll_headers (sortedNames_single name)
  rw [parseDateHeader, Headers.lookup1, hremoved.lookup, hheaders, linesOf_filter, if_pos hself]
  rfl

theorem fixDateHeaders_eq {r : ResponseHeaders} (hf : r.lines.Faithful) (nowMs : ℤ) :
    r.fixDateHeaders t nowMs = if !r.cacheFieldsDirty then (r.fixDates t nowMs).computeCaching t else r.fixDates t nowMs := by
  unfold fixDateHeaders fixDates
  cases hdate : r.knownDate t with
  | some dateMs =>
    dsimp only
    split
    · rfl
    · cases hdirty : r.cacheFieldsDirty with
      | true => rfl
      | false => exact (computeCaching_of_clean t hdirty).symm
  | none =>
    dsimp only
    obtain ⟨lines, hlines, -, hfaithful, -⟩ := (edited_setTimeHeader t r HttpAttributes.kDate nowMs).trans
      (edited_setTimeHeader t _ HttpAttributes.kDate nowMs)
    have hset : ((r.setDate t nowMs).setDate t nowMs).lines.Faithful := by
      rw [setDate, setDate, hlines]
      exact hfaithful hf
    rw [parseDateHeader_removeAll t hset]

structure Kept (implicit : Bool) (r : ResponseHeaders) : Prop where
  faithful : r.lines.Faithful
  bounded : r.lines.headers.length ≤ kMaxHeaders
  recorded : implicit = true → r.isImplicitlyCacheable = true
  settled : r.cacheFieldsDirty = false → implicit = false → Settled t r

variable {t} {implicit : Bool} {r : ResponseHeaders}

theorem Kept.edited (h : Kept t implicit r) (hedited : Edited r r') : Kept t implicit r' := by
  obtain ⟨lines, rfl, hhooked, hfaithful, hbounded⟩ := hedited
  constructor
  · exact hfaithful h.faithful
  · exact hbounded h.bounded
  · exact h.recorded
  · intro hclean himplicit
    obtain ⟨hclean, hheaders⟩ := hhooked hclean
    have hanew : ({ r with lines } : ResponseHeaders).anew = r.anew := by
      rw [anew, anew, hheaders]
    have hsettled := h.settled hclean himplicit
    unfold Settled at hsettled ⊢
    rw [hanew]
    exact hsettled

theorem Kept.dirty (h : Kept t implicit r) (hfaithful : r'.lines.Faithful)
    (hbounded : r'.lines.headers.length ≤ kMaxHeaders) (hdirty : r'.cacheFieldsDirty = true)
    (hrecorded : r'.isImplicitlyCacheable = r.isImplicitlyCacheable) : Kept t implicit r' := by
  constructor
  · exact hfaithful
  · exact hbounded
  · rw [hrecorded]
    exact h.recorded
  · intro hclean
    rw [hclean] at hdirty
    cases hdirty

theorem Kept.viewed (h : Kept t implicit r) {lines : Headers} (hfaithful : lines.Faithful)
    (hbounded : lines.headers.length ≤ kMaxHeaders) (hflag : lines.cacheFieldsDirty = r.lines.cacheFieldsDirty)
    (hview : SameView { r with lines } r) : Kept t implicit { r with lines } := by
  constructor
  · exact hfaithful
  · exact hbounded
  · exact h.recorded
  · intro hclean himplicit
    have hsettled := h.settled (hflag.symm.trans hclean) himplicit
    have hlines : SameView ({ r with lines } : ResponseHeaders).anew { r with lines } := sameView_anew hfaithful
    have hnew : SameView ({ r with lines } : ResponseHeaders).anew r.anew :=
      (hlines.trans hview).trans (sameView_anew h.faithful).symm
    exact hsettled.view t rfl hnew

theorem computeCaching_cases (t : TimeText) {r : ResponseHeaders} (hdirty : r.cacheFieldsDirty = true) :
    ∃ computed : ResponseHeaders, computed.lines = r.lines.populateMap ∧ computed.statusCode = r.statusCode ∧
      computed.forceCacheTtlMs = r.forceCacheTtlMs ∧ computed.implicitCacheTtlMs = r.implicitCacheTtlMs ∧
      (r.computeCaching t = computed.setDirty false ∨
        r.isImplicit t = true ∧ ∃ dateMs ttlMs suffix,
          r.computeCaching t = (computed.setDateAndCaching t dateMs ttlMs suffix).setDirty false) := by
  have hview := sameView_computeCacheable t r
  unfold computeCaching
  rw [hdirty, if_neg (by decide)]
  split
  · next hcacheable =>
    unfold computeLifetime
    split
    · next himplicit =>
      rw [hview.proxyCacheable, hview.isForceCached, hview.isExplicitlyCacheable] at himplicit
      refine ⟨_, ?_, ?_, ?_, ?_, Or.inr ⟨?_, _, _, _, rfl⟩⟩
      · rfl
      · rfl
      · rfl
      · rfl
      · rw [isImplicit, hcacheable, Bool.true_and]
        exact himplicit
    · refine ⟨_, ?_, ?_, ?_, ?_, Or.inl rfl⟩ <;> rfl
  · refine ⟨_, ?_, ?_, ?_, ?_, Or.inl rfl⟩ <;> rfl

theorem edited_populateMap (r : ResponseHeaders) : Edited r { r with lines := r.lines.populateMap } :=
  @edited_apply r (.lookup []) trivial rfl

theorem Kept.computed (h : Kept t implicit r) (hdirty : r.cacheFieldsDirty = true) (hdate : r.dateKept t = true) :
    Kept t (r.isImplicit t) (r.computeCaching t) := by
  have himplicit : (r.computeCaching t).isImplicitlyCacheable = (r.isImplicitlyCacheable || r.isImplicit t) :=
    congrArg CacheFields.isImplicitlyCacheable (fields_computeCaching t hdirty)
  have hrecorded : r.isImplicit t = true → (r.computeCaching t).isImplicitlyCacheable = true := by
    intro hwritten
    rw [himplicit, hwritten, Bool.or_true]
  have hsettled := settled_computeCaching t h.faithful hdirty hdate
  have hpopulated : r.lines.populateMap.Faithful := h.faithful.populateMap
  have hlength : r.lines.populateMap.headers.length ≤ kMaxHeaders := by
    rw [headers_populateMap]
    exact h.bounded
  obtain ⟨computed, hlines, hstatus, hforce, hoption, heq | ⟨hwritten, dateMs, ttlMs, suffix, heq⟩⟩ :=
    computeCaching_cases t hdirty
  · have hanew : (r.computeCaching t).anew = r.anew := by
      have hheaders : (computed.setDirty false).lines.headers = r.lines.headers := by
        change computed.lines.headers = _
        rw [hlines, headers_populateMap]
      rw [heq, anew, anew, hheaders]
      congr 1
    have hresult : (r.computeCaching t).lines = { r.lines.populateMap with cacheFieldsDirty := false } := by
      rw [heq, ← hlines]
      rfl
    constructor
    · rw [hresult]
      exact hpopulated
    · rw [hresult]
      exact hlength
    · exact hrecorded
    · intro _ _
      unfold Settled
      rw [hanew]
      exact hsettled
  · obtain ⟨lines, hedit, -, hfaithful, hbounded⟩ := edited_setDateAndCaching t computed dateMs ttlMs suffix
    have hresult : (r.computeCaching t).lines = { lines with cacheFieldsDirty := false } := by
      rw [heq, hedit]
      rfl
    constructor
    · rw [hresult]
      exact hfaithful (by rw [hlines]; exact hpopulated)
    · rw [hresult]
      exact hbounded (by rw [hlines]; exact hlength)
    · exact hrecorded
    · intro _ hnot
      rw [hwritten] at hnot
      cases hnot

def Short (r : ResponseHeaders) (directive : GoogleString) : Prop :=
  (∀ header ∈ r.lines.headers, header.value.length < 2 ^ 31) ∧
    (appendedLine (r.values HttpAttributes.kCacheControl) directive).length < 2 ^ 31

theorem sameView_of_lookup {lines : Headers} (hlookup : ∀ name ∈ cachingNames, lines.lookup name = r.lines.lookup name)
    (hcc : parseCacheControl ((lines.lookup HttpAttributes.kCacheControl).getD []) =
      parseCacheControl (r.values HttpAttributes.kCacheControl)) : SameView { r with lines } r :=
  ⟨hlookup, hcc, rfl, rfl, rfl⟩

theorem not_cacheControl : ∀ name ∈ cachingNames, stringCaseEqual HttpAttributes.kCacheControl name = false := by
  decide

theorem clean_values (hf : r.lines.Faithful) (hshort : ∀ header ∈ r.lines.headers, header.value.length < 2 ^ 31) :
    ∀ v ∈ r.values HttpAttributes.kCacheControl, Clean v := by
  intro v hv
  rw [values_eq hf] at hv
  obtain ⟨header, hheader, hname, hv⟩ := mem_linesOf hv
  exact clean_of_mem ((isCommaSeparatedField_congr hname).trans (by decide)) (hshort header hheader) hv

theorem Kept.appendDirective (h : Kept t implicit r) (refused : List GoogleString) {directive : GoogleString}
    (hclean : Clean directive) (hneutral : ∀ cc : CacheControl, cc.parseDirective directive = cc)
    (hshort : Short r directive) : Kept t implicit (r.appendDirective refused directive) := by
  unfold ResponseHeaders.appendDirective
  dsimp only
  split
  · exact h.edited (edited_populateMap r)
  · have hreplaced := h.faithful.replace HttpAttributes.kCacheControl
      (appendedLine (r.values HttpAttributes.kCacheControl) directive)
    refine @Kept.viewed t implicit r h { r.lines.replace HttpAttributes.kCacheControl
      (appendedLine (r.values HttpAttributes.kCacheControl) directive) with cacheFieldsDirty := r.cacheFieldsDirty }
      hreplaced ?_ rfl (sameView_of_lookup ?_ ?_)
    · exact length_add_le _ _ _ ((length_removeAll_le r.lines _).trans h.bounded)
    · intro name hname
      refine (hreplaced.lookup name).trans ?_
      rw [h.faithful.linesOf_replace_other (not_cacheControl name hname), h.faithful.lookup]
    · change parseCacheControl (((r.lines.replace HttpAttributes.kCacheControl _).lookup _).getD []) = _
      rw [hreplaced.lookup, getD_present]
      obtain hline | ⟨hnone, hbefore⟩ := h.faithful.linesOf_replace h.bounded HttpAttributes.kCacheControl
        (appendedLine (r.values HttpAttributes.kCacheControl) directive)
      · rw [hline]
        exact parse_appendedLine (clean_values h.faithful hshort.1) hclean hneutral hshort.2
      · rw [hnone, values_eq h.faithful, hbefore]

theorem Kept.setContentLength (h : Kept t implicit r) (contentLength : ℤ) :
    Kept t implicit (r.setContentLength contentLength) := by
  have hnames : ∀ name ∈ HttpAttributes.kCacheControl :: cachingNames,
      stringCaseEqual HttpAttributes.kXOriginalContentLength name = false ∧
        stringCaseEqual HttpAttributes.kContentLength name = false := by decide
  have hremoved := h.faithful.remove HttpAttributes.kXOriginalContentLength (integer64ToString contentLength)
  have hreplaced := hremoved.replace HttpAttributes.kContentLength (integer64ToString contentLength)
  have hlookup : ∀ name ∈ HttpAttributes.kCacheControl :: cachingNames,
      ((r.lines.remove HttpAttributes.kXOriginalContentLength (integer64ToString contentLength)).2.replace
        HttpAttributes.kContentLength (integer64ToString contentLength)).lookup name = r.lines.lookup name := by
    intro name hname
    rw [hreplaced.lookup, hremoved.linesOf_replace_other (hnames name hname).2,
      h.faithful.linesOf_remove_other (hnames name hname).1, h.faithful.lookup]
  refine @Kept.viewed t implicit r h { (r.lines.remove HttpAttributes.kXOriginalContentLength
    (integer64ToString contentLength)).2.replace HttpAttributes.kContentLength (integer64ToString contentLength) with
      cacheFieldsDirty := r.cacheFieldsDirty } hreplaced ?_ rfl (sameView_of_lookup ?_ ?_)
  · exact length_add_le _ _ _ ((length_removeAll_le _ _).trans (length_remove_le _ _ _ h.bounded))
  · exact fun name hname => hlookup name (List.mem_cons_of_mem _ hname)
  · exact congrArg (fun values => parseCacheControl (Option.getD values [])) (hlookup _ List.mem_cons_self)

inductive Op
  | edit (op : Headers.Op)
  | setStatusCode (code : ℤ)
  | setDate (dateMs : ℤ)
  | setDateAndCaching (dateMs ttlMs : ℤ) (suffix : GoogleString)
  | setCacheControlPublic
  | setCacheControlImmutable
  | setContentLength (contentLength : ℤ)
  | fixDateHeaders (nowMs : ℤ)
  | forceCaching (ttlMs : ℤ)
  | computeCaching

/-- `UpdateFrom` is the one call on the lines that a response has of its own. -/
def editLines (r : ResponseHeaders) : Headers.Op → ResponseHeaders
  | .updateFrom other => r.updateFrom other
  | op => { r with lines := r.lines.apply op }

def apply (t : TimeText) (r : ResponseHeaders) : Op → ResponseHeaders
  | .edit op => r.editLines op
  | .setStatusCode code => r.setStatusCode code
  | .setDate dateMs => r.setDate t dateMs
  | .setDateAndCaching dateMs ttlMs suffix => r.setDateAndCaching t dateMs ttlMs suffix
  | .setCacheControlPublic => r.setCacheControlPublic
  | .setCacheControlImmutable => r.setCacheControlImmutable
  | .setContentLength contentLength => r.setContentLength contentLength
  | .fixDateHeaders nowMs => r.fixDateHeaders t nowMs
  | .forceCaching ttlMs => r.forceCaching t ttlMs
  | .computeCaching => r.computeCaching t

def forced (r : ResponseHeaders) (ttlMs : ℤ) : ResponseHeaders := { r with forceCacheTtlMs := ttlMs }.setDirty true

def computes (t : TimeText) (r : ResponseHeaders) : Op → Option ResponseHeaders
  | .computeCaching => if r.cacheFieldsDirty then some r else none
  | .forceCaching ttlMs => if 0 < ttlMs ∧ r.cacheFieldsDirty = false then some (r.forced ttlMs) else none
  | .fixDateHeaders nowMs =>
    if r.cacheFieldsDirty = false ∧ (r.fixDates t nowMs).cacheFieldsDirty = true then some (r.fixDates t nowMs) else none
  | _ => none

def Sound (t : TimeText) (r : ResponseHeaders) (op : Op) : Prop :=
  (r.computes t op).all (dateKept t) = true ∧
    match op with
    | .edit op => op.Allowed ∧ (op.setsValue = true → r.cacheFieldsDirty = true)
    | .setCacheControlPublic => Short r (ascii "public")
    | .setCacheControlImmutable => Short r (ascii "immutable")
    | _ => True

def nextImplicit (t : TimeText) (implicit : Bool) (r : ResponseHeaders) (op : Op) : Bool :=
  ((r.computes t op).map (isImplicit t)).getD implicit

theorem Kept.editLines (h : Kept t implicit r) {op : Headers.Op} (hallowed : op.Allowed)
    (hset : op.setsValue = true → r.cacheFieldsDirty = true) : Kept t implicit (r.editLines op) := by
  cases op with
  | updateFrom other =>
    have hhooked := hooked_updateFrom (r.setDirty true).lines other
    have hdirtied : (r.setDirty true).lines.Faithful := h.faithful
    have hfaithful : (r.updateFrom other).lines.Faithful := hdirtied.updateFrom other
    have hdirty : (r.updateFrom other).cacheFieldsDirty = true := by
      by_contra hclean
      exact Bool.noConfusion (hhooked (Bool.eq_false_iff.mpr hclean)).1
    exact h.dirty hfaithful (length_apply_le (r.setDirty true).lines (.updateFrom other) h.bounded) hdirty rfl
  | setValue i value =>
    exact h.dirty (h.faithful.apply hallowed) (length_apply_le r.lines (.setValue i value) h.bounded)
      (hset rfl) rfl
  | add name value => exact h.edited (edited_apply r hallowed rfl)
  | remove name value => exact h.edited (edited_apply r hallowed rfl)
  | removeAll name => exact h.edited (edited_apply r hallowed rfl)
  | removeAllFromSortedArray names => exact h.edited (edited_apply r hallowed rfl)
  | removeAllWithPrefix start => exact h.edited (edited_apply r hallowed rfl)
  | removeIfNotIn keep => exact h.edited (edited_apply r hallowed rfl)
  | replace name value => exact h.edited (edited_apply r hallowed rfl)
  | removeCookie cookieName => exact h.edited (edited_apply r hallowed rfl)
  | lookup name => exact h.edited (edited_apply r hallowed rfl)
  | has name => exact h.edited (edited_apply r hallowed rfl)
  | hasCookie name => exact h.edited (edited_apply r hallowed rfl)

theorem parseDirective_public (cc : CacheControl) : cc.parseDirective (ascii "public") = cc :=
  if_pos (stringCaseEqual_iff.mpr rfl)

theorem parseDirective_immutable (cc : CacheControl) : cc.parseDirective (ascii "immutable") = cc := by
  have htests : stringCaseEqual (ascii "immutable") (ascii "public") = false ∧
      stringCaseStartsWith (ascii "immutable") (ascii "private") = false ∧
      stringCaseStartsWith (ascii "immutable") (ascii "no-cache") = false ∧
      stringCaseEqual (ascii "immutable") (ascii "no-store") = false ∧
      stringCaseStartsWith (ascii "immutable") (ascii "s-maxage=") = false ∧
      stringCaseStartsWith (ascii "immutable") (ascii "max-age=") = false ∧
      stringCaseEqual (ascii "immutable") (ascii "must-revalidate") = false ∧
      stringCaseEqual (ascii "immutable") (ascii "proxy-revalidate") = false := by decide
  simp only [CacheControl.parseDirective, htests, Bool.false_eq_true, if_false]

theorem Kept.forced (h : Kept t implicit r) (ttlMs : ℤ) : Kept t implicit (r.forced ttlMs) :=
  h.dirty h.faithful h.bounded rfl rfl

theorem Kept.computeCaching (h : Kept t implicit r) (hdate : (r.computes t .computeCaching).all (dateKept t) = true) :
    Kept t (nextImplicit t implicit r .computeCaching) (r.computeCaching t) := by
  rw [nextImplicit]
  rw [computes] at hdate ⊢
  split
  · next hdirty =>
    rw [if_pos hdirty] at hdate
    exact h.computed hdirty hdate
  · next hclean =>
    rw [computeCaching_of_clean t (Bool.eq_false_iff.mpr hclean)]
    exact h

theorem Kept.forceCaching (h : Kept t implicit r) (ttlMs : ℤ)
    (hdate : (r.computes t (.forceCaching ttlMs)).all (dateKept t) = true) :
    Kept t (nextImplicit t implicit r (.forceCaching ttlMs)) (r.forceCaching t ttlMs) := by
  rw [nextImplicit, ResponseHeaders.forceCaching]
  rw [computes] at hdate ⊢
  split
  · next hforced =>
    rw [if_pos hforced] at hdate
    rw [if_pos hforced.1, hforced.2]
    exact (h.forced ttlMs).computed rfl hdate
  · next hforced =>
    split
    · next hpos =>
      have hdirty : r.cacheFieldsDirty = true := by
        by_contra hclean
        exact hforced ⟨hpos, Bool.eq_false_iff.mpr hclean⟩
      rw [hdirty]
      exact h.forced ttlMs
    · exact h

theorem Kept.fixDateHeaders (h : Kept t implicit r) (nowMs : ℤ)
    (hdate : (r.computes t (.fixDateHeaders nowMs)).all (dateKept t) = true) :
    Kept t (nextImplicit t implicit r (.fixDateHeaders nowMs)) (r.fixDateHeaders t nowMs) := by
  have hfixed := h.edited (edited_fixDates t r nowMs)
  rw [nextImplicit, fixDateHeaders_eq t h.faithful]
  rw [computes] at hdate ⊢
  split
  · next hcomputes =>
    rw [if_pos hcomputes] at hdate
    rw [hcomputes.1]
    exact hfixed.computed hcomputes.2 hdate
  · next hcomputes =>
    split
    · next hclean =>
      have hstill : (r.fixDates t nowMs).cacheFieldsDirty = false := by
        by_contra hdirty
        exact hcomputes ⟨(Bool.not_eq_true' _).mp hclean, Bool.not_eq_false _ |>.mp hdirty⟩
      rw [computeCaching_of_clean t hstill]
      exact hfixed
    · exact hfixed

theorem Kept.apply (h : Kept t implicit r) {op : Op} (hop : Sound t r op) :
    Kept t (nextImplicit t implicit r op) (r.apply t op) := by
  obtain ⟨hdate, hop⟩ := hop
  cases op with
  | edit op => exact h.editLines hop.1 hop.2
  | setStatusCode code => exact h.dirty h.faithful h.bounded rfl rfl
  | setDate dateMs => exact h.edited (edited_setTimeHeader t r _ dateMs)
  | setDateAndCaching dateMs ttlMs suffix => exact h.edited (edited_setDateAndCaching t r dateMs ttlMs suffix)
  | setCacheControlPublic => exact h.appendDirective _ (Or.inl (by decide)) parseDirective_public hop
  | setCacheControlImmutable => exact h.appendDirective _ (Or.inl (by decide)) parseDirective_immutable hop
  | setContentLength contentLength => exact h.setContentLength contentLength
  | fixDateHeaders nowMs => exact h.fixDateHeaders nowMs hdate
  | forceCaching ttlMs => exact h.forceCaching ttlMs hdate
  | computeCaching => exact h.computeCaching hdate

def run (t : TimeText) (r : ResponseHeaders) (ops : List Op) : ResponseHeaders := ops.foldl (apply t) r

def SoundRun (t : TimeText) : ResponseHeaders → List Op → Prop
  | _, [] => True
  | r, op :: ops => Sound t r op ∧ SoundRun t (r.apply t op) ops

def runImplicit (t : TimeText) : Bool → ResponseHeaders → List Op → Bool
  | implicit, _, [] => implicit
  | implicit, r, op :: ops => runImplicit t (nextImplicit t implicit r op) (r.apply t op) ops

theorem Kept.run (h : Kept t implicit r) {ops : List Op} (hops : SoundRun t r ops) :
    Kept t (runImplicit t implicit r ops) (r.run t ops) := by
  induction ops generalizing implicit r with
  | nil => exact h
  | cons op ops ih => exact ih (h.apply hops.1) hops.2

theorem kept_new (t : TimeText) (implicitCacheTtlMs : ℤ) : Kept t false { implicitCacheTtlMs } := by
  constructor
  · exact faithful_of_none rfl
  · exact Nat.zero_le _
  · rintro ⟨⟩
  · intro _ _
    have hdate : ({ implicitCacheTtlMs } : ResponseHeaders).anew.parseDateHeader t HttpAttributes.kDate = none := rfl
    have hcacheable : ({ implicitCacheTtlMs } : ResponseHeaders).anew.isBrowserCacheable t = false := by
      rw [isBrowserCacheable, hdate]
      rfl
    constructor
    · rw [computedFields, hdate, hcacheable]
      exact ⟨rfl, rfl, rfl, by rintro ⟨⟩, rfl, rfl, rfl⟩
    · intro _
      rw [isImplicit, hcacheable]
      rfl

/-- After a last computation the fields are those of a new response with the lines that were there before it, unless
nothing was computed since headers were written; how they came about is known as long as none were. -/
theorem fields_after_run (implicitCacheTtlMs : ℤ) {ops : List Op} (hops : SoundRun t { implicitCacheTtlMs } ops)
    (hlast : Sound t (ResponseHeaders.run t { implicitCacheTtlMs } ops) .computeCaching) :
    ((ResponseHeaders.run t { implicitCacheTtlMs } ops).cacheFieldsDirty = true ∨
        runImplicit t false { implicitCacheTtlMs } ops = false →
      SameFields ((ResponseHeaders.run t { implicitCacheTtlMs } ops).computeCaching t).fields
        ((ResponseHeaders.run t { implicitCacheTtlMs } ops).anew.computeCaching t).fields) ∧
    ((ResponseHeaders.run t { implicitCacheTtlMs } ops).isImplicitlyCacheable = false →
      ((ResponseHeaders.run t { implicitCacheTtlMs } ops).computeCaching t).isImplicitlyCacheable =
        ((ResponseHeaders.run t { implicitCacheTtlMs } ops).anew.computeCaching t).isImplicitlyCacheable) := by
  have hkept := (kept_new t implicitCacheTtlMs).run hops
  generalize ResponseHeaders.run t { implicitCacheTtlMs } ops = r at *
  have hanew : (r.anew.computeCaching t).fields = r.anew.computedFields t := fields_computeCaching t rfl
  have himplicit : (r.anew.computeCaching t).isImplicitlyCacheable = r.anew.isImplicit t :=
    congrArg CacheFields.isImplicitlyCacheable hanew
  rw [hanew, himplicit]
  cases hdirty : r.cacheFieldsDirty with
  | true =>
    have hdate := hlast.1
    rw [computes, if_pos hdirty] at hdate
    obtain ⟨hsame, -⟩ := settled_computeCaching t hkept.faithful hdirty hdate
    have hfields : (r.computeCaching t).isImplicitlyCacheable = (r.isImplicitlyCacheable || r.isImplicit t) :=
      congrArg CacheFields.isImplicitlyCacheable (fields_computeCaching t hdirty)
    constructor
    · exact fun _ => hsame
    · intro hnone
      rw [hfields, hnone, Bool.false_or, (sameView_anew hkept.faithful).isImplicit]
  | false =>
    rw [computeCaching_of_clean t hdirty]
    constructor
    · rintro (hcontra | hexplicit)
      · cases hcontra
      · exact (hkept.settled hdirty hexplicit).1
    · intro hnone
      have hexplicit : runImplicit t false { implicitCacheTtlMs } ops = false := by
        by_contra hwritten
        rw [hkept.recorded (Bool.not_eq_false _ |>.mp hwritten)] at hnone
        cases hnone
      rw [hnone, (hkept.settled hdirty hexplicit).2 hnone]

def restyled : List Op :=
  [.setStatusCode 200, .edit (.add HttpAttributes.kContentType (ascii "text/css")), .setDate 1270493486000,
    .edit (.add HttpAttributes.kCacheControl (ascii "max-age=600")), .computeCaching, .setCacheControlPublic,
    .setContentLength 42, .edit (.replace HttpAttributes.kCacheControl (ascii "max-age=300, private"))]

theorem soundRun_restyled : SoundRun april { implicitCacheTtlMs := 300000 } restyled :=
  ⟨⟨rfl, trivial⟩, ⟨rfl, trivial, nofun⟩, ⟨rfl, trivial⟩, ⟨rfl, trivial, nofun⟩, ⟨by decide, trivial⟩,
    ⟨rfl, by decide, by decide⟩, ⟨rfl, trivial⟩, ⟨rfl, trivial, nofun⟩, trivial⟩

theorem fields_after_restyling :
    SameFields ((ResponseHeaders.run april { implicitCacheTtlMs := 300000 } restyled).computeCaching april).fields
      ((ResponseHeaders.run april { implicitCacheTtlMs := 300000 } restyled).anew.computeCaching april).fields :=
  (fields_after_run 300000 soundRun_restyled ⟨by decide, trivial⟩).1 (Or.inl (by decide))

def unstated : List Op :=
  [.setStatusCode 200, .edit (.add HttpAttributes.kContentType (ascii "text/css")), .setDate 1270493486000,
    .computeCaching]

/-- The headers that a computation writes are found by the next, but the fields still say that they were not there. -/
theorem implicit_is_remembered : ¬ ∀ (t : TimeText) (implicitCacheTtlMs : ℤ) (ops : List Op),
    ((ResponseHeaders.run t { implicitCacheTtlMs } ops).computeCaching t).isImplicitlyCacheable =
      ((ResponseHeaders.run t { implicitCacheTtlMs } ops).anew.computeCaching t).isImplicitlyCacheable := by
  intro hclaim
  have hsame := hclaim april 300000 unstated
  revert hsame
  decide

end ResponseHeaders

end PageSpeed
