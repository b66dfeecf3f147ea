import PageSpeed.Http.ResponseHeaders

/-!
The fields that `ComputeCaching` leaves, as functions of the lines, the status and the options that
it was called with.
-/

namespace PageSpeed.ResponseHeaders

structure CacheFields where
  dateMs : Option ℤ
  browserCacheable : Bool
  proxyCacheable : Bool
  cacheTtlMs : Option ℤ
  expirationTimeMs : Option ℤ
  requiresBrowserRevalidation : Bool
  requiresProxyRevalidation : Bool
  isImplicitlyCacheable : Bool
  deriving DecidableEq

def fields (r : ResponseHeaders) : CacheFields :=
  { dateMs := r.dateMs
    browserCacheable := r.browserCacheable
    proxyCacheable := r.proxyCacheable
    cacheTtlMs := r.cacheTtlMs
    expirationTimeMs := r.expirationTimeMs
    requiresBrowserRevalidation := r.requiresBrowserRevalidation
    requiresProxyRevalidation := r.requiresProxyRevalidation
    isImplicitlyCacheable := r.isImplicitlyCacheable }

variable (t : TimeText)

def computedFields (r : ResponseHeaders) : CacheFields :=
  let date := r.parseDateHeader t HttpAttributes.kDate
  { dateMs := date.or r.dateMs
    browserCacheable := r.isBrowserCacheable t
    proxyCacheable := r.isBrowserCacheable t && r.isProxyCacheable t
    cacheTtlMs := if r.isBrowserCacheable t then some (r.ttlMs t) else r.cacheTtlMs
    expirationTimeMs := some (if r.isBrowserCacheable t then date.getD 0 + r.ttlMs t else 0)
    requiresBrowserRevalidation := r.computer.cacheControl.mustRevalidate
    requiresProxyRevalidation := r.computer.cacheControl.proxyRevalidate || r.computer.cacheControl.mustRevalidate
    isImplicitlyCacheable := r.isImplicitlyCacheable || r.isImplicit t }

theorem fields_setDirty (r : ResponseHeaders) (dirty : Bool) : (r.setDirty dirty).fields = r.fields := rfl

theorem fields_replace (r : ResponseHeaders) (name value : GoogleString) : (r.replace name value).fields = r.fields := rfl

theorem fields_setTimeHeader (r : ResponseHeaders) (header : GoogleString) (timeMs : ℤ) :
    (r.setTimeHeader t header timeMs).fields = r.fields := by
  unfold setTimeHeader
  split <;> rfl

theorem fields_setDateAndCaching (r : ResponseHeaders) (dateMs ttlMs : ℤ) (suffix : GoogleString) :
    (r.setDateAndCaching t dateMs ttlMs suffix).fields = r.fields := by
  rw [setDateAndCaching, fields_replace, fields_setTimeHeader, setDate, fields_setTimeHeader]

theorem theMap_populateMap (h : Headers) : h.populateMap.theMap = h.theMap := by
  cases hmap : h.map with
  | none => rw [Headers.populateMap, hmap, Headers.theMap, Headers.theMap, hmap]; rfl
  | some m => rw [Headers.populateMap, hmap]

/-- The names, but for `Cache-Control`, whose values are looked at. -/
def cachingNames : List GoogleString :=
  [HttpAttributes.kDate, HttpAttributes.kExpires, HttpAttributes.kPragma, HttpAttributes.kVary,
    HttpAttributes.kContentType, HttpAttributes.kSetCookie, HttpAttributes.kSetCookie2]

structure SameView (s r : ResponseHeaders) : Prop where
  lookup : ∀ name ∈ cachingNames, s.lines.lookup name = r.lines.lookup name
  cacheControl : s.computer.cacheControl = r.computer.cacheControl
  statusCode : s.statusCode = r.statusCode
  forceCacheTtlMs : s.forceCacheTtlMs = r.forceCacheTtlMs
  implicitCacheTtlMs : s.implicitCacheTtlMs = r.implicitCacheTtlMs

variable {s r : ResponseHeaders}

theorem SameView.symm (h : SameView s r) : SameView r s :=
  ⟨fun name hname => (h.lookup name hname).symm, h.cacheControl.symm, h.statusCode.symm, h.forceCacheTtlMs.symm,
    h.implicitCacheTtlMs.symm⟩

theorem SameView.trans {q : ResponseHeaders} (h : SameView s r) (h' : SameView r q) : SameView s q :=
  ⟨fun name hname => (h.lookup name hname).trans (h'.lookup name hname), h.cacheControl.trans h'.cacheControl,
    h.statusCode.trans h'.statusCode, h.forceCacheTtlMs.trans h'.forceCacheTtlMs,
    h.implicitCacheTtlMs.trans h'.implicitCacheTtlMs⟩

theorem SameView.values (h : SameView s r) {name : GoogleString} (hname : name ∈ cachingNames) :
    s.values name = r.values name := by
  rw [ResponseHeaders.values, ResponseHeaders.values, h.lookup name hname]

theorem SameView.status (h : SameView s r) : s.status = r.status := by
  rw [ResponseHeaders.status, ResponseHeaders.status, h.statusCode]

theorem SameView.contentType (h : SameView s r) : s.determineContentType = r.determineContentType := by
  rw [determineContentType, determineContentType, h.values (by simp [cachingNames])]

theorem SameView.date (h : SameView s r) :
    s.parseDateHeader t HttpAttributes.kDate = r.parseDateHeader t HttpAttributes.kDate := by
  rw [parseDateHeader, parseDateHeader, Headers.lookup1, Headers.lookup1, h.lookup _ (by simp [cachingNames])]

theorem SameView.freshness (h : SameView s r) :
    s.computer.freshnessLifetimeMillis t = r.computer.freshnessLifetimeMillis t := by
  have hexpires : s.computer.values HttpAttributes.kExpires = r.computer.values HttpAttributes.kExpires :=
    h.values (by simp [cachingNames])
  have hdate : s.computer.values HttpAttributes.kDate = r.computer.values HttpAttributes.kDate :=
    h.values (by simp [cachingNames])
  have hpragma : s.computer.values HttpAttributes.kPragma = r.computer.values HttpAttributes.kPragma :=
    h.values (by simp [cachingNames])
  have hvary : s.computer.values HttpAttributes.kVary = r.computer.values HttpAttributes.kVary :=
    h.values (by simp [cachingNames])
  have hms : s.computer.expiresMs t = r.computer.expiresMs t := by
    rw [CachingHeaders.expiresMs, CachingHeaders.expiresMs, hexpires]
  have hno : s.computer.hasExplicitNoCacheDirective t = r.computer.hasExplicitNoCacheDirective t := by
    rw [CachingHeaders.hasExplicitNoCacheDirective, CachingHeaders.hasExplicitNoCacheDirective, h.cacheControl,
      CachingHeaders.expiresInvalid, CachingHeaders.expiresInvalid, hms, hexpires, hpragma, hvary]
  have hgranted : s.computer.grantedLifetimeMs t = r.computer.grantedLifetimeMs t := by
    rw [CachingHeaders.grantedLifetimeMs, CachingHeaders.grantedLifetimeMs, h.cacheControl, hms, hdate]
  rw [CachingHeaders.freshnessLifetimeMillis, CachingHeaders.freshnessLifetimeMillis, hno, hgranted, h.cacheControl]

theorem SameView.statusTests (h : SameView s r) :
    s.computer.isAllowedCacheableStatusCode = r.computer.isAllowedCacheableStatusCode ∧
      s.computer.isRedirectStatusCode = r.computer.isRedirectStatusCode := by
  have hstatus : s.computer.statusCode = r.computer.statusCode := h.status
  constructor
  · rw [CachingHeaders.isAllowedCacheableStatusCode, CachingHeaders.isAllowedCacheableStatusCode,
      CachingHeaders.isCacheableResourceStatusCode, CachingHeaders.isCacheableResourceStatusCode, hstatus]
  · rw [CachingHeaders.isRedirectStatusCode, CachingHeaders.isRedirectStatusCode, hstatus]

theorem SameView.isCacheable (h : SameView s r) : s.computer.isCacheable t = r.computer.isCacheable t := by
  have htype : s.computer.contentType = r.computer.contentType := h.contentType
  obtain ⟨hallowed, hredirect⟩ := h.statusTests
  rw [CachingHeaders.isAllowedCacheableStatusCode, CachingHeaders.isAllowedCacheableStatusCode] at hallowed
  rw [CachingHeaders.isCacheable, CachingHeaders.isCacheable, h.freshness, CachingHeaders.isHeuristicallyCacheable,
    CachingHeaders.isHeuristicallyCacheable, CachingHeaders.isLikelyStaticResourceType,
    CachingHeaders.isLikelyStaticResourceType, h.cacheControl, hallowed, hredirect, htype]

theorem SameView.isProxyCacheable (h : SameView s r) :
    s.computer.isProxyCacheable t = r.computer.isProxyCacheable t := by
  rw [CachingHeaders.isProxyCacheable, CachingHeaders.isProxyCacheable, h.isCacheable, h.cacheControl]

theorem SameView.isExplicitlyCacheable (h : SameView s r) :
    s.computer.isExplicitlyCacheable t = r.computer.isExplicitlyCacheable t := by
  rw [CachingHeaders.isExplicitlyCacheable, CachingHeaders.isExplicitlyCacheable, h.freshness]

theorem SameView.ownTtlMs (h : SameView s r) : s.ownTtlMs t = r.ownTtlMs t := by
  rw [ResponseHeaders.ownTtlMs, ResponseHeaders.ownTtlMs, h.isExplicitlyCacheable, h.freshness, h.implicitCacheTtlMs]

theorem SameView.forceCachingEnabled (h : SameView s r) : s.forceCachingEnabled = r.forceCachingEnabled := by
  rw [ResponseHeaders.forceCachingEnabled, ResponseHeaders.forceCachingEnabled, h.contentType, h.status,
    h.forceCacheTtlMs]

theorem SameView.isForceCached (h : SameView s r) : s.isForceCached t = r.isForceCached t := by
  rw [ResponseHeaders.isForceCached, ResponseHeaders.isForceCached, h.forceCachingEnabled, h.ownTtlMs,
    h.isProxyCacheable, h.forceCacheTtlMs]

theorem SameView.ttlMs (h : SameView s r) : s.ttlMs t = r.ttlMs t := by
  rw [ResponseHeaders.ttlMs, ResponseHeaders.ttlMs, h.isForceCached, h.ownTtlMs, h.forceCacheTtlMs]

theorem SameView.browserCacheable (h : SameView s r) : s.isBrowserCacheable t = r.isBrowserCacheable t := by
  rw [isBrowserCacheable, isBrowserCacheable, h.date, h.statusTests.1, h.forceCachingEnabled, h.isCacheable]

theorem SameView.proxyCacheable (h : SameView s r) :
    ResponseHeaders.isProxyCacheable t s = ResponseHeaders.isProxyCacheable t r := by
  have hhas : ∀ name ∈ cachingNames, s.lines.has name = r.lines.has name := by
    intro name hname
    exact congrArg Option.isSome (h.lookup name hname)
  rw [ResponseHeaders.isProxyCacheable, ResponseHeaders.isProxyCacheable, guardsCookies, guardsCookies,
    h.isForceCached, h.isProxyCacheable, h.contentType, h.statusTests.2,
    hhas HttpAttributes.kSetCookie (by simp [cachingNames]), hhas HttpAttributes.kSetCookie2 (by simp [cachingNames])]

theorem SameView.isImplicit (h : SameView s r) : s.isImplicit t = r.isImplicit t := by
  rw [ResponseHeaders.isImplicit, ResponseHeaders.isImplicit, h.browserCacheable, h.proxyCacheable, h.isForceCached,
    h.isExplicitlyCacheable]

theorem sameView_computeCacheable (r : ResponseHeaders) : SameView (r.computeCacheable t) r := by
  have hlookup : ∀ name, (r.computeCacheable t).lines.lookup name = r.lines.lookup name := by
    intro name
    exact congrArg (StringMultiMap.lookup · name) (theMap_populateMap r.lines)
  constructor
  · exact fun name _ => hlookup name
  · rw [CachingHeaders.cacheControl, CachingHeaders.cacheControl]
    exact congrArg parseCacheControl (congrArg (Option.getD · []) (hlookup HttpAttributes.kCacheControl))
  · rfl
  · rfl
  · rfl

theorem fields_computeCaching (hdirty : r.cacheFieldsDirty = true) :
    (r.computeCaching t).fields = r.computedFields t := by
  have hview := sameView_computeCacheable t r
  unfold computeCaching computedFields
  rw [hdirty, if_neg (by decide)]
  cases hcacheable : r.isBrowserCacheable t with
  | false =>
    rw [if_neg Bool.false_ne_true, fields_setDirty]
    simp [fields, computeCacheable, isImplicit, hcacheable]
  | true =>
    obtain ⟨dateMs, hsome⟩ : ∃ dateMs, r.parseDateHeader t HttpAttributes.kDate = some dateMs := by
      rw [isBrowserCacheable, Bool.and_eq_true, Bool.and_eq_true] at hcacheable
      exact Option.isSome_iff_exists.mp hcacheable.1.1
    rw [if_pos rfl, fields_setDirty, computeLifetime, hview.proxyCacheable, hview.isForceCached, hview.ttlMs,
      hview.isExplicitlyCacheable]
    dsimp only
    split
    · next himplicit =>
      rw [fields_setDateAndCaching]
      simp_all [fields, computeCacheable, isImplicit]
    · next himplicit =>
      simp only [fields, computeCacheable, isImplicit, hcacheable, hsome, Option.some_or, Option.getD_some, if_true,
        Bool.true_and, Bool.eq_false_iff.mpr himplicit, Bool.or_false]

end PageSpeed.ResponseHeaders
