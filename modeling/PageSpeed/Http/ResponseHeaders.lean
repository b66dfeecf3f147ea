import PageSpeed.Http.CachingHeaders
import PageSpeed.Http.HeaderRemoval

/-!
`ResponseHeaders` of `kernel/http/response_headers.cc`: the lines of a response with its status, and
the fields about caching that are computed from them when they are dirty.
-/

namespace PageSpeed

structure ResponseHeaders where
  lines : Headers := {}
  statusCode : Option ℤ := none
  majorVersion : Option ℤ := none
  minorVersion : Option ℤ := none
  expirationTimeMs : Option ℤ := none
  dateMs : Option ℤ := none
  lastModifiedTimeMs : Option ℤ := none
  cacheTtlMs : Option ℤ := none
  browserCacheable : Bool := false
  proxyCacheable : Bool := false
  requiresBrowserRevalidation : Bool := false
  requiresProxyRevalidation : Bool := false
  isImplicitlyCacheable : Bool := false
  forceCacheTtlMs : ℤ := -1
  forceCached : Bool := false
  implicitCacheTtlMs : ℤ := 300000
  deriving DecidableEq

def kSecondMs : ℤ := 1000
def kMaxAllowedDateDriftMs : ℤ := 180000

def integer64ToString (n : ℤ) : GoogleString :=
  if n < 0 then 45 :: Decimal.digits 20 n.natAbs else Decimal.digits 20 n.natAbs

namespace ResponseHeaders

variable (t : TimeText)

def cacheFieldsDirty (r : ResponseHeaders) : Bool := r.lines.cacheFieldsDirty

def setDirty (r : ResponseHeaders) (dirty : Bool) : ResponseHeaders :=
  { r with lines := { r.lines with cacheFieldsDirty := dirty } }

def values (r : ResponseHeaders) (name : GoogleString) : List GoogleString := (r.lines.lookup name).getD []

def status (r : ResponseHeaders) : ℤ := r.statusCode.getD 0

def parseDateHeader (r : ResponseHeaders) (attr : GoogleString) : Option ℤ :=
  (r.lines.lookup1 attr).bind fun date => t.convertStringToTime (cStr date)

def determineContentType (r : ResponseHeaders) : Option ContentType :=
  (r.values HttpAttributes.kContentType).getLast?.bind fun value =>
    mimeTypeToContentType (((parseContentType value).map Prod.fst).getD [])

def computer (r : ResponseHeaders) : CachingHeaders :=
  { statusCode := r.status, values := r.values, contentType := r.determineContentType }

def add (r : ResponseHeaders) (name value : GoogleString) : ResponseHeaders := { r with lines := r.lines.add name value }

def setStatusCode (r : ResponseHeaders) (code : ℤ) : ResponseHeaders := { r with statusCode := some code }.setDirty true

def replace (r : ResponseHeaders) (name value : GoogleString) : ResponseHeaders :=
  { r with lines := r.lines.replace name value }

def setTimeHeader (r : ResponseHeaders) (header : GoogleString) (timeMs : ℤ) : ResponseHeaders :=
  match t.timeToString timeMs with
  | some timeString => r.replace header timeString
  | none => r

def setDate (r : ResponseHeaders) (dateMs : ℤ) : ResponseHeaders := r.setTimeHeader t HttpAttributes.kDate dateMs

def setDateAndCaching (r : ResponseHeaders) (dateMs ttlMs : ℤ) (cacheControlSuffix : GoogleString) : ResponseHeaders :=
  ((r.setDate t dateMs).setTimeHeader t HttpAttributes.kExpires (dateMs + ttlMs)).replace HttpAttributes.kCacheControl
    (ascii "max-age=" ++ integer64ToString (ttlMs.tdiv kSecondMs) ++ cacheControlSuffix)

def cacheControlValuesToPreserve (r : ResponseHeaders) (preserveSMaxage : Bool) : GoogleString :=
  (if r.lines.hasValueCaseInsensitive HttpAttributes.kCacheControl (ascii "no-transform") then
    ascii ", no-transform" else []) ++
  (if r.lines.hasValueCaseInsensitive HttpAttributes.kCacheControl (ascii "no-store") then
    ascii ", no-store" else []) ++
  if preserveSMaxage then
    ((r.values HttpAttributes.kCacheControl).filter fun value =>
      stringCaseStartsWith value (ascii "s-maxage=")).flatMap (ascii ", " ++ ·)
  else []

def forceCachingEnabled (r : ResponseHeaders) : Bool :=
  decide (0 < r.forceCacheTtlMs ∧ r.status = 200) && !r.determineContentType.any ContentType.isHtmlLike

def guardsCookies (r : ResponseHeaders) : Bool :=
  (r.determineContentType.any ContentType.isHtmlLike || r.computer.isRedirectStatusCode) &&
    (r.lines.has HttpAttributes.kSetCookie || r.lines.has HttpAttributes.kSetCookie2)

def ownTtlMs (r : ResponseHeaders) : ℤ :=
  if r.computer.isExplicitlyCacheable t then (r.computer.freshnessLifetimeMillis t).getD 0 else r.implicitCacheTtlMs

def isForceCached (r : ResponseHeaders) : Bool :=
  r.forceCachingEnabled && (decide (r.ownTtlMs t < r.forceCacheTtlMs) || !r.computer.isProxyCacheable t)

def ttlMs (r : ResponseHeaders) : ℤ := if r.isForceCached t then r.forceCacheTtlMs else r.ownTtlMs t

def isBrowserCacheable (r : ResponseHeaders) : Bool :=
  (r.parseDateHeader t HttpAttributes.kDate).isSome && r.computer.isAllowedCacheableStatusCode &&
    (r.forceCachingEnabled || r.computer.isCacheable t)

def isProxyCacheable (r : ResponseHeaders) : Bool :=
  (r.isForceCached t || r.computer.isProxyCacheable t) && !r.guardsCookies

def isImplicit (r : ResponseHeaders) : Bool :=
  r.isBrowserCacheable t && r.isProxyCacheable t && !r.isForceCached t && !r.computer.isExplicitlyCacheable t

def computeLifetime (r : ResponseHeaders) (dateMs : ℤ) : ResponseHeaders :=
  let computed := { r with
    forceCached := r.isForceCached t
    cacheTtlMs := some (r.ttlMs t)
    expirationTimeMs := some (r.dateMs.getD 0 + r.ttlMs t)
    proxyCacheable := r.isProxyCacheable t }
  if r.isProxyCacheable t && !r.isForceCached t && !r.computer.isExplicitlyCacheable t then
    { computed with isImplicitlyCacheable := true }.setDateAndCaching t dateMs (r.ttlMs t)
      (computed.cacheControlValuesToPreserve true)
  else computed

def computeCacheable (r : ResponseHeaders) : ResponseHeaders :=
  { r with
    lines := r.lines.populateMap
    forceCached := false
    dateMs := (r.parseDateHeader t HttpAttributes.kDate).or r.dateMs
    lastModifiedTimeMs := r.parseDateHeader t HttpAttributes.kLastModified
    browserCacheable := r.isBrowserCacheable t
    requiresBrowserRevalidation := r.computer.cacheControl.mustRevalidate
    requiresProxyRevalidation := r.computer.cacheControl.proxyRevalidate || r.computer.cacheControl.mustRevalidate }

def computeCaching (r : ResponseHeaders) : ResponseHeaders :=
  if !r.cacheFieldsDirty then r
  else if r.isBrowserCacheable t then
    ((r.computeCacheable t).computeLifetime t ((r.parseDateHeader t HttpAttributes.kDate).getD 0)).setDirty false
  else { r.computeCacheable t with expirationTimeMs := some 0, proxyCacheable := false }.setDirty false

def applyTimeDelta (attr : GoogleString) (deltaMs : ℤ) (r : ResponseHeaders) : ResponseHeaders :=
  match r.parseDateHeader t attr with
  | some timeMs => if 0 < timeMs + deltaMs then r.setTimeHeader t attr (timeMs + deltaMs) else r
  | none => r

def removeAll (r : ResponseHeaders) (name : GoogleString) : ResponseHeaders := { r with lines := (r.lines.removeAll name).2 }

/-- The date that `FixDateHeaders` goes by: the one computed before, unless a line has changed since. -/
def knownDate (r : ResponseHeaders) : Option ℤ :=
  if r.cacheFieldsDirty then r.parseDateHeader t HttpAttributes.kDate else r.dateMs

def fixDateHeaders (r : ResponseHeaders) (nowMs : ℤ) : ResponseHeaders :=
  match r.knownDate t with
  | some dateMs =>
    if dateMs < nowMs ∨ nowMs + kMaxAllowedDateDriftMs < dateMs then
      let fixed := (r.setDate t nowMs).applyTimeDelta t HttpAttributes.kExpires (nowMs - dateMs)
      if !r.cacheFieldsDirty then fixed.computeCaching t else fixed
    else r
  | none =>
    let fixed := (((r.setDate t nowMs).setDate t nowMs).removeAll HttpAttributes.kExpires)
    match fixed.parseDateHeader t HttpAttributes.kExpires with
    | some _ =>
      let computed := fixed.computeCaching t
      (match computed.expirationTimeMs with
        | some expirationTimeMs => computed.setTimeHeader t HttpAttributes.kExpires expirationTimeMs
        | none => computed).setDirty false
    | none => if !r.cacheFieldsDirty then fixed.computeCaching t else fixed

def appendDirective (r : ResponseHeaders) (refused : List GoogleString) (directive : GoogleString) : ResponseHeaders :=
  let values := r.values HttpAttributes.kCacheControl
  if values.any fun value => refused.any (stringCaseEqual value) then { r with lines := r.lines.populateMap }
  else
    let joined := joinCollection values (ascii ", ")
    (r.replace HttpAttributes.kCacheControl
      (joined ++ if joined = [] then directive else ascii ", " ++ directive)).setDirty r.cacheFieldsDirty

def setCacheControlPublic (r : ResponseHeaders) : ResponseHeaders :=
  r.appendDirective [ascii "private", ascii "public", ascii "no-cache", ascii "no-store"] (ascii "public")

def setCacheControlImmutable (r : ResponseHeaders) : ResponseHeaders :=
  r.appendDirective [HttpAttributes.kImmutable, ascii "private", ascii "no-cache", ascii "no-store"] (ascii "immutable")

def setContentLength (r : ResponseHeaders) (contentLength : ℤ) : ResponseHeaders :=
  ({ r with
    lines := (r.lines.remove HttpAttributes.kXOriginalContentLength (integer64ToString contentLength)).2 }.replace
      HttpAttributes.kContentLength (integer64ToString contentLength)).setDirty r.cacheFieldsDirty

def forceCaching (r : ResponseHeaders) (ttlMs : ℤ) : ResponseHeaders :=
  if 0 < ttlMs then
    let forced := { r with forceCacheTtlMs := ttlMs }.setDirty true
    if !r.cacheFieldsDirty then forced.computeCaching t else forced
  else r

def updateFrom (r : ResponseHeaders) (other : Headers) : ResponseHeaders :=
  { r with lines := (r.setDirty true).lines.updateFrom other }

end ResponseHeaders

end PageSpeed
