import PageSpeed.Http.ContentType
import PageSpeed.Http.HttpNames

/-!
`CachingHeaders` of `kernel/http/caching_headers.cc` with the policy of `InstawebCacheComputer`:
what the values of a response say about caching it. What is computed on demand there, and kept,
is a function of the values here. Dates are read and written by a library.
-/

namespace PageSpeed

structure TimeText where
  parseTime : GoogleString → Option ℤ
  timeToString : ℤ → Option GoogleString

def TimeText.convertStringToTime (t : TimeText) (s : GoogleString) : Option ℤ := if s = [] then none else t.parseTime s

structure CacheControl where
  isPrivate : Bool := false
  noCache : Bool := false
  noStore : Bool := false
  mustRevalidate : Bool := false
  proxyRevalidate : Bool := false
  maxAgeSeconds : Option ℤ := none
  sMaxAgeSeconds : Option ℤ := none
  deriving DecidableEq

def CacheControl.parseDirective (cc : CacheControl) (value : GoogleString) : CacheControl :=
  if stringCaseEqual value (ascii "public") then cc
  else if stringCaseStartsWith value (ascii "private") then { cc with isPrivate := true }
  else if stringCaseStartsWith value (ascii "no-cache") then { cc with noCache := true }
  else if stringCaseEqual value (ascii "no-store") then { cc with noStore := true }
  else if stringCaseStartsWith value (ascii "s-maxage=") then
    { cc with sMaxAgeSeconds := (stringToInt (substrFrom value 9)).or cc.sMaxAgeSeconds }
  else if stringCaseStartsWith value (ascii "max-age=") then
    { cc with maxAgeSeconds := (stringToInt (substrFrom value 8)).or cc.maxAgeSeconds }
  else if stringCaseEqual value (ascii "must-revalidate") then { cc with mustRevalidate := true }
  else if stringCaseEqual value (ascii "proxy-revalidate") then { cc with proxyRevalidate := true }
  else cc

def parseCacheControl (values : List GoogleString) : CacheControl := values.foldl CacheControl.parseDirective {}

structure CachingHeaders where
  statusCode : ℤ
  values : GoogleString → List GoogleString
  contentType : Option ContentType

namespace CachingHeaders

variable (t : TimeText) (c : CachingHeaders)

def cacheControl : CacheControl := parseCacheControl (c.values HttpAttributes.kCacheControl)

def expiresMs : Option ℤ := (c.values HttpAttributes.kExpires).head?.bind t.convertStringToTime

def expiresInvalid : Bool := !(c.values HttpAttributes.kExpires).isEmpty && (c.expiresMs t).isNone

def isCacheableResourceStatusCode : Bool :=
  c.statusCode = 200 ∨ c.statusCode = 301 ∨ 10001 ≤ c.statusCode ∧ c.statusCode < 10008

def isAllowedCacheableStatusCode : Bool := c.isCacheableResourceStatusCode

def isRedirectStatusCode : Bool :=
  c.statusCode = 301 ∨ c.statusCode = 302 ∨ c.statusCode = 303 ∨ c.statusCode = 307

def isLikelyStaticResourceType : Bool :=
  c.isRedirectStatusCode || c.contentType.any ContentType.isLikelyStaticResource

def hasExplicitNoCacheDirective : Bool :=
  c.cacheControl.noCache || c.cacheControl.noStore || c.cacheControl.sMaxAgeSeconds.any (· ≤ 0) ||
    c.cacheControl.maxAgeSeconds.any (· ≤ 0) || c.expiresInvalid t ||
    (c.values HttpAttributes.kPragma).any (stringCaseEqual · (ascii "no-cache")) ||
    decide (ascii "*" ∈ c.values HttpAttributes.kVary)

/-- The lifetime that `max-age` or `Expires` grants. -/
def grantedLifetimeMs : Option ℤ :=
  match c.cacheControl.maxAgeSeconds with
  | some maxAge => some (1000 * maxAge)
  | none =>
    match c.expiresMs t, c.values HttpAttributes.kDate with
    | some expires, [date] => (t.convertStringToTime date).map fun dateMs => max (expires - dateMs) 0
    | _, _ => none

/-- `s-maxage` only shortens what is granted. -/
def freshnessLifetimeMillis : Option ℤ :=
  if c.hasExplicitNoCacheDirective t then some 0
  else
    (c.grantedLifetimeMs t).map fun lifetime =>
      match c.cacheControl.sMaxAgeSeconds with
      | some sMaxAge => min lifetime (1000 * sMaxAge)
      | none => lifetime

def isHeuristicallyCacheable : Bool :=
  !c.cacheControl.mustRevalidate && c.isCacheableResourceStatusCode && c.isLikelyStaticResourceType

def isCacheable : Bool :=
  match c.freshnessLifetimeMillis t with
  | some lifetime => decide (0 < lifetime)
  | none => c.isHeuristicallyCacheable

def isProxyCacheable : Bool := c.isCacheable t && !c.cacheControl.isPrivate

def isExplicitlyCacheable : Bool := (c.freshnessLifetimeMillis t).any (0 < ·)

end CachingHeaders

end PageSpeed
