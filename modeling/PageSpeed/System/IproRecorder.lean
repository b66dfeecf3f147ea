import PageSpeed.Http.ResponseHeaders

/-!
What a recorder asks of the headers of a response (`kernel/http/response_headers.cc`,
`system/ipro_recorder.cc`): whether proxies may store it, and the stricter of the origin's and the
server's caching headers.
-/

namespace PageSpeed

def HttpAttributes.kCookie2 : GoogleString := ascii "Cookie2"
def HttpAttributes.kGzip : GoogleString := ascii "gzip"
def HttpAttributes.kDeflate : GoogleString := ascii "deflate"

namespace ContentType

def isImage : ContentType → Bool
  | kPng | kGif | kJpeg | kWebp | kAvif => true
  | _ => false

def isCss : ContentType → Bool
  | kCss => true
  | _ => false

def isJsLike : ContentType → Bool
  | kJavascript | kJson => true
  | _ => false

end ContentType

structure RequestProperties where
  hasCookie : Bool := true
  hasCookie2 : Bool := true
  hasAuthorization : Bool := false

namespace ResponseHeaders

variable (t : TimeText)

def copyFrom (other : ResponseHeaders) : ResponseHeaders := { other with lines := { other.lines with map := none, cookies := false } }

def isErrorStatus (r : ResponseHeaders) : Bool := decide (400 ≤ r.status ∧ r.status ≤ 599)

def findContentLength (r : ResponseHeaders) : Option ℤ :=
  (r.lines.lookup1 HttpAttributes.kContentLength).bind fun value => (Decimal.parse (cStr value)).map Int64.toInt

def isHtmlLike (r : ResponseHeaders) : Bool := r.determineContentType.any ContentType.isHtmlLike

def varyRefuses (r : ResponseHeaders) (p : RequestProperties) (respectVary hasValidator : Bool) (value : GoogleString) :
    Bool :=
  if value.isEmpty || stringCaseEqual HttpAttributes.kAcceptEncoding value then false
  else if stringCaseEqual HttpAttributes.kCookie value then p.hasCookie || !r.isHtmlLike || !hasValidator
  else if stringCaseEqual HttpAttributes.kCookie2 value then p.hasCookie2 || !r.isHtmlLike || !hasValidator
  else respectVary || r.isHtmlLike

/-- `IsProxyCacheable` for a request. -/
def isProxyCacheableFor (r : ResponseHeaders) (p : RequestProperties) (respectVary hasValidator : Bool) : Bool :=
  r.proxyCacheable &&
  !(p.hasAuthorization && !r.lines.hasValueCaseInsensitive HttpAttributes.kCacheControl (ascii "public")) &&
  !(r.values HttpAttributes.kVary).any (r.varyRefuses p respectVary hasValidator)

def setCacheControlMaxAge (r : ResponseHeaders) (ttlMs : ℤ) : ResponseHeaders :=
  let expiring := r.setTimeHeader t HttpAttributes.kExpires (r.dateMs.getD 0 + ttlMs)
  let others := (expiring.values HttpAttributes.kCacheControl).filter fun value =>
    !value.isEmpty && !stringCaseStartsWith value (ascii "max-age")
  let replaced := expiring.replace HttpAttributes.kCacheControl
    (ascii "max-age=" ++ integer64ToString (ttlMs.tdiv kSecondMs) ++ others.flatMap (ascii "," ++ ·))
  if !r.cacheFieldsDirty then replaced.computeCaching t else replaced

end ResponseHeaders

namespace IproRecorder

def kOriginCachingHeaderNames : List GoogleString :=
  [HttpAttributes.kCacheControl, HttpAttributes.kExpires, HttpAttributes.kPragma, HttpAttributes.kSetCookie,
    HttpAttributes.kSetCookie2, HttpAttributes.kVary]

def isOriginCachingHeader (name : GoogleString) : Bool := kOriginCachingHeaderNames.any (stringCaseEqual name)

def isVary (name : GoogleString) : Bool := stringCaseEqual name HttpAttributes.kVary

def varyTokens (r : ResponseHeaders) : List GoogleString :=
  let lines := r.lines.headers.filter fun line => isVary line.name
  let parts := lines.flatMap fun line => (splitStringPieceToVector line.value (ascii ",") true).map trimWhitespace
  let tokens := (parts.filter fun part => !part.isEmpty).map (·.map lowerChar)
  tokens.dedup.mergeSort fun a b => decide (a ≤ b)

def statesLifetime (r : ResponseHeaders) : Bool :=
  r.lines.has HttpAttributes.kExpires || (r.values HttpAttributes.kCacheControl).any fun value =>
    stringCaseStartsWith value (ascii "max-age") || stringCaseStartsWith value (ascii "s-maxage")

/-- `SetOriginCachingHeaders`: the copy that is kept, if the origin states anything about caching. -/
def originCachingHeaders (origin : ResponseHeaders) : Option ResponseHeaders :=
  let lines := origin.lines.headers.filter fun line => isOriginCachingHeader line.name
  let statesCaching := lines.any fun line =>
    [HttpAttributes.kCacheControl, HttpAttributes.kExpires, HttpAttributes.kPragma].any (stringCaseEqual line.name)
  if statesCaching then some (lines.foldl (fun r line => r.add line.name line.value) {}) else none

variable (t : TimeText)

def serverTtlMs (r : ResponseHeaders) (savedCacheControl : Option GoogleString) : ℤ :=
  let server := r.copyFrom
  let server := match savedCacheControl with
    | none => server
    | some value =>
      let removed := server.removeAll HttpAttributes.kCacheControl
      if value.isEmpty then removed else removed.add HttpAttributes.kCacheControl value
  if statesLifetime server then ((server.computeCaching t).cacheTtlMs).getD 0 else -1

def applyOriginCachingHeaders (origin : Option ResponseHeaders) (r : ResponseHeaders)
    (savedCacheControl : Option GoogleString) : ResponseHeaders :=
  match origin with
  | none => r
  | some origin =>
    let ttlMs := serverTtlMs t r savedCacheControl
    let finalVary := varyTokens r
    let removed := (kOriginCachingHeaderNames.filter fun name => !isVary name).foldl ResponseHeaders.removeAll r
    let replaced := (origin.lines.headers.filter fun line => !isVary line.name).foldl
      (fun r line => r.add line.name line.value) removed
    let merged := ((varyTokens origin).filter fun token => !finalVary.contains token).foldl
      (fun r token => r.add HttpAttributes.kVary token) replaced
    let computed := merged.computeCaching t
    if 0 ≤ ttlMs ∧ ttlMs < computed.cacheTtlMs.getD 0 then
      (computed.setCacheControlMaxAge t ttlMs).computeCaching t
    else computed

end IproRecorder

end PageSpeed
