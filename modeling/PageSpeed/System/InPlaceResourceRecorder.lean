import PageSpeed.System.IproRecorder

/-!
`InPlaceResourceRecorder` (`system/in_place_resource_recorder.cc`): a response is judged by its headers while its
body passes by, and is put into the cache when it is complete.
-/

namespace PageSpeed

structure GzipInflater where
  State : Type
  init : GoogleString → Option State
  write : State → GoogleString → State × GoogleString × Bool

def hasGzipMagicBytes (contents : GoogleString) : Bool :=
  decide (10 ≤ contents.length) && [0x1f, 0x8b].isPrefixOf contents

inductive InflatingFetch (σ : Type)
  | plain
  | inflating (s : σ)
  | broken

namespace InflatingFetch

def contentCoding (h : ResponseHeaders) : Option GoogleString :=
  ((h.values HttpAttributes.kContentEncoding).filter fun value => !value.isEmpty).getLast?.bind fun value =>
    if stringCaseEqual value HttpAttributes.kGzip then some HttpAttributes.kGzip
    else if stringCaseEqual value HttpAttributes.kDeflate then some HttpAttributes.kDeflate
    else none

variable (g : GzipInflater)

def headersComplete (h : ResponseHeaders) : InflatingFetch g.State :=
  match contentCoding h with
  | none => plain
  | some coding =>
    match g.init coding with
    | some s => inflating s
    | none => broken

def handleWrite (bytes : GoogleString) : InflatingFetch g.State → InflatingFetch g.State × GoogleString × Bool
  | plain => (plain, bytes, true)
  | inflating s =>
    let (s, out, ok) := g.write s bytes
    (inflating s, out, ok)
  | broken => (broken, [], false)

end InflatingFetch

inductive HeadersKind
  | preliminary
  | full
  deriving DecidableEq

inductive FetchResponseStatus
  | transientError
  | status4xxError
  | uncacheable200
  | uncacheableError
  | empty
  deriving DecidableEq

/-- `HTTPCache::max_cacheable_response_content_length` after the setter; -1 is unlimited. -/
def maxCacheableResponseContentLength (value : Int64) : Int64 := if -1 ≤ value then value else -1

namespace InPlaceResourceRecorder

inductive Counter
  | insertedIntoCache
  | notCacheable
  | failed
  | droppedDueToLoad
  | droppedDueToSize
  | droppedContentType
  | errorStatus
  | skippedTransient
  | empty
  deriving DecidableEq

inductive Effect
  | activeRecordings (n : ℤ)
  | countResource
  | count (c : Counter)
  | rememberFailure (s : FetchResponseStatus)
  | writeError
  | put (h : ResponseHeaders) (contents : GoogleString)

end InPlaceResourceRecorder

structure InPlaceResourceRecorder (g : GzipInflater) where
  requestProperties : RequestProperties
  respectVary : Bool
  maxResponseBytes : ℤ
  maxConcurrentRecordings : Int32
  fetchHeaders : ResponseHeaders := {}
  fetch : Option (InflatingFetch g.State) := none
  resourceValue : GoogleString := []
  originCachingHeaders : Option ResponseHeaders := none
  statusCode : ℤ := -1
  failure : Bool := false
  specificOutcomeRecorded : Bool := false
  fullResponseHeadersConsidered : Bool := false
  considerResponseHeadersCalled : Bool := false
  cacheControlSet : Bool := false
  cacheControl : GoogleString := []
  effects : List InPlaceResourceRecorder.Effect := []

namespace InPlaceResourceRecorder

def canDecodeContentEncoding (h : ResponseHeaders) : Bool :=
  let codings := (h.values HttpAttributes.kContentEncoding).filter fun coding =>
    !(coding.isEmpty || stringCaseEqual coding (ascii "identity"))
  codings.all (fun coding => stringCaseEqual coding HttpAttributes.kGzip ||
    stringCaseEqual coding HttpAttributes.kDeflate) && decide (codings.length ≤ 1)

def isIproContentType (h : ResponseHeaders) : Bool := h.determineContentType.any fun contentType =>
  contentType.isImage || contentType.isCss || contentType.isJsLike

variable {g : GzipInflater}

def emit (e : Effect) (r : InPlaceResourceRecorder g) : InPlaceResourceRecorder g := { r with effects := r.effects ++ [e] }

def limitActiveRecordings (r : InPlaceResourceRecorder g) : Bool := r.maxConcurrentRecordings != 0

def savedCacheControl (r : InPlaceResourceRecorder g) : Option GoogleString :=
  if r.cacheControlSet then some r.cacheControl else none

def recordSpecificOutcome (c : Counter) (r : InPlaceResourceRecorder g) : InPlaceResourceRecorder g :=
  if r.specificOutcomeRecorded then r else { r with specificOutcomeRecorded := true }.emit (.count c)

/-- The more constraining of two limits; the getter of the cache's limit returns an `int`. -/
def responseLimit (maxResponseBytes : Int32) (cacheLimit : Int64) : ℤ :=
  let cacheMaxCl := (maxCacheableResponseContentLength cacheLimit).toInt32.toInt
  if cacheMaxCl ≠ -1 then
    if maxResponseBytes ≤ 0 then cacheMaxCl else min maxResponseBytes.toInt cacheMaxCl
  else maxResponseBytes.toInt

/-- `active` is the number of recordings under way in the process. -/
def construct (g : GzipInflater) (active : ℤ) (requestProperties : RequestProperties) (respectVary : Bool)
    (maxResponseBytes maxConcurrentRecordings : Int32) (cacheLimit : Int64) : InPlaceResourceRecorder g :=
  let r : InPlaceResourceRecorder g :=
    { requestProperties, respectVary, maxConcurrentRecordings
      maxResponseBytes := responseLimit maxResponseBytes cacheLimit
      effects := [.countResource] }
  if r.limitActiveRecordings then
    let r := r.emit (.activeRecordings 1)
    if maxConcurrentRecordings.toInt < active + 1 then
      { r.recordSpecificOutcome .droppedDueToLoad with failure := true }
    else r
  else r

def droppedAsUncacheable (r : InPlaceResourceRecorder g) : InPlaceResourceRecorder g :=
  if r.failure then r
  else
    { r with failure := true }.emit
      (.rememberFailure (if r.statusCode = 200 then .uncacheable200 else .uncacheableError))

def droppedDueToSize (r : InPlaceResourceRecorder g) : InPlaceResourceRecorder g :=
  (r.recordSpecificOutcome .droppedDueToSize).droppedAsUncacheable

def writeToResourceValue (bytes : GoogleString) (r : InPlaceResourceRecorder g) : InPlaceResourceRecorder g :=
  if bytes.isEmpty then r
  else
    let (fetch, out, ok) := (r.fetch.getD (InflatingFetch.headersComplete g r.fetchHeaders)).handleWrite g bytes
    let written := { r with fetch := some fetch, resourceValue := r.resourceValue ++ out, failure := !ok }
    if ok then written else written.emit .writeError

def write (bytes : GoogleString) (r : InPlaceResourceRecorder g) : InPlaceResourceRecorder g × Bool :=
  if r.failure then (r, false)
  else
    let r := r.writeToResourceValue bytes
    if r.maxResponseBytes ≤ 0 ∨ (r.resourceValue.length : ℤ) < r.maxResponseBytes then (r, !r.failure)
    else (r.droppedDueToSize, false)

variable (t : TimeText)

/-- The end of `ConsiderResponseHeaders`, for full headers of a type that is recorded. -/
def considerFullHeaders (h : ResponseHeaders) (r : InPlaceResourceRecorder g) :
    InPlaceResourceRecorder g × ResponseHeaders :=
  let serverAllowsStoring :=
    r.originCachingHeaders.isNone || h.isProxyCacheableFor r.requestProperties r.respectVary false
  let h := IproRecorder.applyOriginCachingHeaders t r.originCachingHeaders h r.savedCacheControl
  if h.isErrorStatus then
    let failureKind := if 400 ≤ r.statusCode ∧ r.statusCode < 500 then .status4xxError else .transientError
    ({ (r.emit (.rememberFailure failureKind)).recordSpecificOutcome .errorStatus with failure := true }, h)
  else if r.statusCode ≠ 200 then ({ r.recordSpecificOutcome .skippedTransient with failure := true }, h)
  else if !(serverAllowsStoring && h.isProxyCacheableFor r.requestProperties r.respectVary false) then
    (r.droppedAsUncacheable.recordSpecificOutcome .notCacheable, h)
  else (r, h)

def contentLengthExceeds (h : ResponseHeaders) (r : InPlaceResourceRecorder g) : Bool :=
  decide (0 < r.maxResponseBytes) && h.findContentLength.any (r.maxResponseBytes < ·)

/-- `ConsiderResponseHeaders` of a body that can be decoded, once the status is noted. -/
def considerDecodable (kind : HeadersKind) (h : ResponseHeaders) (r : InPlaceResourceRecorder g) :
    InPlaceResourceRecorder g × ResponseHeaders :=
  if r.contentLengthExceeds h then (r.droppedDueToSize, h)
  else if (h.lines.has HttpAttributes.kContentType || kind = .full) && !isIproContentType h then
    let r := r.recordSpecificOutcome .droppedContentType
    (if kind = .full then r.droppedAsUncacheable else { r with failure := true }, h)
  else if kind ≠ .full then (r, h)
  else considerFullHeaders t h { r with fullResponseHeadersConsidered := true }

def considerResponseHeaders (kind : HeadersKind) (h : ResponseHeaders) (r : InPlaceResourceRecorder g) :
    InPlaceResourceRecorder g × ResponseHeaders :=
  if r.considerResponseHeadersCalled then considerDecodable t kind h { r with statusCode := h.status }
  else
    let r := { r with considerResponseHeadersCalled := true }
    if canDecodeContentEncoding h then
      considerDecodable t kind h { r with fetchHeaders := h.copyFrom, statusCode := h.status }
    else ({ r.recordSpecificOutcome .skippedTransient with failure := true }, h)

def saveCacheControl (cacheControl : Option GoogleString) (r : InPlaceResourceRecorder g) : InPlaceResourceRecorder g :=
  { r with cacheControlSet := true, cacheControl := cacheControl.getD r.cacheControl }

def setOriginCachingHeaders (origin : ResponseHeaders) (r : InPlaceResourceRecorder g) : InPlaceResourceRecorder g :=
  { r with originCachingHeaders := IproRecorder.originCachingHeaders origin }

def fail (r : InPlaceResourceRecorder g) : InPlaceResourceRecorder g := { r with failure := true }

def storedHeaders (h : ResponseHeaders) (r : InPlaceResourceRecorder g) : ResponseHeaders :=
  let h := if hasGzipMagicBytes r.resourceValue then h else h.removeAll HttpAttributes.kContentEncoding
  let h := h.removeAll HttpAttributes.kContentLength
  if r.cacheControlSet && r.originCachingHeaders.isNone then
    let h := h.removeAll HttpAttributes.kCacheControl
    if r.cacheControl.isEmpty then h else h.add HttpAttributes.kCacheControl r.cacheControl
  else h

def refuseEmpty (r : InPlaceResourceRecorder g) : InPlaceResourceRecorder g :=
  if !r.failure && decide (r.statusCode = 200) && r.resourceValue.isEmpty then
    { (r.emit (.rememberFailure .empty)).recordSpecificOutcome .empty with failure := true }
  else r

/-- `DoneAndSetHeaders` up to the decision. -/
def judge (h : ResponseHeaders) (entireResponseReceived : Bool) (r : InPlaceResourceRecorder g) :
    InPlaceResourceRecorder g × ResponseHeaders :=
  let r := if !entireResponseReceived && !r.failure then r.fail else r
  let (r, h) :=
    if !r.failure && !r.fullResponseHeadersConsidered then considerResponseHeaders t .full h r
    else if !r.failure then (r, IproRecorder.applyOriginCachingHeaders t r.originCachingHeaders h r.savedCacheControl)
    else (r, h)
  (r.refuseEmpty, h)

def settle (h : ResponseHeaders) (r : InPlaceResourceRecorder g) : InPlaceResourceRecorder g :=
  if r.failure then if r.specificOutcomeRecorded then r else r.emit (.count .failed)
  else (r.emit (.put (r.storedHeaders h) r.resourceValue)).emit (.count .insertedIntoCache)

def destruct (r : InPlaceResourceRecorder g) : InPlaceResourceRecorder g :=
  if r.limitActiveRecordings then r.emit (.activeRecordings (-1)) else r

/-- `DoneAndSetHeaders`, which ends in the destructor. -/
def doneAndSetHeaders (h : ResponseHeaders) (entireResponseReceived : Bool) (r : InPlaceResourceRecorder g) :
    InPlaceResourceRecorder g :=
  let (r, h) := r.judge t h entireResponseReceived
  (r.settle h).destruct

inductive Call
  | considerResponseHeaders (kind : HeadersKind) (h : ResponseHeaders)
  | write (bytes : GoogleString)
  | saveCacheControl (cacheControl : Option GoogleString)
  | setOriginCachingHeaders (origin : ResponseHeaders)
  | fail

def step (r : InPlaceResourceRecorder g) : Call → InPlaceResourceRecorder g
  | .considerResponseHeaders kind h => (r.considerResponseHeaders t kind h).1
  | .write bytes => (r.write bytes).1
  | .saveCacheControl cacheControl => r.saveCacheControl cacheControl
  | .setOriginCachingHeaders origin => r.setOriginCachingHeaders origin
  | .fail => r.fail

def run (r : InPlaceResourceRecorder g) (calls : List Call) : InPlaceResourceRecorder g := calls.foldl (step t) r

end InPlaceResourceRecorder

end PageSpeed
