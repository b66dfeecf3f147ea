import PageSpeed.Http.CacheFields

/-!
`ResponseHeadersParser` of `kernel/http/response_headers_parser.cc`: the head of a response, byte by
byte, in whatever chunks it comes.
-/

namespace PageSpeed

/-- What `sscanf` reads for `%d`: the number as it is stored in an `int`, and the rest. -/
def scanInt (s : GoogleString) : Option (ℤ × GoogleString) :=
  let (negative, digits) := Decimal.signed (s.dropWhile Decimal.isSpace)
  let number := digits.takeWhile Decimal.isDigit
  if number = [] then none
  else
    let n : ℤ := if negative then -Decimal.value number else Decimal.value number
    some ((max (-2 ^ 63) (min (2 ^ 63 - 1) n)).bmod (2 ^ 32), digits.dropWhile Decimal.isDigit)

namespace ResponseHeaders

def setFirstLine (r : ResponseHeaders) (majorVersion minorVersion statusCode : ℤ) : ResponseHeaders :=
  { r with majorVersion := some majorVersion, minorVersion := some minorVersion }.setStatusCode statusCode

def parseFirstLineHelper (r : ResponseHeaders) (firstLine : GoogleString) : ResponseHeaders :=
  match scanInt (cStr firstLine) with
  | some (majorVersion, 46 :: rest) =>
    match scanInt rest with
    | some (minorVersion, rest) =>
      match scanInt rest with
      | some (status, _) => r.setFirstLine majorVersion minorVersion status
      | none => r
    | none => r
  | _ => r

end ResponseHeaders

structure ResponseHeadersParser where
  responseHeaders : ResponseHeaders
  parsingHttp : Bool := false
  parsingValue : Bool := false
  headersComplete : Bool := false
  skippingOverlongLine : Bool := false
  droppedOverlongLine : Bool := false
  parseName : GoogleString := []
  parseValue : GoogleString := []
  deriving DecidableEq

namespace ResponseHeadersParser

def kMaxHeaderLineBytes : ℕ := 64 * 1024

variable (t : TimeText)

def dropOverlongLine (p : ResponseHeadersParser) : ResponseHeadersParser :=
  { p with
    parsingHttp := false
    skippingOverlongLine := true
    droppedOverlongLine := true
    parseName := []
    parseValue := [] }

def completeHeaders (p : ResponseHeadersParser) : ResponseHeadersParser :=
  { p with
    headersComplete := true
    responseHeaders :=
      (if p.droppedOverlongLine then
        p.responseHeaders.add HttpAttributes.kCacheControl HttpAttributes.kNoCacheMaxAge0
      else p.responseHeaders).computeCaching t }

def endLine (p : ResponseHeadersParser) : ResponseHeadersParser :=
  { p with
    responseHeaders :=
      if p.parsingHttp then p.responseHeaders.parseFirstLineHelper p.parseValue
      else p.responseHeaders.add p.parseName p.parseValue
    parsingHttp := false
    parsingValue := false
    parseName := []
    parseValue := [] }

def addByte (p : ResponseHeadersParser) (c : UInt8) : ResponseHeadersParser :=
  if p.parsingValue && p.parseValue.isEmpty && isHtmlSpace c && c ≠ 12 then p
  else if p.parseName.length + p.parseValue.length ≥ kMaxHeaderLineBytes then p.dropOverlongLine
  else if p.parsingValue then { p with parseValue := p.parseValue ++ [c] }
  else { p with parseName := p.parseName ++ [c] }

def parseByte (p : ResponseHeadersParser) (c : UInt8) : ResponseHeadersParser :=
  if p.skippingOverlongLine then
    if c = 10 then { p with skippingOverlongLine := false, parsingValue := false } else p
  else if c = 47 ∧ p.parseName = ascii "HTTP" then
    if p.responseHeaders.majorVersion.isSome then p else { p with parsingHttp := true, parsingValue := true }
  else if !p.parsingValue && c = 58 then { p with parsingValue := true }
  else if c = 13 then p
  else if c = 10 then if p.parseName = [] then p.completeHeaders t else p.endLine
  else p.addByte c

def parseChunk : ResponseHeadersParser → GoogleString → ResponseHeadersParser × ℕ
  | p, [] => (p, 0)
  | p, c :: text =>
    if (p.parseByte t c).headersComplete then (p.parseByte t c, 1)
    else
      let (next, numConsumed) := parseChunk (p.parseByte t c) text
      (next, numConsumed + 1)

def parseChunks : ResponseHeadersParser → List GoogleString → ResponseHeadersParser
  | p, [] => p
  | p, chunk :: chunks =>
    if (p.parseChunk t chunk).1.headersComplete then (p.parseChunk t chunk).1
    else parseChunks (p.parseChunk t chunk).1 chunks

theorem parseChunk_append (p : ResponseHeadersParser) (text more : GoogleString) :
    (p.parseChunk t (text ++ more)).1 =
      if (p.parseChunk t text).1.headersComplete ∧ text ≠ [] then (p.parseChunk t text).1
      else ((p.parseChunk t text).1.parseChunk t more).1 := by
  induction text generalizing p with
  | nil => simp [parseChunk]
  | cons c text ih =>
    rw [List.cons_append, parseChunk, parseChunk]
    split
    · next hcomplete => rw [if_pos ⟨hcomplete, List.cons_ne_nil _ _⟩]
    · next hcomplete =>
      dsimp only
      rw [ih]
      cases text with
      | nil => simp [parseChunk, hcomplete]
      | cons d text => simp

theorem parseChunks_eq {p : ResponseHeadersParser} (hp : p.headersComplete = false) (chunks : List GoogleString) :
    p.parseChunks t chunks = (p.parseChunk t chunks.flatten).1 := by
  induction chunks generalizing p with
  | nil => rfl
  | cons chunk chunks ih =>
    rw [parseChunks, List.flatten_cons, parseChunk_append]
    split
    · next hcomplete =>
      have hne : chunk ≠ [] := by
        rintro rfl
        rw [parseChunk, hp] at hcomplete
        cases hcomplete
      rw [if_pos ⟨hcomplete, hne⟩]
    · next hcomplete =>
      rw [if_neg (fun h => hcomplete h.1)]
      exact ih (Bool.eq_false_iff.mpr hcomplete)

def endedLine (p : ResponseHeadersParser) (c : UInt8) : Option NameValue :=
  if p.skippingOverlongLine = false ∧ c = 10 ∧ p.parseName ≠ [] ∧ p.parsingHttp = false then
    some ⟨p.parseName, p.parseValue⟩
  else none

def received : ResponseHeadersParser → GoogleString → ResponseHeadersParser
  | p, [] => p
  | p, c :: text => if (p.parseByte t c).headersComplete then p else received (p.parseByte t c) text

def headerLines : ResponseHeadersParser → GoogleString → List NameValue
  | _, [] => []
  | p, c :: text =>
    if (p.parseByte t c).headersComplete then [] else (p.endedLine c).toList ++ headerLines (p.parseByte t c) text

def overlongLines : ResponseHeadersParser → GoogleString → ℕ
  | _, [] => 0
  | p, c :: text =>
    if (p.parseByte t c).headersComplete then 0
    else (if !p.skippingOverlongLine && (p.parseByte t c).skippingOverlongLine then 1 else 0) +
      overlongLines (p.parseByte t c) text

end ResponseHeadersParser

end PageSpeed
