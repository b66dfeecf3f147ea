import PageSpeed.Base.Ascii

/-!
`CssTagScanner`: the URLs of `url(..)` and `@import` in a style sheet, transformed while the
text arrives in chunks. A pointer into the contents is the text from there on.
-/

namespace PageSpeed

namespace Css

def isUrlSafe (c : UInt8) : Bool :=
  if 0x21 ≤ c ∧ c ≤ 0x7e then !(ascii " \"'\\()\x7b\x7d[]").contains c else decide (0x80 ≤ c)

def appendEscapedAsciiChar (c : UInt8) : GoogleString :=
  if c = 10 then ascii "\\A "
  else if c = 13 then ascii "\\D "
  else if c = 12 then ascii "\\C "
  else if c = 9 then ascii "\\9 "
  else [92, c]

/-- The loop counts in `int`. -/
def escapeUrl (src : GoogleString) : GoogleString :=
  (src.take (toInt32 src.length).toNat).flatMap fun c => if isUrlSafe c then [c] else appendEscapedAsciiChar c

end Css

namespace CssTagScanner

inductive InputPortion
  | inputIncludesEnd
  | inputDoesNotIncludeEnd
  deriving DecidableEq

inductive LexResult
  | no
  | yes
  | interrupted
  deriving DecidableEq

open InputPortion LexResult

def eatLiteral (inputKind : InputPortion) (expected inp : GoogleString) : LexResult × GoogleString :=
  if expected.isPrefixOf inp then (yes, inp.drop expected.length)
  else if inputKind = inputIncludesEnd then (no, inp)
  else if expected.length ≤ inp.length then (no, inp)
  else (interrupted, inp)

def eatLiteralNoCase (inputKind : InputPortion) (expected inp : GoogleString) : LexResult × GoogleString :=
  if stringCaseStartsWith inp expected then (yes, inp.drop expected.length)
  else if inputKind = inputIncludesEnd then (no, inp)
  else if expected.length ≤ inp.length then (no, inp)
  else (interrupted, inp)

structure Extraction where
  result : LexResult
  rest : GoogleString
  out : GoogleString
  foundTerm : Bool

/-- After white space in a payload, with `n` bytes to look at: what is added to `*out` and left in
`*in`, or `none` where the white space does not lead to the closing character. -/
def lookAhead (n : ℤ) (term : UInt8) (inp : GoogleString) : Option (GoogleString × GoogleString) :=
  let i := ((inp.take n.toNat).takeWhile isHtmlSpace).length
  match (inp.take n.toNat)[i]? with
  | some ahead => if ahead = term then some (inp.take i, inp.drop i) else none
  | none => some ([], if (i : ℤ) = n then inp.drop n.toNat else inp)

def unclosed (inputKind : InputPortion) (originalInput inp out : GoogleString) : Extraction :=
  match inputKind with
  | inputDoesNotIncludeEnd => ⟨interrupted, originalInput, out, false⟩
  | inputIncludesEnd => ⟨yes, inp, out, false⟩

def isSimpleEscape (c : UInt8) : Bool := (ascii ",\"'\\()").contains c

def isNewline (c : UInt8) : Bool := c = 10 ∨ c = 13 ∨ c = 12

/-- The loop of `CssExtractUntil`, in as many turns as there are bytes at most; `int` is the
conversion of a size. -/
def extractLoop (int : ℕ → ℤ) (isString : Bool) (inputKind : InputPortion) (term : UInt8)
    (originalInput : GoogleString) : ℕ → GoogleString → GoogleString → Extraction
  | 0, inp, out => unclosed inputKind originalInput inp out
  | _ + 1, [], out => unclosed inputKind originalInput [] out
  | turns + 1, c :: inp, out =>
    if c = term then ⟨yes, inp, out, true⟩
    else if c = 92 then
      match inp with
      | escapeVal :: inp =>
        if isSimpleEscape escapeVal then
          extractLoop int isString inputKind term originalInput turns inp (out ++ [escapeVal])
        else if isNewline escapeVal ∧ isString then
          extractLoop int isString inputKind term originalInput turns
            (if escapeVal = 13 then (eatLiteral inputKind [10] inp).2 else inp) out
        else ⟨no, inp, out, false⟩
      | [] =>
        match inputKind with
        | inputIncludesEnd => ⟨no, [], out, false⟩
        | inputDoesNotIncludeEnd => ⟨interrupted, originalInput, out, false⟩
    else if !isString && isHtmlSpace c then
      match lookAhead (int inp.length) term inp with
      | some (space, rest) => extractLoop int isString inputKind term originalInput turns rest (out ++ space)
      | none => ⟨yes, c :: inp, out, false⟩
    else if isNewline c then unclosed inputKind originalInput (c :: inp) out
    else extractLoop int isString inputKind term originalInput turns inp (out ++ [c])

def cssExtractUntil (isString : Bool) (inputKind : InputPortion) (term : UInt8) (inp : GoogleString) : Extraction :=
  extractLoop (fun size => toInt32 size) isString inputKind term inp inp.length inp []

def cssExtractString (inputKind : InputPortion) : GoogleString → UInt8 × Extraction
  | [] => (63, ⟨if inputKind = inputDoesNotIncludeEnd then interrupted else no, [], [], false⟩)
  | c :: inp =>
    if c = 39 then (39, cssExtractUntil true inputKind 39 inp)
    else if c = 34 then (34, cssExtractUntil true inputKind 34 inp)
    else (63, ⟨no, c :: inp, [], false⟩)

inductive UrlKind
  | import
  | url
  deriving DecidableEq

structure UrlUse where
  kind : UrlKind
  url : GoogleString
  isQuoted : Bool
  haveTermQuote : Bool
  haveTermParen : Bool
  quote : UInt8

def serializeUrlUse (use : UrlUse) : GoogleString :=
  (if use.kind = .import then ascii "@import " else ascii "url(") ++
    (if use.isQuoted then [use.quote] else []) ++
    Css.escapeUrl use.url ++
    (if use.haveTermQuote then [use.quote] else []) ++
    (if use.haveTermParen then ascii ")" else [])

inductive Turn
  | interrupted
  | passed (use : Option UrlUse) (remaining : GoogleString)

/-- After an `@`. -/
def turnImport (inputPortion : InputPortion) (remaining : GoogleString) : Turn :=
  match eatLiteralNoCase inputPortion (ascii "import") remaining with
  | (yes, remaining) =>
    let (quote, argument) := cssExtractString inputPortion (trimLeadingWhitespace remaining)
    match argument.result with
    | yes => .passed (some ⟨.import, argument.out, true, argument.foundTerm, false, quote⟩) argument.rest
    | interrupted => .interrupted
    | no => .passed none argument.rest
  | (interrupted, _) => .interrupted
  | (no, remaining) => .passed none remaining

/-- After a `u`. -/
def turnUrl (inputPortion : InputPortion) (remaining : GoogleString) : Turn :=
  match eatLiteralNoCase inputPortion (ascii "rl(") remaining with
  | (yes, remaining) =>
    let (quote, quoted) := cssExtractString inputPortion (trimLeadingWhitespace remaining)
    match quoted.result with
    | yes =>
      match eatLiteral inputPortion (ascii ")") (trimLeadingWhitespace quoted.rest) with
      | (yes, remaining) => .passed (some ⟨.url, quoted.out, true, quoted.foundTerm, true, quote⟩) remaining
      | (interrupted, _) => .interrupted
      | (no, remaining) => .passed none remaining
    | interrupted => .interrupted
    | no =>
      let wrapped := cssExtractUntil false inputPortion 41 quoted.rest
      match wrapped.result with
      | yes =>
        .passed (some ⟨.url, trimWhitespace wrapped.out, false, quoted.foundTerm, wrapped.foundTerm, quote⟩)
          wrapped.rest
      | interrupted => .interrupted
      | no => .passed none wrapped.rest
  | (interrupted, _) => .interrupted
  | (no, remaining) => .passed none remaining

def turn (inputPortion : InputPortion) (c : UInt8) (remaining : GoogleString) : Turn :=
  if c = 64 then turnImport inputPortion remaining
  else if c = 117 ∨ c = 85 then turnUrl inputPortion remaining
  else .passed none remaining

inductive TransformStatus
  | success (url : GoogleString)
  | noChange
  | failure

structure Pass where
  ok : Bool
  written : GoogleString
  urls : List GoogleString
  reparse : GoogleString

def writeRange (outBegin outEnd : GoogleString) : GoogleString :=
  if outEnd.length < outBegin.length then outBegin.take (outBegin.length - outEnd.length) else []

/-- The loop of `TransformUrlsStreaming`, in as many turns as there are bytes at most. -/
def transformLoop (transform : GoogleString → TransformStatus) (inputPortion : InputPortion) :
    ℕ → GoogleString → GoogleString → GoogleString → GoogleString → GoogleString → List GoogleString → Pass
  | 0, outBegin, outEnd, _, _, written, urls => ⟨true, written ++ writeRange outBegin outEnd, urls, []⟩
  | _ + 1, outBegin, outEnd, [], _, written, urls => ⟨true, written ++ writeRange outBegin outEnd, urls, []⟩
  | turns + 1, outBegin, outEnd, c :: remaining, reparseCandidate, written, urls =>
    match turn inputPortion c remaining with
    | .interrupted => ⟨true, written ++ writeRange outBegin outEnd, urls, reparseCandidate⟩
    | .passed none remaining =>
      transformLoop transform inputPortion turns outBegin remaining remaining remaining written urls
    | .passed (some use) remaining =>
      match transform use.url with
      | .success url =>
        transformLoop transform inputPortion turns remaining remaining remaining remaining
          (written ++ writeRange outBegin outEnd ++ serializeUrlUse { use with url := url }) (urls ++ [use.url])
      | .failure => ⟨false, written, urls ++ [use.url], []⟩
      | .noChange =>
        transformLoop transform inputPortion turns outBegin remaining remaining remaining written (urls ++ [use.url])

/-- One call, with what an earlier one kept in `reparse_`. -/
def transformUrlsStreaming (transform : GoogleString → TransformStatus) (reparse contents : GoogleString)
    (inputPortion : InputPortion) : Pass :=
  let contents := reparse ++ contents
  transformLoop transform inputPortion contents.length contents contents contents contents [] []

def transformUrls (transform : GoogleString → TransformStatus) (contents : GoogleString) : Pass :=
  transformUrlsStreaming transform [] contents inputIncludesEnd

/-- The next call on the same scanner: what all calls wrote and gave to `Transform`. -/
def Pass.andThen (before : Pass) (transform : GoogleString → TransformStatus) (contents : GoogleString)
    (inputPortion : InputPortion) : Pass :=
  let call := transformUrlsStreaming transform before.reparse contents inputPortion
  ⟨before.ok && call.ok, before.written ++ call.written, before.urls ++ call.urls, call.reparse⟩

def streamed (transform : GoogleString → TransformStatus) (chunks : List GoogleString) (last : GoogleString) : Pass :=
  let start : Pass := ⟨true, [], [], []⟩
  (chunks.foldl (fun pass chunk => pass.andThen transform chunk inputDoesNotIncludeEnd) start).andThen
    transform last inputIncludesEnd

end CssTagScanner

end PageSpeed
