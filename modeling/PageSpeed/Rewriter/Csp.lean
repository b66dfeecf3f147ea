import PageSpeed.Base.Ascii
import PageSpeed.Base.StringUtil

/-!
`Content-Security-Policy` as `net/instaweb/rewriter/csp.cc` reads it: source expressions, source
lists and policies, and what they permit. URLs and the canonical form of paths are those of
`GoogleUrl`.
-/

namespace PageSpeed.Csp

structure GoogleUrl where
  isAnyValid : Bool
  origin : GoogleString
  scheme : GoogleString
  host : GoogleString
  effectiveIntPort : ℤ
  pathSansQuery : GoogleString

def GoogleUrl.schemeIs (url : GoogleUrl) (scheme : GoogleString) : Bool := url.scheme = scheme

structure UrlLib where
  canonicalizePath : GoogleString → GoogleString
  defaultPortForScheme : GoogleString → ℤ
  isPortGurlUnspecified : ℤ → Bool

inductive Kind
  | kSelf | kSchemeSource | kHostSource | kUnsafeInline | kUnsafeEval | kStrictDynamic | kUnsafeHashedAttributes
  | kHash | kNonce | kUnknown
  deriving DecidableEq

structure UrlData where
  schemePart : GoogleString := []
  hostPart : GoogleString := []
  portPart : GoogleString := []
  pathPart : List GoogleString := []
  pathExactMatch : Bool := false
  deriving DecidableEq

structure CspSourceExpression where
  kind : Kind := .kUnknown
  urlData : UrlData := {}
  deriving DecidableEq

def trimCspWhitespace (input : GoogleString) : GoogleString := trimOws input

def isSchemeContinuation (ch : UInt8) : Bool := isAlnum ch || ch = 43 || ch = 45 || ch = 46

def isBase64Char (ch : UInt8) : Bool := isAlnum ch || ch = 43 || ch = 47 || ch = 45 || ch = 95

def integerToString (i : ℤ) : GoogleString :=
  if i < 0 then 45 :: Decimal.digits 10 i.natAbs else Decimal.digits 10 i.natAbs

namespace CspSourceExpression

def tryParseScheme (input : GoogleString) : Bool × GoogleString × GoogleString :=
  if input.length < 2 ∨ !isAlpha (input.headD 0) then (false, [], input)
  else
    let pos := 1 + (input.tail.takeWhile isSchemeContinuation).length
    if input[pos]? ≠ some 58 then (false, [], input)
    else if pos = input.length - 1 then (true, (input.take pos).map lowerChar, input.drop (pos + 1))
    else if input[pos + 1]? = some 47 ∧ input[pos + 2]? = some 47 then
      (false, (input.take pos).map lowerChar, input.drop (pos + 3))
    else (false, [], input)

def isHostChar (ch : UInt8) : Bool := isAlnum ch || ch = 45 || ch = 46

def parseHost (input : GoogleString) : GoogleString × GoogleString :=
  let (star, input) :=
    if (ascii "*.").isPrefixOf input then (ascii "*.", input.drop 2)
    else if (ascii "*").isPrefixOf input then (ascii "*", input.drop 1)
    else ([], input)
  ((star ++ input.takeWhile isHostChar).map lowerChar, input.dropWhile isHostChar)

def isValidHost (hostPart : GoogleString) : Bool :=
  hostPart ≠ [] && !(hostPart.head? = some 42 && decide (1 < hostPart.length) && hostPart[1]? ≠ some 46) &&
    hostPart ≠ ascii "*."

def parsePort : GoogleString → Option (GoogleString × GoogleString)
  | 58 :: input =>
    match input with
    | [] => none
    | c :: rest =>
      if isDigit c then some ((c :: rest).takeWhile isDigit, (c :: rest).dropWhile isDigit)
      else if c = 42 then some (ascii "*", rest)
      else none
  | input => some ([], input)

def parseAuthority (schemePart input : GoogleString) : Option (UrlData × GoogleString) :=
  if input = [] then none
  else
    let (hostPart, input) := parseHost input
    if isValidHost hostPart then
      match parsePort input with
      | none => none
      | some (portPart, path) =>
        if path ≠ [] ∧ path.head? ≠ some 47 then none else some ({ schemePart, hostPart, portPart }, path)
    else none

def withPath (u : UrlLib) (data : UrlData) (path : GoogleString) : CspSourceExpression :=
  let components := (splitStringPieceToVector path (ascii "/") true).map u.canonicalizePath
  if components.any List.isEmpty then {}
  else
    { kind := .kHostSource
      urlData := { data with
        pathPart := components.map (·.drop 1)
        pathExactMatch := !path.isEmpty && path.getLast? ≠ some 47 } }

def parseBase64 (input : GoogleString) : Bool :=
  let padding := input.dropWhile isBase64Char
  input ≠ [] && (padding = [] || padding = ascii "=" || padding = ascii "==")

def parseQuoted (input : GoogleString) : Kind :=
  if stringCaseEqual input (ascii "unsafe-inline") then .kUnsafeInline
  else if stringCaseEqual input (ascii "unsafe-eval") then .kUnsafeEval
  else if stringCaseEqual input (ascii "unsafe-hashed-attributes") then .kUnsafeHashedAttributes
  else if stringCaseEqual input (ascii "self") then .kSelf
  else if stringCaseEqual input (ascii "strict-dynamic") then .kStrictDynamic
  else if stringCaseStartsWith input (ascii "sha256-") || stringCaseStartsWith input (ascii "sha384-") ||
      stringCaseStartsWith input (ascii "sha512-") then
    if parseBase64 (input.drop 7) then .kHash else .kUnknown
  else if stringCaseStartsWith input (ascii "nonce-") then if parseBase64 (input.drop 6) then .kNonce else .kUnknown
  else .kUnknown

def parse (u : UrlLib) (input : GoogleString) : CspSourceExpression :=
  let input := trimCspWhitespace input
  if input = [] then {}
  else if 2 < input.length ∧ input.head? = some 39 ∧ input.getLast? = some 39 then
    { kind := parseQuoted (input.drop 1).dropLast }
  else
    let (isScheme, schemePart, input) := tryParseScheme input
    if isScheme then { kind := .kSchemeSource, urlData := { schemePart } }
    else
      match parseAuthority schemePart input with
      | none => {}
      | some (data, path) => withPath u data path

def hasDefaultPortForScheme (u : UrlLib) (url : GoogleUrl) : Bool :=
  let port := u.defaultPortForScheme url.scheme
  !u.isPortGurlUnspecified port && port = url.effectiveIntPort

def matchesSelf (u : UrlLib) (originUrl url : GoogleUrl) : Bool :=
  if originUrl.origin = url.origin then true
  else if originUrl.host ≠ url.host then false
  else if originUrl.schemeIs (ascii "http") && url.schemeIs (ascii "https") then
    originUrl.effectiveIntPort = url.effectiveIntPort ||
      hasDefaultPortForScheme u originUrl && hasDefaultPortForScheme u url
  else false

/-- A lone `*`. -/
def isAnyHost (e : CspSourceExpression) : Bool :=
  e.kind = .kHostSource && e.urlData.schemePart = [] && e.urlData.hostPart = ascii "*" && e.urlData.portPart = [] &&
    e.urlData.pathPart = []

def matchesAnyHost (originUrl url : GoogleUrl) : Bool :=
  url.schemeIs (ascii "http") || url.schemeIs (ascii "https") || url.schemeIs (ascii "ws") ||
    url.schemeIs (ascii "wss") || url.scheme = originUrl.scheme

def matchesScheme (data : UrlData) (url : GoogleUrl) : Bool :=
  data.schemePart = [] || url.scheme = data.schemePart ||
    data.schemePart = ascii "http" && url.schemeIs (ascii "https")

def matchesHost (data : UrlData) (originUrl url : GoogleUrl) : Bool :=
  if url.host = [] || data.hostPart = [] then false
  else if data.schemePart = [] && url.scheme ≠ originUrl.scheme &&
      !(originUrl.schemeIs (ascii "http") && url.schemeIs (ascii "https")) then false
  else if data.hostPart.head? = some 42 then (data.hostPart.drop 1).isSuffixOf url.host
  else url.host = data.hostPart

def matchesPort (u : UrlLib) (data : UrlData) (url : GoogleUrl) : Bool :=
  if data.portPart = [] then hasDefaultPortForScheme u url
  else data.portPart = ascii "*" || data.portPart = integerToString url.effectiveIntPort ||
    data.portPart = ascii "80" && url.effectiveIntPort = 443

def matchesPath (data : UrlData) (url : GoogleUrl) : Bool :=
  if data.pathPart = [] then true
  else
    let urlPathList := splitStringPieceToVector url.pathSansQuery (ascii "/") true
    if urlPathList.length < data.pathPart.length then false
    else if data.pathExactMatch && urlPathList.length ≠ data.pathPart.length then false
    else data.pathPart.isPrefixOf urlPathList

def matchesAuthority (u : UrlLib) (data : UrlData) (originUrl url : GoogleUrl) : Bool :=
  matchesScheme data url && matchesHost data originUrl url && matchesPort u data url

def «matches» (u : UrlLib) (e : CspSourceExpression) (originUrl url : GoogleUrl) : Bool :=
  if e.kind ≠ .kSelf ∧ e.kind ≠ .kSchemeSource ∧ e.kind ≠ .kHostSource then false
  else if !originUrl.isAnyValid || !url.isAnyValid then false
  else if e.kind = .kSelf then matchesSelf u originUrl url
  else if e.isAnyHost then matchesAnyHost originUrl url
  else if e.kind = .kSchemeSource then matchesScheme e.urlData url
  else matchesAuthority u e.urlData originUrl url && matchesPath e.urlData url

end CspSourceExpression

structure CspSourceList where
  expressions : List CspSourceExpression := []
  sawUnsafeInline : Bool := false
  sawUnsafeEval : Bool := false
  sawStrictDynamic : Bool := false
  sawUnsafeHashedAttributes : Bool := false
  sawHash : Bool := false
  sawNonce : Bool := false
  deriving DecidableEq

namespace CspSourceList

def see (result : CspSourceList) (expr : CspSourceExpression) : CspSourceList :=
  match expr.kind with
  | .kUnknown => result
  | .kUnsafeInline => { result with sawUnsafeInline := true }
  | .kUnsafeEval => { result with sawUnsafeEval := true }
  | .kStrictDynamic => { result with sawStrictDynamic := true }
  | .kUnsafeHashedAttributes => { result with sawUnsafeHashedAttributes := true }
  | .kHash => { result with sawHash := true }
  | .kNonce => { result with sawNonce := true }
  | _ => { result with expressions := result.expressions ++ [expr] }

/-- A single `'none'` is an empty list. -/
def parse (u : UrlLib) (input : GoogleString) : CspSourceList :=
  let tokens := splitStringPieceToVector (trimCspWhitespace input) (ascii " ") true
  if tokens.length = 1 ∧ stringCaseEqual (tokens.headD []) (ascii "'none'") then {}
  else tokens.foldl (fun result token => result.see (CspSourceExpression.parse u (trimCspWhitespace token))) {}

def sawHashOrNonce (l : CspSourceList) : Bool := l.sawHash || l.sawNonce

def «matches» (u : UrlLib) (l : CspSourceList) (originUrl url : GoogleUrl) : Bool :=
  l.expressions.any fun expr => expr.matches u originUrl url

def hasSchemeSource (l : CspSourceList) (scheme : GoogleString) : Bool :=
  l.expressions.any fun expr => expr.kind = .kSchemeSource && expr.urlData.schemePart = scheme

end CspSourceList

inductive CspDirective
  | kChildSrc | kConnectSrc | kDefaultSrc | kFrameSrc | kImgSrc | kScriptSrc | kScriptSrcAttr | kScriptSrcElem
  | kStyleSrc | kStyleSrcAttr | kStyleSrcElem | kBaseUri
  deriving DecidableEq

/-- The table of `csp_directive.gperf`, in which case does not matter. -/
def cspDirectives : List (GoogleString × CspDirective) :=
  [(ascii "child-src", .kChildSrc), (ascii "connect-src", .kConnectSrc), (ascii "default-src", .kDefaultSrc),
    (ascii "frame-src", .kFrameSrc), (ascii "img-src", .kImgSrc), (ascii "script-src", .kScriptSrc),
    (ascii "script-src-attr", .kScriptSrcAttr), (ascii "script-src-elem", .kScriptSrcElem),
    (ascii "style-src", .kStyleSrc), (ascii "style-src-attr", .kStyleSrcAttr),
    (ascii "style-src-elem", .kStyleSrcElem), (ascii "base-uri", .kBaseUri)]

def lookupCspDirective (name : GoogleString) : Option CspDirective :=
  (cspDirectives.find? fun entry => stringCaseEqual entry.1 name).map Prod.snd

structure CspPolicy where
  sourceListFor : CspDirective → Option CspSourceList

namespace CspPolicy

def empty : CspPolicy := ⟨fun _ => none⟩

def setIfAbsent (policy : CspPolicy) (name : GoogleString) (list : CspSourceList) : CspPolicy :=
  match lookupCspDirective name with
  | none => policy
  | some directive =>
    if (policy.sourceListFor directive).isSome then policy
    else ⟨Function.update policy.sourceListFor directive (some list)⟩

def addDirective (u : UrlLib) (policy : CspPolicy) (token : GoogleString) : CspPolicy :=
  let token := trimCspWhitespace token
  let name := token.takeWhile (!isOws ·)
  if name.length < token.length then
    policy.setIfAbsent name (CspSourceList.parse u (token.drop (name.length + 1)))
  else policy.setIfAbsent token {}

def parse (u : UrlLib) (input : GoogleString) : Option CspPolicy :=
  let tokens := splitStringPieceToVector (trimCspWhitespace input) (ascii ";") true
  if tokens = [] then none else some (tokens.foldl (addDirective u) empty)

def effectiveSourceList (p : CspPolicy) (specific base : CspDirective) : Option CspSourceList :=
  ((p.sourceListFor specific).or (p.sourceListFor base)).or (p.sourceListFor .kDefaultSrc)

def permitsEval (p : CspPolicy) : Bool :=
  match (p.sourceListFor .kScriptSrc).or (p.sourceListFor .kDefaultSrc) with
  | none => true
  | some list => list.sawUnsafeEval

def permitsInline (p : CspPolicy) (specific base : CspDirective) : Bool :=
  match p.effectiveSourceList specific base with
  | none => true
  | some list => if list.sawStrictDynamic then false else list.sawUnsafeInline && !list.sawHashOrNonce

def permitsInlineScript (p : CspPolicy) : Bool := p.permitsInline .kScriptSrcElem .kScriptSrc
def permitsInlineStyle (p : CspPolicy) : Bool := p.permitsInline .kStyleSrcElem .kStyleSrc
def permitsInlineStyleAttribute (p : CspPolicy) : Bool := p.permitsInline .kStyleSrcAttr .kStyleSrc

def permitsInlineScriptAttribute (p : CspPolicy) : Bool :=
  match p.effectiveSourceList .kScriptSrcAttr .kScriptSrc with
  | none => true
  | some list =>
    if list.sawStrictDynamic && !list.sawUnsafeHashedAttributes then false
    else list.sawUnsafeInline && !list.sawHashOrNonce

def canModifyInline (p : CspPolicy) (specific base : CspDirective) : Bool :=
  match p.effectiveSourceList specific base with
  | none => true
  | some list => !list.sawHash && (list.sawNonce || list.sawUnsafeInline && !list.sawStrictDynamic)

def canModifyInlineScript (p : CspPolicy) : Bool := p.canModifyInline .kScriptSrcElem .kScriptSrc
def canModifyInlineStyle (p : CspPolicy) : Bool := p.canModifyInline .kStyleSrcElem .kStyleSrc

def permitsDataImage (p : CspPolicy) : Bool :=
  match p.effectiveSourceList .kImgSrc .kImgSrc with
  | none => true
  | some list => list.hasSchemeSource (ascii "data")

def roleSourceList (p : CspPolicy) : CspDirective → Option (Option CspSourceList)
  | .kScriptSrc => some (p.effectiveSourceList .kScriptSrcElem .kScriptSrc)
  | .kStyleSrc => some (p.effectiveSourceList .kStyleSrcElem .kStyleSrc)
  | .kImgSrc => some (p.effectiveSourceList .kImgSrc .kImgSrc)
  | _ => none

def canLoadUrl (u : UrlLib) (role : CspDirective) (originUrl url : GoogleUrl) (p : CspPolicy) : Bool :=
  match p.roleSourceList role with
  | none => false
  | some none => true
  | some (some list) => list.matches u originUrl url

end CspPolicy

abbrev CspContext := List CspPolicy

namespace CspContext

def addPolicy (context : CspContext) : Option CspPolicy → CspContext
  | none => context
  | some policy => context ++ [policy]

def allPermit (context : CspContext) (predicate : CspPolicy → Bool) : Bool := context.all predicate

end CspContext

end PageSpeed.Csp
