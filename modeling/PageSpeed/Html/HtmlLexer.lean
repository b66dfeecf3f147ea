import PageSpeed.Html.ForeignContent

/-!
`HtmlLexer`: a state machine over bytes, without lookahead. It tells `HtmlParse` of the
elements it opens and closes and of the nodes between them; `calls` is what it has told since
`StartParse`. The back of a C++ vector is the head of a list here, so the sentinel of
`element_stack_` is its last entry.
-/

namespace PageSpeed

inductive HtmlCall
  | addElement (element : HtmlElement)
  | closeElement (element : HtmlElement) (style : HtmlElement.Style)
  | addEvent (node : HtmlLeafNode)
  deriving DecidableEq

namespace HtmlLexer

open HtmlName (Keyword)
open HtmlElement (Style QuoteStyle)

inductive State
  | start
  | tag                -- "<"
  | tagCloseNoName     -- "</"
  | tagClose           -- "</x"
  | tagCloseTerminate  -- "</x "
  | tagOpen            -- "<x"
  | tagBriefClose      -- "<x/" or "<x /" or "<x y/" etc
  | commentStart1      -- "<!"
  | commentStart2      -- "<!-"
  | commentBody        -- "<!--"
  | commentEnd1        -- "-"
  | commentEnd2        -- "--"
  | cdataStart1        -- "<!["
  | cdataStart2        -- "<![C"
  | cdataStart3        -- "<![CD"
  | cdataStart4        -- "<![CDA"
  | cdataStart5        -- "<![CDAT"
  | cdataStart6        -- "<![CDATA"
  | cdataBody          -- "<![CDATA["
  | cdataEnd1          -- "]"
  | cdataEnd2          -- "]]"
  | tagAttribute       -- "<x "
  | tagAttrName        -- "<x y"
  | tagAttrNameSpace   -- "<x y "
  | tagAttrEq          -- "<x y="
  | tagAttrVal         -- "<x y=x" value terminated by whitespace or >
  | tagAttrValDq       -- '<x y="' value terminated by double-quote
  | tagAttrValSq       -- "<x y='" value terminated by single-quote
  | literalTag         -- "<style " or "<iframe ", etc.
  | scriptTag          -- "<script "
  | directive          -- "<!x"
  | bogusComment       -- "<?foo>" or "</?foo>"
  deriving DecidableEq

inductive HtmlCommentEscapeState
  | kNone | kInComment | kDoubleEscaped
  deriving DecidableEq

def kMaxTokenSize : ℕ := 10 * 1024 * 1024

def kMaxNestingDepth : ℕ := 512

end HtmlLexer

open HtmlLexer in
structure HtmlLexer where
  state : State := .start
  token : GoogleString := []
  literal : GoogleString := []
  attrName : GoogleString := []
  attrValue : GoogleString := []
  attrQuote : HtmlElement.QuoteStyle := .noQuote
  hasAttrValue : Bool := false
  element : Option HtmlElement := none
  literalClose : GoogleString := []
  scriptEscapeState : HtmlCommentEscapeState := .kNone
  discardUntilStartState : Bool := false
  elementStack : List (Option HtmlElement) := []
  openElementInfo : List OpenElementInfo := []
  sizeLimitExceeded : Bool := false
  skipParsing : Bool := false
  numBytesParsed : ℤ := 0
  sizeLimit : ℤ := -1
  maxNestingDepth : ℕ := kMaxNestingDepth
  /-- How many elements have been allocated. -/
  numElements : ℕ := 0
  calls : List HtmlCall := []

namespace HtmlLexer

open HtmlName (Keyword)
open HtmlElement (Style QuoteStyle)

def isLegalTagFirstChar (c : UInt8) : Bool := isAlpha c

def isI18nChar (c : UInt8) : Bool := decide (128 ≤ c)

def isLegalTagChar (c : UInt8) : Bool :=
  isI18nChar c || isAlnum c || c = 60 || c = 45 || c = 35 || c = 95 || c = 58

def isLegalAttrNameChar (c : UInt8) : Bool :=
  isI18nChar c || c ≠ 61 && c ≠ 62 && c ≠ 47 && !isHtmlSpace c

/-- Whether `c` after `</script` or `</style` ends the name of the tag. -/
def canEndTag (c : UInt8) : Bool := c = 9 || c = 13 || c = 10 || c = 12 || c = 32 || c = 47 || c = 62

def endsWith (s suffix : GoogleString) : Bool := suffix.isSuffixOf s

def stringCaseEndsWith (s suffix : GoogleString) : Bool :=
  decide (suffix.length ≤ s.length) && stringCaseEqual suffix (s.drop (s.length - suffix.length))

def contains (s part : GoogleString) : Bool := s.tails.any part.isPrefixOf

/-! The stack of open elements. -/

def back (l : HtmlLexer) : Option HtmlElement := l.elementStack.head?.join

def parent (l : HtmlLexer) : Option ℕ := l.back.map (·.id)

def currentInfo (l : HtmlLexer) : OpenElementInfo := l.openElementInfo.head?.getD {}

def inForeignContent (l : HtmlLexer) : Bool := decide (l.currentInfo.ns ≠ .kHtml)

def pushElement (l : HtmlLexer) (element : Option HtmlElement) (info : OpenElementInfo) : HtmlLexer :=
  { l with elementStack := element :: l.elementStack, openElementInfo := info :: l.openElementInfo }

def truncateStack (l : HtmlLexer) (size : ℕ) : HtmlLexer :=
  { l with
    elementStack := l.elementStack.drop (l.elementStack.length - size)
    openElementInfo := l.openElementInfo.drop (l.openElementInfo.length - size) }

def addEvent (l : HtmlLexer) (kind : HtmlLeafKind) (contents : GoogleString) : HtmlLexer :=
  { l with calls := l.calls ++ [.addEvent ⟨kind, l.parent, contents⟩] }

def addElement (l : HtmlLexer) (element : HtmlElement) : HtmlLexer :=
  { l with calls := l.calls ++ [.addElement element] }

def closeElement (l : HtmlLexer) (element : HtmlElement) (style : Style) : HtmlLexer :=
  { l with
    calls := l.calls ++ [.closeElement element style]
    skipParsing := l.skipParsing || l.sizeLimitExceeded }

def popElement (l : HtmlLexer) : Option HtmlElement × HtmlLexer :=
  if l.elementStack = [] then (none, l) else (l.back, l.truncateStack (l.elementStack.length - 1))

def startTagUsesHtmlRules (l : HtmlLexer) (element : HtmlElement) : Bool :=
  let current := l.currentInfo
  if current.ns = .kHtml || current.htmlIntegrationPoint then true
  else if current.mathmlTextIntegrationPoint &&
      !nameIsOneOf element.nameStr kMathMlTextIntegrationPointExceptions then true
  else current.annotationXml && stringCaseEqual element.nameStr (ascii "svg")

/-- The loop of `PopForeignElementsForBreakout` over what is left of the stack. -/
def popForeignLoop : List (Option HtmlElement) → HtmlLexer → HtmlLexer
  | some element :: below, l =>
    if l.currentInfo.ns = .kHtml || l.currentInfo.htmlIntegrationPoint ||
        l.currentInfo.mathmlTextIntegrationPoint then l
    else popForeignLoop below ((l.truncateStack (l.elementStack.length - 1)).closeElement element .unclosed)
  | _, l => l

def popForeignElementsForBreakout (l : HtmlLexer) : HtmlLexer := popForeignLoop l.elementStack l

/-- Closes what is above `closeIndex`. -/
def closeSkipped (closeIndex : ℕ) : List (Option HtmlElement) → HtmlLexer → HtmlLexer
  | some skipped :: below, l =>
    if closeIndex < below.length then
      closeSkipped closeIndex below ((l.truncateStack below.length).closeElement skipped .unclosed)
    else l
  | _, l => l

def popElementsDownTo (l : HtmlLexer) (closeIndex : ℕ) : Option HtmlElement × HtmlLexer :=
  (l.elementStack.reverse[closeIndex]?.join, (closeSkipped closeIndex l.elementStack l).truncateStack closeIndex)

def foreignMatch (tag : GoogleString) : List (Option HtmlElement) → List OpenElementInfo → Option ℕ
  | some element :: below, _ :: infos =>
    if stringCaseEqual element.nameStr tag then some below.length
    else if 1 < below.length ∧ (infos.head?.getD {}).ns = .kHtml then none
    else foreignMatch tag below infos
  | _, _ => none

structure Crossed where
  foreign : Bool := false
  specialHtml : Bool := false

def htmlMatch (tag : GoogleString) :
    List (Option HtmlElement) → List OpenElementInfo → Crossed → Option ℕ
  | some element :: below, info :: infos, crossed =>
    if info.ns ≠ .kHtml then
      if info.special then none else htmlMatch tag below infos { crossed with foreign := true }
    else if stringCaseEqual element.nameStr tag then
      if crossed.foreign && (nameIsOneOf tag kEndTagsThatDoNotPop ||
          nameIsOneOf tag kFormattingElements && crossed.specialHtml) then none
      else some below.length
    else if HtmlKeywords.isContained (HtmlName.lookup tag) element.keyword then none
    else if crossed.foreign && nameIsOneOf element.nameStr kSpecialHtmlElements then
      if nameIsOneOf tag kEndTagsClosingInScope then
        if nameIsOneOf element.nameStr kScopeBoundaries ||
            stringCaseEqual tag (ascii "li") && nameIsOneOf element.nameStr kListItemScopeBoundaries then none
        else htmlMatch tag below infos { crossed with specialHtml := true }
      else if !nameIsOneOf tag kFormattingElements && !nameIsOneOf tag kTableFamilyEndTags &&
          !nameIsOneOf tag kEndTagsThatDoNotPop then none
      else htmlMatch tag below infos { crossed with specialHtml := true }
    else htmlMatch tag below infos crossed
  | _, _, _ => none

/-- The part of `PopElementMatchingTag` that follows the HTML rules. -/
def popElementByHtmlRules (l : HtmlLexer) (tag : GoogleString) : Option HtmlElement × HtmlLexer :=
  match htmlMatch tag l.elementStack l.openElementInfo {} with
  | some closeIndex => l.popElementsDownTo closeIndex
  | none => (none, l)

def popElementMatchingTag (l : HtmlLexer) (tag : GoogleString) : Option HtmlElement × HtmlLexer :=
  if l.inForeignContent then
    if nameIsOneOf tag kForeignBreakoutEndTags then
      l.popForeignElementsForBreakout.popElementByHtmlRules tag
    else match foreignMatch tag l.elementStack l.openElementInfo with
      | some closeIndex => l.popElementsDownTo closeIndex
      | none => l.popElementByHtmlRules tag
  else l.popElementByHtmlRules tag

/-! What is told to `HtmlParse`. -/

def emitLiteral (l : HtmlLexer) : HtmlLexer :=
  if l.literal = [] then { l with state := .start }
  else { l.addEvent .characters l.literal with literal := [], state := .start }

def emitComment (l : HtmlLexer) : HtmlLexer :=
  { l.addEvent (if contains l.token (ascii "[if") || contains l.token (ascii "[endif]") then .ieDirective
      else .comment) l.token with literal := [], token := [], state := .start }

def emitCdata (l : HtmlLexer) : HtmlLexer :=
  { l.addEvent .cdata l.token with literal := [], token := [], state := .start }

def emitDirective (l : HtmlLexer) : HtmlLexer :=
  { l.addEvent .directive l.token with literal := [], token := [], state := .start }

def emitTagClose (l : HtmlLexer) (style : Style) : HtmlLexer :=
  let l :=
    match l.popElementMatchingTag l.token with
    | (some element, l) => l.closeElement element style
    | (none, l) => l.emitLiteral
  { l with literal := [], token := [], state := .start }

def makeElement (l : HtmlLexer) : HtmlLexer :=
  match l.element with
  | some _ => l
  | none =>
    { l with
      element := some (HtmlParse.newElement l.numElements l.parent (HtmlParse.makeName l.token))
      numElements := l.numElements + 1
      token := [] }

def makeElementUnlessDiscarding (l : HtmlLexer) : HtmlLexer := if l.discardUntilStartState then l else l.makeElement

/-- The loop over open elements that the start tag of `element` closes. -/
def autoCloseLoop : List (Option HtmlElement) → HtmlLexer → HtmlElement → HtmlLexer × HtmlElement
  | some openElement :: below, l, element =>
    if HtmlKeywords.isAutoClose openElement.keyword element.keyword then
      let l := (l.truncateStack (l.elementStack.length - 1)).closeElement openElement .autoClose
      autoCloseLoop below l { element with parent := l.parent }
    else (l, element)
  | _, l, element => (l, element)

def elementNamespace (l : HtmlLexer) (element : HtmlElement) (htmlRules : Bool) : ElementNamespace :=
  if !htmlRules then l.currentInfo.ns
  else if stringCaseEqual element.nameStr (ascii "svg") then .kSvg
  else if stringCaseEqual element.nameStr (ascii "math") then .kMathMl
  else .kHtml

def nameInNamespace (element : HtmlElement) (ns : ElementNamespace) : HtmlElement :=
  if ns = .kHtml then element else { element with name := HtmlParse.makeKeywordlessName element.nameStr }

def startElement (l : HtmlLexer) (element : HtmlElement) (ns : ElementNamespace) : HtmlLexer :=
  let l := { l with literal := [] }.addElement element
  let l := { l with
    skipParsing := l.skipParsing || l.sizeLimitExceeded || decide (l.maxNestingDepth ≤ l.elementStack.length) }
  l.pushElement (some element) (makeOpenElementInfo element ns)

def startContent (l : HtmlLexer) (element : HtmlElement) : HtmlLexer :=
  if isLiteralTag element.keyword then
    { l with
      state := if element.keyword = .kScript then .scriptTag else .literalTag
      scriptEscapeState := .kNone
      literalClose := ascii "</" ++ element.nameStr ++ ascii ">" }
  else { l with state := .start }

/-- `EmitTagOpen` from the call of `AddElement` on. -/
def openElement (l : HtmlLexer) (element : HtmlElement) (ns : ElementNamespace) (allowImplicitClose : Bool) :
    HtmlLexer :=
  let l := (l.startElement element ns).startContent element
  let l :=
    if allowImplicitClose && isImplicitlyClosedTag element.keyword then
      { l with token := element.nameStr }.emitTagClose .implicitClose
    else l
  { l with element := none }

def emitElement (l : HtmlLexer) (element : HtmlElement) (htmlRules allowImplicitClose : Bool) : HtmlLexer :=
  let ns := l.elementNamespace element htmlRules
  let element := nameInNamespace element ns
  let (l, element) := if htmlRules then autoCloseLoop l.elementStack l element else (l, element)
  l.openElement element ns allowImplicitClose

def emitTagOpen (l : HtmlLexer) (allowImplicitClose : Bool) : HtmlLexer :=
  if l.discardUntilStartState then { l with state := .start, literal := [] }
  else match l.element with
    | none => l
    | some element =>
      let htmlRules := l.startTagUsesHtmlRules element
      if !htmlRules && isForeignBreakoutStartTag element then
        let l := l.popForeignElementsForBreakout
        l.emitElement { element with parent := l.parent } true allowImplicitClose
      else l.emitElement element htmlRules allowImplicitClose

def emitTagBriefClose (l : HtmlLexer) : HtmlLexer :=
  let l :=
    if l.discardUntilStartState then l
    else match l.popElement with
      | (some element, l) => l.closeElement element .briefClose
      | (none, l) => l
  { l with state := .start }

def makeAttribute (l : HtmlLexer) (hasValue : Bool) : HtmlLexer :=
  let value := if hasValue then some l.attrValue else none
  { l with
    element :=
      if l.discardUntilStartState then l.element
      else l.element.map fun element =>
        element.addEscapedAttribute (HtmlParse.makeName l.attrName) value l.attrQuote
    attrName := []
    hasAttrValue := if hasValue then false else l.hasAttrValue
    attrValue := []
    attrQuote := .noQuote
    state := .tagAttribute }

def makeAttributeIfNamed (l : HtmlLexer) (hasValue : Bool) : HtmlLexer :=
  if l.attrName ≠ [] then l.makeAttribute hasValue else l

def finishAttribute (l : HtmlLexer) (c : UInt8) (hasValue briefClose : Bool) : HtmlLexer :=
  if isHtmlSpace c then { l.makeAttribute hasValue with state := .tagAttribute }
  else if c = 62 then
    let l := (l.makeAttributeIfNamed hasValue).emitTagOpen (!briefClose)
    let l := if briefClose then l.emitTagBriefClose else l
    { l with hasAttrValue := false }
  else l

/-! What one byte does in each state. The byte is already the last one of `literal`. -/

def evalStart (l : HtmlLexer) (c : UInt8) : HtmlLexer :=
  if c = 60 then
    let l := { l with literal := l.literal.dropLast }.emitLiteral
    { l with literal := l.literal ++ [c], state := .tag, discardUntilStartState := false }
  else { l with state := .start }

def evalTag (l : HtmlLexer) (c : UInt8) : HtmlLexer :=
  if c = 47 then { l with state := .tagCloseNoName }
  else if isLegalTagFirstChar c then
    { l with state := .tagOpen, discardUntilStartState := false, token := l.token ++ [c] }
  else if c = 33 then { l with state := .commentStart1 }
  else if c = 63 then { l with state := .bogusComment }
  else l.evalStart c

def evalTagOpen (l : HtmlLexer) (c : UInt8) : HtmlLexer :=
  if isLegalTagChar c then { l with token := l.token ++ [c] }
  else if c = 62 then l.makeElement.emitTagOpen true
  else if c = 47 then { l with state := .tagBriefClose }
  else if isHtmlSpace c then { l with state := .tagAttribute }
  else { l with token := [], state := .start }

def evalTagCloseNoName (l : HtmlLexer) (c : UInt8) : HtmlLexer :=
  if isLegalTagChar c then { l with token := l.token ++ [c], state := .tagClose }
  else if c = 62 then { l with token := [] }.evalStart c
  else { l with state := .bogusComment }

def evalTagClose (l : HtmlLexer) (c : UInt8) : HtmlLexer :=
  if l.state ≠ .tagCloseTerminate ∧ isLegalTagChar c then { l with token := l.token ++ [c] }
  else if isHtmlSpace c then if l.token = [] then l else { l with state := .tagCloseTerminate }
  else if c = 62 then l.emitTagClose .explicitClose
  else { l with token := [] }.evalStart c

def evalDirective (l : HtmlLexer) (c : UInt8) : HtmlLexer :=
  if c = 62 then l.emitDirective else { l with token := l.token ++ [c] }

def evalBogusComment (l : HtmlLexer) (c : UInt8) : HtmlLexer :=
  if c = 62 then { l.emitLiteral with state := .start } else l

def restart (l : HtmlLexer) (c : UInt8) : HtmlLexer :=
  if l.literal = [] then { l with literal := l.literal ++ [c] }.evalStart c
  else
    let l := { l with literal := l.literal.dropLast }.emitLiteral
    { l with literal := l.literal ++ [c] }.evalStart c

def evalCommentStart1 (l : HtmlLexer) (c : UInt8) : HtmlLexer :=
  if c = 45 then { l with state := .commentStart2 }
  else if c = 91 then { l with state := .cdataStart1 }
  else if isLegalTagChar c ∧ c ≠ 60 then { l with state := .directive }.evalDirective c
  else l.restart c

def evalExpected (expected : UInt8) (next : State) (l : HtmlLexer) (c : UInt8) : HtmlLexer :=
  if c = expected then { l with state := next } else l.restart c

def evalCommentStart2 : HtmlLexer → UInt8 → HtmlLexer := evalExpected 45 .commentBody
def evalCdataStart1 : HtmlLexer → UInt8 → HtmlLexer := evalExpected 67 .cdataStart2
def evalCdataStart2 : HtmlLexer → UInt8 → HtmlLexer := evalExpected 68 .cdataStart3
def evalCdataStart3 : HtmlLexer → UInt8 → HtmlLexer := evalExpected 65 .cdataStart4
def evalCdataStart4 : HtmlLexer → UInt8 → HtmlLexer := evalExpected 84 .cdataStart5
def evalCdataStart5 : HtmlLexer → UInt8 → HtmlLexer := evalExpected 65 .cdataStart6
def evalCdataStart6 : HtmlLexer → UInt8 → HtmlLexer := evalExpected 91 .cdataBody

def evalBody (closing : UInt8) (next : State) (l : HtmlLexer) (c : UInt8) : HtmlLexer :=
  if c = closing then { l with state := next } else { l with token := l.token ++ [c] }

def evalEnd1 (closing : UInt8) (next body : State) (l : HtmlLexer) (c : UInt8) : HtmlLexer :=
  if c = closing then { l with state := next }
  else { l with token := l.token ++ [closing, c], state := body }

def evalCommentBody : HtmlLexer → UInt8 → HtmlLexer := evalBody 45 .commentEnd1
def evalCommentEnd1 : HtmlLexer → UInt8 → HtmlLexer := evalEnd1 45 .commentEnd2 .commentBody
def evalCdataBody : HtmlLexer → UInt8 → HtmlLexer := evalBody 93 .cdataEnd1
def evalCdataEnd1 : HtmlLexer → UInt8 → HtmlLexer := evalEnd1 93 .cdataEnd2 .cdataBody

/-- More dashes before the `>` belong to the comment. -/
def evalCommentEnd2 (l : HtmlLexer) (c : UInt8) : HtmlLexer :=
  if c = 62 then { l.emitComment with state := .start }
  else if c = 45 then { l with token := l.token ++ [45] }
  else { l with token := l.token ++ [45, 45, c], state := .commentBody }

def evalCdataEnd2 (l : HtmlLexer) (c : UInt8) : HtmlLexer :=
  if c = 62 then { l.emitCdata with state := .start }
  else { l with token := l.token ++ [93, 93, c], state := .cdataBody }

def evalAttribute (l : HtmlLexer) (c : UInt8) : HtmlLexer :=
  let l := { l.makeElementUnlessDiscarding with attrName := [], attrValue := [] }
  if c = 62 then l.emitTagOpen true
  else if c = 47 then { l with state := .tagBriefClose }
  else if isLegalAttrNameChar c || !isHtmlSpace c then { l with attrName := l.attrName ++ [c], state := .tagAttrName }
  else l

def evalTagBriefClose (l : HtmlLexer) (c : UInt8) : HtmlLexer :=
  if c = 62 then l.makeElementUnlessDiscarding.finishAttribute c l.hasAttrValue true
  else { l.makeAttributeIfNamed l.hasAttrValue with state := .tagAttribute }.evalAttribute c

/-- What ends the name of an attribute, if `c` does. -/
def handleAttributeEnd (l : HtmlLexer) (c : UInt8) : Option HtmlLexer :=
  if c = 61 then some { l with state := .tagAttrEq, hasAttrValue := true }
  else if isHtmlSpace c then some { l with state := .tagAttrNameSpace }
  else if c = 62 then some ((l.makeAttribute false).emitTagOpen true)
  else if c = 47 then some { l with state := .tagBriefClose }
  else none

def evalAttrName (l : HtmlLexer) (c : UInt8) : HtmlLexer :=
  (l.handleAttributeEnd c).getD { l with attrName := l.attrName ++ [c] }

def evalAttrNameSpace (l : HtmlLexer) (c : UInt8) : HtmlLexer :=
  match l.handleAttributeEnd c with
  | some l => l
  | none =>
    let l := l.makeAttribute false
    { l with state := .tagAttrName, attrName := l.attrName ++ [c] }

def evalAttrVal (l : HtmlLexer) (c : UInt8) : HtmlLexer :=
  if isHtmlSpace c || c = 62 then l.finishAttribute c true false else { l with attrValue := l.attrValue ++ [c] }

def evalAttrEq (l : HtmlLexer) (c : UInt8) : HtmlLexer :=
  if c = 34 then { l with attrQuote := .doubleQuote, state := .tagAttrValDq }
  else if c = 39 then { l with attrQuote := .singleQuote, state := .tagAttrValSq }
  else if isHtmlSpace c then l
  else if c = 62 then l.finishAttribute c true false
  else { l with state := .tagAttrVal, attrQuote := .noQuote }.evalAttrVal c

def evalAttrQuoted (quote : UInt8) (l : HtmlLexer) (c : UInt8) : HtmlLexer :=
  if c = quote then l.makeAttribute true else { l with attrValue := l.attrValue ++ [c] }

def evalAttrValDq : HtmlLexer → UInt8 → HtmlLexer := evalAttrQuoted 34
def evalAttrValSq : HtmlLexer → UInt8 → HtmlLexer := evalAttrQuoted 39

/-- What follows the name of an end tag up to the `>` is read as attributes and thrown away. -/
def discardAfterCloseTag (l : HtmlLexer) (c : UInt8) : HtmlLexer :=
  if c = 47 then { l with discardUntilStartState := true, state := .tagBriefClose }
  else if c ≠ 62 then { l with discardUntilStartState := true, state := .tagAttribute }
  else l

def evalLiteralTag (l : HtmlLexer) (c : UInt8) : HtmlLexer :=
  if canEndTag c && !l.literal.isEmpty then
    let prevFragment := l.literal.dropLast
    let closeTagName := l.literalClose.dropLast
    if stringCaseEndsWith prevFragment closeTagName then
      let l := { l with literal := l.literal.take (prevFragment.length - closeTagName.length) }.emitLiteral
      let l := { l with token := closeTagName.drop 2 }.emitTagClose .explicitClose
      l.discardAfterCloseTag c
    else l
  else l

def isScriptHtmlCommentClosing (l : HtmlLexer) (c : UInt8) : Bool := c = 62 && endsWith l.literal (ascii "-->")

/-- `<!--` begins a comment, in which a script may be opened. -/
def beginScriptComment (l : HtmlLexer) (c : UInt8) : HtmlLexer :=
  if c = 45 ∧ l.scriptEscapeState = .kNone ∧ endsWith l.literal (ascii "<!--") then
    { l with scriptEscapeState := .kInComment }
  else l

def evalScriptTag (l : HtmlLexer) (c : UInt8) : HtmlLexer :=
  let l := l.beginScriptComment c
  if canEndTag c && !l.literal.isEmpty then
    let prevFragment := l.literal.dropLast
    if stringCaseEndsWith prevFragment (ascii "</script") then
      if l.scriptEscapeState = .kDoubleEscaped then { l with scriptEscapeState := .kInComment }
      else
        -- The end tag keeps the spelling that the text has.
        let l := { l with
          scriptEscapeState := .kNone
          token := (l.literal.drop (l.literal.length - 8 + 1)).take 6
          literal := l.literal.take (l.literal.length - 8 - 1) }
        let l := l.emitLiteral.emitTagClose .explicitClose
        l.discardAfterCloseTag c
    else if l.scriptEscapeState ≠ .kNone ∧ stringCaseEndsWith prevFragment (ascii "<script") then
      { l with scriptEscapeState := .kDoubleEscaped }
    else if l.isScriptHtmlCommentClosing c then { l with scriptEscapeState := .kNone }
    else l
  else l

def eval (l : HtmlLexer) (c : UInt8) : HtmlLexer :=
  match l.state with
  | .start => l.evalStart c
  | .tag => l.evalTag c
  | .tagOpen => l.evalTagOpen c
  | .tagCloseNoName => l.evalTagCloseNoName c
  | .tagClose => l.evalTagClose c
  | .tagCloseTerminate => l.evalTagClose c
  | .tagBriefClose => l.evalTagBriefClose c
  | .commentStart1 => l.evalCommentStart1 c
  | .commentStart2 => l.evalCommentStart2 c
  | .commentBody => l.evalCommentBody c
  | .commentEnd1 => l.evalCommentEnd1 c
  | .commentEnd2 => l.evalCommentEnd2 c
  | .cdataStart1 => l.evalCdataStart1 c
  | .cdataStart2 => l.evalCdataStart2 c
  | .cdataStart3 => l.evalCdataStart3 c
  | .cdataStart4 => l.evalCdataStart4 c
  | .cdataStart5 => l.evalCdataStart5 c
  | .cdataStart6 => l.evalCdataStart6 c
  | .cdataBody => l.evalCdataBody c
  | .cdataEnd1 => l.evalCdataEnd1 c
  | .cdataEnd2 => l.evalCdataEnd2 c
  | .tagAttribute => l.evalAttribute c
  | .tagAttrName => l.evalAttrName c
  | .tagAttrNameSpace => l.evalAttrNameSpace c
  | .tagAttrEq => l.evalAttrEq c
  | .tagAttrVal => l.evalAttrVal c
  | .tagAttrValDq => l.evalAttrValDq c
  | .tagAttrValSq => l.evalAttrValSq c
  | .literalTag => l.evalLiteralTag c
  | .scriptTag => l.evalScriptTag c
  | .directive => l.evalDirective c
  | .bogusComment => l.evalBogusComment c

/-! One document. -/

def startParse (l : HtmlLexer) : HtmlLexer :=
  { l with
    hasAttrValue := false, attrQuote := .noQuote, state := .start
    elementStack := [none], openElementInfo := [{}]
    element := none, token := [], attrName := [], attrValue := [], literal := []
    sizeLimitExceeded := false, skipParsing := false, numBytesParsed := 0
    scriptEscapeState := .kNone, discardUntilStartState := false
    calls := [] }

def parseByte (l : HtmlLexer) (c : UInt8) : HtmlLexer :=
  if l.skipParsing then l
  else if kMaxTokenSize < l.token.length ∨ kMaxTokenSize < l.attrValue.length ∨
      kMaxTokenSize < l.literal.length ∨ kMaxTokenSize < l.attrName.length then
    { l with sizeLimitExceeded := true, skipParsing := true }
  else { l with literal := l.literal ++ [c] }.eval c

/-- The part of `Parse` before its loop. -/
def countBytes (l : HtmlLexer) (size : ℕ) : HtmlLexer :=
  let numBytesParsed := l.numBytesParsed + size
  { l with
    numBytesParsed := numBytesParsed
    sizeLimitExceeded :=
      l.sizeLimitExceeded || decide (0 < l.sizeLimit) && decide (l.sizeLimit < numBytesParsed) }

def parse (l : HtmlLexer) (text : GoogleString) : HtmlLexer := text.foldl parseByte (l.countBytes text.length)

/-- Closes what is still open, `n` elements. -/
def finishLoop : ℕ → HtmlLexer → HtmlLexer
  | 0, l => l
  | n + 1, l =>
    match l.back with
    | some element =>
      let style := if l.skipParsing then .explicitClose else .unclosed
      finishLoop n ({ l with token := element.nameStr }.emitTagClose style)
    | none => l

def finishParse (l : HtmlLexer) : HtmlLexer :=
  let l := { l with token := [], attrName := [], attrValue := [] }
  let l := if l.literal = [] then l else l.emitLiteral
  { finishLoop (l.elementStack.length - 1) l with element := none }

def startDocument (sizeLimit : ℤ) (maxNestingDepth : ℕ) : HtmlLexer :=
  { ({} : HtmlLexer) with sizeLimit := sizeLimit, maxNestingDepth := maxNestingDepth }.startParse

end HtmlLexer

end PageSpeed
