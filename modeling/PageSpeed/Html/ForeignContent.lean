import PageSpeed.Html.HtmlElement

/-!
The sets of elements that the lexer treats apart, and what it keeps about an open element
because of inline SVG and MathML.
-/

namespace PageSpeed.HtmlLexer

open HtmlName (Keyword)

def kImplicitlyClosedHtmlTags : List Keyword :=
  [.kXml, .kArea, .kBase, .kBr, .kCol, .kEmbed, .kHr, .kImg, .kInput, .kKeygen, .kLink, .kMeta, .kParam,
    .kSource, .kTrack, .kWbr]
def kLiteralTags : List Keyword := [.kIframe, .kScript, .kStyle, .kTextarea, .kTitle, .kXmp]

def kForeignBreakoutStartTags : List GoogleString :=
  ["b", "big", "blockquote", "body", "br", "center", "code", "dd", "div", "dl", "dt", "em", "embed", "h1",
    "h2", "h3", "h4", "h5", "h6", "head", "hr", "i", "img", "li", "listing", "menu", "meta", "nobr", "ol", "p",
    "pre", "ruby", "s", "small", "span", "strike", "strong", "sub", "sup", "table", "tt", "u", "ul", "var"].map
    ascii
def kForeignBreakoutFontAttributes : List GoogleString := ["color", "face", "size"].map ascii
def kForeignBreakoutEndTags : List GoogleString := ["br", "p"].map ascii
def kSvgHtmlIntegrationPoints : List GoogleString := ["desc", "foreignobject", "title"].map ascii
def kMathMlTextIntegrationPoints : List GoogleString := ["mi", "mn", "mo", "ms", "mtext"].map ascii
def kMathMlTextIntegrationPointExceptions : List GoogleString := ["malignmark", "mglyph"].map ascii
def kAnnotationXmlHtmlEncodings : List GoogleString := ["application/xhtml+xml", "text/html"].map ascii
def kEndTagsThatDoNotPop : List GoogleString := ["body", "form", "head", "html"].map ascii
def kFormattingElements : List GoogleString :=
  ["a", "b", "big", "code", "em", "font", "i", "nobr", "s", "small", "strike", "strong", "tt", "u"].map ascii
def kEndTagsClosingInScope : List GoogleString :=
  ["address", "applet", "article", "aside", "blockquote", "button", "center", "dd", "details", "dialog",
    "dir", "div", "dl", "dt", "fieldset", "figcaption", "figure", "footer", "h1", "h2", "h3", "h4", "h5", "h6",
    "header", "hgroup", "li", "listing", "main", "marquee", "menu", "nav", "object", "ol", "pre", "search",
    "section", "summary", "ul"].map ascii
def kScopeBoundaries : List GoogleString :=
  ["applet", "caption", "html", "marquee", "object", "table", "td", "template", "th"].map ascii
def kListItemScopeBoundaries : List GoogleString := ["ol", "ul"].map ascii
def kTableFamilyEndTags : List GoogleString :=
  ["caption", "col", "colgroup", "optgroup", "option", "select", "table", "tbody", "td", "template", "tfoot",
    "th", "thead", "tr"].map ascii
def kSpecialHtmlElements : List GoogleString :=
  ["address", "applet", "area", "article", "aside", "base", "basefont", "bgsound", "blockquote", "body",
    "br", "button", "caption", "center", "col", "colgroup", "dd", "details", "dir", "div", "dl", "dt", "embed",
    "fieldset", "figcaption", "figure", "footer", "form", "frame", "frameset", "h1", "h2", "h3", "h4", "h5",
    "h6", "head", "header", "hgroup", "hr", "html", "iframe", "img", "input", "keygen", "li", "link",
    "listing", "main", "marquee", "menu", "meta", "nav", "noembed", "noframes", "noscript", "object", "ol",
    "p", "param", "plaintext", "pre", "script", "search", "section", "select", "source", "style", "summary",
    "table", "tbody", "td", "template", "textarea", "tfoot", "th", "thead", "title", "tr", "track", "ul",
    "wbr", "xmp"].map ascii

def isImplicitlyClosedTag (keyword : Keyword) : Bool := kImplicitlyClosedHtmlTags.contains keyword

def isLiteralTag (keyword : Keyword) : Bool := kLiteralTags.contains keyword

def nameIsOneOf (name : GoogleString) (names : List GoogleString) : Bool :=
  decide (name.length < 32) && names.contains (cString (name.map lowerChar))

def isForeignBreakoutStartTag (element : HtmlElement) : Bool :=
  nameIsOneOf element.nameStr kForeignBreakoutStartTags ||
    stringCaseEqual element.nameStr (ascii "font") &&
      element.attributes.any fun attr => nameIsOneOf attr.nameStr kForeignBreakoutFontAttributes

inductive ElementNamespace
  | kHtml | kSvg | kMathMl
  deriving DecidableEq

structure OpenElementInfo where
  ns : ElementNamespace := .kHtml
  htmlIntegrationPoint : Bool := false
  mathmlTextIntegrationPoint : Bool := false
  annotationXml : Bool := false
  special : Bool := false
  deriving DecidableEq

/-- Only the first `encoding` attribute counts. -/
def hasHtmlEncoding (element : HtmlElement) : Bool :=
  match element.attributes.find? fun attr => stringCaseEqual attr.nameStr (ascii "encoding") with
  | some attr =>
    match attr.decodedValueOrNull with
    | some value => nameIsOneOf value kAnnotationXmlHtmlEncodings
    | none => false
  | none => false

def makeOpenElementInfo (element : HtmlElement) (ns : ElementNamespace) : OpenElementInfo :=
  match ns with
  | .kHtml => {}
  | .kSvg =>
    let point := nameIsOneOf element.nameStr kSvgHtmlIntegrationPoints
    { ns := .kSvg, htmlIntegrationPoint := point, special := point }
  | .kMathMl =>
    let textPoint := nameIsOneOf element.nameStr kMathMlTextIntegrationPoints
    let annotationXml := stringCaseEqual element.nameStr (ascii "annotation-xml")
    { ns := .kMathMl, htmlIntegrationPoint := annotationXml && hasHtmlEncoding element,
      mathmlTextIntegrationPoint := textPoint, annotationXml := annotationXml,
      special := annotationXml || textPoint }

end PageSpeed.HtmlLexer
