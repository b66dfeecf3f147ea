import PageSpeed.Html.HtmlKeywords

/-!
Elements and the leaf nodes between them. A pointer to an element is its number in the order
of allocation.
-/

namespace PageSpeed

namespace HtmlElement

inductive Style
  | autoClose | implicitClose | explicitClose | briefClose | unclosed | invisible
  deriving DecidableEq

inductive QuoteStyle
  | noQuote | singleQuote | doubleQuote
  deriving DecidableEq

structure Attribute where
  name : HtmlName
  escapedValue : Option GoogleString
  quoteStyle : QuoteStyle
  deriving DecidableEq

end HtmlElement

structure HtmlElement where
  id : ℕ
  parent : Option ℕ
  name : HtmlName
  attributes : List HtmlElement.Attribute
  style : HtmlElement.Style
  deriving DecidableEq

inductive HtmlLeafKind
  | cdata | characters | comment | ieDirective | directive
  deriving DecidableEq

structure HtmlLeafNode where
  kind : HtmlLeafKind
  parent : Option ℕ
  contents : GoogleString
  deriving DecidableEq

/-- The text up to the first NUL, as functions on `const char*` read it. -/
def cString (s : GoogleString) : GoogleString := s.takeWhile (· ≠ 0)

namespace HtmlElement

def keyword (element : HtmlElement) : HtmlName.Keyword := element.name.keyword

def nameStr (element : HtmlElement) : GoogleString := element.name.value

def addEscapedAttribute (element : HtmlElement) (name : HtmlName) (escapedValue : Option GoogleString)
    (quoteStyle : QuoteStyle) : HtmlElement :=
  { element with attributes := element.attributes ++ [⟨name, escapedValue, quoteStyle⟩] }

def Attribute.nameStr (attr : Attribute) : GoogleString := attr.name.value

def Attribute.decodedValueOrNull (attr : Attribute) : Option GoogleString :=
  match attr.escapedValue with
  | some value => (HtmlKeywords.unescape (cString value)).map cString
  | none => none

end HtmlElement

namespace HtmlParse

def newElement (id : ℕ) (parent : Option ℕ) (name : HtmlName) : HtmlElement where
  id := id
  parent := parent
  name := name
  attributes := []
  style := if HtmlKeywords.isOptionallyClosedTag name.keyword then .explicitClose else .autoClose

end HtmlParse

end PageSpeed
