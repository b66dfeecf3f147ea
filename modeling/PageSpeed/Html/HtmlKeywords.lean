import PageSpeed.Html.HtmlName

/-!
`HtmlKeywords`: the tables of elements that close one another, and the unescaping of
attribute values. A table the source sorts for binary search is a list here.
-/

namespace PageSpeed.HtmlKeywords

open HtmlName (Keyword)

def kTableLeaves : List Keyword := [.kTd, .kTh]
def kTableSections : List Keyword := [.kTbody, .kTfoot, .kThead]
def kTableElements : List Keyword := [.kTd, .kTh, .kTbody, .kTfoot, .kThead, .kTable, .kTr]
def kFormattingElements : List Keyword :=
  [.kB, .kI, .kEm, .kFont, .kStrong, .kSmall, .kS, .kCite, .kQ, .kDfn, .kAbbr, .kTime, .kCode, .kVar, .kSamp,
    .kKbd, .kSub, .kU, .kMark, .kBdi, .kBdo]
def kListElements : List Keyword := [.kLi, .kOl, .kUl]
def kDeclarationElements : List Keyword := [.kDl, .kDt, .kDd]
def kParagraphTerminators : List Keyword :=
  [.kAddress, .kArticle, .kAside, .kBlockquote, .kDir, .kDiv, .kDl, .kFieldset, .kFooter, .kForm, .kH1, .kH2,
    .kH3, .kH4, .kH5, .kH6, .kHeader, .kHgroup, .kHr, .kMenu, .kNav, .kOl, .kP, .kPre, .kSection, .kTable,
    .kUl]

def crossProduct (k1List k2List : List Keyword) : List (Keyword × Keyword) :=
  k1List.flatMap fun k1 => k2List.map fun k2 => (k1, k2)

def autoClose : List (Keyword × Keyword) :=
  crossProduct kTableLeaves kTableLeaves ++ crossProduct kTableLeaves [.kTr] ++
    crossProduct [.kTr] kTableSections ++ crossProduct [.kTr] [.kTr] ++
    crossProduct kTableSections kTableSections ++ crossProduct [.kP] kParagraphTerminators ++
    crossProduct [.kLi] [.kLi] ++ crossProduct [.kDd, .kDt] [.kDd, .kDt] ++
    crossProduct [.kRp, .kRt] [.kRp, .kRt] ++ crossProduct [.kOptgroup] [.kOptgroup] ++
    crossProduct [.kOption] [.kOptgroup, .kOption] ++
    crossProduct kFormattingElements (.kTr :: (kListElements ++ kDeclarationElements))

def contained : List (Keyword × Keyword) :=
  crossProduct kTableLeaves [.kTable] ++ crossProduct [.kTr] [.kTable] ++
    crossProduct kTableSections [.kTable] ++ crossProduct [.kLi] [.kUl, .kOl] ++
    crossProduct [.kDd, .kDt] [.kDl] ++ crossProduct [.kRt, .kRp] [.kRuby] ++
    crossProduct kFormattingElements [.kTd, .kTh]

def optionallyClosed : List Keyword :=
  kFormattingElements ++ [.kBody, .kColgroup, .kDd, .kDt, .kHtml, .kOptgroup, .kOption, .kP] ++
    kListElements ++ kTableElements

def isAutoClose (k1 k2 : Keyword) : Bool := autoClose.contains (k1, k2)

def isContained (k1 k2 : Keyword) : Bool := contained.contains (k1, k2)

def isOptionallyClosedTag (keyword : Keyword) : Bool := optionallyClosed.contains keyword

def kHtmlKeywordsSequences : List (GoogleString × UInt8) :=
  [("AElig", 0xC6), ("Aacute", 0xC1), ("Acirc", 0xC2), ("Agrave", 0xC0), ("Aring", 0xC5), ("Atilde", 0xC3),
    ("Auml", 0xC4), ("Ccedil", 0xC7), ("ETH", 0xD0), ("Eacute", 0xC9), ("Ecirc", 0xCA), ("Egrave", 0xC8),
    ("Euml", 0xCB), ("Iacute", 0xCD), ("Icirc", 0xCE), ("Igrave", 0xCC), ("Iuml", 0xCF), ("Ntilde", 0xD1),
    ("Oacute", 0xD3), ("Ocirc", 0xD4), ("Ograve", 0xD2), ("Oslash", 0xD8), ("Otilde", 0xD5), ("Ouml", 0xD6),
    ("THORN", 0xDE), ("Uacute", 0xDA), ("Ucirc", 0xDB), ("Ugrave", 0xD9), ("Uuml", 0xDC), ("Yacute", 0xDD),
    ("aacute", 0xE1), ("acirc", 0xE2), ("acute", 0xB4), ("aelig", 0xE6), ("agrave", 0xE0), ("amp", 0x26),
    ("aring", 0xE5), ("atilde", 0xE3), ("auml", 0xE4), ("brvbar", 0xA6), ("ccedil", 0xE7), ("cedil", 0xB8),
    ("cent", 0xA2), ("copy", 0xA9), ("curren", 0xA4), ("deg", 0xB0), ("divide", 0xF7), ("eacute", 0xE9),
    ("ecirc", 0xEA), ("egrave", 0xE8), ("eth", 0xF0), ("euml", 0xEB), ("frac12", 0xBD), ("frac14", 0xBC),
    ("frac34", 0xBE), ("gt", 0x3E), ("iacute", 0xED), ("icirc", 0xEE), ("iexcl", 0xA1), ("igrave", 0xEC),
    ("iquest", 0xBF), ("iuml", 0xEF), ("laquo", 0xAB), ("lt", 0x3C), ("macr", 0xAF), ("micro", 0xB5),
    ("middot", 0xB7), ("nbsp", 0xA0), ("not", 0xAC), ("ntilde", 0xF1), ("oacute", 0xF3), ("ocirc", 0xF4),
    ("ograve", 0xF2), ("ordf", 0xAA), ("ordm", 0xBA), ("oslash", 0xF8), ("otilde", 0xF5), ("ouml", 0xF6),
    ("para", 0xB6), ("plusmn", 0xB1), ("pound", 0xA3), ("quot", 0x22), ("raquo", 0xBB), ("reg", 0xAE),
    ("sect", 0xA7), ("shy", 0xAD), ("sup1", 0xB9), ("sup2", 0xB2), ("sup3", 0xB3), ("szlig", 0xDF),
    ("thorn", 0xFE), ("times", 0xD7), ("uacute", 0xFA), ("ucirc", 0xFB), ("ugrave", 0xF9), ("uml", 0xA8),
    ("uuml", 0xFC), ("yacute", 0xFD), ("yen", 0xA5), ("yuml", 0xFF)].map fun entry => (ascii entry.1, entry.2)

def kHtmlKeywordsSequencesMultiByte : List GoogleString :=
  ["alefsym", "Alpha", "alpha", "and", "ang", "asymp", "bdquo", "Beta", "beta", "bull", "cap", "Chi", "chi",
    "circ", "clubs", "cong", "crarr", "cup", "dagger", "Dagger", "darr", "dArr", "Delta", "delta", "diams",
    "empty", "emsp", "ensp", "Epsilon", "epsilon", "equiv", "Eta", "eta", "euro", "exist", "fnof", "forall",
    "frasl", "Gamma", "gamma", "ge", "harr", "hArr", "hearts", "hellip", "image", "infin", "int", "Iota",
    "iota", "isin", "Kappa", "kappa", "Lambda", "lambda", "lang", "larr", "lArr", "lceil", "ldquo", "le",
    "lfloor", "lowast", "loz", "lrm", "lsaquo", "lsquo", "mdash", "minus", "Mu", "mu", "nabla", "ndash", "ne",
    "ni", "notin", "nsub", "Nu", "nu", "OElig", "oelig", "oline", "Omega", "omega", "Omicron", "omicron",
    "oplus", "or", "otimes", "part", "permil", "perp", "Phi", "phi", "Pi", "pi", "piv", "prime", "Prime",
    "prod", "prop", "Psi", "psi", "radic", "rang", "rarr", "rArr", "rceil", "rdquo", "real", "rfloor", "Rho",
    "rho", "rlm", "rsaquo", "rsquo", "sbquo", "Scaron", "scaron", "sdot", "Sigma", "sigma", "sigmaf", "sim",
    "spades", "sub", "sube", "sum", "sup", "supe", "Tau", "tau", "there4", "Theta", "theta", "thetasym",
    "thinsp", "tilde", "trade", "uarr", "uArr", "upsih", "Upsilon", "upsilon", "weierp", "Xi", "xi", "Yuml",
    "Zeta", "zeta", "zwj", "zwnj"].map ascii

def unescapeInsensitiveMap : List (GoogleString × UInt8) :=
  (kHtmlKeywordsSequences.foldl (fun (maps : List GoogleString × List (GoogleString × UInt8)) seq =>
    if maps.1.any (stringCaseEqual seq.1) then maps
    else if maps.2.any fun entry => stringCaseEqual seq.1 entry.1 then
      (seq.1 :: maps.1, maps.2.filter fun entry => !stringCaseEqual seq.1 entry.1)
    else (maps.1, maps.2 ++ [seq])) ([], [])).2

def tryUnescape (accumulateNumericCode : Bool) (numericValue : ℕ) (escape : GoogleString)
    (wasTerminated : Bool) (buf : GoogleString) : Option GoogleString :=
  if accumulateNumericCode && decide (1 < escape.length) then
    if numericValue ≤ 0xff then some (buf ++ [numericValue.toUInt8]) else none
  else match kHtmlKeywordsSequences.lookup escape with
    | some value => some (buf ++ [value])
    | none =>
      if kHtmlKeywordsSequencesMultiByte.any (stringCaseEqual escape) then none
      else match unescapeInsensitiveMap.find? fun entry => stringCaseEqual escape entry.1 with
        | some entry => some (buf ++ [entry.2])
        | none =>
          if stringCaseEqual escape (ascii "apos") then some (buf ++ [39])
          else some (buf ++ [38] ++ escape ++ if wasTerminated then [59] else [])

structure Escape where
  escape : GoogleString := []
  numericValue : ℕ := 0
  accumulateNumericCode : Bool := false
  hexMode : Bool := false

def Escape.tryUnescape (e : Escape) (wasTerminated : Bool) (buf : GoogleString) : Option GoogleString :=
  HtmlKeywords.tryUnescape e.accumulateNumericCode e.numericValue e.escape wasTerminated buf

def Escape.accumulate (e : Escape) (ch : UInt8) : Option Escape :=
  if e.accumulateNumericCode then
    (if e.hexMode then accumulateHexValue ch e.numericValue else accumulateDecimalValue ch e.numericValue).map
      fun value => { e with numericValue := value, escape := e.escape ++ [ch] }
  else if isAlnum ch then some { e with escape := e.escape ++ [ch] }
  else none

/-- The loop of `UnescapeHelper`; the buffer is filled from the start of the text. -/
def unescapeLoop : GoogleString → Option Escape → GoogleString → Option GoogleString
  | [], none, buf => some buf
  | [], some e, buf => if e.escape = [] then some (buf ++ [38]) else e.tryUnescape false buf
  | ch :: rest, none, buf =>
    if ch = 38 then unescapeLoop rest (some {}) buf
    else if 127 < ch then none
    else unescapeLoop rest none (buf ++ [ch])
  | ch :: rest, some e, buf =>
    if e.escape = [] ∧ ch = 35 then
      match rest with
      | x :: rest' =>
        if upperChar x = 88 then
          unescapeLoop rest' (some { e with escape := [35], accumulateNumericCode := true, hexMode := true }) buf
        else unescapeLoop (x :: rest') (some { e with escape := [35], accumulateNumericCode := true }) buf
      | [] => unescapeLoop [] (some { e with escape := [35], accumulateNumericCode := true }) buf
    else if ch = 59 then
      match e.tryUnescape true buf with
      | some buf => unescapeLoop rest none buf
      | none => none
    else if 127 < ch then none
    else match e.accumulate ch with
      | some e => unescapeLoop rest (some e) buf
      | none =>
        -- The character is examined again, now outside the escape.
        match e.tryUnescape false buf with
        | some buf => if ch = 38 then unescapeLoop rest (some {}) buf else unescapeLoop rest none (buf ++ [ch])
        | none => none

/-- `none` is a decoding error. -/
def unescape (escaped : GoogleString) : Option GoogleString := unescapeLoop escaped none []

end PageSpeed.HtmlKeywords
