import PageSpeed.Base.Ascii

/-!
The names that `html_name.gperf` knows as keywords, for elements and for attributes.
-/

namespace PageSpeed

inductive HtmlName.Keyword
  | kXml | kA | kAbbr | kAction | kAddress | kAllowfullscreen | kAlt | kAmp | kArea | kArticle | kAs | kAside
  | kAsync | kAudio | kAutocomplete | kAutofocus | kAutoplay | kB | kBackground | kBase | kBdi | kBdo
  | kBlockquote | kBody | kBr | kButton | kCaption | kCharset | kChecked | kCite | kClass | kCode | kCol
  | kColgroup | kColspan | kCommand | kContent | kControls | kCrossorigin | kData | kDatalist
  | kDataActualHeight | kDataActualWidth | kDataMobileRole | kDataPagespeedFlushStyle
  | kDataPagespeedHighResSrc | kDataPagespeedHighResSrcset | kDataPagespeedHref | kDataPagespeedInlineSrc
  | kDataPagespeedLazySrc | kDataPagespeedLazySrcset | kDataPagespeedLowResSrc | kDataPagespeedLscExpiry
  | kDataPagespeedLscHash | kDataPagespeedLscUrl | kDataPagespeedNoDefer | kDataPagespeedNoTransform
  | kDataPagespeedOrigIndex | kDataPagespeedOrigSrc | kDataPagespeedOrigType | kDataPagespeedPrioritize
  | kDataPagespeedResponsiveTemp | kDataPagespeedSize | kDataPagespeedSrcsetUrlHashes | kDataPagespeedUrlHash
  | kDataSrc | kDataSrcset | kDd | kDeclare | kDecoding | kDefaultchecked | kDefaultselected | kDefer | kDel
  | kDetails | kDfn | kDialog | kDir | kDisabled | kDisplay | kDiv | kDl | kDt | kEm | kEmbed | kEnctype
  | kEvent | kFetchpriority | kFieldset | kFont | kFooter | kFor | kForm | kFormaction | kFormnovalidate
  | kFrame | kFrameborder | kH1 | kH2 | kH3 | kH4 | kH5 | kH6 | kHead | kHeader | kHeight | kHgroup | kHr
  | kHref | kHtml | kHttpEquiv | kI | kIcon | kId | kIframe | kImg | kIndeterminate | kIns | kInput
  | kIntegrity | kIsmap | kItemProp | kKbd | kKeygen | kKeytype | kLang | kLanguage | kLegend | kLi | kLink
  | kLoading | kLongdesc | kLoop | kMain | kManifest | kMap | kMark | kMarquee | kMedia | kMenu | kMeta
  | kMethod | kMultiple | kMuted | kName | kNav | kNoembed | kNoframes | kNohref | kNoresize | kNoscript
  | kNovalidate | kObject | kOl | kOnclick | kOnerror | kOnload | kOpen | kOptgroup | kOption | kOther | kP
  | kPagespeedIframe | kPagespeedNoDefer | kPagespeedNoTransform | kParam | kPicture | kPlaysinline | kPoster
  | kPre | kProfile | kQ | kReadonly | kRel | kRequired | kReversed | kRole | kRowspan | kRp | kRt | kRuby | kS
  | kSamp | kScoped | kScript | kScrolling | kSeamless | kSection | kSelect | kSelected | kShape | kSmall
  | kSource | kSpan | kSrc | kSrcset | kStrong | kStyle | kSub | kTable | kTag | kTbody | kTd | kTemplate
  | kTest | kTextarea | kTfoot | kTh | kThead | kTime | kTitle | kTr | kTrack | kType | kU | kUl | kValue
  | kValuetype | kVar | kVideo | kWbr | kWidth | kWrap | kXmp | kNotAKeyword
  deriving DecidableEq

structure HtmlName where
  keyword : HtmlName.Keyword
  value : GoogleString
  deriving DecidableEq

namespace HtmlName

open Keyword

def kHtmlNameTable : List (GoogleString × Keyword) :=
  [("?xml", kXml), ("a", kA), ("abbr", kAbbr), ("action", kAction), ("address", kAddress),
    ("allowfullscreen", kAllowfullscreen), ("alt", kAlt), ("amp", kAmp), ("area", kArea),
    ("article", kArticle), ("as", kAs), ("aside", kAside), ("async", kAsync), ("audio", kAudio),
    ("autocomplete", kAutocomplete), ("autofocus", kAutofocus), ("autoplay", kAutoplay), ("b", kB),
    ("background", kBackground), ("base", kBase), ("bdi", kBdi), ("bdo", kBdo), ("blockquote", kBlockquote),
    ("body", kBody), ("br", kBr), ("button", kButton), ("caption", kCaption), ("charset", kCharset),
    ("checked", kChecked), ("cite", kCite), ("class", kClass), ("code", kCode), ("col", kCol),
    ("colgroup", kColgroup), ("colspan", kColspan), ("command", kCommand), ("content", kContent),
    ("controls", kControls), ("crossorigin", kCrossorigin), ("data", kData), ("datalist", kDatalist),
    ("data-actual-height", kDataActualHeight), ("data-actual-width", kDataActualWidth),
    ("data-mobile-role", kDataMobileRole), ("data-pagespeed-flush-style", kDataPagespeedFlushStyle),
    ("data-pagespeed-high-res-src", kDataPagespeedHighResSrc),
    ("data-pagespeed-high-res-srcset", kDataPagespeedHighResSrcset),
    ("data-pagespeed-href", kDataPagespeedHref), ("data-pagespeed-inline-src", kDataPagespeedInlineSrc),
    ("data-pagespeed-lazy-src", kDataPagespeedLazySrc),
    ("data-pagespeed-lazy-srcset", kDataPagespeedLazySrcset),
    ("data-pagespeed-low-res-src", kDataPagespeedLowResSrc),
    ("data-pagespeed-lsc-expiry", kDataPagespeedLscExpiry), ("data-pagespeed-lsc-hash", kDataPagespeedLscHash),
    ("data-pagespeed-lsc-url", kDataPagespeedLscUrl), ("data-pagespeed-no-defer", kDataPagespeedNoDefer),
    ("data-pagespeed-no-transform", kDataPagespeedNoTransform),
    ("data-pagespeed-orig-src", kDataPagespeedOrigSrc), ("data-pagespeed-orig-index", kDataPagespeedOrigIndex),
    ("data-pagespeed-orig-type", kDataPagespeedOrigType),
    ("data-pagespeed-prioritize", kDataPagespeedPrioritize),
    ("data-pagespeed-responsive-temp", kDataPagespeedResponsiveTemp),
    ("data-pagespeed-size", kDataPagespeedSize),
    ("data-pagespeed-srcset-url-hashes", kDataPagespeedSrcsetUrlHashes),
    ("data-pagespeed-url-hash", kDataPagespeedUrlHash), ("data-src", kDataSrc), ("data-srcset", kDataSrcset),
    ("dd", kDd), ("declare", kDeclare), ("decoding", kDecoding), ("defaultchecked", kDefaultchecked),
    ("defaultselected", kDefaultselected), ("defer", kDefer), ("del", kDel), ("details", kDetails),
    ("dfn", kDfn), ("dialog", kDialog), ("dir", kDir), ("disabled", kDisabled), ("display", kDisplay),
    ("div", kDiv), ("dl", kDl), ("dt", kDt), ("em", kEm), ("embed", kEmbed), ("enctype", kEnctype),
    ("event", kEvent), ("fetchpriority", kFetchpriority), ("fieldset", kFieldset), ("font", kFont),
    ("footer", kFooter), ("for", kFor), ("form", kForm), ("formaction", kFormaction),
    ("formnovalidate", kFormnovalidate), ("frame", kFrame), ("frameborder", kFrameborder), ("h1", kH1),
    ("h2", kH2), ("h3", kH3), ("h4", kH4), ("h5", kH5), ("h6", kH6), ("head", kHead), ("header", kHeader),
    ("height", kHeight), ("hgroup", kHgroup), ("hr", kHr), ("href", kHref), ("html", kHtml),
    ("http-equiv", kHttpEquiv), ("i", kI), ("icon", kIcon), ("id", kId), ("iframe", kIframe), ("img", kImg),
    ("indeterminate", kIndeterminate), ("ins", kIns), ("input", kInput), ("integrity", kIntegrity),
    ("ismap", kIsmap), ("itemprop", kItemProp), ("kbd", kKbd), ("keygen", kKeygen), ("keytype", kKeytype),
    ("lang", kLang), ("language", kLanguage), ("legend", kLegend), ("li", kLi), ("link", kLink),
    ("loading", kLoading), ("longdesc", kLongdesc), ("loop", kLoop), ("main", kMain), ("manifest", kManifest),
    ("map", kMap), ("mark", kMark), ("marquee", kMarquee), ("media", kMedia), ("menu", kMenu), ("meta", kMeta),
    ("method", kMethod), ("multiple", kMultiple), ("muted", kMuted), ("name", kName), ("nav", kNav),
    ("noembed", kNoembed), ("noframes", kNoframes), ("nohref", kNohref), ("noresize", kNoresize),
    ("noscript", kNoscript), ("novalidate", kNovalidate), ("object", kObject), ("ol", kOl),
    ("onclick", kOnclick), ("onerror", kOnerror), ("onload", kOnload), ("open", kOpen),
    ("optgroup", kOptgroup), ("option", kOption), ("other", kOther), ("p", kP),
    ("pagespeed_iframe", kPagespeedIframe), ("pagespeed_no_defer", kPagespeedNoDefer),
    ("pagespeed_no_transform", kPagespeedNoTransform), ("param", kParam), ("picture", kPicture),
    ("playsinline", kPlaysinline), ("poster", kPoster), ("pre", kPre), ("profile", kProfile), ("q", kQ),
    ("readonly", kReadonly), ("rel", kRel), ("required", kRequired), ("reversed", kReversed), ("role", kRole),
    ("rowspan", kRowspan), ("rp", kRp), ("rt", kRt), ("ruby", kRuby), ("s", kS), ("samp", kSamp),
    ("scoped", kScoped), ("script", kScript), ("scrolling", kScrolling), ("seamless", kSeamless),
    ("section", kSection), ("select", kSelect), ("selected", kSelected), ("shape", kShape), ("small", kSmall),
    ("source", kSource), ("span", kSpan), ("src", kSrc), ("srcset", kSrcset), ("strong", kStrong),
    ("style", kStyle), ("sub", kSub), ("table", kTable), ("tag", kTag), ("tbody", kTbody), ("td", kTd),
    ("template", kTemplate), ("test", kTest), ("textarea", kTextarea), ("tfoot", kTfoot), ("th", kTh),
    ("thead", kThead), ("time", kTime), ("title", kTitle), ("tr", kTr), ("track", kTrack), ("type", kType),
    ("u", kU), ("ul", kUl), ("value", kValue), ("valuetype", kValuetype), ("var", kVar), ("video", kVideo),
    ("wbr", kWbr), ("width", kWidth), ("wrap", kWrap), ("xmp", kXmp)].map fun entry => (ascii entry.1, entry.2)

def lookup (name : GoogleString) : Keyword :=
  ((kHtmlNameTable.find? fun entry => stringCaseEqual entry.1 name).map Prod.snd).getD kNotAKeyword

end HtmlName

namespace HtmlParse

def makeName (str : GoogleString) : HtmlName := ⟨HtmlName.lookup str, str⟩

def makeKeywordlessName (str : GoogleString) : HtmlName := ⟨.kNotAKeyword, str⟩

end HtmlParse

end PageSpeed
