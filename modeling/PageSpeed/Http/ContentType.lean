import PageSpeed.Base.Ascii
import PageSpeed.Base.StringUtil

/-!
Content types of `kernel/http/content_type.cc`. The table is searched from the front, so its
synonyms stand after the canonical types.
-/

namespace PageSpeed

inductive ContentType
  | kHtml | kXhtml | kCeHtml | kJavascript | kCss | kText | kXml | kPng | kGif | kJpeg | kSwf | kWebp | kAvif | kIco
  | kJson | kSourceMap | kPdf | kVideo | kAudio | kOctetStream | kOther
  deriving DecidableEq

namespace ContentType

def isHtmlLike : ContentType → Bool
  | kHtml | kXhtml | kCeHtml => true
  | _ => false

def isLikelyStaticResource : ContentType → Bool
  | kCeHtml | kHtml | kJson | kSourceMap | kOctetStream | kOther | kText | kXhtml | kXml => false
  | kCss | kGif | kIco | kJavascript | kJpeg | kPdf | kPng | kSwf | kVideo | kAudio | kWebp | kAvif => true

def kTypes : List (GoogleString × ContentType) :=
  [("text/html", kHtml), ("application/xhtml+xml", kXhtml), ("application/ce-html+xml", kCeHtml),
    ("application/javascript", kJavascript), ("text/css", kCss), ("text/plain", kText), ("text/xml", kXml),
    ("image/png", kPng), ("image/gif", kGif), ("image/jpeg", kJpeg), ("application/x-shockwave-flash", kSwf),
    ("image/webp", kWebp), ("image/x-icon", kIco), ("application/json", kJson),
    ("application/javascript", kSourceMap), ("application/pdf", kPdf), ("application/octet-stream", kOctetStream),
    ("image/svg+xml", kXml), ("image/avif", kAvif),
    ("application/x-javascript", kJavascript), ("text/javascript", kJavascript), ("text/x-javascript", kJavascript),
    ("text/ecmascript", kJavascript), ("text/js", kJavascript), ("text/jscript", kJavascript),
    ("text/x-js", kJavascript), ("application/ecmascript", kJavascript), ("application/json", kJson),
    ("application/x-json", kJson), ("image/jpeg", kJpeg), ("image/jpg", kJpeg), ("image/vnd.microsoft.icon", kIco),
    ("text/html", kHtml), ("application/xml", kXml),
    ("video/mpeg", kVideo), ("video/mp4", kVideo), ("video/3gp", kVideo), ("video/x-flv", kVideo),
    ("video/ogg", kVideo), ("video/webm", kVideo), ("video/x-ms-asf", kVideo), ("video/x-ms-wmv", kVideo),
    ("video/quicktime", kVideo), ("video/mpeg4", kVideo),
    ("audio/mpeg", kAudio), ("audio/ogg", kAudio), ("audio/webm", kAudio), ("audio/mp4", kAudio),
    ("audio/x-mpeg", kAudio), ("audio/x-wav", kAudio), ("audio/mp3", kAudio), ("audio/wav", kAudio),
    ("binary/octet-stream", kOctetStream)].map fun (mimeType, type) => (ascii mimeType, type)

end ContentType

def mimeTypeToContentType (mimeType : GoogleString) : Option ContentType :=
  let strippedMimeType := mimeType.takeWhile fun c => c ≠ 59
  (ContentType.kTypes.find? fun entry => stringCaseEqual strippedMimeType entry.1).map Prod.snd

/-- The first `charset=` among the parameters. -/
def findCharset : List GoogleString → GoogleString
  | [] => []
  | parameter :: rest =>
    match splitStringPieceToVector parameter (ascii "=") false with
    | [name, value] =>
      if stringCaseEqual (trimWhitespace name) (ascii "charset") then trimWhitespace value else findCharset rest
    | _ => findCharset rest

def parseContentType (contentType : GoogleString) : Option (GoogleString × GoogleString) :=
  if contentType = [] then none
  else
    match splitStringPieceToVector contentType (ascii ";") false with
    | [] => none
    | mimeType :: parameters =>
      if mimeType = [] ∧ findCharset parameters = [] then none else some (mimeType, findCharset parameters)

end PageSpeed
