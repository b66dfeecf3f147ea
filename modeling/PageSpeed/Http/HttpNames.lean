import PageSpeed.Base.StringMultiMap

/-!
The names of header fields and the two tables of `kernel/http/http_names.cc`.
-/

namespace PageSpeed.HttpAttributes

def kAccept : GoogleString := ascii "Accept"
def kAcceptEncoding : GoogleString := ascii "Accept-Encoding"
def kCacheControl : GoogleString := ascii "Cache-Control"
def kConnection : GoogleString := ascii "Connection"
def kContentEncoding : GoogleString := ascii "Content-Encoding"
def kContentLength : GoogleString := ascii "Content-Length"
def kContentType : GoogleString := ascii "Content-Type"
def kCookie : GoogleString := ascii "Cookie"
def kDate : GoogleString := ascii "Date"
def kExpires : GoogleString := ascii "Expires"
def kImmutable : GoogleString := ascii "immutable"
def kLastModified : GoogleString := ascii "Last-Modified"
def kNoCacheMaxAge0 : GoogleString := ascii "max-age=0, no-cache"
def kPragma : GoogleString := ascii "Pragma"
def kSetCookie : GoogleString := ascii "Set-Cookie"
def kSetCookie2 : GoogleString := ascii "Set-Cookie2"
def kVary : GoogleString := ascii "Vary"
def kXOriginalContentLength : GoogleString := ascii "X-Original-Content-Length"

def sortedEndToEndHeaders : List GoogleString :=
  ["Accept", "Accept-Encoding", "Access-Control-Allow-Credentials", "Access-Control-Allow-Origin", "Age", "Allow",
    "Authorization", "Cache-Control", "Content-Disposition", "Content-Encoding", "Content-Language",
    "Content-Length", "Content-Type", "Cookie", "Cookie2", "Date", "Etag", "Expires", "Host", "If-Modified-Since",
    "If-None-Match", "Last-Modified", "Link", "Location", "Origin", "Pragma", "Purpose", "Referer", "Refresh",
    "Server", "Set-Cookie", "Set-Cookie2", "User-Agent", "Vary", "Via", "Warning"].map ascii

def sortedHopByHopHeaders : List GoogleString :=
  ["Alt-Svc", "Alternate-Protocol", "Connection", "Keep-Alive", "Proxy-Authenticate", "Proxy-Authorization",
    "Set-Cookie", "Set-Cookie2", "TE", "Trailers", "Transfer-Encoding", "Upgrade"].map ascii

theorem sorted_hopByHop : SortedNames sortedHopByHopHeaders := by
  unfold SortedNames BinarySearch.Sorted
  decide

end PageSpeed.HttpAttributes
