import PageSpeed.Http.HttpNames
import PageSpeed.Base.StringUtil

/-!
`Headers` of `kernel/http/headers.cc`: the lines of a header as they came, and a map of their
values that is built when it is first asked for. A `StringPiece` is the bytes it points to.
-/

namespace PageSpeed

structure NameValue where
  name : GoogleString
  value : GoogleString
  deriving DecidableEq

structure Headers where
  headers : List NameValue := []
  map : Option StringMultiMap := none
  /-- Whether the table of cookies is built; it is dropped with the map. -/
  cookies : Bool := false
  /-- What the `UpdateHook` of `ResponseHeaders` sets. -/
  cacheFieldsDirty : Bool := false
  deriving DecidableEq

namespace Headers

def kMaxHeaders : ℕ := 1000

def isCommaSeparatedField (name : GoogleString) : Bool :=
  [HttpAttributes.kAccept, HttpAttributes.kCacheControl, HttpAttributes.kContentEncoding, HttpAttributes.kConnection,
    HttpAttributes.kAcceptEncoding, HttpAttributes.kVary].any (stringCaseEqual name)

def splitValues (name commaSeparatedValues : GoogleString) : List GoogleString :=
  if isCommaSeparatedField name then
    let values := splitStringPieceToVector commaSeparatedValues (ascii ",") true
    if values = [] then [commaSeparatedValues] else values.map trimWhitespace
  else [commaSeparatedValues]

def addToMap (m : StringMultiMap) (header : NameValue) : StringMultiMap :=
  (splitValues header.name header.value).foldl (fun m value => m.add header.name value) m

def mapOf (headers : List NameValue) : StringMultiMap := headers.foldl addToMap {}

def populateMap (h : Headers) : Headers :=
  match h.map with
  | some _ => h
  | none => { h with map := some (mapOf h.headers), cookies := false }

def theMap (h : Headers) : StringMultiMap := h.map.getD (mapOf h.headers)

def lookup (h : Headers) (name : GoogleString) : Option (List GoogleString) := h.theMap.lookup name

def lookup1 (h : Headers) (name : GoogleString) : Option GoogleString :=
  match h.lookup name with
  | some [value] => some value
  | _ => none

def has (h : Headers) (name : GoogleString) : Bool := h.theMap.has name

def hasValueCaseInsensitive (h : Headers) (name value : GoogleString) : Bool :=
  ((h.lookup name).getD []).any (stringCaseEqual value)

def populateCookieMap (h : Headers) : Headers :=
  if h.cookies then h else { h.populateMap with cookies := true }

def setValue (h : Headers) (i : ℕ) (value : GoogleString) : Headers :=
  { h with
    headers := h.headers.modify i fun header => { header with value }
    map := none
    cookies := false }

def add (h : Headers) (name value : GoogleString) : Headers :=
  if h.headers.length ≥ kMaxHeaders then h
  else
    { headers := h.headers ++ [{ name, value }]
      map := h.map.map (addToMap · { name, value })
      cookies := if h.map.isSome then false else h.cookies
      cacheFieldsDirty := true }

def removeFromHeaders (names : List GoogleString) (headers : List NameValue) : List NameValue :=
  headers.filter fun header => !binarySearchNames names header.name

def removeAllFromSortedArray (h : Headers) (names : List GoogleString) : Bool × Headers :=
  let (removedAnything, m) := h.theMap.removeAllFromSortedArray names
  if removedAnything then
    (true,
      { headers := removeFromHeaders names h.headers
        map := some m
        cookies := false
        cacheFieldsDirty := true })
  else (false, { h.populateMap with map := some m })

def removeAll (h : Headers) (name : GoogleString) : Bool × Headers := h.removeAllFromSortedArray [name]

def remove (h : Headers) (name value : GoogleString) : Bool × Headers :=
  match h.lookup name with
  | none => (false, h.populateMap)
  | some values =>
    if values.any fun v => stringCaseEqual v value then
      let newVals := values.filter fun v => !stringCaseEqual v value && !v.isEmpty
      let removed := (h.removeAll name).2
      let added :=
        if isCommaSeparatedField name then
          let combined := joinCollection newVals (ascii ", ")
          if combined = [] then removed else removed.add name combined
        else newVals.foldl (fun h v => h.add name v) removed
      (true, { added with cacheFieldsDirty := true })
    else (false, h.populateMap)

def removeAllWithPrefix (h : Headers) (start : GoogleString) : Bool × Headers :=
  let kept := h.headers.filter fun header => !stringCaseStartsWith header.name start
  if kept.length ≠ h.headers.length then
    (true, { headers := kept, map := none, cookies := false, cacheFieldsDirty := true })
  else (false, h)

def takeFromBag : List GoogleString → List GoogleString → List GoogleString × List GoogleString
  | [], bag => ([], bag)
  | value :: values, bag =>
    if value ∈ bag then
      let (kept, bag) := takeFromBag values (bag.erase value)
      (value :: kept, bag)
    else takeFromBag values bag

/-- The loop of `RemoveIfNotIn`, with a bag of the values of `keep` for each name that it has seen. -/
def keepLoop (keep : Headers) : List NameValue → List (GoogleString × List GoogleString) → List NameValue × Bool
  | [], _ => ([], false)
  | header :: rest, bags =>
    let bag := (bags.lookup header.name).getD ((keep.lookup header.name).getD [])
    let values := splitValues header.name header.value
    -- An empty bag has nothing to take.
    let (kept, left) := takeFromBag values bag
    let (headers, changed) := keepLoop keep rest ((header.name, left) :: bags)
    if kept = [] then (headers, true)
    else if kept.length < values.length then
      ({ header with value := joinCollection kept (ascii ", ") } :: headers, true)
    else (header :: headers, changed)

def removeIfNotIn (h keep : Headers) : Bool × Headers :=
  let (headers, changed) := keepLoop keep h.headers []
  if changed then (true, { headers, map := none, cookies := false, cacheFieldsDirty := true })
  else (false, { h with headers })

def replace (h : Headers) (name value : GoogleString) : Headers := (h.removeAll name).2.add name value

def sortNames (names : List GoogleString) : List GoogleString :=
  names.mergeSort fun a b => !stringCompareInsensitive b a

def updateFrom (h other : Headers) : Headers :=
  other.headers.foldl (fun h header => h.add header.name header.value)
    (h.removeAllFromSortedArray (sortNames (other.headers.map NameValue.name))).2

def removeCookieString (cookieName cookieHeader : GoogleString) : Bool × GoogleString :=
  (splitStringPieceToVector cookieHeader (ascii ";") false).foldl
    (fun (found, newCookieHeader) piece =>
      if (cookieName ++ ascii "=").isPrefixOf (trimLeadingWhitespace piece) then (true, newCookieHeader)
      else if piece = [] then (found, newCookieHeader)
      else if newCookieHeader = [] then (found, trimLeadingWhitespace piece)
      else (found, newCookieHeader ++ ascii ";" ++ piece))
    (false, [])

def removeCookie (h : Headers) (cookieName : GoogleString) : Headers :=
  match h.lookup HttpAttributes.kCookie with
  | none => h.populateMap
  | some values =>
    let results := values.map (removeCookieString cookieName)
    if results.any Prod.fst then
      ((results.map Prod.snd).filter fun line => !line.isEmpty).foldl
        (fun h line => h.add HttpAttributes.kCookie line) ({ h with cookies := false }.removeAll HttpAttributes.kCookie).2
    else h.populateMap

end Headers

end PageSpeed
