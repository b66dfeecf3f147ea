import PageSpeed.Base.StringUtil
import PageSpeed.WebBotAuth.Jwks

/-!
The cache of directory keys in `kernel/webbotauth/key_directory.cc`: the text of its entries,
how a document is written to it and how a key is looked up.
-/

namespace PageSpeed.WebBotAuth

inductive KeyLookupResult where
  | found (rawKey32 : GoogleString)
  | notFound
  | error
  deriving DecidableEq

abbrev KeyDirectoryProvider := GoogleString → GoogleString → Int64 → KeyLookupResult

def kTtlMinSec : Int64 := 300

def kTtlMaxSec : Int64 := 86400

def kNegativeTtlSec : Int64 := 120

def clampTtl (ttlSec : Int64) : Int64 :=
  let ttlSec := if ttlSec < kTtlMinSec then kTtlMinSec else ttlSec
  if kTtlMaxSec < ttlSec then kTtlMaxSec else ttlSec

structure DirectoryCache where
  isBlocking : Bool
  entries : GoogleString → Option GoogleString

def DirectoryCache.put (cache : DirectoryCache) (key value : GoogleString) : DirectoryCache :=
  { cache with entries := Function.update cache.entries key (some value) }

def DirectoryCache.delete (cache : DirectoryCache) (key : GoogleString) : DirectoryCache :=
  { cache with entries := Function.update cache.entries key none }

def cacheKey (realm host keyid : GoogleString) : GoogleString :=
  ascii "wba:dir:" ++ realm ++ ascii ":" ++ host ++ ascii "/" ++ keyid

theorem cacheKey_injective (realm host : GoogleString) {kid kid' : GoogleString}
    (h : cacheKey realm host kid = cacheKey realm host kid') : kid = kid' := List.append_cancel_left h

section

variable (text : Int64Text)

/-- The status is `found` or not. -/
def serializeCacheEntry (found : Bool) (rawKey32 : GoogleString) (fetchedAt expiresAt : Int64) : GoogleString :=
  text.integer64ToString (if found then 0 else 1) ++ [10] ++ text.integer64ToString fetchedAt ++ [10] ++
    text.integer64ToString expiresAt ++ [10] ++ text.integer64ToString (Int64.ofNat rawKey32.length) ++ [10] ++
    rawKey32

def readLine (s : GoogleString) : Option (GoogleString × GoogleString) :=
  match s.dropWhile (· ≠ 10) with
  | [] => none
  | _ :: rest => some (s.takeWhile (· ≠ 10), rest)

/-- A number that is an `int`, too. -/
def stringToInt (s : GoogleString) : Option Int64 :=
  (text.stringToInt64 s).filter fun v => -2 ^ 31 ≤ v.toInt ∧ v.toInt < 2 ^ 31

structure CacheEntry where
  found : Bool
  rawKey32 : GoogleString
  fetchedAt : Int64
  expiresAt : Int64

def deserializeCacheEntry (blob : GoogleString) : Option CacheEntry := do
  let (codeS, s) ← readLine blob
  let (fetchedS, s) ← readLine s
  let (expiresS, s) ← readLine s
  let (lenS, s) ← readLine s
  let code ← stringToInt text codeS
  let fetched ← text.stringToInt64 fetchedS
  let expires ← text.stringToInt64 expiresS
  let keylen ← text.stringToInt64 lenS
  if keylen < 0 ∨ keylen.toInt ≠ s.length then none
  else return ⟨code = 0, s, fetched, expires⟩

def warmKeyDirectoryCache (cache : DirectoryCache) (realm host jwksBody : GoogleString) (nowUnixSec ttlSec : Int64) :
    DirectoryCache × List GoogleString :=
  if !cache.isBlocking then (cache, [])
  else
    let ttlSec := clampTtl ttlSec
    let keys := extractAllEd25519Keys jwksBody
    (keys.foldl (fun cache key => cache.put (cacheKey realm host key.1)
      (serializeCacheEntry text true key.2 nowUnixSec (nowUnixSec + ttlSec))) cache, keys.map Prod.fst)

structure CachedKeyDirectory where
  inner : KeyDirectoryProvider
  realm : GoogleString
  readThrough : Bool
  cacheTtlHintSec : Int64

inductive CacheRead where
  | answer (result : KeyLookupResult)
  | stale
  | miss

def readCache (cache : DirectoryCache) (key : GoogleString) (nowUnixSec : Int64) : CacheRead :=
  if !cache.isBlocking then .miss
  else
    match cache.entries key with
    | none => .miss
    | some data =>
      match deserializeCacheEntry text data with
      | none => .stale
      | some entry =>
        if nowUnixSec < entry.expiresAt then .answer (if entry.found then .found entry.rawKey32 else .notFound)
        else .stale

def readInner (p : CachedKeyDirectory) (cache : DirectoryCache) (host keyid : GoogleString) (nowUnixSec : Int64) :
    KeyLookupResult × DirectoryCache :=
  let key := cacheKey p.realm host keyid
  match p.inner host keyid nowUnixSec with
  | .found raw =>
    (.found raw,
      cache.put key (serializeCacheEntry text true raw nowUnixSec (nowUnixSec + clampTtl p.cacheTtlHintSec)))
  | .notFound =>
    (.notFound, cache.put key (serializeCacheEntry text false [] nowUnixSec (nowUnixSec + kNegativeTtlSec)))
  | .error => (.error, cache)

def CachedKeyDirectory.getKey (p : CachedKeyDirectory) (cache : DirectoryCache) (host keyid : GoogleString)
    (nowUnixSec : Int64) : KeyLookupResult × DirectoryCache :=
  match readCache text cache (cacheKey p.realm host keyid) nowUnixSec with
  | .answer result => (result, cache)
  | .stale =>
    if p.readThrough then readInner text p (cache.delete (cacheKey p.realm host keyid)) host keyid nowUnixSec
    else (.notFound, cache)
  | .miss => if p.readThrough then readInner text p cache host keyid nowUnixSec else (.notFound, cache)

end

theorem readLine_append {line : GoogleString} (h : 10 ∉ line) (rest : GoogleString) :
    readLine (line ++ 10 :: rest) = some (line, rest) := by
  have hall : ∀ c ∈ line, decide (c ≠ 10) = true := by
    intro c hc
    exact decide_eq_true fun heq => h (heq ▸ hc)
  have hdrop : (line ++ 10 :: rest).dropWhile (fun c => decide (c ≠ 10)) = 10 :: rest := by
    rw [List.dropWhile_append_of_pos hall]
    rfl
  have htake : (line ++ 10 :: rest).takeWhile (fun c => decide (c ≠ 10)) = line := by
    rw [List.takeWhile_append_of_pos hall]
    exact List.append_nil line
  rw [readLine, hdrop, htake]

variable {text : Int64Text}

theorem newline_notMem_integer64ToString (h : text.Lawful) (v : Int64) : 10 ∉ text.integer64ToString v := by
  intro hmem
  obtain hminus | hdigit := h.digits v 10 hmem
  · exact absurd hminus (by decide)
  · exact absurd hdigit.1 (by decide)

theorem deserializeCacheEntry_serialize (h : text.Lawful) (found : Bool) {rawKey32 : GoogleString}
    (hlen : rawKey32.length < 2 ^ 63) (fetchedAt expiresAt : Int64) :
    deserializeCacheEntry text (serializeCacheEntry text found rawKey32 fetchedAt expiresAt) =
      some ⟨found, rawKey32, fetchedAt, expiresAt⟩ := by
  have hcode : stringToInt text (text.integer64ToString (if found then 0 else 1)) = some (if found then 0 else 1) := by
    rw [stringToInt, h.parses]
    cases found <;> decide
  have hkeylen : (Int64.ofNat rawKey32.length).toInt = rawKey32.length := Int64.toInt_ofNat_of_lt hlen
  have hfits : ¬(Int64.ofNat rawKey32.length < 0 ∨ (Int64.ofNat rawKey32.length).toInt ≠ rawKey32.length) := by
    rw [Int64.lt_iff_toInt_lt, hkeylen]
    simp
  have hfree := newline_notMem_integer64ToString h
  rw [deserializeCacheEntry, serializeCacheEntry]
  simp only [List.append_assoc, List.cons_append, List.nil_append, Option.bind_eq_bind, readLine_append (hfree _),
    Option.bind_some, hcode, h.parses, if_neg hfits]
  cases found <;> rfl

end PageSpeed.WebBotAuth
