import PageSpeed.Lib.Writes
import PageSpeed.WebBotAuth.KeyDirectory

/-!
What a cache-only lookup finds after a document has been written to the cache, and when that
is the key that the document itself gives an id: the cache keeps the last key of an id, the
reading of a document returns the first.
-/

namespace PageSpeed.WebBotAuth

open Writes

theorem lookup_map_of_injective {α β γ δ : Type} [BEq α] [LawfulBEq α] [BEq γ] [LawfulBEq γ] {f : α → γ}
    (hf : ∀ a a', f a = f a' → a = a') (g : β → δ) (l : List (α × β)) (a : α) :
    (l.map fun p => (f p.1, g p.2)).lookup (f a) = (l.lookup a).map g := by
  induction l with
  | nil => rfl
  | cons p l ih =>
    rw [List.map_cons, List.lookup_cons, List.lookup_cons, ih]
    cases h : a == p.1 with
    | true =>
      rw [eq_of_beq h, beq_self_eq_true]
      rfl
    | false =>
      have hne : f a ≠ f p.1 := by
        intro heq
        rw [hf a p.1 heq, beq_self_eq_true] at h
        cases h
      rw [beq_false_of_ne hne]

theorem mem_of_lookup {α β : Type} [BEq α] [LawfulBEq α] {l : List (α × β)} {a : α} {b : β}
    (h : l.lookup a = some b) : (a, b) ∈ l := by
  obtain ⟨before, after, rfl, _⟩ := List.lookup_eq_some_iff.mp h
  exact List.mem_append_right before List.mem_cons_self

theorem length_of_mem_kidKeys {jwksDocument : GoogleString} {key : GoogleString × GoogleString}
    (h : key ∈ kidKeys jwksDocument) : key.2.length = 32 := by
  obtain ⟨jwk, _, hkey⟩ := List.mem_filterMap.mp h
  unfold jwkToKidKey at hkey
  split_ifs at hkey
  obtain ⟨raw, hraw, rfl⟩ := Option.map_eq_some_iff.mp hkey
  unfold decodedKey at hraw
  split_ifs at hraw
  simpa using (Option.filter_eq_some_iff.mp hraw).2

theorem clampTtl_bounds (ttlSec : Int64) : 0 < (clampTtl ttlSec).toInt ∧ (clampTtl ttlSec).toInt ≤ 86400 := by
  have hmin : kTtlMinSec.toInt = 300 := rfl
  have hmax : kTtlMaxSec.toInt = 86400 := rfl
  simp only [clampTtl, Int64.lt_iff_toInt_lt]
  split_ifs <;> omega

def ClockRoom (nowUnixSec : Int64) : Prop := nowUnixSec.toInt + 86400 < 2 ^ 63

theorem toInt_expiry {nowUnixSec : Int64} (h : ClockRoom nowUnixSec) (ttlSec : Int64) :
    (nowUnixSec + clampTtl ttlSec).toInt = nowUnixSec.toInt + (clampTtl ttlSec).toInt := by
  have hle := nowUnixSec.le_toInt
  obtain ⟨hpos, hmax⟩ := clampTtl_bounds ttlSec
  unfold ClockRoom at h
  rw [Int64.toInt_add]
  exact Int.bmod_eq_of_le (by omega) (by omega)

variable {text : Int64Text}

def keyWrite (text : Int64Text) (realm host : GoogleString) (nowUnixSec ttlSec : Int64)
    (key : GoogleString × GoogleString) : Write GoogleString GoogleString :=
  ⟨cacheKey realm host key.1,
    some (serializeCacheEntry text true key.2 nowUnixSec (nowUnixSec + clampTtl ttlSec))⟩

theorem foldl_put (realm host : GoogleString) (nowUnixSec ttlSec : Int64)
    (keys : List (GoogleString × GoogleString)) (cache : DirectoryCache) :
    keys.foldl (fun cache key => cache.put (cacheKey realm host key.1)
        (serializeCacheEntry text true key.2 nowUnixSec (nowUnixSec + clampTtl ttlSec))) cache =
      ⟨cache.isBlocking, settle (keys.map (keyWrite text realm host nowUnixSec ttlSec)) cache.entries⟩ := by
  induction keys generalizing cache with
  | nil => rfl
  | cons key keys ih =>
    rw [List.foldl_cons, ih]
    rfl

variable {cache : DirectoryCache}

theorem warm_entries (hblocking : cache.isBlocking = true)
    (realm host jwksBody : GoogleString) (nowUnixSec ttlSec : Int64) :
    (warmKeyDirectoryCache text cache realm host jwksBody nowUnixSec ttlSec).1 =
      ⟨cache.isBlocking,
        settle ((kidKeys jwksBody).map (keyWrite text realm host nowUnixSec ttlSec)) cache.entries⟩ := by
  rw [← foldl_put, warmKeyDirectoryCache, hblocking, extractAllEd25519Keys_eq]
  rfl

theorem warm_entry (hblocking : cache.isBlocking = true)
    (realm host jwksBody : GoogleString) (nowUnixSec ttlSec : Int64) (kid : GoogleString) :
    (warmKeyDirectoryCache text cache realm host jwksBody nowUnixSec ttlSec).1.entries (cacheKey realm host kid) =
      ((kidKeys jwksBody).reverse.lookup kid).elim (cache.entries (cacheKey realm host kid)) fun raw =>
        some (serializeCacheEntry text true raw nowUnixSec (nowUnixSec + clampTtl ttlSec)) := by
  rw [warm_entries hblocking]
  dsimp only
  rw [settle_eq_lookup, List.map_map, ← List.map_reverse]
  have hlookup := lookup_map_of_injective (fun _ _ => cacheKey_injective realm host)
    (fun raw => some (serializeCacheEntry text true raw nowUnixSec (nowUnixSec + clampTtl ttlSec)))
    (kidKeys jwksBody).reverse kid
  refine (congrArg (Option.getD · _) hlookup).trans ?_
  cases (kidKeys jwksBody).reverse.lookup kid <;> rfl

theorem getKey_warm (htext : text.Lawful) (hblocking : cache.isBlocking = true)
    {p : CachedKeyDirectory} (honly : p.readThrough = false) (host jwksBody : GoogleString)
    {nowUnixSec : Int64} (hroom : ClockRoom nowUnixSec) (ttlSec : Int64) (kid : GoogleString)
    (hempty : cache.entries (cacheKey p.realm host kid) = none) :
    (p.getKey text (warmKeyDirectoryCache text cache p.realm host jwksBody nowUnixSec ttlSec).1 host kid
      nowUnixSec).1 = ((kidKeys jwksBody).reverse.lookup kid).elim .notFound .found := by
  have hread : readCache text (warmKeyDirectoryCache text cache p.realm host jwksBody nowUnixSec ttlSec).1
      (cacheKey p.realm host kid) nowUnixSec =
        ((kidKeys jwksBody).reverse.lookup kid).elim .miss fun raw => .answer (.found raw) := by
    have hkept : (warmKeyDirectoryCache text cache p.realm host jwksBody nowUnixSec ttlSec).1.isBlocking = true := by
      rw [warm_entries hblocking]
      exact hblocking
    rw [readCache, hkept, warm_entry hblocking, hempty]
    cases hlast : (kidKeys jwksBody).reverse.lookup kid with
    | none => rfl
    | some raw =>
      have hmem : (kid, raw) ∈ kidKeys jwksBody := List.mem_reverse.mp (mem_of_lookup hlast)
      have hlen : raw.length < 2 ^ 63 := by
        rw [length_of_mem_kidKeys hmem]
        decide
      have hlive : nowUnixSec < nowUnixSec + clampTtl ttlSec := by
        rw [Int64.lt_iff_toInt_lt, toInt_expiry hroom]
        have hpos := (clampTtl_bounds ttlSec).1
        omega
      simp only [Option.elim_some, deserializeCacheEntry_serialize htext true hlen, if_pos hlive]
      rfl
  rw [CachedKeyDirectory.getKey, hread, honly]
  cases (kidKeys jwksBody).reverse.lookup kid <;> rfl

def DirectoriesAgree (text : Int64Text) (cache : DirectoryCache) (p : CachedKeyDirectory)
    (host jwksDocument kid : GoogleString) (nowUnixSec ttlSec : Int64) : Prop :=
  let warm := (warmKeyDirectoryCache text cache p.realm host jwksDocument nowUnixSec ttlSec).1
  (∀ key, (p.getKey text warm host kid nowUnixSec).1 = .found key ↔ extractEd25519Key jwksDocument kid = some key) ∧
    (extractEd25519Key jwksDocument kid = none → (p.getKey text warm host kid nowUnixSec).1 = .notFound)

def FirstIsLast (jwksDocument kid : GoogleString) : Prop :=
  (kidKeys jwksDocument).lookup kid = (kidKeys jwksDocument).reverse.lookup kid

instance (jwksDocument kid : GoogleString) : Decidable (FirstIsLast jwksDocument kid) :=
  inferInstanceAs (Decidable (_ = _))

theorem directories_agree_iff (htext : text.Lawful) {cache : DirectoryCache} (hblocking : cache.isBlocking = true)
    (hempty : ∀ key, cache.entries key = none) {p : CachedKeyDirectory} (honly : p.readThrough = false)
    (host : GoogleString) {jwksDocument : GoogleString} (hkid : isKidlessSingle jwksDocument = false)
    (kid : GoogleString) {nowUnixSec : Int64} (hroom : ClockRoom nowUnixSec) (ttlSec : Int64) :
    DirectoriesAgree text cache p host jwksDocument kid nowUnixSec ttlSec ↔ FirstIsLast jwksDocument kid := by
  unfold DirectoriesAgree FirstIsLast
  dsimp only
  rw [getKey_warm htext hblocking honly host jwksDocument hroom ttlSec kid (hempty _), extractEd25519Key_eq hkid]
  generalize kidKeys jwksDocument = keys
  have hnone : keys.lookup kid = none ↔ keys.reverse.lookup kid = none := by
    simp only [List.lookup_eq_none_iff, List.mem_reverse]
  constructor
  · rintro ⟨hfound, hmissing⟩
    cases hfirst : keys.lookup kid with
    | none => exact (hnone.mp hfirst).symm
    | some key =>
      have hlast := (hfound key).mpr hfirst
      cases hreverse : keys.reverse.lookup kid with
      | none =>
        rw [hreverse] at hlast
        cases hlast
      | some key' =>
        rw [hreverse] at hlast
        injection hlast with hkey
        rw [hkey]
  · intro heq
    rw [← heq]
    cases keys.lookup kid with
    | none => simp
    | some key => simp

def jwkText (kid x : String) : GoogleString :=
  ascii "\x7b\"kty\":\"OKP\",\"crv\":\"Ed25519\",\"kid\":\"" ++ ascii kid ++ ascii "\",\"x\":\"" ++ ascii x ++
    ascii "\"\x7d"

def directoryText (objects : List GoogleString) : GoogleString :=
  ascii "\x7b\"keys\":[" ++ (ascii ",").intercalate objects ++ ascii "]\x7d"

def emptyCache : DirectoryCache := ⟨true, fun _ => none⟩

def cacheOnly : CachedKeyDirectory := ⟨fun _ _ _ => .error, ascii "wba", false, 0⟩

def firstX : String := "11qYAYKxCrfVS_7TyWQHOg7hcvPapiMlrwIaaPcHURo"

def secondX : String := "PUAXw-hDiVqStwqnTRt-vJyYLM8uxJaMwM1V8Sr0Zgw"

theorem directories_agree_iff_single :
    DirectoriesAgree Decimal.text emptyCache cacheOnly (ascii "bot.example")
        (directoryText [jwkText "a" firstX, jwkText "b" secondX]) (ascii "a") 1700000000 3600 ↔
      FirstIsLast (directoryText [jwkText "a" firstX, jwkText "b" secondX]) (ascii "a") :=
  directories_agree_iff Decimal.lawful rfl (fun _ => rfl) rfl (ascii "bot.example") (by decide +kernel) (ascii "a")
    (by unfold ClockRoom; decide) 3600

/-- Two keys with one id: the document gives the first, the cache the second. -/
theorem directories_disagree :
    ¬DirectoriesAgree Decimal.text emptyCache cacheOnly (ascii "bot.example")
      (directoryText [jwkText "a" firstX, jwkText "a" secondX]) (ascii "a") 1700000000 3600 := by
  intro h
  have hextract : extractEd25519Key (directoryText [jwkText "a" firstX, jwkText "a" secondX]) (ascii "a") =
      base64UrlDecode (ascii firstX) := by decide +kernel
  have hdecoded : (base64UrlDecode (ascii firstX)).isSome = true := by decide +kernel
  obtain ⟨key, hkey⟩ := Option.isSome_iff_exists.mp hdecoded
  have hfound := (h.1 key).mpr (hextract.trans hkey)
  have hother : (cacheOnly.getKey Decimal.text (warmKeyDirectoryCache Decimal.text emptyCache cacheOnly.realm
      (ascii "bot.example") (directoryText [jwkText "a" firstX, jwkText "a" secondX]) 1700000000 3600).1
      (ascii "bot.example") (ascii "a") 1700000000).1 =
        (base64UrlDecode (ascii secondX)).elim .notFound .found := by decide +kernel
  have hdiffer : (base64UrlDecode (ascii secondX)).elim KeyLookupResult.notFound .found ≠
      (base64UrlDecode (ascii firstX)).elim .notFound .found := by decide +kernel
  rw [hkey] at hdiffer
  exact hdiffer (hother.symm.trans hfound)

end PageSpeed.WebBotAuth
