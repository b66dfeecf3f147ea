import PageSpeed.Http.CacheFields

/-!
What must hold of a response for `ComputeCaching` to let a proxy cache it, and for how long.
-/

namespace PageSpeed

variable {v : GoogleString}

theorem stringCaseStartsWith_iff {start : GoogleString} :
    stringCaseStartsWith v start = true ↔ start.map upperChar <+: v.map upperChar := by
  rw [stringCaseStartsWith, Bool.and_eq_true, decide_eq_true_eq, stringCaseEqual, beq_iff_eq, List.prefix_iff_eq_take,
    List.length_map, List.map_take]
  constructor
  · exact And.right
  · intro h
    constructor
    · have hlen := congrArg List.length h
      rw [List.length_map, List.length_take, List.length_map] at hlen
      omega
    · exact h

theorem startsWith_of_equal {start : GoogleString} (h : stringCaseEqual v start = true) :
    stringCaseStartsWith v start = true := by
  rw [stringCaseEqual, beq_iff_eq] at h
  rw [stringCaseStartsWith_iff]
  exact h ▸ List.prefix_rfl

def Apart (a b : GoogleString) : Prop :=
  stringCaseStartsWith a b = false ∧ stringCaseStartsWith b a = false

instance (a b : GoogleString) : Decidable (Apart a b) := inferInstanceAs (Decidable (_ ∧ _))

theorem Apart.startsWith {a b : GoogleString} (hab : Apart a b) (ha : stringCaseStartsWith v a = true) :
    stringCaseStartsWith v b = false := by
  apply Bool.eq_false_iff.mpr
  intro hb
  obtain h | h := List.prefix_or_prefix_of_prefix (stringCaseStartsWith_iff.mp ha) (stringCaseStartsWith_iff.mp hb)
  · exact Bool.eq_false_iff.mp hab.2 (stringCaseStartsWith_iff.mpr h)
  · exact Bool.eq_false_iff.mp hab.1 (stringCaseStartsWith_iff.mpr h)

theorem Apart.equal {a b : GoogleString} (hab : Apart a b) (ha : stringCaseStartsWith v a = true) :
    stringCaseEqual v b = false := by
  apply Bool.eq_false_iff.mpr
  intro hb
  exact Bool.eq_false_iff.mp (hab.startsWith ha) (startsWith_of_equal hb)

def seconds (start value : GoogleString) : Option ℤ :=
  if stringCaseStartsWith value start then stringToInt (substrFrom value start.length) else none

def lastSeconds (start : GoogleString) (values : List GoogleString) : Option ℤ :=
  (values.filterMap (seconds start)).getLast?

theorem lastSeconds_append (start : GoogleString) (values : List GoogleString) (value : GoogleString) :
    lastSeconds start (values ++ [value]) = (seconds start value).or (lastSeconds start values) := by
  rw [lastSeconds, List.filterMap_append, List.filterMap_cons, List.filterMap_nil]
  cases seconds start value with
  | none => rw [List.append_nil]; rfl
  | some n => rw [List.getLast?_append]; rfl

namespace CacheControl

variable (cc : CacheControl) (value : GoogleString)

/-- No directive is the start of another one, so it does not matter in which order they are looked for. -/
theorem parseDirective_spec :
    (cc.parseDirective value).isPrivate = (cc.isPrivate || stringCaseStartsWith value (ascii "private")) ∧
      (cc.parseDirective value).noCache = (cc.noCache || stringCaseStartsWith value (ascii "no-cache")) ∧
      (cc.parseDirective value).noStore = (cc.noStore || stringCaseEqual value (ascii "no-store")) ∧
      (cc.parseDirective value).maxAgeSeconds = (seconds (ascii "max-age=") value).or cc.maxAgeSeconds ∧
      (cc.parseDirective value).sMaxAgeSeconds = (seconds (ascii "s-maxage=") value).or cc.sMaxAgeSeconds := by
  have hprefix : ∀ (a : GoogleString) (bs : List GoogleString), (∀ b ∈ bs, Apart a b) → stringCaseStartsWith value a = true →
      ∀ b ∈ bs, stringCaseStartsWith value b = false ∧ stringCaseEqual value b = false :=
    fun a bs hbs ha b hb => ⟨(hbs b hb).startsWith ha, (hbs b hb).equal ha⟩
  unfold parseDirective seconds
  split
  · next h =>
    have hoff := hprefix _ [ascii "private", ascii "no-cache", ascii "no-store", ascii "max-age=", ascii "s-maxage="]
      (by decide) (startsWith_of_equal h)
    simp_all
  · split
    · next h =>
      have hoff := hprefix _ [ascii "no-cache", ascii "no-store", ascii "max-age=", ascii "s-maxage="] (by decide) h
      simp_all
    · split
      · next h =>
        have hoff := hprefix _ [ascii "no-store", ascii "max-age=", ascii "s-maxage="] (by decide) h
        simp_all
      · split
        · next h =>
          have hoff := hprefix _ [ascii "max-age=", ascii "s-maxage="] (by decide) (startsWith_of_equal h)
          simp_all
        · split
          · next h =>
            have hoff := hprefix _ [ascii "max-age="] (by decide) h
            have hlen : (ascii "s-maxage=").length = 9 := rfl
            simp_all
          · have hlen : (ascii "max-age=").length = 8 := rfl
            split_ifs <;> simp_all

end CacheControl

theorem parseCacheControl_spec (values : List GoogleString) :
    (parseCacheControl values).isPrivate = values.any (stringCaseStartsWith · (ascii "private")) ∧
      (parseCacheControl values).noCache = values.any (stringCaseStartsWith · (ascii "no-cache")) ∧
      (parseCacheControl values).noStore = values.any (stringCaseEqual · (ascii "no-store")) ∧
      (parseCacheControl values).maxAgeSeconds = lastSeconds (ascii "max-age=") values ∧
      (parseCacheControl values).sMaxAgeSeconds = lastSeconds (ascii "s-maxage=") values := by
  induction values using List.reverseRecOn with
  | nil => exact ⟨rfl, rfl, rfl, rfl, rfl⟩
  | append_singleton values value ih =>
    obtain ⟨hprivate, hnoCache, hnoStore, hmaxAge, hsMaxAge⟩ := ih
    have hlast : parseCacheControl (values ++ [value]) = (parseCacheControl values).parseDirective value :=
      List.foldl_concat ..
    obtain ⟨hprivate', hnoCache', hnoStore', hmaxAge', hsMaxAge'⟩ :=
      CacheControl.parseDirective_spec (parseCacheControl values) value
    rw [hlast, hprivate', hnoCache', hnoStore', hmaxAge', hsMaxAge', hprivate, hnoCache, hnoStore, hmaxAge, hsMaxAge,
      lastSeconds_append, lastSeconds_append]
    simp only [List.any_append, List.any_cons, List.any_nil, Bool.or_false, and_self]

namespace CachingHeaders

variable {t : TimeText} {c : CachingHeaders}

theorem not_noCache_of_isCacheable (h : c.isCacheable t = true) : c.hasExplicitNoCacheDirective t = false := by
  apply Bool.eq_false_iff.mpr
  intro hno
  rw [isCacheable, freshnessLifetimeMillis, if_pos hno] at h
  cases h

theorem freshness_eq (h : c.hasExplicitNoCacheDirective t = false) :
    c.freshnessLifetimeMillis t = (c.grantedLifetimeMs t).map fun lifetime =>
      match c.cacheControl.sMaxAgeSeconds with
      | some sMaxAge => min lifetime (1000 * sMaxAge)
      | none => lifetime := by
  rw [freshnessLifetimeMillis]
  exact if_neg (by rw [h]; exact Bool.false_ne_true)

end CachingHeaders

namespace ResponseHeaders

open StringMultiMap

variable {t : TimeText} {r : ResponseHeaders}

theorem values_eq (hf : r.lines.Faithful) : r.values = Headers.linesOf r.lines.headers := by
  funext name
  rw [values, hf.lookup, getD_present]

theorem unforced (hforce : r.forceCacheTtlMs ≤ 0) :
    r.isForceCached t = false ∧ r.ttlMs t = r.ownTtlMs t ∧
      (r.isBrowserCacheable t = true → r.computer.isCacheable t = true) := by
  have hoff : r.forceCachingEnabled = false := by
    rw [forceCachingEnabled, decide_eq_false (fun h => by omega), Bool.false_and]
  have hnot : r.isForceCached t = false := by rw [isForceCached, hoff, Bool.false_and]
  refine ⟨hnot, ?_, ?_⟩
  · rw [ttlMs, hnot, if_neg Bool.false_ne_true]
  · intro hcacheable
    rw [isBrowserCacheable, hoff, Bool.false_or, Bool.and_eq_true] at hcacheable
    exact hcacheable.2

def Storable (t : TimeText) (r : ResponseHeaders) : Prop :=
  (r.parseDateHeader t HttpAttributes.kDate).isSome = true ∧ r.computer.isAllowedCacheableStatusCode = true ∧
    r.computer.isProxyCacheable t = true ∧ r.guardsCookies = false

theorem proxyCacheable_iff {t : TimeText} {r : ResponseHeaders} (hdirty : r.cacheFieldsDirty = true)
    (hforce : r.forceCacheTtlMs ≤ 0) : (r.computeCaching t).proxyCacheable = true ↔ r.Storable t := by
  obtain ⟨hnot, -, hbrowser⟩ := @unforced t r hforce
  have hproxy : (r.computeCaching t).proxyCacheable = (r.isBrowserCacheable t && r.isProxyCacheable t) :=
    congrArg CacheFields.proxyCacheable (fields_computeCaching t hdirty)
  rw [hproxy, Bool.and_eq_true, isProxyCacheable, hnot, Bool.false_or, Bool.and_eq_true, Bool.not_eq_true', Storable]
  constructor
  · rintro ⟨hcacheable, hcomputer, hguards⟩
    rw [isBrowserCacheable, Bool.and_eq_true, Bool.and_eq_true] at hcacheable
    exact ⟨hcacheable.1.1, hcacheable.1.2, hcomputer, hguards⟩
  · rintro ⟨hdate, hallowed, hcomputer, hguards⟩
    have hcacheable : r.computer.isCacheable t = true := by
      rw [CachingHeaders.isProxyCacheable, Bool.and_eq_true] at hcomputer
      exact hcomputer.1
    rw [isBrowserCacheable, hdate, hallowed, hcacheable, Bool.or_true]
    exact ⟨rfl, hcomputer, hguards⟩

def april : TimeText where
  parseTime s :=
    if s = ascii "Mon, 05 Apr 2010 18:51:26 GMT" then some 1270493486000
    else if s = ascii "Mon, 05 Apr 2010 18:56:26 GMT" then some 1270493786000
    else none
  timeToString timeMs :=
    if timeMs = 1270493486000 then some (ascii "Mon, 05 Apr 2010 18:51:26 GMT")
    else if timeMs = 1270493786000 then some (ascii "Mon, 05 Apr 2010 18:56:26 GMT")
    else none

/-- A style sheet with a `Cache-Control`. -/
def styleSheet (cacheControl : GoogleString) : ResponseHeaders :=
  { lines :=
      { headers := [⟨HttpAttributes.kDate, ascii "Mon, 05 Apr 2010 18:51:26 GMT"⟩,
          ⟨HttpAttributes.kContentType, ascii "text/css"⟩, ⟨HttpAttributes.kCacheControl, cacheControl⟩]
        cacheFieldsDirty := true }
    statusCode := some 200 }

end ResponseHeaders

end PageSpeed
