import PageSpeed.Cache.CacheInterface
import PageSpeed.Lib.Machine

/-!
The cache of `kernel/cache/fallback_cache.cc`, which keeps small values in one cache and large ones
in another. A one-byte marker in the small cache tells where a value is.
-/

namespace PageSpeed

structure FallbackCache where
  smallObjectCache : Contents
  largeObjectCache : Contents
  thresholdBytes : Int32
  accountForKeySize : Bool

namespace FallbackCache

def kInSmallObjectCache : UInt8 := 83
def kInLargeObjectCache : UInt8 := 76

def storeSizeForRouting (key : GoogleString) (valueSize : ℕ) (accountForKeySize : Bool) : Int64 :=
  Int64.ofNat valueSize + (if accountForKeySize then Int64.ofNat key.length else 0) + 1

structure Answers where
  small : Bool
  large : Bool
  tears : Bool
  validates : Bool

def Answers.found (a : Answers) (value : Option GoogleString) : Option GoogleString :=
  if validateAndReportResult (if value.isSome then .available else .notFound) a.validates = .available then value
  else none

/-- What `FallbackCallback` does with the value that the small cache has given it, empty for a miss. -/
def validateCandidate (c : FallbackCache) (key value : GoogleString) (a : Answers) : Option GoogleString :=
  if value.length = 1 ∧ value.head? = some kInLargeObjectCache then
    a.found (if a.large then c.largeObjectCache key else none)
  else if 1 ≤ value.length ∧ value.getLast? = some kInSmallObjectCache then
    if a.tears then none else a.found (some value.dropLast)
  else none

def get (c : FallbackCache) (key : GoogleString) (a : Answers) : Option GoogleString :=
  c.validateCandidate key (((if a.small then c.smallObjectCache key else none)).getD []) a

def put (c : FallbackCache) (key value : GoogleString) : FallbackCache :=
  if c.thresholdBytes.toInt64 < storeSizeForRouting key value.length c.accountForKeySize then
    { c with
      largeObjectCache := Function.update c.largeObjectCache key (some value)
      smallObjectCache := Function.update c.smallObjectCache key (some [kInLargeObjectCache]) }
  else
    { c with smallObjectCache := Function.update c.smallObjectCache key (some (value ++ [kInSmallObjectCache])) }

def delete (c : FallbackCache) (key : GoogleString) : FallbackCache :=
  { c with
    smallObjectCache := Function.update c.smallObjectCache key none
    largeObjectCache := Function.update c.largeObjectCache key none }

inductive Action where
  | put (key value : GoogleString)
  | delete (key : GoogleString)
  | get (key : GoogleString) (a : Answers)
  | dropSmall (key : GoogleString)
  | dropLarge (key : GoogleString)

structure Client where
  cache : FallbackCache
  latest : Contents

def Client.new (thresholdBytes : Int32) (accountForKeySize : Bool) : Client :=
  ⟨⟨fun _ => none, fun _ => none, thresholdBytes, accountForKeySize⟩, fun _ => none⟩

def step (s : Client) : Action → Option Client
  | .put key value => some ⟨s.cache.put key value, Function.update s.latest key (some value)⟩
  | .delete key => some ⟨s.cache.delete key, Function.update s.latest key none⟩
  | .get _ _ => some s
  | .dropSmall key =>
    some { s with cache.smallObjectCache := Function.update s.cache.smallObjectCache key none }
  | .dropLarge key =>
    some { s with cache.largeObjectCache := Function.update s.cache.largeObjectCache key none }

inductive Marks (latest large : Option GoogleString) : GoogleString → Prop
  | small (value : GoogleString) : latest = some value → Marks latest large (value ++ [kInSmallObjectCache])
  | large : (∀ value, large = some value → latest = some value) → Marks latest large [kInLargeObjectCache]

def Marked (s : Client) : Prop :=
  ∀ key entry, s.cache.smallObjectCache key = some entry →
    Marks (s.latest key) (s.cache.largeObjectCache key) entry

variable {v : GoogleString} {s : Client}

theorem found_le {a : Answers} {value : Option GoogleString} (h : a.found value = some v) : value = some v := by
  unfold Answers.found at h
  generalize validateAndReportResult _ a.validates = state at h
  split_ifs at h
  exact h

theorem Marks.mono {latest large large' : Option GoogleString} {entry : GoogleString} (h : Marks latest large entry)
    (hle : ∀ v, large' = some v → large = some v) : Marks latest large' entry := by
  cases h with
  | small value hvalue => exact .small value hvalue
  | large hlarge => exact .large fun v hv => hlarge v (hle v hv)

theorem validateCandidate_latest {c : FallbackCache} {key entry : GoogleString} {a : Answers}
    {latest : Option GoogleString} (hmarks : Marks latest (c.largeObjectCache key) entry)
    (h : c.validateCandidate key entry a = some v) : latest = some v := by
  unfold validateCandidate at h
  cases hmarks with
  | small value hvalue =>
    have hnot : ¬ ((value ++ [kInSmallObjectCache]).length = 1 ∧
        (value ++ [kInSmallObjectCache]).head? = some kInLargeObjectCache) := by
      rintro ⟨hlen, hhead⟩
      have hnil : value = [] := List.eq_nil_of_length_eq_zero (by simpa using hlen)
      subst hnil
      cases hhead
    rw [if_neg hnot, if_pos ⟨by simp, by simp⟩, List.dropLast_concat] at h
    split_ifs at h
    exact hvalue.trans (found_le h)
  | large hlarge =>
    rw [if_pos ⟨rfl, rfl⟩] at h
    have hfound := found_le h
    split_ifs at hfound
    exact hlarge v hfound

theorem get_latest (hs : Marked s) {key : GoogleString} {a : Answers}
    (h : s.cache.get key a = some v) : s.latest key = some v := by
  unfold get at h
  cases hentry : if a.small then s.cache.smallObjectCache key else none with
  | none =>
    rw [hentry] at h
    simp [validateCandidate] at h
  | some entry =>
    rw [hentry] at h
    split_ifs at hentry
    exact validateCandidate_latest (hs key entry hentry) h

theorem marked_put (hs : Marked s) (key value : GoogleString) :
    Marked ⟨s.cache.put key value, Function.update s.latest key (some value)⟩ := by
  intro k entry hentry
  unfold put at hentry ⊢
  split_ifs at hentry ⊢ with hlarge
  all_goals
    dsimp only at hentry ⊢
    by_cases hk : k = key
    · subst hk
      simp only [Function.update_self] at hentry ⊢
      cases hentry
      first
      | exact .large fun v hv => hv
      | exact .small value rfl
    · simp only [Function.update_of_ne hk] at hentry ⊢
      exact hs k entry hentry

theorem marked_step {t : Client} {a : Action} (hs : Marked s) (h : step s a = some t) : Marked t := by
  cases a with
  | put key value => cases h; exact marked_put hs key value
  | delete key =>
    cases h
    intro k entry hentry
    dsimp only [delete] at hentry ⊢
    by_cases hk : k = key
    · subst hk
      simp at hentry
    · simp only [Function.update_of_ne hk] at hentry ⊢
      exact hs k entry hentry
  | get key a => cases h; exact hs
  | dropSmall key => cases h; exact fun k entry hentry => hs k entry (Contents.update_none hentry)
  | dropLarge key =>
    cases h
    exact fun k entry hentry => (hs k entry hentry).mono fun v hv => Contents.update_none hv

theorem marked_new (thresholdBytes : Int32) (accountForKeySize : Bool) :
    Marked (Client.new thresholdBytes accountForKeySize) := by
  intro key entry h
  cases h

theorem marked_run {thresholdBytes : Int32} {accountForKeySize : Bool} {actions : List Action}
    (h : Machine.run step (Client.new thresholdBytes accountForKeySize) actions = some s) : Marked s :=
  Machine.run_invariant (fun _ _ _ _ hs ht => marked_step hs ht) (marked_new thresholdBytes accountForKeySize)
    (Machine.meets_true actions) h

/-- A lookup misses, or it finds what was put last and not deleted since. -/
theorem get_of_run {thresholdBytes : Int32} {accountForKeySize : Bool} {actions : List Action} {s : Client}
    (h : Machine.run step (Client.new thresholdBytes accountForKeySize) actions = some s) (key : GoogleString)
    (a : Answers) : s.cache.get key a = none ∨ s.cache.get key a = s.latest key := by
  cases hget : s.cache.get key a with
  | none => exact Or.inl rfl
  | some v => exact Or.inr (get_latest (marked_run h) hget).symm

/-- A value that was large and is now small, with its old version still in the large cache. -/
theorem get_of_run_migrated :
    ∃ s, Machine.run step (Client.new 3 true) [.put [107] [1, 2, 3], .put [107] [kInLargeObjectCache]] = some s ∧
      (s.cache.get [107] ⟨true, true, false, true⟩ = none ∨
        s.cache.get [107] ⟨true, true, false, true⟩ = s.latest [107]) :=
  ⟨_, rfl, @get_of_run 3 true [.put [107] [1, 2, 3], .put [107] [kInLargeObjectCache]] _ rfl [107]
    ⟨true, true, false, true⟩⟩

end FallbackCache

end PageSpeed
