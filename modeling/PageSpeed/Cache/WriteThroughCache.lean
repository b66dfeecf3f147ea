import PageSpeed.Cache.CacheInterface
import PageSpeed.Lib.Machine

/-!
The two-level cache of `kernel/cache/write_through_cache.cc` over two inner
caches, each of which holds for a key the value last put and may drop it at any
time or miss it in one lookup. A client remembers what it last wrote.
-/

namespace PageSpeed

structure WriteThroughCache where
  cache1 : Contents
  cache2 : Contents
  cache1SizeLimit : ℕ

namespace WriteThroughCache

def unlimited : ℕ := 2 ^ 64 - 1

def fitsCache1 (limit : ℕ) (key value : GoogleString) : Bool :=
  limit == unlimited || decide (key.length + value.length < limit)

def putInCache1 (c : WriteThroughCache) (key value : GoogleString) : WriteThroughCache :=
  if fitsCache1 c.cache1SizeLimit key value then { c with cache1 := Function.update c.cache1 key (some value) } else c

structure Lookup where
  answers : Bool
  validates : Bool

def Lookup.state (l : Lookup) (found : Option GoogleString) : KeyState :=
  validateAndReportResult (if l.answers && found.isSome then .available else .notFound) l.validates

structure Answers where
  level1 : Lookup
  level2 : Lookup
  tears : Bool

def get (c : WriteThroughCache) (key : GoogleString) (a : Answers) : Option GoogleString × WriteThroughCache :=
  if a.level1.state (c.cache1 key) = .available then (c.cache1 key, c)
  else if a.level2.state (c.cache2 key) = .available then
    match c.cache2 key with
    | some value => (some value, if a.tears then c else c.putInCache1 key value)
    | none => (none, c)
  else (none, c)

def put (c : WriteThroughCache) (key value : GoogleString) : WriteThroughCache :=
  { c.putInCache1 key value with cache2 := Function.update c.cache2 key (some value) }

def delete (c : WriteThroughCache) (key : GoogleString) : WriteThroughCache :=
  { c with cache1 := Function.update c.cache1 key none, cache2 := Function.update c.cache2 key none }

inductive Action where
  | put (key value : GoogleString)
  | delete (key : GoogleString)
  | get (key : GoogleString) (a : Answers)
  | drop1 (key : GoogleString)
  | drop2 (key : GoogleString)

structure Client where
  cache : WriteThroughCache
  latest : Contents

def Client.new (limit : ℕ) : Client := ⟨⟨fun _ => none, fun _ => none, limit⟩, fun _ => none⟩

def step (s : Client) : Action → Option Client
  | .put key value => some ⟨s.cache.put key value, Function.update s.latest key (some value)⟩
  | .delete key => some ⟨s.cache.delete key, Function.update s.latest key none⟩
  | .get key a => some ⟨(s.cache.get key a).2, s.latest⟩
  | .drop1 key => some { s with cache.cache1 := Function.update s.cache.cache1 key none }
  | .drop2 key => some { s with cache.cache2 := Function.update s.cache.cache2 key none }

def PutsOver (s : Client) : Action → Prop
  | .put key value => fitsCache1 s.cache.cache1SizeLimit key value = true ∨ s.cache.cache1 key = none
  | _ => True

structure Fresh (s : Client) : Prop where
  cache1 : ∀ key v, s.cache.cache1 key = some v → s.latest key = some v
  cache2 : ∀ key v, s.cache.cache2 key = some v → s.latest key = some v

def Fits (limit : ℕ) (s : Client) : Prop :=
  s.cache.cache1SizeLimit = limit ∧ ∀ key v, s.cache.cache1 key = some v → fitsCache1 limit key v = true

variable {key : GoogleString}

theorem get_found {c : WriteThroughCache} {a : Answers} {v : GoogleString}
    (h : (c.get key a).1 = some v) : c.cache1 key = some v ∨ c.cache2 key = some v := by
  unfold get at h
  by_cases h1 : a.level1.state (c.cache1 key) = .available
  · rw [if_pos h1] at h
    exact Or.inl h
  rw [if_neg h1] at h
  by_cases h2 : a.level2.state (c.cache2 key) = .available
  · rw [if_pos h2] at h
    cases hv : c.cache2 key with
    | none => rw [hv] at h; cases h
    | some w => rw [hv] at h; exact Or.inr h
  · rw [if_neg h2] at h
    cases h

theorem putInCache1_cache1 (c : WriteThroughCache) (key value : GoogleString) :
    (c.putInCache1 key value).cache1 =
      if fitsCache1 c.cache1SizeLimit key value then Function.update c.cache1 key (some value) else c.cache1 := by
  unfold putInCache1
  split_ifs <;> rfl

theorem putInCache1_rest (c : WriteThroughCache) (key value : GoogleString) :
    (c.putInCache1 key value).cache2 = c.cache2 ∧
      (c.putInCache1 key value).cache1SizeLimit = c.cache1SizeLimit := by
  unfold putInCache1
  split_ifs <;> exact ⟨rfl, rfl⟩

theorem get_cache (c : WriteThroughCache) (key : GoogleString) (a : Answers) :
    (c.get key a).2 = c ∨ ∃ v, c.cache2 key = some v ∧ (c.get key a).2 = c.putInCache1 key v := by
  unfold get
  by_cases h1 : a.level1.state (c.cache1 key) = .available
  · rw [if_pos h1]
    exact Or.inl rfl
  rw [if_neg h1]
  by_cases h2 : a.level2.state (c.cache2 key) = .available
  · rw [if_pos h2]
    cases hv : c.cache2 key with
    | none => exact Or.inl rfl
    | some v =>
      cases ht : a.tears with
      | true => exact Or.inl (by simp)
      | false => exact Or.inr ⟨v, rfl, by simp⟩
  · rw [if_neg h2]
    exact Or.inl rfl

theorem step_fits {limit : ℕ} {s t : Client} {a : Action} (hs : Fits limit s) (h : step s a = some t) :
    Fits limit t := by
  have hput : ∀ key v, Fits limit ⟨s.cache.putInCache1 key v, s.latest⟩ := by
    intro key v
    refine ⟨(putInCache1_rest _ _ _).2.trans hs.1, ?_⟩
    intro k w hw
    rw [putInCache1_cache1, hs.1] at hw
    split_ifs at hw with hfit
    · by_cases hk : k = key
      · subst hk
        rw [Function.update_self] at hw
        cases hw
        exact hfit
      · rw [Function.update_of_ne hk] at hw
        exact hs.2 k w hw
    · exact hs.2 k w hw
  have hdrop : ∀ key k w, Function.update s.cache.cache1 key none k = some w → fitsCache1 limit k w = true := by
    intro key k w hw
    by_cases hk : k = key
    · subst hk; simp at hw
    · rw [Function.update_of_ne hk] at hw
      exact hs.2 k w hw
  cases a with
  | put key value => cases h; exact hput key value
  | delete key => cases h; exact ⟨hs.1, hdrop key⟩
  | get key a =>
    cases h
    rcases get_cache s.cache key a with hc | ⟨v, -, hc⟩
    · rw [hc]; exact hs
    · rw [hc]; exact hput key v
  | drop1 key => cases h; exact ⟨hs.1, hdrop key⟩
  | drop2 key => cases h; exact hs

theorem step_fresh {s t : Client} {a : Action} (ha : PutsOver s a) (hs : Fresh s) (h : step s a = some t) :
    Fresh t := by
  cases a with
  | put key value =>
    cases h
    refine ⟨?_, Contents.update_latest hs.cache2⟩
    change ∀ k v, (s.cache.putInCache1 key value).cache1 k = some v → _
    rw [putInCache1_cache1]
    split_ifs with hfit
    · exact Contents.update_latest hs.cache1
    · intro k v hv
      have hnone := ha.resolve_left hfit
      have hk : k ≠ key := fun hk => by rw [hk, hnone] at hv; cases hv
      change Function.update s.latest key (some value) k = some v
      rw [Function.update_of_ne hk]
      exact hs.cache1 k v hv
  | delete key => cases h; exact ⟨Contents.update_latest hs.cache1, Contents.update_latest hs.cache2⟩
  | get key a =>
    cases h
    rcases get_cache s.cache key a with hc | ⟨v, hv, hc⟩
    · rw [hc]; exact hs
    · rw [hc]
      refine ⟨?_, fun k w hw => hs.cache2 k w ((putInCache1_rest _ _ _).1 ▸ hw)⟩
      intro k w hw
      change (s.cache.putInCache1 key v).cache1 k = some w at hw
      rw [putInCache1_cache1] at hw
      split_ifs at hw
      · by_cases hk : k = key
        · subst hk
          rw [Function.update_self] at hw
          cases hw
          exact hs.cache2 _ _ hv
        · rw [Function.update_of_ne hk] at hw
          exact hs.cache1 k w hw
      · exact hs.cache1 k w hw
  | drop1 key => cases h; exact ⟨fun k v hv => hs.cache1 k v (Contents.update_none hv), hs.cache2⟩
  | drop2 key => cases h; exact ⟨hs.cache1, fun k v hv => hs.cache2 k v (Contents.update_none hv)⟩

theorem new_fresh (limit : ℕ) : Fresh (Client.new limit) := ⟨by simp [Client.new], by simp [Client.new]⟩

theorem new_fits (limit : ℕ) : Fits limit (Client.new limit) := ⟨rfl, by simp [Client.new]⟩

def Answers.plain : Answers := ⟨⟨true, true⟩, ⟨true, true⟩, false⟩

theorem get_cache1 {c : WriteThroughCache} {v : GoogleString} (h : c.cache1 key = some v) :
    (c.get key Answers.plain).1 = some v := by
  have hstate : Answers.plain.level1.state (c.cache1 key) = .available := by rw [h]; rfl
  unfold get
  rw [if_pos hstate]
  exact h

theorem put_over_stale {limit : ℕ} {s : Client} {value : GoogleString} (hs : Fits limit s)
    (h : ¬ PutsOver s (.put key value)) :
    ∃ v, v ≠ value ∧ s.cache.cache1 key = some v ∧
      ((s.cache.put key value).get key Answers.plain).1 = some v := by
  obtain ⟨hfit, hheld⟩ := not_or.mp h
  obtain ⟨v, hv⟩ := Option.ne_none_iff_exists'.mp hheld
  refine ⟨v, ?_, hv, get_cache1 ?_⟩
  · rintro rfl
    apply hfit
    rw [hs.1]
    exact hs.2 key v hv
  · change (s.cache.putInCache1 key value).cache1 key = some v
    rw [putInCache1_cache1, if_neg hfit]
    exact hv

theorem get_latest_iff_puts_over (limit : ℕ) :
    (∀ as t, Machine.Meets step PutsOver (Client.new limit) as →
        Machine.run step (Client.new limit) as = some t →
        ∀ key a, (t.cache.get key a).1 = none ∨ (t.cache.get key a).1 = t.latest key) ∧
      ∀ as t key value, Machine.run step (Client.new limit) as = some t → ¬ PutsOver t (.put key value) →
        ∃ u v, step t (.put key value) = some u ∧ u.latest key = some value ∧ v ≠ value ∧
          (u.cache.get key Answers.plain).1 = some v := by
  constructor
  · intro as t hm h key a
    have ht : Fresh t := Machine.run_invariant (fun _ _ _ ha hs => step_fresh ha hs) (new_fresh limit) hm h
    cases hg : (t.cache.get key a).1 with
    | none => exact Or.inl rfl
    | some v =>
      refine Or.inr ?_
      obtain h1 | h2 := get_found hg
      · exact (ht.cache1 key v h1).symm
      · exact (ht.cache2 key v h2).symm
  · intro as t key value h hput
    have ht : Fits limit t :=
      Machine.run_invariant (fun _ _ _ _ hs => step_fits hs) (new_fits limit) (Machine.meets_true as) h
    obtain ⟨v, hne, -, hv⟩ := put_over_stale ht hput
    exact ⟨_, v, rfl, Function.update_self _ _ _, hne, hv⟩

theorem get_latest_small_puts :
    (((Client.new 4).cache.put [107] [97]).get [107] Answers.plain).1 = some [97] ∧
      ∀ t, Machine.run step (Client.new 4) [.put [107] [97]] = some t →
        ∀ a, (t.cache.get [107] a).1 = none ∨ (t.cache.get [107] a).1 = t.latest [107] :=
  ⟨by decide, fun t h =>
    (get_latest_iff_puts_over 4).1 [.put [107] [97]] t ⟨Or.inl (by decide), fun _ _ => trivial⟩ h [107]⟩

theorem get_stale_after_large_put :
    ∃ t, Machine.run step (Client.new 4) [.put [107] [97], .put [107] [97, 98, 99, 100]] = some t ∧
      t.latest [107] = some [97, 98, 99, 100] ∧ (t.cache.get [107] Answers.plain).1 = some [97] :=
  ⟨_, rfl, rfl, by decide⟩

end WriteThroughCache

end PageSpeed
