import PageSpeed.Basic

/-!
What a cache holds, and the states a lookup reports (`kernel/base/cache_interface.h`).
-/

namespace PageSpeed

abbrev Contents := GoogleString → Option GoogleString

inductive KeyState where
  | available
  | notFound
  | overload
  | networkError
  | timeout
deriving DecidableEq

/-- The state that reaches `Done`, given the answer of `ValidateCandidate`. -/
def validateAndReportResult (state : KeyState) (valid : Bool) : KeyState :=
  if valid then state else .notFound

namespace Contents

theorem update_latest {l f : Contents} {key : GoogleString} {o : Option GoogleString}
    (h : ∀ k v, f k = some v → l k = some v) :
    ∀ k v, Function.update f key o k = some v → Function.update l key o k = some v := by
  intro k v hv
  by_cases hk : k = key
  · subst hk
    rwa [Function.update_self] at hv ⊢
  · rw [Function.update_of_ne hk] at hv ⊢
    exact h k v hv

theorem update_none {f : Contents} {key k : GoogleString} {v : GoogleString}
    (h : Function.update f key none k = some v) : f k = some v := by
  by_cases hk : k = key
  · subst hk; simp at h
  · rwa [Function.update_of_ne hk] at h

end Contents

end PageSpeed
