import Mathlib.Data.List.Basic

/-!
Writes to a store of optional values, kept in a list until they are applied. The
store that results from applying them all is decided, key by key, by the last
write of that key.
-/

namespace PageSpeed.Writes

variable {K V : Type*}

structure Write (K V : Type*) where
  key : K
  entry : Option V
deriving DecidableEq

variable [DecidableEq K]

def Write.apply (w : Write K V) (m : K → Option V) : K → Option V := Function.update m w.key w.entry

def settle (ws : List (Write K V)) (m : K → Option V) : K → Option V := ws.foldl (fun m w => w.apply m) m

theorem settle_cons (w : Write K V) (ws : List (Write K V)) (m : K → Option V) :
    settle (w :: ws) m = settle ws (w.apply m) := rfl

theorem settle_append (vs ws : List (Write K V)) (m : K → Option V) :
    settle (vs ++ ws) m = settle ws (settle vs m) := List.foldl_append

theorem settle_untouched {ws : List (Write K V)} {key : K} (h : ∀ w ∈ ws, w.key ≠ key) (m : K → Option V) :
    settle ws m key = m key := by
  induction ws generalizing m with
  | nil => rfl
  | cons w ws ih =>
    rw [settle_cons, ih (fun v hv => h v (List.mem_cons_of_mem w hv))]
    exact Function.update_of_ne (h w List.mem_cons_self).symm _ _

theorem settle_last {ws : List (Write K V)} {key : K} (h : ∃ w ∈ ws, w.key = key) :
    ∃ w ∈ ws, w.key = key ∧ ∀ m, settle ws m key = w.entry := by
  induction ws with
  | nil => simp at h
  | cons w ws ih =>
    by_cases hlater : ∃ v ∈ ws, v.key = key
    · obtain ⟨v, hv, hkey, hlast⟩ := ih hlater
      exact ⟨v, List.mem_cons_of_mem w hv, hkey, fun m => hlast _⟩
    · have hkey : w.key = key := by
        obtain ⟨v, hv, hvk⟩ := h
        obtain rfl | hv := List.mem_cons.mp hv
        · exact hvk
        · exact absurd ⟨v, hv, hvk⟩ hlater
      refine ⟨w, List.mem_cons_self, hkey, fun m => ?_⟩
      rw [settle_cons, settle_untouched (fun v hv hvk => hlater ⟨v, hv, hvk⟩), ← hkey]
      exact Function.update_self _ _ _

theorem settle_eq_lookup [BEq K] [LawfulBEq K] (ws : List (Write K V)) (m : K → Option V) (key : K) :
    settle ws m key = ((ws.map fun w => (w.key, w.entry)).reverse.lookup key).getD (m key) := by
  induction ws generalizing m with
  | nil => rfl
  | cons w ws ih =>
    rw [settle_cons, ih, List.map_cons, List.reverse_cons, List.lookup_append]
    cases (ws.map fun w => (w.key, w.entry)).reverse.lookup key with
    | some entry => rfl
    | none =>
      rw [Option.none_or, List.lookup_cons, Write.apply, Option.getD_none]
      by_cases hkey : key = w.key
      · rw [hkey, Function.update_self, beq_self_eq_true]
        rfl
      · rw [Function.update_of_ne hkey, beq_false_of_ne hkey]
        rfl

theorem settle_congr {ws : List (Write K V)} {key : K} {m m' : K → Option V} (h : m key = m' key) :
    settle ws m key = settle ws m' key := by
  by_cases hkey : ∃ w ∈ ws, w.key = key
  · obtain ⟨w, -, -, hlast⟩ := settle_last hkey
    rw [hlast, hlast]
  · have hne : ∀ w ∈ ws, w.key ≠ key := fun w hw hk => hkey ⟨w, hw, hk⟩
    rw [settle_untouched hne, settle_untouched hne, h]

end PageSpeed.Writes
