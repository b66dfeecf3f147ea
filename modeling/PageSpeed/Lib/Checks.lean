import Mathlib.Data.List.Basic

/-!
Functions that run through checks, each with the error that it fails with.
-/

namespace Checks

variable {ε α β : Type}

def refuse (bad : Bool) (e : ε) : Except ε Unit := if bad then .error e else .ok ()

def orRefuse (value : Option α) (e : ε) : Except ε α := value.elim (.error e) .ok

theorem of_bind_eq_ok {x : Except ε α} {f : α → Except ε β} {b : β} (h : x >>= f = .ok b) :
    ∃ a, x = .ok a ∧ f a = .ok b := by
  cases x with
  | error e => cases h
  | ok a => exact ⟨a, rfl, h⟩

theorem not_of_refuse {bad : Bool} {e : ε} {u : Unit} (h : refuse bad e = .ok u) : bad = false := by
  unfold refuse at h
  split_ifs at h with hbad
  exact Bool.eq_false_iff.mpr hbad

theorem some_of_orRefuse {value : Option α} {e : ε} {a : α} (h : orRefuse value e = .ok a) : value = some a := by
  cases value with
  | none => cases h
  | some b =>
    injection h with hb
    rw [hb]

def Fails (P : ε → Prop) (x : Except ε α) : Prop := ∀ e, x = .error e → P e

variable {P : ε → Prop}

theorem Fails.bind {x : Except ε α} {f : α → Except ε β} (hx : Fails P x) (hf : ∀ a, Fails P (f a)) :
    Fails P (x >>= f) := by
  intro e h
  cases x with
  | error e' =>
    injection h with he
    exact he ▸ hx e' rfl
  | ok a => exact hf a e h

theorem fails_refuse {bad : Bool} {e : ε} (h : P e) : Fails P (refuse bad e) := by
  intro e' he
  unfold refuse at he
  split_ifs at he
  injection he with he
  exact he ▸ h

theorem fails_orRefuse {value : Option α} {e : ε} (h : P e) : Fails P (orRefuse value e) := by
  intro e' he
  cases value with
  | none =>
    injection he with he
    exact he ▸ h
  | some a => cases he

theorem fails_ok (a : α) : Fails P (.ok a) := nofun

theorem fails_error {e : ε} (h : P e) : Fails P (.error e : Except ε α) := by
  intro e' he
  injection he with he
  exact he ▸ h

end Checks
