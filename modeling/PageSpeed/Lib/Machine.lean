import Mathlib.Data.List.Basic

/-!
Runs of a machine whose step function says which actions are enabled. A run is
a list of actions; `Meets` says that every action of a run satisfies a
condition on the state it is taken in.
-/

namespace PageSpeed.Machine

variable {S A : Type*}

def run (step : S → A → Option S) : S → List A → Option S
  | s, [] => some s
  | s, a :: as => (step s a).bind fun t => run step t as

def Meets (step : S → A → Option S) (G : S → A → Prop) : S → List A → Prop
  | _, [] => True
  | s, a :: as => G s a ∧ ∀ t, step s a = some t → Meets step G t as

/-- `P` holds in every state of the run. -/
def Always (step : S → A → Option S) (P : S → Prop) : S → List A → Prop
  | s, [] => P s
  | s, a :: as => P s ∧ ∀ t, step s a = some t → Always step P t as

/-- Every step of the run goes from a state to one that `R` relates to it. -/
def Steps (step : S → A → Option S) (R : S → S → Prop) : S → List A → Prop
  | _, [] => True
  | s, a :: as => ∀ t, step s a = some t → R s t ∧ Steps step R t as

variable {step : S → A → Option S} {G : S → A → Prop} {Inv P : S → Prop} {R : S → S → Prop}

instance decidableMeets [∀ s a, Decidable (G s a)] : ∀ s as, Decidable (Meets step G s as)
  | _, [] => .isTrue trivial
  | s, a :: as =>
    match h : step s a with
    | none => decidable_of_iff (G s a) (by simp [Meets, h])
    | some t =>
      have := decidableMeets t as
      decidable_of_iff (G s a ∧ Meets step G t as) (by simp [Meets, h])

theorem run_cons {s u : S} {a : A} {as : List A} :
    run step s (a :: as) = some u ↔ ∃ t, step s a = some t ∧ run step t as = some u :=
  Option.bind_eq_some_iff

theorem run_append {s u : S} {as bs : List A} :
    run step s (as ++ bs) = some u ↔ ∃ t, run step s as = some t ∧ run step t bs = some u := by
  induction as generalizing s with
  | nil => simp [run]
  | cons a as ih =>
    simp only [List.cons_append, run_cons, ih]
    constructor
    · rintro ⟨t, ht, v, hv, hu⟩
      exact ⟨v, ⟨t, ht, hv⟩, hu⟩
    · rintro ⟨v, ⟨t, ht, hv⟩, hu⟩
      exact ⟨t, ht, v, hv, hu⟩

theorem run_invariant (hstep : ∀ s a t, G s a → Inv s → step s a = some t → Inv t)
    {s t : S} {as : List A} (hs : Inv s) (hm : Meets step G s as) (h : run step s as = some t) :
    Inv t := by
  induction as generalizing s with
  | nil => cases h; exact hs
  | cons a as ih =>
    obtain ⟨u, hu, hr⟩ := run_cons.mp h
    exact ih (hstep s a u hm.1 hs hu) (hm.2 u hu) hr

theorem meets_cons {s t : S} {a : A} {as : List A} (hG : G s a) (h : step s a = some t) (ht : Meets step G t as) :
    Meets step G s (a :: as) := by
  refine ⟨hG, fun u hu => ?_⟩
  obtain rfl := Option.some.inj (h.symm.trans hu)
  exact ht

theorem meets_append {s : S} {as bs : List A} (h : Meets step G s (as ++ bs)) :
    Meets step G s as ∧ ∀ t, run step s as = some t → Meets step G t bs := by
  induction as generalizing s with
  | nil => exact ⟨trivial, fun t ht => by cases ht; exact h⟩
  | cons a as ih =>
    refine ⟨⟨h.1, fun t ht => (ih (h.2 t ht)).1⟩, fun t ht => ?_⟩
    obtain ⟨u, hu, hr⟩ := run_cons.mp ht
    exact (ih (h.2 u hu)).2 t hr

theorem meets_true {s : S} (as : List A) : Meets step (fun _ _ => True) s as := by
  induction as generalizing s with
  | nil => trivial
  | cons a as ih => exact ⟨trivial, fun _ _ => ih⟩

theorem always_head {s : S} {as : List A} (h : Always step P s as) : P s := by
  cases as with
  | nil => exact h
  | cons a as => exact h.1

theorem always_iff_meets (hstep : ∀ s a t, G s a → Inv s → step s a = some t → Inv t) (hP : ∀ s, Inv s → P s)
    (hbreak : ∀ s a, Inv s → ¬ G s a → ∃ t, step s a = some t ∧ ¬ P t) {s : S} (hs : Inv s) (as : List A) :
    Always step P s as ↔ Meets step G s as := by
  induction as generalizing s with
  | nil => exact iff_of_true (hP s hs) trivial
  | cons a as ih =>
    constructor
    · rintro ⟨-, hall⟩
      have hG : G s a := by
        by_contra hG
        obtain ⟨t, ht, hnot⟩ := hbreak s a hs hG
        exact hnot (always_head (hall t ht))
      exact ⟨hG, fun t ht => (ih (hstep s a t hG hs ht)).mp (hall t ht)⟩
    · rintro ⟨hG, hall⟩
      exact ⟨hP s hs, fun t ht => (ih (hstep s a t hG hs ht)).mpr (hall t ht)⟩

theorem steps_append {s : S} {as bs : List A} (h : Steps step R s (as ++ bs)) :
    ∀ t, run step s as = some t → Steps step R t bs := by
  induction as generalizing s with
  | nil =>
    rintro t ⟨⟩
    exact h
  | cons a as ih =>
    intro t ht
    obtain ⟨u, hu, hr⟩ := run_cons.mp ht
    exact ih (h u hu).2 t hr

theorem steps_iff_meets (hstep : ∀ s a t, G s a → Inv s → step s a = some t → Inv t ∧ R s t)
    (hbreak : ∀ s a, Inv s → ¬ G s a → ∃ t, step s a = some t ∧ ¬ R s t) {s : S} (hs : Inv s) (as : List A) :
    Steps step R s as ↔ Meets step G s as := by
  induction as generalizing s with
  | nil => exact iff_of_true trivial trivial
  | cons a as ih =>
    constructor
    · intro hall
      have hG : G s a := by
        by_contra hG
        obtain ⟨t, ht, hnot⟩ := hbreak s a hs hG
        exact hnot (hall t ht).1
      exact ⟨hG, fun t ht => (ih (hstep s a t hG hs ht).1).mp (hall t ht).2⟩
    · rintro ⟨hG, hall⟩ t ht
      obtain ⟨hinv, hR⟩ := hstep s a t hG hs ht
      exact ⟨hR, (ih hinv).mpr (hall t ht)⟩

end PageSpeed.Machine
