import Mathlib.Data.List.Basic

/-!
Readers take a value from the front of their input, or fail. A loop of a reader runs on the
length of the input, which is enough when each success shortens it. `many` collects items,
`loop` carries a state and may end at any turn.
-/

namespace Reader

variable {τ α β : Type}

def Progress (item : List τ → Option (α × List τ)) : Prop :=
  ∀ s a rest, item s = some (a, rest) → rest.length < s.length

theorem map_eq_some {f : α → β} {read : Option (α × List τ)} {b : β} {rest : List τ}
    (h : (read.map fun (a, rest) => (f a, rest)) = some (b, rest)) : ∃ a, read = some (a, rest) ∧ f a = b := by
  obtain ⟨⟨a, rest'⟩, hread, heq⟩ := Option.map_eq_some_iff.mp h
  injection heq with hvalue hrest
  rw [hrest] at hread
  exact ⟨a, hread, hvalue⟩

def manyFuel (more : List τ → Bool) (item : List τ → Option (α × List τ)) : ℕ → List τ → Option (List α × List τ)
  | 0, s => if more s then none else some ([], s)
  | fuel + 1, s =>
    if more s then
      (item s).bind fun (a, rest) => (manyFuel more item fuel rest).map fun (as, rest) => (a :: as, rest)
    else some ([], s)

/-- Items, as long as `more` says so. -/
def many (more : List τ → Bool) (item : List τ → Option (α × List τ)) (s : List τ) : Option (List α × List τ) :=
  manyFuel more item s.length s

variable {more : List τ → Bool} {item : List τ → Option (α × List τ)}

theorem manyFuel_nil (h : Progress item) (n : ℕ) :
    manyFuel more item n [] = if more [] then none else some ([], []) := by
  cases n with
  | zero => rfl
  | succ n =>
    have hnone : item [] = none := by
      cases hitem : item [] with
      | none => rfl
      | some p => exact absurd (h [] p.1 p.2 hitem) (Nat.not_lt_zero _)
    rw [manyFuel, hnone, Option.bind_none]

theorem manyFuel_eq (h : Progress item) (n m : ℕ) (s : List τ) (hn : s.length ≤ n) (hm : s.length ≤ m) :
    manyFuel more item n s = manyFuel more item m s := by
  induction n generalizing m s with
  | zero =>
    rw [List.length_eq_zero_iff.mp (Nat.le_zero.mp hn), manyFuel_nil h, manyFuel_nil h]
  | succ n ih =>
    cases m with
    | zero => rw [List.length_eq_zero_iff.mp (Nat.le_zero.mp hm), manyFuel_nil h, manyFuel_nil h]
    | succ m =>
      rw [manyFuel, manyFuel]
      split_ifs
      · apply Option.bind_congr
        rintro ⟨a, rest⟩ hitem
        have hlt := h s a rest hitem
        dsimp only
        rw [ih m rest (by omega) (by omega)]
      · rfl

theorem many_eq (h : Progress item) (s : List τ) :
    many more item s =
      if more s then (item s).bind fun (a, rest) => (many more item rest).map fun (as, rest) => (a :: as, rest)
      else some ([], s) := by
  rw [many, manyFuel_eq h s.length (s.length + 1) s (Nat.le_refl _) (Nat.le_succ _), manyFuel]
  split_ifs
  · apply Option.bind_congr
    rintro ⟨a, rest⟩ hitem
    have hlt := h s a rest hitem
    dsimp only [many]
    rw [manyFuel_eq h s.length rest.length rest (by omega) (Nat.le_refl _)]
  · rfl

theorem length_many (h : Progress item) {s rest : List τ} {as : List α} (hmany : many more item s = some (as, rest)) :
    rest.length ≤ s.length := by
  induction hlen : s.length using Nat.strongRecOn generalizing s as with
  | ind n ih =>
    rw [many_eq h] at hmany
    split_ifs at hmany
    · obtain ⟨⟨a, next⟩, hitem, hnext⟩ := Option.bind_eq_some_iff.mp hmany
      obtain ⟨bs, hlast, _⟩ := map_eq_some hnext
      have hlt := h s a next hitem
      have hle := ih next.length (by omega) hlast rfl
      omega
    · injection hmany with heq
      injection heq with _ hrest
      exact Nat.le_of_eq (by rw [← hrest, hlen])

theorem of_many (h : Progress item) {P : α → Prop} (hitem : ∀ s a rest, item s = some (a, rest) → P a)
    {s rest : List τ} {as : List α} (hmany : many more item s = some (as, rest)) : ∀ a ∈ as, P a := by
  induction hlen : s.length using Nat.strongRecOn generalizing s as with
  | ind n ih =>
    rw [many_eq h] at hmany
    split_ifs at hmany
    · obtain ⟨⟨a, next⟩, hfirst, hnext⟩ := Option.bind_eq_some_iff.mp hmany
      obtain ⟨bs, hlast, rfl⟩ := map_eq_some hnext
      have hlt := h s a next hfirst
      exact List.forall_mem_cons.mpr ⟨hitem s a next hfirst, ih next.length (by omega) hlast rfl⟩
    · injection hmany with heq
      injection heq with has _
      rw [← has]
      nofun

variable {σ : Type}

def loopFuel (turn : σ → List τ → Option (β ⊕ σ × List τ)) : ℕ → σ → List τ → Option β
  | 0, _, _ => none
  | fuel + 1, state, s =>
    (turn state s).bind fun
      | .inl b => some b
      | .inr (state, rest) => loopFuel turn fuel state rest

def loop (turn : σ → List τ → Option (β ⊕ σ × List τ)) (state : σ) (s : List τ) : Option β :=
  loopFuel turn (s.length + 1) state s

def LoopProgress (turn : σ → List τ → Option (β ⊕ σ × List τ)) : Prop :=
  ∀ state s state' rest, turn state s = some (.inr (state', rest)) → rest.length < s.length

variable {turn : σ → List τ → Option (β ⊕ σ × List τ)}

theorem loopFuel_eq (h : LoopProgress turn) (n m : ℕ) (state : σ) (s : List τ) (hn : s.length < n)
    (hm : s.length < m) : loopFuel turn n state s = loopFuel turn m state s := by
  induction n generalizing m state s with
  | zero => omega
  | succ n ih =>
    cases m with
    | zero => omega
    | succ m =>
      rw [loopFuel, loopFuel]
      apply Option.bind_congr
      rintro (b | ⟨state', rest⟩) hturn
      · rfl
      · have hlt := h state s state' rest hturn
        exact ih m state' rest (by omega) (by omega)

theorem loop_eq (h : LoopProgress turn) (state : σ) (s : List τ) :
    loop turn state s =
      (turn state s).bind fun
        | .inl b => some b
        | .inr (state, rest) => loop turn state rest := by
  rw [loop, loopFuel]
  apply Option.bind_congr
  rintro (b | ⟨state', rest⟩) hturn
  · rfl
  · have hlt := h state s state' rest hturn
    exact loopFuel_eq h s.length (rest.length + 1) state' rest hlt (Nat.lt_succ_self _)

theorem of_loop {Q : σ → List τ → β → Prop} (hlast : ∀ state s b, turn state s = some (.inl b) → Q state s b)
    (hnext : ∀ state s state' rest b, turn state s = some (.inr (state', rest)) → Q state' rest b → Q state s b)
    {state : σ} {s : List τ} {b : β} (h : loop turn state s = some b) : Q state s b := by
  have hrun : ∀ n state s, loopFuel turn n state s = some b → Q state s b := by
    intro n
    induction n with
    | zero => nofun
    | succ n ih =>
      intro state s hsome
      obtain ⟨outcome, hturn, hsome⟩ := Option.bind_eq_some_iff.mp hsome
      cases outcome with
      | inl b' =>
        rw [Option.some.inj hsome] at hturn
        exact hlast state s b hturn
      | inr next => exact hnext state s next.1 next.2 b hturn (ih next.1 next.2 hsome)
  exact hrun _ state s h

end Reader
