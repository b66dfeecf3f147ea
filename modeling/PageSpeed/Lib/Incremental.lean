import Mathlib.Data.List.Basic

/-!
Lexers over text that arrives in pieces. A lexer may ask for more text, unless it is told that
there is none; what a pass could not read is kept, and read again with the next piece. The
tokens are those of the whole text when no answer changes as text arrives.
-/

namespace Incremental

variable {α ω : Type}

structure Lexer (α ω : Type) where
  next : Bool → List α → Option (ω × List α)
  shrinks : ∀ {atEnd s o rest}, next atEnd s = some (o, rest) → rest.length < s.length

variable {L : Lexer α ω}

def scan (L : Lexer α ω) (atEnd : Bool) (s : List α) : List ω × List α :=
  match h : L.next atEnd s with
  | none => ([], s)
  | some (o, rest) =>
    have : rest.length < s.length := L.shrinks h
    (o :: (scan L atEnd rest).1, (scan L atEnd rest).2)
termination_by s.length

theorem scan_none {atEnd : Bool} {s : List α} (h : L.next atEnd s = none) : scan L atEnd s = ([], s) := by
  rw [scan]
  split
  · rfl
  · next heq =>
    rw [h] at heq
    contradiction

theorem scan_some {atEnd : Bool} {s rest : List α} {o : ω} (h : L.next atEnd s = some (o, rest)) :
    scan L atEnd s = (o :: (scan L atEnd rest).1, (scan L atEnd rest).2) := by
  rw [scan]
  split
  · next heq =>
    rw [h] at heq
    contradiction
  · next o' rest' heq =>
    rw [h] at heq
    cases heq
    rfl

inductive Reached (L : Lexer α ω) (s : List α) : List α → Prop
  | here : Reached L s s
  | next {t rest : List α} {o : ω} : Reached L s t → L.next true t = some (o, rest) → Reached L s rest

def Stable (L : Lexer α ω) (s : List α) : Prop :=
  ∀ a b o rest, s = a ++ b → L.next false a = some (o, rest) → L.next true s = some (o, rest ++ b)

theorem scan_append {text : List α} (hstable : ∀ t, Reached L text t → Stable L t) (a b : List α)
    (h : Reached L text (a ++ b)) :
    Reached L text ((scan L false a).2 ++ b) ∧
      scan L true (a ++ b) =
        ((scan L false a).1 ++ (scan L true ((scan L false a).2 ++ b)).1,
          (scan L true ((scan L false a).2 ++ b)).2) := by
  induction hlen : a.length using Nat.strongRecOn generalizing a with
  | _ n ih =>
    cases hnext : L.next false a with
    | none =>
      rw [scan_none hnext]
      exact ⟨h, rfl⟩
    | some p =>
      obtain ⟨o, rest⟩ := p
      have hwhole := hstable _ h a b o rest rfl hnext
      obtain ⟨hreached, hscan⟩ := ih rest.length (hlen ▸ L.shrinks hnext) rest (h.next hwhole) rfl
      rw [scan_some hnext, scan_some hwhole, hscan]
      exact ⟨hreached, rfl⟩

def feed (L : Lexer α ω) (kept : List α) : List (List α) → List ω × List α
  | [] => ([], kept)
  | piece :: pieces =>
    let pass := scan L false (kept ++ piece)
    (pass.1 ++ (feed L pass.2 pieces).1, (feed L pass.2 pieces).2)

theorem scan_pieces {text : List α} (hstable : ∀ t, Reached L text t → Stable L t) (pieces : List (List α))
    (kept last : List α) (h : Reached L text (kept ++ (pieces.flatten ++ last))) :
    scan L true (kept ++ (pieces.flatten ++ last)) =
      ((feed L kept pieces).1 ++ (scan L true ((feed L kept pieces).2 ++ last)).1,
        (scan L true ((feed L kept pieces).2 ++ last)).2) := by
  induction pieces generalizing kept with
  | nil => rfl
  | cons piece pieces ih =>
    have hsplit : kept ++ ((piece :: pieces).flatten ++ last) = (kept ++ piece) ++ (pieces.flatten ++ last) := by
      simp only [List.flatten_cons, List.append_assoc]
    rw [hsplit] at h ⊢
    obtain ⟨hreached, hscan⟩ := scan_append hstable _ _ h
    rw [hscan, ih _ hreached, feed]
    simp only [List.append_assoc]

end Incremental
