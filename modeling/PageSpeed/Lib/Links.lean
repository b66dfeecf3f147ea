import Mathlib.Data.List.Basic

/-!
Lists held in link arrays: singly linked chains that share one array of
successors, and a doubly linked list with a front and a rear.
-/

namespace PageSpeed.Links

variable {α : Type*}

/-- `l` is what one meets from `o` on. -/
def Chain (next : α → Option α) : Option α → List α → Prop
  | o, [] => o = none
  | o, a :: l => o = some a ∧ Chain next (next a) l

/-- The first `n` elements from `o` on. -/
def follow (next : α → Option α) : ℕ → Option α → List α
  | n + 1, some a => a :: follow next n (next a)
  | _, _ => []

/-- Takes up to `n` elements off the front; what is left starts at the second component. -/
def takeFront (next : α → Option α) : ℕ → Option α → List α × Option α
  | n + 1, some a => let r := takeFront next n (next a); (a :: r.1, r.2)
  | _, o => ([], o)

theorem Chain.congr {next next' : α → Option α} {o : Option α} {l : List α} (h : Chain next o l)
    (heq : ∀ a ∈ l, next' a = next a) : Chain next' o l := by
  induction l generalizing o with
  | nil => exact h
  | cons a l ih =>
    refine ⟨h.1, ?_⟩
    rw [heq a List.mem_cons_self]
    exact ih h.2 fun b hb => heq b (List.mem_cons_of_mem a hb)

theorem Chain.follow_eq {next : α → Option α} {o : Option α} {l : List α} (h : Chain next o l) :
    follow next l.length o = l := by
  induction l generalizing o with
  | nil => cases o <;> rfl
  | cons a l ih =>
    rw [h.1, List.length_cons]
    exact congrArg (a :: ·) (ih h.2)

theorem Chain.takeFront_eq {next : α → Option α} {o : Option α} {l : List α} (h : Chain next o l) (n : ℕ) :
    (takeFront next n o).1 = l.take n ∧ Chain next (takeFront next n o).2 (l.drop n) := by
  induction n generalizing o l with
  | zero => cases o <;> exact ⟨rfl, h⟩
  | succ n ih =>
    cases l with
    | nil =>
      obtain rfl : o = none := h
      exact ⟨rfl, rfl⟩
    | cons a l =>
      obtain rfl := h.1
      obtain ⟨htake, hdrop⟩ := ih h.2
      exact ⟨congrArg (a :: ·) htake, hdrop⟩

structure Linked (next prev : α → Option α) (front rear : Option α) (l : List α) : Prop where
  nodup : l.Nodup
  front_eq : front = l.head?
  rear_eq : rear = l.getLast?
  links : ∀ xs a ys, l = xs ++ a :: ys → next a = ys.head? ∧ prev a = xs.getLast?
  unlinked : ∀ a, a ∉ l → next a = none ∧ prev a = none

namespace Linked

variable {next prev next' prev' : α → Option α} {front rear front' rear' : Option α} {l : List α} {a : α}

theorem empty : Linked (fun _ : α => none) (fun _ => none) none none [] where
  nodup := List.nodup_nil
  front_eq := rfl
  rear_eq := rfl
  links := fun xs a ys h => absurd h.symm (List.append_ne_nil_of_right_ne_nil xs (List.cons_ne_nil a ys))
  unlinked := fun _ _ => ⟨rfl, rfl⟩

theorem congr (h : Linked next prev front rear l) (hnext : ∀ b, next' b = next b) (hprev : ∀ b, prev' b = prev b) :
    Linked next' prev' front rear l := by
  rw [funext hnext, funext hprev]
  exact h

theorem next_ne_self (h : Linked next prev front rear l) : next a ≠ some a := by
  intro hna
  by_cases ha : a ∈ l
  · obtain ⟨xs, ys, hl⟩ := List.append_of_mem ha
    have hhead := (h.links xs a ys hl).1.symm.trans hna
    have hmem := List.mem_of_mem_head? hhead
    have hnodup := h.nodup
    rw [hl] at hnodup
    exact (List.nodup_cons.mp (List.nodup_append.mp hnodup).2.1).1 hmem
  · rw [(h.unlinked a ha).1] at hna
    cases hna

theorem prev_ne_self (h : Linked next prev front rear l) : prev a ≠ some a := by
  intro hpa
  by_cases ha : a ∈ l
  · obtain ⟨xs, ys, hl⟩ := List.append_of_mem ha
    have hlast := (h.links xs a ys hl).2.symm.trans hpa
    have hmem := List.mem_of_getLast? hlast
    have hnodup := h.nodup
    rw [hl] at hnodup
    exact (List.nodup_append.mp hnodup).2.2 a hmem a List.mem_cons_self rfl
  · rw [(h.unlinked a ha).2] at hpa
    cases hpa

end Linked

variable [DecidableEq α]

def link (next : α → Option α) : List α → α → Option α
  | [] => next
  | [a] => Function.update next a none
  | a :: b :: l => link (Function.update next a (some b)) (b :: l)

theorem link_of_notMem {next : α → Option α} {l : List α} {a : α} (h : a ∉ l) : link next l a = next a := by
  induction l generalizing next with
  | nil => rfl
  | cons b l ih =>
    obtain ⟨hab, hal⟩ := List.ne_and_not_mem_of_not_mem_cons h
    cases l with
    | nil => exact Function.update_of_ne hab _ _
    | cons c l =>
      change link (Function.update next b (some c)) (c :: l) a = _
      rw [ih hal, Function.update_of_ne hab]

theorem chain_link {l : List α} (hnodup : l.Nodup) (next : α → Option α) : Chain (link next l) l.head? l := by
  induction l generalizing next with
  | nil => rfl
  | cons a l ih =>
    obtain ⟨hal, hnodup⟩ := List.nodup_cons.mp hnodup
    cases l with
    | nil =>
      refine ⟨rfl, ?_⟩
      change Function.update next a none a = none
      rw [Function.update_self]
    | cons b l =>
      refine ⟨rfl, ?_⟩
      have hrest := ih hnodup (Function.update next a (some b))
      have hnext : link next (a :: b :: l) a = some b := by
        change link (Function.update next a (some b)) (b :: l) a = _
        rw [link_of_notMem hal, Function.update_self]
      rw [hnext]
      exact hrest

def prepend (next : α → Option α) (front : Option α) : List α → (α → Option α) × Option α
  | [] => (next, front)
  | a :: l => prepend (Function.update next a front) (some a) l

theorem prepend_of_notMem {next : α → Option α} {front : Option α} {l : List α} {a : α} (h : a ∉ l) :
    (prepend next front l).1 a = next a := by
  induction l generalizing next front with
  | nil => rfl
  | cons b l ih =>
    obtain ⟨hab, hal⟩ := List.ne_and_not_mem_of_not_mem_cons h
    change (prepend (Function.update next b front) (some b) l).1 a = _
    rw [ih hal, Function.update_of_ne hab]

theorem chain_prepend {next : α → Option α} {front : Option α} {l free : List α} (hnodup : l.Nodup)
    (hdisjoint : ∀ a ∈ l, a ∉ free) (h : Chain next front free) :
    Chain (prepend next front l).1 (prepend next front l).2 (l.reverse ++ free) := by
  induction l generalizing next front free with
  | nil => exact h
  | cons a l ih =>
    obtain ⟨hal, hnodup⟩ := List.nodup_cons.mp hnodup
    have ha := hdisjoint a List.mem_cons_self
    have hfirst : Chain (Function.update next a front) (some a) (a :: free) := by
      refine ⟨rfl, ?_⟩
      rw [Function.update_self]
      apply h.congr
      intro b hb
      have hba : b ≠ a := fun hba => ha (hba ▸ hb)
      exact Function.update_of_ne hba _ _
    have hrest : ∀ b ∈ l, b ∉ a :: free := by
      intro b hb hmem
      obtain rfl | hmem := List.mem_cons.mp hmem
      · exact hal hb
      · exact hdisjoint b (List.mem_cons_of_mem a hb) hmem
    rw [List.reverse_cons, List.append_assoc]
    exact ih hnodup hrest hfirst

namespace Linked

variable {next prev next' prev' : α → Option α} {front rear front' rear' : Option α} {l : List α} {a : α}

theorem insert (h : Linked next prev front rear l) (ha : a ∉ l)
    (hnext : ∀ b, next' b = if b = a then front else next b)
    (hprev : ∀ b, prev' b = if front = some b then some a else prev b) :
    Linked next' prev' (some a) (if front = none then some a else rear) (a :: l) := by
  have hfront : front ≠ some a := by
    intro hfa
    rw [h.front_eq] at hfa
    exact ha (List.mem_of_mem_head? hfa)
  refine ⟨List.nodup_cons.mpr ⟨ha, h.nodup⟩, rfl, ?_, ?_, ?_⟩
  · rw [h.front_eq, h.rear_eq]
    cases l with
    | nil => rfl
    | cons b l => rfl
  · intro xs b ys hl
    cases xs with
    | nil =>
      obtain ⟨rfl, rfl⟩ := List.cons.inj hl
      rw [hnext, if_pos rfl, hprev, if_neg hfront]
      exact ⟨h.front_eq, (h.unlinked a ha).2⟩
    | cons c xs =>
      obtain ⟨rfl, htail⟩ := List.cons.inj hl
      replace hl : l = xs ++ b :: ys := htail
      have hb : b ∈ l := hl ▸ List.mem_append_right xs List.mem_cons_self
      have hba : b ≠ a := fun hba => ha (hba ▸ hb)
      obtain ⟨h1, h2⟩ := h.links xs b ys hl
      rw [hnext, if_neg hba, hprev, h.front_eq]
      refine ⟨h1, ?_⟩
      cases xs with
      | nil => rw [if_pos (by rw [hl]; rfl)]; rfl
      | cons c xs =>
        have hcb : c ≠ b := by
          rintro rfl
          have hnodup := h.nodup
          rw [hl] at hnodup
          exact (List.nodup_cons.mp hnodup).1 (List.mem_append_right xs List.mem_cons_self)
        rw [if_neg (by rw [hl]; exact fun hh => hcb (Option.some.inj hh)), h2]
        rfl
  · intro b hb
    obtain ⟨hba, hbl⟩ := List.ne_and_not_mem_of_not_mem_cons hb
    have hfb : front ≠ some b := by
      intro hfb
      rw [h.front_eq] at hfb
      exact hbl (List.mem_of_mem_head? hfb)
    rw [hnext, if_neg hba, hprev, if_neg hfb]
    exact h.unlinked b hbl

theorem remove (h : Linked next prev front rear l)
    (hnext : ∀ b, next' b = if b = a then none else if prev a = some b then next a else next b)
    (hprev : ∀ b, prev' b = if b = a then none else if next a = some b then prev a else prev b)
    (hfront : front' = if front = some a then next a else front)
    (hrear : rear' = if rear = some a then prev a else rear) : Linked next' prev' front' rear' (l.erase a) := by
  by_cases ha : a ∈ l
  · obtain ⟨xs, ys, rfl⟩ := List.append_of_mem ha
    obtain ⟨hna, hpa⟩ := h.links xs a ys rfl
    obtain ⟨hxs, hays, hdisj⟩ := List.nodup_append.mp h.nodup
    obtain ⟨haY, hys⟩ := List.nodup_cons.mp hays
    have haX : a ∉ xs := fun hax => hdisj a hax a List.mem_cons_self rfl
    have hsep : ∀ b ∈ xs, b ∉ ys := fun b hb hb' => hdisj b hb b (List.mem_cons_of_mem a hb') rfl
    rw [List.erase_append_right _ haX, List.erase_cons_head]
    refine ⟨?_, ?_, ?_, ?_, ?_⟩
    · exact List.nodup_append.mpr ⟨hxs, hys, fun b hb c hc hbc => hsep b hb (hbc ▸ hc)⟩
    · rw [hfront, h.front_eq]
      cases xs with
      | nil =>
        have hhead : ([] ++ a :: ys).head? = some a := rfl
        rw [if_pos hhead, hna]
        rfl
      | cons c xs =>
        have hhead : (c :: xs ++ a :: ys).head? ≠ some a :=
          fun hh => haX (Option.some.inj hh ▸ List.mem_cons_self)
        rw [if_neg hhead]
        rfl
    · rw [hrear, h.rear_eq]
      obtain rfl | ⟨ys, c, rfl⟩ := List.eq_nil_or_concat' ys
      · rw [List.getLast?_concat, if_pos rfl, hpa, List.append_nil]
      · have hca : c ≠ a := fun hca => haY (hca ▸ List.mem_append_right ys (List.mem_singleton_self c))
        have hlast : (xs ++ a :: (ys ++ [c])).getLast? = some c := by
          rw [← List.cons_append, ← List.append_assoc, List.getLast?_concat]
        rw [hlast, if_neg (fun hh => hca (Option.some.inj hh)), ← List.append_assoc, List.getLast?_concat]
    · intro us b vs hl
      have hba : b ≠ a := by
        rintro rfl
        have hmem : b ∈ xs ++ ys := hl ▸ List.mem_append_right us List.mem_cons_self
        exact (List.mem_append.mp hmem).elim haX haY
      rw [hnext, if_neg hba, hprev, if_neg hba, hpa, hna]
      -- The element stands after the one removed, or before it.
      have hafter : ∀ w, us = xs ++ w → ys = w ++ b :: vs →
          (if xs.getLast? = some b then ys.head? else next b) = vs.head? ∧
            (if ys.head? = some b then xs.getLast? else prev b) = us.getLast? := by
        rintro w rfl rfl
        have hbx : b ∉ xs := fun hb => hsep b hb (List.mem_append_right w List.mem_cons_self)
        obtain ⟨h1, h2⟩ := h.links (xs ++ a :: w) b vs (by simp)
        rw [if_neg (fun hh => hbx (List.mem_of_getLast? hh)), h1]
        refine ⟨rfl, ?_⟩
        cases w with
        | nil =>
          have hhead : ([] ++ b :: vs).head? = some b := rfl
          rw [if_pos hhead, List.append_nil]
        | cons c w =>
          have hhead : (c :: w ++ b :: vs).head? ≠ some b := by
            intro hh
            obtain rfl := Option.some.inj hh
            exact (List.nodup_cons.mp hys).1 (List.mem_append_right w List.mem_cons_self)
          rw [if_neg hhead, h2]
          simp [List.getLast?_append]
      have hbefore : ∀ w, xs = us ++ b :: w → vs = w ++ ys →
          (if xs.getLast? = some b then ys.head? else next b) = vs.head? ∧
            (if ys.head? = some b then xs.getLast? else prev b) = us.getLast? := by
        rintro w rfl rfl
        have hby : b ∉ ys := hsep b (List.mem_append_right us List.mem_cons_self)
        obtain ⟨h1, h2⟩ := h.links us b (w ++ a :: ys) (by simp)
        have hhead : ys.head? ≠ some b := fun hh => hby (List.mem_of_mem_head? hh)
        rw [if_neg hhead, h2]
        refine ⟨?_, rfl⟩
        obtain rfl | ⟨w, c, rfl⟩ := List.eq_nil_or_concat' w
        · rw [if_pos List.getLast?_concat]
          rfl
        · have hcb : c ≠ b := by
            rintro rfl
            have hnodup := (List.nodup_append.mp hxs).2.1
            exact (List.nodup_cons.mp hnodup).1 (List.mem_append_right w (List.mem_singleton_self c))
          have hlast : (us ++ b :: (w ++ [c])).getLast? = some c := by
            rw [← List.cons_append, ← List.append_assoc, List.getLast?_concat]
          rw [hlast, if_neg (fun hh => hcb (Option.some.inj hh)), h1]
          cases w <;> rfl
      obtain ⟨w, hus, hys'⟩ | ⟨w, hxs', hvs⟩ := List.append_eq_append_iff.mp hl
      · exact hafter w hus hys'
      · cases w with
        | nil => exact hafter [] (by simpa using hxs'.symm) (by simpa using hvs.symm)
        | cons c w =>
          obtain ⟨rfl, htail⟩ := List.cons.inj hvs
          exact hbefore w hxs' htail
    · intro b hb
      by_cases hba : b = a
      · rw [hnext, if_pos hba, hprev, if_pos hba]
        exact ⟨rfl, rfl⟩
      · have hbl : b ∉ xs ++ a :: ys := by
          intro hmem
          obtain hmem | hmem := List.mem_append.mp hmem
          · exact hb (List.mem_append_left ys hmem)
          · obtain rfl | hmem := List.mem_cons.mp hmem
            · exact hba rfl
            · exact hb (List.mem_append_right xs hmem)
        have hpb : prev a ≠ some b := by
          intro hh
          rw [hpa] at hh
          exact hbl (List.mem_append_left _ (List.mem_of_getLast? hh))
        have hnb : next a ≠ some b := by
          intro hh
          rw [hna] at hh
          exact hbl (List.mem_append_right xs (List.mem_cons_of_mem a (List.mem_of_mem_head? hh)))
        rw [hnext, if_neg hba, if_neg hpb, hprev, if_neg hba, if_neg hnb]
        exact h.unlinked b hbl
  · obtain ⟨hna, hpa⟩ := h.unlinked a ha
    have hfa : front ≠ some a := by
      intro hh
      rw [h.front_eq] at hh
      exact ha (List.mem_of_mem_head? hh)
    have hra : rear ≠ some a := by
      intro hh
      rw [h.rear_eq] at hh
      exact ha (List.mem_of_getLast? hh)
    have hsame : ∀ b, next' b = next b ∧ prev' b = prev b := by
      intro b
      rw [hnext, hprev, hna, hpa]
      by_cases hba : b = a
      · rw [hba, hna, hpa]
        simp
      · simp [hba]
    rw [List.erase_of_not_mem ha, hfront, if_neg hfa, hrear, if_neg hra]
    exact h.congr (fun b => (hsame b).1) fun b => (hsame b).2

end Linked

end PageSpeed.Links
