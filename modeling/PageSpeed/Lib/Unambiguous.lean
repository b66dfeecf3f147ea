import Mathlib.Data.List.Basic

/-!
Texts that can be read back from what they are the beginning of. How a text goes on is part of
what makes it readable.
-/

namespace PageSpeed

variable {α β B : Type}

/-- Two texts that go on as `follow` says and are the same are texts of the same value. -/
def Reads (f : α → List B) (ok : α → Prop) (follow : List B → Prop) : Prop :=
  ∀ a b s t, ok a → ok b → follow s → follow t → f a ++ s = f b ++ t → a = b ∧ s = t

def Starts (tags : List (List B)) (s : List B) : Prop := ∃ tag ∈ tags, tag <+: s

namespace Starts

variable {tags : List (List B)} {tag s t : List B}

theorem mono {tags' : List (List B)} (h : Starts tags s) (hsub : tags ⊆ tags') : Starts tags' s := by
  obtain ⟨tag, htag, hprefix⟩ := h
  exact ⟨tag, hsub htag, hprefix⟩

theorem of_tag (htag : tag ∈ tags) (s : List B) : Starts tags (tag ++ s) := ⟨tag, htag, List.prefix_append tag s⟩

theorem ne (h : Starts tags t) (hempty : [] ∉ tags) (htag : tag ≠ [])
    (hheads : ∀ tag' ∈ tags, tag'.head? ≠ tag.head?) (s : List B) : tag ++ s ≠ t := by
  obtain ⟨tag', htag', t', rfl⟩ := h
  intro heq
  have hne : tag' ≠ [] := by
    rintro rfl
    exact hempty htag'
  apply hheads tag' htag'
  rw [← List.head?_append_of_ne_nil tag' hne, ← heq, List.head?_append_of_ne_nil tag htag]

end Starts

namespace Reads

variable {f : α → List B} {g : β → List B} {ok : α → Prop} {okb : β → Prop} {follow followf : List B → Prop}

theorem tagged (h : Reads f ok follow) (tag : List B) : Reads (fun a => tag ++ f a) ok follow := by
  intro a b s t ha hb hs ht heq
  dsimp only at heq
  rw [List.append_assoc, List.append_assoc] at heq
  exact h a b s t ha hb hs ht (List.append_cancel_left heq)

theorem comap (h : Reads g okb follow) {e : α → β} (he : Function.Injective e) :
    Reads (fun a => g (e a)) (fun a => okb (e a)) follow := by
  intro a b s t ha hb hs ht heq
  obtain ⟨hab, hst⟩ := h (e a) (e b) s t ha hb hs ht heq
  exact ⟨he hab, hst⟩

theorem seq (hf : Reads f ok followf) (hg : Reads g okb follow)
    (hfollow : ∀ b s, okb b → follow s → followf (g b ++ s)) :
    Reads (fun p : α × β => f p.1 ++ g p.2) (fun p => ok p.1 ∧ okb p.2) follow := by
  rintro ⟨a, b⟩ ⟨a', b'⟩ s t ⟨ha, hb⟩ ⟨ha', hb'⟩ hs ht heq
  dsimp only at heq
  rw [List.append_assoc, List.append_assoc] at heq
  obtain ⟨rfl, hrest⟩ := hf a a' _ _ ha ha' (hfollow b s hb hs) (hfollow b' t hb' ht) heq
  obtain ⟨rfl, hst⟩ := hg b b' s t hb hb' hs ht hrest
  exact ⟨rfl, hst⟩

theorem option (h : Reads f ok follow) (hne : ∀ a s t, ok a → follow t → f a ++ s ≠ t) :
    Reads (fun o : Option α => (o.map f).getD []) (fun o => ∀ a, o = some a → ok a) follow := by
  intro o o' s t ho ho' hs ht heq
  cases o with
  | none =>
    cases o' with
    | none => exact ⟨rfl, heq⟩
    | some b => exact absurd heq.symm (hne b t s (ho' b rfl) hs)
  | some a =>
    cases o' with
    | none => exact absurd heq (hne a s t (ho a rfl) ht)
    | some b =>
      obtain ⟨rfl, hst⟩ := h a b s t (ho a rfl) (ho' b rfl) hs ht heq
      exact ⟨rfl, hst⟩

theorem many (h : Reads f ok followf) (hne : ∀ a s t, ok a → follow t → f a ++ s ≠ t)
    (hlast : ∀ s, follow s → followf s) (hnext : ∀ a s, ok a → followf (f a ++ s)) :
    Reads (fun l : List α => l.flatMap f) (fun l => ∀ a ∈ l, ok a) follow := by
  have hrest : ∀ l : List α, (∀ a ∈ l, ok a) → ∀ s, follow s → followf (l.flatMap f ++ s) := by
    intro l hl s hs
    cases l with
    | nil => exact hlast s hs
    | cons a l =>
      rw [List.flatMap_cons, List.append_assoc]
      exact hnext a _ (hl a List.mem_cons_self)
  intro l
  induction l with
  | nil =>
    intro l' s t _ hl' hs ht heq
    cases l' with
    | nil => exact ⟨rfl, heq⟩
    | cons b l' =>
      dsimp only at heq
      rw [List.flatMap_cons, List.append_assoc] at heq
      exact absurd heq.symm (hne b _ s (hl' b List.mem_cons_self) hs)
  | cons a l ih =>
    intro l' s t hl hl' hs ht heq
    cases l' with
    | nil =>
      dsimp only at heq
      rw [List.flatMap_cons, List.append_assoc] at heq
      exact absurd heq (hne a _ t (hl a List.mem_cons_self) ht)
    | cons b l' =>
      have htail := fun a ha => hl a (List.mem_cons_of_mem _ ha)
      have htail' := fun a ha => hl' a (List.mem_cons_of_mem _ ha)
      dsimp only at heq
      rw [List.flatMap_cons, List.flatMap_cons, List.append_assoc, List.append_assoc] at heq
      obtain ⟨rfl, hcut⟩ := h a b _ _ (hl a List.mem_cons_self) (hl' b List.mem_cons_self)
        (hrest l htail s hs) (hrest l' htail' t ht) heq
      obtain ⟨rfl, hst⟩ := ih l' s t htail htail' hs ht hcut
      exact ⟨rfl, hst⟩

theorem closedBy {tag : List B} (h : Reads f ok (Starts [tag])) : Reads (fun a => f a ++ tag) ok fun _ => True := by
  intro a b s t ha hb _ _ heq
  dsimp only at heq
  rw [List.append_assoc, List.append_assoc] at heq
  obtain ⟨rfl, hst⟩ := h a b (tag ++ s) (tag ++ t) ha hb (Starts.of_tag List.mem_cons_self s)
    (Starts.of_tag List.mem_cons_self t) heq
  exact ⟨rfl, List.append_cancel_left hst⟩

theorem mono (h : Reads f ok followf) (hfollow : ∀ s, follow s → followf s) : Reads f ok follow := by
  intro a b s t ha hb hs ht
  exact h a b s t ha hb (hfollow s hs) (hfollow t ht)

theorem until_letter (c : B) : Reads (fun a : List B => a ++ [c]) (fun a => c ∉ a) fun _ => True := by
  intro a
  induction a with
  | nil =>
    intro b s t _ hb _ _ heq
    cases b with
    | nil => exact ⟨rfl, (List.cons.inj heq).2⟩
    | cons x b => exact absurd (List.cons.inj heq).1 (fun h => hb (h ▸ List.mem_cons_self))
  | cons x a ih =>
    intro b s t ha hb _ _ heq
    cases b with
    | nil => exact absurd (List.cons.inj heq).1 (fun h => ha (h ▸ List.mem_cons_self))
    | cons y b =>
      obtain ⟨rfl, hrest⟩ := List.cons.inj heq
      obtain ⟨rfl, hst⟩ := ih b s t (fun h => ha (List.mem_cons_of_mem _ h)) (fun h => hb (List.mem_cons_of_mem _ h))
        trivial trivial hrest
      exact ⟨rfl, hst⟩

theorem until_mark {e : B} {mark : List B} {tags : List (List B)} (hmark : e ∉ mark) (htags : ∀ tag ∈ tags, e ∉ tag) :
    Reads (fun a : List B => a ++ mark)
      (fun a => a.getLast? = some e ∧ ∀ tag ∈ tags, ¬ (e :: (mark ++ tag)) <:+: a) (Starts tags) := by
  -- neither text can go on where the other one ends
  have hcut : ∀ a w s t : List B, a.getLast? = some e → (a ++ w).getLast? = some e →
      (∀ tag ∈ tags, ¬ (e :: (mark ++ tag)) <:+: a ++ w) → Starts tags s → mark ++ s = w ++ t → w = [] := by
    rintro a w s t ha hw hfree ⟨tag, htag, s', rfl⟩ heq
    by_contra hne
    rw [List.getLast?_append_of_ne_nil a hne] at hw
    rw [← List.append_assoc] at heq
    obtain ⟨v, hv, _⟩ | ⟨v, hv, _⟩ := List.append_eq_append_iff.mp heq
    · obtain ⟨a', rfl⟩ := List.getLast?_eq_some_iff.mp ha
      apply hfree tag htag
      exact ⟨a', v, by simp [hv]⟩
    · have hmem : e ∈ mark ++ tag := by
        rw [hv]
        exact List.mem_append_left _ (List.mem_of_getLast? hw)
      obtain hmem | hmem := List.mem_append.mp hmem
      · exact hmark hmem
      · exact htags tag htag hmem
  intro a b s t ha hb hs ht heq
  dsimp only at heq
  rw [List.append_assoc, List.append_assoc] at heq
  obtain ⟨w, rfl, hw⟩ | ⟨w, rfl, hw⟩ := List.append_eq_append_iff.mp heq
  · obtain rfl := hcut a w s (mark ++ t) ha.1 hb.1 hb.2 hs hw
    exact ⟨(List.append_nil a).symm, List.append_cancel_left hw⟩
  · obtain rfl := hcut b w t (mark ++ s) hb.1 ha.1 ha.2 ht hw
    exact ⟨List.append_nil b, (List.append_cancel_left hw).symm⟩

end Reads

end PageSpeed
