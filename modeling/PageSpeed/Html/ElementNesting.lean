import PageSpeed.Html.HtmlLexer
import PageSpeed.Lib.Brackets

/-!
The lexer's stack is what its calls leave open, and each way of popping it keeps that so.
-/

namespace PageSpeed

open Brackets

def HtmlCall.event : HtmlCall → Event ℕ
  | .addElement element => .opened element.id element.parent
  | .closeElement element _ => .closed element.id element.parent
  | .addEvent node => .inside node.parent

namespace HtmlLexer

open HtmlElement (Style)

structure Tree where
  stack : List (Option HtmlElement)
  infos : List OpenElementInfo
  calls : List HtmlCall
  numElements : ℕ

def tree (l : HtmlLexer) : Tree := ⟨l.elementStack, l.openElementInfo, l.calls, l.numElements⟩

def Parents : List HtmlElement → Prop
  | [] => True
  | element :: below => element.parent = below.head?.map (·.id) ∧ Parents below

structure Bracketed (t : Tree) (opens : List HtmlElement) : Prop where
  stack : t.stack = opens.map some ++ [none]
  infos : t.infos.length = opens.length + 1
  nested : Nested (t.calls.map HtmlCall.event) (opens.map (·.id))
  allocated : ∀ element, .addElement element ∈ t.calls → element.id < t.numElements
  parents : Parents opens
  opened : ∀ element ∈ opens, .addElement element ∈ t.calls
  foreign : ∀ p ∈ opens.zip t.infos, p.2.ns ≠ .kHtml → nameIsOneOf p.1.nameStr kForeignBreakoutEndTags = false

/-- `element` has been taken off the stack, and is to be closed next. -/
def Closing (l : HtmlLexer) (element : HtmlElement) (below : List HtmlElement) : Prop :=
  ∀ style, Bracketed (l.closeElement element style).tree below

structure Pops (l l' : HtmlLexer) : Prop where
  frame : l' = { l with
    elementStack := l'.elementStack, openElementInfo := l'.openElementInfo
    calls := l'.calls, skipParsing := l'.skipParsing }
  calls : ∃ closes : List (HtmlElement × Style), l'.calls = l.calls ++ closes.map fun c => .closeElement c.1 c.2

variable {l l' l'' : HtmlLexer} {element : HtmlElement} {opens below : List HtmlElement} {tag : GoogleString}

theorem pops_refl (l : HtmlLexer) : Pops l l := ⟨rfl, [], by simp⟩

theorem Pops.trans (h : Pops l l') (h' : Pops l' l'') : Pops l l'' := by
  obtain ⟨closes, hcloses⟩ := h.calls
  obtain ⟨closes', hcloses'⟩ := h'.calls
  constructor
  · refine Eq.trans h'.frame ?_
    rw [h.frame]
  · exact ⟨closes ++ closes', by rw [hcloses', hcloses, List.map_append, List.append_assoc]⟩

theorem pops_truncateStack (l : HtmlLexer) (size : ℕ) : Pops l (l.truncateStack size) := ⟨rfl, [], by simp [truncateStack]⟩

theorem pops_closeElement (l : HtmlLexer) (element : HtmlElement) (style : Style) :
    Pops l (l.closeElement element style) := ⟨rfl, [(element, style)], rfl⟩

theorem pops_pop (l : HtmlLexer) (size : ℕ) (element : HtmlElement) (style : Style) :
    Pops l ((l.truncateStack size).closeElement element style) :=
  (pops_truncateStack l size).trans (pops_closeElement _ element style)

theorem Pops.element_eq (h : Pops l l') : l'.element = l.element := (congrArg HtmlLexer.element h.frame).trans rfl

theorem Pops.numElements_eq (h : Pops l l') : l'.numElements = l.numElements := (congrArg HtmlLexer.numElements h.frame).trans rfl

theorem Pops.mem_calls (h : Pops l l') : .addElement element ∈ l'.calls ↔ .addElement element ∈ l.calls := by
  obtain ⟨closes, hcloses⟩ := h.calls
  simp [hcloses]

theorem pops_popForeignLoop (stack : List (Option HtmlElement)) (l : HtmlLexer) : Pops l (popForeignLoop stack l) := by
  induction stack generalizing l with
  | nil => exact pops_refl l
  | cons top below ih =>
    cases top with
    | none => exact pops_refl l
    | some element =>
      rw [popForeignLoop]
      split
      · exact pops_refl l
      · exact (pops_pop l _ _ _).trans (ih _)

theorem pops_closeSkipped (i : ℕ) (stack : List (Option HtmlElement)) (l : HtmlLexer) :
    Pops l (closeSkipped i stack l) := by
  induction stack generalizing l with
  | nil => exact pops_refl l
  | cons top below ih =>
    cases top with
    | none => exact pops_refl l
    | some element =>
      rw [closeSkipped]
      split
      · exact (pops_pop l _ _ _).trans (ih _)
      · exact pops_refl l

theorem pops_popElementsDownTo (l : HtmlLexer) (i : ℕ) : Pops l (l.popElementsDownTo i).2 :=
  (pops_closeSkipped i l.elementStack l).trans (pops_truncateStack _ i)

theorem pops_popElementByHtmlRules (l : HtmlLexer) (tag : GoogleString) : Pops l (l.popElementByHtmlRules tag).2 := by
  rw [popElementByHtmlRules]
  split
  · exact pops_popElementsDownTo l _
  · exact pops_refl l

theorem pops_popElementMatchingTag (l : HtmlLexer) (tag : GoogleString) : Pops l (l.popElementMatchingTag tag).2 := by
  rw [popElementMatchingTag]
  split
  · split
    · exact (pops_popForeignLoop l.elementStack l).trans (pops_popElementByHtmlRules _ tag)
    · split
      · exact pops_popElementsDownTo l _
      · exact pops_popElementByHtmlRules l tag
  · exact pops_popElementByHtmlRules l tag

theorem pops_autoCloseLoop (stack : List (Option HtmlElement)) (l : HtmlLexer) (element : HtmlElement) :
    Pops l (autoCloseLoop stack l element).1 := by
  induction stack generalizing l element with
  | nil => exact pops_refl l
  | cons top below ih =>
    cases top with
    | none => exact pops_refl l
    | some openElement =>
      rw [autoCloseLoop]
      split
      · exact (pops_pop l _ _ _).trans (ih _ _)
      · exact pops_refl l

theorem Bracketed.parent (h : Bracketed l.tree opens) : l.parent = opens.head?.map (·.id) := by
  have hstack : l.elementStack = opens.map some ++ [none] := h.stack
  rw [HtmlLexer.parent, back, hstack]
  cases opens <;> rfl

theorem Bracketed.truncate (h : Bracketed l.tree (element :: below)) {size : ℕ} (hsize : size = below.length + 1) :
    Closing (l.truncateStack size) element below := by
  have hstack : l.elementStack = some element :: (below.map some ++ [none]) := h.stack
  have hinfos : l.openElementInfo.length = below.length + 1 + 1 := h.infos
  obtain ⟨info, infos, hcons⟩ : ∃ info infos, l.openElementInfo = info :: infos := List.exists_cons_of_length_eq_add_one hinfos
  have hlength : infos.length = below.length + 1 := by
    rw [hcons, List.length_cons] at hinfos
    omega
  have hdrop : (l.truncateStack size).elementStack = below.map some ++ [none] ∧
      (l.truncateStack size).openElementInfo = infos := by
    have hone : below.length + 1 + 1 - (below.length + 1) = 1 := by omega
    simp [truncateStack, hstack, hcons, hsize, hlength, hone]
  intro style
  have hnested := h.nested.closed
  have hparent : element.parent = (below.map (·.id)).head? := by
    rw [h.parents.1, List.head?_map]
  exact {
    stack := hdrop.1
    infos := by
      rw [show ((l.truncateStack size).closeElement element style).tree.infos = infos from hdrop.2, hlength]
    nested := by
      rw [← hparent] at hnested
      simpa [tree, closeElement, truncateStack, HtmlCall.event] using hnested
    allocated := by
      intro e he
      refine h.allocated e ?_
      simpa [tree, closeElement, truncateStack] using he
    parents := h.parents.2
    opened := by
      intro e he
      have hmem : HtmlCall.addElement e ∈ l.calls := h.opened e (List.mem_cons_of_mem _ he)
      simp [tree, closeElement, truncateStack, hmem]
    foreign := by
      intro p hp
      refine h.foreign p ?_
      have htree : l.tree.infos = info :: infos := hcons
      rw [show ((l.truncateStack size).closeElement element style).tree.infos = infos from hdrop.2] at hp
      rw [htree, List.zip_cons_cons]
      exact List.mem_cons_of_mem _ hp }

theorem Bracketed.pop (h : Bracketed l.tree (element :: below)) (style : Style) :
    Bracketed ((l.truncateStack (l.elementStack.length - 1)).closeElement element style).tree below := by
  have hstack : l.elementStack = (element :: below).map some ++ [none] := h.stack
  refine h.truncate ?_ style
  rw [hstack]
  simp

theorem Bracketed.popForeignLoop (h : Bracketed l.tree opens) :
    ∃ rest, rest <:+ opens ∧ Bracketed (popForeignLoop (opens.map some ++ [none]) l).tree rest := by
  induction opens generalizing l with
  | nil => exact ⟨[], List.suffix_rfl, h⟩
  | cons element below ih =>
    rw [List.map_cons, List.cons_append, HtmlLexer.popForeignLoop]
    split
    · exact ⟨_, List.suffix_rfl, h⟩
    · obtain ⟨rest, hrest, hbracketed⟩ := ih (h.pop .unclosed)
      exact ⟨rest, hrest.trans (List.suffix_cons _ _), hbracketed⟩

theorem Bracketed.popForeign (h : Bracketed l.tree opens) :
    ∃ rest, rest <:+ opens ∧ Bracketed l.popForeignElementsForBreakout.tree rest := by
  have hstack : l.elementStack = opens.map some ++ [none] := h.stack
  rw [popForeignElementsForBreakout, hstack]
  exact h.popForeignLoop

variable {i : ℕ}

theorem Bracketed.closeSkipped (h : Bracketed l.tree opens) (hi : i ≤ opens.length) :
    ∃ rest, rest <:+ opens ∧ rest.length = i ∧ Bracketed (closeSkipped i (opens.map some ++ [none]) l).tree rest := by
  induction opens generalizing l with
  | nil => exact ⟨[], List.suffix_rfl, (Nat.le_zero.mp hi).symm, h⟩
  | cons element below ih =>
    rw [List.map_cons, List.cons_append, HtmlLexer.closeSkipped]
    have hlength : (below.map some ++ [(none : Option HtmlElement)]).length = below.length + 1 := by simp
    rw [hlength]
    split
    · next hlt =>
      obtain ⟨rest, hrest, hlen, hbracketed⟩ := ih (h.truncate rfl .unclosed) (by omega)
      exact ⟨rest, hrest.trans (List.suffix_cons _ _), hlen, hbracketed⟩
    · next hge =>
      rw [List.length_cons] at hi
      exact ⟨_, List.suffix_rfl, by rw [List.length_cons]; omega, h⟩

/-- Where a search for `tag` has found an element. -/
def Found (tag : GoogleString) (opens : List HtmlElement) (i : ℕ) : Prop :=
  ∃ element below, element :: below <:+ opens ∧ i = below.length + 1 ∧ stringCaseEqual element.nameStr tag = true

theorem Found.cons (h : Found tag opens i) (element : HtmlElement) : Found tag (element :: opens) i := by
  obtain ⟨e, below, hsuffix, hi, hname⟩ := h
  exact ⟨e, below, hsuffix.trans (List.suffix_cons _ _), hi, hname⟩

theorem found_head (h : stringCaseEqual element.nameStr tag = true) (below : List HtmlElement) :
    Found tag (element :: below) (below.map some ++ [(none : Option HtmlElement)]).length :=
  ⟨element, below, List.suffix_rfl, by simp, h⟩

theorem found_foreignMatch {infos : List OpenElementInfo}
    (h : foreignMatch tag (opens.map some ++ [none]) infos = some i) : Found tag opens i := by
  induction opens generalizing infos with
  | nil => cases infos <;> simp [foreignMatch] at h
  | cons element below ih =>
    cases infos with
    | nil => simp [foreignMatch] at h
    | cons info infos =>
      rw [List.map_cons, List.cons_append, foreignMatch] at h
      split at h
      · next hname =>
        cases h
        exact found_head hname below
      · split at h
        · cases h
        · exact (ih h).cons element

theorem found_htmlMatch {infos : List OpenElementInfo} {crossed : Crossed}
    (h : htmlMatch tag (opens.map some ++ [none]) infos crossed = some i) : Found tag opens i := by
  induction opens generalizing infos crossed with
  | nil => cases infos <;> simp [htmlMatch] at h
  | cons element below ih =>
    cases infos with
    | nil => simp [htmlMatch] at h
    | cons info infos =>
      rw [List.map_cons, List.cons_append, htmlMatch] at h
      split_ifs at h with _ _ hname
      all_goals first
        | exact (ih h).cons element
        | skip
      cases h
      exact found_head hname below

theorem Bracketed.popElementsDownTo (h : Bracketed l.tree opens) (hsuffix : element :: below <:+ opens) :
    (l.popElementsDownTo (below.length + 1)).1 = some element ∧
      Closing (l.popElementsDownTo (below.length + 1)).2 element below := by
  have hstack : l.elementStack = opens.map some ++ [none] := h.stack
  obtain ⟨rest, hrest, hlength, hbracketed⟩ := h.closeSkipped hsuffix.length_le
  obtain rfl : rest = element :: below :=
    (List.suffix_of_suffix_length_le hrest hsuffix (by simp [hlength])).eq_of_length hlength
  rw [HtmlLexer.popElementsDownTo, hstack]
  constructor
  · obtain ⟨pre, rfl⟩ := hsuffix
    simp
  · exact hbracketed.truncate rfl

def Popped (tag : GoogleString) (opens : List HtmlElement) : Option HtmlElement × HtmlLexer → Prop
  | (some element, l) =>
    ∃ below, element :: below <:+ opens ∧ stringCaseEqual element.nameStr tag = true ∧ Closing l element below
  | (none, l) => ∃ rest, rest <:+ opens ∧ Bracketed l.tree rest

theorem Popped.mono {r : Option HtmlElement × HtmlLexer} {rest : List HtmlElement} (h : Popped tag rest r)
    (hrest : rest <:+ opens) : Popped tag opens r := by
  obtain ⟨_ | element, l⟩ := r
  · obtain ⟨left, hleft, hbracketed⟩ := h
    exact ⟨left, hleft.trans hrest, hbracketed⟩
  · obtain ⟨below, hsuffix, hname, hclosing⟩ := h
    exact ⟨below, hsuffix.trans hrest, hname, hclosing⟩

theorem Bracketed.popped (h : Bracketed l.tree opens) (hi : Found tag opens i) :
    Popped tag opens (l.popElementsDownTo i) := by
  obtain ⟨element, below, hsuffix, rfl, hname⟩ := hi
  obtain ⟨hpopped, hclosing⟩ := h.popElementsDownTo hsuffix
  generalize l.popElementsDownTo (below.length + 1) = r at hpopped hclosing
  obtain ⟨popped, l'⟩ := r
  cases hpopped
  exact ⟨below, hsuffix, hname, hclosing⟩

theorem Bracketed.popElementByHtmlRules (h : Bracketed l.tree opens) (tag : GoogleString) :
    Popped tag opens (l.popElementByHtmlRules tag) := by
  have hstack : l.elementStack = opens.map some ++ [none] := h.stack
  rw [HtmlLexer.popElementByHtmlRules, hstack]
  split
  · next hmatch => exact h.popped (found_htmlMatch hmatch)
  · exact ⟨opens, List.suffix_rfl, h⟩

theorem Bracketed.popElementMatchingTag (h : Bracketed l.tree opens) (tag : GoogleString) :
    Popped tag opens (l.popElementMatchingTag tag) := by
  have hstack : l.elementStack = opens.map some ++ [none] := h.stack
  rw [HtmlLexer.popElementMatchingTag]
  split
  · split
    · obtain ⟨rest, hrest, hbracketed⟩ := h.popForeign
      exact (hbracketed.popElementByHtmlRules tag).mono hrest
    · rw [hstack]
      split
      · next hmatch => exact h.popped (found_foreignMatch hmatch)
      · exact h.popElementByHtmlRules tag
  · exact h.popElementByHtmlRules tag

theorem Bracketed.popElementMatchingTag_top (h : Bracketed l.tree (element :: below))
    (htag : stringCaseEqual element.nameStr tag = true)
    (hend : l.inForeignContent = true → nameIsOneOf tag kForeignBreakoutEndTags = false) :
    l.popElementMatchingTag tag = l.popElementsDownTo (below.length + 1) := by
  have hstack : l.elementStack = some element :: (below.map some ++ [none]) := h.stack
  have hlength : (below.map some ++ [(none : Option HtmlElement)]).length = below.length + 1 := by simp
  obtain ⟨info, infos, hinfos⟩ : ∃ info infos, l.openElementInfo = info :: infos :=
    List.exists_cons_of_length_eq_add_one h.infos
  rw [HtmlLexer.popElementMatchingTag]
  split
  · next hforeign =>
    rw [hend hforeign, if_neg Bool.false_ne_true, hstack, hinfos, foreignMatch, if_pos htag, hlength]
  · next hhtml =>
    have hns : info.ns = .kHtml := by simpa [inForeignContent, currentInfo, hinfos] using hhtml
    rw [HtmlLexer.popElementByHtmlRules, hstack, hinfos, htmlMatch, if_neg (not_not_intro hns), if_pos htag,
      Bool.false_and, if_neg Bool.false_ne_true, hlength]

end HtmlLexer

end PageSpeed
