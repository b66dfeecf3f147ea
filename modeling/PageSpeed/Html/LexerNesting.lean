import PageSpeed.Html.ElementNesting

/-!
What holds of the lexer between bytes. The element whose tag is being read is new, and
stands in what is open; a literal state belongs to the element on top of the stack.
-/

namespace PageSpeed.HtmlLexer

open HtmlElement (Style)

def InTag : State → Bool
  | .tagBriefClose | .tagAttribute | .tagAttrName | .tagAttrNameSpace | .tagAttrEq | .tagAttrVal | .tagAttrValDq
  | .tagAttrValSq => true
  | _ => false

def InAttr : State → Bool
  | .tagAttrName | .tagAttrNameSpace | .tagAttrEq | .tagAttrVal | .tagAttrValDq | .tagAttrValSq => true
  | _ => false

def InLiteral : State → Bool
  | .literalTag | .scriptTag => true
  | _ => false

def Quiet (state : State) : Bool := !InAttr state && !InLiteral state && decide (state ≠ .tagOpen)

structure Fresh (l : HtmlLexer) (element : HtmlElement) : Prop where
  allocated : element.id < l.numElements
  fresh : ∀ e, .addElement e ∈ l.calls → e.id ≠ element.id
  parent : element.parent = l.parent
  name : element.name = HtmlParse.makeName element.nameStr

structure LiteralOpen (l : HtmlLexer) (element : HtmlElement) : Prop where
  back : l.back = some element
  ns : l.currentInfo.ns = .kHtml
  keyword : isLiteralTag element.keyword = true
  name : element.name = HtmlParse.makeName element.nameStr
  script : l.state = .scriptTag ↔ element.keyword = .kScript
  close : l.literalClose = ascii "</" ++ element.nameStr ++ ascii ">"

structure Sound (l : HtmlLexer) : Prop where
  bracketed : ∃ opens, Bracketed l.tree opens
  element : ∀ element, l.element = some element →
    InTag l.state = true ∧ l.discardUntilStartState = false ∧ Fresh l element
  named : l.state = .tagOpen → l.discardUntilStartState = false
  made : InAttr l.state = true → l.discardUntilStartState = false → l.element ≠ none
  literal : InLiteral l.state = true → ∃ element, LiteralOpen l element

variable {l l' l'' : HtmlLexer} {element : HtmlElement} {opens : List HtmlElement} {c : UInt8}

theorem Bracketed.addEvent (h : Bracketed l.tree opens) (kind : HtmlLeafKind) (contents : GoogleString) :
    Bracketed (l.addEvent kind contents).tree opens where
  stack := h.stack
  infos := h.infos
  nested := by
    have hinside := h.nested.inside
    rw [List.head?_map, ← h.parent] at hinside
    simpa [tree, HtmlLexer.addEvent, HtmlCall.event] using hinside
  allocated := by
    intro e he
    refine h.allocated e ?_
    simpa [tree, HtmlLexer.addEvent] using he
  parents := h.parents
  opened := by
    intro e he
    have hmem : HtmlCall.addElement e ∈ l.calls := h.opened e he
    simp [tree, HtmlLexer.addEvent, hmem]
  foreign := h.foreign

theorem Bracketed.emitLiteral (h : Bracketed l.tree opens) : Bracketed l.emitLiteral.tree opens := by
  rw [HtmlLexer.emitLiteral]
  split
  · exact h
  · exact h.addEvent .characters l.literal

theorem element_emitLiteral : l.emitLiteral.element = l.element := by
  rw [HtmlLexer.emitLiteral]
  split <;> rfl

theorem state_emitLiteral : l.emitLiteral.state = .start := by
  rw [HtmlLexer.emitLiteral]
  split <;> rfl

theorem Bracketed.emitTagClose (h : Bracketed l.tree opens) (style : Style) :
    ∃ rest, rest <:+ opens ∧ Bracketed (l.emitTagClose style).tree rest := by
  have hpopped := h.popElementMatchingTag l.token
  rw [HtmlLexer.emitTagClose]
  generalize l.popElementMatchingTag l.token = r at hpopped
  obtain ⟨_ | element, l'⟩ := r
  · obtain ⟨rest, hrest, hbracketed⟩ := hpopped
    exact ⟨rest, hrest, hbracketed.emitLiteral⟩
  · obtain ⟨below, hbelow, -, hclosing⟩ := hpopped
    exact ⟨below, (List.suffix_cons _ _).trans hbelow, hclosing style⟩

theorem element_emitTagClose (l : HtmlLexer) (style : Style) : (l.emitTagClose style).element = l.element := by
  have hpops := (pops_popElementMatchingTag l l.token).element_eq
  rw [HtmlLexer.emitTagClose]
  generalize l.popElementMatchingTag l.token = r at hpops
  obtain ⟨_ | element, l'⟩ := r
  · exact element_emitLiteral.trans hpops
  · exact hpops

theorem state_emitTagClose (l : HtmlLexer) (style : Style) : (l.emitTagClose style).state = .start := rfl

structure Steady (l l' : HtmlLexer) : Prop where
  tree : ∀ opens, Bracketed l.tree opens → ∃ rest, rest <:+ opens ∧ Bracketed l'.tree rest
  element : l'.element = l.element
  quiet : Quiet l'.state = true

theorem steady_of (ht : l'.tree = l.tree) (he : l'.element = l.element) (hq : Quiet l'.state = true) : Steady l l' where
  tree opens h := ⟨opens, List.suffix_rfl, ht ▸ h⟩
  element := he
  quiet := hq

theorem Steady.trans (h : Steady l l') (h' : Steady l' l'') : Steady l l'' where
  tree opens hopens := by
    obtain ⟨rest, hrest, hbracketed⟩ := h.tree opens hopens
    obtain ⟨rest', hrest', hbracketed'⟩ := h'.tree rest hbracketed
    exact ⟨rest', hrest'.trans hrest, hbracketed'⟩
  element := h'.element.trans h.element
  quiet := h'.quiet

theorem Steady.source (h : Steady l' l'') (ht : l'.tree = l.tree) (he : l'.element = l.element) : Steady l l'' where
  tree opens hopens := h.tree opens (ht ▸ hopens)
  element := h.element.trans he
  quiet := h.quiet

theorem Sound.element_eq_none (h : Sound l) (htag : InTag l.state = false) : l.element = none := by
  cases he : l.element with
  | none => rfl
  | some e =>
    have hin := (h.element e he).1
    rw [htag] at hin
    cases hin

theorem sound_of_quiet (hb : ∃ opens, Bracketed l.tree opens) (he : l.element = none) (hq : Quiet l.state = true) :
    Sound l := by
  rw [Quiet, Bool.and_eq_true, Bool.and_eq_true, Bool.not_eq_true', Bool.not_eq_true', decide_eq_true_eq] at hq
  obtain ⟨⟨hattr, hliteral⟩, hopen⟩ := hq
  refine ⟨hb, fun e hsome => absurd (he.symm.trans hsome) nofun, fun h => absurd h hopen, fun h => ?_, fun h => ?_⟩
  · rw [hattr] at h
    cases h
  · rw [hliteral] at h
    cases h

theorem sound_of_literal (e : HtmlElement) (hb : ∃ opens, Bracketed l.tree opens) (he : l.element = none)
    (hs : InLiteral l.state = true) (h : LiteralOpen l e) : Sound l := by
  have hattr : InAttr l.state = false := by
    cases hl : l.state <;> simp [hl, InLiteral, InAttr] at hs ⊢
  refine ⟨hb, fun _ hsome => absurd (he.symm.trans hsome) nofun, fun hopen => ?_, fun hin => ?_, fun _ => ⟨e, h⟩⟩
  · rw [hopen] at hs
    cases hs
  · rw [hattr] at hin
    cases hin

theorem Sound.steady (h : Sound l) (htag : InTag l.state = false) (hs : Steady l l') : Sound l' := by
  obtain ⟨opens, hopens⟩ := h.bracketed
  obtain ⟨rest, -, hrest⟩ := hs.tree opens hopens
  exact sound_of_quiet ⟨rest, hrest⟩ (hs.element.trans (h.element_eq_none htag)) hs.quiet

/-! The states outside a start tag. -/

theorem steady_emitLiteral (l : HtmlLexer) : Steady l l.emitLiteral where
  tree opens h := ⟨opens, List.suffix_rfl, h.emitLiteral⟩
  element := element_emitLiteral
  quiet := by rw [state_emitLiteral]; rfl

theorem steady_emitTagClose (l : HtmlLexer) (style : Style) : Steady l (l.emitTagClose style) where
  tree _ h := h.emitTagClose style
  element := element_emitTagClose l style
  quiet := by rw [state_emitTagClose]; rfl

theorem steady_addEvent (l : HtmlLexer) (kind : HtmlLeafKind) (contents : GoogleString) :
    Steady l { l.addEvent kind contents with literal := [], token := [], state := .start } where
  tree opens h := ⟨opens, List.suffix_rfl, h.addEvent kind contents⟩
  element := rfl
  quiet := rfl

theorem steady_evalStart (l : HtmlLexer) (c : UInt8) : Steady l (l.evalStart c) := by
  rw [evalStart]
  split
  · have hemit : Steady l { l with literal := l.literal.dropLast }.emitLiteral :=
      (steady_emitLiteral { l with literal := l.literal.dropLast }).source rfl rfl
    exact ⟨hemit.tree, hemit.element, rfl⟩
  · exact steady_of rfl rfl rfl

theorem steady_restart (l : HtmlLexer) (c : UInt8) : Steady l (l.restart c) := by
  rw [restart]
  split
  · exact (steady_evalStart { l with literal := l.literal ++ [c] } c).source rfl rfl
  · have hemit : Steady l { l with literal := l.literal.dropLast }.emitLiteral :=
      (steady_emitLiteral { l with literal := l.literal.dropLast }).source rfl rfl
    refine hemit.trans ?_
    exact (steady_evalStart _ c).source rfl rfl

theorem sound_evalTag (h : Sound l) (hs : l.state = .tag) : Sound (l.evalTag c) := by
  have htag : InTag l.state = false := by rw [hs]; rfl
  have hnone := h.element_eq_none htag
  rw [evalTag]
  split_ifs
  · exact h.steady htag (steady_of rfl rfl rfl)
  · exact ⟨h.bracketed, fun e he => absurd (hnone.symm.trans he) nofun, fun _ => rfl, nofun, nofun⟩
  · exact h.steady htag (steady_of rfl rfl rfl)
  · exact h.steady htag (steady_of rfl rfl rfl)
  · exact h.steady htag (steady_evalStart l c)

theorem steady_evalTagCloseNoName (l : HtmlLexer) (c : UInt8) : Steady l (l.evalTagCloseNoName c) := by
  rw [evalTagCloseNoName]
  split_ifs
  · exact steady_of rfl rfl rfl
  · exact (steady_evalStart { l with token := [] } c).source rfl rfl
  · exact steady_of rfl rfl rfl

theorem steady_evalTagClose (l : HtmlLexer) (c : UInt8) (hq : Quiet l.state = true) :
    Steady l (l.evalTagClose c) := by
  rw [evalTagClose]
  split_ifs
  · exact steady_of rfl rfl hq
  · exact steady_of rfl rfl hq
  · exact steady_of rfl rfl rfl
  · exact steady_emitTagClose l .explicitClose
  · exact (steady_evalStart { l with token := [] } c).source rfl rfl

theorem steady_evalDirective (l : HtmlLexer) (c : UInt8) (hq : Quiet l.state = true) :
    Steady l (l.evalDirective c) := by
  rw [evalDirective]
  split
  · exact steady_addEvent l .directive l.token
  · exact steady_of rfl rfl hq

theorem steady_evalBogusComment (l : HtmlLexer) (c : UInt8) (hq : Quiet l.state = true) : Steady l (l.evalBogusComment c) := by
  rw [evalBogusComment]
  split
  · exact (steady_emitLiteral l).trans (steady_of rfl rfl rfl)
  · exact steady_of rfl rfl hq

theorem steady_evalCommentStart1 (l : HtmlLexer) (c : UInt8) : Steady l (l.evalCommentStart1 c) := by
  rw [evalCommentStart1]
  split_ifs
  · exact steady_of rfl rfl rfl
  · exact steady_of rfl rfl rfl
  · exact (steady_evalDirective { l with state := .directive } c rfl).source rfl rfl
  · exact steady_restart l c

theorem steady_evalExpected (expected : UInt8) (next : State) (l : HtmlLexer) (c : UInt8) (hq : Quiet next = true) : Steady l (evalExpected expected next l c) := by
  rw [evalExpected]
  split
  · exact steady_of rfl rfl hq
  · exact steady_restart l c

theorem steady_evalBody (closing : UInt8) (next : State) (l : HtmlLexer) (c : UInt8) (hq : Quiet next = true) (hq' : Quiet l.state = true) :
    Steady l (evalBody closing next l c) := by
  rw [evalBody]
  split
  · exact steady_of rfl rfl hq
  · exact steady_of rfl rfl hq'

theorem steady_evalEnd1 (closing : UInt8) (next body : State) (l : HtmlLexer) (c : UInt8)
    (hq : Quiet next = true) (hq' : Quiet body = true) : Steady l (evalEnd1 closing next body l c) := by
  rw [evalEnd1]
  split
  · exact steady_of rfl rfl hq
  · exact steady_of rfl rfl hq'

theorem steady_evalCommentEnd2 (l : HtmlLexer) (c : UInt8) (hq : Quiet l.state = true) : Steady l (l.evalCommentEnd2 c) := by
  rw [evalCommentEnd2]
  split_ifs
  · exact steady_addEvent l _ l.token
  · exact steady_of rfl rfl hq
  · exact steady_of rfl rfl rfl

theorem steady_evalCdataEnd2 (l : HtmlLexer) (c : UInt8) : Steady l (l.evalCdataEnd2 c) := by
  rw [evalCdataEnd2]
  split
  · exact steady_addEvent l .cdata l.token
  · exact steady_of rfl rfl rfl

/-! The states of a literal element. -/

theorem steady_discardAfterCloseTag (l : HtmlLexer) (c : UInt8) (hq : Quiet l.state = true) : Steady l (l.discardAfterCloseTag c) := by
  rw [discardAfterCloseTag]
  split_ifs
  · exact steady_of rfl rfl rfl
  · exact steady_of rfl rfl rfl
  · exact steady_of rfl rfl hq

theorem Steady.token (h : Steady l l') (token : GoogleString) : Steady l { l' with token := token } :=
  ⟨h.tree, h.element, h.quiet⟩

theorem Steady.closeLiteral (h : Steady l l') (c : UInt8) :
    Steady l ((l'.emitTagClose .explicitClose).discardAfterCloseTag c) :=
  h.trans ((steady_emitTagClose l' .explicitClose).trans (steady_discardAfterCloseTag _ c rfl))

theorem sound_evalLiteralTag (h : Sound l) (hs : l.state = .literalTag) : Sound (l.evalLiteralTag c) := by
  have htag : InTag l.state = false := by rw [hs]; rfl
  rw [evalLiteralTag]
  split
  · dsimp only
    split
    · refine h.steady htag (Steady.closeLiteral (Steady.token ?_ _) c)
      exact (steady_emitLiteral _).source rfl rfl
    · exact h
  · exact h

theorem Fresh.congr (h : Fresh l element) (ht : l'.tree = l.tree) : Fresh l' element where
  allocated := by
    rw [show l'.numElements = l.numElements from congrArg Tree.numElements ht]
    exact h.allocated
  fresh := by
    rw [show l'.calls = l.calls from congrArg Tree.calls ht]
    exact h.fresh
  parent := by
    rw [HtmlLexer.parent, back, show l'.elementStack = l.elementStack from congrArg Tree.stack ht]
    exact h.parent
  name := h.name

theorem Sound.frame (h : Sound l) (ht : l'.tree = l.tree) (he : l'.element = l.element)
    (hd : l'.discardUntilStartState = l.discardUntilStartState) (hs : l'.state = l.state)
    (hc : l'.literalClose = l.literalClose) : Sound l' where
  bracketed := by
    obtain ⟨opens, hopens⟩ := h.bracketed
    exact ⟨opens, ht ▸ hopens⟩
  element e hsome := by
    obtain ⟨htag, hkept, hfresh⟩ := h.element e (he ▸ hsome)
    exact ⟨hs ▸ htag, hd ▸ hkept, hfresh.congr ht⟩
  named hopen := hd ▸ h.named (hs ▸ hopen)
  made hattr hkept := by
    rw [he]
    exact h.made (hs ▸ hattr) (hd ▸ hkept)
  literal hin := by
    obtain ⟨e, hopen⟩ := h.literal (hs ▸ hin)
    refine ⟨e, ?_, ?_, hopen.keyword, hopen.name, hs ▸ hopen.script, hc ▸ hopen.close⟩
    · rw [back, show l'.elementStack = l.elementStack from congrArg Tree.stack ht]
      exact hopen.back
    · rw [currentInfo, show l'.openElementInfo = l.openElementInfo from congrArg Tree.infos ht]
      exact hopen.ns

theorem sound_beginScriptComment (h : Sound l) (c : UInt8) : Sound (l.beginScriptComment c) := by
  rw [beginScriptComment]
  split
  · exact h.frame rfl rfl rfl rfl rfl
  · exact h

theorem state_beginScriptComment (l : HtmlLexer) (c : UInt8) : (l.beginScriptComment c).state = l.state := by
  rw [beginScriptComment]
  split <;> rfl

theorem sound_evalScriptTag (h : Sound l) (hs : l.state = .scriptTag) : Sound (l.evalScriptTag c) := by
  rw [evalScriptTag]
  have hsound := sound_beginScriptComment h c
  have htag : InTag (l.beginScriptComment c).state = false := by rw [state_beginScriptComment, hs]; rfl
  generalize l.beginScriptComment c = l' at hsound htag
  dsimp only
  split_ifs
  · exact hsound.frame rfl rfl rfl rfl rfl
  · refine hsound.steady htag (Steady.closeLiteral ?_ c)
    exact (steady_emitLiteral _).source rfl rfl
  · exact hsound.frame rfl rfl rfl rfl rfl
  · exact hsound.frame rfl rfl rfl rfl rfl
  · exact hsound
  · exact hsound

/-! Start tags. -/

theorem ns_makeOpenElementInfo (element : HtmlElement) (ns : ElementNamespace) :
    (makeOpenElementInfo element ns).ns = ns := by
  cases ns <;> rfl

theorem not_breakoutEnd_of_start (h : isForeignBreakoutStartTag element = false) :
    nameIsOneOf element.nameStr kForeignBreakoutEndTags = false := by
  rw [isForeignBreakoutStartTag, Bool.or_eq_false_iff] at h
  have hsub : kForeignBreakoutEndTags.all (kForeignBreakoutStartTags.contains ·) = true := by decide
  by_contra hend
  rw [Bool.not_eq_false, nameIsOneOf, Bool.and_eq_true, List.contains_iff_mem] at hend
  have hstart := List.all_eq_true.mp hsub _ hend.2
  rw [nameIsOneOf, hend.1, hstart] at h
  exact absurd h.1 (by decide)

structure Ready (l : HtmlLexer) (element : HtmlElement) : Prop where
  bracketed : ∃ opens, Bracketed l.tree opens
  made : l.element = some element
  kept : l.discardUntilStartState = false
  fresh : Fresh l element

theorem ready_makeElement (hb : ∃ opens, Bracketed l.tree opens) (he : ∀ e, l.element = some e → Fresh l e)
    (hd : l.discardUntilStartState = false) : ∃ element, Ready l.makeElement element := by
  obtain ⟨opens, hopens⟩ := hb
  rw [makeElement]
  split
  · next e hsome => exact ⟨e, ⟨opens, hopens⟩, hsome, hd, he e hsome⟩
  · refine ⟨_, ⟨opens, ?_⟩, rfl, hd, ?_⟩
    · exact { hopens with allocated := fun e hmem => Nat.lt_succ_of_lt (hopens.allocated e hmem) }
    · exact {
        allocated := Nat.lt_succ_self _
        fresh := fun e hmem => Nat.ne_of_lt (hopens.allocated e hmem)
        parent := rfl
        name := rfl }

structure Addable (l : HtmlLexer) (element : HtmlElement) (ns : ElementNamespace) : Prop where
  allocated : element.id < l.numElements
  fresh : ∀ e, .addElement e ∈ l.calls → e.id ≠ element.id
  parent : element.parent = l.parent
  breakout : ns ≠ .kHtml → nameIsOneOf element.nameStr kForeignBreakoutEndTags = false
  keywordless : ns ≠ .kHtml → element.keyword = .kNotAKeyword
  name : ns = .kHtml → element.name = HtmlParse.makeName element.nameStr

theorem Addable.startElement {ns : ElementNamespace} (h : Addable l element ns) (hb : Bracketed l.tree opens) :
    Bracketed (l.startElement element ns).tree (element :: opens) where
  stack := by
    rw [List.map_cons, List.cons_append, ← hb.stack]
    rfl
  infos := congrArg (· + 1) hb.infos
  nested := by
    have hnew : (l.calls.map HtmlCall.event).countP (Brackets.Event.opens element.id) = 0 := by
      rw [List.countP_eq_zero, List.forall_mem_map]
      rintro (e | e | e) hmem
      · simpa [HtmlCall.event, Brackets.Event.opens] using h.fresh e hmem
      · simp [HtmlCall.event, Brackets.Event.opens]
      · simp [HtmlCall.event, Brackets.Event.opens]
    have hopened := hb.nested.opened hnew
    rw [List.head?_map, ← hb.parent, ← h.parent] at hopened
    simpa [tree, HtmlLexer.startElement, addElement, pushElement, HtmlCall.event] using hopened
  allocated := by
    intro e he
    simp only [tree, HtmlLexer.startElement, addElement, pushElement, List.mem_append, List.mem_singleton,
      HtmlCall.addElement.injEq] at he
    obtain hold | rfl := he
    · exact hb.allocated e hold
    · exact h.allocated
  parents := ⟨h.parent.trans hb.parent, hb.parents⟩
  opened := by
    intro e he
    obtain rfl | hold := List.mem_cons.mp he
    · simp [tree, HtmlLexer.startElement, addElement, pushElement]
    · have hmem : HtmlCall.addElement e ∈ l.calls := hb.opened e hold
      simp [tree, HtmlLexer.startElement, addElement, pushElement, hmem]
  foreign := by
    intro p hp hns
    change p ∈ (element :: opens).zip (makeOpenElementInfo element ns :: l.openElementInfo) at hp
    rw [List.zip_cons_cons, List.mem_cons] at hp
    obtain rfl | hold := hp
    · rw [ns_makeOpenElementInfo] at hns
      exact h.breakout hns
    · exact hb.foreign p hold hns

structure Opened (l : HtmlLexer) (allowImplicitClose : Bool) : Prop where
  sound : Sound l
  element : l.element = none
  tag : InTag l.state = false
  opens : allowImplicitClose = false → ∃ element below, Bracketed l.tree (element :: below)

theorem not_implicitlyClosed_of_literal {keyword : HtmlName.Keyword} (h : isLiteralTag keyword = true) :
    isImplicitlyClosedTag keyword = false := by
  have hall : kLiteralTags.all (fun keyword => !isImplicitlyClosedTag keyword) = true := by decide
  exact Bool.not_eq_true' _ ▸ List.all_eq_true.mp hall keyword (List.contains_iff_mem.mp h)

theorem Addable.openElement {ns : ElementNamespace} (h : Addable l element ns) (hb : Bracketed l.tree opens)
    (allowImplicitClose : Bool) : Opened (l.openElement element ns allowImplicitClose) allowImplicitClose := by
  have hstart := h.startElement hb
  rw [HtmlLexer.openElement]
  by_cases hliteral : isLiteralTag element.keyword = true
  · have hns : ns = .kHtml := by
      by_contra hns
      rw [h.keywordless hns] at hliteral
      exact absurd hliteral (by decide)
    rw [startContent, if_pos hliteral, not_implicitlyClosed_of_literal hliteral, Bool.and_false,
      if_neg Bool.false_ne_true]
    have hopens : allowImplicitClose = false → ∃ e below, Bracketed (l.startElement element ns).tree (e :: below) :=
      fun _ => ⟨element, opens, hstart⟩
    have hinfo : (l.startElement element ns).currentInfo.ns = .kHtml := by
      rw [← hns]
      exact ns_makeOpenElementInfo element ns
    by_cases hscript : element.keyword = .kScript
    · rw [if_pos hscript]
      refine ⟨sound_of_literal element ⟨_, hstart⟩ rfl rfl ?_, rfl, rfl, hopens⟩
      exact ⟨rfl, hinfo, hliteral, h.name hns, iff_of_true rfl hscript, rfl⟩
    · rw [if_neg hscript]
      refine ⟨sound_of_literal element ⟨_, hstart⟩ rfl rfl ?_, rfl, rfl, hopens⟩
      exact ⟨rfl, hinfo, hliteral, h.name hns, iff_of_false nofun hscript, rfl⟩
  · rw [startContent, if_neg hliteral]
    have hbracketed : Bracketed ({ l.startElement element ns with state := .start }).tree (element :: opens) := hstart
    by_cases himplicit : (allowImplicitClose && isImplicitlyClosedTag element.keyword) = true
    · rw [if_pos himplicit]
      obtain ⟨rest, -, hrest⟩ := Bracketed.emitTagClose (l := { l.startElement element ns with
        state := .start, token := element.nameStr }) hstart .implicitClose
      refine ⟨sound_of_quiet ⟨rest, hrest⟩ rfl rfl, rfl, rfl, ?_⟩
      rintro rfl
      cases himplicit
    · rw [if_neg himplicit]
      exact ⟨sound_of_quiet ⟨_, hbracketed⟩ rfl rfl, rfl, rfl, fun _ => ⟨element, opens, hbracketed⟩⟩

theorem not_breakoutEnd_of_equal {s t : GoogleString} (h : stringCaseEqual s t = true)
    (ht : nameIsOneOf t kForeignBreakoutEndTags = false) : nameIsOneOf s kForeignBreakoutEndTags = false := by
  rw [stringCaseEqual_iff_lower] at h
  have hlength := congrArg List.length h
  rw [List.length_map, List.length_map] at hlength
  rw [nameIsOneOf] at ht ⊢
  rwa [h, hlength]

theorem not_breakoutEnd_of_namespace {htmlRules : Bool}
    (hrules : htmlRules = false → isForeignBreakoutStartTag element = false)
    (hns : l.elementNamespace element htmlRules ≠ .kHtml) :
    nameIsOneOf element.nameStr kForeignBreakoutEndTags = false := by
  rw [elementNamespace] at hns
  split_ifs at hns with hr hsvg hmath
  · exact not_breakoutEnd_of_start (hrules (by simpa using hr))
  · exact not_breakoutEnd_of_equal hsvg (by decide)
  · exact not_breakoutEnd_of_equal hmath (by decide)
  · exact absurd rfl hns

theorem Bracketed.autoCloseLoop (h : Bracketed l.tree opens) (hp : element.parent = l.parent) :
    ∃ rest, rest <:+ opens ∧ Bracketed (autoCloseLoop (opens.map some ++ [none]) l element).1.tree rest ∧
      (autoCloseLoop (opens.map some ++ [none]) l element).2 =
        { element with parent := (autoCloseLoop (opens.map some ++ [none]) l element).1.parent } := by
  induction opens generalizing l element with
  | nil =>
    have hnone : HtmlLexer.autoCloseLoop [none] l element = (l, element) := rfl
    refine ⟨[], List.suffix_rfl, h, ?_⟩
    rw [List.map_nil, List.nil_append, hnone, ← hp]
  | cons openElement below ih =>
    rw [List.map_cons, List.cons_append, HtmlLexer.autoCloseLoop]
    split
    · have hpop := h.pop .autoClose
      generalize (l.truncateStack (l.elementStack.length - 1)).closeElement openElement .autoClose = l' at hpop ⊢
      obtain ⟨rest, hrest, hbracketed, helement⟩ := @ih l' { element with parent := l'.parent } hpop rfl
      exact ⟨rest, hrest.trans (List.suffix_cons _ _), hbracketed, helement⟩
    · refine ⟨_, List.suffix_rfl, h, ?_⟩
      rw [← hp]

theorem nameStr_nameInNamespace (element : HtmlElement) (ns : ElementNamespace) :
    (nameInNamespace element ns).nameStr = element.nameStr := by
  rw [nameInNamespace]
  split <;> rfl

theorem Pops.fresh (h : Pops l l') (hfresh : ∀ e, .addElement e ∈ l.calls → e.id ≠ element.id) :
    ∀ e, .addElement e ∈ l'.calls → e.id ≠ element.id :=
  fun e he => hfresh e (h.mem_calls.mp he)

theorem opened_emitElement {htmlRules : Bool} (hb : Bracketed l.tree opens) (h : Fresh l element)
    (hrules : htmlRules = false → isForeignBreakoutStartTag element = false) (allowImplicitClose : Bool) :
    Opened (l.emitElement element htmlRules allowImplicitClose) allowImplicitClose := by
  have hstack : l.elementStack = opens.map some ++ [none] := hb.stack
  rw [emitElement]
  have hbreakout := not_breakoutEnd_of_namespace hrules (l := l)
  generalize l.elementNamespace element htmlRules = ns at hbreakout
  have hname := nameStr_nameInNamespace element ns
  have haddable : ∀ l' parent, Pops l l' → parent = l'.parent →
      Addable l' { nameInNamespace element ns with parent := parent } ns := by
    intro l' parent hpops hparent
    have hid : (nameInNamespace element ns).id = element.id := by
      rw [nameInNamespace]
      split <;> rfl
    exact {
      allocated := by
        rw [hpops.numElements_eq]
        exact hid ▸ h.allocated
      fresh := hpops.fresh (by rw [hid]; exact h.fresh)
      parent := hparent
      breakout := fun hns => by
        rw [show HtmlElement.nameStr { nameInNamespace element ns with parent := parent } =
          (nameInNamespace element ns).nameStr from rfl, hname]
        exact hbreakout hns
      keywordless := fun hns => by
        rw [nameInNamespace, if_neg hns]
        rfl
      name := fun hns => by
        rw [nameInNamespace, if_pos hns]
        exact h.name }
  have hparent : (nameInNamespace element ns).parent = l.parent := by
    rw [nameInNamespace]
    split <;> exact h.parent
  dsimp only
  split
  · rw [hstack]
    obtain ⟨rest, -, hrest, helement⟩ := hb.autoCloseLoop hparent
    rw [helement]
    exact (haddable _ _ (pops_autoCloseLoop _ l _) rfl).openElement hrest allowImplicitClose
  · exact (haddable l _ (pops_refl l) hparent).openElement hb allowImplicitClose

theorem Ready.emitTagOpen (h : Ready l element) (allowImplicitClose : Bool) :
    Opened (l.emitTagOpen allowImplicitClose) allowImplicitClose := by
  obtain ⟨opens, hopens⟩ := h.bracketed
  rw [HtmlLexer.emitTagOpen, if_neg (by rw [h.kept]; exact Bool.false_ne_true), h.made]
  dsimp only
  split
  · obtain ⟨rest, -, hrest⟩ := hopens.popForeign
    have hpops := pops_popForeignLoop l.elementStack l
    refine opened_emitElement hrest ?_ ?_ allowImplicitClose
    rotate_left
    · exact nofun
    exact {
      allocated := hpops.numElements_eq ▸ h.fresh.allocated
      fresh := hpops.fresh h.fresh.fresh
      parent := rfl
      name := h.fresh.name }
  · next hrules =>
    refine opened_emitElement hopens h.fresh ?_ allowImplicitClose
    intro hfalse
    simpa [hfalse] using hrules

/-! Attributes. -/

theorem Sound.retag (h : Sound l) (ht : l'.tree = l.tree) (he : l'.element = l.element)
    (hd : l'.discardUntilStartState = l.discardUntilStartState) (hin : InTag l'.state = true)
    (hmade : InAttr l'.state = true → l.discardUntilStartState = false → l.element ≠ none) : Sound l' where
  bracketed := by
    obtain ⟨opens, hopens⟩ := h.bracketed
    exact ⟨opens, ht ▸ hopens⟩
  element e hsome := by
    obtain ⟨-, hkept, hfresh⟩ := h.element e (he ▸ hsome)
    exact ⟨hin, hd ▸ hkept, hfresh.congr ht⟩
  named hopen := by
    rw [hopen] at hin
    cases hin
  made hattr hkept := by
    rw [he]
    exact hmade hattr (hd ▸ hkept)
  literal hs := by
    cases hstate : l'.state <;> simp [hstate, InTag, InLiteral] at hin hs

theorem Sound.discarded (h : Sound l) (hd : l.discardUntilStartState = true) : l.element = none := by
  cases he : l.element with
  | none => rfl
  | some e =>
    have hkept := (h.element e he).2.1
    rw [hd] at hkept
    cases hkept

theorem Sound.ready (h : Sound l) (hd : l.discardUntilStartState = false) (he : l.element ≠ none) :
    ∃ element, Ready l element := by
  obtain ⟨e, hsome⟩ := Option.ne_none_iff_exists'.mp he
  exact ⟨e, h.bracketed, hsome, hd, (h.element e hsome).2.2⟩

theorem sound_makeElementUnlessDiscarding (h : Sound l) (hin : InTag l.state = true) :
    Sound l.makeElementUnlessDiscarding ∧ l.makeElementUnlessDiscarding.state = l.state ∧
      l.makeElementUnlessDiscarding.discardUntilStartState = l.discardUntilStartState ∧
      (l.discardUntilStartState = false → l.makeElementUnlessDiscarding.element ≠ none) := by
  rw [makeElementUnlessDiscarding]
  split
  · next hd =>
    refine ⟨h, rfl, rfl, fun hkept => ?_⟩
    rw [hd] at hkept
    cases hkept
  · next hd =>
    rw [Bool.not_eq_true] at hd
    obtain ⟨e, hready⟩ := ready_makeElement h.bracketed (fun e he => (h.element e he).2.2) hd
    have hstate : l.makeElement.state = l.state := by
      rw [makeElement]
      split <;> rfl
    refine ⟨⟨hready.bracketed, ?_, fun _ => hready.kept, ?_, ?_⟩, hstate, hready.kept.trans hd.symm, fun _ => ?_⟩
    · intro e' he'
      rw [hready.made] at he'
      cases he'
      exact ⟨hstate ▸ hin, hready.kept, hready.fresh⟩
    · intro _ _
      rw [hready.made]
      exact Option.some_ne_none e
    · intro hs
      rw [hstate] at hs
      cases hl : l.state <;> simp [hl, InTag, InLiteral] at hin hs
    · rw [hready.made]
      exact Option.some_ne_none e

theorem sound_makeAttribute (h : Sound l) (hasValue : Bool) : Sound (l.makeAttribute hasValue) where
  bracketed := h.bracketed
  element e he := by
    simp only [makeAttribute] at he ⊢
    split at he
    · next hd =>
      rw [h.discarded hd] at he
      cases he
    · next hd =>
      obtain ⟨made, hmade, rfl⟩ := Option.map_eq_some_iff.mp he
      obtain ⟨-, hkept, hfresh⟩ := h.element made hmade
      exact ⟨rfl, hkept, hfresh.allocated, hfresh.fresh, hfresh.parent, hfresh.name⟩
  named := nofun
  made := nofun
  literal := nofun

theorem element_makeAttribute {hasValue : Bool} (he : l.element ≠ none) : (l.makeAttribute hasValue).element ≠ none := by
  obtain ⟨e, hsome⟩ := Option.ne_none_iff_exists'.mp he
  simp only [makeAttribute, hsome]
  split <;> simp

theorem sound_emitTagOpen (h : Sound l) (hmade : l.discardUntilStartState = false → l.element ≠ none)
    (allowImplicitClose : Bool) : Sound (l.emitTagOpen allowImplicitClose) := by
  by_cases hd : l.discardUntilStartState = true
  · have hnone := h.discarded hd
    rw [emitTagOpen, if_pos hd]
    exact sound_of_quiet h.bracketed hnone rfl
  · rw [Bool.not_eq_true] at hd
    obtain ⟨e, hready⟩ := h.ready hd (hmade hd)
    exact (hready.emitTagOpen allowImplicitClose).sound

theorem sound_emitTagBriefClose (h : Sound l) (hmade : l.discardUntilStartState = false → l.element ≠ none) :
    Sound (l.emitTagOpen false).emitTagBriefClose := by
  have hsound := sound_emitTagOpen h hmade false
  by_cases hd : l.discardUntilStartState = true
  · have hnone := h.discarded hd
    have hopen : l.emitTagOpen false = { l with state := .start, literal := [] } := by rw [emitTagOpen, if_pos hd]
    rw [hopen, emitTagBriefClose, if_pos (by exact hd)]
    exact sound_of_quiet h.bracketed hnone rfl
  · rw [Bool.not_eq_true] at hd
    obtain ⟨e, hready⟩ := h.ready hd (hmade hd)
    have hopened := hready.emitTagOpen false
    generalize l.emitTagOpen false = l' at hopened
    obtain ⟨element, below, hb⟩ := hopened.opens rfl
    have hstack : l'.elementStack = some element :: (below.map some ++ [none]) := hb.stack
    rw [emitTagBriefClose]
    split
    · exact sound_of_quiet hopened.sound.bracketed hopened.element rfl
    · have hpop : l'.popElement = (some element, l'.truncateStack (l'.elementStack.length - 1)) := by
        rw [popElement, if_neg (by rw [hstack]; exact List.cons_ne_nil _ _), back, hstack]
        rfl
      rw [hpop]
      exact sound_of_quiet ⟨below, hb.pop .briefClose⟩ hopened.element rfl

theorem sound_makeAttributeIfNamed (h : Sound l) (hmade : l.discardUntilStartState = false → l.element ≠ none)
    (hasValue : Bool) : Sound (l.makeAttributeIfNamed hasValue) ∧
      ((l.makeAttributeIfNamed hasValue).discardUntilStartState = false →
        (l.makeAttributeIfNamed hasValue).element ≠ none) := by
  rw [makeAttributeIfNamed]
  split
  · exact ⟨sound_makeAttribute h hasValue, fun hd => element_makeAttribute (hmade hd)⟩
  · exact ⟨h, hmade⟩

theorem sound_finishAttribute (h : Sound l) (hmade : l.discardUntilStartState = false → l.element ≠ none) (c : UInt8)
    (hasValue briefClose : Bool) : Sound (l.finishAttribute c hasValue briefClose) := by
  rw [finishAttribute]
  split
  · exact (sound_makeAttribute h hasValue).frame rfl rfl rfl rfl rfl
  · split
    · obtain ⟨hsound, hmade⟩ := sound_makeAttributeIfNamed h hmade hasValue
      generalize l.makeAttributeIfNamed hasValue = l' at hsound hmade
      cases briefClose with
      | true => exact (sound_emitTagBriefClose hsound hmade).frame rfl rfl rfl rfl rfl
      | false => exact (sound_emitTagOpen hsound hmade true).frame rfl rfl rfl rfl rfl
    · exact h

theorem sound_evalAttribute (h : Sound l) (hin : InTag l.state = true) : Sound (l.evalAttribute c) := by
  obtain ⟨hsound, hstate, hd, hmade⟩ := sound_makeElementUnlessDiscarding h hin
  rw [← hd] at hmade
  rw [← hstate] at hin
  rw [evalAttribute]
  generalize l.makeElementUnlessDiscarding = l' at hsound hmade hin
  dsimp only
  split_ifs
  · have hs : Sound { l' with attrName := [], attrValue := [] } := hsound.frame rfl rfl rfl rfl rfl
    exact sound_emitTagOpen hs hmade true
  · exact hsound.retag rfl rfl rfl rfl nofun
  · exact hsound.retag rfl rfl rfl rfl fun _ => hmade
  · exact hsound.frame rfl rfl rfl rfl rfl

theorem sound_evalTagBriefClose (h : Sound l) (hin : InTag l.state = true) : Sound (l.evalTagBriefClose c) := by
  rw [evalTagBriefClose]
  split
  · obtain ⟨hsound, -, hd, hmade⟩ := sound_makeElementUnlessDiscarding h hin
    rw [← hd] at hmade
    exact sound_finishAttribute hsound hmade c l.hasAttrValue true
  · refine sound_evalAttribute ?_ rfl
    rw [makeAttributeIfNamed]
    split
    · exact (sound_makeAttribute h l.hasAttrValue).frame rfl rfl rfl rfl rfl
    · exact h.retag rfl rfl rfl rfl nofun

theorem sound_handleAttributeEnd (h : Sound l) (hattr : InAttr l.state = true) (ha : l.handleAttributeEnd c = some l') :
    Sound l' := by
  have hmade := h.made hattr
  rw [handleAttributeEnd] at ha
  split_ifs at ha
  · cases ha
    exact h.retag rfl rfl rfl rfl fun _ => hmade
  · cases ha
    exact h.retag rfl rfl rfl rfl fun _ => hmade
  · cases ha
    exact sound_emitTagOpen (sound_makeAttribute h false) (fun hd => element_makeAttribute (hmade hd)) true
  · cases ha
    exact h.retag rfl rfl rfl rfl nofun

theorem sound_evalAttrName (h : Sound l) (hattr : InAttr l.state = true) : Sound (l.evalAttrName c) := by
  rw [evalAttrName]
  cases ha : l.handleAttributeEnd c with
  | none => exact h.frame rfl rfl rfl rfl rfl
  | some l' => exact sound_handleAttributeEnd h hattr ha

theorem sound_evalAttrNameSpace (h : Sound l) (hattr : InAttr l.state = true) : Sound (l.evalAttrNameSpace c) := by
  rw [evalAttrNameSpace]
  cases ha : l.handleAttributeEnd c with
  | none =>
    refine (sound_makeAttribute h false).retag rfl rfl rfl rfl fun _ hd => ?_
    exact element_makeAttribute (h.made hattr hd)
  | some l' => exact sound_handleAttributeEnd h hattr ha

theorem sound_evalAttrVal (h : Sound l) (hattr : InAttr l.state = true) : Sound (l.evalAttrVal c) := by
  rw [evalAttrVal]
  split
  · exact sound_finishAttribute h (h.made hattr) c true false
  · exact h.frame rfl rfl rfl rfl rfl

theorem sound_evalAttrEq (h : Sound l) (hattr : InAttr l.state = true) : Sound (l.evalAttrEq c) := by
  have hmade := h.made hattr
  rw [evalAttrEq]
  split_ifs
  · exact h.retag rfl rfl rfl rfl fun _ => hmade
  · exact h.retag rfl rfl rfl rfl fun _ => hmade
  · exact h
  · exact sound_finishAttribute h hmade c true false
  · exact sound_evalAttrVal (h.retag rfl rfl rfl rfl fun _ => hmade) rfl

theorem sound_evalAttrQuoted (h : Sound l) (quote : UInt8) : Sound (evalAttrQuoted quote l c) := by
  rw [evalAttrQuoted]
  split
  · exact sound_makeAttribute h true
  · exact h.frame rfl rfl rfl rfl rfl

theorem sound_evalTagOpen (h : Sound l) (hs : l.state = .tagOpen) : Sound (l.evalTagOpen c) := by
  have hnone := h.element_eq_none (by rw [hs]; rfl)
  rw [evalTagOpen]
  split_ifs
  · exact h.frame rfl rfl rfl rfl rfl
  · obtain ⟨e, hready⟩ :=
      ready_makeElement h.bracketed (fun e he => absurd (hnone.symm.trans he) nofun) (h.named hs)
    exact (hready.emitTagOpen true).sound
  · exact sound_of_quiet h.bracketed hnone rfl
  · exact sound_of_quiet h.bracketed hnone rfl
  · exact sound_of_quiet h.bracketed hnone rfl

/-! Whole documents. -/

theorem sound_eval (h : Sound l) (c : UInt8) : Sound (l.eval c) := by
  rw [eval]
  split
  · next hs => exact h.steady (by rw [hs]; rfl) (steady_evalStart l c)
  · next hs => exact sound_evalTag h hs
  · next hs => exact sound_evalTagOpen h hs
  · next hs => exact h.steady (by rw [hs]; rfl) (steady_evalTagCloseNoName l c)
  · next hs => exact h.steady (by rw [hs]; rfl) (steady_evalTagClose l c (by rw [hs]; rfl))
  · next hs => exact h.steady (by rw [hs]; rfl) (steady_evalTagClose l c (by rw [hs]; rfl))
  · next hs => exact sound_evalTagBriefClose h (by rw [hs]; rfl)
  · next hs => exact h.steady (by rw [hs]; rfl) (steady_evalCommentStart1 l c)
  · next hs => exact h.steady (by rw [hs]; rfl) (steady_evalExpected 45 .commentBody l c rfl)
  · next hs => exact h.steady (by rw [hs]; rfl) (steady_evalBody 45 .commentEnd1 l c rfl (by rw [hs]; rfl))
  · next hs => exact h.steady (by rw [hs]; rfl) (steady_evalEnd1 45 .commentEnd2 .commentBody l c rfl rfl)
  · next hs => exact h.steady (by rw [hs]; rfl) (steady_evalCommentEnd2 l c (by rw [hs]; rfl))
  · next hs => exact h.steady (by rw [hs]; rfl) (steady_evalExpected 67 .cdataStart2 l c rfl)
  · next hs => exact h.steady (by rw [hs]; rfl) (steady_evalExpected 68 .cdataStart3 l c rfl)
  · next hs => exact h.steady (by rw [hs]; rfl) (steady_evalExpected 65 .cdataStart4 l c rfl)
  · next hs => exact h.steady (by rw [hs]; rfl) (steady_evalExpected 84 .cdataStart5 l c rfl)
  · next hs => exact h.steady (by rw [hs]; rfl) (steady_evalExpected 65 .cdataStart6 l c rfl)
  · next hs => exact h.steady (by rw [hs]; rfl) (steady_evalExpected 91 .cdataBody l c rfl)
  · next hs => exact h.steady (by rw [hs]; rfl) (steady_evalBody 93 .cdataEnd1 l c rfl (by rw [hs]; rfl))
  · next hs => exact h.steady (by rw [hs]; rfl) (steady_evalEnd1 93 .cdataEnd2 .cdataBody l c rfl rfl)
  · next hs => exact h.steady (by rw [hs]; rfl) (steady_evalCdataEnd2 l c)
  · next hs => exact sound_evalAttribute h (by rw [hs]; rfl)
  · next hs => exact sound_evalAttrName h (by rw [hs]; rfl)
  · next hs => exact sound_evalAttrNameSpace h (by rw [hs]; rfl)
  · next hs => exact sound_evalAttrEq h (by rw [hs]; rfl)
  · next hs => exact sound_evalAttrVal h (by rw [hs]; rfl)
  · exact sound_evalAttrQuoted h 34
  · exact sound_evalAttrQuoted h 39
  · next hs => exact sound_evalLiteralTag h hs
  · next hs => exact sound_evalScriptTag h hs
  · next hs => exact h.steady (by rw [hs]; rfl) (steady_evalDirective l c (by rw [hs]; rfl))
  · next hs => exact h.steady (by rw [hs]; rfl) (steady_evalBogusComment l c (by rw [hs]; rfl))

theorem sound_parseByte (h : Sound l) (c : UInt8) : Sound (l.parseByte c) := by
  rw [parseByte]
  split_ifs
  · exact h
  · exact h.frame rfl rfl rfl rfl rfl
  · refine sound_eval ?_ c
    exact h.frame rfl rfl rfl rfl rfl

theorem sound_foldl_parseByte (h : Sound l) (text : GoogleString) : Sound (text.foldl parseByte l) := by
  induction text generalizing l with
  | nil => exact h
  | cons c text ih => exact ih (sound_parseByte h c)

theorem sound_countBytes (h : Sound l) (size : ℕ) : Sound (l.countBytes size) := h.frame rfl rfl rfl rfl rfl

theorem sound_parse (h : Sound l) (text : GoogleString) : Sound (l.parse text) :=
  sound_foldl_parseByte (sound_countBytes h text.length) text

theorem sound_foldl_parse (h : Sound l) (chunks : List GoogleString) : Sound (chunks.foldl parse l) := by
  induction chunks generalizing l with
  | nil => exact h
  | cons text chunks ih => exact ih (sound_parse h text)

theorem sound_startParse (l : HtmlLexer) : Sound l.startParse := by
  have hb : Bracketed ⟨[none], [{}], [], l.numElements⟩ [] := by
    constructor
    · rfl
    · rfl
    · exact .nil
    · intro e he
      cases he
    · trivial
    · intro e he
      cases he
    · intro p hp
      cases hp
  exact sound_of_quiet ⟨[], hb⟩ rfl rfl

theorem Bracketed.closeTop {below : List HtmlElement} (h : Bracketed l.tree (element :: below)) (style : Style) :
    Bracketed ({ l with token := element.nameStr }.emitTagClose style).tree below := by
  have hb : Bracketed ({ l with token := element.nameStr } : HtmlLexer).tree (element :: below) := h
  generalize hl : ({ l with token := element.nameStr } : HtmlLexer) = l' at hb
  have htoken : l'.token = element.nameStr := by rw [← hl]
  have hend : l'.inForeignContent = true → nameIsOneOf l'.token kForeignBreakoutEndTags = false := by
    intro hforeign
    obtain ⟨info, infos, hinfos⟩ : ∃ info infos, l'.openElementInfo = info :: infos :=
      List.exists_cons_of_length_eq_add_one hb.infos
    have hzip : (element, info) ∈ (element :: below).zip l'.tree.infos := by
      rw [show l'.tree.infos = info :: infos from hinfos, List.zip_cons_cons]
      exact List.mem_cons_self
    rw [htoken]
    exact hb.foreign _ hzip (by simpa [inForeignContent, currentInfo, hinfos] using hforeign)
  have hself : stringCaseEqual element.nameStr l'.token = true := by
    rw [htoken, stringCaseEqual]
    exact beq_self_eq_true _
  obtain ⟨hpopped, hclosing⟩ := hb.popElementsDownTo List.suffix_rfl
  rw [HtmlLexer.emitTagClose, hb.popElementMatchingTag_top hself hend]
  generalize l'.popElementsDownTo (below.length + 1) = r at hpopped hclosing
  obtain ⟨popped, l''⟩ := r
  cases hpopped
  exact hclosing style

theorem Bracketed.finishLoop (h : Bracketed l.tree opens) : Bracketed (finishLoop opens.length l).tree [] := by
  induction opens generalizing l with
  | nil => exact h
  | cons element below ih =>
    have hstack : l.elementStack = (element :: below).map some ++ [none] := h.stack
    have hback : l.back = some element := by
      rw [back, hstack]
      rfl
    rw [List.length_cons, HtmlLexer.finishLoop, hback]
    exact ih (h.closeTop _)

theorem Bracketed.finishStack (h : Bracketed l.tree opens) :
    Bracketed (HtmlLexer.finishLoop (l.elementStack.length - 1) l).tree [] := by
  have hstack : l.elementStack = opens.map some ++ [none] := h.stack
  have hlength : l.elementStack.length - 1 = opens.length := by
    rw [hstack]
    simp
  rw [hlength]
  exact h.finishLoop

theorem bracketed_finishParse (h : Sound l) : Bracketed l.finishParse.tree [] := by
  obtain ⟨opens, hopens⟩ := h.bracketed
  have hcleared : Bracketed ({ l with token := [], attrName := [], attrValue := [] } : HtmlLexer).tree opens := hopens
  have hfinish (l' : HtmlLexer) (hl' : Bracketed l'.tree opens) :
      Bracketed ({ HtmlLexer.finishLoop (l'.elementStack.length - 1) l' with element := none } : HtmlLexer).tree [] :=
    hl'.finishStack
  rw [finishParse]
  split
  · exact hfinish _ hcleared
  · exact hfinish _ hcleared.emitLiteral

structure WellBracketed (l : HtmlLexer) (opens : List HtmlElement) : Prop where
  elementStack : l.elementStack = opens.map some ++ [none]
  openElementInfo : l.openElementInfo.length = l.elementStack.length
  nested : Brackets.Nested (l.calls.map HtmlCall.event) (opens.map (·.id))

theorem Bracketed.wellBracketed (h : Bracketed l.tree opens) : WellBracketed l opens := by
  have hstack : l.elementStack = opens.map some ++ [none] := h.stack
  refine ⟨hstack, ?_, h.nested⟩
  rw [show l.openElementInfo.length = opens.length + 1 from h.infos, hstack]
  simp

/-- Between any two bytes the lexer is well bracketed, and a document leaves nothing open. -/
theorem document_wellBracketed (l : HtmlLexer) (chunks : List GoogleString) :
    (∀ (size : ℕ) (text : GoogleString), ∃ opens,
      WellBracketed (text.foldl parseByte ((chunks.foldl parse l.startParse).countBytes size)) opens) ∧
    WellBracketed (chunks.foldl parse l.startParse).finishParse [] ∧
    ∀ id parent, .opened id parent ∈ (chunks.foldl parse l.startParse).finishParse.calls.map HtmlCall.event →
      ((chunks.foldl parse l.startParse).finishParse.calls.map HtmlCall.event).countP (Brackets.Event.opens id) = 1 ∧
      ((chunks.foldl parse l.startParse).finishParse.calls.map HtmlCall.event).countP (Brackets.Event.closes id) = 1 := by
  have hsound := sound_foldl_parse (sound_startParse l) chunks
  have hfinish := (bracketed_finishParse hsound).wellBracketed
  refine ⟨fun size text => ?_, hfinish, fun id parent hopened => ?_⟩
  · obtain ⟨opens, hopens⟩ := (sound_foldl_parseByte (sound_countBytes hsound size) text).bracketed
    exact ⟨opens, hopens.wellBracketed⟩
  · exact hfinish.nested.closed_once hopened nofun

end PageSpeed.HtmlLexer
