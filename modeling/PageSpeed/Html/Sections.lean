import PageSpeed.Html.ScriptBody
import Mathlib.Data.List.DropRight

/-!
Comments and CDATA sections, each up to its first terminator. The matcher of a comment counts its
dashes; that of a CDATA section starts anew at every third bracket.
-/

namespace PageSpeed.HtmlLexer

variable {l l' : HtmlLexer} {c : UInt8}

def Carries : State → Bool
  | .tagOpen | .tagClose | .tagCloseTerminate | .commentBody | .commentEnd1 | .commentEnd2 | .cdataBody | .cdataEnd1
  | .cdataEnd2 | .directive => true
  | _ => false

def Clean (l : HtmlLexer) : Prop :=
  l.token = [] ∨ Carries l.state = true ∨
    InTag l.state = true ∧ l.discardUntilStartState = false ∧ l.element = none

theorem Clean.token_eq_nil (h : Clean l) (hcarries : Carries l.state = false) (htag : InTag l.state = false) :
    l.token = [] := by
  obtain h | h | ⟨h, -⟩ := h
  · exact h
  · rw [hcarries] at h
    cases h
  · rw [htag] at h
    cases h

theorem clean_of_carries (h : Carries l.state = true) : Clean l := Or.inr (Or.inl h)

theorem Pops.token_eq (h : Pops l l') : l'.token = l.token := (congrArg HtmlLexer.token h.frame).trans rfl

theorem token_evalStart (h : l.token = []) : (l.evalStart c).token = [] := by
  rw [evalStart]
  split_ifs
  · exact (ScriptData.stack_emitLiteral _).2.2.trans h
  · exact h

theorem token_restart (h : l.token = []) : (l.restart c).token = [] := by
  rw [restart]
  split_ifs
  · exact token_evalStart h
  · exact token_evalStart ((ScriptData.stack_emitLiteral _).2.2.trans h)

theorem token_startContent (l : HtmlLexer) (element : HtmlElement) : (l.startContent element).token = l.token := by
  rw [startContent]
  split_ifs <;> rfl

theorem token_openElement (h : l.token = []) (element : HtmlElement) (ns : ElementNamespace) (allowImplicitClose : Bool) :
    (l.openElement element ns allowImplicitClose).token = [] := by
  rw [openElement]
  dsimp only
  split_ifs
  · rfl
  · exact (token_startContent _ _).trans h

theorem token_emitElement (h : l.token = []) (element : HtmlElement) (htmlRules allowImplicitClose : Bool) :
    (l.emitElement element htmlRules allowImplicitClose).token = [] := by
  rw [emitElement]
  cases htmlRules with
  | true => exact token_openElement ((pops_autoCloseLoop _ l _).token_eq.trans h) _ _ _
  | false => exact token_openElement h _ _ _

theorem token_emitTagOpen (h : l.token = []) (allowImplicitClose : Bool) :
    (l.emitTagOpen allowImplicitClose).token = [] := by
  rw [emitTagOpen]
  split
  · exact h
  · split
    · exact h
    · dsimp only
      split
      · exact token_emitElement ((pops_popForeignLoop _ l).token_eq.trans h) _ _ _
      · exact token_emitElement h _ _ _

theorem token_emitTagBriefClose (h : l.token = []) : l.emitTagBriefClose.token = [] := by
  rw [emitTagBriefClose]
  dsimp only
  split
  · exact h
  · rw [popElement]
    split_ifs
    · exact h
    · cases l.back with
      | none => exact h
      | some element => exact h

theorem token_finishAttribute (h : l.token = []) (hasValue briefClose : Bool) :
    (l.finishAttribute c hasValue briefClose).token = [] := by
  have hnamed : (l.makeAttributeIfNamed hasValue).token = [] := by
    rw [makeAttributeIfNamed]
    split_ifs
    · exact h
    · exact h
  rw [finishAttribute]
  split_ifs
  · exact h
  · exact token_emitTagBriefClose (token_emitTagOpen hnamed _)
  · exact token_emitTagOpen hnamed _
  · exact h

theorem token_makeElementUnlessDiscarding (h : Clean l) (hin : InTag l.state = true) :
    l.makeElementUnlessDiscarding.token = [] := by
  have hcarries : Carries l.state = false := by
    cases hs : l.state <;> rw [hs] at hin <;> first | rfl | cases hin
  have hcases : l.token = [] ∨ l.discardUntilStartState = false ∧ l.element = none := by
    obtain h | h | ⟨-, h⟩ := h
    · exact Or.inl h
    · rw [hcarries] at h
      cases h
    · exact Or.inr h
  rw [makeElementUnlessDiscarding]
  split_ifs with hd
  · obtain h | ⟨hkept, -⟩ := hcases
    · exact h
    · rw [hd] at hkept
      cases hkept
  · rw [makeElement]
    split
    · next e he =>
      obtain h | ⟨-, hnone⟩ := hcases
      · exact h
      · rw [he] at hnone
        cases hnone
    · rfl

theorem token_of_inAttr (h : Clean l) (hsound : Sound l) (hattr : InAttr l.state = true) : l.token = [] := by
  obtain h | h | ⟨-, hkept, hnone⟩ := h
  · exact h
  · cases hs : l.state <;> simp [hs, InAttr, Carries] at hattr h
  · exact absurd hnone (hsound.made hattr hkept)

theorem token_evalAttribute (h : Clean l) (hin : InTag l.state = true) : (l.evalAttribute c).token = [] := by
  have htoken := token_makeElementUnlessDiscarding h hin
  rw [evalAttribute]
  generalize l.makeElementUnlessDiscarding = made at htoken
  dsimp only
  split_ifs
  · refine token_emitTagOpen ?_ true
    exact htoken
  · exact htoken
  · exact htoken
  · exact htoken

theorem token_evalTagBriefClose (h : Clean l) (hs : l.state = .tagBriefClose) : (l.evalTagBriefClose c).token = [] := by
  have hin : InTag l.state = true := by rw [hs]; rfl
  rw [evalTagBriefClose]
  split_ifs
  · exact token_finishAttribute (token_makeElementUnlessDiscarding h hin) _ _
  · refine token_evalAttribute ?_ rfl
    have hnamed : (l.makeAttributeIfNamed l.hasAttrValue).token = l.token ∧
        (l.makeAttributeIfNamed l.hasAttrValue).discardUntilStartState = l.discardUntilStartState ∧
        (l.element = none → (l.makeAttributeIfNamed l.hasAttrValue).element = none) := by
      rw [makeAttributeIfNamed]
      split_ifs
      · refine ⟨rfl, rfl, fun hnone => ?_⟩
        rw [makeAttribute]
        dsimp only
        rw [hnone]
        split_ifs <;> rfl
      · exact ⟨rfl, rfl, id⟩
    obtain h | h | ⟨-, hkept, hnone⟩ := h
    · exact Or.inl (hnamed.1.trans h)
    · rw [hs] at h
      cases h
    · exact Or.inr (Or.inr ⟨rfl, hnamed.2.1.trans hkept, hnamed.2.2 hnone⟩)

theorem token_handleAttributeEnd (h : l.token = []) (ha : l.handleAttributeEnd c = some l') : l'.token = [] := by
  rw [handleAttributeEnd] at ha
  split_ifs at ha
  · cases ha
    exact h
  · cases ha
    exact h
  · cases ha
    refine token_emitTagOpen ?_ true
    exact h
  · cases ha
    exact h

theorem token_discardAfterCloseTag (h : l.token = []) : (l.discardAfterCloseTag c).token = [] := by
  rw [discardAfterCloseTag]
  split_ifs
  · exact h
  · exact h
  · exact h

theorem token_evalLiteralTag (h : l.token = []) : (l.evalLiteralTag c).token = [] := by
  rw [evalLiteralTag]
  dsimp only
  split_ifs
  · exact token_discardAfterCloseTag rfl
  · exact h
  · exact h

theorem token_evalScriptTag (h : l.token = []) : (l.evalScriptTag c).token = [] := by
  have hbegun : (l.beginScriptComment c).token = [] := by
    rw [beginScriptComment]
    split_ifs
    · exact h
    · exact h
  rw [evalScriptTag]
  dsimp only
  split_ifs
  · exact hbegun
  · exact token_discardAfterCloseTag rfl
  · exact hbegun
  · exact hbegun
  · exact hbegun
  · exact hbegun

theorem clean_evalTag (h : l.token = []) : Clean (l.evalTag c) := by
  rw [evalTag]
  split_ifs
  · exact Or.inl h
  · exact clean_of_carries rfl
  · exact Or.inl h
  · exact Or.inl h
  · exact Or.inl (token_evalStart h)

theorem clean_evalTagOpen (hsound : Sound l) (hs : l.state = .tagOpen) : Clean (l.evalTagOpen c) := by
  have hnone := hsound.element_eq_none (by rw [hs]; rfl)
  rw [evalTagOpen]
  split_ifs
  · exact clean_of_carries (by rw [hs]; rfl)
  · refine Or.inl (token_emitTagOpen ?_ true)
    rw [makeElement, hnone]
  · exact Or.inr (Or.inr ⟨rfl, hsound.named hs, hnone⟩)
  · exact Or.inr (Or.inr ⟨rfl, hsound.named hs, hnone⟩)
  · exact Or.inl rfl

theorem clean_evalTagCloseNoName (h : l.token = []) : Clean (l.evalTagCloseNoName c) := by
  rw [evalTagCloseNoName]
  split_ifs
  · exact clean_of_carries rfl
  · exact Or.inl (token_evalStart rfl)
  · exact Or.inl h

theorem clean_evalTagClose (h : Carries l.state = true) : Clean (l.evalTagClose c) := by
  rw [evalTagClose]
  split_ifs
  · exact clean_of_carries h
  · exact clean_of_carries h
  · exact clean_of_carries rfl
  · exact Or.inl rfl
  · exact Or.inl (token_evalStart rfl)

theorem clean_evalDirective (h : l.state = .directive) : Clean (l.evalDirective c) := by
  rw [evalDirective]
  split_ifs
  · exact Or.inl rfl
  · exact clean_of_carries (by rw [h]; rfl)

theorem clean_evalCommentStart1 (h : l.token = []) : Clean (l.evalCommentStart1 c) := by
  rw [evalCommentStart1]
  split_ifs
  · exact Or.inl h
  · exact Or.inl h
  · exact clean_evalDirective rfl
  · exact Or.inl (token_restart h)

theorem clean_evalExpected (h : l.token = []) (expected : UInt8) (next : State) : Clean (evalExpected expected next l c) := by
  rw [evalExpected]
  split_ifs
  · exact Or.inl h
  · exact Or.inl (token_restart h)

theorem token_evalBogusComment (h : l.token = []) : (l.evalBogusComment c).token = [] := by
  rw [evalBogusComment]
  split_ifs
  · exact (ScriptData.stack_emitLiteral _).2.2.trans h
  · exact h

variable {next : State} {literal : GoogleString}

theorem clean_evalBody (h : Carries l.state = true) (closing : UInt8) (hnext : Carries next = true) :
    Clean (evalBody closing next l c) := by
  rw [evalBody]
  split_ifs
  · exact clean_of_carries hnext
  · exact clean_of_carries h

theorem clean_evalEnd1 (closing : UInt8) {body : State} (hnext : Carries next = true) (hbody : Carries body = true) :
    Clean (evalEnd1 closing next body l c) := by
  rw [evalEnd1]
  split_ifs
  · exact clean_of_carries hnext
  · exact clean_of_carries hbody

theorem clean_evalCommentEnd2 (h : Carries l.state = true) : Clean (l.evalCommentEnd2 c) := by
  rw [evalCommentEnd2]
  split_ifs
  · exact Or.inl rfl
  · exact clean_of_carries h
  · exact clean_of_carries rfl

theorem clean_evalCdataEnd2 (l : HtmlLexer) (c : UInt8) : Clean (l.evalCdataEnd2 c) := by
  rw [evalCdataEnd2]
  split_ifs
  · exact Or.inl rfl
  · exact clean_of_carries rfl

theorem clean_evalAttr (h : l.token = []) (quote : UInt8) :
    Clean (l.evalAttrName c) ∧ Clean (l.evalAttrNameSpace c) ∧ Clean (l.evalAttrVal c) ∧ Clean (l.evalAttrEq c) ∧
      Clean (evalAttrQuoted quote l c) := by
  have hval : ∀ made : HtmlLexer, made.token = [] → Clean (made.evalAttrVal c) := by
    intro made hmade
    rw [evalAttrVal]
    split_ifs
    · exact Or.inl (token_finishAttribute hmade _ _)
    · exact Or.inl hmade
  refine ⟨?_, ?_, hval l h, ?_, ?_⟩
  · rw [evalAttrName]
    cases ha : l.handleAttributeEnd c with
    | none => exact Or.inl h
    | some l' => exact Or.inl (token_handleAttributeEnd h ha)
  · rw [evalAttrNameSpace]
    cases ha : l.handleAttributeEnd c with
    | none => exact Or.inl h
    | some l' => exact Or.inl (token_handleAttributeEnd h ha)
  · rw [evalAttrEq]
    split_ifs
    · exact Or.inl h
    · exact Or.inl h
    · exact Or.inl h
    · exact Or.inl (token_finishAttribute h _ _)
    · exact hval _ h
  · rw [evalAttrQuoted]
    split_ifs
    · exact Or.inl h
    · exact Or.inl h

theorem clean_eval (h : Clean l) (hsound : Sound l) : Clean (l.eval c) := by
  rw [eval]
  split
  · next hs => exact Or.inl (token_evalStart (h.token_eq_nil (by rw [hs]; rfl) (by rw [hs]; rfl)))
  · next hs => exact clean_evalTag (h.token_eq_nil (by rw [hs]; rfl) (by rw [hs]; rfl))
  · next hs => exact clean_evalTagOpen hsound hs
  · next hs => exact clean_evalTagCloseNoName (h.token_eq_nil (by rw [hs]; rfl) (by rw [hs]; rfl))
  · next hs => exact clean_evalTagClose (by rw [hs]; rfl)
  · next hs => exact clean_evalTagClose (by rw [hs]; rfl)
  · next hs => exact Or.inl (token_evalTagBriefClose h hs)
  · next hs => exact clean_evalCommentStart1 (h.token_eq_nil (by rw [hs]; rfl) (by rw [hs]; rfl))
  · next hs => exact clean_evalExpected (h.token_eq_nil (by rw [hs]; rfl) (by rw [hs]; rfl)) 45 .commentBody
  · next hs => exact clean_evalBody (by rw [hs]; rfl) 45 rfl
  · exact clean_evalEnd1 45 rfl rfl
  · next hs => exact clean_evalCommentEnd2 (by rw [hs]; rfl)
  · next hs => exact clean_evalExpected (h.token_eq_nil (by rw [hs]; rfl) (by rw [hs]; rfl)) 67 .cdataStart2
  · next hs => exact clean_evalExpected (h.token_eq_nil (by rw [hs]; rfl) (by rw [hs]; rfl)) 68 .cdataStart3
  · next hs => exact clean_evalExpected (h.token_eq_nil (by rw [hs]; rfl) (by rw [hs]; rfl)) 65 .cdataStart4
  · next hs => exact clean_evalExpected (h.token_eq_nil (by rw [hs]; rfl) (by rw [hs]; rfl)) 84 .cdataStart5
  · next hs => exact clean_evalExpected (h.token_eq_nil (by rw [hs]; rfl) (by rw [hs]; rfl)) 65 .cdataStart6
  · next hs => exact clean_evalExpected (h.token_eq_nil (by rw [hs]; rfl) (by rw [hs]; rfl)) 91 .cdataBody
  · next hs => exact clean_evalBody (by rw [hs]; rfl) 93 rfl
  · exact clean_evalEnd1 93 rfl rfl
  · exact clean_evalCdataEnd2 l c
  · next hs => exact Or.inl (token_evalAttribute h (by rw [hs]; rfl))
  · next hs => exact (clean_evalAttr (token_of_inAttr h hsound (by rw [hs]; rfl)) 34).1
  · next hs => exact (clean_evalAttr (token_of_inAttr h hsound (by rw [hs]; rfl)) 34).2.1
  · next hs => exact (clean_evalAttr (token_of_inAttr h hsound (by rw [hs]; rfl)) 34).2.2.2.1
  · next hs => exact (clean_evalAttr (token_of_inAttr h hsound (by rw [hs]; rfl)) 34).2.2.1
  · next hs => exact (clean_evalAttr (token_of_inAttr h hsound (by rw [hs]; rfl)) 34).2.2.2.2
  · next hs => exact (clean_evalAttr (token_of_inAttr h hsound (by rw [hs]; rfl)) 39).2.2.2.2
  · next hs => exact Or.inl (token_evalLiteralTag (h.token_eq_nil (by rw [hs]; rfl) (by rw [hs]; rfl)))
  · next hs => exact Or.inl (token_evalScriptTag (h.token_eq_nil (by rw [hs]; rfl) (by rw [hs]; rfl)))
  · next hs => exact clean_evalDirective hs
  · next hs => exact Or.inl (token_evalBogusComment (h.token_eq_nil (by rw [hs]; rfl) (by rw [hs]; rfl)))

theorem clean_parseByte (h : Clean l) (hsound : Sound l) : Clean (l.parseByte c) := by
  rw [parseByte]
  split_ifs
  · exact h
  · exact h
  · have hsound : Sound { l with literal := l.literal ++ [c] } := hsound.frame rfl rfl rfl rfl rfl
    exact clean_eval h hsound

theorem Reads.clean {l₀ : HtmlLexer} {text : GoogleString} (h : Reads l₀ text l) (hclean : Clean l₀) (hsound : Sound l₀) :
    Clean l ∧ Sound l := by
  induction h with
  | start => exact ⟨hclean, hsound⟩
  | call size _ ih => exact ⟨ih.1, sound_countBytes ih.2 size⟩
  | byte c _ ih => exact ⟨clean_parseByte ih.1 ih.2, sound_parseByte ih.2 c⟩

/-! The bytes that are read. -/

theorem skipParsing_of_parseByte (h : (l.parseByte c).skipParsing = false) : l.skipParsing = false := by
  cases hskip : l.skipParsing with
  | false => rfl
  | true =>
    rw [parseByte, if_pos hskip, hskip] at h
    cases h

theorem parseByte_of_parsing (h : (l.parseByte c).skipParsing = false) :
    l.parseByte c = { l with literal := l.literal ++ [c] }.eval c := by
  have hskip := skipParsing_of_parseByte h
  rw [parseByte, if_neg (by rw [hskip]; exact Bool.false_ne_true)] at h ⊢
  split_ifs at h ⊢
  rfl

theorem Reads.parsing {text : GoogleString} (h : Reads l text l') (hskip : l'.skipParsing = false) :
    l.skipParsing = false := by
  induction h with
  | start => exact hskip
  | call size _ ih => exact ih hskip
  | byte c _ ih => exact ih (skipParsing_of_parseByte hskip)

theorem Reads.split {a b : GoogleString} (h : Reads l (a ++ b) l') : ∃ l₁, Reads l a l₁ ∧ Reads l₁ b l' := by
  generalize htext : a ++ b = text at h
  induction h generalizing b with
  | start =>
    obtain ⟨rfl, rfl⟩ := List.append_eq_nil_iff.mp htext
    exact ⟨l, .start, .start⟩
  | call size _ ih =>
    obtain ⟨l₁, ha, hb⟩ := ih htext
    exact ⟨l₁, ha, hb.call size⟩
  | @byte text l₂ c hread ih =>
    obtain rfl | ⟨b', d, rfl⟩ := b.eq_nil_or_concat'
    · rw [List.append_nil] at htext
      rw [htext]
      exact ⟨_, hread.byte c, .start⟩
    · rw [← List.append_assoc] at htext
      obtain ⟨hbefore, hd⟩ := List.append_inj' htext rfl
      obtain rfl : d = c := List.singleton_inj.mp hd
      obtain ⟨l₁, ha, hb⟩ := ih hbefore
      exact ⟨l₁, ha, hb.byte d⟩

theorem Reads.unread {P : HtmlLexer → Prop} (hP : ∀ l size, P l → P (l.countBytes size)) (h : Reads l [] l') (hl : P l) :
    P l' := by
  generalize htext : ([] : GoogleString) = text at h
  induction h with
  | start => exact hl
  | call size _ ih => exact hP _ size (ih htext)
  | byte => exact absurd htext.symm (List.append_ne_nil_of_right_ne_nil _ (List.cons_ne_nil _ _))

theorem Reads.single {P Q : HtmlLexer → Prop} (hP : ∀ l size, P l → P (l.countBytes size))
    (hQ : ∀ l size, Q l → Q (l.countBytes size))
    (hstep : ∀ l, P l → (l.parseByte c).skipParsing = false → Q (l.parseByte c)) (h : Reads l [c] l') (hl : P l)
    (hskip : l'.skipParsing = false) : Q l' := by
  generalize htext : [c] = text at h
  induction h with
  | start => cases htext
  | call size _ ih => exact hQ _ size (ih hskip htext)
  | @byte text l₂ d hread _ =>
    have hsnoc : [] ++ [c] = text ++ [d] := htext
    obtain ⟨hnil, hd⟩ := List.append_inj' hsnoc rfl
    obtain rfl : c = d := List.singleton_inj.mp hd
    rw [← hnil] at hread
    exact hstep _ (hread.unread hP hl) hskip

theorem Reads.keeps {P : GoogleString → HtmlLexer → Prop} {G : GoogleString → Prop}
    (hcall : ∀ text l size, P text l → P text (l.countBytes size))
    (hbyte : ∀ text l c, P text l → (l.parseByte c).skipParsing = false → G (text ++ [c]) →
      P (text ++ [c]) (l.parseByte c))
    (hgo : ∀ text c, G (text ++ [c]) → G text) {text : GoogleString} (h : Reads l text l') (hl : P [] l)
    (hskip : l'.skipParsing = false) (htext : G text) : P text l' := by
  induction h with
  | start => exact hl
  | call size _ ih => exact hcall _ _ size (ih hskip htext)
  | byte c _ ih => exact hbyte _ _ c (ih (skipParsing_of_parseByte hskip) (hgo _ c htext)) hskip htext

/-! The way into a section. -/

open ScriptData (passed)

structure Opening (l₀ : HtmlLexer) (literal : GoogleString) (state : State) (l : HtmlLexer) : Prop where
  literal : l.literal = literal
  state : l.state = state
  token : l.token = []
  calls : l.calls = l₀.calls ++ passed l₀.parent l₀.literal
  stack : l.elementStack = l₀.elementStack

theorem Opening.countBytes {l₀ : HtmlLexer} {state : State} (l : HtmlLexer) (size : ℕ)
    (h : Opening l₀ literal state l) : Opening l₀ literal state (l.countBytes size) := ⟨h.1, h.2, h.3, h.4, h.5⟩

theorem Opening.reads {l₀ : HtmlLexer} {state : State} (h : Opening l₀ literal state l)
    (heval : ∀ l : HtmlLexer, l.state = state → l.eval c = { l with state := next }) (hread : Reads l [c] l')
    (hskip : l'.skipParsing = false) : Opening l₀ (literal ++ [c]) next l' := by
  refine hread.single Opening.countBytes Opening.countBytes ?_ h hskip
  intro l h hskip
  rw [parseByte_of_parsing hskip, heval { l with literal := l.literal ++ [c] } h.state]
  exact ⟨congrArg (· ++ [c]) h.literal, rfl, h.token, h.calls, h.stack⟩

theorem opening_lessThan {l₀ : HtmlLexer} (hstate : l₀.state = .start) (htoken : l₀.token = []) (hread : Reads l₀ [60] l')
    (hskip : l'.skipParsing = false) : Opening l₀ [60] .tag l' := by
  refine hread.single (P := fun l => l.state = .start ∧ l.token = [] ∧ l.literal = l₀.literal ∧ l.calls = l₀.calls ∧
    l.elementStack = l₀.elementStack) (fun _ _ h => h) Opening.countBytes ?_ ⟨hstate, htoken, rfl, rfl, rfl⟩ hskip
  rintro l ⟨hs, ht, hl, hc, hstack⟩ hskip
  have hparent : l.parent = l₀.parent := by rw [parent, parent, back, back, hstack]
  have heval : ({ l with literal := l.literal ++ [60] } : HtmlLexer).eval 60 =
      { l.emitLiteral with literal := l.emitLiteral.literal ++ [60], state := .tag, discardUntilStartState := false } := by
    rw [eval]
    dsimp only
    rw [hs]
    dsimp only
    rw [evalStart, if_pos rfl]
    dsimp only
    rw [List.dropLast_concat]
    rfl
  have hempty : l.emitLiteral.literal = [] := by
    rw [emitLiteral]
    split_ifs with hnil
    · exact hnil
    · rfl
  rw [parseByte_of_parsing hskip, heval]
  refine ⟨?_, rfl, ?_, ?_, ?_⟩
  · dsimp only
    rw [hempty]
    rfl
  · exact (ScriptData.stack_emitLiteral l).2.2.trans ht
  · exact (ScriptData.calls_emitLiteral l).trans (by rw [hc, hparent, hl])
  · exact (ScriptData.stack_emitLiteral l).1.trans hstack

theorem eval_of_state {state : State} (h : l.state = state) : l.eval c = { l with state := state }.eval c := by
  rw [← h]

def Leads : State → List (UInt8 × State) → Prop
  | _, [] => True
  | state, (c, next) :: path => (∀ l : HtmlLexer, l.state = state → l.eval c = { l with state := next }) ∧ Leads next path

def lastOf : State → List (UInt8 × State) → State
  | state, [] => state
  | _, (_, next) :: path => lastOf next path

theorem Opening.path {l₀ : HtmlLexer} {state : State} (h : Opening l₀ literal state l)
    {path : List (UInt8 × State)} (hpath : Leads state path) (hread : Reads l (path.map Prod.fst) l')
    (hskip : l'.skipParsing = false) : Opening l₀ (literal ++ path.map Prod.fst) (lastOf state path) l' := by
  induction path generalizing literal state l with
  | nil =>
    rw [List.map_nil, List.append_nil]
    exact hread.unread Opening.countBytes h
  | cons step path ih =>
    obtain ⟨c, next⟩ := step
    obtain ⟨l₁, hfirst, hrest⟩ := Reads.split (a := [c]) hread
    have hopened := ih (h.reads hpath.1 hfirst (hrest.parsing hskip)) hpath.2 hrest
    rw [List.append_assoc] at hopened
    exact hopened

def commentPath : List (UInt8 × State) := [(33, .commentStart1), (45, .commentStart2), (45, .commentBody)]

def cdataPath : List (UInt8 × State) :=
  [(33, .commentStart1), (91, .cdataStart1), (67, .cdataStart2), (68, .cdataStart3), (65, .cdataStart4),
    (84, .cdataStart5), (65, .cdataStart6), (91, .cdataBody)]

theorem leads_commentPath : Leads .tag commentPath := by
  refine ⟨?_, ?_, ?_, trivial⟩ <;> intro l hs <;> rw [eval_of_state hs] <;> rfl

theorem leads_cdataPath : Leads .tag cdataPath := by
  refine ⟨?_, ?_, ?_, ?_, ?_, ?_, ?_, ?_, trivial⟩ <;> intro l hs <;> rw [eval_of_state hs] <;> rfl

theorem opening_path {l₀ : HtmlLexer} (hstate : l₀.state = .start) (htoken : l₀.token = [])
    {path : List (UInt8 × State)} (hpath : Leads .tag path) (hread : Reads l₀ (60 :: path.map Prod.fst) l')
    (hskip : l'.skipParsing = false) : Opening l₀ (60 :: path.map Prod.fst) (lastOf .tag path) l' := by
  obtain ⟨l₁, hfirst, hrest⟩ := Reads.split (a := [60]) hread
  exact (opening_lessThan hstate htoken hfirst (hrest.parsing hskip)).path hpath hrest hskip

/-! The matchers. -/

def trailing (mark : UInt8) (text : GoogleString) : ℕ := (text.rtakeWhile fun c => decide (c = mark)).length

theorem trailing_snoc (mark : UInt8) (text : GoogleString) (c : UInt8) :
    trailing mark (text ++ [c]) = if c = mark then trailing mark text + 1 else 0 := by
  rw [trailing, List.rtakeWhile_concat]
  split_ifs with h h' h'
  · rw [List.length_append]
    rfl
  · exact absurd (decide_eq_true_iff.mp h) h'
  · exact absurd (decide_eq_true_iff.mpr h') h
  · rfl

theorem replicate_suffix_iff (mark : UInt8) (n : ℕ) (text : GoogleString) :
    List.replicate n mark <:+ text ↔ n ≤ trailing mark text := by
  induction n generalizing text with
  | zero => exact iff_of_true (List.nil_suffix) (Nat.zero_le _)
  | succ n ih =>
    obtain rfl | ⟨before, c, rfl⟩ := text.eq_nil_or_concat'
    · rw [List.suffix_nil]
      exact iff_of_false List.replicate_succ_ne_nil (Nat.not_succ_le_zero n)
    · rw [List.replicate_succ', ScriptData.snoc_suffix_snoc, trailing_snoc, ih]
      split_ifs with h
      · rw [Nat.succ_le_succ_iff]
        exact and_iff_right h.symm
      · exact iff_of_false (fun hand => h hand.1.symm) (Nat.not_succ_le_zero n)

def terminator (mark : UInt8) : GoogleString := [mark, mark, 62]

theorem terminator_infix_snoc (mark : UInt8) (text : GoogleString) (c : UInt8) :
    terminator mark <:+: text ++ [c] ↔ (c = 62 ∧ 2 ≤ trailing mark text) ∨ terminator mark <:+: text := by
  have hsplit : terminator mark = List.replicate 2 mark ++ [62] := rfl
  rw [List.infix_concat_iff, hsplit, ScriptData.snoc_suffix_snoc, replicate_suffix_iff, eq_comm (a := c)]

def commentHeld (n : ℕ) : ℕ := min n 2

def cdataHeld (n : ℕ) : ℕ := n % 3

def commentState : ℕ → State
  | 0 => .commentBody
  | 1 => .commentEnd1
  | _ => .commentEnd2

def cdataState : ℕ → State
  | 0 => .cdataBody
  | 1 => .cdataEnd1
  | _ => .cdataEnd2

structure InSection (mark : UInt8) (opening : GoogleString) (held : ℕ → ℕ) (state : ℕ → State) (l₀ : HtmlLexer)
    (text : GoogleString) (l : HtmlLexer) : Prop where
  literal : l.literal = opening ++ text
  state : l.state = state (held (trailing mark text))
  token : l.token ++ List.replicate (held (trailing mark text)) mark = text
  calls : l.calls = l₀.calls ++ passed l₀.parent l₀.literal
  stack : l.elementStack = l₀.elementStack

theorem eval_read {state : State} (h : l.state = state) :
    ({ l with literal := l.literal ++ [c] } : HtmlLexer).eval c =
      ({ l with literal := l.literal ++ [c], state := state } : HtmlLexer).eval c := by
  rw [← h]

section Matchers

variable {mark : UInt8} {opening text : GoogleString} {held : ℕ → ℕ} {state : ℕ → State} {l₀ : HtmlLexer}

theorem InSection.countBytes (text : GoogleString) (l : HtmlLexer) (size : ℕ)
    (h : InSection mark opening held state l₀ text l) : InSection mark opening held state l₀ text (l.countBytes size) :=
  ⟨h.1, h.2, h.3, h.4, h.5⟩

theorem InSection.stays (h : InSection mark opening held state l₀ text l) (token : GoogleString) (next : State)
    (heval : ({ l with literal := l.literal ++ [c] } : HtmlLexer).eval c =
      { l with literal := l.literal ++ [c], token := token, state := next })
    (hstate : next = state (held (trailing mark (text ++ [c]))))
    (htoken : token ++ List.replicate (held (trailing mark (text ++ [c]))) mark = text ++ [c])
    (hskip : (l.parseByte c).skipParsing = false) :
    InSection mark opening held state l₀ (text ++ [c]) (l.parseByte c) := by
  rw [parseByte_of_parsing hskip, heval]
  refine ⟨?_, hstate, htoken, h.calls, h.stack⟩
  rw [← List.append_assoc, ← h.literal]

def commentKind (body : GoogleString) : HtmlLeafKind :=
  if contains body (ascii "[if") || contains body (ascii "[endif]") then .ieDirective else .comment

theorem InSection.parent (h : InSection mark opening held state l₀ text l) : l.parent = l₀.parent := by
  rw [HtmlLexer.parent, HtmlLexer.parent, back, back, h.stack]

theorem comment_stays (h : InSection 45 opening commentHeld commentState l₀ text l)
    (hskip : (l.parseByte c).skipParsing = false) (hgo : c = 62 → trailing 45 text < 2) :
    InSection 45 opening commentHeld commentState l₀ (text ++ [c]) (l.parseByte c) := by
  have hstate := h.state
  have htoken := h.token
  have hsnoc := trailing_snoc 45 text c
  -- The dashes that are held back: none, one, or two of any number.
  obtain hn | hn | ⟨hn, hlong⟩ : commentHeld (trailing 45 text) = 0 ∨ commentHeld (trailing 45 text) = 1 ∨
      commentHeld (trailing 45 text) = 2 ∧ 2 ≤ trailing 45 text := by
    rw [commentHeld]
    omega
  · rw [hn] at hstate htoken
    have hzero : trailing 45 text = 0 := by
      rw [commentHeld] at hn
      omega
    rw [List.replicate_zero, List.append_nil] at htoken
    by_cases hc : c = 45
    · rw [if_pos hc, hzero] at hsnoc
      refine h.stays l.token .commentEnd1 ?_ ?_ ?_ hskip
      · rw [eval_read hstate, hc]
        rfl
      · rw [hsnoc]
        rfl
      · rw [hsnoc, htoken, hc]
        rfl
    · rw [if_neg hc] at hsnoc
      refine h.stays (l.token ++ [c]) .commentBody ?_ ?_ ?_ hskip
      · rw [eval_read hstate]
        exact if_neg hc
      · rw [hsnoc]
        rfl
      · rw [hsnoc, htoken]
        exact List.append_nil _
  · rw [hn] at hstate htoken
    have hone : trailing 45 text = 1 := by
      rw [commentHeld] at hn
      omega
    by_cases hc : c = 45
    · rw [if_pos hc, hone] at hsnoc
      refine h.stays l.token .commentEnd2 ?_ ?_ ?_ hskip
      · rw [eval_read hstate, hc]
        rfl
      · rw [hsnoc]
        rfl
      · rw [hsnoc, ← htoken, hc, List.append_assoc]
        rfl
    · rw [if_neg hc] at hsnoc
      refine h.stays (l.token ++ [45, c]) .commentBody ?_ ?_ ?_ hskip
      · rw [eval_read hstate]
        exact if_neg hc
      · rw [hsnoc]
        rfl
      · rw [hsnoc, ← htoken, List.append_assoc, List.append_assoc]
        rfl
  · rw [hn] at hstate htoken
    have hend : c ≠ 62 := fun hc => absurd (hgo hc) (Nat.not_lt.mpr hlong)
    by_cases hc : c = 45
    · rw [if_pos hc] at hsnoc
      have htwo : commentHeld (trailing 45 (text ++ [c])) = 2 := by
        rw [hsnoc, commentHeld]
        omega
      refine h.stays (l.token ++ [45]) .commentEnd2 ?_ ?_ ?_ hskip
      · rw [eval_read hstate, hc]
        rfl
      · rw [htwo]
        rfl
      · rw [htwo, ← htoken, hc, List.append_assoc, List.append_assoc]
        rfl
    · rw [if_neg hc] at hsnoc
      refine h.stays (l.token ++ [45, 45, c]) .commentBody ?_ ?_ ?_ hskip
      · rw [eval_read hstate]
        exact (if_neg hend).trans (if_neg hc)
      · rw [hsnoc]
        rfl
      · rw [hsnoc, ← htoken, List.append_assoc, List.append_assoc]
        rfl

theorem comment_ends (h : InSection 45 opening commentHeld commentState l₀ text l)
    (hskip : (l.parseByte 62).skipParsing = false) {body : GoogleString} (htext : text = body ++ [45, 45]) :
    (l.parseByte 62).calls =
      l₀.calls ++ passed l₀.parent l₀.literal ++ [.addEvent ⟨commentKind body, l₀.parent, body⟩] := by
  have hstate := h.state
  have htoken := h.token
  have hlong : 2 ≤ trailing 45 text := (replicate_suffix_iff 45 2 text).mp ⟨body, htext.symm⟩
  have htwo : commentHeld (trailing 45 text) = 2 := by
    rw [commentHeld]
    omega
  rw [htwo] at hstate htoken
  have hbody : l.token = body := List.append_cancel_right (htoken.trans htext)
  have heval : ({ l with literal := l.literal ++ [62] } : HtmlLexer).eval 62 =
      { ({ l with literal := l.literal ++ [62], state := .commentEnd2 } : HtmlLexer).emitComment with state := .start } := by
    rw [eval_read hstate]
    rfl
  rw [parseByte_of_parsing hskip, heval, ← h.calls, ← h.parent, ← hbody]
  rfl

theorem cdata_stays (h : InSection 93 opening cdataHeld cdataState l₀ text l)
    (hskip : (l.parseByte c).skipParsing = false) (hgo : c = 62 → trailing 93 text % 3 ≠ 2) :
    InSection 93 opening cdataHeld cdataState l₀ (text ++ [c]) (l.parseByte c) := by
  have hstate := h.state
  have htoken := h.token
  have hsnoc : cdataHeld (trailing 93 (text ++ [c])) = if c = 93 then (trailing 93 text + 1) % 3 else 0 := by
    rw [trailing_snoc, cdataHeld]
    split_ifs <;> rfl
  obtain hn | hn | hn : cdataHeld (trailing 93 text) = 0 ∨ cdataHeld (trailing 93 text) = 1 ∨
      cdataHeld (trailing 93 text) = 2 := by
    rw [cdataHeld]
    omega
  · rw [hn] at hstate htoken
    rw [List.replicate_zero, List.append_nil] at htoken
    rw [cdataHeld] at hn
    by_cases hc : c = 93
    · rw [if_pos hc, Nat.add_mod, hn] at hsnoc
      refine h.stays l.token .cdataEnd1 ?_ ?_ ?_ hskip
      · rw [eval_read hstate, hc]
        rfl
      · rw [hsnoc]
        rfl
      · rw [hsnoc, htoken, hc]
        rfl
    · rw [if_neg hc] at hsnoc
      refine h.stays (l.token ++ [c]) .cdataBody ?_ ?_ ?_ hskip
      · rw [eval_read hstate]
        exact if_neg hc
      · rw [hsnoc]
        rfl
      · rw [hsnoc, htoken]
        exact List.append_nil _
  · rw [hn] at hstate htoken
    rw [cdataHeld] at hn
    by_cases hc : c = 93
    · rw [if_pos hc, Nat.add_mod, hn] at hsnoc
      refine h.stays l.token .cdataEnd2 ?_ ?_ ?_ hskip
      · rw [eval_read hstate, hc]
        rfl
      · rw [hsnoc]
        rfl
      · rw [hsnoc, ← htoken, hc, List.append_assoc]
        rfl
    · rw [if_neg hc] at hsnoc
      refine h.stays (l.token ++ [93, c]) .cdataBody ?_ ?_ ?_ hskip
      · rw [eval_read hstate]
        exact if_neg hc
      · rw [hsnoc]
        rfl
      · rw [hsnoc, ← htoken, List.append_assoc, List.append_assoc]
        rfl
  · rw [hn] at hstate htoken
    rw [cdataHeld] at hn
    have hend : c ≠ 62 := fun hc => hgo hc hn
    -- A third bracket is taken for a part of the body, with the two before it.
    have hzero : cdataHeld (trailing 93 (text ++ [c])) = 0 := by
      rw [hsnoc, Nat.add_mod, hn]
      exact ite_self _
    refine h.stays (l.token ++ [93, 93, c]) .cdataBody ?_ ?_ ?_ hskip
    · rw [eval_read hstate]
      exact if_neg hend
    · rw [hzero]
      rfl
    · rw [hzero, ← htoken, List.append_assoc, List.append_assoc]
      rfl

theorem cdata_ends (h : InSection 93 opening cdataHeld cdataState l₀ text l)
    (hskip : (l.parseByte 62).skipParsing = false) (htwo : trailing 93 text % 3 = 2) {body : GoogleString}
    (htext : text = body ++ [93, 93]) :
    (l.parseByte 62).calls =
      l₀.calls ++ passed l₀.parent l₀.literal ++ [.addEvent ⟨.cdata, l₀.parent, body⟩] := by
  have hstate := h.state
  have htoken := h.token
  rw [cdataHeld, htwo] at hstate htoken
  have hbody : l.token = body := List.append_cancel_right (htoken.trans htext)
  have heval : ({ l with literal := l.literal ++ [62] } : HtmlLexer).eval 62 =
      { ({ l with literal := l.literal ++ [62], state := .cdataEnd2 } : HtmlLexer).emitCdata with state := .start } := by
    rw [eval_read hstate]
    rfl
  rw [parseByte_of_parsing hskip, heval, ← h.calls, ← h.parent, ← hbody]
  rfl

end Matchers

/-! What a section that is not over leaves at the end of the document. -/

theorem calls_emitTagClose (hliteral : l.literal = []) (style : HtmlElement.Style) :
    (∃ closes : List (HtmlElement × HtmlElement.Style),
      (l.emitTagClose style).calls = l.calls ++ closes.map fun c => .closeElement c.1 c.2) ∧
      (l.emitTagClose style).literal = [] := by
  have hpops := pops_popElementMatchingTag l l.token
  have hempty : (l.popElementMatchingTag l.token).2.literal = [] :=
    (congrArg HtmlLexer.literal hpops.frame).trans hliteral
  obtain ⟨closes, hcalls⟩ := hpops.calls
  rw [emitTagClose]
  generalize l.popElementMatchingTag l.token = popped at hcalls hempty
  obtain ⟨_ | element, l'⟩ := popped
  · refine ⟨⟨closes, ?_⟩, rfl⟩
    dsimp only
    rw [ScriptData.calls_emitLiteral, hempty, hcalls]
    exact List.append_nil _
  · refine ⟨⟨closes ++ [(element, style)], ?_⟩, rfl⟩
    rw [List.map_append, ← List.append_assoc, ← hcalls]
    rfl

theorem calls_finishLoop (n : ℕ) (hliteral : l.literal = []) :
    ∃ closes : List (HtmlElement × HtmlElement.Style),
      (finishLoop n l).calls = l.calls ++ closes.map fun c => .closeElement c.1 c.2 := by
  induction n generalizing l with
  | zero => exact ⟨[], (List.append_nil _).symm⟩
  | succ n ih =>
    rw [finishLoop]
    split
    · next element _ =>
      obtain ⟨⟨closes, hcalls⟩, hempty⟩ := calls_emitTagClose (l := { l with token := element.nameStr }) hliteral
        (if l.skipParsing = true then .explicitClose else .unclosed)
      obtain ⟨closes', hcalls'⟩ := ih hempty
      refine ⟨closes ++ closes', ?_⟩
      rw [hcalls', hcalls, List.map_append, List.append_assoc]
    · exact ⟨[], (List.append_nil _).symm⟩

def Unended (l₀ : HtmlLexer) (text : GoogleString) (l : HtmlLexer) : Prop :=
  l.calls = l₀.calls ++ passed l₀.parent l₀.literal ∧
    ∃ closes : List (HtmlElement × HtmlElement.Style), l.finishParse.calls =
      l₀.calls ++ passed l₀.parent l₀.literal ++ [.addEvent ⟨.characters, l₀.parent, text⟩] ++
        closes.map fun c => .closeElement c.1 c.2

theorem InSection.unended {mark : UInt8} {opening text : GoogleString} {held : ℕ → ℕ} {state : ℕ → State}
    {l₀ : HtmlLexer} (h : InSection mark opening held state l₀ text l) (hopening : opening ≠ []) :
    Unended l₀ (opening ++ text) l := by
  refine ⟨h.calls, ?_⟩
  have hne : l.literal ≠ [] := by
    rw [h.literal]
    exact List.append_ne_nil_of_left_ne_nil hopening text
  have hemitted : ({ l with token := [], attrName := [], attrValue := [] } : HtmlLexer).emitLiteral.calls =
      l₀.calls ++ passed l₀.parent l₀.literal ++ [.addEvent ⟨.characters, l₀.parent, opening ++ text⟩] := by
    refine (ScriptData.calls_emitLiteral _).trans ?_
    have hparent : ({ l with token := [], attrName := [], attrValue := [] } : HtmlLexer).parent = l₀.parent := h.parent
    rw [hparent, passed, if_neg (by exact hne), ← h.literal]
    exact congrArg (· ++ _) h.calls
  have hempty : ({ l with token := [], attrName := [], attrValue := [] } : HtmlLexer).emitLiteral.literal = [] := by
    rw [emitLiteral, if_neg (by exact hne)]
  obtain ⟨closes, hcalls⟩ := calls_finishLoop
    (({ l with token := [], attrName := [], attrValue := [] } : HtmlLexer).emitLiteral.elementStack.length - 1) hempty
  refine ⟨closes, ?_⟩
  rw [finishParse]
  dsimp only
  rw [if_neg hne, hcalls, hemitted]

/-! The two kinds of sections. -/

theorem not_terminator_of_snoc {mark c : UInt8} {text : GoogleString} (h : ¬ terminator mark <:+: text ++ [c]) :
    ¬ terminator mark <:+: text := fun hin => h ((terminator_infix_snoc mark text c).mpr (Or.inr hin))

theorem comment_reads {l₀ : HtmlLexer} (hstate : l₀.state = .start) (htoken : l₀.token = []) {text : GoogleString}
    (hread : Reads l₀ (ascii "<!--" ++ text) l') (hskip : l'.skipParsing = false)
    (hnone : ¬ terminator 45 <:+: text) :
    InSection 45 (ascii "<!--") commentHeld commentState l₀ text l' := by
  obtain ⟨l₁, hopening, hbody⟩ := hread.split
  have hopened := opening_path hstate htoken leads_commentPath hopening (hbody.parsing hskip)
  refine hbody.keeps (P := InSection 45 (ascii "<!--") commentHeld commentState l₀)
    (G := fun text => ¬ terminator 45 <:+: text) InSection.countBytes ?_
    (fun _ _ => not_terminator_of_snoc) ⟨hopened.1, hopened.2, ?_, hopened.4, hopened.5⟩ hskip hnone
  · intro text l c h hskip hgo
    refine comment_stays h hskip fun hc => ?_
    by_contra hlong
    exact hgo ((terminator_infix_snoc 45 text c).mpr (Or.inl ⟨hc, Nat.not_lt.mp hlong⟩))
  · rw [hopened.token]
    rfl

theorem cdata_reads {l₀ : HtmlLexer} (hstate : l₀.state = .start) (htoken : l₀.token = []) {text : GoogleString}
    (hread : Reads l₀ (ascii "<![CDATA[" ++ text) l') (hskip : l'.skipParsing = false)
    (hnone : ¬ terminator 93 <:+: text) :
    InSection 93 (ascii "<![CDATA[") cdataHeld cdataState l₀ text l' := by
  obtain ⟨l₁, hopening, hbody⟩ := hread.split
  have hopened := opening_path hstate htoken leads_cdataPath hopening (hbody.parsing hskip)
  refine hbody.keeps (P := InSection 93 (ascii "<![CDATA[") cdataHeld cdataState l₀)
    (G := fun text => ¬ terminator 93 <:+: text) InSection.countBytes ?_
    (fun _ _ => not_terminator_of_snoc) ⟨hopened.1, hopened.2, ?_, hopened.4, hopened.5⟩ hskip hnone
  · intro text l c h hskip hgo
    refine cdata_stays h hskip fun hc hthird => ?_
    exact hgo ((terminator_infix_snoc 93 text c).mpr (Or.inl ⟨hc, by omega⟩))
  · rw [hopened.token]
    rfl

theorem trailing_marks (mark : UInt8) (body : GoogleString) :
    trailing mark (body ++ [mark, mark]) = trailing mark body + 2 := by
  have hsplit : body ++ [mark, mark] = body ++ [mark] ++ [mark] := by simp
  rw [hsplit, trailing_snoc, if_pos rfl, trailing_snoc, if_pos rfl]

def Ended (l₀ : HtmlLexer) (kind : HtmlLeafKind) (body : GoogleString) (l : HtmlLexer) : Prop :=
  l.calls = l₀.calls ++ passed l₀.parent l₀.literal ++ [.addEvent ⟨kind, l₀.parent, body⟩]

theorem comment_terminated {l₀ : HtmlLexer} (hstate : l₀.state = .start) (htoken : l₀.token = []) {body : GoogleString}
    (hread : Reads l₀ (ascii "<!--" ++ (body ++ ascii "-->")) l') (hskip : l'.skipParsing = false)
    (hfirst : ¬ terminator 45 <:+: body ++ [45, 45]) : Ended l₀ (commentKind body) body l' := by
  have hsplit : ascii "<!--" ++ (body ++ ascii "-->") = ascii "<!--" ++ (body ++ [45, 45]) ++ [62] := by
    rw [List.append_assoc, List.append_assoc]
    rfl
  rw [hsplit] at hread
  obtain ⟨l₁, hbody, hlast⟩ := hread.split
  have hin := comment_reads hstate htoken hbody (hlast.parsing hskip) hfirst
  exact hlast.single (InSection.countBytes _) (fun _ _ h => h) (fun l h hskip => comment_ends h hskip rfl) hin hskip

theorem cdata_terminated {l₀ : HtmlLexer} (hstate : l₀.state = .start) (htoken : l₀.token = []) {body : GoogleString}
    (hread : Reads l₀ (ascii "<![CDATA[" ++ (body ++ ascii "]]>")) l') (hskip : l'.skipParsing = false)
    (hfirst : ¬ terminator 93 <:+: body ++ [93, 93]) : Ended l₀ .cdata body l' ↔ trailing 93 body % 3 = 0 := by
  have hsplit : ascii "<![CDATA[" ++ (body ++ ascii "]]>") = ascii "<![CDATA[" ++ (body ++ [93, 93]) ++ [62] := by
    rw [List.append_assoc, List.append_assoc]
    rfl
  rw [hsplit] at hread
  obtain ⟨l₁, hbody, hlast⟩ := hread.split
  have hin := cdata_reads hstate htoken hbody (hlast.parsing hskip) hfirst
  have htrailing := trailing_marks 93 body
  by_cases hthree : trailing 93 body % 3 = 0
  · refine iff_of_true ?_ hthree
    exact hlast.single (InSection.countBytes _) (fun _ _ h => h)
      (fun l h hskip => cdata_ends h hskip (by omega) rfl) hin hskip
  · refine iff_of_false ?_ hthree
    have hstays : InSection 93 (ascii "<![CDATA[") cdataHeld cdataState l₀ (body ++ [93, 93] ++ [62]) l' :=
      hlast.single (InSection.countBytes _) (InSection.countBytes _)
        (fun l h hskip => cdata_stays h hskip fun _ => by omega) hin hskip
    intro hended
    rw [Ended, hstays.calls] at hended
    exact absurd (List.self_eq_append_right.mp hended) (List.cons_ne_nil _ _)

/-- A comment ends at the first `-->` after it has begun. A CDATA section ends at the first `]]>`, unless the number
of brackets right before that `]]>` is no multiple of three. -/
theorem sections_end_at_first_terminator {l₀ : HtmlLexer} {document : GoogleString}
    (hdocument : Reads l₀.startParse document l) (hstate : l.state = .start) :
    (∀ text l', Reads l (ascii "<!--" ++ text) l' → l'.skipParsing = false →
      (¬ ascii "-->" <:+: text → Unended l (ascii "<!--" ++ text) l') ∧
        ∀ body, text = body ++ ascii "-->" → ¬ ascii "-->" <:+: body ++ ascii "--" →
          Ended l (commentKind body) body l') ∧
      ∀ text l', Reads l (ascii "<![CDATA[" ++ text) l' → l'.skipParsing = false →
        (¬ ascii "]]>" <:+: text → Unended l (ascii "<![CDATA[" ++ text) l') ∧
          ∀ body, text = body ++ ascii "]]>" → ¬ ascii "]]>" <:+: body ++ ascii "]]" →
            (Ended l .cdata body l' ↔ trailing 93 body % 3 = 0) := by
  have hclean := (hdocument.clean (Or.inl rfl) (sound_startParse l₀)).1
  have htoken := hclean.token_eq_nil (by rw [hstate]; rfl) (by rw [hstate]; rfl)
  constructor
  · intro text l' hread hskip
    refine ⟨fun hnone => (comment_reads hstate htoken hread hskip hnone).unended (by decide), ?_⟩
    rintro body rfl hfirst
    exact comment_terminated hstate htoken hread hskip hfirst
  · intro text l' hread hskip
    refine ⟨fun hnone => (cdata_reads hstate htoken hread hskip hnone).unended (by decide), ?_⟩
    rintro body rfl hfirst
    exact cdata_terminated hstate htoken hread hskip hfirst

theorem sections_end_behind_text :
    Ended ((ascii "a<p>").foldl parseByte ({} : HtmlLexer).startParse) (commentKind (ascii "b->-")) (ascii "b->-")
      ((ascii "<!--" ++ ascii "b->--->").foldl parseByte ((ascii "a<p>").foldl parseByte ({} : HtmlLexer).startParse)) :=
  ((sections_end_at_first_terminator (Reads.start.foldl_parseByte (ascii "a<p>")) (by decide)).1
    (ascii "b->--->") _ (Reads.start.foldl_parseByte (ascii "<!--" ++ ascii "b->--->")) (by decide)).2
      (ascii "b->-") rfl (by decide)

/-- `<![CDATA[a]]]>` is not over. -/
theorem third_bracket_is_swallowed : ¬ ∀ body l', Reads ({} : HtmlLexer).startParse
    (ascii "<![CDATA[" ++ (body ++ ascii "]]>")) l' → l'.skipParsing = false →
      ¬ ascii "]]>" <:+: body ++ ascii "]]" → Ended ({} : HtmlLexer).startParse .cdata body l' := by
  intro hclaim
  have hended := hclaim (ascii "a]") _ (Reads.start.foldl_parseByte (ascii "<![CDATA[" ++ (ascii "a]" ++ ascii "]]>")))
    (by decide) (by decide)
  revert hended
  rw [Ended]
  decide

end PageSpeed.HtmlLexer
