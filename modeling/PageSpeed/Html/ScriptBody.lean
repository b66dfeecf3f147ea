import PageSpeed.Html.ScriptEnd

/-!
From the start tag of a script on, the lexer and the tokenizer of the standard go through the
text side by side, and leave it at the same byte.
-/

namespace PageSpeed.HtmlLexer

variable {l l₁ l' : HtmlLexer} {c : UInt8}

structure Within (l l' : HtmlLexer) : Prop where
  token : l'.token.length ≤ l.token.length
  attrName : l'.attrName.length ≤ l.attrName.length
  attrValue : l'.attrValue.length ≤ l.attrValue.length

def Enters (l l' : HtmlLexer) : Prop := l'.state = .scriptTag → l'.scriptEscapeState = .kNone ∧ Within l l'

theorem Within.refl (l : HtmlLexer) : Within l l := ⟨Nat.le_refl _, Nat.le_refl _, Nat.le_refl _⟩

theorem Within.trans (h : Within l l₁) (h' : Within l₁ l') : Within l l' where
  token := Nat.le_trans h'.token h.token
  attrName := Nat.le_trans h'.attrName h.attrName
  attrValue := Nat.le_trans h'.attrValue h.attrValue

theorem enters_of_state (h : l'.state ≠ .scriptTag) : Enters l l' := fun hs => absurd hs h

theorem enters_of_quiet (h : Quiet l'.state = true) : Enters l l' := by
  refine enters_of_state fun hs => ?_
  rw [hs] at h
  cases h

theorem Enters.source (h : Enters l₁ l') (hw : Within l l₁) : Enters l l' :=
  fun hs => ⟨(h hs).1, hw.trans (h hs).2⟩

theorem Pops.within (h : Pops l l') : Within l l' := by
  rw [h.frame]
  exact ⟨Nat.le_refl _, Nat.le_refl _, Nat.le_refl _⟩

theorem enters_openElement (l : HtmlLexer) (element : HtmlElement) (ns : ElementNamespace) (allowImplicitClose : Bool) :
    Enters l (l.openElement element ns allowImplicitClose) := by
  have hcontent : Enters l { (l.startElement element ns).startContent element with element := none } := by
    rw [startContent]
    split
    · exact fun _ => ⟨rfl, Nat.le_refl _, Nat.le_refl _, Nat.le_refl _⟩
    · exact enters_of_quiet rfl
  rw [openElement]
  split
  · exact enters_of_quiet rfl
  · exact hcontent

theorem enters_emitElement (l : HtmlLexer) (element : HtmlElement) (htmlRules allowImplicitClose : Bool) :
    Enters l (l.emitElement element htmlRules allowImplicitClose) := by
  rw [emitElement]
  cases htmlRules with
  | true => exact (enters_openElement _ _ _ _).source (pops_autoCloseLoop _ l _).within
  | false => exact enters_openElement l _ _ _

theorem enters_emitTagOpen (hmade : l.discardUntilStartState = false → l.element ≠ none) (allowImplicitClose : Bool) :
    Enters l (l.emitTagOpen allowImplicitClose) := by
  rw [emitTagOpen]
  split
  · exact enters_of_quiet rfl
  · next hd =>
    rw [Bool.not_eq_true] at hd
    split
    · next hnone => exact absurd hnone (hmade hd)
    · dsimp only
      split
      · exact (enters_emitElement _ _ _ _).source (pops_popForeignLoop _ l).within
      · exact enters_emitElement l _ _ _

theorem within_makeElement (l : HtmlLexer) : Within l l.makeElement := by
  rw [makeElement]
  split
  · exact Within.refl l
  · exact ⟨Nat.zero_le _, Nat.le_refl _, Nat.le_refl _⟩

theorem within_makeElementUnlessDiscarding (l : HtmlLexer) : Within l l.makeElementUnlessDiscarding := by
  rw [makeElementUnlessDiscarding]
  split
  · exact Within.refl l
  · exact within_makeElement l

theorem within_makeAttribute (l : HtmlLexer) (hasValue : Bool) : Within l (l.makeAttribute hasValue) :=
  ⟨Nat.le_refl _, Nat.zero_le _, Nat.zero_le _⟩

theorem within_makeAttributeIfNamed (l : HtmlLexer) (hasValue : Bool) : Within l (l.makeAttributeIfNamed hasValue) := by
  rw [makeAttributeIfNamed]
  split
  · exact within_makeAttribute l hasValue
  · exact Within.refl l

theorem enters_finishAttribute (h : Sound l) (hmade : l.discardUntilStartState = false → l.element ≠ none)
    (hs : l.state ≠ .scriptTag) (hasValue briefClose : Bool) : Enters l (l.finishAttribute c hasValue briefClose) := by
  rw [finishAttribute]
  split
  · exact enters_of_state (by rintro ⟨⟩)
  · split
    · have hmade' := (sound_makeAttributeIfNamed h hmade hasValue).2
      have hwithin := within_makeAttributeIfNamed l hasValue
      generalize l.makeAttributeIfNamed hasValue = l₁ at hmade' hwithin
      cases briefClose with
      | true => exact enters_of_quiet rfl
      | false =>
        intro hs
        obtain ⟨hescape, htoken, hname, hvalue⟩ := (enters_emitTagOpen hmade' true).source hwithin hs
        exact ⟨hescape, htoken, hname, hvalue⟩
    · exact enters_of_state hs

theorem enters_evalAttribute (h : Sound l) (hin : InTag l.state = true) : Enters l (l.evalAttribute c) := by
  obtain ⟨-, hstate, hd, hmade⟩ := sound_makeElementUnlessDiscarding h hin
  have hwithin := within_makeElementUnlessDiscarding l
  rw [← hd] at hmade
  rw [← hstate] at hin
  rw [evalAttribute]
  generalize l.makeElementUnlessDiscarding = l₁ at hmade hin hwithin
  have hcleared : Within l { l₁ with attrName := [], attrValue := [] } :=
    hwithin.trans ⟨Nat.le_refl _, Nat.zero_le _, Nat.zero_le _⟩
  have hopen : Enters { l₁ with attrName := [], attrValue := [] }
      ({ l₁ with attrName := [], attrValue := [] }.emitTagOpen true) := by
    refine enters_emitTagOpen ?_ true
    exact hmade
  dsimp only
  split_ifs
  · exact hopen.source hcleared
  · exact enters_of_quiet rfl
  · exact enters_of_state (by rintro ⟨⟩)
  · refine enters_of_state fun hs => ?_
    rw [show l₁.state = .scriptTag from hs] at hin
    cases hin

theorem enters_evalTagBriefClose (h : Sound l) (hs : l.state = .tagBriefClose) : Enters l (l.evalTagBriefClose c) := by
  have hin : InTag l.state = true := by rw [hs]; rfl
  rw [evalTagBriefClose]
  split
  · obtain ⟨hsound, hstate, hd, hmade⟩ := sound_makeElementUnlessDiscarding h hin
    rw [← hd] at hmade
    have hscript : l.makeElementUnlessDiscarding.state ≠ .scriptTag := by
      rw [hstate, hs]
      rintro ⟨⟩
    exact (enters_finishAttribute hsound hmade hscript _ _).source (within_makeElementUnlessDiscarding l)
  · have hsound : Sound { l.makeAttributeIfNamed l.hasAttrValue with state := .tagAttribute } := by
      rw [makeAttributeIfNamed]
      split
      · exact (sound_makeAttribute h l.hasAttrValue).frame rfl rfl rfl rfl rfl
      · exact h.retag rfl rfl rfl rfl (by rintro ⟨⟩)
    refine (enters_evalAttribute hsound rfl).source ?_
    obtain ⟨htoken, hname, hvalue⟩ := within_makeAttributeIfNamed l l.hasAttrValue
    exact ⟨htoken, hname, hvalue⟩

theorem enters_handleAttributeEnd (h : Sound l) (hattr : InAttr l.state = true) (ha : l.handleAttributeEnd c = some l') :
    Enters l l' := by
  have hmade := h.made hattr
  rw [handleAttributeEnd] at ha
  split_ifs at ha <;> cases ha
  · exact enters_of_state (by rintro ⟨⟩)
  · exact enters_of_state (by rintro ⟨⟩)
  · have hmade' : (l.makeAttribute false).discardUntilStartState = false → (l.makeAttribute false).element ≠ none :=
      fun hd => element_makeAttribute (hmade hd)
    exact (enters_emitTagOpen hmade' true).source (within_makeAttribute l false)
  · exact enters_of_state (by rintro ⟨⟩)

theorem enters_evalAttrName (h : Sound l) (hs : l.state = .tagAttrName) : Enters l (l.evalAttrName c) := by
  rw [evalAttrName]
  cases ha : l.handleAttributeEnd c with
  | none => exact enters_of_state (by rw [Option.getD_none, hs]; rintro ⟨⟩)
  | some l' => exact enters_handleAttributeEnd h (by rw [hs]; rfl) ha

theorem enters_evalAttrNameSpace (h : Sound l) (hs : l.state = .tagAttrNameSpace) : Enters l (l.evalAttrNameSpace c) := by
  rw [evalAttrNameSpace]
  cases ha : l.handleAttributeEnd c with
  | none => exact enters_of_state (by rintro ⟨⟩)
  | some l' => exact enters_handleAttributeEnd h (by rw [hs]; rfl) ha

theorem enters_evalAttrVal (h : Sound l) (hs : l.state = .tagAttrVal) : Enters l (l.evalAttrVal c) := by
  have hscript : l.state ≠ .scriptTag := by
    rw [hs]
    exact nofun
  rw [evalAttrVal]
  split
  · exact enters_finishAttribute h (h.made (by rw [hs]; rfl)) hscript true false
  · exact enters_of_state hscript

theorem enters_evalAttrEq (h : Sound l) (hs : l.state = .tagAttrEq) : Enters l (l.evalAttrEq c) := by
  have hscript : l.state ≠ .scriptTag := by
    rw [hs]
    rintro ⟨⟩
  have hmade := h.made (by rw [hs]; rfl)
  rw [evalAttrEq]
  split_ifs
  · exact enters_of_state (by rintro ⟨⟩)
  · exact enters_of_state (by rintro ⟨⟩)
  · exact enters_of_state hscript
  · exact enters_finishAttribute h hmade hscript true false
  · have hval : Sound { l with state := .tagAttrVal, attrQuote := .noQuote } := h.retag rfl rfl rfl rfl fun _ => hmade
    exact (enters_evalAttrVal hval rfl).source ⟨Nat.le_refl _, Nat.le_refl _, Nat.le_refl _⟩

theorem enters_evalAttrQuoted (hs : l.state ≠ .scriptTag) (quote : UInt8) : Enters l (evalAttrQuoted quote l c) := by
  rw [evalAttrQuoted]
  split
  · exact enters_of_state (by rintro ⟨⟩)
  · exact enters_of_state hs

theorem enters_evalTag (l : HtmlLexer) (c : UInt8) : Enters l (l.evalTag c) := by
  rw [evalTag]
  split_ifs
  · exact enters_of_state (by rintro ⟨⟩)
  · exact enters_of_state (by rintro ⟨⟩)
  · exact enters_of_state (by rintro ⟨⟩)
  · exact enters_of_state (by rintro ⟨⟩)
  · exact enters_of_quiet (steady_evalStart l c).quiet

theorem enters_evalTagOpen (h : Sound l) (hs : l.state = .tagOpen) : Enters l (l.evalTagOpen c) := by
  have hnone := h.element_eq_none (by rw [hs]; rfl)
  rw [evalTagOpen]
  split_ifs
  · exact enters_of_state (by rw [hs]; rintro ⟨⟩)
  · have hmade : l.makeElement.element ≠ none := by
      rw [makeElement, hnone]
      rintro ⟨⟩
    exact (enters_emitTagOpen (fun _ => hmade) true).source (within_makeElement l)
  · exact enters_of_state (by rintro ⟨⟩)
  · exact enters_of_state (by rintro ⟨⟩)
  · exact enters_of_state (by rintro ⟨⟩)

theorem enters_evalLiteralTag (hs : l.state = .literalTag) : Enters l (l.evalLiteralTag c) := by
  have hscript : l.state ≠ .scriptTag := by
    rw [hs]
    rintro ⟨⟩
  rw [evalLiteralTag]
  split
  · dsimp only
    split
    · rw [discardAfterCloseTag]
      split_ifs <;> exact enters_of_quiet rfl
    · exact enters_of_state hscript
  · exact enters_of_state hscript

theorem enters_eval (h : Sound l) (hs : l.state ≠ .scriptTag) : Enters l (l.eval c) := by
  rw [eval]
  split
  · exact enters_of_quiet (steady_evalStart l c).quiet
  · exact enters_evalTag l c
  · next hs => exact enters_evalTagOpen h hs
  · exact enters_of_quiet (steady_evalTagCloseNoName l c).quiet
  · next hs => exact enters_of_quiet (steady_evalTagClose l c (by rw [hs]; rfl)).quiet
  · next hs => exact enters_of_quiet (steady_evalTagClose l c (by rw [hs]; rfl)).quiet
  · next hs => exact enters_evalTagBriefClose h hs
  · exact enters_of_quiet (steady_evalCommentStart1 l c).quiet
  · exact enters_of_quiet (steady_evalExpected 45 .commentBody l c rfl).quiet
  · next hs => exact enters_of_quiet (steady_evalBody 45 .commentEnd1 l c rfl (by rw [hs]; rfl)).quiet
  · exact enters_of_quiet (steady_evalEnd1 45 .commentEnd2 .commentBody l c rfl rfl).quiet
  · next hs => exact enters_of_quiet (steady_evalCommentEnd2 l c (by rw [hs]; rfl)).quiet
  · exact enters_of_quiet (steady_evalExpected 67 .cdataStart2 l c rfl).quiet
  · exact enters_of_quiet (steady_evalExpected 68 .cdataStart3 l c rfl).quiet
  · exact enters_of_quiet (steady_evalExpected 65 .cdataStart4 l c rfl).quiet
  · exact enters_of_quiet (steady_evalExpected 84 .cdataStart5 l c rfl).quiet
  · exact enters_of_quiet (steady_evalExpected 65 .cdataStart6 l c rfl).quiet
  · exact enters_of_quiet (steady_evalExpected 91 .cdataBody l c rfl).quiet
  · next hs => exact enters_of_quiet (steady_evalBody 93 .cdataEnd1 l c rfl (by rw [hs]; rfl)).quiet
  · exact enters_of_quiet (steady_evalEnd1 93 .cdataEnd2 .cdataBody l c rfl rfl).quiet
  · exact enters_of_quiet (steady_evalCdataEnd2 l c).quiet
  · next hs => exact enters_evalAttribute h (by rw [hs]; rfl)
  · next hs => exact enters_evalAttrName h hs
  · next hs => exact enters_evalAttrNameSpace h hs
  · next hs => exact enters_evalAttrEq h hs
  · next hs => exact enters_evalAttrVal h hs
  · exact enters_evalAttrQuoted hs 34
  · exact enters_evalAttrQuoted hs 39
  · next hs => exact enters_evalLiteralTag hs
  · next hscript => exact absurd hscript hs
  · next hs => exact enters_of_quiet (steady_evalDirective l c (by rw [hs]; rfl)).quiet
  · next hs => exact enters_of_quiet (steady_evalBogusComment l c (by rw [hs]; rfl)).quiet

open ScriptData (nextEscape tail stateOf run step closeScript evalScriptTag_snoc run_snoc tail_snoc step_stateOf)

def Arrived (l : HtmlLexer) : Prop :=
  l.state = .scriptTag → (l.literal = [] → l.scriptEscapeState = .kNone) ∧ l.token.length ≤ kMaxTokenSize ∧
    l.attrName.length ≤ kMaxTokenSize ∧ l.attrValue.length ≤ kMaxTokenSize

theorem eval_scriptTag (text : GoogleString) (hs : l.state = .scriptTag) :
    { l with literal := text ++ [c] }.eval c = { l with literal := text ++ [c] }.evalScriptTag c := by
  rw [eval]
  dsimp only
  rw [hs]

theorem eval_stays {text : GoogleString} {escape : HtmlCommentEscapeState} (hs : l.state = .scriptTag)
    (h : nextEscape l.scriptEscapeState (tail text) c = some escape) :
    { l with literal := text ++ [c] }.eval c = { l with literal := text ++ [c], scriptEscapeState := escape } := by
  rw [eval_scriptTag text hs, evalScriptTag_snoc rfl, h]

theorem eval_ends {text : GoogleString} (hs : l.state = .scriptTag)
    (h : nextEscape l.scriptEscapeState (tail text) c = none) :
    { l with literal := text ++ [c] }.eval c =
      (closeScript { l with literal := text ++ [c] }).discardAfterCloseTag c := by
  rw [eval_scriptTag text hs, evalScriptTag_snoc rfl, h]

theorem arrived_parseByte (h : Sound l) (ha : Arrived l) (c : UInt8) : Arrived (l.parseByte c) := by
  rw [parseByte]
  split
  · exact ha
  split
  · exact ha
  next hfull =>
  simp only [not_or, Nat.not_lt] at hfull
  obtain ⟨htoken, hvalue, -, hname⟩ := hfull
  have hsound : Sound { l with literal := l.literal ++ [c] } := h.frame rfl rfl rfl rfl rfl
  by_cases hs : l.state = .scriptTag
  · cases hnext : nextEscape l.scriptEscapeState (tail l.literal) c with
    | some escape =>
      rw [eval_stays hs hnext]
      exact fun _ => ⟨fun hnil => absurd hnil (List.append_ne_nil_of_right_ne_nil _ (List.cons_ne_nil _ _)), htoken, hname, hvalue⟩
    | none =>
      rw [eval_ends hs hnext]
      intro hstate
      rw [discardAfterCloseTag] at hstate
      split_ifs at hstate
      cases hstate
  · intro hstate
    obtain ⟨hescape, hwithin⟩ := enters_eval (c := c) hsound hs hstate
    exact ⟨fun _ => hescape, Nat.le_trans hwithin.token htoken, Nat.le_trans hwithin.attrName hname,
      Nat.le_trans hwithin.attrValue hvalue⟩

inductive Reads (l : HtmlLexer) : GoogleString → HtmlLexer → Prop
  | start : Reads l [] l
  | call {text l'} (size : ℕ) : Reads l text l' → Reads l text (l'.countBytes size)
  | byte {text l'} (c : UInt8) : Reads l text l' → Reads l (text ++ [c]) (l'.parseByte c)

theorem Reads.foldl_parseByte {before : GoogleString} (h : Reads l before l') (text : GoogleString) :
    Reads l (before ++ text) (text.foldl parseByte l') := by
  induction text generalizing before l' with
  | nil => simpa using h
  | cons c text ih => simpa using ih (h.byte c)

theorem Reads.invariant {text : GoogleString} (h : Reads l text l') (hs : Sound l) (ha : Arrived l) :
    Sound l' ∧ Arrived l' := by
  induction h with
  | start => exact ⟨hs, ha⟩
  | call size _ ih => exact ⟨sound_countBytes ih.1 size, ih.2⟩
  | byte c _ ih => exact ⟨sound_parseByte ih.1 c, arrived_parseByte ih.1 ih.2 c⟩

structure InScript (l₀ l : HtmlLexer) (text : GoogleString) : Prop where
  sound : Sound l
  arrived : Arrived l
  state : l.state = .scriptTag
  parsing : l.skipParsing = false
  literal : l.literal = text
  calls : l.calls = l₀.calls
  stack : l.elementStack = l₀.elementStack
  standard : run text = some (stateOf l.scriptEscapeState (tail text))

variable {l₀ : HtmlLexer} {text : GoogleString}

theorem inScript_start (h : Sound l) (ha : Arrived l) (hs : l.state = .scriptTag) (hl : l.literal = [])
    (hp : l.skipParsing = false) : InScript l l [] where
  sound := h
  arrived := ha
  state := hs
  parsing := hp
  literal := hl
  calls := rfl
  stack := rfl
  standard := by
    rw [(ha hs).1 hl]
    rfl

theorem InScript.countBytes (h : InScript l₀ l text) (size : ℕ) : InScript l₀ (l.countBytes size) text :=
  ⟨sound_countBytes h.sound size, h.arrived, h.state, h.parsing, h.literal, h.calls, h.stack, h.standard⟩

theorem InScript.parseByte_eq (h : InScript l₀ l text) (hsize : text.length ≤ kMaxTokenSize) :
    l.parseByte c = { l with literal := text ++ [c] }.eval c := by
  obtain ⟨-, htoken, hname, hvalue⟩ := h.arrived h.state
  rw [parseByte, h.parsing, h.literal, if_neg Bool.false_ne_true, if_neg]
  simp only [not_or, Nat.not_lt]
  exact ⟨htoken, hvalue, hsize, hname⟩

theorem InScript.parseByte (h : InScript l₀ l text) (hsize : text.length ≤ kMaxTokenSize)
    (hstays : run (text ++ [c]) ≠ none) : InScript l₀ (l.parseByte c) (text ++ [c]) := by
  have hsound := sound_parseByte h.sound c
  have harrived := arrived_parseByte h.sound h.arrived c
  cases hnext : nextEscape l.scriptEscapeState (tail text) c with
  | none =>
    rw [run_snoc, h.standard, Option.bind_some, step_stateOf, hnext] at hstays
    exact absurd rfl hstays
  | some escape =>
    rw [h.parseByte_eq hsize, eval_stays h.state hnext] at hsound harrived ⊢
    refine ⟨hsound, harrived, h.state, h.parsing, rfl, h.calls, h.stack, ?_⟩
    rw [run_snoc, h.standard, Option.bind_some, step_stateOf, hnext, tail_snoc]
    rfl

theorem InScript.ends (h : InScript l₀ l text) (hsize : text.length ≤ kMaxTokenSize)
    (hends : run (text ++ [c]) = none) :
    ∃ element, l₀.back = some element ∧ element.keyword = .kScript ∧ (l.parseByte c).calls =
      l₀.calls ++ ScriptData.passed l₀.parent (text.take (text.length - 8)) ++ [.closeElement element .explicitClose] := by
  rw [run_snoc, h.standard, Option.bind_some, step_stateOf, Option.map_eq_none_iff] at hends
  have htail : tail text = .endName ScriptData.script := ScriptData.tail_of_ends hends
  rw [h.parseByte_eq hsize, eval_ends h.state hends,
    ScriptData.calls_discardAfterCloseTag]
  have hsound : Sound { l with literal := text ++ [c] } := h.sound.frame rfl rfl rfl rfl rfl
  obtain ⟨element, hback, hscript, hcalls⟩ := ScriptData.calls_closeScript hsound h.state rfl htail
  have hsame : l.back = l₀.back := by rw [back, h.stack, ← back]
  have hparent : l.parent = l₀.parent := by rw [parent, hsame, ← parent]
  refine ⟨element, hsame.symm.trans hback, hscript, ?_⟩
  rw [← h.calls, ← hparent]
  exact hcalls

theorem InScript.reads (h : InScript l₀ l []) (hread : Reads l text l') (hsize : text.length ≤ kMaxTokenSize + 1)
    (hstays : run text ≠ none) : InScript l₀ l' text := by
  induction hread with
  | start => exact h
  | call size _ ih => exact (ih hsize hstays).countBytes size
  | byte c _ ih =>
    rw [List.length_append, List.length_singleton] at hsize
    exact (ih (by omega) (ScriptData.run_ne_none_of_snoc hstays)).parseByte (by omega) hstays

theorem InScript.leaves (h : InScript l₀ l []) (hread : Reads l text l') (hsize : text.length ≤ kMaxTokenSize + 1)
    {body : GoogleString} (htext : text = body ++ [c]) (hstays : run body ≠ none) (hends : run text = none) :
    ∃ element, l₀.back = some element ∧ element.keyword = .kScript ∧ l'.calls =
      l₀.calls ++ ScriptData.passed l₀.parent (body.take (body.length - 8)) ++ [.closeElement element .explicitClose] := by
  induction hread with
  | start => simp at htext
  | call size _ ih => exact ih hsize htext hends
  | byte d hread _ =>
    obtain ⟨rfl, hd⟩ := List.append_inj' htext rfl
    obtain rfl : d = c := by simpa using hd
    rw [List.length_append, List.length_singleton] at hsize
    exact (h.reads hread (by omega) hstays).ends (by omega) hends

/-- The lexer closes a script at the byte at which the standard's tokenizer leaves it, and not before. -/
theorem script_ends_as_in_standard {document : GoogleString} (hdocument : Reads l₀.startParse document l)
    (hscript : l.state = .scriptTag) (hstart : l.literal = []) (hparsing : l.skipParsing = false)
    (hread : Reads l text l') (hsize : text.length ≤ kMaxTokenSize + 1) :
    (run text ≠ none → l'.state = .scriptTag ∧ l'.calls = l.calls) ∧
    ∀ body c, text = body ++ [c] → run body ≠ none → run text = none →
      ∃ element, l.back = some element ∧ element.keyword = .kScript ∧ l'.calls =
        l.calls ++ ScriptData.passed l.parent (body.take (body.length - 8)) ++
          [.closeElement element .explicitClose] := by
  obtain ⟨hsound, harrived⟩ := hdocument.invariant (sound_startParse l₀) nofun
  have hin := inScript_start hsound harrived hscript hstart hparsing
  refine ⟨fun hstays => ?_, fun body c htext hstays hends => hin.leaves hread hsize htext hstays hends⟩
  have hreads := hin.reads hread hsize hstays
  exact ⟨hreads.state, hreads.calls⟩

/-- The lexer behind `<script>`. -/
def scriptOpened : HtmlLexer := (ascii "<script>").foldl parseByte ({} : HtmlLexer).startParse

theorem scriptOpened_facts :
    scriptOpened.state = .scriptTag ∧ scriptOpened.literal = [] ∧ scriptOpened.skipParsing = false := by
  decide

theorem script_ends_behind_name : ∃ element, scriptOpened.back = some element ∧ element.keyword = .kScript ∧
    ((ascii "x</script ").foldl parseByte scriptOpened).calls =
      scriptOpened.calls ++ ScriptData.passed scriptOpened.parent (ascii "x") ++
        [.closeElement element .explicitClose] :=
  (@script_ends_as_in_standard scriptOpened _ {} _ _ (Reads.start.foldl_parseByte (ascii "<script>"))
    scriptOpened_facts.1 scriptOpened_facts.2.1 scriptOpened_facts.2.2
    (Reads.start.foldl_parseByte (ascii "x</script ")) (by decide)).2 (ascii "x</script") 32 (by decide) (by decide) (by decide)

end PageSpeed.HtmlLexer
