import PageSpeed.Html.ScriptData
import PageSpeed.Html.LexerNesting
import Mathlib.Data.List.Induction

/-!
The lexer looks at the end of the text that it has kept, the standard at its state. What
both know of the text is how it goes on after its last `<`.
-/

namespace PageSpeed.ScriptData

open HtmlLexer (HtmlCommentEscapeState canEndTag endsWith stringCaseEndsWith)

inductive Tail
  | name (letters : GoogleString)
  | endName (letters : GoogleString)
  | bang
  | bangDash
  | dashes (n : ℕ)
  deriving DecidableEq

def Tail.dash : Tail → Tail
  | .bang => .bangDash
  | .bangDash => .dashes 2
  | .dashes n => .dashes (n + 1)
  | _ => .dashes 1

/-- After a byte that is neither `<` nor `-`. -/
def Tail.letter : Tail → UInt8 → Tail
  | .name letters, c =>
    if letters = [] ∧ c = 47 then .endName []
    else if letters = [] ∧ c = 33 then .bang
    else if isAlpha c then .name (letters ++ [lowerChar c])
    else .dashes 0
  | .endName letters, c => if isAlpha c then .endName (letters ++ [lowerChar c]) else .dashes 0
  | _, _ => .dashes 0

def Tail.step (t : Tail) (c : UInt8) : Tail := if c = 60 then .name [] else if c = 45 then t.dash else t.letter c

def tail (text : GoogleString) : Tail := text.foldl Tail.step (.dashes 0)

theorem tail_snoc (text : GoogleString) (c : UInt8) : tail (text ++ [c]) = (tail text).step c := by
  rw [tail, List.foldl_append]
  rfl

variable {text letters : GoogleString} {t : Tail} {c : UInt8}

theorem step_name : (Tail.name letters).step c =
    if c = 60 then .name [] else if c = 45 then .dashes 1
    else if letters = [] ∧ c = 47 then .endName [] else if letters = [] ∧ c = 33 then .bang
    else if isAlpha c then .name (letters ++ [lowerChar c]) else .dashes 0 := rfl

theorem step_endName : (Tail.endName letters).step c =
    if c = 60 then .name [] else if c = 45 then .dashes 1
    else if isAlpha c then .endName (letters ++ [lowerChar c]) else .dashes 0 := rfl

theorem step_bang : Tail.bang.step c = if c = 60 then .name [] else if c = 45 then .bangDash else .dashes 0 := rfl

theorem step_bangDash : Tail.bangDash.step c = if c = 60 then .name [] else if c = 45 then .dashes 2 else .dashes 0 :=
  rfl

theorem step_dashes (n : ℕ) :
    (Tail.dashes n).step c = if c = 60 then .name [] else if c = 45 then .dashes (n + 1) else .dashes 0 := rfl

theorem step_eq_bang : t.step c = .bang ↔ c = 33 ∧ t = .name [] := by
  cases t <;> simp only [step_name, step_endName, step_bang, step_bangDash, step_dashes] <;> split_ifs <;> simp_all <;> tauto

theorem step_eq_bangDash : t.step c = .bangDash ↔ c = 45 ∧ t = .bang := by
  cases t <;> simp only [step_name, step_endName, step_bang, step_bangDash, step_dashes] <;> split_ifs <;> simp_all

theorem step_eq_name_nil : t.step c = .name [] ↔ c = 60 := by
  cases t <;> simp only [step_name, step_endName, step_bang, step_bangDash, step_dashes] <;> split_ifs <;> simp_all

theorem step_eq_endName_nil : t.step c = .endName [] ↔ c = 47 ∧ t = .name [] := by
  cases t <;> simp only [step_name, step_endName, step_bang, step_bangDash, step_dashes] <;> split_ifs <;> simp_all <;> tauto

theorem not_alpha : isAlpha 60 = false ∧ isAlpha 45 = false ∧ isAlpha 47 = false ∧ isAlpha 33 = false := by decide

variable {d : UInt8} {l : HtmlLexer}

theorem step_eq_name :
    t.step c = .name (letters ++ [d]) ↔ isAlpha c = true ∧ lowerChar c = d ∧ t = .name letters := by
  cases t <;> simp only [step_name, step_endName, step_bang, step_bangDash, step_dashes] <;> split_ifs <;> simp_all [not_alpha, and_comm]

theorem step_eq_endName :
    t.step c = .endName (letters ++ [d]) ↔ isAlpha c = true ∧ lowerChar c = d ∧ t = .endName letters := by
  cases t <;> simp only [step_name, step_endName, step_bang, step_bangDash, step_dashes] <;> split_ifs <;> simp_all [not_alpha, and_comm]

def Tail.dashCount : Tail → ℕ
  | .bangDash => 1
  | .dashes n => n
  | _ => 0

theorem dashCount_step (t : Tail) (c : UInt8) : (t.step c).dashCount = if c = 45 then t.dashCount + 1 else 0 := by
  cases t <;> simp only [step_name, step_endName, step_bang, step_bangDash, step_dashes] <;> split_ifs <;> simp_all [Tail.dashCount]

theorem snoc_suffix_snoc {α : Type*} {s t : List α} {a b : α} : s ++ [a] <:+ t ++ [b] ↔ a = b ∧ s <:+ t := by
  rw [List.suffix_concat_iff]
  constructor
  · rintro (hnil | ⟨t', heq, hsuffix⟩)
    · simp at hnil
    · obtain ⟨rfl, hab⟩ := List.append_inj' heq rfl
      exact ⟨by simpa using hab, hsuffix⟩
  · rintro ⟨rfl, hsuffix⟩
    exact Or.inr ⟨s, rfl, hsuffix⟩

theorem stringCaseEndsWith_iff {suffix : GoogleString} :
    stringCaseEndsWith text suffix = true ↔ suffix.map lowerChar <:+ text.map lowerChar := by
  rw [stringCaseEndsWith, Bool.and_eq_true, decide_eq_true_eq, stringCaseEqual_iff_lower, List.suffix_iff_eq_drop,
    List.map_drop, List.length_map, List.length_map]
  constructor
  · exact fun h => h.2
  · intro h
    refine ⟨?_, h⟩
    have hlength := congrArg List.length h
    simp only [List.length_map, List.length_drop] at hlength
    omega

theorem stringCaseEndsWith_snoc (suffix : GoogleString) :
    stringCaseEndsWith (text ++ [c]) (suffix ++ [d]) = true ↔
      lowerChar c = lowerChar d ∧ stringCaseEndsWith text suffix = true := by
  rw [stringCaseEndsWith_iff, stringCaseEndsWith_iff, List.map_append, List.map_append]
  exact snoc_suffix_snoc.trans (and_congr_left' eq_comm)

theorem not_stringCaseEndsWith_nil (suffix : GoogleString) : stringCaseEndsWith [] (suffix ++ [d]) ≠ true := by
  simp [stringCaseEndsWith]

def isLower (c : UInt8) : Bool := 97 ≤ c ∧ c ≤ 122

theorem lowerChar_eq_iff (h : isLower d = true) : lowerChar c = lowerChar d ↔ isAlpha c = true ∧ lowerChar c = d := by
  unfold isLower at h
  unfold lowerChar isAlpha
  grind

theorem lowerChar_eq_60 : lowerChar c = lowerChar 60 ↔ c = 60 := by
  unfold lowerChar
  grind

theorem lowerChar_eq_47 : lowerChar c = lowerChar 47 ↔ c = 47 := by
  unfold lowerChar
  grind

theorem endsWith_letters (opening : GoogleString) {make : GoogleString → Tail}
    (hstart : ∀ text, stringCaseEndsWith text opening = true ↔ tail text = make [])
    (hstep : ∀ (t : Tail) (c : UInt8) (letters : GoogleString) (d : UInt8),
      t.step c = make (letters ++ [d]) ↔ isAlpha c = true ∧ lowerChar c = d ∧ t = make letters)
    (hmake : ∀ letters, make letters ≠ .dashes 0) (h : letters.all isLower = true) :
    stringCaseEndsWith text (opening ++ letters) = true ↔ tail text = make letters := by
  induction letters using List.reverseRecOn generalizing text with
  | nil => rw [List.append_nil, hstart]
  | append_singleton letters d ih =>
    rw [List.all_append, Bool.and_eq_true, List.all_cons, Bool.and_eq_true] at h
    obtain ⟨hletters, hd, -⟩ := h
    rw [← List.append_assoc]
    cases text using List.reverseRecOn with
    | nil => exact iff_of_false (not_stringCaseEndsWith_nil _) fun htail => hmake _ htail.symm
    | append_singleton text c =>
      rw [tail_snoc, hstep, stringCaseEndsWith_snoc, lowerChar_eq_iff hd, ih hletters, and_assoc]

theorem endsWith_lessThan : stringCaseEndsWith text [60] = true ↔ tail text = .name [] := by
  cases text using List.reverseRecOn with
  | nil => exact iff_of_false (not_stringCaseEndsWith_nil []) nofun
  | append_singleton text c =>
    rw [tail_snoc, step_eq_name_nil, ← lowerChar_eq_60]
    exact (stringCaseEndsWith_snoc []).trans (and_iff_left (by simp [stringCaseEndsWith_iff]))

theorem endsWith_slash : stringCaseEndsWith text [60, 47] = true ↔ tail text = .endName [] := by
  cases text using List.reverseRecOn with
  | nil => exact iff_of_false (not_stringCaseEndsWith_nil [60]) nofun
  | append_singleton text c =>
    rw [tail_snoc, step_eq_endName_nil, ← lowerChar_eq_47, ← endsWith_lessThan]
    exact stringCaseEndsWith_snoc [60]

theorem endsWith_startScript : stringCaseEndsWith text (ascii "<script") = true ↔ tail text = .name script :=
  endsWith_letters [60] (fun _ => endsWith_lessThan) (fun _ _ _ _ => step_eq_name) nofun (by decide)

theorem endsWith_endScript : stringCaseEndsWith text (ascii "</script") = true ↔ tail text = .endName script :=
  endsWith_letters [60, 47] (fun _ => endsWith_slash) (fun _ _ _ _ => step_eq_endName) nofun (by decide)

theorem endsWith_snoc (suffix : GoogleString) :
    endsWith (text ++ [c]) (suffix ++ [d]) = true ↔ c = d ∧ endsWith text suffix = true := by
  rw [endsWith, endsWith, List.isSuffixOf_iff_suffix, List.isSuffixOf_iff_suffix]
  exact snoc_suffix_snoc.trans (and_congr_left' eq_comm)

theorem not_endsWith_nil (suffix : GoogleString) : endsWith [] (suffix ++ [d]) ≠ true := by
  intro h
  rw [endsWith, List.isSuffixOf_iff_suffix, List.suffix_nil] at h
  exact List.append_ne_nil_of_right_ne_nil _ (List.cons_ne_nil _ _) h

theorem endsWith_nil : endsWith text [] = true := by
  rw [endsWith, List.isSuffixOf_iff_suffix]
  exact List.nil_suffix

theorem endsWith_bangDash : endsWith text (ascii "<!-") = true ↔ tail text = .bangDash := by
  cases text using List.reverseRecOn with
  | nil => exact iff_of_false (not_endsWith_nil [60, 33]) nofun
  | append_singleton text c =>
  rw [tail_snoc, step_eq_bangDash]
  refine (endsWith_snoc [60, 33]).trans (and_congr_right' ?_)
  cases text using List.reverseRecOn with
  | nil => exact iff_of_false (not_endsWith_nil [60]) nofun
  | append_singleton text c =>
  rw [tail_snoc, step_eq_bang]
  refine (endsWith_snoc [60]).trans (and_congr_right' ?_)
  cases text using List.reverseRecOn with
  | nil => exact iff_of_false (not_endsWith_nil []) nofun
  | append_singleton text c =>
  rw [tail_snoc, step_eq_name_nil]
  exact (endsWith_snoc []).trans (and_iff_left endsWith_nil)

theorem endsWith_dashes (n : ℕ) : endsWith text (List.replicate n 45) = true ↔ n ≤ (tail text).dashCount := by
  induction n generalizing text with
  | zero => exact iff_of_true endsWith_nil (Nat.zero_le _)
  | succ n ih =>
    rw [List.replicate_succ']
    cases text using List.reverseRecOn with
    | nil => exact iff_of_false (not_endsWith_nil _) (Nat.not_succ_le_zero n)
    | append_singleton text c =>
      rw [endsWith_snoc, tail_snoc, dashCount_step, ih]
      split_ifs with hc
      · simp [hc]
      · simp [hc]

def nextEscape (escape : HtmlCommentEscapeState) (t : Tail) (c : UInt8) : Option HtmlCommentEscapeState :=
  if endsName c then
    if t = .endName script then if escape = .kDoubleEscaped then some .kInComment else none
    else if escape ≠ .kNone ∧ t = .name script then some .kDoubleEscaped
    else if c = 62 ∧ 2 ≤ t.dashCount then some .kNone
    else some escape
  else if c = 45 ∧ escape = .kNone ∧ t = .bangDash then some .kInComment
  else some escape

theorem tail_of_ends {escape : HtmlCommentEscapeState} (h : nextEscape escape t c = none) : t = .endName script := by
  rw [nextEscape] at h
  split_ifs at h with _ hend
  exact hend

def escapedDashes : ℕ → State
  | 0 => .scriptDataEscaped
  | 1 => .scriptDataEscapedDash
  | _ => .scriptDataEscapedDashDash

def doubleEscapedDashes : ℕ → State
  | 0 => .scriptDataDoubleEscaped
  | 1 => .scriptDataDoubleEscapedDash
  | _ => .scriptDataDoubleEscapedDashDash

def stateOf : HtmlCommentEscapeState → Tail → State
  | .kNone, .name [] => .scriptDataLessThanSign
  | .kNone, .endName [] => .scriptDataEndTagOpen
  | .kNone, .endName letters => .scriptDataEndTagName letters
  | .kNone, .bang => .scriptDataEscapeStart
  | .kNone, .bangDash => .scriptDataEscapeStartDash
  | .kNone, _ => .scriptData
  | .kInComment, .name [] => .scriptDataEscapedLessThanSign
  | .kInComment, .name letters => .scriptDataDoubleEscapeStart letters
  | .kInComment, .endName [] => .scriptDataEscapedEndTagOpen
  | .kInComment, .endName letters => .scriptDataEscapedEndTagName letters
  | .kInComment, t => escapedDashes t.dashCount
  | .kDoubleEscaped, .name [] => .scriptDataDoubleEscapedLessThanSign
  | .kDoubleEscaped, .endName letters => .scriptDataDoubleEscapeEnd letters
  | .kDoubleEscaped, t => doubleEscapedDashes t.dashCount

theorem endsName_facts (h : endsName c = true) : isAlpha c = false ∧ c ≠ 60 ∧ c ≠ 45 ∧ c ≠ 33 := by
  simp only [endsName, Bool.or_eq_true, decide_eq_true_eq] at h
  rcases h with ((((((rfl | rfl) | rfl) | rfl) | rfl) | rfl) | rfl) <;> decide

theorem step_stateOf_lessThan (escape : HtmlCommentEscapeState) (t : Tail) :
    step (stateOf escape t) 60 = (nextEscape escape t 60).map (stateOf · (t.step 60)) := by
  cases escape <;> rcases t with (_ | _) | (_ | _) | _ | _ | (_ | _ | _) <;> rfl

theorem step_stateOf_dash (escape : HtmlCommentEscapeState) (t : Tail) :
    step (stateOf escape t) 45 = (nextEscape escape t 45).map (stateOf · (t.step 45)) := by
  cases escape <;> rcases t with (_ | _) | (_ | _) | _ | _ | (_ | _ | _) <;> rfl

def resume : HtmlCommentEscapeState → State
  | .kNone => .scriptData
  | .kInComment => .scriptDataEscaped
  | .kDoubleEscaped => .scriptDataDoubleEscaped

attribute [local simp] stateOf escapedDashes doubleEscapedDashes Tail.dashCount step resume

theorem step_of_endsName (h : endsName c = true) (hslash : t = .name [] → c ≠ 47) : t.step c = .dashes 0 := by
  obtain ⟨halpha, hlt, hdash, hbang⟩ := endsName_facts h
  rw [Tail.step, if_neg hlt, if_neg hdash]
  cases t with
  | name letters =>
    rw [Tail.letter, if_neg fun hs => hslash (congrArg Tail.name hs.1) hs.2, if_neg fun hs => hbang hs.2, halpha]
    rfl
  | endName letters =>
    rw [Tail.letter, halpha]
    rfl
  | _ => rfl

theorem nextEscape_eq_self (t : Tail) {escape : HtmlCommentEscapeState} (h : endsName c = true) (hend : t ≠ .endName script)
    (hstart : t ≠ .name script) (hdashes : t.dashCount < 2) : nextEscape escape t c = some escape := by
  rw [nextEscape, if_pos h, if_neg hend, if_neg fun hs => hstart hs.2, if_neg fun hs => absurd hs.2 (by omega)]

theorem plain_steps (hlt : c ≠ 60) (hdash : c ≠ 45) : stepScriptData c = .scriptData ∧
    stepEscaped c = .scriptDataEscaped ∧ stepDoubleEscaped c = .scriptDataDoubleEscaped := by
  simp [stepScriptData, stepEscaped, stepDoubleEscaped, hlt, hdash]

theorem step_stateOf_endName (escape : HtmlCommentEscapeState) (letters : GoogleString) (h : endsName c = true) :
    step (stateOf escape (.endName letters)) c = (nextEscape escape (.endName letters) c).map resume := by
  obtain ⟨halpha, hlt, hdash, -⟩ := endsName_facts h
  have hplain := plain_steps hlt hdash
  by_cases hscript : letters = script
  · subst hscript
    rw [nextEscape, if_pos h, if_pos rfl]
    have hend (collect : GoogleString → State) (otherwise : State) :
        stepEndTagName script c collect otherwise = none := by
      rw [stepEndTagName, h]
      rfl
    cases escape with
    | kNone => exact hend _ _
    | kInComment => exact hend _ _
    | kDoubleEscaped => exact (if_pos h).trans rfl
  · have hend : Tail.endName letters ≠ .endName script := fun hs => hscript (Tail.endName.inj hs)
    rw [nextEscape_eq_self (.endName letters) h hend nofun Nat.zero_lt_two]
    have hname (collect : GoogleString → State) (otherwise : State) :
        stepEndTagName letters c collect otherwise = some otherwise := by
      simp [stepEndTagName, hscript, halpha]
    cases escape with
    | kDoubleEscaped => simp [h, hscript]
    | _ => cases letters <;> simp [hname, halpha, hplain]

theorem step_stateOf_name (escape : HtmlCommentEscapeState) (letters : GoogleString) (h : endsName c = true)
    (hslash : letters = [] → c ≠ 47) :
    step (stateOf escape (.name letters)) c = (nextEscape escape (.name letters) c).map resume := by
  obtain ⟨halpha, hlt, hdash, hbang⟩ := endsName_facts h
  have hplain := plain_steps hlt hdash
  by_cases hscript : letters = script
  · subst hscript
    rw [nextEscape, if_pos h, if_neg nofun]
    cases escape with
    | kNone =>
      rw [if_neg fun hs => hs.1 rfl, ite_self]
      exact congrArg some hplain.1
    | kInComment => exact (if_pos h).trans rfl
    | kDoubleEscaped => exact congrArg some hplain.2.2
  · have hstart : Tail.name letters ≠ .name script := fun hs => hscript (Tail.name.inj hs)
    rw [nextEscape_eq_self (.name letters) h nofun hstart Nat.zero_lt_two]
    cases letters with
    | nil => cases escape <;> simp [hslash, hbang, halpha, hplain]
    | cons a letters => cases escape <;> simp [h, hscript, hplain]

theorem step_stateOf_dashes (escape : HtmlCommentEscapeState) (n : ℕ) (h : endsName c = true) :
    step (stateOf escape (.dashes n)) c = (nextEscape escape (.dashes n) c).map resume := by
  obtain ⟨-, hlt, hdash, -⟩ := endsName_facts h
  rw [nextEscape, if_pos h, if_neg nofun, if_neg fun hs => Tail.noConfusion hs.2]
  by_cases hgt : c = 62
  · subst hgt
    cases escape <;> rcases n with _ | _ | n <;> rfl
  · rw [if_neg fun hs => hgt hs.1]
    cases escape with
    | kNone => simp [stepScriptData, hlt]
    | kInComment =>
      rcases n with _ | _ | n <;>
        simp [stepEscaped, hlt, hdash, hgt]
    | kDoubleEscaped =>
      rcases n with _ | _ | n <;>
        simp [stepDoubleEscaped, hlt, hdash, hgt]

theorem step_stateOf_endsName (escape : HtmlCommentEscapeState) (t : Tail) (h : endsName c = true) :
    step (stateOf escape t) c = (nextEscape escape t c).map (stateOf · (t.step c)) := by
  obtain ⟨-, hlt, hdash, -⟩ := endsName_facts h
  have hplain := plain_steps hlt hdash
  by_cases hslash : t = .name [] ∧ c = 47
  · obtain ⟨rfl, rfl⟩ := hslash
    cases escape <;> rfl
  have hresume : (stateOf · (t.step c)) = resume := by
    rw [step_of_endsName h fun ht hc => hslash ⟨ht, hc⟩]
    funext escape
    cases escape <;> rfl
  rw [hresume]
  cases t with
  | name letters => exact step_stateOf_name escape letters h fun hnil hc => hslash ⟨congrArg Tail.name hnil, hc⟩
  | endName letters => exact step_stateOf_endName escape letters h
  | bang =>
    rw [nextEscape_eq_self .bang h nofun nofun Nat.zero_lt_two]
    cases escape <;> simp [hplain, hdash]
  | bangDash =>
    rw [nextEscape_eq_self .bangDash h nofun nofun Nat.one_lt_two]
    cases escape <;> simp [hplain, hlt, hdash]
  | dashes n => exact step_stateOf_dashes escape n h

theorem nextEscape_letter (escape : HtmlCommentEscapeState) (t : Tail) (h : endsName c = false) (hdash : c ≠ 45) :
    nextEscape escape t c = some escape := by
  rw [nextEscape, if_neg (by simp [h]), if_neg fun hs => hdash hs.1]

theorem step_stateOf_letter (escape : HtmlCommentEscapeState) (t : Tail) (h : endsName c = false) (hlt : c ≠ 60)
    (hdash : c ≠ 45) : step (stateOf escape t) c = some (stateOf escape (t.letter c)) := by
  have hplain := plain_steps hlt hdash
  have hslash : c ≠ 47 := by
    rintro rfl
    cases h
  have hgt : c ≠ 62 := by
    rintro rfl
    cases h
  have hname (letters : GoogleString) (collect : GoogleString → State) (otherwise : State) :
      stepEndTagName letters c collect otherwise =
        some (if isAlpha c then collect (letters ++ [lowerChar c]) else otherwise) := by
    rw [stepEndTagName, h, Bool.false_and, if_neg Bool.false_ne_true]
    cases isAlpha c <;> rfl
  cases t with
  | name letters =>
    by_cases hbang : c = 33
    · subst hbang
      cases escape <;> cases letters <;> rfl
    rw [Tail.letter, if_neg fun hs => hslash hs.2, if_neg fun hs => hbang hs.2]
    cases halpha : isAlpha c <;> cases escape <;> cases letters <;>
      simp [h, hplain, hslash, hbang, halpha]
  | endName letters =>
    rw [Tail.letter]
    cases halpha : isAlpha c <;> cases escape <;> cases letters <;>
      simp [h, hname, hplain, halpha]
  | bang =>
    cases escape <;>
      simp [Tail.letter, hplain, hdash]
  | bangDash =>
    cases escape <;>
      simp [Tail.letter, hplain, hlt, hdash]
  | dashes n =>
    cases escape <;> rcases n with _ | _ | n <;>
      simp [Tail.letter, hplain, hlt, hdash, hgt]

theorem step_stateOf (escape : HtmlCommentEscapeState) (t : Tail) (c : UInt8) :
    step (stateOf escape t) c = (nextEscape escape t c).map (stateOf · (t.step c)) := by
  by_cases hlt : c = 60
  · subst hlt
    exact step_stateOf_lessThan escape t
  by_cases hdash : c = 45
  · subst hdash
    exact step_stateOf_dash escape t
  by_cases hname : endsName c = true
  · exact step_stateOf_endsName escape t hname
  · rw [Bool.not_eq_true] at hname
    rw [nextEscape_letter escape t hname hdash, Tail.step, if_neg hlt, if_neg hdash]
    exact step_stateOf_letter escape t hname hlt hdash

example : tail (ascii "a<!--b</SCR") = .endName (ascii "scr") := by decide

/-! `EvalScriptTag` in these terms. -/

theorem canEndTag_eq (c : UInt8) : canEndTag c = endsName c := by
  simp only [canEndTag, endsName]
  grind

theorem beginScriptComment_snoc (hl : l.literal = text ++ [c]) :
    l.beginScriptComment c =
      if c = 45 ∧ l.scriptEscapeState = .kNone ∧ tail text = .bangDash then { l with scriptEscapeState := .kInComment }
      else l := by
  have hopen : c = 45 → (endsWith l.literal (ascii "<!--") = true ↔ tail text = .bangDash) := by
    rintro rfl
    rw [hl, ← endsWith_bangDash]
    exact (endsWith_snoc (ascii "<!-")).trans (and_iff_right rfl)
  rw [HtmlLexer.beginScriptComment]
  by_cases hdash : c = 45
  · simp only [hdash, true_and, hopen hdash]
  · simp [hdash]

theorem isScriptHtmlCommentClosing_snoc (hl : l.literal = text ++ [c]) :
    l.isScriptHtmlCommentClosing c = true ↔ c = 62 ∧ 2 ≤ (tail text).dashCount := by
  rw [HtmlLexer.isScriptHtmlCommentClosing, Bool.and_eq_true, decide_eq_true_eq]
  refine and_congr_right fun hgt => ?_
  rw [hl, ← endsWith_dashes, hgt]
  exact (endsWith_snoc (ascii "--")).trans (and_iff_right rfl)

def closeScript (l : HtmlLexer) : HtmlLexer :=
  { l with
    scriptEscapeState := .kNone
    token := (l.literal.drop (l.literal.length - 8 + 1)).take 6
    literal := l.literal.take (l.literal.length - 8 - 1) }.emitLiteral.emitTagClose .explicitClose

theorem evalScriptTag_snoc (hl : l.literal = text ++ [c]) :
    l.evalScriptTag c = match nextEscape l.scriptEscapeState (tail text) c with
      | some escape => { l with scriptEscapeState := escape }
      | none => (closeScript l).discardAfterCloseTag c := by
  have hempty : l.literal.isEmpty = false := by simp [hl]
  have hlast : l.literal.dropLast = text := by simp [hl]
  rw [HtmlLexer.evalScriptTag, beginScriptComment_snoc hl]
  by_cases hname : endsName c = true
  · obtain ⟨-, -, hdash, -⟩ := endsName_facts hname
    have hopen : ¬(c = 45 ∧ l.scriptEscapeState = .kNone ∧ tail text = .bangDash) := fun hs => hdash hs.1
    rw [if_neg hopen, canEndTag_eq, hname, hempty, Bool.not_false, Bool.and_self, if_pos rfl, hlast, nextEscape,
      if_pos hname]
    simp only [endsWith_endScript, endsWith_startScript, isScriptHtmlCommentClosing_snoc hl]
    split_ifs <;> rfl
  · rw [nextEscape, if_neg hname, canEndTag_eq]
    rw [Bool.not_eq_true] at hname
    rw [hname]
    simp only [Bool.false_and, Bool.false_eq_true, if_false]
    split_ifs <;> rfl

theorem script_of_lookup {name : GoogleString} (h : HtmlName.lookup name = .kScript) :
    stringCaseEqual name script = true := by
  have hall : HtmlName.kHtmlNameTable.all (fun entry => entry.2 ≠ .kScript || entry.1 == script) = true := by
    decide
  rw [HtmlName.lookup] at h
  cases hfind : HtmlName.kHtmlNameTable.find? fun entry => stringCaseEqual entry.1 name with
  | none =>
    rw [hfind] at h
    cases h
  | some entry =>
    rw [hfind] at h
    have hentry := List.all_eq_true.mp hall entry (List.mem_of_find?_eq_some hfind)
    have hname := List.find?_some hfind
    rw [Bool.or_eq_true, decide_eq_true_eq, beq_iff_eq] at hentry
    rw [hentry.resolve_left (not_not_intro h)] at hname
    rw [stringCaseEqual_iff_lower] at hname ⊢
    exact hname.symm

def passed (parent : Option ℕ) (body : GoogleString) : List HtmlCall :=
  if body = [] then [] else [.addEvent ⟨.characters, parent, body⟩]

theorem calls_emitLiteral (l : HtmlLexer) : l.emitLiteral.calls = l.calls ++ passed l.parent l.literal := by
  rw [HtmlLexer.emitLiteral, passed]
  split
  · simp
  · rfl

theorem stack_emitLiteral (l : HtmlLexer) :
    l.emitLiteral.elementStack = l.elementStack ∧ l.emitLiteral.openElementInfo = l.openElementInfo ∧
      l.emitLiteral.token = l.token := by
  rw [HtmlLexer.emitLiteral]
  split <;> exact ⟨rfl, rfl, rfl⟩

theorem calls_discardAfterCloseTag (l : HtmlLexer) (c : UInt8) : (l.discardAfterCloseTag c).calls = l.calls := by
  rw [HtmlLexer.discardAfterCloseTag]
  split_ifs <;> rfl

open HtmlLexer in
theorem calls_emitTagClose_top {element : HtmlElement} {below : List HtmlElement}
    (h : Bracketed l.tree (element :: below)) (htag : stringCaseEqual element.nameStr l.token = true)
    (hend : l.inForeignContent = false) (style : HtmlElement.Style) :
    (l.emitTagClose style).calls = l.calls ++ [.closeElement element style] := by
  have hstack : l.elementStack = some element :: (below.map some ++ [none]) := h.stack
  have hpopped : l.popElementsDownTo (below.length + 1) = (some element, l.truncateStack (below.length + 1)) := by
    rw [HtmlLexer.popElementsDownTo, hstack, HtmlLexer.closeSkipped, if_neg (by simp)]
    simp
  rw [HtmlLexer.emitTagClose, h.popElementMatchingTag_top htag fun hforeign => by simp [hend] at hforeign, hpopped]
  rfl

theorem endTag_spelling (h : tail text = .endName script) :
    8 ≤ text.length ∧ stringCaseEqual script (((text ++ [c]).drop ((text ++ [c]).length - 8 + 1)).take 6) = true := by
  have hends := endsWith_endScript.mpr h
  rw [stringCaseEndsWith, Bool.and_eq_true, decide_eq_true_eq] at hends
  obtain ⟨hlength, hequal⟩ := hends
  change 8 ≤ text.length at hlength
  refine ⟨hlength, ?_⟩
  have hspelled : ((text ++ [c]).drop ((text ++ [c]).length - 8 + 1)).take 6 =
      (text.drop (text.length - (ascii "</script").length)).drop 2 := by
    have hskip : (text ++ [c]).length - 8 + 1 = text.length - 6 := by
      rw [List.length_append, List.length_singleton]
      omega
    have hsix : (text.drop (text.length - 6)).length = 6 := by
      rw [List.length_drop]
      omega
    rw [hskip, List.drop_append_of_le_length (by omega), List.take_append_of_le_length (Nat.le_of_eq hsix.symm),
      List.take_of_length_le (Nat.le_of_eq hsix), List.drop_drop]
    congr 1
    change text.length - 6 = text.length - 8 + 2
    omega
  rw [hspelled]
  rw [stringCaseEqual_iff_lower] at hequal ⊢
  rw [List.map_drop, ← hequal]
  decide

theorem calls_closeScript (h : HtmlLexer.Sound l) (hs : l.state = .scriptTag)
    (hl : l.literal = text ++ [c]) (htail : tail text = .endName script) :
    ∃ element, l.back = some element ∧ element.keyword = .kScript ∧ (closeScript l).calls =
      l.calls ++ passed l.parent (text.take (text.length - 8)) ++ [.closeElement element .explicitClose] := by
  obtain ⟨element, hopen⟩ := h.literal (by rw [hs]; rfl)
  have hscript : element.keyword = .kScript := hopen.script.mp hs
  refine ⟨element, hopen.back, hscript, ?_⟩
  obtain ⟨opens, hb⟩ := h.bracketed
  obtain ⟨below, rfl⟩ : ∃ below, opens = element :: below := by
    have hstack : l.elementStack = opens.map some ++ [none] := hb.stack
    have hback := hopen.back
    rw [HtmlLexer.back, hstack] at hback
    cases opens with
    | nil => cases hback
    | cons e below =>
      cases hback
      exact ⟨below, rfl⟩
  obtain ⟨hlength, hspelled⟩ := endTag_spelling (c := c) htail
  have hbody : l.literal.take (l.literal.length - 8 - 1) = text.take (text.length - 8) := by
    rw [hl, List.length_append, List.length_singleton, List.take_append_of_le_length (by omega)]
    congr 1
  have hname : stringCaseEqual element.nameStr script = true := by
    refine script_of_lookup ?_
    rw [HtmlElement.keyword, hopen.name] at hscript
    exact hscript
  rw [← hl] at hspelled
  rw [stringCaseEqual_iff_lower] at hname hspelled
  rw [closeScript, hbody]
  generalize hl' : ({ l with
    scriptEscapeState := .kNone
    token := (l.literal.drop (l.literal.length - 8 + 1)).take 6
    literal := text.take (text.length - 8) } : HtmlLexer) = l'
  have hb' : HtmlLexer.Bracketed l'.tree (element :: below) := by
    rw [← hl']
    exact hb
  obtain ⟨-, hinfos, htoken⟩ := stack_emitLiteral l'
  rw [calls_emitTagClose_top hb'.emitLiteral, calls_emitLiteral]
  · rw [← hl']
    rfl
  · rw [htoken, ← hl', stringCaseEqual_iff_lower]
    exact hname.trans hspelled
  · rw [HtmlLexer.inForeignContent, HtmlLexer.currentInfo, hinfos, ← hl']
    exact decide_eq_false (not_not_intro hopen.ns)

end PageSpeed.ScriptData
