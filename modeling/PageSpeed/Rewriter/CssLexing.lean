import PageSpeed.Rewriter.CssTagScanner
import Mathlib.Data.List.TakeWhile

/-!
What the lexical routines of `CssTagScanner` answer on the start of a text, they answer on the
whole text, unless they ask for more or the white space of a payload stands too far from the end.
-/

namespace PageSpeed.CssTagScanner

open InputPortion LexResult

section Literals

theorem refused {expected a : GoogleString} (inputKind : InputPortion) (h : expected.length ≤ a.length) :
    (if inputKind = inputIncludesEnd then (no, a) else if expected.length ≤ a.length then (no, a)
      else (interrupted, a)) = (no, a) := by
  rw [if_pos h, ite_self]

theorem eatLiteral_append (inputKind : InputPortion) (expected a b : GoogleString)
    (h : (eatLiteral inputDoesNotIncludeEnd expected a).1 ≠ interrupted) :
    eatLiteral inputKind expected (a ++ b) =
      ((eatLiteral inputDoesNotIncludeEnd expected a).1, (eatLiteral inputDoesNotIncludeEnd expected a).2 ++ b) := by
  by_cases hstart : expected <+: a
  · have hstart' : expected <+: a ++ b := hstart.trans (List.prefix_append a b)
    rw [eatLiteral, eatLiteral, if_pos (List.isPrefixOf_iff_prefix.mpr hstart'),
      if_pos (List.isPrefixOf_iff_prefix.mpr hstart), List.drop_append_of_le_length hstart.length_le]
  · have hlong : expected.length ≤ a.length := by
      by_contra hshort
      rw [eatLiteral, if_neg (by rwa [List.isPrefixOf_iff_prefix]), if_neg (by decide), if_neg hshort] at h
      exact h rfl
    have hstart' : ¬expected <+: a ++ b := fun hab =>
      hstart (List.prefix_of_prefix_length_le hab (List.prefix_append a b) hlong)
    have hlong' : expected.length ≤ (a ++ b).length := by
      rw [List.length_append]
      omega
    rw [eatLiteral, if_neg (by rwa [List.isPrefixOf_iff_prefix]), refused inputKind hlong', eatLiteral,
      if_neg (by rwa [List.isPrefixOf_iff_prefix]), refused _ hlong]

theorem eatLiteralNoCase_append (inputKind : InputPortion) (expected a b : GoogleString)
    (h : (eatLiteralNoCase inputDoesNotIncludeEnd expected a).1 ≠ interrupted) :
    eatLiteralNoCase inputKind expected (a ++ b) =
      ((eatLiteralNoCase inputDoesNotIncludeEnd expected a).1,
        (eatLiteralNoCase inputDoesNotIncludeEnd expected a).2 ++ b) := by
  have hlong : expected.length ≤ a.length := by
    by_contra hshort
    have hno : stringCaseStartsWith a expected = false := by
      rw [stringCaseStartsWith, decide_eq_false hshort, Bool.false_and]
    rw [eatLiteralNoCase, hno, if_neg Bool.false_ne_true, if_neg (by decide), if_neg hshort] at h
    exact h rfl
  have hlong' : expected.length ≤ (a ++ b).length := by
    rw [List.length_append]
    omega
  have hcase : stringCaseStartsWith (a ++ b) expected = stringCaseStartsWith a expected := by
    rw [stringCaseStartsWith, stringCaseStartsWith, List.take_append_of_le_length hlong, decide_eq_true hlong,
      decide_eq_true hlong']
  rw [eatLiteralNoCase, eatLiteralNoCase, hcase, List.drop_append_of_le_length hlong]
  by_cases hstart : stringCaseStartsWith a expected = true
  · rw [if_pos hstart, if_pos hstart]
  · rw [if_neg hstart, if_neg hstart, refused inputKind hlong', refused _ hlong]

theorem eatLiteral_settled {expected a : GoogleString} (inputKind : InputPortion)
    (h : expected.length ≤ a.length) : (eatLiteral inputKind expected a).1 ≠ interrupted := by
  rw [eatLiteral, refused inputKind h]
  split_ifs <;> simp

theorem eatLiteral_suffix (inputKind : InputPortion) (expected inp : GoogleString) :
    (eatLiteral inputKind expected inp).2 <:+ inp := by
  unfold eatLiteral
  split_ifs
  · exact List.drop_suffix _ _
  all_goals exact List.suffix_refl _

theorem eatLiteralNoCase_suffix (inputKind : InputPortion) (expected inp : GoogleString) :
    (eatLiteralNoCase inputKind expected inp).2 <:+ inp := by
  unfold eatLiteralNoCase
  split_ifs
  · exact List.drop_suffix _ _
  all_goals exact List.suffix_refl _

theorem eatLiteral_end (expected inp : GoogleString) :
    (eatLiteral inputIncludesEnd expected inp).1 ≠ interrupted := by
  rw [eatLiteral, if_pos rfl]
  split_ifs <;> simp

theorem eatLiteralNoCase_end (expected inp : GoogleString) :
    (eatLiteralNoCase inputIncludesEnd expected inp).1 ≠ interrupted := by
  rw [eatLiteralNoCase, if_pos rfl]
  split_ifs <;> simp

end Literals

section WhiteSpace

theorem exists_after_space (s : GoogleString) :
    (∀ c ∈ s, isHtmlSpace c = true) ∨
      ∃ space ahead tail, s = space ++ ahead :: tail ∧ (∀ c ∈ space, isHtmlSpace c = true) ∧
        isHtmlSpace ahead = false := by
  induction s with
  | nil => exact .inl (by simp)
  | cons c s ih =>
    cases hc : isHtmlSpace c with
    | false => exact .inr ⟨[], c, s, rfl, by simp, hc⟩
    | true =>
      obtain hall | ⟨space, ahead, tail, rfl, hspace, hahead⟩ := ih
      · exact .inl (List.forall_mem_cons.mpr ⟨hc, hall⟩)
      · exact .inr ⟨c :: space, ahead, tail, rfl, List.forall_mem_cons.mpr ⟨hc, hspace⟩, hahead⟩

theorem trimLeadingWhitespace_append {a : GoogleString} (b : GoogleString) (h : trimLeadingWhitespace a ≠ []) :
    trimLeadingWhitespace (a ++ b) = trimLeadingWhitespace a ++ b := by
  rw [trimLeadingWhitespace, trimLeadingWhitespace, List.dropWhile_append, if_neg]
  simpa [trimLeadingWhitespace] using h

variable {space : GoogleString}

theorem trimWhitespace_append_space (out : GoogleString)
    (h : ∀ c ∈ space, isHtmlSpace c = true) : trimWhitespace (out ++ space) = trimWhitespace out := by
  have htrailing : ∀ s : GoogleString, trimTrailingWhitespace (s ++ space) = trimTrailingWhitespace s := by
    intro s
    rw [trimTrailingWhitespace, trimTrailingWhitespace, List.reverse_append,
      List.dropWhile_append_of_pos (by simpa using h)]
  rw [trimWhitespace, trimWhitespace, trimLeadingWhitespace, trimLeadingWhitespace, List.dropWhile_append]
  split_ifs with hout
  · rw [List.isEmpty_iff.mp hout]
    exact congrArg trimTrailingWhitespace (List.dropWhile_eq_nil_iff.mpr h)
  · exact htrailing _

theorem toInt32_le (n : ℕ) : toInt32 n ≤ n := by
  rw [toInt32, Int.bmod_def]
  split_ifs <;> omega

theorem lookAhead_within {n : ℤ} (term : UInt8) (after : GoogleString)
    (h : ∀ c ∈ space, isHtmlSpace c = true) (hn : n ≤ space.length) :
    ∃ k, lookAhead n term (space ++ after) = some ([], space.drop k ++ after) := by
  have htake : (space ++ after).take n.toNat = space.take n.toNat := List.take_append_of_le_length (by omega)
  have hall : (space.take n.toNat).takeWhile isHtmlSpace = space.take n.toNat :=
    List.takeWhile_eq_self_iff.mpr fun c hc => h c (List.mem_of_mem_take hc)
  have hend : (space.take n.toNat)[(space.take n.toNat).length]? = none := List.getElem?_eq_none (Nat.le_refl _)
  simp only [lookAhead, htake, hall, hend]
  split_ifs
  · exact ⟨n.toNat, by rw [List.drop_append_of_le_length (by omega)]⟩
  · exact ⟨0, rfl⟩

theorem lookAhead_past {n : ℤ} {ahead : UInt8} (term : UInt8) (tail : GoogleString)
    (h : ∀ c ∈ space, isHtmlSpace c = true) (hahead : isHtmlSpace ahead = false) (hn : space.length < n) :
    lookAhead n term (space ++ ahead :: tail) =
      if ahead = term then some (space, ahead :: tail) else none := by
  obtain ⟨m, hm⟩ : ∃ m, n.toNat = space.length + (m + 1) := ⟨n.toNat - space.length - 1, by omega⟩
  have htake : (space ++ ahead :: tail).take n.toNat = space ++ ahead :: tail.take m := by
    rw [hm, List.take_length_add_append, List.take_succ_cons]
  have hwhile : (space ++ ahead :: tail.take m).takeWhile isHtmlSpace = space := by
    rw [List.takeWhile_append_of_pos h, List.takeWhile_cons_of_neg (by simp [hahead]), List.append_nil]
  simp only [lookAhead, htake, hwhile]
  simp

theorem lookAhead_suffix {n : ℤ} {term : UInt8} {inp rest : GoogleString}
    (h : lookAhead n term inp = some (space, rest)) : rest <:+ inp := by
  simp only [lookAhead] at h
  split at h
  · split_ifs at h
    cases h
    exact List.drop_suffix _ _
  · cases h
    split_ifs
    · exact List.drop_suffix _ _
    · exact List.suffix_refl _

end WhiteSpace

section Payloads

/-- The payload of an unquoted URL comes to white space that leads to another byte than the closing
parenthesis, with as many bytes after it as an `int` cannot count. That byte is not the last one. -/
def farSpace : GoogleString → Bool
  | [] => false
  | c :: inp =>
    if c = 41 then false
    else if c = 92 then
      match inp with
      | escapeVal :: inp => isSimpleEscape escapeVal && farSpace inp
      | [] => false
    else if isHtmlSpace c then
      match inp.dropWhile isHtmlSpace with
      | ahead :: tail => decide (ahead ≠ 41) && !tail.isEmpty && decide (2 ^ 31 ≤ inp.length)
      | [] => false
    else farSpace inp

variable {c : UInt8} {space : GoogleString}

theorem space_ne (h : isHtmlSpace c = true) : c ≠ 41 ∧ c ≠ 92 := by
  constructor <;> rintro rfl <;> revert h <;> decide

theorem farSpace_escape {escapeVal : UInt8} (inp : GoogleString) (h : isSimpleEscape escapeVal = true) :
    farSpace (92 :: escapeVal :: inp) = farSpace inp := by
  rw [farSpace, if_neg (by decide), if_pos rfl, h, Bool.true_and]

theorem farSpace_other (inp : GoogleString) (hterm : c ≠ 41) (hescape : c ≠ 92)
    (hspace : isHtmlSpace c = false) : farSpace (c :: inp) = farSpace inp := by
  rw [farSpace.eq_def]
  simp only [if_neg hterm, if_neg hescape, hspace, Bool.false_eq_true, if_false]

theorem near_of_farSpace {ahead : UInt8} {tail : GoogleString} (hc : isHtmlSpace c = true)
    (hspace : ∀ c ∈ space, isHtmlSpace c = true) (hahead : isHtmlSpace ahead = false) (hterm : ahead ≠ 41)
    (h : farSpace (c :: (space ++ ahead :: tail)) = false) :
    tail = [] ∨ (space ++ ahead :: tail).length < 2 ^ 31 := by
  have hdrop : (space ++ ahead :: tail).dropWhile isHtmlSpace = ahead :: tail := by
    rw [List.dropWhile_append_of_pos hspace, List.dropWhile_cons_of_neg (by simp [hahead])]
  rw [farSpace.eq_def] at h
  simp only [if_neg (space_ne hc).1, if_neg (space_ne hc).2, hc, if_true, hdrop] at h
  by_cases htail : tail = []
  · exact .inl htail
  · refine .inr (Nat.lt_of_not_le fun hlong => ?_)
    simp [hterm, htail] at h
    simp at hlong
    omega

variable {int : ℕ → ℤ}

theorem extractLoop_cons (isString : Bool) (inputKind : InputPortion) (term : UInt8) (originalInput : GoogleString)
    (turns : ℕ) (c : UInt8) (inp out : GoogleString) :
    extractLoop int isString inputKind term originalInput (turns + 1) (c :: inp) out =
      if c = term then ⟨yes, inp, out, true⟩
      else if c = 92 then
        match inp with
        | escapeVal :: inp =>
          if isSimpleEscape escapeVal then
            extractLoop int isString inputKind term originalInput turns inp (out ++ [escapeVal])
          else if isNewline escapeVal ∧ isString then
            extractLoop int isString inputKind term originalInput turns
              (if escapeVal = 13 then (eatLiteral inputKind [10] inp).2 else inp) out
          else ⟨no, inp, out, false⟩
        | [] =>
          match inputKind with
          | inputIncludesEnd => ⟨no, [], out, false⟩
          | inputDoesNotIncludeEnd => ⟨interrupted, originalInput, out, false⟩
      else if !isString && isHtmlSpace c then
        match lookAhead (int inp.length) term inp with
        | some (space, rest) => extractLoop int isString inputKind term originalInput turns rest (out ++ space)
        | none => ⟨yes, c :: inp, out, false⟩
      else if isNewline c then unclosed inputKind originalInput (c :: inp) out
      else extractLoop int isString inputKind term originalInput turns inp (out ++ [c]) :=
  rfl

theorem extractLoop_nil (isString : Bool) (inputKind : InputPortion) (term : UInt8)
    (originalInput out : GoogleString) (turns : ℕ) :
    extractLoop int isString inputKind term originalInput turns [] out = unclosed inputKind originalInput [] out := by
  cases turns <;> rfl

theorem extractLoop_space (inputKind : InputPortion) (originalInput : GoogleString) (turns : ℕ)
    (inp out : GoogleString) (hc : isHtmlSpace c = true) :
    extractLoop int false inputKind 41 originalInput (turns + 1) (c :: inp) out =
      match lookAhead (int inp.length) 41 inp with
      | some (space, rest) => extractLoop int false inputKind 41 originalInput turns rest (out ++ space)
      | none => ⟨yes, c :: inp, out, false⟩ := by
  rw [extractLoop_cons, if_neg (space_ne hc).1, if_neg (space_ne hc).2, hc]
  rfl

theorem extractLoop_spaces (hint : ∀ n, int n ≤ n) (inputKind : InputPortion)
    (originalInput out : GoogleString) (turns : ℕ) (h : ∀ c ∈ space, isHtmlSpace c = true)
    (hturns : space.length ≤ turns) :
    extractLoop int false inputKind 41 originalInput turns space out = unclosed inputKind originalInput [] out := by
  induction turns generalizing space with
  | zero =>
    rw [List.length_eq_zero_iff.mp (Nat.le_zero.mp hturns)]
    rfl
  | succ turns ih =>
    cases space with
    | nil => rfl
    | cons c space =>
      obtain ⟨hc, hspace⟩ := List.forall_mem_cons.mp h
      obtain ⟨k, hk⟩ := lookAhead_within 41 [] hspace (hint space.length)
      rw [List.append_nil, List.append_nil] at hk
      rw [extractLoop_space _ _ _ _ _ hc, hk]
      simp only [List.append_nil]
      apply ih
      · exact fun c hc => hspace c (List.mem_of_mem_drop hc)
      · rw [List.length_cons] at hturns
        rw [List.length_drop]
        omega

variable (int) in
theorem extractLoop_term (inputKind : InputPortion) (originalInput tail out : GoogleString)
    (turns : ℕ) (h : ∀ c ∈ space, isHtmlSpace c = true) (hturns : space.length < turns) :
    ∃ added, (∀ c ∈ added, isHtmlSpace c = true) ∧
      extractLoop int false inputKind 41 originalInput turns (space ++ 41 :: tail) out =
        ⟨yes, tail, out ++ added, true⟩ := by
  induction turns generalizing space out with
  | zero => contradiction
  | succ turns ih =>
    cases space with
    | nil =>
      refine ⟨[], by simp, ?_⟩
      rw [List.nil_append, extractLoop_cons, if_pos rfl, List.append_nil]
    | cons c space =>
      obtain ⟨hc, hspace⟩ := List.forall_mem_cons.mp h
      rw [List.length_cons] at hturns
      rw [List.cons_append, extractLoop_space _ _ _ _ _ hc]
      rcases lt_or_ge (space.length : ℤ) (int (space ++ 41 :: tail).length) with hn | hn
      · rw [lookAhead_past 41 tail hspace (by decide) hn, if_pos rfl]
        obtain ⟨added, hadded, heq⟩ := @ih [] (out ++ space) (by simp) (by simp; omega)
        refine ⟨space ++ added, List.forall_mem_append.mpr ⟨hspace, hadded⟩, ?_⟩
        rw [← List.append_assoc]
        exact heq
      · obtain ⟨k, hk⟩ := lookAhead_within 41 (41 :: tail) hspace hn
        rw [hk]
        simp only [List.append_nil]
        apply ih
        · exact fun c hc => hspace c (List.mem_of_mem_drop hc)
        · rw [List.length_drop]
          omega

structure Extends (isString : Bool) (b : GoogleString) (r r' : Extraction) : Prop where
  result : r'.result = r.result
  rest : r'.rest = r.rest ++ b
  term : r'.foundTerm = r.foundTerm
  string : isString = true → r'.out = r.out
  payload : trimWhitespace r'.out = trimWhitespace r.out

section Settled

variable (hle : ∀ n, int n ≤ n) (hexact : ∀ n < 2 ^ 31, int n = n)

include hle hexact in
theorem extractLoop_append_space {original original' : GoogleString} {c : UInt8} {a b out : GoogleString}
    {turns turns' : ℕ} (hc : isHtmlSpace c = true) (hturns : a.length ≤ turns)
    (hturns' : (a ++ b).length ≤ turns') (hb : b ≠ []) (hnear : farSpace (c :: (a ++ b)) = false)
    (h : (extractLoop int false inputDoesNotIncludeEnd 41 original (turns + 1) (c :: a) out).result ≠ interrupted) :
    Extends false b (extractLoop int false inputDoesNotIncludeEnd 41 original (turns + 1) (c :: a) out)
      (extractLoop int false inputIncludesEnd 41 original' (turns' + 1) (c :: (a ++ b)) out) := by
  obtain hall | ⟨space, ahead, tail, rfl, hspace, hahead⟩ := exists_after_space a
  · rw [extractLoop_spaces hle _ _ _ _ (List.forall_mem_cons.mpr ⟨hc, hall⟩) (Nat.succ_le_succ hturns)] at h
    exact absurd rfl h
  rw [List.append_assoc, List.cons_append] at hturns' hnear ⊢
  by_cases hterm : ahead = 41
  · subst hterm
    have hcs : ∀ x ∈ c :: space, isHtmlSpace x = true := List.forall_mem_cons.mpr ⟨hc, hspace⟩
    obtain ⟨added, hadded, heq⟩ := extractLoop_term int inputDoesNotIncludeEnd original tail out
      (turns + 1) hcs (by simp at hturns ⊢; omega)
    obtain ⟨added', hadded', heq'⟩ := extractLoop_term int inputIncludesEnd original' (tail ++ b) out
      (turns' + 1) hcs (by simp at hturns' ⊢; omega)
    rw [List.cons_append] at heq heq'
    rw [heq, heq']
    refine ⟨rfl, rfl, rfl, fun hfalse => absurd hfalse Bool.false_ne_true, ?_⟩
    exact (trimWhitespace_append_space out hadded').trans (trimWhitespace_append_space out hadded).symm
  · have hshort : (space ++ ahead :: (tail ++ b)).length < 2 ^ 31 := by
      obtain hnil | hshort := near_of_farSpace hc hspace hahead hterm hnear
      · exact absurd (List.append_eq_nil_iff.mp hnil).2 hb
      · exact hshort
    have hpast : ∀ s : GoogleString, (space ++ ahead :: s).length < 2 ^ 31 →
        lookAhead (int (space ++ ahead :: s).length) 41 (space ++ ahead :: s) = none := by
      intro s hs
      rw [lookAhead_past 41 s hspace hahead, if_neg hterm]
      rw [hexact _ hs]
      simp
    have hshort' : (space ++ ahead :: tail).length < 2 ^ 31 := by
      simp at hshort ⊢
      omega
    rw [extractLoop_space _ _ _ _ _ hc, extractLoop_space _ _ _ _ _ hc, hpast _ hshort, hpast _ hshort']
    exact ⟨rfl, by simp, rfl, fun _ => rfl, rfl⟩

include hle hexact in
theorem extractLoop_append {isString : Bool} {term : UInt8} {original original' a b out : GoogleString}
    {turns turns' : ℕ} (hturns : a.length ≤ turns) (hturns' : (a ++ b).length ≤ turns')
    (hnear : isString = false → term = 41 ∧ (b = [] ∨ farSpace (a ++ b) = false))
    (h : (extractLoop int isString inputDoesNotIncludeEnd term original turns a out).result ≠ interrupted) :
    Extends isString b (extractLoop int isString inputDoesNotIncludeEnd term original turns a out)
      (extractLoop int isString inputIncludesEnd term original' turns' (a ++ b) out) := by
  induction turns generalizing a out turns' with
  | zero =>
    rw [List.length_eq_zero_iff.mp (Nat.le_zero.mp hturns)] at h
    exact absurd rfl h
  | succ turns ih =>
    cases a with
    | nil => exact absurd rfl h
    | cons c a =>
      obtain ⟨turns', rfl⟩ : ∃ n, turns' = n + 1 := ⟨turns' - 1, by simp at hturns'; omega⟩
      simp only [List.length_cons, List.cons_append] at hturns hturns' hnear
      have hturns := Nat.le_of_succ_le_succ hturns
      have hturns' := Nat.le_of_succ_le_succ hturns'
      rw [List.cons_append]
      by_cases hterm : c = term
      · rw [extractLoop_cons, extractLoop_cons, if_pos hterm, if_pos hterm]
        exact ⟨rfl, rfl, rfl, fun _ => rfl, rfl⟩
      by_cases hescape : c = 92
      · subst hescape
        rw [extractLoop_cons, if_neg hterm, if_pos rfl] at h ⊢
        rw [extractLoop_cons, if_neg hterm, if_pos rfl]
        cases a with
        | nil => exact absurd rfl h
        | cons escapeVal a =>
          simp only [List.length_cons, List.cons_append] at hturns hturns' hnear h ⊢
          by_cases hsimple : isSimpleEscape escapeVal = true
          · rw [if_pos hsimple] at h ⊢
            rw [if_pos hsimple]
            refine ih (by omega) (by omega) (fun hstring => ?_) h
            rw [← farSpace_escape _ hsimple]
            exact hnear hstring
          · rw [if_neg hsimple] at h ⊢
            rw [if_neg hsimple]
            by_cases hline : isNewline escapeVal = true ∧ isString = true
            · rw [if_pos hline] at h ⊢
              rw [if_pos hline]
              have hstring : isString ≠ false := by simp [hline.2]
              by_cases hcr : escapeVal = 13
              · rw [if_pos hcr] at h ⊢
                rw [if_pos hcr]
                cases a with
                | nil =>
                  rw [show (eatLiteral inputDoesNotIncludeEnd [10] []).2 = [] from rfl, extractLoop_nil] at h
                  exact absurd rfl h
                | cons c a =>
                  have hsuffix := (eatLiteral_suffix inputDoesNotIncludeEnd [10] (c :: a)).length_le
                  rw [eatLiteral_append _ _ _ b (eatLiteral_settled _ (by simp))]
                  simp only [List.length_append] at hturns'
                  exact ih (by omega) (by rw [List.length_append]; omega) (fun hfalse => absurd hfalse hstring) h
              · rw [if_neg hcr] at h ⊢
                rw [if_neg hcr]
                exact ih (by omega) (by omega) (fun hfalse => absurd hfalse hstring) h
            · rw [if_neg hline, if_neg hline]
              exact ⟨rfl, rfl, rfl, fun _ => rfl, rfl⟩
      by_cases hspace : (!isString && isHtmlSpace c) = true
      · obtain ⟨hstring, hc⟩ := Bool.and_eq_true_iff.mp hspace
        rw [Bool.not_eq_true'] at hstring
        subst hstring
        obtain ⟨rfl, hfar⟩ := hnear rfl
        by_cases hb : b = []
        · subst hb
          rw [extractLoop_space _ _ _ _ _ hc] at h ⊢
          rw [List.append_nil, extractLoop_space _ _ _ _ _ hc]
          cases hahead : lookAhead (int a.length) 41 a with
          | none => exact ⟨rfl, (List.append_nil _).symm, rfl, fun _ => rfl, rfl⟩
          | some p =>
            obtain ⟨space, rest⟩ := p
            rw [hahead] at h
            have hrest := (lookAhead_suffix hahead).length_le
            simp only [List.append_nil] at hturns'
            have hext := @ih rest (out ++ space) turns' (by omega) (by rw [List.append_nil]; omega)
              (fun _ => ⟨rfl, .inl rfl⟩) h
            rwa [List.append_nil] at hext
        · exact extractLoop_append_space hle hexact hc hturns hturns' hb (hfar.resolve_left hb) h
      rw [extractLoop_cons, if_neg hterm, if_neg hescape, if_neg hspace] at h ⊢
      rw [extractLoop_cons, if_neg hterm, if_neg hescape, if_neg hspace]
      by_cases hnewline : isNewline c = true
      · rw [if_pos hnewline] at h
        exact absurd rfl h
      · rw [if_neg hnewline] at h ⊢
        rw [if_neg hnewline]
        refine ih hturns hturns' (fun hstring => ?_) h
        obtain ⟨rfl, hfar⟩ := hnear hstring
        rw [hstring, Bool.not_false, Bool.true_and, Bool.not_eq_true] at hspace
        rw [farSpace_other _ hterm hescape hspace] at hfar
        exact ⟨rfl, hfar⟩

end Settled

end Payloads

end PageSpeed.CssTagScanner
