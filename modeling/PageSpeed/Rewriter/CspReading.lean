import PageSpeed.Rewriter.Csp
import PageSpeed.Lib.Words

/-!
What a policy says depends on its tokens, as long as a space stands between the expressions of a
list. The path of an expression is matched as the standard has it, but for where slashes stand
alone.
-/

namespace PageSpeed.Csp

open Words

theorem trimCspWhitespace_eq (s : GoogleString) : trimCspWhitespace s = trim isOws s := rfl

theorem split_eq_words {s : GoogleString} (separator : UInt8) (hlt : s.length < 2 ^ 31) :
    splitStringPieceToVector s [separator] true = words (· == separator) s := by
  rw [split_eq_splitOn separator true hlt, List.splitOn_eq_splitOnP, words]
  rfl

/-! Source lists. -/

def Spaced (list : GoogleString) : Prop :=
  ∀ a x run y b, list = a ++ x :: (run ++ y :: b) → isOws x = false → isOws y = false →
    (∀ c ∈ run, isOws c = true) → run ≠ [] → 32 ∈ run

variable {list path text : GoogleString} {url : GoogleUrl} {data : UrlData}

theorem Spaced.part_of {a part b : GoogleString} (h : Spaced list) (hlist : list = a ++ part ++ b) : Spaced part := by
  rintro front x run y back rfl
  refine h (a ++ front) x run y (back ++ b) ?_
  rw [hlist]
  simp

def ofWords (u : UrlLib) (ws : List GoogleString) : CspSourceList :=
  ws.foldl (fun result word => result.see (CspSourceExpression.parse u word)) {}

theorem see_unknown (result : CspSourceList) {expr : CspSourceExpression} (h : expr.kind = .kUnknown) :
    result.see expr = result := by
  rw [CspSourceList.see, h]

theorem upperChar_eq_quote {c : UInt8} (h : upperChar c = 39) : c = 39 := by
  unfold upperChar at h
  grind

theorem kind_none (u : UrlLib) {token : GoogleString} (h : stringCaseEqual token (ascii "'none'") = true) :
    (CspSourceExpression.parse u (trimCspWhitespace token)).kind = .kUnknown := by
  rw [stringCaseEqual, beq_iff_eq] at h
  obtain ⟨c, inner, d, rfl, hlength⟩ : ∃ c inner d, token = c :: (inner ++ [d]) ∧ inner.length = 4 := by
    have hlength : token.length = 6 := by
      have hmap := congrArg List.length h
      rw [List.length_map] at hmap
      exact hmap
    obtain ⟨c, rest, rfl⟩ := List.exists_cons_of_length_eq_add_one hlength
    obtain rfl | ⟨inner, d, rfl⟩ := rest.eq_nil_or_concat'
    · cases hlength
    · refine ⟨c, inner, d, rfl, ?_⟩
      rw [List.length_cons, List.length_append, List.length_singleton] at hlength
      omega
  rw [List.map_cons, List.map_append, List.map_singleton] at h
  have hquoted : (ascii "'none'").map upperChar = 39 :: ((ascii "none").map upperChar ++ [39]) := by decide
  rw [hquoted] at h
  obtain ⟨hc, hrest⟩ := List.cons.inj h
  obtain ⟨hinner, hd⟩ := List.append_inj' hrest rfl
  obtain rfl := upperChar_eq_quote hc
  obtain rfl := upperChar_eq_quote (List.singleton_inj.mp hd)
  have htrim : trimCspWhitespace (39 :: (inner ++ [39])) = 39 :: (inner ++ [39]) := by
    rw [trimCspWhitespace, trimOws, List.dropWhile_cons_of_neg (by decide), List.reverse_cons, List.reverse_append,
      List.reverse_singleton, List.singleton_append, List.cons_append, List.dropWhile_cons_of_neg (by decide)]
    simp
  have hcase : ∀ word, (ascii "none").map upperChar ≠ word.map upperChar → stringCaseEqual inner word = false := by
    intro word hne
    rw [stringCaseEqual, hinner]
    exact beq_false_of_ne hne
  have hstart : ∀ start : GoogleString, 4 < start.length → stringCaseStartsWith inner start = false := by
    intro start hlong
    rw [stringCaseStartsWith, hlength, decide_eq_false (Nat.not_le.mpr hlong)]
    rfl
  have hkind : CspSourceExpression.parseQuoted inner = .kUnknown := by
    rw [CspSourceExpression.parseQuoted, hcase _ (by decide), hcase _ (by decide), hcase _ (by decide),
      hcase _ (by decide), hcase _ (by decide), hstart _ (by decide), hstart _ (by decide), hstart _ (by decide),
      hstart _ (by decide)]
    rfl
  rw [CspSourceExpression.parse, htrim, htrim]
  dsimp only
  rw [if_neg (List.cons_ne_nil _ _), if_pos]
  · rw [List.drop_one, List.tail_cons, List.dropLast_concat]
    exact hkind
  · refine ⟨?_, rfl, ?_⟩
    · rw [List.length_cons, List.length_append, List.length_singleton]
      omega
    · rw [← List.cons_append]
      exact List.getLast?_concat

theorem parse_list (u : UrlLib) (hspaced : Spaced list) (hlt : list.length < 2 ^ 31) :
    CspSourceList.parse u list = ofWords u (words isOws list) := by
  obtain ⟨front, back, hlist, -, -⟩ := exists_trim isOws list
  have hle : (trim isOws list).length ≤ list.length := by
    conv_rhs => rw [hlist]
    rw [List.length_append, List.length_append]
    omega
  have hsplit := split_eq_words (s := trimCspWhitespace list) 32 (Nat.lt_of_le_of_lt hle hlt)
  -- The check for a lone `'none'` makes no difference.
  have hfold : CspSourceList.parse u list = (words (· == 32) (trim isOws list)).foldl
      (fun result token => result.see (CspSourceExpression.parse u (trimCspWhitespace token))) {} := by
    rw [CspSourceList.parse]
    have hspace : ascii " " = [32] := rfl
    rw [hspace, hsplit, trimCspWhitespace_eq]
    split_ifs with hnone
    · obtain ⟨token, htoken⟩ := List.length_eq_one_iff.mp hnone.1
      rw [htoken] at hnone ⊢
      exact (see_unknown {} (kind_none u hnone.2)).symm
    · rfl
  have hrefine := words_refine (p := (· == (32 : UInt8))) (q := isOws)
    (fun c hc => by rw [eq_of_beq hc]; rfl) (trim isOws list)
  rw [hfold, ofWords, ← words_trim (p := isOws) list, hrefine, List.foldl_flatMap]
  refine List.foldl_ext _ _ _ fun result token htoken => ?_
  have hword : words isOws token = if trim isOws token = [] then [] else [trim isOws token] := by
    obtain ⟨-, hfree⟩ := mem_words_free htoken
    obtain ⟨before, after, htokens⟩ := mem_words_infix htoken
    refine words_of_joined fun a x run y b hsplit hx hy hrun => ?_
    by_contra hne
    have hspace := ((hspaced.part_of hlist).part_of htokens) a x run y b hsplit hx hy hrun hne
    have hmem : (32 : UInt8) ∈ token := by
      rw [hsplit]
      simp [hspace]
    exact absurd (hfree 32 hmem) (by decide)
  rw [hword, trimCspWhitespace_eq]
  split_ifs with hnil
  · rw [hnil]
    exact see_unknown result rfl
  · rfl

/-! Policies. -/

def layout (text : GoogleString) : List (List GoogleString) := (text.splitOn 59).map (words isOws)

def sourceText (directive : GoogleString) : GoogleString := (trim isOws directive).dropWhile (!isOws ·)

def directiveOf (directive : GoogleString) : Option CspDirective :=
  lookupCspDirective ((trim isOws directive).takeWhile (!isOws ·))

/-- The lists that are read are spaced: those of the directives that are known, each where it stands first. -/
def WellSpaced (text : GoogleString) : Prop :=
  ∀ earlier directive later, text.splitOn 59 = earlier ++ directive :: later → (directiveOf directive).isSome = true →
    (∀ other ∈ earlier, directiveOf other ≠ directiveOf directive) → Spaced (sourceText directive)

def addWords (u : UrlLib) (policy : CspPolicy) (ws : List GoogleString) : CspPolicy :=
  policy.setIfAbsent (ws.headD []) (ofWords u ws.tail)

theorem setIfAbsent_unknown (policy : CspPolicy) {name : GoogleString} (h : lookupCspDirective name = none)
    (list : CspSourceList) : policy.setIfAbsent name list = policy := by
  rw [CspPolicy.setIfAbsent, h]

theorem setIfAbsent_set {policy : CspPolicy} {name : GoogleString} {known : CspDirective}
    (h : lookupCspDirective name = some known) (hset : (policy.sourceListFor known).isSome = true) (list : CspSourceList) :
    policy.setIfAbsent name list = policy := by
  rw [CspPolicy.setIfAbsent, h]
  exact if_pos hset

theorem addWords_isSome (u : UrlLib) (policy : CspPolicy) (ws : List GoogleString) {known : CspDirective}
    (h : (policy.sourceListFor known).isSome = true ∨ lookupCspDirective (ws.headD []) = some known) :
    ((addWords u policy ws).sourceListFor known).isSome = true := by
  rw [addWords, CspPolicy.setIfAbsent]
  split
  · next hnone => exact h.resolve_right (by rw [hnone]; nofun)
  · next directive hdirective =>
    rw [hdirective, Option.some_inj] at h
    split_ifs with hset
    · exact h.elim (fun hknown => hknown) fun heq => heq ▸ hset
    · dsimp only
      rw [Function.update_apply]
      split_ifs with heq
      · rfl
      · exact h.resolve_right fun h => heq h.symm

theorem addDirective_congr (u : UrlLib) (policy : CspPolicy) {a b : GoogleString} (h : trim isOws a = trim isOws b) :
    CspPolicy.addDirective u policy a = CspPolicy.addDirective u policy b := by
  rw [CspPolicy.addDirective, CspPolicy.addDirective, trimCspWhitespace_eq, trimCspWhitespace_eq, h]

theorem addDirective_eq (u : UrlLib) (policy : CspPolicy) {directive : GoogleString} (hlt : directive.length < 2 ^ 31)
    (hspaced : ∀ known, directiveOf directive = some known → (policy.sourceListFor known).isSome = false →
      Spaced (sourceText directive)) :
    CspPolicy.addDirective u policy directive = addWords u policy (words isOws directive) ∧
      directiveOf directive = lookupCspDirective ((words isOws directive).headD []) := by
  have hle : (trim isOws directive).length ≤ directive.length := by
    obtain ⟨front, back, hdirective, -, -⟩ := exists_trim isOws directive
    conv_rhs => rw [hdirective]
    rw [List.length_append, List.length_append]
    omega
  have hname : ∀ c ∈ (trim isOws directive).takeWhile (!isOws ·), isOws c = false := fun c hc => by
    simpa using List.mem_takeWhile_imp hc
  rw [CspPolicy.addDirective, addWords, ← words_trim, trimCspWhitespace_eq, directiveOf]
  rw [directiveOf, sourceText] at hspaced
  generalize hname' : (trim isOws directive).takeWhile (!isOws ·) = name at hname hspaced ⊢
  have hsplit := List.takeWhile_append_dropWhile (p := (!isOws ·)) (l := trim isOws directive)
  rw [hname'] at hsplit
  cases hrest : (trim isOws directive).dropWhile (!isOws ·) with
  | nil =>
    rw [hrest, List.append_nil] at hsplit
    rw [← hsplit, if_neg (Nat.lt_irrefl _)]
    by_cases hnil : name = []
    · rw [hnil, words_nil]
      exact ⟨rfl, rfl⟩
    · rw [words_of_free hname hnil]
      exact ⟨rfl, rfl⟩
  | cons c rest =>
    have hc : isOws c = true := by
      have hstop := List.head?_dropWhile_not (!isOws ·) (trim isOws directive)
      rw [hrest] at hstop
      simpa using hstop
    rw [hrest] at hsplit hspaced
    have hdrop : (trim isOws directive).drop (name.length + 1) = rest := by
      rw [← hsplit, ← List.drop_drop, List.drop_left]
      rfl
    have hne : name ≠ [] := by
      rintro rfl
      have hhead := trim_head isOws hsplit.symm
      rw [hc] at hhead
      cases hhead
    have hwords : words isOws (trim isOws directive) = name :: words isOws rest := by
      rw [← hsplit, words_append_cons hc, words_of_free hname hne]
      rfl
    have hlonger : name.length < (trim isOws directive).length := by
      rw [← hsplit, List.length_append, List.length_cons]
      omega
    rw [if_pos hlonger, hdrop, hwords, List.headD_cons, List.tail_cons]
    refine ⟨?_, rfl⟩
    cases hlookup : lookupCspDirective name with
    | none => rw [setIfAbsent_unknown _ hlookup, setIfAbsent_unknown _ hlookup]
    | some known =>
      cases hset : (policy.sourceListFor known).isSome with
      | true => rw [setIfAbsent_set hlookup hset, setIfAbsent_set hlookup hset]
      | false =>
        have hrest' : Spaced rest := by
          refine (hspaced known hlookup hset).part_of (a := [c]) (b := []) ?_
          rw [List.append_nil]
          rfl
        rw [parse_list u hrest' ?_]
        have hlength := congrArg List.length hsplit
        rw [List.length_append, List.length_cons] at hlength
        omega

theorem addDirective_nil (u : UrlLib) (policy : CspPolicy) : CspPolicy.addDirective u policy [] = policy :=
  @setIfAbsent_unknown policy [] (by decide) {}

def policyOf (u : UrlLib) (text : GoogleString) : CspPolicy :=
  (text.splitOn 59).foldl (CspPolicy.addDirective u) CspPolicy.empty

theorem foldl_words (u : UrlLib) (parts : List GoogleString) (policy : CspPolicy) :
    (parts.filter fun w => !w.isEmpty).foldl (CspPolicy.addDirective u) policy =
      parts.foldl (CspPolicy.addDirective u) policy := by
  induction parts generalizing policy with
  | nil => rfl
  | cons part parts ih =>
    cases part with
    | nil => rw [List.filter_cons_of_neg (by simp), ih, List.foldl_cons, addDirective_nil]
    | cons c part => rw [List.filter_cons_of_pos rfl, List.foldl_cons, List.foldl_cons, ih]

theorem foldl_trim (u : UrlLib) (parts : List GoogleString) (policy : CspPolicy) :
    (parts.map (trim isOws)).foldl (CspPolicy.addDirective u) policy =
      parts.foldl (CspPolicy.addDirective u) policy := by
  rw [List.foldl_map]
  exact List.foldl_ext _ _ _ fun policy part _ => addDirective_congr u policy (trim_trim part)

theorem foldl_tokens (u : UrlLib) (text : GoogleString) :
    (words (· == 59) (trim isOws text)).foldl (CspPolicy.addDirective u) CspPolicy.empty = policyOf u text := by
  have hqp : ∀ c : UInt8, isOws c = true → (c == 59) = false := by
    intro c hc
    by_contra hsemicolon
    rw [Bool.not_eq_false, beq_iff_eq] at hsemicolon
    rw [hsemicolon] at hc
    exact absurd hc (by decide)
  rw [words, foldl_words, ← foldl_trim, map_trim_splitOnP hqp, foldl_trim, policyOf, List.splitOn_eq_splitOnP]

theorem parse_eq (u : UrlLib) (hlt : text.length < 2 ^ 31) :
    CspPolicy.parse u text = some (policyOf u text) ∨
      CspPolicy.parse u text = none ∧ policyOf u text = CspPolicy.empty := by
  have hle : (trim isOws text).length ≤ text.length := by
    obtain ⟨front, back, htext, -, -⟩ := exists_trim isOws text
    conv_rhs => rw [htext]
    rw [List.length_append, List.length_append]
    omega
  have hsplit := split_eq_words (s := trim isOws text) 59 (Nat.lt_of_le_of_lt hle hlt)
  have hsemicolon : ascii ";" = [59] := rfl
  rw [CspPolicy.parse, trimCspWhitespace_eq, hsemicolon, hsplit, ← foldl_tokens]
  split_ifs with hnil
  · rw [hnil]
    exact Or.inr ⟨rfl, rfl⟩
  · exact Or.inl rfl

theorem foldl_addDirective (u : UrlLib) (hlt : text.length < 2 ^ 31) (hspaced : WellSpaced text)
    (earlier later : List GoogleString) (htext : text.splitOn 59 = earlier ++ later) (policy : CspPolicy)
    (hset : ∀ directive ∈ earlier, ∀ known, directiveOf directive = some known →
      (policy.sourceListFor known).isSome = true) :
    later.foldl (CspPolicy.addDirective u) policy = (later.map (words isOws)).foldl (addWords u) policy := by
  induction later generalizing earlier policy with
  | nil => rfl
  | cons directive later ih =>
    have hshort : directive.length < 2 ^ 31 := by
      have hmem : directive ∈ text.splitOnP (· == 59) := by
        rw [← List.splitOn_eq_splitOnP, htext]
        exact List.mem_append_right _ List.mem_cons_self
      obtain ⟨front, back, hsplit⟩ := mem_splitOnP_infix hmem
      rw [hsplit, List.length_append, List.length_append] at hlt
      omega
    obtain ⟨hadd, hname⟩ := addDirective_eq u policy hshort fun known hknown hnew => by
      refine hspaced earlier directive later htext (by rw [hknown]; rfl) fun other hother heq => ?_
      rw [hset other hother known (heq.trans hknown)] at hnew
      cases hnew
    rw [List.foldl_cons, List.map_cons, List.foldl_cons, hadd]
    refine ih (earlier ++ [directive]) (by rw [htext, List.append_assoc]; rfl) _ fun other hother known hknown => ?_
    apply addWords_isSome
    obtain hother | hother := List.mem_append.mp hother
    · exact Or.inl (hset other hother known hknown)
    · exact Or.inr (hname ▸ List.mem_singleton.mp hother ▸ hknown)

theorem policyOf_layout (u : UrlLib) (hlt : text.length < 2 ^ 31) (hspaced : WellSpaced text) :
    policyOf u text = (layout text).foldl (addWords u) CspPolicy.empty :=
  foldl_addDirective u hlt hspaced [] _ rfl _ nofun

def questions (u : UrlLib) (originUrl url : GoogleUrl) : List (CspPolicy → Bool) :=
  [CspPolicy.permitsEval, CspPolicy.permitsInlineScript, CspPolicy.permitsInlineScriptAttribute,
    CspPolicy.permitsInlineStyle, CspPolicy.permitsInlineStyleAttribute, CspPolicy.canModifyInlineScript,
    CspPolicy.canModifyInlineStyle, CspPolicy.permitsDataImage, CspPolicy.canLoadUrl u .kScriptSrc originUrl url,
    CspPolicy.canLoadUrl u .kStyleSrc originUrl url, CspPolicy.canLoadUrl u .kImgSrc originUrl url]

def answer (u : UrlLib) (text : GoogleString) (question : CspPolicy → Bool) : Bool :=
  (CspContext.addPolicy [] (CspPolicy.parse u text)).allPermit question

theorem questions_empty {u : UrlLib} {originUrl : GoogleUrl} {question : CspPolicy → Bool}
    (h : question ∈ questions u originUrl url) : question CspPolicy.empty = true := by
  simp only [questions, List.mem_cons, List.not_mem_nil, or_false] at h
  obtain rfl | rfl | rfl | rfl | rfl | rfl | rfl | rfl | rfl | rfl | rfl := h <;> rfl

theorem answer_eq {u : UrlLib} (hlt : text.length < 2 ^ 31) {originUrl : GoogleUrl}
    {question : CspPolicy → Bool} (h : question ∈ questions u originUrl url) :
    answer u text question = question (policyOf u text) := by
  obtain hsome | ⟨hnone, hempty⟩ := parse_eq u hlt
  · rw [answer, hsome, CspContext.addPolicy, List.nil_append, CspContext.allPermit, List.all_cons, List.all_nil,
      Bool.and_true]
  · rw [answer, hnone, hempty, questions_empty h]
    rfl

/-- Whitespace does not change the answers as long as spaces part the expressions. -/
theorem whitespace_is_insignificant (u : UrlLib) {text rewritten : GoogleString} (hlt : text.length < 2 ^ 31)
    (hlt' : rewritten.length < 2 ^ 31) (hlayout : layout text = layout rewritten) (hspaced : WellSpaced text)
    (hspaced' : WellSpaced rewritten) (originUrl url : GoogleUrl) :
    ∀ question ∈ questions u originUrl url, answer u text question = answer u rewritten question := by
  intro question hquestion
  rw [answer_eq hlt hquestion, answer_eq hlt' hquestion, policyOf_layout u hlt hspaced, hlayout,
    ← policyOf_layout u hlt' hspaced']

def plainUrls : UrlLib where
  canonicalizePath path := 47 :: path
  defaultPortForScheme scheme := if scheme = ascii "http" then 80 else if scheme = ascii "https" then 443 else -1
  isPortGurlUnspecified port := port = -1

def sitePage : GoogleUrl where
  isAnyValid := true
  origin := ascii "https://site.test"
  scheme := ascii "https"
  host := ascii "site.test"
  effectiveIntPort := 443
  pathSansQuery := ascii "/"

theorem spaced_of_no_tab (h : list.all (· != 9) = true) : Spaced list := by
  intro a x run y b hlist hx hy hrun hne
  obtain ⟨c, rest, rfl⟩ := List.exists_cons_of_ne_nil hne
  have hmem : c ∈ list := by
    rw [hlist]
    simp
  have htab : c ≠ 9 := by simpa using List.all_eq_true.mp h c hmem
  have hc := hrun c List.mem_cons_self
  rw [isOws] at hc
  have hspace : c = 32 := by grind
  rw [hspace]
  exact List.mem_cons_self

theorem wellSpaced_of_no_tab
    (h : (text.splitOn 59).all (fun directive => (sourceText directive).all (· != 9)) = true) : WellSpaced text := by
  intro earlier directive later htext _ _
  rw [htext] at h
  exact spaced_of_no_tab (List.all_eq_true.mp h directive (List.mem_append_right _ List.mem_cons_self))

theorem whitespace_is_insignificant_around_nonces :
    (questions plainUrls sitePage sitePage).map (answer plainUrls (ascii "script-src 'nonce-x' https:;img-src *")) =
      (questions plainUrls sitePage sitePage).map
        (answer plainUrls (ascii "\tscript-src  'nonce-x'   https: \t;\timg-src  * \t")) :=
  List.map_congr_left (whitespace_is_insignificant plainUrls (by decide) (by decide) (by decide)
    (wellSpaced_of_no_tab (by decide)) (wellSpaced_of_no_tab (by decide)) sitePage sitePage)

/-- A tab takes a nonce into the expression before it, and inline scripts are permitted. -/
theorem tab_hides_nonce :
    ¬ ∀ (u : UrlLib) (text rewritten : GoogleString) (originUrl url : GoogleUrl), layout text = layout rewritten →
      ∀ question ∈ questions u originUrl url, answer u text question = answer u rewritten question := by
  intro h
  have htab := h plainUrls (ascii "script-src 'unsafe-inline' cdn.test\t'nonce-x'")
    (ascii "script-src 'unsafe-inline' cdn.test 'nonce-x'") sitePage sitePage (by decide)
    CspPolicy.permitsInlineScript (by simp [questions])
  exact absurd htab (by decide)

/-! Paths. -/

def hostSource (input : GoogleString) : Option (UrlData × GoogleString) :=
  let input := trimCspWhitespace input
  let (isScheme, schemePart, rest) := CspSourceExpression.tryParseScheme input
  if input = [] ∨ 2 < input.length ∧ input.head? = some 39 ∧ input.getLast? = some 39 ∨ isScheme then none
  else CspSourceExpression.parseAuthority schemePart rest

theorem parse_hostSource (u : UrlLib) {input : GoogleString} (h : hostSource input = some (data, path)) :
    CspSourceExpression.parse u input = CspSourceExpression.withPath u data path := by
  rw [hostSource] at h
  dsimp only at h
  rw [Option.ite_none_left_eq_some] at h
  obtain ⟨hsource, hauthority⟩ := h
  rw [CspSourceExpression.parse]
  dsimp only
  rw [if_neg fun hnil => hsource (Or.inl hnil), if_neg fun hquoted => hsource (Or.inr (Or.inl hquoted)),
    if_neg fun hscheme => hsource (Or.inr (Or.inr hscheme)), hauthority]

def pathPartMatch (same : GoogleString → GoogleString → Bool) (pathA pathB : GoogleString) : Bool :=
  if pathA = [] then true
  else if pathA = ascii "/" ∧ pathB = [] then true
  else
    let exactMatch : Bool := pathA.getLast? ≠ some 47
    let pathListA := pathA.splitOn 47
    let pathListB := pathB.splitOn 47
    if pathListB.length < pathListA.length then false
    else if exactMatch ∧ pathListA.length ≠ pathListB.length then false
    else
      let pathListA := if exactMatch then pathListA else pathListA.dropLast
      (pathListA.zip pathListB).all fun (pieceA, pieceB) => same pieceA pieceB

def segments (path : GoogleString) : List GoogleString := words (· == 47) path

def hexValue (c : UInt8) : Option UInt8 :=
  if isDigit c then some (c - 48)
  else if 65 ≤ c ∧ c ≤ 70 then some (c - 55)
  else if 97 ≤ c ∧ c ≤ 102 then some (c - 87)
  else none

def percentDecode : GoogleString → GoogleString
  | [] => []
  | 37 :: h :: l :: rest =>
    match hexValue h, hexValue l with
    | some high, some low => (16 * high + low) :: percentDecode rest
    | _, _ => 37 :: percentDecode (h :: l :: rest)
  | c :: rest => c :: percentDecode rest

def decodedAlike (pieceA pieceB : GoogleString) : Bool := percentDecode pieceA = percentDecode pieceB

def samePiece (canonical : GoogleString → GoogleString) (pieceA pieceB : GoogleString) : Bool :=
  if pieceA = [] ∨ pieceB = [] then pieceA = pieceB else canonical pieceA = pieceB

/-- The pieces of a path that are compared: all but the one behind the slash that ends it. -/
def comparedPieces (path : GoogleString) : List GoogleString :=
  if path.getLast? = some 47 then (path.splitOn 47).dropLast else path.splitOn 47

/-- The code's test: the pieces of the one path that are not empty begin the other's, or are all of them. -/
def SegmentsMatch (canonical : GoogleString → GoogleString) (pathA pathB : GoogleString) : Prop :=
  (segments pathA).map canonical <+: segments pathB ∧
    (pathA.getLast? ≠ some 47 → (segments pathA).length = (segments pathB).length)

/-- The empty pieces stand in the same places, and there are as many pieces as there must be. -/
def EmptyPiecesMeet (pathA pathB : GoogleString) : Prop :=
  (comparedPieces pathA).map List.isEmpty <+: (pathB.splitOn 47).map List.isEmpty ∧
    (pathA.splitOn 47).length ≤ (pathB.splitOn 47).length ∧
    (pathA.getLast? ≠ some 47 → (pathA.splitOn 47).length = (pathB.splitOn 47).length)

instance (canonical : GoogleString → GoogleString) (pathA pathB : GoogleString) :
    Decidable (SegmentsMatch canonical pathA pathB) := inferInstanceAs (Decidable (_ ∧ _))

instance (pathA pathB : GoogleString) : Decidable (EmptyPiecesMeet pathA pathB) := inferInstanceAs (Decidable (_ ∧ _))

theorem isEmpty_percentDecode (s : GoogleString) : (percentDecode s).isEmpty = s.isEmpty := by
  fun_cases percentDecode s <;> simp_all

variable {canonical : GoogleString → GoogleString} {same : GoogleString → GoogleString → Bool} {pathA pathB : GoogleString}

theorem isEmpty_of_decodedAlike {a b : GoogleString} (h : decodedAlike a b = true) : a.isEmpty = b.isEmpty := by
  rw [← isEmpty_percentDecode a, ← isEmpty_percentDecode b, of_decide_eq_true h]

theorem isEmpty_of_samePiece {a b : GoogleString} (h : samePiece canonical a b = true) : a.isEmpty = b.isEmpty := by
  rw [samePiece] at h
  split_ifs at h with hnil
  · rw [of_decide_eq_true h]
  · rw [not_or] at hnil
    rw [List.isEmpty_eq_false_iff.mpr hnil.1, List.isEmpty_eq_false_iff.mpr hnil.2]

theorem prefix_of_zip (hsame : ∀ a b, same a b = true → a.isEmpty = b.isEmpty) {l r : List GoogleString}
    (hle : l.length ≤ r.length) (h : ((l.zip r).all fun (a, b) => same a b) = true) :
    l.map List.isEmpty <+: r.map List.isEmpty := by
  induction l generalizing r with
  | nil => exact List.nil_prefix
  | cons a l ih =>
    obtain ⟨b, r, rfl⟩ := List.exists_cons_of_length_pos (Nat.lt_of_lt_of_le (Nat.succ_pos _) hle)
    rw [List.zip_cons_cons, List.all_cons, Bool.and_eq_true] at h
    rw [List.map_cons, List.map_cons, List.cons_prefix_cons]
    exact ⟨hsame a b h.1, ih (Nat.le_of_succ_le_succ hle) h.2⟩

theorem zip_samePiece {l r : List GoogleString} (h : l.map List.isEmpty <+: r.map List.isEmpty) :
    ((l.zip r).all fun (a, b) => samePiece canonical a b) = true ↔
      (l.filter (!·.isEmpty)).map canonical <+: r.filter (!·.isEmpty) := by
  induction l generalizing r with
  | nil => simp
  | cons a l ih =>
    cases r with
    | nil => exact absurd h.length_le (by simp)
    | cons b r =>
      rw [List.map_cons, List.map_cons, List.cons_prefix_cons] at h
      rw [List.zip_cons_cons, List.all_cons, Bool.and_eq_true, ih h.2]
      dsimp only [samePiece]
      cases a with
      | nil =>
        obtain rfl := List.isEmpty_iff.mp h.1.symm
        simp
      | cons c a =>
        obtain ⟨d, b, rfl⟩ := List.exists_cons_of_ne_nil (List.isEmpty_eq_false_iff.mp h.1.symm)
        simp [List.cons_prefix_cons]

theorem pathPartMatch_iff (hA : pathA ≠ []) (hB : pathB ≠ []) : pathPartMatch same pathA pathB = true ↔
    ((comparedPieces pathA).zip (pathB.splitOn 47)).all (fun (a, b) => same a b) = true ∧
      (pathA.splitOn 47).length ≤ (pathB.splitOn 47).length ∧
      (pathA.getLast? ≠ some 47 → (pathA.splitOn 47).length = (pathB.splitOn 47).length) := by
  rw [pathPartMatch, if_neg hA, if_neg fun h => hB h.2, comparedPieces]
  dsimp only
  by_cases hslash : pathA.getLast? = some 47
  · simp [hslash, and_comm]
  · simp only [hslash, ne_eq, not_false_eq_true, decide_true, if_true, if_false, true_and, forall_const]
    split_ifs <;> grind

theorem meet_of_match (hsame : ∀ a b, same a b = true → a.isEmpty = b.isEmpty) (hA : pathA ≠ []) (hB : pathB ≠ [])
    (h : pathPartMatch same pathA pathB = true) : EmptyPiecesMeet pathA pathB := by
  obtain ⟨hall, hlength⟩ := (pathPartMatch_iff hA hB).mp h
  refine ⟨prefix_of_zip hsame (Nat.le_trans ?_ hlength.1) hall, hlength⟩
  rw [comparedPieces]
  split_ifs
  · rw [List.length_dropLast]
    exact Nat.sub_le _ _
  · exact Nat.le_refl _

theorem filter_comparedPieces (path : GoogleString) : (comparedPieces path).filter (!·.isEmpty) = segments path := by
  rw [comparedPieces, segments, words, ← List.splitOn_eq_splitOnP]
  split_ifs with hslash
  · obtain ⟨front, rfl⟩ := List.getLast?_eq_some_iff.mp hslash
    rw [List.splitOn_eq_splitOnP, splitOnP_snoc (by rfl), List.dropLast_concat, List.filter_append]
    exact (List.append_nil _).symm
  · rfl

theorem match_iff_segments (hA : pathA ≠ []) (hB : pathB ≠ []) (hmeet : EmptyPiecesMeet pathA pathB) :
    pathPartMatch (samePiece canonical) pathA pathB = true ↔ SegmentsMatch canonical pathA pathB := by
  obtain ⟨hstart, hlength⟩ := hmeet
  have hB' : (pathB.splitOn 47).filter (!·.isEmpty) = segments pathB := by
    rw [segments, words, ← List.splitOn_eq_splitOnP]
  rw [pathPartMatch_iff hA hB, and_iff_left hlength, zip_samePiece hstart, filter_comparedPieces, hB', SegmentsMatch,
    iff_self_and]
  intro _ hslash
  have hmap : (pathA.splitOn 47).map List.isEmpty = (pathB.splitOn 47).map List.isEmpty := by
    rw [comparedPieces, if_neg hslash] at hstart
    exact hstart.eq_of_length (by rw [List.length_map, List.length_map, hlength.2 hslash])
  have hcount : ∀ pieces : List GoogleString, (pieces.filter (!·.isEmpty)).length = (pieces.map List.isEmpty).countP (!·) := by
    intro pieces
    rw [List.countP_map, List.countP_eq_length_filter]
    rfl
  rw [← hB', ← filter_comparedPieces, comparedPieces, if_neg hslash, hcount, hcount, hmap]

/-- The code's test agrees with the standard's exactly when empty pieces meet wherever the others do, and
decoding makes no difference. -/
theorem segmentsMatch_iff (hA : pathA ≠ []) (hB : pathB ≠ []) :
    (SegmentsMatch canonical pathA pathB ↔ pathPartMatch decodedAlike pathA pathB = true) ↔
      (SegmentsMatch canonical pathA pathB → EmptyPiecesMeet pathA pathB) ∧
        pathPartMatch decodedAlike pathA pathB = pathPartMatch (samePiece canonical) pathA pathB := by
  rw [Bool.eq_iff_iff (b := pathPartMatch (samePiece canonical) pathA pathB)]
  have hdecoded := @meet_of_match decodedAlike pathA pathB (fun _ _ => isEmpty_of_decodedAlike) hA hB
  have hsame := @meet_of_match (samePiece canonical) pathA pathB (fun _ _ => isEmpty_of_samePiece) hA hB
  have hmeet := @match_iff_segments canonical pathA pathB hA hB
  tauto

def UrlLib.canonicalPiece (u : UrlLib) (piece : GoogleString) : GoogleString := (u.canonicalizePath piece).drop 1

theorem withPath_eq (u : UrlLib) (hlt : path.length < 2 ^ 31)
    (hkind : (CspSourceExpression.withPath u data path).kind = .kHostSource) :
    CspSourceExpression.withPath u data path =
      { kind := .kHostSource
        urlData := { data with
          pathPart := (segments path).map u.canonicalPiece
          pathExactMatch := !path.isEmpty && path.getLast? ≠ some 47 } } := by
  have hslash : ascii "/" = [47] := rfl
  rw [CspSourceExpression.withPath, hslash, split_eq_words 47 hlt] at hkind ⊢
  split_ifs at hkind ⊢ with hunknown
  rw [List.map_map]
  rfl

theorem matchesPath_iff (hlt : url.pathSansQuery.length < 2 ^ 31) :
    CspSourceExpression.matchesPath data url = true ↔
      data.pathPart <+: segments url.pathSansQuery ∧
        (data.pathExactMatch = true → data.pathPart ≠ [] →
          data.pathPart.length = (segments url.pathSansQuery).length) := by
  have hslash : ascii "/" = [47] := rfl
  rw [CspSourceExpression.matchesPath, hslash, split_eq_words 47 hlt, ← segments]
  dsimp only
  split_ifs with hnil hshort hexact
  · exact iff_of_true rfl ⟨hnil ▸ List.nil_prefix, fun _ hne => absurd hnil hne⟩
  · exact iff_of_false id fun ⟨hpre, _⟩ => absurd hpre.length_le (Nat.not_le.mpr hshort)
  · rw [Bool.and_eq_true, decide_eq_true_eq] at hexact
    exact iff_of_false id fun ⟨_, heq⟩ => hexact.2 (heq hexact.1 hnil).symm
  · rw [List.isPrefixOf_iff_prefix, and_iff_left]
    intro hmatch _
    rw [hmatch, Bool.true_and, decide_eq_true_eq, not_not] at hexact
    exact hexact.symm

theorem segments_ne_nil (hpath : path ≠ []) (hend : path.getLast? ≠ some 47) : segments path ≠ [] := by
  obtain rfl | ⟨front, c, rfl⟩ := path.eq_nil_or_concat'
  · exact absurd rfl hpath
  · rw [List.getLast?_concat, Ne, Option.some_inj] at hend
    obtain ⟨pieces, last, hpieces⟩ := splitOnP_concat (p := (· == (47 : UInt8))) (beq_false_of_ne hend) front
    rw [segments, words, hpieces]
    simp

/-- The path of an expression is matched as in the standard exactly when empty pieces meet wherever the
others do, and decoding makes no difference. -/
theorem path_matches_iff (u : UrlLib) (input path : GoogleString) (data : UrlData)
    (hsource : hostSource input = some (data, path)) (hpath : path ≠ [])
    (hkind : (CspSourceExpression.parse u input).kind = .kHostSource) {originUrl url : GoogleUrl}
    (horigin : originUrl.isAnyValid = true) (hurl : url.isAnyValid = true)
    (hweb : url.scheme = ascii "http" ∨ url.scheme = ascii "https")
    (hauthority : CspSourceExpression.matchesAuthority u data originUrl url = true)
    (hroot : url.pathSansQuery ≠ []) (hlt : path.length < 2 ^ 31)
    (hlt' : url.pathSansQuery.length < 2 ^ 31) :
    (CspSourceExpression.parse u input).matches u originUrl url = pathPartMatch decodedAlike path url.pathSansQuery ↔
      (SegmentsMatch u.canonicalPiece path url.pathSansQuery → EmptyPiecesMeet path url.pathSansQuery) ∧
        pathPartMatch decodedAlike path url.pathSansQuery =
          pathPartMatch (samePiece u.canonicalPiece) path url.pathSansQuery := by
  rw [parse_hostSource u hsource] at hkind ⊢
  rw [withPath_eq u hlt hkind]
  generalize hread : ({ data with
    pathPart := (segments path).map u.canonicalPiece
    pathExactMatch := !path.isEmpty && path.getLast? ≠ some 47 } : UrlData) = read
  have hauthority' : CspSourceExpression.matchesAuthority u read originUrl url = true := by
    rw [← hread]
    exact hauthority
  have hmatches : CspSourceExpression.«matches» u { kind := .kHostSource, urlData := read } originUrl url =
      CspSourceExpression.matchesPath read url := by
    rw [CspSourceExpression.«matches», if_neg (by simp), if_neg (by simp [horigin, hurl]), if_neg (by simp)]
    split_ifs with hany hscheme
    · have hnil : read.pathPart = [] := by
        rw [CspSourceExpression.isAnyHost] at hany
        simp only [Bool.and_eq_true, decide_eq_true_eq] at hany
        exact hany.2
      rw [CspSourceExpression.matchesPath, if_pos hnil, CspSourceExpression.matchesAnyHost, GoogleUrl.schemeIs,
        GoogleUrl.schemeIs]
      obtain hweb | hweb := hweb <;> simp [hweb]
    · cases hscheme
    · rw [hauthority', Bool.true_and]
  rw [hmatches, Bool.eq_iff_iff, matchesPath_iff hlt', ← segmentsMatch_iff hpath hroot, SegmentsMatch, ← hread]
  refine iff_congr (and_congr_right fun _ => ?_) Iff.rfl
  dsimp only
  rw [List.length_map]
  have hempty : path.isEmpty = false := by simpa using hpath
  rw [hempty, Bool.not_false, Bool.true_and, decide_eq_true_eq]
  refine ⟨fun h hend => h hend ?_, fun h hend _ => h hend⟩
  rw [Ne, List.map_eq_nil_iff]
  exact segments_ne_nil hpath hend

def styleSheet (path : GoogleString) : GoogleUrl where
  isAnyValid := true
  origin := ascii "https://www.test"
  scheme := ascii "https"
  host := ascii "www.test"
  effectiveIntPort := 443
  pathSansQuery := path

theorem path_matches_iff_doubled :
    (CspSourceExpression.parse plainUrls (ascii "www.test/a//b")).matches plainUrls sitePage (styleSheet (ascii "/a//b")) =
      pathPartMatch decodedAlike (ascii "/a//b") (ascii "/a//b") :=
  (path_matches_iff plainUrls (ascii "www.test/a//b") (ascii "/a//b")
    { schemePart := [], hostPart := ascii "www.test", portPart := [] } (by decide) (by decide)
    (by decide) rfl rfl (Or.inr rfl) (by decide) (by decide) (by decide) (by decide)).mpr ⟨fun _ => by decide, by decide⟩

/-- A directory authorizes a file of its name. -/
theorem directory_authorizes_file :
    ¬ ∀ (u : UrlLib) (input path : GoogleString) (data : UrlData) (originUrl url : GoogleUrl),
      hostSource input = some (data, path) → path ≠ [] →
      (CspSourceExpression.parse u input).kind = .kHostSource → originUrl.isAnyValid = true → url.isAnyValid = true →
      url.scheme = ascii "http" ∨ url.scheme = ascii "https" →
      CspSourceExpression.matchesAuthority u data originUrl url = true →
      (CspSourceExpression.parse u input).matches u originUrl url = pathPartMatch decodedAlike path url.pathSansQuery := by
  intro h
  have hdirectory := h plainUrls (ascii "www.test/css/") (ascii "/css/")
    { schemePart := [], hostPart := ascii "www.test", portPart := [] } sitePage
    (styleSheet (ascii "/css")) (by decide) (by decide) (by decide) rfl rfl (Or.inr rfl) (by decide)
  exact absurd hdirectory (by decide)

end PageSpeed.Csp
