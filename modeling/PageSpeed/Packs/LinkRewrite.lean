import PageSpeed.Packs.LinkHeader

/-!
`LinkValueWithoutRelToken` of `kernel/packs/link_header.cc`, and what `SplitLinkHeader` reads of
what it writes.
-/

namespace PageSpeed.Packs

def tokens (s : GoogleString) : List GoogleString := (s.splitOnP isOws).filter (· ≠ [])

def isRel (p : Param) : Bool := stringCaseEqual p.1 (ascii "rel")

def LinkValue.hasRel (v : LinkValue) (token : GoogleString) : Bool :=
  v.params.any fun p => isRel p && (tokens p.2).any fun t => stringCaseEqual t token

def keepToken (kept t : GoogleString) : GoogleString := if kept = [] then t else kept ++ 32 :: t

def keptTokens (v : LinkValue) (token : GoogleString) : GoogleString :=
  (((v.params.filter (·.1 = ascii "rel")).flatMap fun p => tokens p.2).filter fun t =>
    !stringCaseEqual t token).foldl keepToken []

def writeParam (p : Param) : GoogleString :=
  if p.2 = [] then ascii "; " ++ p.1
  else if p.1.getLast? = some 42 then ascii "; " ++ p.1 ++ [61] ++ p.2
  else ascii "; " ++ p.1 ++ [61, 34] ++ quote p.2 ++ [34]

def writeParams (kept : GoogleString) : Bool → List Param → GoogleString
  | _, [] => []
  | relWritten, p :: params =>
    if p.1 = ascii "rel" then
      (if relWritten then [] else ascii "; rel=\"" ++ kept ++ [34]) ++ writeParams kept true params
    else writeParam p ++ writeParams kept relWritten params

def linkValueWithoutRelToken (v : LinkValue) (token : GoogleString) : GoogleString :=
  if !v.hasRel token then v.raw
  else
    let kept := keptTokens v token
    if kept = [] then [] else [60] ++ v.target ++ [62] ++ writeParams kept false v.params

variable {t kept rest value : GoogleString} {p : Param} {params : List Param}

theorem tokens_spec {s : GoogleString} (h : t ∈ tokens s) : t ≠ [] ∧ ∀ c ∈ t, isOws c = false := by
  obtain ⟨hmem, hne⟩ := List.mem_filter.mp h
  refine ⟨of_decide_eq_true hne, ?_⟩
  clear h hne
  induction s generalizing t with
  | nil =>
    rw [List.splitOnP_nil, List.mem_singleton] at hmem
    subst hmem
    exact nofun
  | cons c s ih =>
    obtain ⟨first, rest, hsplit⟩ := List.exists_cons_of_ne_nil (List.splitOnP_ne_nil isOws s)
    rw [List.splitOnP_cons_eq_if_modifyHead] at hmem
    rw [hsplit] at ih hmem
    split_ifs at hmem with hc
    · obtain rfl | hmem := List.mem_cons.mp hmem
      · exact nofun
      · exact ih hmem
    · obtain rfl | hmem := List.mem_cons.mp hmem
      · exact List.forall_mem_cons.mpr ⟨Bool.not_eq_true _ ▸ hc, ih List.mem_cons_self⟩
      · exact ih (List.mem_cons_of_mem _ hmem)

theorem tokens_token (hne : t ≠ []) (h : ∀ c ∈ t, isOws c = false) : tokens t = [t] := by
  rw [tokens, List.splitOnP_eq_singleton h, List.filter_cons_of_pos (by simpa using hne), List.filter_nil]

theorem tokens_append (s t : GoogleString) : tokens (s ++ 32 :: t) = tokens s ++ tokens t := by
  rw [tokens, List.splitOnP_append_cons s t (by decide), List.filter_append]
  rfl

theorem tokens_keep {kept : List GoogleString} (h : ∀ t ∈ kept, t ≠ [] ∧ ∀ c ∈ t, isOws c = false)
    (before : GoogleString) : tokens (kept.foldl keepToken before) = tokens before ++ kept := by
  induction kept generalizing before with
  | nil => rw [List.foldl_nil, List.append_nil]
  | cons t kept ih =>
    obtain ⟨⟨hne, ht⟩, hkept⟩ := List.forall_mem_cons.mp h
    have hstep : tokens (keepToken before t) = tokens before ++ [t] := by
      rw [keepToken]
      split_ifs with hbefore
      · rw [hbefore, tokens_token hne ht]
        rfl
      · rw [tokens_append, tokens_token hne ht]
    rw [List.foldl_cons, ih hkept, hstep, List.append_assoc, List.singleton_append]

theorem countP_tokens {p : UInt8 → Bool} (hp : ∀ c, isOws c = true → p c = false) (s : GoogleString) :
    s.countP p = ((tokens s).map (List.countP p)).sum := by
  have hpieces : s.countP p = ((s.splitOnP isOws).map (List.countP p)).sum := by
    induction s with
    | nil => simp
    | cons c s ih =>
      obtain ⟨first, rest, hsplit⟩ := List.exists_cons_of_ne_nil (List.splitOnP_ne_nil isOws s)
      rw [List.splitOnP_cons_eq_if_modifyHead, List.countP_cons, ih, hsplit]
      split_ifs with hc hows hows
      · rw [hp c hows] at hc
        cases hc
      · simp [hc]
        omega
      · simp
      · simp [hc]
  have hfilter : ∀ pieces : List GoogleString,
      ((pieces.filter (· ≠ [])).map (List.countP p)).sum = (pieces.map (List.countP p)).sum := by
    intro pieces
    induction pieces with
    | nil => rfl
    | cons piece pieces ih =>
      by_cases hempty : piece = []
      · rw [List.filter_cons_of_neg (by simp [hempty]), List.map_cons, List.sum_cons, ih, hempty, List.countP_nil,
          Nat.zero_add]
      · rw [List.filter_cons_of_pos (by simpa using hempty), List.map_cons, List.map_cons, List.sum_cons, List.sum_cons,
          ih]
  rw [hpieces, tokens, hfilter]

theorem count_tokens {b : UInt8} (hb : isOws b = false) (s : GoogleString) :
    s.count b = ((tokens s).map (List.count b)).sum := by
  have hp : ∀ c, isOws c = true → (c == b) = false := by
    intro c hc
    rw [beq_eq_false_iff_ne]
    rintro rfl
    rw [hb] at hc
    cases hc
  exact countP_tokens hp s

theorem not_mem_iff_tokens {b : UInt8} (hb : isOws b = false) (s : GoogleString) : b ∉ s ↔ ∀ t ∈ tokens s, b ∉ t := by
  rw [← List.count_eq_zero, count_tokens hb s, List.sum_eq_zero_iff_forall_eq_nat]
  simp only [List.forall_mem_map, List.count_eq_zero]

def IsFollow (t : GoogleString) : Prop := t = [] ∨ ∃ rest, t = 59 :: rest

theorem skipOws_follow (h : IsFollow t) : skipOws t = t := by
  obtain rfl | ⟨rest, rfl⟩ := h
  · rfl
  · rfl

def IsPlainValue (value : GoogleString) : Prop := (∀ c ∈ value, isValueEnd c = false) ∧ value.head? ≠ some 34

theorem isOws_valueEnd {c : UInt8} (h : isOws c = true) : isValueEnd c = true := by
  rw [isValueEnd, decide_eq_true_eq]
  exact .inr (.inr h)

theorem value_cut (hvalue : ∀ c ∈ value, isValueEnd c = false) (ht : IsFollow t) :
    (value ++ t).takeWhile (fun c => !isValueEnd c) = value ∧ (value ++ t).dropWhile (fun c => !isValueEnd c) = t := by
  have hall : ∀ c ∈ value, (!isValueEnd c) = true := fun c hc => by rw [hvalue c hc]; rfl
  rw [List.takeWhile_append_of_pos hall, List.dropWhile_append_of_pos hall]
  obtain rfl | ⟨rest, rfl⟩ := ht
  · exact ⟨List.append_nil _, rfl⟩
  · exact ⟨List.append_nil _, rfl⟩

theorem readValue_plain (hvalue : IsPlainValue value) (hne : value ≠ []) (ht : IsFollow t) :
    readValue (61 :: (value ++ t)) = some (value, t) := by
  obtain ⟨c, value, rfl⟩ := List.exists_cons_of_ne_nil hne
  obtain ⟨hall, hquote⟩ := hvalue
  have hows : ¬isOws c = true := fun h => by
    have hend := hall c List.mem_cons_self
    rw [isOws_valueEnd h] at hend
    cases hend
  obtain ⟨htake, hdrop⟩ := value_cut hall ht
  rw [List.cons_append] at htake hdrop ⊢
  rw [readValue, skipOws, List.dropWhile_cons_of_neg hows]
  split
  · rename_i heq
    obtain ⟨rfl, -⟩ := List.cons.inj heq
    exact absurd rfl hquote
  · rw [htake, hdrop]

theorem plain_of_readValue (hne : value ≠ []) (ht : IsFollow t)
    (h : readValue (61 :: (value ++ t)) = some (value, rest)) : IsPlainValue value ∧ rest = t := by
  -- After the spaces there is the end of the value, a quote, or a value without quotes.
  have hvalue : value.takeWhile isOws ++ value.dropWhile isOws = value := List.takeWhile_append_dropWhile
  have hspaces : ∀ c ∈ value.takeWhile isOws, isOws c = true := fun c hc => List.mem_takeWhile_imp hc
  have hskip : skipOws (value ++ t) = skipOws (value.dropWhile isOws ++ t) := by
    conv_lhs => rw [← hvalue, List.append_assoc, skipOws, List.dropWhile_append_of_pos hspaces]
    rfl
  rw [readValue, hskip] at h
  cases htext : value.dropWhile isOws with
  | nil =>
    rw [htext, List.nil_append, skipOws_follow ht] at h
    obtain rfl | ⟨after, rfl⟩ := ht
    · exact absurd (Prod.mk.inj (Option.some.inj h)).1.symm hne
    · exact absurd (Prod.mk.inj (Option.some.inj h)).1.symm hne
  | cons c text =>
    have hows : ¬isOws c = true := by
      have hhead := List.head?_dropWhile_not isOws value
      rw [htext] at hhead
      exact (Bool.not_eq_true _).mpr hhead
    rw [htext, List.cons_append, skipOws, List.dropWhile_cons_of_neg hows] at h
    split at h
    · rename_i heq
      obtain ⟨rfl, rfl⟩ := List.cons.inj heq
      -- The semicolon that follows would be in the value, which is as long as the text before it.
      obtain ⟨read, hsplit, hcount, hlength, -⟩ := readQuoted_split h
      have hfree : (value.takeWhile isOws).count 59 = 0 := by
        rw [List.count_eq_zero]
        intro hc
        exact absurd (hspaces 59 hc) (by decide)
      rw [← hvalue, htext, List.count_append, hfree, List.count_cons_of_ne (by decide), Nat.zero_add] at hcount
      rw [← hvalue, htext, List.length_append, List.length_cons] at hlength
      obtain ⟨mid, hmid, hrest⟩ | ⟨mid, hmid, hrest⟩ := List.append_eq_append_iff.mp hsplit
      · rw [hmid, List.length_append] at hlength
        cases mid with
        | nil =>
          rw [List.length_nil] at hlength
          omega
        | cons d mid =>
          obtain rfl | ⟨after, rfl⟩ := ht
          · cases hrest
          · obtain ⟨rfl, -⟩ := List.cons.inj hrest
            rw [hmid, List.count_append, List.count_cons_self] at hcount
            omega
      · rw [hmid, List.length_append] at hlength
        omega
    · rename_i hquote
      obtain ⟨htake, hdrop⟩ := Prod.mk.inj (Option.some.inj h)
      have hall : ∀ b ∈ value, isValueEnd b = false := by
        intro b hb
        rw [← htake] at hb
        simpa using List.mem_takeWhile_imp hb
      have hempty : value.takeWhile isOws = [] := by
        rw [List.eq_nil_iff_forall_not_mem]
        intro b hb
        have hend := hall b (List.takeWhile_subset _ hb)
        rw [isOws_valueEnd (hspaces b hb)] at hend
        cases hend
      rw [hempty, List.nil_append, htext] at hvalue
      obtain ⟨-, hcut⟩ := value_cut hall ht
      rw [← hvalue, List.cons_append, hdrop] at hcut
      refine ⟨⟨hall, ?_⟩, hcut⟩
      rw [← hvalue, List.head?_cons, ne_eq, Option.some.injEq]
      rintro rfl
      exact hquote _ rfl

theorem plain_of_readQuoted (ht : IsFollow t)
    (h : readQuoted (kept ++ 34 :: t) = some (value, rest)) (htokens : tokens value = tokens kept) :
    (34 ∉ kept ∧ 92 ∉ kept) ∧ rest = t := by
  have hinked : inked value = inked kept := by
    have hp : ∀ c, isOws c = true → (!isOws c) = false := fun c hc => by rw [hc]; rfl
    rw [inked, inked, countP_tokens hp value, countP_tokens hp kept, htokens]
  have hsemis : value.count 59 = kept.count 59 := by
    rw [count_tokens (by decide) value, count_tokens (by decide) kept, htokens]
  obtain ⟨read, hsplit, hcount, -, hread⟩ := readQuoted_split h
  -- The quote that ends the value is the one that is written after the tokens.
  have hsame : read = kept → rest = t → (34 ∉ kept ∧ 92 ∉ kept) ∧ rest = t := by
    rintro rfl rfl
    obtain ⟨hback, hquote, -⟩ | hlt := hread
    · exact ⟨⟨hquote, hback⟩, rfl⟩
    · omega
  obtain ⟨mid, hmid, hrest⟩ | ⟨mid, hmid, hrest⟩ := List.append_eq_append_iff.mp hsplit
  · cases mid with
    | nil => exact hsame (by rw [hmid, List.append_nil]) (List.cons.inj hrest).2.symm
    | cons c mid =>
      obtain ⟨-, hrest⟩ := List.cons.inj hrest
      obtain rfl | ⟨after, rfl⟩ := ht
      · exact absurd hrest.symm (by simp)
      · cases mid with
        | nil => exact absurd hrest (by simp)
        | cons d mid =>
          obtain ⟨rfl, -⟩ := List.cons.inj hrest
          rw [hmid] at hcount
          simp only [List.count_append, List.count_cons] at hcount
          simp at hcount
          omega
  · cases mid with
    | nil => exact hsame (by rw [hmid, List.append_nil]) (List.cons.inj hrest).2
    | cons c mid =>
      obtain ⟨rfl, -⟩ := List.cons.inj hrest
      have hmore : inked kept = inked read + (inked mid + 1) := by
        rw [hmid, inked, List.countP_append]
        exact congrArg (inked read + ·) (inked_cons 34 mid)
      obtain ⟨-, -, rfl⟩ | hlt := hread
      · omega
      · omega

def IsPlainParam (p : Param) : Prop := p.2 ≠ [] → p.1.getLast? = some 42 → IsPlainValue p.2

theorem isRel_iff (h : IsName p.1) : isRel p = true ↔ p.1 = ascii "rel" := by
  have hrel : (ascii "rel").map lowerChar = ascii "rel" := by decide
  rw [isRel, stringCaseEqual_iff_lower, h.2, hrel]

theorem readParam_name {name : GoogleString} (hne : name ≠ []) (hname : IsName name) {text : GoogleString}
    (htext : ∀ c ∈ text.head?, isNameEnd c = true) :
    readParam (32 :: (name ++ text)) = (readValue (skipOws text)).map fun read => ((name, read.1), read.2) := by
  obtain ⟨c, name, rfl⟩ := List.exists_cons_of_ne_nil hne
  have hows : ¬isOws c = true := fun h => by
    have hend := hname.1 c List.mem_cons_self
    rw [isNameEnd, decide_eq_false_iff_not, not_or] at hend
    exact hend.2 (isOws_valueEnd h)
  have hskip : skipOws (32 :: (c :: name ++ text)) = c :: name ++ text := by
    rw [skipOws, List.dropWhile_cons_of_pos (by decide), List.cons_append, List.dropWhile_cons_of_neg hows]
  have hall : ∀ b ∈ c :: name, (!isNameEnd b) = true := fun b hb => by rw [hname.1 b hb]; rfl
  have hstop : text.takeWhile (fun c => !isNameEnd c) = [] ∧ text.dropWhile (fun c => !isNameEnd c) = text := by
    cases text with
    | nil => exact ⟨rfl, rfl⟩
    | cons b text =>
      have hb : ¬(!isNameEnd b) = true := by rw [htext b rfl]; decide
      exact ⟨List.takeWhile_cons_of_neg hb, List.dropWhile_cons_of_neg hb⟩
  rw [readParam]
  simp only [hskip, List.takeWhile_append_of_pos hall, List.dropWhile_append_of_pos hall, hstop, List.append_nil,
    hname.2]

theorem readParam_written (hne : p.1 ≠ []) (hname : IsName p.1) (ht : IsFollow t) :
    ∃ text, writeParam p ++ t = 59 :: text ∧ (IsPlainParam p → readParam text = some (p, t)) ∧
      ∀ q rest, readParam text = some (q, rest) → q.1 = p.1 ∧ (q.2 = p.2 → IsPlainParam p ∧ rest = t) := by
  obtain ⟨name, value⟩ := p
  have hfollow : ∀ c ∈ t.head?, isNameEnd c = true := by
    intro c hc
    obtain rfl | ⟨after, rfl⟩ := ht
    · cases hc
    · rw [← Option.some.inj hc]
      decide
  have hequals : ∀ rest : GoogleString, ∀ c ∈ (61 :: rest).head?, isNameEnd c = true := by
    rintro rest c hc
    rw [← Option.some.inj hc]
    decide
  have hopen : ascii "; " = [59, 32] := rfl
  rw [writeParam, hopen]
  dsimp only at hne hname ⊢
  split_ifs with hvalue hstar
  · have hread : readParam (32 :: (name ++ t)) = some ((name, value), t) := by
      rw [readParam_name hne hname hfollow, skipOws_follow ht, hvalue]
      obtain rfl | ⟨after, rfl⟩ := ht
      · rfl
      · rfl
    refine ⟨32 :: (name ++ t), by simp, fun _ => hread, fun q rest h => ?_⟩
    rw [hread] at h
    obtain ⟨rfl, rfl⟩ := Prod.mk.inj (Option.some.inj h)
    exact ⟨rfl, fun _ => ⟨fun hne => absurd hvalue hne, rfl⟩⟩
  · have hread : readParam (32 :: (name ++ 61 :: (value ++ t))) =
        (readValue (61 :: (value ++ t))).map fun read => ((name, read.1), read.2) :=
      readParam_name hne hname (hequals _)
    refine ⟨32 :: (name ++ 61 :: (value ++ t)), by simp, fun hplain => ?_, fun q rest h => ?_⟩
    · rw [hread, readValue_plain (hplain hvalue hstar) hvalue ht]
      rfl
    · rw [hread] at h
      obtain ⟨⟨value', rest'⟩, hvalue', heq⟩ := Option.map_eq_some_iff.mp h
      obtain ⟨rfl, rfl⟩ := Prod.mk.inj heq
      refine ⟨rfl, fun hsame => ?_⟩
      obtain rfl : value' = value := hsame
      obtain ⟨hplain, hrest⟩ := plain_of_readValue hvalue ht hvalue'
      exact ⟨fun _ _ => hplain, hrest⟩
  · have hread : readParam (32 :: (name ++ 61 :: 34 :: (quote value ++ 34 :: t))) = some ((name, value), t) := by
      rw [readParam_name hne hname (hequals _)]
      change (readQuoted (quote value ++ 34 :: t)).map _ = _
      rw [readQuoted_quote]
      rfl
    refine ⟨32 :: (name ++ 61 :: 34 :: (quote value ++ 34 :: t)), by simp, fun _ => hread, fun q rest h => ?_⟩
    rw [hread] at h
    obtain ⟨rfl, rfl⟩ := Prod.mk.inj (Option.some.inj h)
    exact ⟨rfl, fun _ => ⟨fun _ hstar' => absurd hstar' hstar, rfl⟩⟩

def nonRel (params : List Param) : List Param := params.filter fun p => !isRel p

def relTokens (params : List Param) : List GoogleString := (params.filter isRel).flatMap fun p => tokens p.2

theorem plain_of_isRel (hname : IsName p.1) (h : isRel p = true) : IsPlainParam p := by
  intro _ hstar
  rw [(isRel_iff hname).mp h] at hstar
  exact absurd hstar (by decide)

theorem readParam_rel (kept t : GoogleString) : ∃ text, ascii "; rel=\"" ++ kept ++ [34] ++ t = 59 :: text ∧
    readParam text = (readQuoted (kept ++ 34 :: t)).map fun read => ((ascii "rel", read.1), read.2) := by
  have hname : IsName (ascii "rel") := by
    refine ⟨List.forall_mem_cons.mpr ⟨rfl, ?_⟩, by decide⟩
    exact List.forall_mem_cons.mpr ⟨rfl, List.forall_mem_cons.mpr ⟨rfl, nofun⟩⟩
  have hopen : ascii "; rel=\"" = 59 :: 32 :: (ascii "rel" ++ [61, 34]) := rfl
  refine ⟨32 :: (ascii "rel" ++ 61 :: 34 :: (kept ++ 34 :: t)), by rw [hopen]; simp, ?_⟩
  rw [readParam_name (by decide) hname]
  · rfl
  · rintro c hc
    rw [← Option.some.inj hc]
    decide

theorem writeParams_follow (kept : GoogleString) (relWritten : Bool) (params : List Param) :
    IsFollow (writeParams kept relWritten params) := by
  induction params generalizing relWritten with
  | nil => exact .inl rfl
  | cons p params ih =>
    rw [writeParams]
    split_ifs with hrel hwritten
    · exact ih true
    · exact .inr ⟨_, rfl⟩
    · rw [writeParam]
      split_ifs
      · exact .inr ⟨_, rfl⟩
      · exact .inr ⟨_, rfl⟩
      · exact .inr ⟨_, rfl⟩

theorem count_quote (value : GoogleString) : (quote value).count 59 = value.count 59 := by
  induction value with
  | nil => rfl
  | cons c value ih =>
    rw [quote, List.flatMap_cons, ← quote, List.count_append, ih]
    split_ifs with hc
    · have hne : c ≠ 59 := by
        rintro rfl
        exact absurd hc (by decide)
      rw [List.count_cons_of_ne hne, List.count_cons_of_ne (by decide), List.count_singleton, if_neg (by simpa using hne),
        Nat.zero_add]
    · exact List.count_append.symm

theorem count_writeParam (hname : IsName p.1) : (writeParam p).count 59 = 1 + p.2.count 59 := by
  have hfree : p.1.count 59 = 0 := by
    rw [List.count_eq_zero]
    intro h
    exact absurd (hname.1 59 h) (by decide)
  have hopen : (ascii "; ").count 59 = 1 := by decide
  have hequals : ([61] : GoogleString).count 59 = 0 ∧ ([61, 34] : GoogleString).count 59 = 0 ∧
      ([34] : GoogleString).count 59 = 0 := by decide
  rw [writeParam]
  split_ifs with hvalue
  · rw [List.count_append, hopen, hfree, hvalue, List.count_nil]
  · rw [List.count_append, List.count_append, List.count_append, hopen, hfree, hequals.1]
  · rw [List.count_append, List.count_append, List.count_append, List.count_append, hopen, hfree, hequals.2.1,
      hequals.2.2, count_quote, Nat.add_zero, Nat.add_zero]

theorem count_writeParams (h : ∀ p ∈ params, p.1 ≠ [] ∧ IsName p.1) (kept : GoogleString) :
    (writeParams kept true params).count 59 = semis (nonRel params) := by
  induction params with
  | nil => rfl
  | cons p params ih =>
    obtain ⟨⟨-, hname⟩, hrest⟩ := List.forall_mem_cons.mp h
    have hiff := isRel_iff hname
    rw [writeParams, nonRel]
    by_cases hrel : isRel p = true
    · rw [if_pos (hiff.mp hrel), if_pos rfl, List.nil_append, ih hrest, List.filter_cons_of_neg (by simp [hrel])]
      rfl
    · rw [if_neg (fun h => hrel (hiff.mpr h)), List.count_append, ih hrest, count_writeParam hname,
        List.filter_cons_of_pos (by simpa using hrel), semis, semis, List.map_cons, List.sum_cons]
      rfl

def mergedTokens (kept : GoogleString) (relWritten : Bool) (params : List Param) : List GoogleString :=
  if relWritten = false ∧ params.any isRel then tokens kept else []

theorem isRel_rel (value : GoogleString) : isRel (ascii "rel", value) = true := by
  change stringCaseEqual (ascii "rel") (ascii "rel") = true
  decide

theorem relTokens_cons_rel (h : isRel p = true) (params : List Param) :
    relTokens (p :: params) = tokens p.2 ++ relTokens params ∧ nonRel (p :: params) = nonRel params := by
  constructor
  · rw [relTokens, List.filter_cons_of_pos h, List.flatMap_cons]
    rfl
  · exact List.filter_cons_of_neg (by simp [h])

theorem relTokens_cons_other (h : isRel p = false) (params : List Param) :
    relTokens (p :: params) = relTokens params ∧ nonRel (p :: params) = p :: nonRel params := by
  constructor
  · rw [relTokens, List.filter_cons_of_neg (by simp [h])]
    rfl
  · exact List.filter_cons_of_pos (by simp [h])

theorem mergedTokens_cons_other (h : isRel p = false) (kept : GoogleString) (relWritten : Bool)
    (params : List Param) : mergedTokens kept relWritten (p :: params) = mergedTokens kept relWritten params := by
  rw [mergedTokens, List.any_cons, h, Bool.false_or]
  rfl

theorem addParam_of_ne (h : p.1 ≠ []) (params : List Param) : addParam p params = p :: params := if_neg h

theorem readParams_written
    (hparams : ∀ p ∈ params, p.1 ≠ [] ∧ IsName p.1) (hplain : ∀ p ∈ params, IsPlainParam p) {relWritten : Bool}
    (hkept : relWritten = false → params.any isRel = true → 34 ∉ kept ∧ 92 ∉ kept) (partEnd : GoogleString) :
    ∃ read partEnd', readParams (writeParams kept relWritten params) partEnd = some (read, [], partEnd') ∧
      nonRel read = nonRel params ∧ relTokens read = mergedTokens kept relWritten params := by
  induction params generalizing relWritten partEnd with
  | nil => exact ⟨[], partEnd, readParams_nil _, rfl, by simp [mergedTokens, relTokens]⟩
  | cons p params ih =>
    obtain ⟨⟨hne, hname⟩, hrest⟩ := List.forall_mem_cons.mp hparams
    obtain ⟨hp, hplainRest⟩ := List.forall_mem_cons.mp hplain
    have hiff := isRel_iff hname
    rw [writeParams]
    cases hrel : isRel p with
    | true =>
      obtain ⟨-, hskip⟩ := relTokens_cons_rel hrel params
      rw [if_pos (hiff.mp hrel), hskip]
      cases relWritten with
      | true =>
        obtain ⟨read, partEnd', hread, hnonRel, htokens⟩ := @ih hrest hplainRest true nofun partEnd
        rw [if_pos rfl, List.nil_append]
        exact ⟨read, partEnd', hread, hnonRel, htokens⟩
      | false =>
        have hany : (p :: params).any isRel = true := by rw [List.any_cons, hrel, Bool.true_or]
        obtain ⟨text, htext, hparam⟩ := readParam_rel kept (writeParams kept true params)
        obtain ⟨read, partEnd', hread, hnonRel, htokens⟩ :=
          @ih hrest hplainRest true nofun (writeParams kept true params)
        obtain ⟨hrelTokens, hrelNon⟩ := relTokens_cons_rel (isRel_rel kept) read
        refine ⟨(ascii "rel", kept) :: read, partEnd', ?_, hrelNon.trans hnonRel, ?_⟩
        · rw [if_neg Bool.false_ne_true, htext, readParams_param, hparam, readQuoted_plain (hkept rfl hany),
            Option.map_some, Option.bind_some, hread]
          rfl
        · rw [hrelTokens, htokens]
          simp [mergedTokens, hany]
    | false =>
      obtain ⟨-, hkeep⟩ := relTokens_cons_other hrel params
      obtain ⟨text, htext, hread, -⟩ := readParam_written hne hname (writeParams_follow kept relWritten params)
      have hkept' : relWritten = false → params.any isRel = true → 34 ∉ kept ∧ 92 ∉ kept :=
        fun hfalse hany => hkept hfalse (by rw [List.any_cons, hany, Bool.or_true])
      obtain ⟨read, partEnd', hreadRest, hnonRel, htokens⟩ := ih hrest hplainRest hkept' (writeParams kept relWritten params)
      obtain ⟨hrelTokens, hrelNon⟩ := relTokens_cons_other hrel read
      refine ⟨p :: read, partEnd', ?_, ?_, ?_⟩
      · rw [if_neg (fun h => Bool.false_ne_true (hrel ▸ hiff.mpr h)), htext, readParams_param, hread hp, Option.bind_some,
          hreadRest, Option.map_some, addParam_of_ne hne]
      · rw [hrelNon, hkeep, hnonRel]
      · rw [hrelTokens, htokens, mergedTokens_cons_other hrel]

theorem semis_split (params : List Param) :
    semis params = semis (nonRel params) + (semis (params.filter isRel)) := by
  induction params with
  | nil => rfl
  | cons p params ih =>
    have hcons : semis (p :: params) = 1 + p.2.count 59 + semis params := by rw [semis, List.map_cons, List.sum_cons, semis]
    cases h : isRel p with
    | true =>
      rw [hcons, ih, (relTokens_cons_rel h params).2, List.filter_cons_of_pos h]
      simp only [semis, List.map_cons, List.sum_cons]
      omega
    | false =>
      rw [hcons, ih, (relTokens_cons_other h params).2, List.filter_cons_of_neg (by simp [h])]
      simp only [semis, List.map_cons, List.sum_cons]
      omega

theorem one_rel {after partEnd partEnd' : GoogleString} {read : List Param}
    (hparams : ∀ p ∈ params, p.1 ≠ [] ∧ IsName p.1)
    (hquoted : readQuoted (kept ++ 34 :: writeParams kept true params) = some (value, after))
    (hread : readParams after partEnd = some (read, rest, partEnd')) (hnonRel : nonRel read = nonRel params)
    (htokens : tokens value ++ relTokens read = tokens kept) : tokens value = tokens kept ∧ relTokens read = [] := by
  obtain ⟨text, hsplit, hcount, -⟩ := readQuoted_split hquoted
  obtain ⟨-, hsemis, -⟩ := readParams_spec hread
  have hcountSplit := congrArg (List.count 59) hsplit
  rw [List.count_append, List.count_append, List.count_cons_of_ne (by decide), List.count_cons_of_ne (by decide),
    count_writeParams hparams] at hcountSplit
  have hsum (s : GoogleString) := count_tokens (by decide : isOws 59 = false) s
  have hrels : ∀ params : List Param, semis (params.filter isRel) =
      (params.filter isRel).length + ((relTokens params).map (List.count 59)).sum := by
    intro params
    rw [relTokens]
    induction params.filter isRel with
    | nil => rfl
    | cons p params ih =>
      have hp := hsum p.2
      rw [semis, List.map_cons, List.sum_cons, ← semis, ih, List.length_cons, List.flatMap_cons, List.map_append,
        List.sum_append_nat, ← hp]
      omega
  have hkept := hsum kept
  rw [← htokens, List.map_append, List.sum_append_nat, ← hsum value] at hkept
  rw [semis_split, hnonRel, hrels] at hsemis
  have hnone : read.filter isRel = [] := List.length_eq_zero_iff.mp (by omega)
  have hempty : relTokens read = [] := by rw [relTokens, hnone, List.flatMap_nil]
  rw [hempty, List.append_nil] at htokens
  exact ⟨htokens, hempty⟩

theorem plain_of_readParams
    (hparams : ∀ p ∈ params, p.1 ≠ [] ∧ IsName p.1) {relWritten : Bool} {partEnd partEnd' : GoogleString}
    {read : List Param} (h : readParams (writeParams kept relWritten params) partEnd = some (read, rest, partEnd'))
    (hnonRel : nonRel read = nonRel params) (hrel : relTokens read = mergedTokens kept relWritten params) :
    (∀ p ∈ params, isRel p = false → IsPlainParam p) ∧
      (relWritten = false → params.any isRel = true → 34 ∉ kept ∧ 92 ∉ kept) := by
  induction params generalizing relWritten partEnd read with
  | nil => exact ⟨nofun, fun _ hany => by cases hany⟩
  | cons p params ih =>
    obtain ⟨⟨hne, hname⟩, hrest⟩ := List.forall_mem_cons.mp hparams
    have hiff := isRel_iff hname
    have hfollow := writeParams_follow kept
    rw [writeParams] at h
    cases hisRel : isRel p with
    | true =>
      obtain ⟨-, hskip⟩ := relTokens_cons_rel hisRel params
      rw [if_pos (hiff.mp hisRel)] at h
      rw [hskip] at hnonRel
      cases relWritten with
      | true =>
        rw [if_pos rfl, List.nil_append] at h
        obtain ⟨hplain, -⟩ := @ih hrest true partEnd read h hnonRel (by rw [hrel]; simp [mergedTokens])
        exact ⟨List.forall_mem_cons.mpr ⟨fun hfalse => Bool.noConfusion (hisRel.symm.trans hfalse), hplain⟩, nofun⟩
      | false =>
        have hany : (p :: params).any isRel = true := by rw [List.any_cons, hisRel, Bool.true_or]
        obtain ⟨text, htext, hparam⟩ := readParam_rel kept (writeParams kept true params)
        rw [if_neg Bool.false_ne_true, htext, readParams_param, hparam] at h
        obtain ⟨q, hq, h⟩ := Option.bind_eq_some_iff.mp h
        obtain ⟨⟨value, after⟩, hquoted, rfl⟩ := Option.map_eq_some_iff.mp hq
        obtain ⟨⟨read', rest', end'⟩, hread', heq⟩ := Option.map_eq_some_iff.mp h
        obtain ⟨rfl, hends⟩ := Prod.mk.inj heq
        obtain ⟨rfl, rfl⟩ := Prod.mk.inj hends
        rw [addParam_of_ne (show ascii "rel" ≠ [] by decide)] at hnonRel hrel
        obtain ⟨hrelTokens, hrelNon⟩ := relTokens_cons_rel (isRel_rel value) read'
        rw [hrelNon] at hnonRel
        have htokens : tokens value ++ relTokens read' = tokens kept := by
          rw [← hrelTokens, hrel, mergedTokens, if_pos ⟨rfl, hany⟩]
        obtain ⟨hone, hnone⟩ := one_rel hrest hquoted hread' hnonRel htokens
        obtain ⟨hkept, hafter⟩ := plain_of_readQuoted (hfollow true params) hquoted hone
        obtain rfl : after = writeParams kept true params := hafter
        obtain ⟨hplain, -⟩ := @ih hrest true _ read' hread' hnonRel (by rw [hnone]; simp [mergedTokens])
        exact ⟨List.forall_mem_cons.mpr ⟨fun hfalse => Bool.noConfusion (hisRel.symm.trans hfalse), hplain⟩,
          fun _ _ => hkept⟩
    | false =>
      obtain ⟨-, hkeep⟩ := relTokens_cons_other hisRel params
      obtain ⟨text, htext, -, hread⟩ := readParam_written hne hname (hfollow relWritten params)
      rw [if_neg (fun h => Bool.false_ne_true (hisRel ▸ hiff.mpr h)), htext, readParams_param] at h
      obtain ⟨⟨q, after⟩, hparam, h⟩ := Option.bind_eq_some_iff.mp h
      obtain ⟨⟨read', rest', end'⟩, hread', heq⟩ := Option.map_eq_some_iff.mp h
      obtain ⟨rfl, hends⟩ := Prod.mk.inj heq
      obtain ⟨rfl, rfl⟩ := Prod.mk.inj hends
      obtain ⟨hq, hexact⟩ := hread q after hparam
      have hqRel : isRel q = false := by rw [← hisRel, isRel, isRel, hq]
      obtain ⟨hrelTokens, hrelNon⟩ := relTokens_cons_other hqRel read'
      rw [addParam_of_ne (by rw [hq]; exact hne)] at hnonRel hrel
      rw [hrelNon, hkeep] at hnonRel
      obtain ⟨rfl, hnonRel'⟩ := List.cons.inj hnonRel
      obtain ⟨hplainHere, rfl⟩ := hexact rfl
      obtain ⟨hplain, hkept⟩ := ih hrest hread' hnonRel' (by rw [← hrelTokens, hrel, mergedTokens_cons_other hisRel])
      refine ⟨List.forall_mem_cons.mpr ⟨fun _ => hplainHere, hplain⟩, fun hfalse hany => hkept hfalse ?_⟩
      rwa [List.any_cons, hisRel, Bool.false_or] at hany

def otherTokens (v : LinkValue) (token : GoogleString) : List GoogleString :=
  (relTokens v.params).filter fun t => !stringCaseEqual t token

def DropsOnlyToken (v : LinkValue) (token : GoogleString) : Prop :=
  linkValueWithoutRelToken v token ≠ [] →
    ∃ read, splitLinkHeader (linkValueWithoutRelToken v token) = ([read], true) ∧ read.target = v.target ∧
      nonRel read.params = nonRel v.params ∧ relTokens read.params = otherTokens v token

def NeedsNoEscapes (v : LinkValue) (token : GoogleString) : Prop :=
  (∀ t ∈ otherTokens v token, 34 ∉ t ∧ 92 ∉ t) ∧ ∀ p ∈ v.params, IsPlainParam p

theorem keptTokens_spec {v : LinkValue} (hv : WellRead v) (token : GoogleString) :
    tokens (keptTokens v token) = otherTokens v token ∧ (keptTokens v token = [] ↔ otherTokens v token = []) := by
  have hfilter : v.params.filter (·.1 = ascii "rel") = v.params.filter isRel := by
    refine List.filter_congr fun p hp => ?_
    rw [Bool.eq_iff_iff, decide_eq_true_eq, isRel_iff (hv.2 p hp).2]
  have hkept : keptTokens v token = (otherTokens v token).foldl keepToken [] := by
    rw [keptTokens, hfilter]
    rfl
  have hother : ∀ t ∈ otherTokens v token, t ≠ [] ∧ ∀ c ∈ t, isOws c = false := by
    intro t ht
    obtain ⟨p, -, hp⟩ := List.mem_flatMap.mp (List.mem_of_mem_filter ht)
    exact tokens_spec hp
  have htokens : tokens (keptTokens v token) = otherTokens v token := by
    rw [hkept, tokens_keep hother]
    rfl
  refine ⟨htokens, fun h => ?_, fun h => ?_⟩
  · rw [← htokens, h]
    rfl
  · rw [hkept, h]
    rfl

theorem splitLinkHeader_written {target : GoogleString} (h : 62 ∉ target) (text : GoogleString) :
    splitLinkHeader ([60] ++ target ++ [62] ++ text) =
      match readParams text text with
      | some (params, rest, partEnd) =>
        ({ target := target, params := params, raw := ([60] ++ target ++ [62] ++ text).take
            (([60] ++ target ++ [62] ++ text).length - partEnd.length) } :: (splitLinkHeader rest).1,
          (splitLinkHeader rest).2)
      | none => ((splitLinkHeader (skipToNextValue false false ([60] ++ target ++ [62] ++ text))).1, false) := by
  have hne : ∀ c ∈ target, decide (c ≠ 62) = true := by
    intro c hc
    rw [decide_eq_true_eq]
    rintro rfl
    exact h hc
  have hwhole : [60] ++ target ++ [62] ++ text = 60 :: (target ++ 62 :: text) := by simp
  have htake : (target ++ 62 :: text).takeWhile (· ≠ 62) = target := by
    rw [List.takeWhile_append_of_pos hne, List.takeWhile_cons_of_neg (by decide), List.append_nil]
  have hdrop : (target ++ 62 :: text).dropWhile (· ≠ 62) = 62 :: text := by
    rw [List.dropWhile_append_of_pos hne, List.dropWhile_cons_of_neg (by decide)]
  have hskip : skipOws (60 :: (target ++ 62 :: text)) = 60 :: (target ++ 62 :: text) :=
    List.dropWhile_cons_of_neg (by decide)
  rw [hwhole, splitLinkHeader_turn, hskip]
  dsimp only
  rw [if_neg (by decide), valueAt, List.head?_cons, if_pos rfl, parseOne, List.drop_succ_cons, List.drop_zero, hdrop,
    htake]
  dsimp only
  cases readParams text text with
  | none => rfl
  | some read => rfl

theorem dropsOnlyToken_iff {line token : GoogleString} {v : LinkValue} (hv : v ∈ (splitLinkHeader line).1)
    (htoken : v.hasRel token = true) :
    DropsOnlyToken v token ↔ otherTokens v token = [] ∨ NeedsNoEscapes v token := by
  obtain ⟨htarget, hparams⟩ := wellRead_of_split v hv
  obtain ⟨htokens, hnone⟩ := keptTokens_spec (wellRead_of_split v hv) token
  have hany : v.params.any isRel = true := by
    obtain ⟨p, hp, hrel⟩ := List.any_eq_true.mp htoken
    exact List.any_eq_true.mpr ⟨p, hp, (Bool.and_eq_true_iff.mp hrel).1⟩
  have hmerged : mergedTokens (keptTokens v token) false v.params = otherTokens v token := by
    rw [mergedTokens, if_pos ⟨rfl, hany⟩, htokens]
  have hescapes : (34 ∉ keptTokens v token ∧ 92 ∉ keptTokens v token) ↔
      ∀ t ∈ otherTokens v token, 34 ∉ t ∧ 92 ∉ t := by
    rw [not_mem_iff_tokens (by decide), not_mem_iff_tokens (by decide), htokens]
    exact ⟨fun h t ht => ⟨h.1 t ht, h.2 t ht⟩, fun h => ⟨fun t ht => (h t ht).1, fun t ht => (h t ht).2⟩⟩
  have hout : linkValueWithoutRelToken v token = if keptTokens v token = [] then [] else
      [60] ++ v.target ++ [62] ++ writeParams (keptTokens v token) false v.params := by
    rw [linkValueWithoutRelToken, htoken]
    rfl
  by_cases hempty : otherTokens v token = []
  · refine iff_of_true (fun hne => absurd ?_ hne) (.inl hempty)
    rw [hout, if_pos (hnone.mpr hempty)]
  rw [if_neg (fun h => hempty (hnone.mp h))] at hout
  rw [DropsOnlyToken, hout, splitLinkHeader_written htarget, or_iff_right hempty]
  constructor
  · intro h
    obtain ⟨read, hsplit, -, hnonRel, hrel⟩ := h (by simp)
    split at hsplit
    · rename_i params rest partEnd hparamsRead
      obtain ⟨hlist, -⟩ := Prod.mk.inj hsplit
      obtain ⟨rfl, -⟩ := List.cons.inj hlist
      obtain ⟨hplain, hkept⟩ := plain_of_readParams hparams hparamsRead hnonRel (hrel.trans hmerged.symm)
      refine ⟨hescapes.mp (hkept rfl hany), fun p hp => ?_⟩
      cases hisRel : isRel p with
      | true => exact plain_of_isRel (hparams p hp).2 hisRel
      | false => exact hplain p hp hisRel
    · cases (Prod.mk.inj hsplit).2
  · rintro ⟨hplainTokens, hplain⟩ -
    obtain ⟨read, partEnd, hread, hnonRel, hrel⟩ := readParams_written hparams hplain
      (fun _ _ => hescapes.mpr hplainTokens) (writeParams (keptTokens v token) false v.params)
    rw [hread]
    have hnil : splitLinkHeader [] = ([], true) := splitLinkHeader_turn []
    dsimp only
    rw [hnil]
    exact ⟨_, rfl, rfl, hnonRel, hrel.trans hmerged⟩

theorem dropsOnlyToken_title : DropsOnlyToken
    ⟨ascii "x", [(ascii "rel", ascii "canonical preload"), (ascii "title", ascii "a \"b\"")],
      ascii "<x>; rel=\"canonical preload\"; title=\"a \\\"b\\\"\""⟩ (ascii "canonical") := by
  refine (@dropsOnlyToken_iff (ascii "<x>; rel=\"canonical preload\"; title=\"a \\\"b\\\"\"") _ _ ?_ ?_).mpr
    (.inr ⟨?_, ?_⟩)
  · decide +kernel
  · decide
  · decide
  · intro p hp _ hstar
    obtain rfl | hp := List.mem_cons.mp hp
    · exact absurd hstar (by decide)
    · obtain rfl := List.mem_singleton.mp hp
      exact absurd hstar (by decide)

/-- A token is written without the backslash that its quote needs, and the link-value is lost. -/
theorem dropsOnlyToken_quote : ∃ v ∈ (splitLinkHeader (ascii "<x>; rel=\"a\\\"b canonical\"")).1,
    v.hasRel (ascii "canonical") = true ∧
      linkValueWithoutRelToken v (ascii "canonical") = ascii "<x>; rel=\"a\"b\"" ∧
      splitLinkHeader (ascii "<x>; rel=\"a\"b\"") = ([], false) ∧ ¬DropsOnlyToken v (ascii "canonical") := by
  refine ⟨⟨ascii "x", [(ascii "rel", ascii "a\"b canonical")], ascii "<x>; rel=\"a\\\"b canonical\""⟩, ?_, ?_, ?_, ?_, ?_⟩
  · decide +kernel
  · decide
  · decide
  · decide +kernel
  · intro h
    obtain ⟨read, hsplit, -⟩ := h (by decide)
    have hlost : splitLinkHeader (linkValueWithoutRelToken
        ⟨ascii "x", [(ascii "rel", ascii "a\"b canonical")], ascii "<x>; rel=\"a\\\"b canonical\""⟩
        (ascii "canonical")) = ([], false) := by decide +kernel
    rw [hlost] at hsplit
    cases hsplit

end PageSpeed.Packs
