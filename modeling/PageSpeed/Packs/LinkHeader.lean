import PageSpeed.Base.Ascii
import Mathlib.Data.List.TakeWhile

/-!
The link-values of a `Link` header field: `SplitLinkHeader` and what it calls of
`kernel/packs/link_header.cc`. A position is what is left of the field from it.
-/

namespace PageSpeed.Packs

abbrev Param := GoogleString × GoogleString

structure LinkValue where
  target : GoogleString
  params : List Param
  raw : GoogleString
deriving DecidableEq

def skipOws (s : GoogleString) : GoogleString := s.dropWhile isOws

def skipToNextValue : Bool → Bool → GoogleString → GoogleString
  | _, _, [] => []
  | true, inAngle, 92 :: _ :: s => skipToNextValue true inAngle s
  | true, inAngle, c :: s => skipToNextValue (c ≠ 34) inAngle s
  | false, true, c :: s => skipToNextValue false (c ≠ 62) s
  | false, false, c :: s =>
    if c = 34 then skipToNextValue true false s
    else if c = 60 then skipToNextValue false true s
    else if c = 44 then s
    else skipToNextValue false false s

def readQuoted : GoogleString → Option (GoogleString × GoogleString)
  | [] => none
  | 92 :: c :: s => (readQuoted s).map fun read => (c :: read.1, read.2)
  | c :: s => if c = 34 then some ([], s) else (readQuoted s).map fun read => (c :: read.1, read.2)

def isValueEnd (c : UInt8) : Bool := c = 59 ∨ c = 44 ∨ isOws c

def isNameEnd (c : UInt8) : Bool := c = 61 ∨ isValueEnd c

def readValue : GoogleString → Option (GoogleString × GoogleString)
  | 61 :: s =>
    match skipOws s with
    | 34 :: s => readQuoted s
    | s => some (s.takeWhile fun c => !isValueEnd c, s.dropWhile fun c => !isValueEnd c)
  | s => some ([], s)

def readParam (s : GoogleString) : Option (Param × GoogleString) :=
  let name := (skipOws s).takeWhile fun c => !isNameEnd c
  let rest := (skipOws s).dropWhile fun c => !isNameEnd c
  (readValue (skipOws rest)).map fun read => ((name.map lowerChar, read.1), read.2)

def inked (s : GoogleString) : ℕ := s.countP fun c => !isOws c

theorem inked_cons (c : UInt8) (s : GoogleString) : inked (c :: s) = inked s + if isOws c then 0 else 1 := by
  rw [inked, List.countP_cons, inked]
  cases isOws c with
  | false => rfl
  | true => rfl

variable {s rest value : GoogleString}

theorem readQuoted_split (h : readQuoted s = some (value, rest)) :
    ∃ read, s = read ++ 34 :: rest ∧ value.count 59 = read.count 59 ∧ value.length ≤ read.length ∧
      (92 ∉ read ∧ 34 ∉ read ∧ value = read ∨ inked value < inked read) := by
  induction s using readQuoted.induct generalizing value with
  | case1 => cases h
  | case2 c s ih =>
    rw [readQuoted] at h
    obtain ⟨⟨value', rest'⟩, hread, heq⟩ := Option.map_eq_some_iff.mp h
    obtain ⟨rfl, rfl⟩ := Prod.mk.inj heq
    obtain ⟨read, rfl, hcount, hlength, hweight⟩ := ih hread
    have hle : inked value' ≤ inked read := by
      obtain ⟨-, -, rfl⟩ | h := hweight
      · exact Nat.le_refl _
      · exact Nat.le_of_lt h
    have hback : inked (92 :: c :: read) = inked (c :: read) + 1 := inked_cons 92 (c :: read)
    refine ⟨92 :: c :: read, rfl, ?_, ?_, .inr ?_⟩
    · simp [List.count_cons, hcount]
    · simp only [List.length_cons]
      omega
    · have hread := inked_cons c read
      have hvalue := inked_cons c value'
      change inked (c :: value') < inked (92 :: c :: read)
      omega
  | case3 s =>
    rw [readQuoted, if_pos rfl] at h
    · obtain ⟨rfl, rfl⟩ := Prod.mk.inj (Option.some.inj h)
      exact ⟨[], rfl, rfl, Nat.le_refl _, .inl ⟨by simp, by simp, rfl⟩⟩
    · assumption
  | case4 c s hnot hc ih =>
    rw [readQuoted, if_neg hc] at h
    · obtain ⟨⟨value', rest'⟩, hread, heq⟩ := Option.map_eq_some_iff.mp h
      obtain ⟨rfl, rfl⟩ := Prod.mk.inj heq
      obtain ⟨read, rfl, hcount, hlength, hweight⟩ := ih hread
      -- A backslash before more text is an escape.
      have hback : c ≠ 92 := by
        rintro rfl
        cases read with
        | nil => exact hnot _ _ rfl rfl
        | cons b read => exact hnot _ _ rfl rfl
      refine ⟨c :: read, rfl, by simp [List.count_cons, hcount], by simp only [List.length_cons]; omega, ?_⟩
      obtain ⟨hfree, hquote, rfl⟩ | hlt := hweight
      · exact .inl ⟨by simp [hfree, hback.symm], by simp [hquote, Ne.symm hc], rfl⟩
      · have hread := inked_cons c read
        have hvalue := inked_cons c value'
        refine .inr ?_
        change inked (c :: value') < _
        omega
    · assumption

def quote (value : GoogleString) : GoogleString := value.flatMap fun c => if c = 34 ∨ c = 92 then [92, c] else [c]

theorem readQuoted_quote (value rest : GoogleString) : readQuoted (quote value ++ 34 :: rest) = some (value, rest) := by
  induction value with
  | nil => rfl
  | cons c value ih =>
    rw [quote, List.flatMap_cons, ← quote, List.append_assoc]
    split_ifs with hc
    · change (readQuoted (quote value ++ 34 :: rest)).map _ = _
      rw [ih]
      rfl
    · rw [not_or] at hc
      rw [List.singleton_append, readQuoted, if_neg hc.1, ih]
      · rfl
      · intro _ _ h
        exact absurd h hc.2

theorem readQuoted_plain (h : 34 ∉ value ∧ 92 ∉ value) (rest : GoogleString) :
    readQuoted (value ++ 34 :: rest) = some (value, rest) := by
  have hquote : quote value = value := by
    induction value with
    | nil => rfl
    | cons c value ih =>
      simp only [List.mem_cons, not_or] at h
      rw [quote, List.flatMap_cons, ← quote, ih ⟨h.1.2, h.2.2⟩, if_neg (by grind), List.singleton_append]
  conv_lhs => rw [← hquote]
  exact readQuoted_quote value rest

theorem count_le_of_suffix (h : rest <:+ s) : rest.count 59 ≤ s.count 59 := h.sublist.count_le 59

theorem readValue_spec (h : readValue s = some (value, rest)) :
    rest <:+ s ∧ value.count 59 + rest.count 59 ≤ s.count 59 := by
  unfold readValue at h
  split at h
  · rename_i s
    have hows : skipOws s <:+ 61 :: s := (List.dropWhile_suffix _).trans (List.suffix_cons 61 s)
    have hcount := count_le_of_suffix hows
    split at h
    · rename_i text hquoted
      obtain ⟨read, rfl, hread, -⟩ := readQuoted_split h
      rw [hquoted] at hows hcount
      refine ⟨List.IsSuffix.trans ⟨34 :: (read ++ [34]), by simp⟩ hows, ?_⟩
      simp only [List.count_cons, List.count_append] at hcount ⊢
      rw [hread]
      simpa using hcount
    · obtain ⟨rfl, rfl⟩ := Prod.mk.inj (Option.some.inj h)
      refine ⟨(List.dropWhile_suffix _).trans hows, ?_⟩
      rwa [← List.count_append, List.takeWhile_append_dropWhile]
  · obtain ⟨rfl, rfl⟩ := Prod.mk.inj (Option.some.inj h)
    exact ⟨List.suffix_refl _, by simp⟩

theorem isNameEnd_lowerChar (c : UInt8) : isNameEnd (lowerChar c) = isNameEnd c := by
  unfold isNameEnd isValueEnd isOws lowerChar
  grind

theorem lowerChar_lowerChar (c : UInt8) : lowerChar (lowerChar c) = lowerChar c := by
  unfold lowerChar
  grind

def IsName (name : GoogleString) : Prop := (∀ c ∈ name, isNameEnd c = false) ∧ name.map lowerChar = name

theorem readParam_spec {p : Param} (h : readParam s = some (p, rest)) :
    rest <:+ s ∧ p.2.count 59 + rest.count 59 ≤ s.count 59 ∧ IsName p.1 := by
  obtain ⟨⟨value, rest'⟩, hread, heq⟩ := Option.map_eq_some_iff.mp h
  obtain ⟨rfl, rfl⟩ := Prod.mk.inj heq
  obtain ⟨hsuffix, hcount⟩ := readValue_spec hread
  have hrest : skipOws ((skipOws s).dropWhile fun c => !isNameEnd c) <:+ s :=
    (List.dropWhile_suffix _).trans ((List.dropWhile_suffix _).trans (List.dropWhile_suffix _))
  refine ⟨hsuffix.trans hrest, Nat.le_trans hcount (count_le_of_suffix hrest), fun c hc => ?_, ?_⟩
  · obtain ⟨b, hb, rfl⟩ := List.mem_map.mp hc
    rw [isNameEnd_lowerChar]
    simpa using List.mem_takeWhile_imp hb
  · rw [List.map_map]
    exact List.map_congr_left fun c _ => lowerChar_lowerChar c

def addParam (p : Param) (params : List Param) : List Param := if p.1 = [] then params else p :: params

def readParams (s partEnd : GoogleString) : Option (List Param × GoogleString × GoogleString) :=
  match _h : skipOws s with
  | [] => some ([], [], partEnd)
  | c :: text =>
    if c = 44 then some ([], c :: text, partEnd)
    else if c ≠ 59 then none
    else
      match _hp : readParam text with
      | none => none
      | some (p, rest) => (readParams rest rest).map fun read => (addParam p read.1, read.2)
termination_by s.length
decreasing_by
  have hlength := (readParam_spec _hp).1.length_le
  have hows := (List.dropWhile_suffix isOws (l := s)).length_le
  rw [← skipOws, _h, List.length_cons] at hows
  omega

theorem readParams_turn (s partEnd : GoogleString) : readParams s partEnd =
    match skipOws s with
    | [] => some ([], [], partEnd)
    | c :: text =>
      if c = 44 then some ([], c :: text, partEnd)
      else if c ≠ 59 then none
      else (readParam text).bind fun param =>
        (readParams param.2 param.2).map fun read => (addParam param.1 read.1, read.2) := by
  rw [readParams]
  split
  · rename_i h
    rw [h]
  · rename_i c text h
    rw [h]
    dsimp only
    split_ifs
    · rfl
    · rfl
    · split
      · rename_i hparam
        rw [hparam]
        rfl
      · rename_i hparam
        rw [hparam]
        rfl

theorem readParams_nil (partEnd : GoogleString) : readParams [] partEnd = some ([], [], partEnd) := readParams_turn _ _

theorem readParams_param (text partEnd : GoogleString) :
    readParams (59 :: text) partEnd = (readParam text).bind fun param =>
      (readParams param.2 param.2).map fun read => (addParam param.1 read.1, read.2) := readParams_turn _ _

def semis (params : List Param) : ℕ := (params.map fun p => 1 + p.2.count 59).sum

theorem readParams_spec {partEnd rest' : GoogleString} {params : List Param}
    (h : readParams s partEnd = some (params, rest, rest')) :
    rest <:+ s ∧ semis params ≤ s.count 59 ∧ ∀ p ∈ params, p.1 ≠ [] ∧ IsName p.1 := by
  have hows : skipOws s <:+ s := List.dropWhile_suffix _
  have hcount := count_le_of_suffix hows
  induction s, partEnd using readParams.induct generalizing params with
  | case1 s partEnd hs =>
    rw [readParams_turn, hs] at h
    obtain ⟨rfl, hrest⟩ := Prod.mk.inj (Option.some.inj h)
    obtain ⟨rfl, rfl⟩ := Prod.mk.inj hrest
    exact ⟨List.nil_suffix, Nat.zero_le _, nofun⟩
  | case2 s partEnd text hs =>
    rw [readParams_turn, hs] at h
    obtain ⟨rfl, hrest⟩ := Prod.mk.inj (Option.some.inj h)
    obtain ⟨rfl, rfl⟩ := Prod.mk.inj hrest
    exact ⟨hs ▸ hows, Nat.zero_le _, nofun⟩
  | case3 s partEnd c text hs hcomma hsemi =>
    rw [readParams_turn, hs] at h
    dsimp only at h
    rw [if_neg hcomma, if_pos hsemi] at h
    cases h
  | case4 s partEnd c text hs hcomma hsemi hnone =>
    rw [readParams_turn, hs] at h
    dsimp only at h
    rw [if_neg hcomma, if_neg hsemi, hnone] at h
    cases h
  | case5 s partEnd c text hs hcomma hsemi p after hparam ih =>
    obtain rfl := not_not.mp hsemi
    rw [readParams_turn, hs] at h
    dsimp only at h
    rw [if_neg hcomma, if_neg hsemi, hparam, Option.bind_some] at h
    obtain ⟨⟨params', rest₂⟩, hread, heq⟩ := Option.map_eq_some_iff.mp h
    obtain ⟨rfl, rfl⟩ := Prod.mk.inj heq
    obtain ⟨hafter, hafterCount, hname⟩ := readParam_spec hparam
    have hows' : skipOws after <:+ after := List.dropWhile_suffix _
    obtain ⟨hrest, hsemis, hnames⟩ := ih hread hows' (count_le_of_suffix hows')
    rw [hs] at hows hcount
    refine ⟨hrest.trans (hafter.trans ((List.suffix_cons 59 text).trans hows)), ?_, ?_⟩
    · rw [List.count_cons_self] at hcount
      dsimp only [addParam]
      split_ifs
      · omega
      · rw [semis, List.map_cons, List.sum_cons, ← semis]
        omega
    · dsimp only [addParam]
      split_ifs with hempty
      · exact hnames
      · exact List.forall_mem_cons.mpr ⟨⟨hempty, hname⟩, hnames⟩

def parseOne (s : GoogleString) : Option (LinkValue × GoogleString) :=
  match (s.drop 1).dropWhile (· ≠ 62) with
  | [] => none
  | _ :: text =>
    (readParams text text).map fun read =>
      ({ target := (s.drop 1).takeWhile (· ≠ 62)
         params := read.1
         raw := s.take (s.length - read.2.2.length) }, read.2.1)

theorem skipToNextValue_length (inQuote inAngle : Bool) (s : GoogleString) :
    (skipToNextValue inQuote inAngle s).length ≤ s.length := by
  fun_induction skipToNextValue inQuote inAngle s
  all_goals
    simp only [List.length_nil, List.length_cons]
    omega

theorem skipToNextValue_lt (c : UInt8) (s : GoogleString) :
    (skipToNextValue false false (c :: s)).length < (c :: s).length := by
  have hquote := skipToNextValue_length true false s
  have hangle := skipToNextValue_length false true s
  have hrest := skipToNextValue_length false false s
  rw [skipToNextValue, List.length_cons]
  split_ifs
  all_goals omega

theorem parseOne_spec {v : LinkValue} (h : parseOne s = some (v, rest)) :
    rest.length < s.length ∧ 62 ∉ v.target ∧ ∀ p ∈ v.params, p.1 ≠ [] ∧ IsName p.1 := by
  rw [parseOne] at h
  split at h
  · cases h
  · rename_i c text hclose
    obtain ⟨⟨params, rest', partEnd⟩, hread, heq⟩ := Option.map_eq_some_iff.mp h
    obtain ⟨rfl, rfl⟩ := Prod.mk.inj heq
    obtain ⟨hsuffix, -, hnames⟩ := readParams_spec hread
    have hlength := hsuffix.length_le
    have hdrop := (List.dropWhile_suffix (fun c : UInt8 => decide (c ≠ 62)) (l := s.drop 1)).length_le
    rw [hclose, List.length_cons, List.length_drop] at hdrop
    exact ⟨by dsimp only; omega, fun h => by simpa using List.mem_takeWhile_imp h, hnames⟩

def valueAt (s : GoogleString) : Option (LinkValue × GoogleString) := if s.head? = some 60 then parseOne s else none

theorem valueAt_spec {v : LinkValue} (h : valueAt s = some (v, rest)) :
    rest.length < s.length ∧ 62 ∉ v.target ∧ ∀ p ∈ v.params, p.1 ≠ [] ∧ IsName p.1 := by
  rw [valueAt] at h
  split_ifs at h
  exact parseOne_spec h

def splitLinkHeader (s : GoogleString) : List LinkValue × Bool :=
  match _h : skipOws s with
  | [] => ([], true)
  | c :: text =>
    if c = 44 then splitLinkHeader text
    else
      match _hv : valueAt (c :: text) with
      | some (v, rest) => (v :: (splitLinkHeader rest).1, (splitLinkHeader rest).2)
      | none => ((splitLinkHeader (skipToNextValue false false (c :: text))).1, false)
termination_by s.length
decreasing_by
  all_goals
    have hows := (List.dropWhile_suffix isOws (l := s)).length_le
    rw [← skipOws, _h] at hows
  · rw [List.length_cons] at hows
    omega
  · have hlt := (valueAt_spec _hv).1
    omega
  · have hlt := skipToNextValue_lt c text
    omega

theorem splitLinkHeader_turn (s : GoogleString) : splitLinkHeader s =
    match skipOws s with
    | [] => ([], true)
    | c :: text =>
      if c = 44 then splitLinkHeader text
      else
        match valueAt (c :: text) with
        | some (v, rest) => (v :: (splitLinkHeader rest).1, (splitLinkHeader rest).2)
        | none => ((splitLinkHeader (skipToNextValue false false (c :: text))).1, false) := by
  rw [splitLinkHeader]
  split
  · rename_i h
    rw [h]
  · rename_i c text h
    rw [h]
    dsimp only
    split_ifs
    · rfl
    · split
      · rename_i hv
        rw [hv]
      · rename_i hv
        rw [hv]

def WellRead (v : LinkValue) : Prop := 62 ∉ v.target ∧ ∀ p ∈ v.params, p.1 ≠ [] ∧ IsName p.1

theorem wellRead_of_split {line : GoogleString} : ∀ v ∈ (splitLinkHeader line).1, WellRead v := by
  induction line using splitLinkHeader.induct with
  | case1 line hs =>
    rw [splitLinkHeader_turn, hs]
    exact nofun
  | case2 line text hs ih =>
    rw [splitLinkHeader_turn, hs]
    exact ih
  | case3 line c text hs hcomma v rest hv ih =>
    rw [splitLinkHeader_turn, hs]
    dsimp only
    rw [if_neg hcomma, hv]
    exact List.forall_mem_cons.mpr ⟨(valueAt_spec hv).2, ih⟩
  | case4 line c text hs hcomma hv ih =>
    rw [splitLinkHeader_turn, hs]
    dsimp only
    rw [if_neg hcomma, hv]
    exact ih

end PageSpeed.Packs
