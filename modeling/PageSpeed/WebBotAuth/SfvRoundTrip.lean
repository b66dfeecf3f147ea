import PageSpeed.WebBotAuth.SignatureBase
import Mathlib.Data.List.Induction

/-!
What `SerializeSignatureParams` writes of a parsed member is read as that member, however lax the parser
was with the header it came from.
-/

namespace PageSpeed.WebBotAuth

def Stops (p : UInt8 → Bool) (rest : GoogleString) : Prop := ∀ c ∈ rest.head?, p c = false

variable {s v name rest : GoogleString} {inner : SfvInnerList}

theorem span_stops {p : UInt8 → Bool} (hs : s.all p = true) (hrest : Stops p rest) :
    (s ++ rest).takeWhile p = s ∧ (s ++ rest).dropWhile p = rest := by
  have hall := List.all_eq_true.mp hs
  rw [List.takeWhile_append_of_pos hall, List.dropWhile_append_of_pos hall]
  cases rest with
  | nil => simp
  | cons c rest =>
    have hc := hrest c rfl
    simp [hc]

def ParamEnds (rest : GoogleString) : Prop := rest = [] ∨ ∃ tail, rest = 59 :: tail

theorem ParamEnds.stops (h : ParamEnds rest) {p : UInt8 → Bool} (hp : p 59 = false) : Stops p rest := by
  obtain rfl | ⟨tail, rfl⟩ := h
  · nofun
  · rintro c hc
    cases hc
    exact hp

def IsKey (name : GoogleString) : Prop := ∃ c s, name = c :: s ∧ isKeyStart c = true ∧ s.all isKeyChar = true

def IsToken (v : GoogleString) : Prop := ∃ c s, v = c :: s ∧ isTokenStart c = true ∧ s.all isTokenChar = true

def IsText (s : GoogleString) : Prop := ∀ c ∈ s, 0x20 ≤ c ∧ c ≠ 0x7f

def SfvValue.Parsed : SfvValue → Prop
  | .integer v => v.toInt.natAbs < 10 ^ 15
  | .string s => IsText s
  | .token v => IsToken v
  | .boolean => True

def SfvParam.Parsed (p : SfvParam) : Prop := IsKey p.name ∧ p.value.Parsed

structure SfvInnerList.Parsed (inner : SfvInnerList) : Prop where
  components : ∀ comp ∈ inner.components, IsText comp
  params : ∀ p ∈ inner.params, p.Parsed

theorem parseKey_key (h : IsKey name) (hrest : Stops isKeyChar rest) :
    parseKey (name ++ rest) = some (name, rest) := by
  obtain ⟨c, s, rfl, hc, hs⟩ := h
  obtain ⟨htake, hdrop⟩ := span_stops hs hrest
  rw [List.cons_append, parseKey, if_pos hc, htake, hdrop]

theorem isKey_of_parseKey (h : parseKey s = some (name, rest)) : IsKey name := by
  cases s with
  | nil => cases h
  | cons c s =>
    rw [parseKey] at h
    split_ifs at h with hc
    cases h
    exact ⟨c, _, rfl, hc, List.all_takeWhile⟩

theorem parseToken_token (h : IsToken v) (hrest : Stops isTokenChar rest) :
    parseToken (v ++ rest) = some (v, rest) := by
  obtain ⟨c, s, rfl, hc, hs⟩ := h
  obtain ⟨htake, hdrop⟩ := span_stops hs hrest
  rw [List.cons_append, parseToken, if_pos hc, htake, hdrop]

theorem isToken_of_parseToken (h : parseToken s = some (v, rest)) : IsToken v := by
  cases s with
  | nil => cases h
  | cons c s =>
    rw [parseToken] at h
    split_ifs at h with hc
    cases h
    exact ⟨c, _, rfl, hc, List.all_takeWhile⟩

def escapeChar (c : UInt8) : GoogleString := if c = 34 ∨ c = 92 then [92, c] else [c]

theorem parseStringRest_plain {c : UInt8} (hquote : c ≠ 34) (hescape : c ≠ 92) (htext : 0x20 ≤ c ∧ c ≠ 0x7f)
    (s : GoogleString) : parseStringRest (c :: s) = (parseStringRest s).map fun (out, s) => (c :: out, s) := by
  have hcontrol : ¬(c < 0x20 ∨ c = 0x7f) := by
    rintro (hlt | heq)
    · exact UInt8.not_lt.mpr htext.1 hlt
    · exact htext.2 heq
  rw [parseStringRest, if_neg hquote, if_neg hcontrol]
  · rintro rfl
    exact absurd rfl hescape
  · rintro e s' rfl
    exact absurd rfl hescape

theorem parseStringRest_escape (h : IsText s) (rest : GoogleString) :
    parseStringRest (s.flatMap escapeChar ++ 34 :: rest) = some (s, rest) := by
  induction s with
  | nil => rw [List.flatMap_nil, List.nil_append, parseStringRest, if_pos rfl] <;> simp
  | cons c s ih =>
    obtain ⟨hc, hs⟩ := List.forall_mem_cons.mp h
    rw [List.flatMap_cons, List.append_assoc, escapeChar]
    by_cases hescape : c = 34 ∨ c = 92
    · rw [if_pos hescape, List.cons_append, List.singleton_append, parseStringRest, if_neg (by tauto), ih hs]
      rfl
    · rw [if_neg hescape, List.singleton_append, parseStringRest_plain (by tauto) (by tauto) hc, ih hs]
      rfl

theorem parseString_serialize (h : IsText s) (rest : GoogleString) :
    parseString (serializeString s ++ rest) = some (s, rest) := by
  have hquote : serializeString s ++ rest = 34 :: (s.flatMap escapeChar ++ 34 :: rest) := by
    simp only [serializeString, List.append_assoc, List.cons_append, List.nil_append]
    rfl
  rw [hquote, parseString, consume, if_pos rfl]
  exact parseStringRest_escape h rest

theorem isText_of_parseStringRest {out : GoogleString} (h : parseStringRest s = some (out, rest)) : IsText out := by
  induction s using parseStringRest.induct generalizing out with
  | case1 => cases h
  | case2 => cases h
  | case3 e s he =>
    rw [parseStringRest, if_pos he] at h
    cases h
  | case4 e s he ih =>
    rw [parseStringRest, if_neg he] at h
    obtain ⟨more, hnext, rfl⟩ := Reader.map_eq_some h
    refine List.forall_mem_cons.mpr ⟨?_, ih hnext⟩
    obtain rfl | rfl : e = 34 ∨ e = 92 := by tauto
    · decide
    · decide
  | case5 s hlone hescape =>
    rw [parseStringRest, if_pos rfl] at h
    · cases h
      exact List.forall_mem_nil _
    · exact hlone
    · exact hescape
  | case6 c s hlone hescape hquote hcontrol =>
    rw [parseStringRest, if_neg hquote, if_pos hcontrol] at h
    · cases h
    · exact hlone
    · exact hescape
  | case7 c s hlone hescape hquote hcontrol ih =>
    rw [parseStringRest, if_neg hquote, if_neg hcontrol] at h
    · obtain ⟨more, hnext, rfl⟩ := Reader.map_eq_some h
      rw [not_or, UInt8.not_lt] at hcontrol
      exact List.forall_mem_cons.mpr ⟨hcontrol, ih hnext⟩
    · exact hlone
    · exact hescape

theorem isText_of_parseString {out : GoogleString} (h : parseString s = some (out, rest)) : IsText out := by
  obtain ⟨t, -, hrest⟩ := Option.bind_eq_some_iff.mp h
  exact isText_of_parseStringRest hrest

theorem isDigit_eq (c : UInt8) : Decimal.isDigit c = isDigit c := by
  rw [Decimal.isDigit, isDigit, Bool.decide_and]

theorem value_lt {digits : GoogleString} (h : digits.all isDigit = true) : digitsValue digits < 10 ^ digits.length := by
  induction digits using List.reverseRecOn with
  | nil => decide
  | append_singleton digits c ih =>
    rw [List.all_append, Bool.and_eq_true, List.all_cons, List.all_nil, Bool.and_true, isDigit, decide_eq_true_eq] at h
    have hlt := ih h.1
    have hvalue : digitsValue (digits ++ [c]) = 10 * digitsValue digits + (c.toNat - 48) := Decimal.value_append digits c
    have hdigit : c.toNat ≤ 57 := h.2.2
    rw [hvalue, List.length_append, List.length_singleton, Nat.pow_succ]
    omega

theorem length_digits {fuel k n : ℕ} (h : n < 10 ^ (k + 1)) : (Decimal.digits fuel n).length ≤ k + 1 := by
  induction fuel generalizing k n with
  | zero => exact Nat.zero_le _
  | succ fuel ih =>
    rw [Decimal.digits]
    split_ifs with hlt
    · exact Nat.succ_le_succ (Nat.zero_le k)
    · cases k with
      | zero => omega
      | succ k =>
        have hdiv : n / 10 < 10 ^ (k + 1) := by
          rw [Nat.pow_succ] at h
          omega
        have hle := ih hdiv
        rw [List.length_append, List.length_singleton]
        omega

theorem parseInteger_digits {neg : Bool} {digits : GoogleString} (hdigits : digits.all isDigit = true)
    (hne : digits ≠ []) (hlen : digits.length ≤ 15) (hrest : Stops isDigit rest) :
    parseInteger ((if neg then [45] else []) ++ digits ++ rest) =
      some (if neg then -Int64.ofNat (digitsValue digits) else Int64.ofNat (digitsValue digits), rest) := by
  obtain ⟨htake, hdrop⟩ := span_stops hdigits hrest
  have hcond : ¬(digits = [] ∨ 15 < digits.length) := by
    rintro (h | h)
    · exact hne h
    · omega
  cases neg with
  | true =>
    have hpeek : peek (45 :: (digits ++ rest)) = 45 := rfl
    simp only [parseInteger, if_true, List.cons_append, List.nil_append, hpeek, List.drop_succ_cons, List.drop_zero,
      htake, hdrop, if_neg hcond]
  | false =>
    have hpeek : peek (digits ++ rest) ≠ 45 := by
      obtain ⟨c, digits, rfl⟩ := List.exists_cons_of_ne_nil hne
      rw [List.all_cons, Bool.and_eq_true] at hdigits
      rintro rfl
      exact absurd hdigits.1 (by decide)
    simp only [parseInteger, Bool.false_eq_true, if_false, List.nil_append, hpeek, htake, hdrop, if_neg hcond]

theorem parseInteger_text {v : Int64} (hv : v.toInt.natAbs < 10 ^ 15) (hrest : Stops isDigit rest) :
    parseInteger (Decimal.text.integer64ToString v ++ rest) = some (v, rest) := by
  have htext : Decimal.text.integer64ToString v =
      (if decide (v.toInt < 0) then [45] else []) ++ Decimal.digits 20 v.toInt.natAbs := by
    change (if v.toInt < 0 then 45 :: _ else _) = _
    by_cases hneg : v.toInt < 0 <;> simp [hneg]
  have hdigits : (Decimal.digits 20 v.toInt.natAbs).all isDigit = true := by
    rw [← funext isDigit_eq]
    exact Decimal.digits_all 20 _
  have hvalue : digitsValue (Decimal.digits 20 v.toInt.natAbs) = v.toInt.natAbs :=
    Decimal.value_digits 20 _ (by omega)
  rw [htext, parseInteger_digits hdigits (Decimal.digits_ne_nil 19 _) (length_digits hv) hrest, hvalue]
  refine congrArg (fun n => some (n, rest)) (Int64.toInt_inj.mp ?_)
  by_cases hneg : v.toInt < 0
  · rw [if_pos (decide_eq_true hneg), Int64.toInt_neg_ofNat_of_le (by omega)]
    omega
  · rw [if_neg (by simpa using hneg), Int64.toInt_ofNat_of_lt (by omega)]
    omega

theorem small_of_parseInteger {v : Int64} (h : parseInteger s = some (v, rest)) : v.toInt.natAbs < 10 ^ 15 := by
  rw [parseInteger] at h
  simp only at h
  generalize (if peek s = 45 then s.drop 1 else s) = t at h
  have hlt := value_lt (List.all_takeWhile (p := isDigit) (l := t))
  by_cases hbad : t.takeWhile isDigit = [] ∨ 15 < (t.takeWhile isDigit).length
  · rw [if_pos hbad] at h
    cases h
  · have hsmall : digitsValue (t.takeWhile isDigit) < 10 ^ 15 :=
      hlt.trans_le (Nat.pow_le_pow_right (by decide) (Nat.le_of_not_lt fun hlong => hbad (.inr hlong)))
    rw [if_neg hbad] at h
    injection h with heq
    injection heq with hv _
    rw [← hv]
    split_ifs
    · rw [Int64.toInt_neg_ofNat_of_le (by omega)]
      omega
    · rw [Int64.toInt_ofNat_of_lt (by omega)]
      omega

theorem parseValue_serialize {v : SfvValue} (hv : v.Parsed) (p : SfvParam) (hp : p.value = v)
    (hrest : ParamEnds rest) :
    (∃ text, serializeParam Decimal.text p = 59 :: p.name ++ 61 :: text ∧ parseValue (text ++ rest) = some (v, rest)) ∨
      v = .boolean ∧ serializeParam Decimal.text p = 59 :: p.name := by
  cases v with
  | integer n =>
    left
    refine ⟨_, by rw [serializeParam, hp], ?_⟩
    have hread := parseInteger_text hv (hrest.stops (p := isDigit) (by decide))
    obtain ⟨c, text, htext⟩ := List.exists_cons_of_ne_nil (Decimal.lawful.nonempty n)
    have hc := Decimal.lawful.digits n c (by rw [htext]; exact List.mem_cons_self)
    have hpeek : peek (Decimal.text.integer64ToString n ++ rest) = c := by rw [htext]; rfl
    have hquote : c ≠ 34 := by
      rintro rfl
      exact absurd hc (by decide)
    have hnumber : c = 45 ∨ isDigit c = true := by rwa [isDigit, decide_eq_true_eq]
    rw [parseValue, hpeek, if_neg hquote, if_pos hnumber, hread]
    rfl
  | string s =>
    left
    refine ⟨_, by rw [serializeParam, hp], ?_⟩
    have hpeek : peek (serializeString s ++ rest) = 34 := rfl
    rw [parseValue, if_pos hpeek, parseString_serialize hv]
    rfl
  | token t =>
    left
    refine ⟨_, by rw [serializeParam, hp], ?_⟩
    have hread := parseToken_token hv (hrest.stops (p := isTokenChar) (by decide))
    obtain ⟨c, s, rfl, hc, -⟩ := hv
    have hpeek : peek (c :: s ++ rest) = c := rfl
    have hquote : c ≠ 34 := by
      rintro rfl
      exact absurd hc (by decide)
    have hnumber : ¬(c = 45 ∨ isDigit c = true) := by
      unfold isTokenStart isAlpha at hc
      unfold isDigit
      grind
    rw [parseValue, hpeek, if_neg hquote, if_neg hnumber, hread]
    rfl
  | boolean =>
    right
    exact ⟨rfl, by rw [serializeParam, hp]⟩

theorem skipSpaces_key (h : IsKey name) (rest : GoogleString) : skipSpaces (name ++ rest) = name ++ rest := by
  obtain ⟨c, s, rfl, hc, -⟩ := h
  have hspace : isOws c = false := by
    unfold isKeyStart at hc
    unfold isOws
    grind
  rw [skipSpaces, List.cons_append, List.dropWhile_cons_of_neg (by rw [hspace]; exact Bool.false_ne_true)]

theorem consume_self (c : UInt8) (s : GoogleString) : consume c (c :: s) = some s := by rw [consume, if_pos rfl]

theorem parseParam_serialize {p : SfvParam} (hp : p.Parsed) (hrest : ParamEnds rest) :
    parseParam (serializeParam Decimal.text p ++ rest) = some (p, rest) := by
  obtain ⟨name, v⟩ := p
  obtain ⟨hname, hv⟩ := hp
  obtain ⟨text, htext, hread⟩ | ⟨hbool, htext⟩ := parseValue_serialize hv ⟨name, v⟩ rfl hrest
  · have hstop : Stops isKeyChar (61 :: (text ++ rest)) := by
      rintro c hc
      cases hc
      decide
    have hkey := parseKey_key hname hstop
    rw [htext, List.append_assoc, List.cons_append, List.cons_append, parseParam, consume_self]
    simp only [Option.bind_eq_bind, Option.bind_some, skipSpaces_key hname, hkey, consume_self, hread]
    rfl
  · have hkey := parseKey_key hname (hrest.stops (p := isKeyChar) (by decide))
    have hconsume : consume 61 rest = none := by
      obtain rfl | ⟨tail, rfl⟩ := hrest
      · rfl
      · rw [consume, if_neg (by decide)]
    rw [htext, List.cons_append, parseParam, consume_self]
    simp only [Option.bind_eq_bind, Option.bind_some, skipSpaces_key hname, hkey, hconsume]
    exact congrArg (fun v => some (SfvParam.mk name v, rest)) hbool.symm

theorem serializeParam_head (p : SfvParam) : ∃ tail, serializeParam Decimal.text p = 59 :: tail := by
  obtain ⟨name, v⟩ := p
  cases v <;> exact ⟨_, rfl⟩

theorem paramEnds_serialize (params : List SfvParam) (hrest : ParamEnds rest) :
    ParamEnds (params.flatMap (serializeParam Decimal.text) ++ rest) := by
  cases params with
  | nil => exact hrest
  | cons p params =>
    obtain ⟨tail, htail⟩ := serializeParam_head p
    right
    exact ⟨_, by rw [List.flatMap_cons, htail]; rfl⟩

theorem parseParams_serialize {params : List SfvParam} (hparams : ∀ p ∈ params, p.Parsed) :
    parseParams (params.flatMap (serializeParam Decimal.text)) = some (params, []) := by
  induction params with
  | nil =>
    rw [List.flatMap_nil, parseParams_eq, if_neg (by decide)]
  | cons p params ih =>
    obtain ⟨hp, hrest⟩ := List.forall_mem_cons.mp hparams
    obtain ⟨tail, htail⟩ := serializeParam_head p
    have hpeek : peek (serializeParam Decimal.text p ++ params.flatMap (serializeParam Decimal.text)) = 59 := by
      rw [htail]
      rfl
    have hends : ParamEnds (params.flatMap (serializeParam Decimal.text)) := by
      rw [← List.append_nil (params.flatMap _)]
      exact paramEnds_serialize params (.inl rfl)
    rw [List.flatMap_cons, parseParams_eq, if_pos hpeek, parseParam_serialize hp hends, Option.bind_some]
    dsimp only
    rw [ih hrest]
    rfl

theorem parseComponent_serialize {comp : GoogleString} (h : IsText comp) (hrest : peek rest ≠ 59) :
    parseComponent (serializeString comp ++ rest) = some ((comp, false), skipSpaces rest) := by
  rw [parseComponent, parseString_serialize h]
  simp only [Option.bind_eq_bind, Option.bind_some, parseParams_eq rest, if_neg hrest]
  rfl

def componentTail (components : List GoogleString) : GoogleString :=
  components.flatMap fun comp => 32 :: serializeString comp

theorem skipSpaces_serializeString (comp rest : GoogleString) :
    skipSpaces (serializeString comp ++ rest) = serializeString comp ++ rest := rfl

theorem skipSpaces_components (components : List GoogleString) (rest : GoogleString) :
    skipSpaces ([32].intercalate (components.map serializeString) ++ 41 :: rest) =
      skipSpaces (componentTail components ++ 41 :: rest) := by
  cases components with
  | nil => rfl
  | cons comp components =>
    rw [List.map_cons, intercalate_cons, List.flatMap_map, componentTail, List.flatMap_cons]
    simp only [List.append_assoc, List.cons_append, List.nil_append]
    rfl

theorem parseComponents_serialize {components : List GoogleString} (h : ∀ comp ∈ components, IsText comp)
    (rest : GoogleString) :
    parseComponents (skipSpaces (componentTail components ++ 41 :: rest)) =
      some (components.map fun comp => (comp, false), 41 :: rest) := by
  induction components with
  | nil =>
    have hskip : skipSpaces (componentTail [] ++ 41 :: rest) = 41 :: rest := rfl
    rw [hskip, parseComponents_eq, if_neg fun hne => hne rfl]
    rfl
  | cons comp components ih =>
    obtain ⟨hcomp, hcomponents⟩ := List.forall_mem_cons.mp h
    have hskip : skipSpaces (componentTail (comp :: components) ++ 41 :: rest) =
        serializeString comp ++ (componentTail components ++ 41 :: rest) := by
      rw [componentTail, List.flatMap_cons, List.append_assoc]
      exact skipSpaces_serializeString comp _
    have hpeek : peek (serializeString comp ++ (componentTail components ++ 41 :: rest)) = 34 := rfl
    have hends : peek (componentTail components ++ 41 :: rest) ≠ 59 := by
      cases components with
      | nil => exact (by decide : (41 : UInt8) ≠ 59)
      | cons next components => exact (by decide : (32 : UInt8) ≠ 59)
    rw [hskip, parseComponents_eq, if_pos (by rw [hpeek]; decide), parseComponent_serialize hcomp hends, Option.bind_some]
    dsimp only
    rw [ih hcomponents]
    rfl

theorem parseInnerList_serialize (h : inner.Parsed) (hplain : inner.anyComponentParams = false) :
    parseInnerList (serializeSignatureParams Decimal.text inner) = some (inner, []) := by
  have hany : (inner.components.map fun comp => (comp, false)).any Prod.snd = false := by
    rw [List.any_map]
    exact List.any_eq_false.mpr fun _ _ => Bool.false_ne_true
  rw [serializeSignatureParams, parseInnerList]
  simp only [Option.bind_eq_bind, List.cons_append, consume_self, Option.bind_some, skipSpaces_components,
    parseComponents_serialize h.components, parseParams_serialize h.params]
  rw [hany, List.map_map]
  obtain ⟨components, params, anyComponentParams⟩ := inner
  cases hplain
  simp [Function.comp_def]

theorem parsed_of_parseValue {v : SfvValue} (h : parseValue s = some (v, rest)) : v.Parsed := by
  rw [parseValue] at h
  split_ifs at h
  · obtain ⟨out, hstring, rfl⟩ := Reader.map_eq_some h
    exact isText_of_parseString hstring
  · obtain ⟨i, hinteger, rfl⟩ := Reader.map_eq_some h
    exact small_of_parseInteger hinteger
  · obtain ⟨out, htoken, rfl⟩ := Reader.map_eq_some h
    exact isToken_of_parseToken htoken

theorem parsed_of_parseParam (s : GoogleString) (p : SfvParam) (rest : GoogleString)
    (h : parseParam s = some (p, rest)) : p.Parsed := by
  obtain ⟨t, ht, h⟩ := Option.bind_eq_some_iff.mp h
  obtain ⟨⟨name, u⟩, hkey, h⟩ := Option.bind_eq_some_iff.mp h
  cases hu : consume 61 u with
  | none =>
    simp only [hu] at h
    cases h
    exact ⟨isKey_of_parseKey hkey, trivial⟩
  | some w =>
    simp only [hu] at h
    obtain ⟨⟨value, x⟩, hvalue, h⟩ := Option.bind_eq_some_iff.mp h
    cases h
    exact ⟨isKey_of_parseKey hkey, parsed_of_parseValue hvalue⟩

theorem parsed_of_parseParams {params : List SfvParam}
    (h : parseParams s = some (params, rest)) : ∀ p ∈ params, p.Parsed :=
  Reader.of_many progress_parseParam parsed_of_parseParam h

theorem isText_of_parseComponent (s : GoogleString) (item : GoogleString × Bool) (rest : GoogleString)
    (h : parseComponent s = some (item, rest)) : IsText item.1 := by
  obtain ⟨⟨comp, t⟩, hcomp, h⟩ := Option.bind_eq_some_iff.mp h
  obtain ⟨⟨itemParams, u⟩, -, h⟩ := Option.bind_eq_some_iff.mp h
  cases h
  exact isText_of_parseString hcomp

theorem parsed_of_parseInnerList (h : parseInnerList s = some (inner, rest)) : inner.Parsed := by
  obtain ⟨t, -, h⟩ := Option.bind_eq_some_iff.mp h
  obtain ⟨⟨items, u⟩, hitems, h⟩ := Option.bind_eq_some_iff.mp h
  obtain ⟨v, -, h⟩ := Option.bind_eq_some_iff.mp h
  obtain ⟨⟨params, w⟩, hparams, h⟩ := Option.bind_eq_some_iff.mp h
  cases h
  refine ⟨fun comp hcomp => ?_, parsed_of_parseParams hparams⟩
  obtain ⟨item, hitem, rfl⟩ := List.mem_map.mp hcomp
  exact Reader.of_many progress_parseComponent isText_of_parseComponent hitems item hitem

theorem parsed_of_parseDictMember {member : SfvDictMember}
    (h : parseDictMember s = some (member, rest)) : IsKey member.label ∧ member.inner.Parsed := by
  obtain ⟨⟨label, t⟩, hlabel, h⟩ := Option.bind_eq_some_iff.mp h
  obtain ⟨u, -, h⟩ := Option.bind_eq_some_iff.mp h
  obtain ⟨⟨inner, v⟩, hinner, h⟩ := Option.bind_eq_some_iff.mp h
  cases h
  exact ⟨isKey_of_parseKey hlabel, parsed_of_parseInnerList hinner⟩

theorem parsed_of_parseDictMembers {room : ℕ} {out members : List SfvDictMember}
    (hout : ∀ member ∈ out, IsKey member.label ∧ member.inner.Parsed)
    (h : parseDictMembers room out s = some members) :
    ∀ member ∈ members, IsKey member.label ∧ member.inner.Parsed := by
  induction room generalizing out s with
  | zero => cases h
  | succ room ih =>
    obtain ⟨⟨member, t⟩, hmember, h⟩ := Option.bind_eq_some_iff.mp h
    have hnext : ∀ m ∈ out ++ [member], IsKey m.label ∧ m.inner.Parsed := by
      intro m hm
      obtain hm | hm := List.mem_append.mp hm
      · exact hout m hm
      · rw [List.mem_singleton.mp hm]
        exact parsed_of_parseDictMember hmember
    dsimp only at h
    split_ifs at h
    cases t with
    | nil =>
      cases h
      exact hnext
    | cons c t =>
      obtain ⟨u, -, h⟩ := Option.bind_eq_some_iff.mp h
      exact ih hnext h

theorem parseSignatureInputDict_serialize {member : SfvDictMember} (hlabel : IsKey member.label)
    (hinner : member.inner.Parsed) (hplain : member.inner.anyComponentParams = false) :
    parseSignatureInputDict (member.label ++ 61 :: serializeSignatureParams Decimal.text member.inner) =
      some [member] := by
  have hstop : Stops isKeyChar (61 :: serializeSignatureParams Decimal.text member.inner) := by
    rintro c hc
    cases hc
    decide
  have hread : parseDictMember (member.label ++ 61 :: serializeSignatureParams Decimal.text member.inner) =
      some (member, []) := by
    rw [parseDictMember, skipSpaces_key hlabel, parseKey_key hlabel hstop]
    simp only [Option.bind_eq_bind, Option.bind_some, consume_self, parseInnerList_serialize hinner hplain]
    rfl
  rw [parseSignatureInputDict, kMaxSignatureInputMembers, parseDictMembers, hread]
  rfl

def Printable (s : GoogleString) : Prop := ∀ c ∈ s, 0x20 ≤ c

theorem Printable.append {t : GoogleString} (hs : Printable s) (ht : Printable t) : Printable (s ++ t) :=
  fun c hc => (List.mem_append.mp hc).elim (hs c) (ht c)

theorem Printable.cons {c : UInt8} (hc : 0x20 ≤ c) (hs : Printable s) : Printable (c :: s) :=
  List.forall_mem_cons.mpr ⟨hc, hs⟩

theorem Printable.flatMap {α : Type} {f : α → GoogleString} {l : List α} (h : ∀ a ∈ l, Printable (f a)) :
    Printable (l.flatMap f) := by
  intro c hc
  obtain ⟨a, ha, hc⟩ := List.mem_flatMap.mp hc
  exact h a ha c hc

theorem IsKey.printable (h : IsKey name) : Printable name := by
  obtain ⟨c, s, rfl, hc, hs⟩ := h
  refine .cons ?_ fun d hd => ?_
  · unfold isKeyStart at hc
    grind
  · have hkey := List.all_eq_true.mp hs d hd
    unfold isKeyChar at hkey
    grind

theorem IsToken.printable (h : IsToken v) : Printable v := by
  obtain ⟨c, s, rfl, hc, hs⟩ := h
  refine .cons ?_ fun d hd => ?_
  · unfold isTokenStart isAlpha at hc
    grind
  · have htoken := List.all_eq_true.mp hs d hd
    unfold isTokenChar isAlnum isAlpha isDigit at htoken
    grind

theorem IsText.printable (h : IsText s) : Printable (serializeString s) := by
  refine .cons (by decide) (.append (.flatMap fun c hc => ?_) (.cons (by decide) nofun))
  have hlow := (h c hc).1
  split_ifs
  · exact .cons (by decide) (.cons hlow nofun)
  · exact .cons hlow nofun

theorem SfvParam.Parsed.printable {p : SfvParam} (h : p.Parsed) : Printable (serializeParam Decimal.text p) := by
  obtain ⟨name, v⟩ := p
  obtain ⟨hname, hv⟩ := h
  have hprint : Printable name := hname.printable
  cases v with
  | integer n =>
    refine .cons (by decide) (.append hprint (.cons (by decide) fun c hc => ?_))
    obtain rfl | hdigit := Decimal.lawful.digits n c hc
    · decide
    · exact UInt8.le_trans (b := 48) (by decide) hdigit.1
  | string s => exact .cons (by decide) (.append hprint (.cons (by decide) (IsText.printable hv)))
  | token t => exact .cons (by decide) (.append hprint (.cons (by decide) (IsToken.printable hv)))
  | boolean => exact .cons (by decide) hprint

theorem SfvInnerList.Parsed.printable (h : inner.Parsed) :
    Printable (serializeSignatureParams Decimal.text inner) := by
  refine .cons (by decide) (.append ?_ (.cons (by decide) (.flatMap fun p hp => (h.params p hp).printable)))
  cases hcomponents : inner.components with
  | nil => nofun
  | cons comp components =>
    have hall := h.components
    rw [hcomponents] at hall
    obtain ⟨hcomp, hrest⟩ := List.forall_mem_cons.mp hall
    rw [List.map_cons, intercalate_cons, List.flatMap_map]
    exact .append hcomp.printable (.flatMap fun next hnext => .cons (by decide) (hrest next hnext).printable)

/-- However lax the reading of a header was, what is written of a member of it is strict and names the same member. -/
theorem serialize_inverts_parse {value : GoogleString} {members : List SfvDictMember}
    (h : parseSignatureInputDict value = some members) {member : SfvDictMember} (hmember : member ∈ members)
    (hplain : member.inner.anyComponentParams = false) :
    parseSignatureInputDict (member.label ++ 61 :: serializeSignatureParams Decimal.text member.inner) = some [member] ∧
      ∀ c ∈ serializeSignatureParams Decimal.text member.inner, 0x20 ≤ c := by
  obtain ⟨hlabel, hinner⟩ := @parsed_of_parseDictMembers _ _ [] _ nofun h member hmember
  exact ⟨parseSignatureInputDict_serialize hlabel hinner hplain, hinner.printable⟩

def laxHeader : GoogleString :=
  ascii "s=(\t\"@a\"\"b\\\"\");created=007;neg=-0;t=ab:c;flag, r=(\"x\";sf)"

def laxMember : SfvDictMember :=
  ⟨ascii "s", ⟨[ascii "@a", ascii "b\""], [⟨ascii "created", .integer 7⟩, ⟨ascii "neg", .integer 0⟩,
    ⟨ascii "t", .token (ascii "ab:c")⟩, ⟨ascii "flag", .boolean⟩], false⟩⟩

theorem serialize_inverts_parse_lax :
    parseSignatureInputDict laxHeader = some [laxMember, ⟨ascii "r", ⟨[ascii "x"], [], true⟩⟩] ∧
      parseSignatureInputDict (laxMember.label ++ 61 :: serializeSignatureParams Decimal.text laxMember.inner) =
        some [laxMember] ∧
      ∀ c ∈ serializeSignatureParams Decimal.text laxMember.inner, 0x20 ≤ c := by
  have hparse : parseSignatureInputDict laxHeader = some [laxMember, ⟨ascii "r", ⟨[ascii "x"], [], true⟩⟩] := by
    decide
  exact ⟨hparse, serialize_inverts_parse hparse List.mem_cons_self rfl⟩

end PageSpeed.WebBotAuth
