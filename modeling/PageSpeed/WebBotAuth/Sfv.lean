import PageSpeed.Lib.Reader
import PageSpeed.WebBotAuth.Base64

/-!
The structured-field parser of `kernel/webbotauth/sfv.cc`. The cursor of the source is the
rest of the text here.
-/

namespace PageSpeed.WebBotAuth

inductive SfvValue where
  | integer (intValue : Int64)
  | string (strValue : GoogleString)
  | token (strValue : GoogleString)
  | boolean
  deriving DecidableEq

structure SfvParam where
  name : GoogleString
  value : SfvValue
  deriving DecidableEq

structure SfvInnerList where
  components : List GoogleString
  params : List SfvParam
  anyComponentParams : Bool
  deriving DecidableEq

structure SfvDictMember where
  label : GoogleString
  inner : SfvInnerList
  deriving DecidableEq

def kMaxSignatureInputMembers : ℕ := 8

def peek (s : GoogleString) : UInt8 := s.headD 0

def skipSpaces (s : GoogleString) : GoogleString := s.dropWhile isOws

def consume (c : UInt8) : GoogleString → Option GoogleString
  | d :: s => if d = c then some s else none
  | [] => none

def isTokenStart (c : UInt8) : Bool := isAlpha c || c = 42

/-- `_`, `-`, `.`, `:`, `/` and `*` beside letters and digits. -/
def isTokenChar (c : UInt8) : Bool := isAlnum c || c = 95 || c = 45 || c = 46 || c = 58 || c = 47 || c = 42

def isKeyStart (c : UInt8) : Bool := (97 ≤ c ∧ c ≤ 122) || c = 42

def isKeyChar (c : UInt8) : Bool :=
  (97 ≤ c ∧ c ≤ 122) || (48 ≤ c ∧ c ≤ 57) || c = 95 || c = 45 || c = 46 || c = 42

variable {s : GoogleString}

theorem eq_cons_of_consume {c : UInt8} {t : GoogleString} (h : consume c s = some t) : s = c :: t := by
  cases s with
  | nil => cases h
  | cons d s =>
    rw [consume] at h
    split_ifs at h with hd
    injection h with hs
    rw [hd, hs]

theorem length_of_consume {c : UInt8} {t : GoogleString} (h : consume c s = some t) : t.length < s.length := by
  rw [eq_cons_of_consume h]
  exact Nat.lt_succ_self t.length

theorem length_skipSpaces (s : GoogleString) : (skipSpaces s).length ≤ s.length :=
  (List.dropWhile_sublist isOws).length_le

def parseStringRest : GoogleString → Option (GoogleString × GoogleString)
  | [] => none
  | [92] => none
  | 92 :: e :: s =>
    if e ≠ 34 ∧ e ≠ 92 then none else (parseStringRest s).map fun (out, s) => (e :: out, s)
  | c :: s =>
    if c = 34 then some ([], s)
    else if c < 0x20 ∨ c = 0x7f then none
    else (parseStringRest s).map fun (out, s) => (c :: out, s)

def parseString (s : GoogleString) : Option (GoogleString × GoogleString) := (consume 34 s).bind parseStringRest

theorem length_parseStringRest {out rest : GoogleString} (h : parseStringRest s = some (out, rest)) :
    rest.length < s.length := by
  induction s using parseStringRest.induct generalizing out with
  | case1 => cases h
  | case2 => cases h
  | case3 e s he =>
    rw [parseStringRest, if_pos he] at h
    cases h
  | case4 e s he ih =>
    rw [parseStringRest, if_neg he] at h
    obtain ⟨_, hnext, _⟩ := Reader.map_eq_some h
    have hlt := ih hnext
    simp only [List.length_cons]
    omega
  | case5 s hlone hescape =>
    rw [parseStringRest, if_pos rfl] at h
    · injection h with heq
      injection heq with _ hrest
      rw [← hrest]
      exact Nat.lt_succ_self s.length
    · exact hlone
    · exact hescape
  | case6 c s hlone hescape hquote hcontrol =>
    rw [parseStringRest, if_neg hquote, if_pos hcontrol] at h
    · cases h
    · exact hlone
    · exact hescape
  | case7 c s hlone hescape hquote hcontrol ih =>
    rw [parseStringRest, if_neg hquote, if_neg hcontrol] at h
    · obtain ⟨_, hnext, _⟩ := Reader.map_eq_some h
      exact Nat.lt_succ_of_lt (ih hnext)
    · exact hlone
    · exact hescape

def parseToken : GoogleString → Option (GoogleString × GoogleString)
  | c :: s => if isTokenStart c then some (c :: s.takeWhile isTokenChar, s.dropWhile isTokenChar) else none
  | [] => none

def digitsValue (digits : GoogleString) : ℕ := digits.foldl (fun n c => 10 * n + (c.toNat - 48)) 0

def parseInteger (s : GoogleString) : Option (Int64 × GoogleString) :=
  let neg := peek s = 45
  let s := if neg then s.drop 1 else s
  let digits := s.takeWhile isDigit
  if digits = [] ∨ 15 < digits.length then none
  else
    let v := Int64.ofNat (digitsValue digits)
    some (if neg then -v else v, s.dropWhile isDigit)

def parseKey : GoogleString → Option (GoogleString × GoogleString)
  | c :: s => if isKeyStart c then some (c :: s.takeWhile isKeyChar, s.dropWhile isKeyChar) else none
  | [] => none

/-- The value after the `=` of a parameter. -/
def parseValue (s : GoogleString) : Option (SfvValue × GoogleString) :=
  if peek s = 34 then (parseString s).map fun (v, s) => (.string v, s)
  else if peek s = 45 ∨ isDigit (peek s) then (parseInteger s).map fun (v, s) => (.integer v, s)
  else (parseToken s).map fun (v, s) => (.token v, s)

/-- One turn of the loop of `ParseParams`. -/
def parseParam (s : GoogleString) : Option (SfvParam × GoogleString) := do
  let s ← consume 59 s
  let (name, s) ← parseKey (skipSpaces s)
  match consume 61 s with
  | some s => do
    let (value, s) ← parseValue s
    return (⟨name, value⟩, s)
  | none => return (⟨name, .boolean⟩, s)

theorem progress_parseString : Reader.Progress parseString := by
  intro s out rest h
  obtain ⟨t, ht, hrest⟩ := Option.bind_eq_some_iff.mp h
  have hlt := length_of_consume ht
  have hlt' := length_parseStringRest hrest
  omega

theorem progress_parseToken : Reader.Progress parseToken := by
  intro s out rest h
  cases s with
  | nil => cases h
  | cons c s =>
    rw [parseToken] at h
    split_ifs at h
    injection h with heq
    injection heq with _ hrest
    rw [← hrest]
    exact Nat.lt_succ_of_le (List.dropWhile_sublist isTokenChar).length_le

theorem length_dropWhile_lt {q : UInt8 → Bool} (h : s.takeWhile q ≠ []) : (s.dropWhile q).length < s.length := by
  have happend := congrArg List.length (List.takeWhile_append_dropWhile (p := q) (l := s))
  rw [List.length_append] at happend
  have hpos := List.length_pos_iff.mpr h
  omega

theorem progress_parseInteger : Reader.Progress parseInteger := by
  intro s i rest h
  have hdrop : (if peek s = 45 then s.drop 1 else s).length ≤ s.length := by
    split_ifs
    · exact (List.drop_sublist 1 s).length_le
    · exact Nat.le_refl _
  rw [parseInteger] at h
  simp only at h
  generalize (if peek s = 45 then s.drop 1 else s) = t at h hdrop
  by_cases hdigits : t.takeWhile isDigit = []
  · rw [if_pos (Or.inl hdigits)] at h
    cases h
  · have hlt := length_dropWhile_lt hdigits
    split_ifs at h
    all_goals
      injection h with heq
      injection heq with _ hrest
      rw [← hrest]
      omega

theorem progress_parseKey : Reader.Progress parseKey := by
  intro s out rest h
  cases s with
  | nil => cases h
  | cons c s =>
    rw [parseKey] at h
    split_ifs at h
    injection h with heq
    injection heq with _ hrest
    rw [← hrest]
    exact Nat.lt_succ_of_le (List.dropWhile_sublist isKeyChar).length_le

theorem progress_parseValue : Reader.Progress parseValue := by
  intro s v rest h
  rw [parseValue] at h
  split_ifs at h
  · obtain ⟨out, hstring, _⟩ := Reader.map_eq_some h
    exact progress_parseString s out rest hstring
  · obtain ⟨i, hinteger, _⟩ := Reader.map_eq_some h
    exact progress_parseInteger s i rest hinteger
  · obtain ⟨out, htoken, _⟩ := Reader.map_eq_some h
    exact progress_parseToken s out rest htoken

theorem progress_parseParam : Reader.Progress parseParam := by
  intro s p rest h
  obtain ⟨t, ht, h⟩ := Option.bind_eq_some_iff.mp h
  obtain ⟨⟨name, u⟩, hkey, h⟩ := Option.bind_eq_some_iff.mp h
  have hlt := length_of_consume ht
  have hle := length_skipSpaces t
  have hlt' := progress_parseKey _ name u hkey
  cases hu : consume 61 u with
  | none =>
    simp only [hu] at h
    injection h with heq
    injection heq with _ hrest
    rw [← hrest]
    omega
  | some w =>
    simp only [hu] at h
    obtain ⟨⟨value, x⟩, hvalue, h⟩ := Option.bind_eq_some_iff.mp h
    injection h with heq
    injection heq with _ hrest
    have hw := length_of_consume hu
    have hx := progress_parseValue w value x hvalue
    rw [← hrest]
    dsimp only
    omega

def parseParams : GoogleString → Option (List SfvParam × GoogleString) :=
  Reader.many (fun s => peek s = 59) parseParam

theorem parseParams_eq (s : GoogleString) :
    parseParams s =
      if peek s = 59 then
        (parseParam s).bind fun (p, rest) => (parseParams rest).map fun (params, rest) => (p :: params, rest)
      else some ([], s) := by
  rw [parseParams, Reader.many_eq progress_parseParam]
  simp only [decide_eq_true_eq]

/-- One turn of the loop of `ParseInnerList`: a component, and whether it had parameters. -/
def parseComponent (s : GoogleString) : Option ((GoogleString × Bool) × GoogleString) := do
  let (comp, s) ← parseString s
  let (itemParams, s) ← parseParams s
  return ((comp, !itemParams.isEmpty), skipSpaces s)

theorem progress_parseComponent : Reader.Progress parseComponent := by
  intro s p rest h
  obtain ⟨⟨comp, t⟩, hcomp, h⟩ := Option.bind_eq_some_iff.mp h
  obtain ⟨⟨itemParams, u⟩, hparams, h⟩ := Option.bind_eq_some_iff.mp h
  injection h with heq
  injection heq with _ hrest
  have hlt := progress_parseString s comp t hcomp
  have hle := Reader.length_many progress_parseParam hparams
  have hskip := length_skipSpaces u
  rw [← hrest]
  omega

def parseComponents : GoogleString → Option (List (GoogleString × Bool) × GoogleString) :=
  Reader.many (fun s => peek s ≠ 41) parseComponent

theorem parseComponents_eq (s : GoogleString) :
    parseComponents s =
      if peek s ≠ 41 then
        (parseComponent s).bind fun (c, rest) => (parseComponents rest).map fun (items, rest) => (c :: items, rest)
      else some ([], s) := by
  rw [parseComponents, Reader.many_eq progress_parseComponent]
  simp only [decide_eq_true_eq]

def parseInnerList (s : GoogleString) : Option (SfvInnerList × GoogleString) := do
  let s ← consume 40 s
  let (items, s) ← parseComponents (skipSpaces s)
  let s ← consume 41 s
  let (params, s) ← parseParams s
  return (⟨items.map Prod.fst, params, items.any Prod.snd⟩, s)

def parseDictMember (s : GoogleString) : Option (SfvDictMember × GoogleString) := do
  let (label, s) ← parseKey (skipSpaces s)
  let s ← consume 61 s
  let (inner, s) ← parseInnerList s
  return (⟨label, inner⟩, skipSpaces s)

/-- The loop of `ParseSignatureInputDict`, with room for so many members more. -/
def parseDictMembers : ℕ → List SfvDictMember → GoogleString → Option (List SfvDictMember)
  | 0, _, _ => none
  | room + 1, out, s => do
    let (member, s) ← parseDictMember s
    if out.any (·.label = member.label) then none
    else
      match s with
      | [] => return out ++ [member]
      | s => (consume 44 s).bind (parseDictMembers room (out ++ [member]))

def parseSignatureInputDict (value : GoogleString) : Option (List SfvDictMember) :=
  parseDictMembers kMaxSignatureInputMembers [] value

/-- One turn of the loop of `ParseSignatureBytes`: a label, and what is between its colons. -/
def parseByteSequence (s : GoogleString) : Option ((GoogleString × GoogleString) × GoogleString) := do
  let (key, s) ← parseKey (skipSpaces s)
  let s ← consume 61 s
  let s ← consume 58 s
  let b64 := s.takeWhile (· ≠ 58)
  let s ← consume 58 (s.dropWhile (· ≠ 58))
  let (_, s) ← parseParams s
  return ((key, b64), s)

/-- One turn of the loop of `ParseSignatureBytes`. -/
def parseSignatureBytesTurn (label : GoogleString) (_ : Unit) (s : GoogleString) :
    Option (Option GoogleString ⊕ Unit × GoogleString) := do
  let ((key, b64), s) ← parseByteSequence s
  if key = label then return .inl (base64Decode b64)
  else (consume 44 (skipSpaces s)).map fun s => .inr ((), s)

def parseSignatureBytes (value label : GoogleString) : Option GoogleString :=
  (Reader.loop (parseSignatureBytesTurn label) () value).bind id

end PageSpeed.WebBotAuth
