import PageSpeed.WebBotAuth.Sfv

/-!
The tolerant JSON scanner of `kernel/webbotauth/jwks.cc`. The cursor of the source is the rest
of the text here.
-/

namespace PageSpeed.WebBotAuth.JsonScanner

def isWs (c : UInt8) : Bool := c = 32 || c = 9 || c = 10 || c = 13

def skipWs (s : GoogleString) : GoogleString := s.dropWhile isWs

def consume (c : UInt8) (s : GoogleString) : Option GoogleString := WebBotAuth.consume c (skipWs s)

theorem length_skipWs (s : GoogleString) : (skipWs s).length ≤ s.length := (List.dropWhile_sublist isWs).length_le

variable {s rest : GoogleString}

theorem length_of_consume {c : UInt8} {t : GoogleString} (h : consume c s = some t) : t.length < s.length := by
  have hle := length_skipWs s
  have hlt := WebBotAuth.length_of_consume h
  omega

def hexDigit (h : UInt8) : Option UInt32 :=
  if 48 ≤ h ∧ h ≤ 57 then some (h.toUInt32 - 48)
  else if 97 ≤ h ∧ h ≤ 102 then some (h.toUInt32 - 97 + 10)
  else if 65 ≤ h ∧ h ≤ 70 then some (h.toUInt32 - 65 + 10)
  else none

def parseHex4 : GoogleString → Option (UInt32 × GoogleString)
  | a :: b :: c :: d :: s => do
    let a ← hexDigit a
    let b ← hexDigit b
    let c ← hexDigit c
    let d ← hexDigit d
    return (((a <<< 4 ||| b) <<< 4 ||| c) <<< 4 ||| d, s)
  | _ => none

theorem progress_parseHex4 : Reader.Progress parseHex4 := by
  intro s v rest h
  unfold parseHex4 at h
  split at h
  · obtain ⟨_, _, h⟩ := Option.bind_eq_some_iff.mp h
    obtain ⟨_, _, h⟩ := Option.bind_eq_some_iff.mp h
    obtain ⟨_, _, h⟩ := Option.bind_eq_some_iff.mp h
    obtain ⟨_, _, h⟩ := Option.bind_eq_some_iff.mp h
    cases h
    simp only [List.length_cons]
    omega
  · cases h

def leadByte (mark bits : UInt32) : UInt8 := (mark ||| bits).toUInt8

def trailByte (bits : UInt32) : UInt8 := (0x80 ||| (bits &&& 0x3F)).toUInt8

def utf8 (cp : UInt32) : GoogleString :=
  if cp < 0x80 then [cp.toUInt8]
  else if cp < 0x800 then [leadByte 0xC0 (cp >>> 6), trailByte cp]
  else if cp < 0x10000 then [leadByte 0xE0 (cp >>> 12), trailByte (cp >>> 6), trailByte cp]
  else [leadByte 0xF0 (cp >>> 18), trailByte (cp >>> 12), trailByte (cp >>> 6), trailByte cp]

/-- What follows a `\u`: a code point, or the two halves of a pair. -/
def parseUnicode (s : GoogleString) : Option (GoogleString × GoogleString) := do
  let (cp, s) ← parseHex4 s
  if 0xD800 ≤ cp ∧ cp ≤ 0xDBFF then
    let s ← WebBotAuth.consume 92 s
    let s ← WebBotAuth.consume 117 s
    let (lo, s) ← parseHex4 s
    if lo < 0xDC00 ∨ 0xDFFF < lo then none
    else return (utf8 ((0x10000 : UInt32) + ((cp - 0xD800) <<< 10) + (lo - 0xDC00)), s)
  else if 0xDC00 ≤ cp ∧ cp ≤ 0xDFFF then none
  else return (utf8 cp, s)

theorem progress_parseUnicode : Reader.Progress parseUnicode := by
  intro s out rest h
  obtain ⟨⟨cp, t⟩, hhex, h⟩ := Option.bind_eq_some_iff.mp h
  have hlt := progress_parseHex4 s cp t hhex
  dsimp only at h
  split_ifs at h
  · obtain ⟨u, hu, h⟩ := Option.bind_eq_some_iff.mp h
    obtain ⟨v, hv, h⟩ := Option.bind_eq_some_iff.mp h
    obtain ⟨⟨lo, w⟩, hlo, h⟩ := Option.bind_eq_some_iff.mp h
    have hu := WebBotAuth.length_of_consume hu
    have hv := WebBotAuth.length_of_consume hv
    have hw := progress_parseHex4 v lo w hlo
    dsimp only at h
    split_ifs at h
    cases h
    omega
  · cases h
    exact hlt

def parseEscape : GoogleString → Option (GoogleString × GoogleString)
  | 34 :: s => some ([34], s)
  | 92 :: s => some ([92], s)
  | 47 :: s => some ([47], s)
  | 110 :: s => some ([10], s)
  | 116 :: s => some ([9], s)
  | 114 :: s => some ([13], s)
  | 98 :: s => some ([8], s)
  | 102 :: s => some ([12], s)
  | 117 :: s => parseUnicode s
  | _ => none

theorem progress_parseEscape : Reader.Progress parseEscape := by
  intro s out rest h
  unfold parseEscape at h
  split at h
  case h_9 t =>
    have hlt := progress_parseUnicode t out rest h
    exact Nat.lt_succ_of_lt hlt
  all_goals
    cases h
    try exact Nat.lt_succ_self _

/-- One turn of the loop of `ParseString`: what a character or an escape adds. -/
def parseChar : GoogleString → Option (GoogleString × GoogleString)
  | [] => none
  | c :: s => if c = 92 then parseEscape s else if c < 0x20 then none else some ([c], s)

theorem progress_parseChar : Reader.Progress parseChar := by
  intro s out rest h
  cases s with
  | nil => cases h
  | cons c s =>
    rw [parseChar] at h
    split_ifs at h
    · exact Nat.lt_succ_of_lt (progress_parseEscape s out rest h)
    · cases h
      exact Nat.lt_succ_self _

def parseString (s : GoogleString) : Option (GoogleString × GoogleString) := do
  let s ← consume 34 s
  let (out, s) ← Reader.many (fun s => s.head? ≠ some 34) parseChar s
  let s ← WebBotAuth.consume 34 s
  return (out.flatten, s)

theorem progress_parseString : Reader.Progress parseString := by
  intro s out rest h
  obtain ⟨t, ht, h⟩ := Option.bind_eq_some_iff.mp h
  obtain ⟨⟨parts, u⟩, hu, h⟩ := Option.bind_eq_some_iff.mp h
  obtain ⟨v, hv, h⟩ := Option.bind_eq_some_iff.mp h
  cases h
  have ht := length_of_consume ht
  have hu := Reader.length_many progress_parseChar hu
  have hv := WebBotAuth.length_of_consume hv
  omega

/-- The loop of `SkipBalanced`: the nesting, and whether it is in a string. -/
def skipNested (opening closing : UInt8) : GoogleString → Int → Bool → Option GoogleString
  | [], _, _ => none
  | [92], _, true => none
  | 92 :: _ :: s, depth, true => skipNested opening closing s depth true
  | c :: s, depth, true => skipNested opening closing s depth (c ≠ 34)
  | c :: s, depth, false =>
    if c = 34 then skipNested opening closing s depth true
    else if c = opening then skipNested opening closing s (depth + 1) false
    else if c = closing then if depth - 1 = 0 then some s else skipNested opening closing s (depth - 1) false
    else skipNested opening closing s depth false

theorem length_skipNested {opening closing : UInt8} {depth : Int} {inString : Bool}
    (h : skipNested opening closing s depth inString = some rest) : rest.length < s.length := by
  fun_induction skipNested opening closing s depth inString with
  | case1 => cases h
  | case2 => cases h
  | case3 e s depth ih => exact Nat.lt_succ_of_lt (Nat.lt_succ_of_lt (ih h))
  | case4 c s depth hlone hescape ih => exact Nat.lt_succ_of_lt (ih h)
  | case5 s depth ih => exact Nat.lt_succ_of_lt (ih h)
  | case6 s depth hquote ih => exact Nat.lt_succ_of_lt (ih h)
  | case7 s depth hquote hopening hdone =>
    cases h
    exact Nat.lt_succ_self _
  | case8 s depth hquote hopening hdone ih => exact Nat.lt_succ_of_lt (ih h)
  | case9 c s depth hquote hopening hclosing ih => exact Nat.lt_succ_of_lt (ih h)

def skipBalanced (opening closing : UInt8) (s : GoogleString) : Option GoogleString :=
  if peek (skipWs s) = opening then skipNested opening closing (skipWs s) 0 false else none

def endsLiteral (c : UInt8) : Bool := c = 44 || c = 125 || c = 93 || isWs c

def skipValue (s : GoogleString) : Option GoogleString :=
  if peek (skipWs s) = 34 then (parseString s).map Prod.snd
  else if peek (skipWs s) = 123 then skipBalanced 123 125 s
  else if peek (skipWs s) = 91 then skipBalanced 91 93 s
  else some ((skipWs s).dropWhile fun c => !endsLiteral c)

theorem length_skipBalanced {opening closing : UInt8}
    (h : skipBalanced opening closing s = some rest) : rest.length ≤ s.length := by
  unfold skipBalanced at h
  split_ifs at h
  have hle := length_skipWs s
  have hlt := length_skipNested h
  omega

theorem length_skipValue (h : skipValue s = some rest) : rest.length ≤ s.length := by
  unfold skipValue at h
  split_ifs at h
  · obtain ⟨⟨out, t⟩, ht, hrest⟩ := Option.map_eq_some_iff.mp h
    rw [← hrest]
    exact Nat.le_of_lt (progress_parseString s out t ht)
  · exact length_skipBalanced h
  · exact length_skipBalanced h
  · have hle := length_skipWs s
    have hdrop := (List.dropWhile_sublist (fun c => !endsLiteral c) (l := skipWs s)).length_le
    rw [← Option.some.inj h]
    omega

end PageSpeed.WebBotAuth.JsonScanner
