import PageSpeed.Packs.EntityDecode

/-!
What the references of a text mean, and when `safeDecodeHtmlEntities` keeps to it.
-/

namespace PageSpeed.Packs

open Utf8 (encode WellFormed IsAscii)
open HtmlKeywords

def multiByteCodes : List ℕ :=
  [8501, 913, 945, 8743, 8736, 8776, 8222, 914, 946, 8226, 8745, 935, 967, 710, 9827, 8773, 8629, 8746, 8224, 8225,
    8595, 8659, 916, 948, 9830, 8709, 8195, 8194, 917, 949, 8801, 919, 951, 8364, 8707, 402, 8704, 8260, 915, 947,
    8805, 8596, 8660, 9829, 8230, 8465, 8734, 8747, 921, 953, 8712, 922, 954, 923, 955, 9001, 8592, 8656, 8968, 8220,
    8804, 8970, 8727, 9674, 8206, 8249, 8216, 8212, 8722, 924, 956, 8711, 8211, 8800, 8715, 8713, 8836, 925, 957, 338,
    339, 8254, 937, 969, 927, 959, 8853, 8744, 8855, 8706, 8240, 8869, 934, 966, 928, 960, 982, 8242, 8243, 8719,
    8733, 936, 968, 8730, 9002, 8594, 8658, 8969, 8221, 8476, 8971, 929, 961, 8207, 8250, 8217, 8218, 352, 353, 8901,
    931, 963, 962, 8764, 9824, 8834, 8838, 8721, 8835, 8839, 932, 964, 8756, 920, 952, 977, 8201, 732, 8482, 8593,
    8657, 978, 933, 965, 8472, 926, 958, 376, 918, 950, 8205, 8204]

def multiByteCode (name : GoogleString) : Option ℕ :=
  let table := kHtmlKeywordsSequencesMultiByte.zip multiByteCodes
  (table.lookup name).or ((table.find? fun entry => stringCaseEqual name entry.1).map (·.2))

def named (name : GoogleString) : Option ℕ :=
  ((kHtmlKeywordsSequences.lookup name).map UInt8.toNat).or <| (multiByteCode name).or <|
    ((unescapeInsensitiveMap.find? fun entry => stringCaseEqual name entry.1).map (·.2.toNat)).or <|
      if stringCaseEqual name (ascii "apos") then some 39 else none

def codeChar (n : ℕ) : Char :=
  if n < 0xD800 ∨ 0xDFFF < n ∧ n < 0x110000 then Char.ofNat n else Char.ofNat 0xFFFD

def latin1 (text : List Char) : GoogleString := text.map fun c => c.toNat.toUInt8

def onAscii (p : UInt8 → Bool) (c : Char) : Bool := decide (IsAscii c) && p c.toNat.toUInt8

def isDigitChar (hexMode : Bool) : Char → Bool := onAscii fun ch => (digitOf hexMode ch).isSome

def isHexMarker (c : Char) : Bool := c = 'x' ∨ c = 'X'

def withSemicolon (rest : List Char) (n : ℕ) : ℕ := if rest[n]? = some ';' then n + 1 else n

def numericAt (hexMode : Bool) (rest : List Char) (start : ℕ) : Option (Char × ℕ) :=
  let digits := (rest.drop start).takeWhile (isDigitChar hexMode)
  if digits = [] then none
  else some (codeChar (numeral hexMode (latin1 digits)), withSemicolon rest (start + digits.length))

/-- The character that the reference after an `&` denotes, and the length of the reference. -/
def denoted (rest : List Char) : Option (Char × ℕ) :=
  if rest.head? = some '#' then
    if rest.tail.head?.any isHexMarker then numericAt true rest 2 else numericAt false rest 1
  else
    let name := rest.takeWhile (onAscii isAlnum)
    (named (latin1 name)).map fun code => (codeChar code, withSemicolon rest name.length)

def foldNbsp (c : Char) : Char := if c.toNat = 0xA0 then ' ' else c

def meaningAfter : ℕ → List Char → List Char
  | _, [] => []
  | n + 1, _ :: rest => meaningAfter n rest
  | 0, c :: rest =>
    if c = '&' then
      match denoted rest with
      | some (d, n) => foldNbsp d :: meaningAfter n rest
      | none => c :: meaningAfter 0 rest
    else c :: meaningAfter 0 rest

def meaning (text : List Char) : List Char := meaningAfter 0 text

theorem codeChar_toNat_le (n : ℕ) : (codeChar n).toNat ≤ 255 ↔ n ≤ 255 := by
  unfold codeChar
  split_ifs with h
  · rw [Utf8.toNat_ofNat h]
  · have hreplacement : (Char.ofNat 0xFFFD).toNat = 0xFFFD := Utf8.toNat_ofNat (by decide)
    omega

variable {n : ℕ} {hexMode : Bool} {post rest : List Char} {c d x : Char}

theorem codeChar_toNat (h : n ≤ 255) : (codeChar n).toNat = n := by
  rw [codeChar, if_pos (by omega), Utf8.toNat_ofNat (by omega)]

theorem encode_eq_latin1 {text : List Char} (h : ∀ c ∈ text, IsAscii c) : encode text = latin1 text := Utf8.encode_ascii h

theorem multiByteCode_none {name : GoogleString} (h : multiByteCode name = none) :
    kHtmlKeywordsSequencesMultiByte.any (stringCaseEqual name) = false := by
  have hnames : (kHtmlKeywordsSequencesMultiByte.zip multiByteCodes).map (·.1) = kHtmlKeywordsSequencesMultiByte :=
    List.map_fst_zip (by decide +kernel)
  rw [multiByteCode, Option.or_eq_none_iff, Option.map_eq_none_iff, List.find?_eq_none] at h
  rw [← hnames, List.any_map, List.any_eq_false]
  exact h.2

theorem multiByteCode_some {name : GoogleString} {code : ℕ} (h : multiByteCode name = some code) :
    kHtmlKeywordsSequencesMultiByte.any (stringCaseEqual name) = true ∧ 255 < code := by
  have hcodes : ∀ code ∈ multiByteCodes, 255 < code := by decide +kernel
  have hentry : ∃ entry ∈ kHtmlKeywordsSequencesMultiByte.zip multiByteCodes,
      stringCaseEqual name entry.1 = true ∧ entry.2 = code := by
    rw [multiByteCode, Option.or_eq_some_iff] at h
    obtain h | ⟨-, h⟩ := h
    · obtain ⟨l₁, l₂, hsplit, -⟩ := List.lookup_eq_some_iff.mp h
      refine ⟨(name, code), by rw [hsplit]; simp, ?_, rfl⟩
      exact beq_self_eq_true _
    · obtain ⟨entry, hfind, hcode⟩ := Option.map_eq_some_iff.mp h
      have heq := List.find?_some hfind
      exact ⟨entry, List.mem_of_find?_eq_some hfind, heq, hcode⟩
  obtain ⟨⟨other, code⟩, hmem, heq, rfl⟩ := hentry
  obtain ⟨hname, hcode⟩ := List.of_mem_zip hmem
  exact ⟨List.any_eq_true.mpr ⟨other, hname, heq⟩, hcodes code hcode⟩

theorem tryUnescape_named (name : GoogleString) (t : Bool) : tryUnescape false 0 name t [] =
    match named name with
    | some code => if code ≤ 255 then some [code.toUInt8] else none
    | none => some (38 :: name ++ if t then [59] else []) := by
  have hbyte : ∀ value : UInt8, value.toNat ≤ 255 ∧ value.toNat.toUInt8 = value := by
    intro value
    exact ⟨Nat.le_of_lt_succ value.toNat_lt, by rw [Nat.toUInt8_eq, UInt8.ofNat_toNat]⟩
  rw [tryUnescape, if_neg (by simp), named]
  cases kHtmlKeywordsSequences.lookup name with
  | some value => simp [hbyte value]
  | none =>
    cases hmulti : multiByteCode name with
    | some code =>
      obtain ⟨hany, hcode⟩ := multiByteCode_some hmulti
      simp only [hany, if_true, Option.map_none, Option.none_or, Option.some_or, if_neg (Nat.not_le.mpr hcode)]
    | none =>
      rw [multiByteCode_none hmulti]
      cases unescapeInsensitiveMap.find? fun entry => stringCaseEqual name entry.1 with
      | some entry => simp [hbyte entry.2]
      | none => by_cases hapos : stringCaseEqual name (ascii "apos") = true <;> simp [hapos]

theorem afterEscape_hash (n : ℕ) (hexMode : Bool) (rest : GoogleString) :
    afterEscape { escape := [35], numericValue := n, accumulateNumericCode := true, hexMode := hexMode } rest =
      (unescape rest).map ([38, 35] ++ ·) := by
  have hnone : named [35] = none := by
    obtain ⟨hlookup, hfind⟩ := unknown_of_head (show ([35] : GoogleString).head?.any isAlpha = false from rfl)
    have hmulti : multiByteCode [35] = none := by
      cases hcode : multiByteCode [35] with
      | none => rfl
      | some code => exact absurd (multiByteCode_some hcode).1 (by decide)
    rw [named, hlookup, hmulti, hfind]
    rfl
  refine afterEscape_word (fun t => ?_) rest
  have hword : tryUnescape true n [35] t [] = tryUnescape false 0 [35] t [] := by
    simp only [tryUnescape, List.length_singleton, Nat.lt_irrefl, decide_false, Bool.and_false, Bool.false_eq_true,
      if_false]
  rw [Escape.tryUnescape, hword, tryUnescape_named, hnone]

def afterSemicolon (tail : List Char) : List Char := if tail.head? = some ';' then tail.tail else tail

theorem drop_withSemicolon (body tail : List Char) :
    (body ++ tail).drop (withSemicolon (body ++ tail) body.length) = afterSemicolon tail := by
  have hget : (body ++ tail)[body.length]? = tail.head? := by
    rw [List.getElem?_append_right (Nat.le_refl _), Nat.sub_self, List.head?_eq_getElem?]
  rw [withSemicolon, hget, afterSemicolon]
  split_ifs
  · rw [← List.drop_drop, List.drop_left, List.drop_one]
  · rw [List.drop_left]

theorem latin1_afterSemicolon {tail : List Char} (h : ∀ c ∈ tail, IsAscii c) :
    latin1 (afterSemicolon tail) = afterReference (latin1 tail) := by
  cases tail with
  | nil => rfl
  | cons c tail =>
    by_cases hc : c = ';'
    · subst hc
      rfl
    · have hbyte : c.toNat.toUInt8 ≠ 59 := fun heq =>
        hc (byte_inj (h c List.mem_cons_self) (by decide : IsAscii ';') heq)
      have hhead : (c :: tail).head? ≠ some ';' := by simpa using hc
      rw [afterSemicolon, if_neg hhead]
      unfold afterReference
      split
      · rename_i heq
        exact absurd (List.cons.inj heq).1 hbyte
      · rfl

theorem takeWhile_latin1 (p : UInt8 → Bool) {text : List Char} (h : ∀ c ∈ text, IsAscii c) :
    (∀ ch ∈ latin1 (text.takeWhile (onAscii p)), p ch = true) ∧
      ∀ ch ∈ (latin1 (text.dropWhile (onAscii p))).head?, p ch = false := by
  constructor
  · intro ch hch
    obtain ⟨c, hc, rfl⟩ := List.mem_map.mp hch
    have hp := List.all_eq_true.mp List.all_takeWhile c hc
    rw [onAscii, Bool.and_eq_true] at hp
    exact hp.2
  · intro ch hch
    cases hdrop : text.dropWhile (onAscii p) with
    | nil =>
      rw [hdrop] at hch
      cases hch
    | cons c tail =>
      rw [hdrop] at hch
      obtain rfl : c.toNat.toUInt8 = ch := by simpa [latin1] using hch
      have hp := List.head_dropWhile_not (onAscii p) (by rw [hdrop]; simp : text.dropWhile (onAscii p) ≠ [])
      have hascii : IsAscii c := h c ((List.dropWhile_sublist _).mem (by rw [hdrop]; simp))
      simp only [hdrop, List.head_cons, onAscii, hascii, decide_true, Bool.true_and] at hp
      exact hp

theorem ascii_plain {text : List Char} (h : ∀ c ∈ text, IsAscii c) {run : List Char} (hsub : ∀ c ∈ run, c ∈ text)
    (hamp : '&' ∉ run) : ∀ ch ∈ latin1 run, ch ≠ 38 ∧ ch ≤ 127 := by
  intro ch hch
  obtain ⟨c, hc, rfl⟩ := List.mem_map.mp hch
  have hascii : IsAscii c := h c (hsub c hc)
  have hlt : c.toNat < 0x80 := hascii
  refine ⟨fun heq => hamp ?_, ?_⟩
  · rwa [byte_inj hascii (by decide : IsAscii '&') heq] at hc
  · rw [UInt8.le_iff_toNat_le, toNat_latin1 (by omega)]
    exact Nat.le_of_lt_succ hlt

/-- An `&#x` with no digit after it, of which the scan loses the letter. -/
def isBareHex (rest : List Char) : Bool :=
  rest.head? = some '#' && rest.tail.head?.any isHexMarker && !(rest.drop 2).head?.any (isDigitChar true)

/-- How the scan goes on after an `&`. -/
def readAt (rest : List Char) : Option GoogleString :=
  match denoted rest with
  | some (d, n) =>
    if d.toNat ≤ 255 then (unescape (latin1 (rest.drop n))).map (d.toNat.toUInt8 :: ·) else none
  | none =>
    if isBareHex rest then (unescape (latin1 (rest.drop 2))).map ([38, 35] ++ ·)
    else (unescape (latin1 rest)).map (38 :: ·)

theorem numericAt_nil {start : ℕ}
    (h : (rest.drop start).takeWhile (isDigitChar hexMode) = []) : numericAt hexMode rest start = none := by
  rw [numericAt, h]
  rfl

theorem unescape_number {marker : List Char} (hmarker : Marker hexMode (latin1 marker))
    (hpost : ∀ c ∈ post, IsAscii c) (hne : post.takeWhile (isDigitChar hexMode) ≠ []) :
    ∃ d n, numericAt hexMode ('#' :: marker ++ post) (marker.length + 1) = some (d, n) ∧
      unescape (38 :: latin1 ('#' :: marker ++ post)) =
        if d.toNat ≤ 255 then
          (unescape (latin1 (('#' :: marker ++ post).drop n))).map (d.toNat.toUInt8 :: ·)
        else none := by
  let digits := post.takeWhile (isDigitChar hexMode)
  let tail := post.dropWhile (isDigitChar hexMode)
  have hsplit : digits ++ tail = post := List.takeWhile_append_dropWhile
  have htail : ∀ c ∈ tail, IsAscii c := fun c hc => hpost c ((List.dropWhile_sublist _).mem hc)
  obtain ⟨hdigits, hout⟩ := takeWhile_latin1 (fun ch => (digitOf hexMode ch).isSome) hpost
  have hnumber := unescape_numeral hmarker (fun h => hne (List.map_eq_nil_iff.mp h) : latin1 digits ≠ []) hdigits (fun ch hch => by
    simpa using hout ch hch : ∀ ch ∈ (latin1 tail).head?, digitOf hexMode ch = none)
  have hdrop : ('#' :: marker ++ post).drop (marker.length + 1) = post := by
    rw [← List.length_cons (a := '#'), List.drop_left]
  have hend : ('#' :: marker ++ post).drop
      (withSemicolon ('#' :: marker ++ post) (marker.length + 1 + digits.length)) = afterSemicolon tail := by
    have hbody := drop_withSemicolon ('#' :: marker ++ digits) tail
    rwa [List.append_assoc, hsplit, List.length_append, List.length_cons] at hbody
  refine ⟨codeChar (numeral hexMode (latin1 digits)),
    withSemicolon ('#' :: marker ++ post) (marker.length + 1 + digits.length), ?_, ?_⟩
  · rw [numericAt, hdrop, if_neg hne]
  · have htext : latin1 ('#' :: marker ++ post) = 35 :: (latin1 marker ++ (latin1 digits ++ latin1 tail)) := by
      rw [← hsplit]
      simp [latin1]
    rw [hend, latin1_afterSemicolon htail, htext, hnumber]
    simp only [codeChar_toNat_le]
    split_ifs with hle
    · rw [codeChar_toNat hle]
    · rfl

theorem head_of_takeWhile {p : Char → Bool} {text : List Char} (h : text.takeWhile p = []) :
    text.head?.any p = false := by
  cases text with
  | nil => rfl
  | cons c text =>
    by_contra hc
    simp only [List.head?_cons, Option.any_some, Bool.not_eq_false] at hc
    rw [List.takeWhile_cons_of_pos hc] at h
    cases h

theorem not_digit_of_takeWhile {text : List Char} (hascii : ∀ c ∈ text, IsAscii c)
    (h : text.takeWhile (isDigitChar hexMode) = []) : ∀ ch ∈ (latin1 text).head?, digitOf hexMode ch = none := by
  intro ch hch
  have hhead := head_of_takeWhile h
  cases text with
  | nil => cases hch
  | cons c text =>
    obtain rfl : c.toNat.toUInt8 = ch := by simpa [latin1] using hch
    have hc : IsAscii c := hascii c List.mem_cons_self
    simpa [isDigitChar, onAscii, hc] using hhead

theorem readAt_some (h : denoted rest = some (d, n)) : readAt rest =
    if d.toNat ≤ 255 then (unescape (latin1 (rest.drop n))).map (d.toNat.toUInt8 :: ·) else none := by
  rw [readAt, h]

theorem readAt_none (h : denoted rest = none) : readAt rest =
    if isBareHex rest then (unescape (latin1 (rest.drop 2))).map ([38, 35] ++ ·)
    else (unescape (latin1 rest)).map (38 :: ·) := by
  rw [readAt, h]

theorem unescape_hexReference (hx : isHexMarker x = true)
    (hpost : ∀ c ∈ post, IsAscii c) : unescape (38 :: latin1 ('#' :: x :: post)) = readAt ('#' :: x :: post) := by
  have hupper : upperChar x.toNat.toUInt8 = 88 := by
    obtain rfl | rfl : x = 'x' ∨ x = 'X' := by simpa [isHexMarker] using hx
    · rfl
    · rfl
  have hdenoted : denoted ('#' :: x :: post) = numericAt true ('#' :: x :: post) 2 := by
    simp [denoted, hx]
  by_cases hdigits : post.takeWhile (isDigitChar true) = []
  · have hbare : isBareHex ('#' :: x :: post) = true := by simp [isBareHex, hx, head_of_takeWhile hdigits]
    have hhex := @unescape_hex (latin1 post) [] _ hupper (by simp) (not_digit_of_takeWhile hpost hdigits)
    rw [readAt_none (hdenoted.trans (numericAt_nil hdigits)), if_pos hbare]
    exact hhex.trans (afterEscape_hash _ _ _)
  · obtain ⟨d, n, hnumber, hread⟩ := @unescape_number true post [x] (Marker.hex hupper) hpost hdigits
    rw [readAt_some (hdenoted.trans hnumber)]
    exact hread

theorem not_marker_upper (hmarker : rest.head?.any isHexMarker = false)
    (h : ∀ c ∈ rest, IsAscii c) : ∀ ch ∈ (latin1 rest).head?, upperChar ch ≠ 88 := by
  intro ch hch
  cases rest with
  | nil => cases hch
  | cons c rest =>
    obtain rfl : c.toNat.toUInt8 = ch := by simpa [latin1] using hch
    have hascii := h c List.mem_cons_self
    intro hupper
    have hbyte : c.toNat.toUInt8 = 88 ∨ c.toNat.toUInt8 = 120 := by
      revert hupper
      unfold upperChar
      grind
    obtain heq | heq := hbyte
    · simp [isHexMarker, byte_inj hascii (by decide : IsAscii 'X') heq] at hmarker
    · simp [isHexMarker, byte_inj hascii (by decide : IsAscii 'x') heq] at hmarker

theorem unescape_decimalReference (hmarker : rest.head?.any isHexMarker = false)
    (hrest : ∀ c ∈ rest, IsAscii c) : unescape (38 :: latin1 ('#' :: rest)) = readAt ('#' :: rest) := by
  have hdenoted : denoted ('#' :: rest) = numericAt false ('#' :: rest) 1 := by simp [denoted, hmarker]
  by_cases hdigits : rest.takeWhile (isDigitChar false) = []
  · have hbare : isBareHex ('#' :: rest) = false := by simp [isBareHex, hmarker]
    have hupper := not_marker_upper hmarker hrest
    have hdecimal := @unescape_decimal (latin1 rest) [] (by simp) (not_digit_of_takeWhile hrest hdigits) fun _ => hupper
    have hcons := @unescape_cons 35 (by decide) (by decide) (latin1 rest)
    rw [readAt_none (hdenoted.trans (numericAt_nil hdigits)), hbare, if_neg Bool.false_ne_true]
    refine (hdecimal.trans (afterEscape_hash _ _ _)).trans ?_
    have hlatin : latin1 ('#' :: rest) = 35 :: latin1 rest := rfl
    rw [hlatin, hcons, Option.map_map]
    rfl
  · obtain ⟨d, n, hnumber, hread⟩ := @unescape_number false rest [] Marker.decimal hrest hdigits
    rw [readAt_some (hdenoted.trans hnumber)]
    exact hread

theorem unescape_nameReference (hhash : rest.head? ≠ some '#') (h : ∀ c ∈ rest, IsAscii c) :
    unescape (38 :: latin1 rest) = readAt rest := by
  let name := rest.takeWhile (onAscii isAlnum)
  let tail := rest.dropWhile (onAscii isAlnum)
  have hsplit : name ++ tail = rest := List.takeWhile_append_dropWhile
  have htail : ∀ c ∈ tail, IsAscii c := fun c hc => h c ((List.dropWhile_sublist _).mem hc)
  obtain ⟨hname, hout⟩ := takeWhile_latin1 isAlnum h
  have hlatin : latin1 rest = latin1 name ++ latin1 tail := by rw [← hsplit, latin1, List.map_append]; rfl
  have hplain : ∀ ch ∈ latin1 name, ch ≠ 38 ∧ ch ≤ 127 := fun ch hch =>
    have hlow := alnum_low (hname ch hch)
    ⟨hlow.2.2.1, hlow.1⟩
  have hstart : latin1 name = [] → (latin1 tail).head? ≠ some 35 := by
    intro hnil hhead
    rw [hnil, List.nil_append] at hlatin
    cases rest with
    | nil => rw [← hlatin] at hhead; cases hhead
    | cons c rest =>
      rw [← hlatin] at hhead
      have hbyte : c.toNat.toUInt8 = 35 := by simpa [latin1] using hhead
      exact hhash (by rw [byte_inj (h c List.mem_cons_self) (by decide : IsAscii '#') hbyte]; rfl)
  have hread := unescape_name hname hout hstart
  have hdenoted : denoted rest = (named (latin1 name)).map fun code =>
      (codeChar code, withSemicolon rest name.length) := by
    rw [denoted, if_neg hhash]
  rw [hlatin, hread]
  cases hnamed : named (latin1 name) with
  | some code =>
    rw [hnamed, Option.map_some] at hdenoted
    have hend : rest.drop (withSemicolon rest name.length) = afterSemicolon tail := by
      have hbody := drop_withSemicolon name tail
      rwa [hsplit] at hbody
    rw [readAt_some hdenoted, hend, latin1_afterSemicolon htail, afterEscape, Escape.tryUnescape, tryUnescape_named,
      hnamed]
    simp only [codeChar_toNat_le]
    split_ifs with hle
    · rw [codeChar_toNat hle]
      rfl
    · rfl
  | none =>
    rw [hnamed, Option.map_none] at hdenoted
    have hbare : isBareHex rest = false := by simp [isBareHex, hhash]
    rw [readAt_none hdenoted, hbare, if_neg Bool.false_ne_true, hlatin, unescape_run hplain, Option.map_map]
    refine (afterEscape_word (fun t => ?_) _)
    rw [Escape.tryUnescape, tryUnescape_named, hnamed]

theorem unescape_reference (h : ∀ c ∈ rest, IsAscii c) : unescape (38 :: latin1 rest) = readAt rest := by
  by_cases hhash : rest.head? = some '#'
  · cases rest with
    | nil => cases hhash
    | cons c rest =>
      obtain rfl := Option.some.inj hhash
      have hrest : ∀ c ∈ rest, IsAscii c := fun c hc => h c (List.mem_cons_of_mem _ hc)
      cases rest with
      | nil => exact unescape_decimalReference rfl hrest
      | cons x post =>
        by_cases hx : isHexMarker x = true
        · exact unescape_hexReference hx fun c hc => hrest c (List.mem_cons_of_mem _ hc)
        · exact unescape_decimalReference (by simpa using hx) hrest
  · exact unescape_nameReference hhash h

def decodedAfter : ℕ → List Char → List Char
  | _, [] => []
  | n + 1, _ :: rest => decodedAfter n rest
  | 0, c :: rest =>
    if c = '&' then
      match denoted rest with
      | some (d, n) => d :: decodedAfter n rest
      | none => if isBareHex rest then '&' :: '#' :: decodedAfter 2 rest else c :: decodedAfter 0 rest
    else c :: decodedAfter 0 rest

def decoded (text : List Char) : List Char := decodedAfter 0 text

theorem decodedAfter_eq (n : ℕ) (text : List Char) : decodedAfter n text = decoded (text.drop n) := by
  induction n generalizing text with
  | zero => rfl
  | succ n ih =>
    cases text with
    | nil => rfl
    | cons c text => exact ih text

theorem meaningAfter_eq (n : ℕ) (text : List Char) : meaningAfter n text = meaning (text.drop n) := by
  induction n generalizing text with
  | zero => rfl
  | succ n ih =>
    cases text with
    | nil => rfl
    | cons c text => exact ih text

theorem decoded_plain (hc : c ≠ '&') (rest : List Char) : decoded (c :: rest) = c :: decoded rest := by
  rw [decoded, decodedAfter, if_neg hc]
  rfl

theorem meaning_plain (hc : c ≠ '&') (rest : List Char) : meaning (c :: rest) = c :: meaning rest := by
  rw [meaning, meaningAfter, if_neg hc]
  rfl

theorem decoded_reference (h : denoted rest = some (d, n)) : decoded ('&' :: rest) = d :: decoded (rest.drop n) := by
  rw [decoded, decodedAfter, if_pos rfl, h, ← decodedAfter_eq]

theorem meaning_reference (h : denoted rest = some (d, n)) :
    meaning ('&' :: rest) = foldNbsp d :: meaning (rest.drop n) := by
  rw [meaning, meaningAfter, if_pos rfl, h, ← meaningAfter_eq]

theorem meaning_word (h : denoted rest = none) : meaning ('&' :: rest) = '&' :: meaning rest := by
  rw [meaning, meaningAfter, if_pos rfl, h]
  rfl

theorem decoded_word (h : denoted rest = none) (hbare : isBareHex rest = false) :
    decoded ('&' :: rest) = '&' :: decoded rest := by
  rw [decoded, decodedAfter, if_pos rfl, h, hbare]
  rfl

theorem bareHex_eq (h : isBareHex rest = true) : ∃ x post, rest = '#' :: x :: post := by
  cases rest with
  | nil => simp [isBareHex] at h
  | cons a rest =>
    cases rest with
    | nil => simp [isBareHex] at h
    | cons x post =>
      obtain rfl : a = '#' := by
        simp only [isBareHex, Bool.and_eq_true, decide_eq_true_eq] at h
        exact Option.some.inj h.1.1
      exact ⟨x, post, rfl⟩

theorem denoted_bareHex (h : isBareHex ('#' :: x :: post) = true) : denoted ('#' :: x :: post) = none := by
  simp only [isBareHex, List.head?_cons, List.tail_cons, Option.any_some, List.drop_succ_cons, List.drop_zero,
    Bool.and_eq_true, Bool.not_eq_true', decide_true, true_and] at h
  have hdigits : post.takeWhile (isDigitChar true) = [] := by
    cases post with
    | nil => rfl
    | cons c post => exact List.takeWhile_cons_of_neg (by simpa using h.2)
  have hdenoted : denoted ('#' :: x :: post) = numericAt true ('#' :: x :: post) 2 := by simp [denoted, h.1]
  exact hdenoted.trans (numericAt_nil hdigits)

theorem decoded_bareHex (h : isBareHex ('#' :: x :: post) = true) :
    decoded ('&' :: '#' :: x :: post) = '&' :: '#' :: decoded post := by
  rw [decoded, decodedAfter, if_pos rfl, denoted_bareHex h]
  simp only [h, if_true, decodedAfter_eq]
  rfl

theorem meaning_bareHex (h : isBareHex ('#' :: x :: post) = true) :
    meaning ('&' :: '#' :: x :: post) = '&' :: '#' :: x :: meaning post := by
  have hx : x ≠ '&' := by
    rintro rfl
    revert h
    simp [isBareHex, isHexMarker]
  rw [meaning_word (denoted_bareHex h), meaning_plain (by decide), meaning_plain hx]

theorem reading {motive : List Char → Prop} (nil : motive [])
    (plain : ∀ c rest, c ≠ '&' → motive rest → motive (c :: rest))
    (reference : ∀ rest d n, denoted rest = some (d, n) → motive (rest.drop n) → motive ('&' :: rest))
    (bareHex : ∀ x post, isBareHex ('#' :: x :: post) = true → motive post → motive ('&' :: '#' :: x :: post))
    (word : ∀ rest, denoted rest = none → isBareHex rest = false → motive rest → motive ('&' :: rest))
    (text : List Char) : motive text := by
  induction hn : text.length using Nat.strongRecOn generalizing text with
  | ind k ih =>
    cases text with
    | nil => exact nil
    | cons c rest =>
      rw [List.length_cons] at hn
      by_cases hc : c = '&'
      · subst hc
        cases hden : denoted rest with
        | some pair =>
          refine reference rest pair.1 pair.2 hden (ih _ ?_ _ rfl)
          rw [List.length_drop]
          omega
        | none =>
          by_cases hbare : isBareHex rest = true
          · obtain ⟨x, post, rfl⟩ := bareHex_eq hbare
            refine bareHex x post hbare (ih _ ?_ _ rfl)
            simp only [List.length_cons] at hn
            omega
          · exact word rest hden (by simpa using hbare) (ih _ (by omega) _ rfl)
      · exact plain c rest hc (ih _ (by omega) _ rfl)

def asBytes (text : List Char) : Option GoogleString :=
  if text.all (·.toNat ≤ 255) then some (latin1 text) else none

theorem all_latin1 {text : List Char} : text.all (·.toNat ≤ 255) = true ↔ ∀ c ∈ text, c.toNat ≤ 255 := by simp

theorem asBytes_cons (d : Char) (text : List Char) :
    asBytes (d :: text) = if d.toNat ≤ 255 then (asBytes text).map (d.toNat.toUInt8 :: ·) else none := by
  unfold asBytes
  simp only [List.all_cons, Bool.and_eq_true, decide_eq_true_eq]
  by_cases hd : d.toNat ≤ 255
  · by_cases ht : text.all (·.toNat ≤ 255) = true
    · rw [if_pos ⟨hd, ht⟩, if_pos hd, if_pos ht]
      rfl
    · rw [if_neg (fun h => ht h.2), if_pos hd, if_neg ht]
      rfl
  · rw [if_neg (fun h => hd h.1), if_neg hd]

theorem asBytes_ascii (h : IsAscii d) (text : List Char) :
    asBytes (d :: text) = (asBytes text).map (d.toNat.toUInt8 :: ·) := by
  have hlt : d.toNat < 0x80 := h
  rw [asBytes_cons, if_pos (by omega)]

theorem unescape_decoded (text : List Char) :
    (∀ c ∈ text, IsAscii c) → unescape (latin1 text) = asBytes (decoded text) := by
  induction text using reading with
  | nil => intro _; rfl
  | plain c rest hc ih =>
    intro h
    obtain ⟨hascii, hrest⟩ := List.forall_mem_cons.mp h
    obtain ⟨hamp, hlow⟩ := @ascii_plain (c :: rest) h [c] (by simp) (by simpa using hc.symm) c.toNat.toUInt8
      (by simp [latin1])
    rw [decoded_plain hc, asBytes_ascii hascii, ← ih hrest]
    exact unescape_cons hamp hlow _
  | reference rest d n hden ih =>
    intro h
    have hrest : ∀ c ∈ rest, IsAscii c := fun c hc => h c (List.mem_cons_of_mem _ hc)
    rw [decoded_reference hden, asBytes_cons, ← ih fun c hc => hrest c ((List.drop_sublist n rest).mem hc)]
    exact (unescape_reference hrest).trans (readAt_some hden)
  | bareHex x post hbare ih =>
    intro h
    have hrest : ∀ c ∈ '#' :: x :: post, IsAscii c := fun c hc => h c (List.mem_cons_of_mem _ hc)
    have hpost : ∀ c ∈ post, IsAscii c := fun c hc => hrest c (by simp [hc])
    have hread := (unescape_reference hrest).trans (readAt_none (denoted_bareHex hbare))
    rw [if_pos hbare] at hread
    rw [decoded_bareHex hbare, asBytes_ascii (by decide), asBytes_ascii (by decide), ← ih hpost, Option.map_map]
    exact hread
  | word rest hden hbare ih =>
    intro h
    have hrest : ∀ c ∈ rest, IsAscii c := fun c hc => h c (List.mem_cons_of_mem _ hc)
    have hread := (unescape_reference hrest).trans (readAt_none hden)
    rw [hbare, if_neg Bool.false_ne_true] at hread
    rw [decoded_word hden hbare, asBytes_ascii (by decide), ← ih hrest]
    exact hread

inductive Loses : List Char → List Char → Prop
  | nil : Loses [] []
  | cons (c : Char) {s t : List Char} (h : Loses s t) : Loses (c :: s) (c :: t)
  | letter {x : Char} (hx : isHexMarker x = true) {s t : List Char} (h : Loses s t) : Loses ('#' :: s) ('#' :: x :: t)

theorem ascii_marker (hx : isHexMarker x = true) : IsAscii x := by
  obtain rfl | rfl : x = 'x' ∨ x = 'X' := by simpa [isHexMarker] using hx
  · decide
  · decide

theorem foldNbsp_le : (foldNbsp c).toNat ≤ 255 ↔ c.toNat ≤ 255 := by
  unfold foldNbsp
  split_ifs with h
  · simp [h]
  · exact Iff.rfl

namespace Loses

variable {s t : List Char}

theorem length_le (h : Loses s t) : s.length ≤ t.length := by
  induction h with
  | nil => exact Nat.le_refl _
  | cons c h ih => simpa using ih
  | letter hx h ih =>
    simp only [List.length_cons]
    omega

theorem eq_of_length (h : Loses s t) (hlen : s.length = t.length) : s = t := by
  induction h with
  | nil => rfl
  | cons c h ih => rw [ih (by simpa using hlen)]
  | letter hx h ih =>
    have hle := h.length_le
    simp only [List.length_cons] at hlen
    omega

theorem subset (h : Loses s t) : s ⊆ t := by
  induction h with
  | nil => exact List.Subset.refl _
  | cons c h ih => exact List.cons_subset_cons c ih
  | letter hx h ih => exact List.cons_subset_cons '#' (List.subset_cons_of_subset _ ih)

theorem mem_or_marker (h : Loses s t) {c : Char} (hc : c ∈ t) : c ∈ s ∨ isHexMarker c = true := by
  induction h with
  | nil => exact .inl hc
  | cons d h ih =>
    obtain rfl | hc := List.mem_cons.mp hc
    · exact .inl List.mem_cons_self
    · exact (ih hc).imp_left (List.mem_cons_of_mem d)
  | letter hx h ih =>
    obtain rfl | hc := List.mem_cons.mp hc
    · exact .inl List.mem_cons_self
    · obtain rfl | hc := List.mem_cons.mp hc
      · exact .inr hx
      · exact (ih hc).imp_left (List.mem_cons_of_mem '#')

theorem wellFormed (h : Loses s t) (pre : GoogleString) :
    WellFormed (pre ++ latin1 s) ↔ WellFormed (pre ++ latin1 t) := by
  induction h generalizing pre with
  | nil => exact Iff.rfl
  | cons c h ih =>
    have hstep := ih (pre ++ [c.toNat.toUInt8])
    rw [List.append_assoc, List.append_assoc] at hstep
    exact hstep
  | @letter x hx s t h ih =>
    have hascii : x.toNat < 0x80 := ascii_marker hx
    have hlow : x.toNat.toUInt8 < 0x80 := by
      rw [UInt8.lt_iff_toNat_lt, toNat_latin1 (by omega)]
      exact hascii
    have hnil : WellFormed [] := ⟨[], rfl⟩
    have hrest := ih []
    have hs := Utf8.wellFormed_split (by decide : (35 : UInt8) < 0x80) pre (latin1 s)
    have ht := Utf8.wellFormed_split (by decide : (35 : UInt8) < 0x80) pre (x.toNat.toUInt8 :: latin1 t)
    have hx' := Utf8.wellFormed_split hlow [] (latin1 t)
    simp only [List.nil_append] at hrest hx'
    refine hs.trans (Iff.trans ?_ ht.symm)
    rw [hx', hrest]
    simp [hnil]

theorem forall_byte {text : List Char} (h : Loses (text.map foldNbsp) t) :
    (∀ c ∈ text, c.toNat ≤ 255) ↔ ∀ c ∈ t, c.toNat ≤ 255 := by
  constructor
  · intro htext c hc
    obtain hc | hx := h.mem_or_marker hc
    · obtain ⟨d, hd, rfl⟩ := List.mem_map.mp hc
      exact foldNbsp_le.mpr (htext d hd)
    · have hascii : c.toNat < 0x80 := ascii_marker hx
      omega
  · intro ht c hc
    exact foldNbsp_le.mp (ht _ (h.subset (List.mem_map_of_mem hc)))

end Loses

theorem foldNbsp_ascii (h : IsAscii c) : foldNbsp c = c := by
  have hlt : c.toNat < 0x80 := h
  rw [foldNbsp, if_neg (by omega)]

theorem loses_decoded (text : List Char) :
    (∀ c ∈ text, IsAscii c) → Loses ((decoded text).map foldNbsp) (meaning text) := by
  induction text using reading with
  | nil => intro _; exact .nil
  | plain c rest hc ih =>
    intro h
    obtain ⟨hascii, hrest⟩ := List.forall_mem_cons.mp h
    rw [decoded_plain hc, meaning_plain hc, List.map_cons, foldNbsp_ascii hascii]
    exact .cons c (ih hrest)
  | reference rest d n hden ih =>
    intro h
    rw [decoded_reference hden, meaning_reference hden, List.map_cons]
    exact .cons _ (ih fun c hc => h c (List.mem_cons_of_mem _ ((List.drop_sublist n rest).mem hc)))
  | bareHex x post hbare ih =>
    intro h
    have hx : isHexMarker x = true := by
      simp only [isBareHex, List.tail_cons, List.head?_cons, Option.any_some, Bool.and_eq_true] at hbare
      exact hbare.1.2
    rw [decoded_bareHex hbare, meaning_bareHex hbare]
    exact .cons '&' (.letter hx (ih fun c hc => h c (by simp [hc])))
  | word rest hden hbare ih =>
    intro h
    rw [decoded_word hden hbare, meaning_word hden]
    exact .cons '&' (ih fun c hc => h c (List.mem_cons_of_mem _ hc))

/-- Some `&#x` of the text has no digit after it. -/
def HasBareHex (text : List Char) : Prop := ∃ rest, '&' :: rest <:+ text ∧ isBareHex rest = true

theorem hasBareHex_cons (c : Char) (rest : List Char) :
    HasBareHex (c :: rest) ↔ c = '&' ∧ isBareHex rest = true ∨ HasBareHex rest := by
  constructor
  · rintro ⟨post, hsuffix, hbare⟩
    obtain heq | hsuffix := List.suffix_cons_iff.mp hsuffix
    · obtain ⟨rfl, rfl⟩ := List.cons.inj heq
      exact .inl ⟨rfl, hbare⟩
    · exact .inr ⟨post, hsuffix, hbare⟩
  · rintro (⟨rfl, hbare⟩ | ⟨post, hsuffix, hbare⟩)
    · exact ⟨rest, List.suffix_refl _, hbare⟩
    · exact ⟨post, hsuffix.trans (List.suffix_cons c rest), hbare⟩

theorem hasBareHex_drop {text : List Char} (h : '&' ∉ text.take n) : HasBareHex (text.drop n) ↔ HasBareHex text := by
  induction n generalizing text with
  | zero => exact Iff.rfl
  | succ n ih =>
    cases text with
    | nil => exact Iff.rfl
    | cons c text =>
      rw [List.take_succ_cons, List.mem_cons, not_or] at h
      rw [List.drop_succ_cons, ih h.2, hasBareHex_cons]
      simp [Ne.symm h.1]

theorem take_withSemicolon {body : List Char} (h : '&' ∉ body) (tail : List Char) :
    '&' ∉ (body ++ tail).take (withSemicolon (body ++ tail) body.length) := by
  unfold withSemicolon
  split_ifs with hsemi
  · rw [List.take_add_one, List.take_left, hsemi, List.mem_append, not_or]
    exact ⟨h, by simp⟩
  · rwa [List.take_left]

theorem takeWhile_no_amp {p : UInt8 → Bool} (hp : p 38 = false) (text : List Char) :
    '&' ∉ text.takeWhile (onAscii p) := by
  intro hmem
  have hamp : onAscii p '&' = true := List.all_eq_true.mp List.all_takeWhile '&' hmem
  have hbyte : ('&' : Char).toNat.toUInt8 = 38 := rfl
  rw [onAscii, hbyte, hp, Bool.and_false] at hamp
  cases hamp

theorem numericAt_no_amp {start : ℕ}
    (h : numericAt hexMode rest start = some (d, n)) (hstart : '&' ∉ rest.take start) : '&' ∉ rest.take n := by
  let digits := (rest.drop start).takeWhile (isDigitChar hexMode)
  let tail := (rest.drop start).dropWhile (isDigitChar hexMode)
  have hsplit : rest.take start ++ digits ++ tail = rest := by
    rw [List.append_assoc, List.takeWhile_append_dropWhile, List.take_append_drop]
  have hdigits : '&' ∉ digits := takeWhile_no_amp (by cases hexMode <;> rfl) _
  have hne : digits ≠ [] := by
    intro hnil
    rw [numericAt_nil hnil] at h
    cases h
  have hlen : (rest.take start ++ digits).length = start + digits.length := by
    have hlong : start < rest.length := by
      by_contra hshort
      exact hne (by simp [digits, List.drop_of_length_le (Nat.le_of_not_lt hshort)])
    rw [List.length_append, List.length_take, Nat.min_eq_left (Nat.le_of_lt hlong)]
  have hbody := @take_withSemicolon (rest.take start ++ digits) (by simp [hstart, hdigits]) tail
  rw [hsplit, hlen] at hbody
  rw [numericAt, if_neg hne] at h
  obtain ⟨-, rfl⟩ := Prod.mk.inj (Option.some.inj h)
  exact hbody

theorem reference_no_amp (h : denoted rest = some (d, n)) : '&' ∉ rest.take n := by
  unfold denoted at h
  split_ifs at h with hhash hmarker
  · refine numericAt_no_amp h ?_
    cases rest with
    | nil => simp
    | cons a rest =>
      cases rest with
      | nil => cases hmarker
      | cons x post =>
        obtain rfl := Option.some.inj hhash
        have hx : x ≠ '&' := by
          rintro rfl
          cases hmarker
        simpa using hx.symm
  · refine numericAt_no_amp h ?_
    cases rest with
    | nil => simp
    | cons a rest =>
      obtain rfl := Option.some.inj hhash
      simp
  · obtain ⟨code, -, heq⟩ := Option.map_eq_some_iff.mp h
    obtain ⟨-, rfl⟩ := Prod.mk.inj heq
    have hbody := take_withSemicolon (takeWhile_no_amp (by rfl : isAlnum 38 = false) rest)
      (rest.dropWhile (onAscii isAlnum))
    rwa [List.takeWhile_append_dropWhile] at hbody

theorem decoded_length_le (text : List Char) : (decoded text).length ≤ (meaning text).length := by
  induction text using reading with
  | nil => exact Nat.le_refl _
  | plain c rest hc ih =>
    rw [decoded_plain hc, meaning_plain hc]
    simpa using ih
  | reference rest d n hden ih =>
    rw [decoded_reference hden, meaning_reference hden]
    simpa using ih
  | bareHex x post hbare ih =>
    rw [decoded_bareHex hbare, meaning_bareHex hbare]
    simp only [List.length_cons]
    omega
  | word rest hden hbare ih =>
    rw [decoded_word hden hbare, meaning_word hden]
    simpa using ih

theorem hasBareHex_iff (text : List Char) : HasBareHex text ↔ (decoded text).length < (meaning text).length := by
  induction text using reading with
  | nil =>
    constructor
    · rintro ⟨rest, hsuffix, -⟩
      cases List.suffix_nil.mp hsuffix
    · intro hlt
      cases hlt
  | plain c rest hc ih =>
    rw [hasBareHex_cons, decoded_plain hc, meaning_plain hc]
    simp [hc, ih]
  | reference rest d n hden ih =>
    have hbare : isBareHex rest ≠ true := by
      intro hbare
      obtain ⟨x, post, rfl⟩ := bareHex_eq hbare
      rw [denoted_bareHex hbare] at hden
      cases hden
    rw [hasBareHex_cons, ← hasBareHex_drop (reference_no_amp hden), decoded_reference hden, meaning_reference hden]
    simp [hbare, ih]
  | bareHex x post hbare ih =>
    have hlen := decoded_length_le post
    rw [hasBareHex_cons, decoded_bareHex hbare, meaning_bareHex hbare]
    simp only [hbare, List.length_cons]
    simp
    omega
  | word rest hden hbare ih =>
    rw [hasBareHex_cons, decoded_word hden hbare, meaning_word hden]
    simp [hbare, ih]

theorem meaning_length_le (text : List Char) : (meaning text).length ≤ text.length := by
  induction text using reading with
  | nil => exact Nat.le_refl _
  | plain c rest hc ih =>
    rw [meaning_plain hc]
    simpa using ih
  | reference rest d n hden ih =>
    rw [List.length_drop] at ih
    rw [meaning_reference hden, List.length_cons, List.length_cons]
    omega
  | bareHex x post hbare ih =>
    rw [meaning_bareHex hbare]
    simpa using ih
  | word rest hden hbare ih =>
    rw [meaning_word hden]
    simpa using ih

theorem foldLatin1Nbsp_latin1 {text : List Char} (h : ∀ c ∈ text, c.toNat ≤ 255) :
    foldLatin1Nbsp (latin1 text) = latin1 (text.map foldNbsp) := by
  rw [foldLatin1Nbsp, latin1, latin1, List.map_map, List.map_map]
  refine List.map_congr_left fun c hc => ?_
  have hbyte : c.toNat.toUInt8 = 0xA0 ↔ c.toNat = 0xA0 := by
    rw [← UInt8.toNat_inj, toNat_latin1 (h c hc)]
    rfl
  simp only [Function.comp_apply, hbyte, foldNbsp]
  split_ifs <;> rfl

theorem latin1_injective {s t : List Char} (hs : ∀ c ∈ s, c.toNat ≤ 255) (ht : ∀ c ∈ t, c.toNat ≤ 255)
    (h : latin1 s = latin1 t) : s = t := by
  induction s generalizing t with
  | nil =>
    cases t with
    | nil => rfl
    | cons d t => cases h
  | cons c s ih =>
    cases t with
    | nil => cases h
    | cons d t =>
      obtain ⟨hc, hs⟩ := List.forall_mem_cons.mp hs
      obtain ⟨hd, ht⟩ := List.forall_mem_cons.mp ht
      obtain ⟨hbyte, hrest⟩ := List.cons.inj h
      have hnat := congrArg UInt8.toNat hbyte
      rw [toNat_latin1 hc, toNat_latin1 hd] at hnat
      rw [Char.toNat_inj.mp hnat, ih hs ht hrest]

theorem decoded_no_amp {text : List Char} (h : '&' ∉ text) : decoded text = text := by
  induction text with
  | nil => rfl
  | cons c text ih =>
    rw [List.mem_cons, not_or] at h
    rw [decoded_plain (Ne.symm h.1), ih h.2]

theorem safeDecode_ascii {text : List Char} (h : ∀ c ∈ text, IsAscii c) : safeDecodeHtmlEntities (encode text) =
    if (decoded text).all (·.toNat ≤ 255) = true ∧ isWellFormedUtf8 (latin1 ((decoded text).map foldNbsp)) = true then
      latin1 ((decoded text).map foldNbsp)
    else encode text := by
  unfold safeDecodeHtmlEntities
  by_cases hamp : '&' ∈ text
  · have hmem : 38 ∈ encode text := List.mem_flatMap.mpr ⟨'&', hamp, by decide⟩
    rw [if_neg (not_not.mpr hmem), encode_eq_latin1 h, unescape_decoded text h, asBytes]
    by_cases hle : (decoded text).all (·.toNat ≤ 255) = true
    · simp only [if_pos hle, foldLatin1Nbsp_latin1 (all_latin1.mp hle), and_iff_right hle]
    · rw [if_neg hle, if_neg (fun hall => hle hall.1)]
  · have hmem : 38 ∉ encode text := by
      intro hmem
      rw [encode_eq_latin1 h] at hmem
      exact (ascii_plain h (fun c hc => hc) hamp 38 hmem).1 rfl
    have hfold : (decoded text).map foldNbsp = text := by
      rw [decoded_no_amp hamp]
      exact (List.map_congr_left fun c hc => foldNbsp_ascii (h c hc)).trans (List.map_id text)
    rw [if_pos hmem, prefixLen_encode, List.take_length, hfold, encode_eq_latin1 h, ite_self]

def KeepsMeaning (text : List Char) : Prop :=
  WellFormed (safeDecodeHtmlEntities (encode text)) ∧
    (safeDecodeHtmlEntities (encode text) = encode text ∨
      safeDecodeHtmlEntities (encode text) = encode (meaning text))

theorem keepsMeaning_of_eq {text : List Char} (h : safeDecodeHtmlEntities (encode text) = encode text) :
    KeepsMeaning text := ⟨⟨text, h⟩, .inl h⟩

theorem safeDecode_high {text : List Char} (hmem : c ∈ text) (hhigh : ¬IsAscii c) :
    safeDecodeHtmlEntities (encode text) = encode text := by
  obtain ⟨b, hb, hlow⟩ := Utf8.exists_high hmem hhigh
  have hnone : unescape (encode text) = none := unescapeLoop_high (Nat.lt_of_lt_of_le (by decide) hlow) _ _ _ hb
  unfold safeDecodeHtmlEntities
  rw [hnone, prefixLen_encode, List.take_length, ite_self]

/-- Decoding keeps the meaning of a text just if the text is kept whole, as it is where a character is not of
ASCII, a reference is to one above U+00FF or the bytes of the meaning are not well-formed, or the references are
all to characters of ASCII and none loses its `x`. -/
theorem keepsMeaning_iff (text : List Char) : KeepsMeaning text ↔
    (∃ c ∈ text, ¬IsAscii c) ∨ (∃ c ∈ meaning text, 255 < c.toNat) ∨ ¬WellFormed (latin1 (meaning text)) ∨
      (∀ c ∈ meaning text, IsAscii c) ∧ ¬HasBareHex text := by
  by_cases hascii : ∃ c ∈ text, ¬IsAscii c
  · obtain ⟨c, hmem, hhigh⟩ := hascii
    exact iff_of_true (keepsMeaning_of_eq (safeDecode_high hmem hhigh)) (.inl ⟨c, hmem, hhigh⟩)
  simp only [not_exists, not_and, not_not] at hascii
  have hloses := loses_decoded text hascii
  have hwell := hloses.wellFormed []
  rw [List.nil_append, List.nil_append] at hwell
  have hbytes : (∀ c ∈ decoded text, c.toNat ≤ 255) ↔ ∀ c ∈ meaning text, c.toNat ≤ 255 :=
    hloses.forall_byte
  rw [or_iff_right (by simpa using hascii)]
  by_cases hall : (∀ c ∈ decoded text, c.toNat ≤ 255) ∧ WellFormed (latin1 ((decoded text).map foldNbsp))
  · obtain ⟨hle, hwf⟩ := hall
    have hout : safeDecodeHtmlEntities (encode text) = latin1 ((decoded text).map foldNbsp) := by
      rw [safeDecode_ascii hascii, if_pos ⟨all_latin1.mpr hle, (isWellFormedUtf8_iff _).mpr hwf⟩]
    rw [or_iff_right (by simpa using hbytes.mp hle), or_iff_right (not_not.mpr (hwell.mp hwf)), KeepsMeaning, hout,
      hasBareHex_iff]
    have hlen : ((decoded text).map foldNbsp).length = (decoded text).length := List.length_map _
    have hfold : ∀ c ∈ (decoded text).map foldNbsp, c.toNat ≤ 255 := by
      rintro c hc
      obtain ⟨d, hd, rfl⟩ := List.mem_map.mp hc
      exact foldNbsp_le.mpr (hle d hd)
    constructor
    · rintro ⟨-, hsame | hmeans⟩
      · rw [encode_eq_latin1 hascii] at hsame
        have htext := latin1_injective hfold (fun c hc => Nat.le_of_lt (Nat.lt_trans (hascii c hc) (by decide))) hsame
        have hshort := meaning_length_le text
        rw [htext] at hlen hloses
        have hmeaning := hloses.eq_of_length (Nat.le_antisymm hloses.length_le hshort)
        rw [← hmeaning]
        exact ⟨hascii, by omega⟩
      · have hbytes' := congrArg List.length hmeans
        rw [latin1, List.length_map, hlen] at hbytes'
        have hmore := Utf8.encode_length_le (meaning text)
        have hless := decoded_length_le text
        exact ⟨Utf8.ascii_of_length (by omega), by omega⟩
    · rintro ⟨hmeaning, hbare⟩
      have hsame := hloses.eq_of_length (by rw [hlen]; exact Nat.le_antisymm (decoded_length_le text) (by omega))
      rw [hsame, encode_eq_latin1 hmeaning]
      exact ⟨hsame ▸ hwf, .inr rfl⟩
  · have hout : safeDecodeHtmlEntities (encode text) = encode text := by
      rw [safeDecode_ascii hascii, if_neg (by rwa [all_latin1, isWellFormedUtf8_iff])]
    refine iff_of_true (keepsMeaning_of_eq hout) ?_
    rw [hbytes, hwell, not_and_or] at hall
    exact hall.elim (fun h => .inl (by simpa using h)) fun h => .inr (.inl h)

/-- The bytes of two references are read as those of one character. -/
theorem adjacent_references_combined : ¬KeepsMeaning "&Acirc;&copy;".toList := by
  have hascii : ∀ c ∈ "&Acirc;&copy;".toList, IsAscii c := by
    have hall : "&Acirc;&copy;".toList.all (IsAscii ·) = true := by decide
    exact fun c hc => of_decide_eq_true (List.all_eq_true.mp hall c hc)
  have hdecoded : decoded "&Acirc;&copy;".toList = [Char.ofNat 0xC2, Char.ofNat 0xA9] := by decide
  have hwell : WellFormed (latin1 (([Char.ofNat 0xC2, Char.ofNat 0xA9]).map foldNbsp)) :=
    ⟨[Char.ofNat 0xA9], by decide⟩
  have hout : safeDecodeHtmlEntities (encode "&Acirc;&copy;".toList) = [0xC2, 0xA9] := by
    rw [safeDecode_ascii hascii, hdecoded, if_pos ⟨by decide, (isWellFormedUtf8_iff _).mpr hwell⟩]
    decide
  rw [KeepsMeaning, hout]
  rintro ⟨-, h | h⟩
  · revert h
    decide
  · revert h
    decide

end PageSpeed.Packs
