import PageSpeed.Base.StringUtil
import PageSpeed.Util.UrlEscaper

/-!
The segment encoders: what URLs and a `ResourceContext` are written as, and what is read back.
Where reading fails, what it leaves behind is used by no caller and left out.
-/

namespace PageSpeed

inductive LibWebpLevel
  | none
  | lossyOnly
  | lossyLosslessAlpha
  | animated
  deriving DecidableEq

inductive AvifLevel
  | none
  | lossyOnly
  | lossyLosslessAlpha
  | animated
  deriving DecidableEq

structure ImageDim where
  width : Option Int32 := none
  height : Option Int32 := none
  deriving DecidableEq

structure ResourceContext where
  desiredImageDims : Option ImageDim := none
  inlineImages : Option Bool := none
  mobileUserAgent : Option Bool := none
  libwebpLevel : Option LibWebpLevel := none
  avifLevel : Option AvifLevel := none
  mayUseSmallScreenQuality : Option Bool := none
  mayUseSaveDataQuality : Option Bool := none
  deriving DecidableEq

namespace ResourceContext

def imageDims (data : ResourceContext) : ImageDim := data.desiredImageDims.getD {}

def mutableDesiredImageDims (data : ResourceContext) : ResourceContext :=
  { data with desiredImageDims := some data.imageDims }

end ResourceContext

def integerToString (n : Int32) : GoogleString :=
  if n.toInt < 0 then 45 :: Decimal.digits 10 n.toInt.natAbs else Decimal.digits 10 n.toInt.natAbs

namespace CssUrlEncoder

def encode (urls : List GoogleString) : GoogleString := [65, 46] ++ UrlEscaper.encodeToUrlSegment urls.headI

def decode (encoded : GoogleString) (urls : List GoogleString) : Option (List GoogleString) :=
  if encoded.length < 2 ∨ encoded[1]? ≠ some 46 then none
  else
    let (url, ok) := UrlEscaper.decodeFromUrlSegment (encoded.drop 2)
    if ok then some (urls ++ [url]) else none

theorem decode_encode (url : GoogleString) : decode (encode [url]) [] = some [url] := by
  have hdrop : (encode [url]).drop 2 = UrlEscaper.encodeToUrlSegment url := rfl
  rw [decode, if_neg (by simp [encode]), hdrop, UrlEscaper.decode_encode]
  rfl

end CssUrlEncoder

namespace UrlSegmentEncoder

def encode (urls : List GoogleString) : GoogleString := UrlEscaper.encodeToUrlSegment urls.headI

def decode (urlSegment : GoogleString) : Option (List GoogleString) :=
  let (url, ok) := UrlEscaper.decodeFromUrlSegment urlSegment
  if ok then some [url] else none

theorem decode_encode (url : GoogleString) : decode (encode [url]) = some [url] := by
  rw [decode, encode, List.headI_cons, UrlEscaper.decode_encode]
  rfl

end UrlSegmentEncoder

namespace UrlMultipartEncoder

def kEscape : UInt8 := 61
def kSeparator : UInt8 := 43

def escape (ch : UInt8) : GoogleString :=
  if ch = kEscape then [kEscape, kEscape] else if ch = kSeparator then [kEscape, kSeparator] else [ch]

def join : List GoogleString → GoogleString
  | [] => []
  | [url] => url.flatMap escape
  | url :: urls => url.flatMap escape ++ kSeparator :: join urls

def encode (urls : List GoogleString) : GoogleString := UrlEscaper.encodeToUrlSegment (join urls)

def splitUrls : GoogleString → GoogleString → Bool → Option (List GoogleString)
  | [], url, appendLast => some (if appendLast || !url.isEmpty then [url] else [])
  | ch :: rest, url, appendLast =>
    if ch = kSeparator then (splitUrls rest [] true).map (url :: ·)
    else if ch = kEscape then
      match rest with
      | [] => none
      | ch :: rest => if ch ≠ kEscape ∧ ch ≠ kSeparator then none else splitUrls rest (url ++ [ch]) appendLast
    else splitUrls rest (url ++ [ch]) appendLast

def decode (encoding : GoogleString) : Option (List GoogleString) :=
  let (buf, ok) := UrlEscaper.decodeFromUrlSegment encoding
  if ok then splitUrls buf [] false else none

theorem splitUrls_escape (url rest cur : GoogleString) (appendLast : Bool) :
    splitUrls (url.flatMap escape ++ rest) cur appendLast = splitUrls rest (cur ++ url) appendLast := by
  induction url generalizing cur with
  | nil => rw [List.flatMap_nil, List.nil_append, List.append_nil]
  | cons ch url ih =>
    have hread : ∀ t, splitUrls (escape ch ++ t) cur appendLast = splitUrls t (cur ++ [ch]) appendLast := by
      intro t
      unfold escape
      split_ifs with hesc hsep
      · rw [hesc]
        rfl
      · rw [hsep]
        rfl
      · rw [List.singleton_append, splitUrls.eq_def]
        dsimp only
        rw [if_neg hsep, if_neg hesc]
    rw [List.flatMap_cons, List.append_assoc, hread, ih, List.append_assoc, List.singleton_append]

theorem splitUrls_join_true {urls : List GoogleString} (h : urls ≠ []) : splitUrls (join urls) [] true = some urls := by
  induction urls with
  | nil => exact absurd rfl h
  | cons url urls ih =>
    cases urls with
    | nil =>
      have hlast := splitUrls_escape url [] [] true
      rw [List.append_nil, List.nil_append] at hlast
      exact hlast
    | cons next urls =>
      rw [join, splitUrls_escape, List.nil_append, splitUrls.eq_def]
      dsimp only
      rw [if_pos rfl, ih (List.cons_ne_nil _ _), Option.map_some]
      exact List.cons_ne_nil _ _

theorem splitUrls_join (urls : List GoogleString) :
    splitUrls (join urls) [] false = some (if urls = [[]] then [] else urls) := by
  cases urls with
  | nil => rfl
  | cons url urls =>
    cases urls with
    | nil =>
      have hlast := splitUrls_escape url [] [] false
      rw [List.append_nil, List.nil_append] at hlast
      rw [join, hlast, splitUrls]
      cases url <;> rfl
    | cons next urls =>
      rw [join, splitUrls_escape, List.nil_append, splitUrls.eq_def]
      · dsimp only
        rw [if_pos rfl, splitUrls_join_true (List.cons_ne_nil _ _), Option.map_some,
          if_neg (fun heq => List.cons_ne_nil _ _ (List.cons.inj heq).2)]
      · exact List.cons_ne_nil _ _

theorem decode_encode (urls : List GoogleString) :
    decode (encode urls) = some (if urls = [[]] then [] else urls) := by
  rw [decode, encode, UrlEscaper.decode_encode]
  exact splitUrls_join urls

/-- `Encode` with the `int` that the number of URLs goes through. -/
def encodeCounted (urls : List GoogleString) : GoogleString := encode (urls.take (toInt32 urls.length).toNat)

/-- `Decode` with the `int` that the size of the unescaped text goes through. -/
def decodeCounted (encoding : GoogleString) : Option (List GoogleString) :=
  let (buf, ok) := UrlEscaper.decodeFromUrlSegment encoding
  if ok then splitUrls (buf.take (toInt32 buf.length).toNat) [] false else none

theorem take_toInt32 {α : Type} {l : List α} (h : l.length < 2 ^ 31) : l.take (toInt32 l.length).toNat = l := by
  rw [toInt32_of_lt (by omega) (by omega), Int.toNat_natCast, List.take_length]

theorem decodeCounted_encode (urls : List GoogleString) :
    decodeCounted (encode urls) = splitUrls ((join urls).take (toInt32 (join urls).length).toNat) [] false := by
  simp only [decodeCounted, encode, UrlEscaper.decode_encode, if_true]

/-- All vectors but that of one empty URL are read back, within what an `int` counts. -/
theorem decodeCounted_encodeCounted {urls : List GoogleString} (h : urls ≠ [[]]) (hcount : urls.length < 2 ^ 31)
    (hsize : (join urls).length < 2 ^ 31) : decodeCounted (encodeCounted urls) = some urls := by
  rw [encodeCounted, take_toInt32 hcount, decodeCounted_encode, take_toInt32 hsize, splitUrls_join, if_neg h]

theorem decodeCounted_empty_ends : decodeCounted (encodeCounted [[], [43, 61, 44], []]) = some [[], [43, 61, 44], []] := by
  have hsize : (join [[], [43, 61, 44], []]).length = 7 := by decide
  exact decodeCounted_encodeCounted (by decide) (by decide) (by omega)

/-- A URL of 2^31 bytes is lost. -/
theorem long_url_lost : [List.replicate (2 ^ 31) (97 : UInt8)] ≠ [[]] ∧
    decodeCounted (encodeCounted [List.replicate (2 ^ 31) 97]) ≠ some [List.replicate (2 ^ 31) 97] := by
  have hlen : (List.replicate (2 ^ 31) (97 : UInt8)).length = 2 ^ 31 := List.length_replicate
  have hne : List.replicate (2 ^ 31) (97 : UInt8) ≠ [] := by
    intro h
    rw [h, List.length_nil] at hlen
    omega
  have hjoin : ∀ n, join [List.replicate n (97 : UInt8)] = List.replicate n 97 := by
    intro n
    rw [join]
    induction n with
    | zero => rfl
    | succ n ih =>
      rw [List.replicate_succ, List.flatMap_cons, ih]
      rfl
  have hint : (toInt32 ((2 ^ 31 : ℕ) : Int)).toNat = 0 := by decide
  constructor
  · intro h
    exact hne (List.singleton_inj.mp h)
  · rw [encodeCounted, take_toInt32 (by decide : [_].length < 2 ^ 31), decodeCounted_encode, hjoin, hlen, hint]
    intro h
    exact absurd (Option.some.inj h) (List.cons_ne_nil _ _).symm

end UrlMultipartEncoder

namespace ImageUrlEncoder

def kCodeSeparator : UInt8 := 120
def kCodeWebpLossy : UInt8 := 119
def kCodeWebpLossyLosslessAlpha : UInt8 := 118
def kCodeMobileUserAgent : UInt8 := 109
def kMissingDimension : UInt8 := 78

def isValidCode (code : UInt8) : Bool :=
  code = kCodeSeparator ∨ code = kCodeWebpLossy ∨ code = kCodeWebpLossyLosslessAlpha ∨ code = kCodeMobileUserAgent

def hasDimension (data : ResourceContext) : Bool := data.imageDims.width.isSome || data.imageDims.height.isSome

def encodeDimension : Option Int32 → GoogleString
  | some n => integerToString n
  | none => [kMissingDimension]

def encode (urls : List GoogleString) (data : ResourceContext) : GoogleString :=
  (if hasDimension data then
    encodeDimension data.imageDims.width ++ kCodeSeparator :: encodeDimension data.imageDims.height
  else []) ++ kCodeSeparator :: UrlEscaper.encodeToUrlSegment urls.headI

def readDigits : ℕ → Bool → GoogleString → ℕ × Bool × GoogleString
  | result, ok, c :: d :: rest =>
    match accumulateDecimalValue c result with
    | some result => readDigits result true (d :: rest)
    | none => (result, ok, c :: d :: rest)
  | result, ok, s => (result, ok, s)

def decodeDimension (s : GoogleString) : Option (Option ℕ × GoogleString) :=
  if s.length < 2 then none
  else if s.headI = kMissingDimension then some (none, s.tail)
  else
    let (result, ok, rest) := readDigits 0 false s
    if ok then some (some result, rest) else none

def decodeImageDimensions (remaining : GoogleString) (dims : ImageDim) : Option (ImageDim × GoogleString) :=
  if remaining.length < 4 then none
  else do
    let (width, remaining) ← decodeDimension remaining
    if remaining.headI ≠ kCodeSeparator then none
    else do
      let (height, remaining) ← decodeDimension remaining.tail
      if remaining = [] ∨ ¬isValidCode remaining.headI then none
      else if width = none ∧ height = none then none
      else some ({ width := (width.map Int32.ofNat).or dims.width,
                   height := (height.map Int32.ofNat).or dims.height }, remaining)

def decodeTerminator (terminator : UInt8) (remaining : GoogleString) (data : ResourceContext) :
    Option (ResourceContext × GoogleString) := do
  let (terminator, remaining, data) ←
    if terminator = kCodeMobileUserAgent then
      match remaining with
      | [] => none
      | t :: rest =>
        if t ≠ kCodeWebpLossy ∧ t ≠ kCodeWebpLossyLosslessAlpha ∧ t ≠ kCodeSeparator then none
        else some (t, rest, { data with mobileUserAgent := some true })
    else some (terminator, remaining, data)
  if terminator = kCodeWebpLossy then
    some ({ data with libwebpLevel := some .lossyOnly, avifLevel := none }, remaining)
  else if terminator = kCodeWebpLossyLosslessAlpha then
    some ({ data with libwebpLevel := some .lossyLosslessAlpha, avifLevel := none }, remaining)
  else some (data, remaining)

def decodeFront (encoded : GoogleString) (dims : ImageDim) : Option (ImageDim × GoogleString) :=
  if isValidCode encoded.headI then some (dims, encoded) else decodeImageDimensions encoded dims

def decode (encoded : GoogleString) (urls : List GoogleString) (data : ResourceContext) :
    Option (List GoogleString × ResourceContext) :=
  if encoded = [] then none
  else do
    let (dims, remaining) ← decodeFront encoded data.imageDims
    let (data, remaining) ← decodeTerminator remaining.headI remaining.tail { data with desiredImageDims := some dims }
    let (url, ok) := UrlEscaper.decodeFromUrlSegment remaining
    if ok then some (urls ++ [url], data) else none

def readBack (n : Int32) : ℕ := min n.toInt.toNat 0x110000

def readBackDims (dims : ImageDim) : ImageDim where
  width := dims.width.map fun n => Int32.ofNat (readBack n)
  height := dims.height.map fun n => Int32.ofNat (readBack n)

def NonNegative (dims : ImageDim) : Prop :=
  (∀ n, dims.width = some n → 0 ≤ n.toInt) ∧ ∀ n, dims.height = some n → 0 ≤ n.toInt

theorem accumulate_digit {c : UInt8} (h : Decimal.isDigit c = true) (value : ℕ) :
    accumulateDecimalValue c value = some (min (value * 10 + (c.toNat - 48)) 0x110000) := by
  simp only [Decimal.isDigit, Bool.and_eq_true, decide_eq_true_eq] at h
  rw [accumulateDecimalValue, if_pos h]

theorem readDigits_digits {digits : GoogleString} (h : digits.all Decimal.isDigit = true) (result : ℕ) (ok : Bool)
    (t : GoogleString) :
    readDigits (min result 0x110000) ok (digits ++ kCodeSeparator :: t) =
      (min (digits.foldl (fun n c => 10 * n + (c.toNat - 48)) result) 0x110000, ok || !digits.isEmpty,
        kCodeSeparator :: t) := by
  induction digits generalizing result ok with
  | nil => cases t <;> simp [readDigits, accumulateDecimalValue, kCodeSeparator]
  | cons c digits ih =>
    rw [List.all_cons, Bool.and_eq_true] at h
    obtain ⟨d, rest, hrest⟩ := List.exists_cons_of_ne_nil
      (List.append_ne_nil_of_right_ne_nil digits (List.cons_ne_nil kCodeSeparator t))
    have hclamp : min (min result 0x110000 * 10 + (c.toNat - 48)) 0x110000 =
        min (10 * result + (c.toNat - 48)) 0x110000 := by omega
    rw [List.cons_append, hrest, readDigits, accumulate_digit h.1, hclamp, ← hrest]
    dsimp only
    rw [ih h.2]
    simp

theorem integerToString_of_nonneg {n : Int32} (h : 0 ≤ n.toInt) :
    integerToString n = Decimal.digits 10 n.toInt.toNat := by
  rw [integerToString, if_neg (by omega)]
  congr 1
  omega

variable {dimension : Option Int32}

theorem decodeDimension_encode (h : ∀ n, dimension = some n → 0 ≤ n.toInt) (t : GoogleString) :
    decodeDimension (encodeDimension dimension ++ kCodeSeparator :: t) =
      some (dimension.map readBack, kCodeSeparator :: t) := by
  cases dimension with
  | none => rfl
  | some n =>
    have hlt : n.toInt.toNat < 10 ^ 10 := by
      have hlt := n.toInt_lt
      omega
    have hall := Decimal.digits_all 10 n.toInt.toNat
    have hne := Decimal.digits_ne_nil 9 n.toInt.toNat
    have hvalue := readDigits_digits hall 0 false t
    rw [show (Decimal.digits 10 n.toInt.toNat).foldl (fun n c => 10 * n + (c.toNat - 48)) 0 = n.toInt.toNat from
      Decimal.value_digits 10 _ hlt] at hvalue
    rw [encodeDimension, integerToString_of_nonneg (h n rfl), decodeDimension]
    obtain ⟨c, digits, hdigits⟩ := List.exists_cons_of_ne_nil hne
    rw [hdigits] at hall hvalue ⊢
    rw [List.all_cons, Bool.and_eq_true] at hall
    have hdigit : (c :: digits ++ kCodeSeparator :: t).headI ≠ kMissingDimension := by
      rintro heq
      rw [show c = kMissingDimension from heq] at hall
      exact absurd hall.1 (by decide)
    rw [if_neg (by simp only [List.length_append, List.length_cons]; omega), if_neg hdigit]
    rw [Nat.zero_min] at hvalue
    rw [hvalue]
    rfl

theorem encodeDimension_ne_nil (dimension : Option Int32) : encodeDimension dimension ≠ [] := by
  cases dimension with
  | none => exact List.cons_ne_nil _ _
  | some n =>
    rw [encodeDimension, integerToString]
    split_ifs
    · exact List.cons_ne_nil _ _
    · exact Decimal.digits_ne_nil 9 _

theorem not_isValidCode_encodeDimension (h : ∀ n, dimension = some n → 0 ≤ n.toInt)
    (t : GoogleString) : isValidCode (encodeDimension dimension ++ t).headI = false := by
  cases dimension with
  | none => rfl
  | some n =>
    obtain ⟨c, digits, hdigits⟩ := List.exists_cons_of_ne_nil (Decimal.digits_ne_nil 9 n.toInt.toNat)
    have hall := Decimal.digits_all 10 n.toInt.toNat
    rw [hdigits, List.all_cons, Bool.and_eq_true] at hall
    rw [encodeDimension, integerToString_of_nonneg (h n rfl), hdigits]
    have hdigit := hall.1
    simp only [Decimal.isDigit, Bool.and_eq_true, decide_eq_true_eq] at hdigit
    change decide (c = 120 ∨ c = 119 ∨ c = 118 ∨ c = 109) = false
    grind

theorem decodeImageDimensions_encode {dims : ImageDim} (h : NonNegative dims)
    (hdims : dims.width.isSome || dims.height.isSome) (t : GoogleString) :
    decodeImageDimensions (encodeDimension dims.width ++ kCodeSeparator ::
      (encodeDimension dims.height ++ kCodeSeparator :: t)) {} = some (readBackDims dims, kCodeSeparator :: t) := by
  have hwidth := List.length_pos_iff.mpr (encodeDimension_ne_nil dims.width)
  have hheight := List.length_pos_iff.mpr (encodeDimension_ne_nil dims.height)
  rw [decodeImageDimensions, if_neg (by simp only [List.length_append, List.length_cons]; omega),
    decodeDimension_encode h.1, Option.bind_eq_bind, Option.bind_some]
  dsimp only
  rw [if_neg (by simp), List.tail_cons, decodeDimension_encode h.2, Option.bind_some]
  dsimp only
  have hboth : ¬(dims.width.map readBack = none ∧ dims.height.map readBack = none) := by
    rintro ⟨hw, hh⟩
    rw [Option.map_eq_none_iff.mp hw, Option.map_eq_none_iff.mp hh] at hdims
    cases hdims
  rw [if_neg (fun hcode => hcode.elim (List.cons_ne_nil _ _) (absurd rfl)), if_neg hboth]
  cases dims with
  | mk width height => cases width <;> cases height <;> rfl

theorem decode_encode (url : GoogleString) {data : ResourceContext} (h : NonNegative data.imageDims) :
    decode (encode [url] data) [] { data with desiredImageDims := none } =
      some ([url], { data with desiredImageDims := some (readBackDims data.imageDims) }) := by
  have hfront : decodeFront (encode [url] data) {} =
      some (readBackDims data.imageDims, kCodeSeparator :: UrlEscaper.encodeToUrlSegment url) := by
    rw [decodeFront, encode]
    by_cases hdims : hasDimension data = true
    · rw [if_pos hdims, List.append_assoc, not_isValidCode_encodeDimension h.1, if_neg Bool.false_ne_true]
      exact decodeImageDimensions_encode h hdims _
    · have hnone : data.imageDims = {} := by
        unfold hasDimension at hdims
        rw [Bool.or_eq_true, not_or, Option.not_isSome_iff_eq_none, Option.not_isSome_iff_eq_none] at hdims
        cases hd : data.imageDims with
        | mk width height =>
          rw [hd] at hdims
          dsimp only at hdims
          rw [hdims.1, hdims.2]
      rw [if_neg hdims, hnone]
      rfl
  have hne : encode [url] data ≠ [] := List.append_ne_nil_of_right_ne_nil _ (List.cons_ne_nil _ _)
  rw [decode, if_neg hne, show ResourceContext.imageDims { data with desiredImageDims := none } = {} from rfl, hfront,
    Option.bind_eq_bind, Option.bind_some]
  dsimp only
  rw [List.headI_cons, List.tail_cons, show ∀ s d, decodeTerminator kCodeSeparator s d = some (d, s) from fun _ _ => rfl,
    Option.bind_eq_bind, Option.bind_some]
  dsimp only
  rw [UrlEscaper.decode_encode]
  rfl

def kMaxReadBack : ℤ := 0x110000

def InReach (dims : ImageDim) : Prop :=
  (∀ n, dims.width = some n → n.toInt ≤ kMaxReadBack) ∧ ∀ n, dims.height = some n → n.toInt ≤ kMaxReadBack

theorem readBack_eq_iff {n : Int32} (h : 0 ≤ n.toInt) :
    Int32.ofNat (readBack n) = n ↔ n.toInt ≤ kMaxReadBack := by
  have hlt := n.toInt_lt
  have hread : (Int32.ofNat (readBack n)).toInt = readBack n := by
    have hsize : Int32.size = 2 ^ 32 := rfl
    rw [Int32.toInt_ofNat', Int.bmod_def, hsize]
    unfold readBack
    split_ifs <;> omega
  rw [← Int32.toInt_inj, hread, readBack, kMaxReadBack]
  omega

theorem map_readBack_eq_iff (h : ∀ n, dimension = some n → 0 ≤ n.toInt) :
    dimension.map (fun n => Int32.ofNat (readBack n)) = dimension ↔
      ∀ n, dimension = some n → n.toInt ≤ kMaxReadBack := by
  cases dimension with
  | none => exact ⟨fun _ => nofun, fun _ => rfl⟩
  | some n =>
    rw [Option.map_some, Option.some_inj, readBack_eq_iff (h n rfl)]
    exact ⟨fun hle m hm => Option.some.inj hm ▸ hle, fun hle => hle n rfl⟩

theorem readBackDims_eq_iff {dims : ImageDim} (h : NonNegative dims) : readBackDims dims = dims ↔ InReach dims := by
  rw [InReach, ← map_readBack_eq_iff h.1, ← map_readBack_eq_iff h.2]
  cases dims with
  | mk width height => rw [readBackDims, ImageDim.mk.injEq]

end ImageUrlEncoder

inductive SegmentEncoder
  | base
  | css
  | image
  | multipart
  deriving DecidableEq

namespace SegmentEncoder

def encode (encoder : SegmentEncoder) (urls : List GoogleString) (data : ResourceContext) : GoogleString :=
  match encoder with
  | base => UrlSegmentEncoder.encode urls
  | css => CssUrlEncoder.encode urls
  | image => ImageUrlEncoder.encode urls data
  | multipart => UrlMultipartEncoder.encode urls

def decode (encoder : SegmentEncoder) (name : GoogleString) (data : ResourceContext) :
    Option (List GoogleString × ResourceContext) :=
  match encoder with
  | base => (UrlSegmentEncoder.decode name).map (·, data)
  | css => (CssUrlEncoder.decode name []).map (·, data)
  | image => ImageUrlEncoder.decode name [] data
  | multipart => (UrlMultipartEncoder.decode name).map (·, data)

def requestContext (encoder : SegmentEncoder) (data : ResourceContext) : ResourceContext :=
  match encoder with
  | image => { data with desiredImageDims := none }
  | _ => data

def Takes (encoder : SegmentEncoder) (urls : List GoogleString) (data : ResourceContext) : Prop :=
  match encoder with
  | base | css => urls.length = 1
  | image => urls.length = 1 ∧ ImageUrlEncoder.NonNegative data.imageDims
  | multipart => True

def GivesBack (encoder : SegmentEncoder) (name : GoogleString) (urls : List GoogleString) (data : ResourceContext) :
    Prop :=
  ∃ data', encoder.decode name (encoder.requestContext data) = some (urls, data') ∧
    data'.mutableDesiredImageDims = data.mutableDesiredImageDims

def Distinct (encoder : SegmentEncoder) (urls : List GoogleString) (data : ResourceContext) : Prop :=
  match encoder with
  | base | css => True
  | image => ImageUrlEncoder.InReach data.imageDims
  | multipart => urls ≠ [[]]

theorem givesBack_encode_iff {encoder : SegmentEncoder} {urls : List GoogleString} {data : ResourceContext}
    (h : encoder.Takes urls data) :
    encoder.GivesBack (encoder.encode urls data) urls data ↔ encoder.Distinct urls data := by
  have hsome : ∀ {urls' : List GoogleString} {data' : ResourceContext},
      encoder.decode (encoder.encode urls data) (encoder.requestContext data) = some (urls', data') →
      (encoder.GivesBack (encoder.encode urls data) urls data ↔
        urls' = urls ∧ data'.mutableDesiredImageDims = data.mutableDesiredImageDims) := by
    intro urls' data' hdecode
    constructor
    · rintro ⟨data'', hdecode', hdata⟩
      rw [hdecode] at hdecode'
      injection hdecode' with heq
      injection heq with hurls heq
      rw [heq]
      exact ⟨hurls, hdata⟩
    · rintro ⟨rfl, hdata⟩
      exact ⟨data', hdecode, hdata⟩
  cases encoder with
  | base =>
    obtain ⟨url, rfl⟩ := List.length_eq_one_iff.mp h
    exact (hsome (congrArg (Option.map (·, data)) (UrlSegmentEncoder.decode_encode url))).trans (by simp [Distinct])
  | css =>
    obtain ⟨url, rfl⟩ := List.length_eq_one_iff.mp h
    exact (hsome (congrArg (Option.map (·, data)) (CssUrlEncoder.decode_encode url))).trans (by simp [Distinct])
  | image =>
    obtain ⟨url, rfl⟩ := List.length_eq_one_iff.mp h.1
    have hiff := hsome (ImageUrlEncoder.decode_encode url h.2)
    rw [hiff, Distinct, ← ImageUrlEncoder.readBackDims_eq_iff h.2]
    constructor
    · rintro ⟨-, hdata⟩
      exact Option.some.inj (congrArg ResourceContext.desiredImageDims hdata)
    · intro hdims
      rw [hdims]
      exact ⟨rfl, rfl⟩
  | multipart =>
    have hiff := hsome (congrArg (Option.map (·, data)) (UrlMultipartEncoder.decode_encode urls))
    rw [hiff, Distinct]
    by_cases hempty : urls = [[]]
    · rw [if_pos hempty, hempty]
      simp
    · rw [if_neg hempty]
      simp [hempty]

end SegmentEncoder

end PageSpeed
