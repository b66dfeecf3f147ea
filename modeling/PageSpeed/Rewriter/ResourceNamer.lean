import PageSpeed.Rewriter.SegmentEncoders

/-!
The names of rewritten resources, `name.pagespeed[.experiment|.options].id.hash[signature].ext`.
A name may hold dots, so the first segment that is the system's own name tells where it ends.
-/

namespace PageSpeed

structure ResourceNamer where
  id : GoogleString := []
  options : GoogleString := []
  name : GoogleString := []
  hash : GoogleString := []
  ext : GoogleString := []
  experiment : GoogleString := []
  signature : GoogleString := []
  deriving DecidableEq

def fileExtensions : List GoogleString :=
  [".html", ".xhtml", ".js", ".css", ".txt", ".xml", ".png", ".gif", ".jpg", ".swf", ".webp", ".ico", ".json",
    ".map", ".pdf", ".bin", ".svg", ".avif", ".jpeg", ".htm", ".mpg", ".mp4", ".3gp", ".flv", ".ogg", ".webm",
    ".asf", ".wmv", ".mov", ".mp3", ".wav"].map ascii

def nameExtensionToContentType (name : GoogleString) : Option GoogleString :=
  if 46 ∈ name then
    fileExtensions.find? (stringCaseEqual (46 :: (name.reverse.takeWhile (· != 46)).reverse))
  else none

namespace ResourceNamer

def kSystemId : GoogleString := ascii "pagespeed"
def kSeparatorChar : UInt8 := 46

def isHexChar (ch : UInt8) : Bool := isDigit ch || decide (65 ≤ upperChar ch ∧ upperChar ch ≤ 70)

def legacyDecode (prior : ResourceNamer) (encoded : GoogleString) : Bool × ResourceNamer :=
  match nameExtensionToContentType encoded, splitStringPieceToVector encoded [kSeparatorChar] true with
  | some _, [id, hash, name, ext] =>
    if hash.length ≠ 32 ∨ ¬hash.all isHexChar then (false, { prior with hash })
    else (true, { prior with id, hash, name, ext })
  | _, _ => (false, prior)

def decodeMiddle (namer : ResourceNamer) (middle : List GoogleString) : Bool × ResourceNamer :=
  if middle = [] then (true, namer)
  else
    let experimentOrOptions := joinCollection middle [kSeparatorChar]
    match experimentOrOptions with
    | [] => (false, namer)
    | [c] => if 97 ≤ c ∧ c ≤ 122 then (true, { namer with experiment := [c] }) else (false, namer)
    | _ =>
      let (options, ok) := UrlEscaper.decodeFromUrlSegment experimentOrOptions
      (ok, { namer with options })

/-- The segments around the one at `systemIdIndex`. -/
def decodeSegments (prior : ResourceNamer) (segments : List GoogleString) (systemIdIndex : ℕ)
    (hashLength signatureLength : ℤ) : Bool × ResourceNamer :=
  let n := segments.length
  let hashSegment := segments.getD (n - 2) []
  let isSigned : Bool := 0 < signatureLength ∧ hashSegment.length = (hashLength + signatureLength) % 2 ^ 32
  decodeMiddle
    { prior with
      name := joinCollection (segments.take systemIdIndex) [kSeparatorChar]
      ext := segments.getD (n - 1) []
      hash := if isSigned then substr hashSegment 0 hashLength else hashSegment
      signature := if isSigned then substrFrom hashSegment (hashLength % 2 ^ 32).toNat else prior.signature
      id := segments.getD (n - 3) [] }
    ((segments.take (n - 3)).drop (systemIdIndex + 1))

def decode (prior : ResourceNamer) (encoded : GoogleString) (hashLength signatureLength : ℤ) :
    Bool × ResourceNamer :=
  let segments := splitStringPieceToVector encoded [kSeparatorChar] false
  let cleared := { prior with experiment := [], options := [] }
  match segments.idxOf? kSystemId with
  | some systemIdIndex =>
    if 1 ≤ systemIdIndex ∧ 4 ≤ segments.length - systemIdIndex then
      decodeSegments cleared segments systemIdIndex hashLength signatureLength
    else legacyDecode cleared encoded
  | none => legacyDecode cleared encoded

def experimentOrOptions (namer : ResourceNamer) : List GoogleString :=
  if namer.experiment ≠ [] then [namer.experiment]
  else if namer.options ≠ [] then [UrlEscaper.encodeToUrlSegment namer.options]
  else []

def encode (namer : ResourceNamer) : GoogleString :=
  joinCollection
    ([namer.name, kSystemId] ++ namer.experimentOrOptions ++ [namer.id, namer.hash ++ namer.signature, namer.ext])
    [kSeparatorChar]

theorem split_segments {s : GoogleString} (hlt : s.length < 2 ^ 31) :
    splitStringPieceToVector s [kSeparatorChar] false = s.splitOn kSeparatorChar := by
  rw [split_eq_splitOn kSeparatorChar false hlt]
  exact List.filter_eq_self.mpr fun _ _ => rfl

theorem idxOf?_of_first {front : List GoogleString} (h : kSystemId ∉ front) (back : List GoogleString) :
    (front ++ kSystemId :: back).idxOf? kSystemId = some front.length := by
  induction front with
  | nil => rfl
  | cons segment front ih =>
    obtain ⟨hne, hrest⟩ := not_or.mp (mt List.mem_cons.mpr h)
    rw [List.cons_append, List.idxOf?_cons, if_neg (by simpa using Ne.symm hne), ih hrest]
    rfl

theorem decode_of_first {encoded : GoogleString} {front middle : List GoogleString} {id hashSegment ext : GoogleString}
    (hlt : encoded.length < 2 ^ 31)
    (hsplit : encoded.splitOn kSeparatorChar = front ++ kSystemId :: (middle ++ [id, hashSegment, ext]))
    (hfirst : kSystemId ∉ front) (hne : front ≠ []) (prior : ResourceNamer) (hashLength signatureLength : ℤ) :
    decode prior encoded hashLength signatureLength =
      let isSigned : Bool := 0 < signatureLength ∧ hashSegment.length = (hashLength + signatureLength) % 2 ^ 32
      decodeMiddle
        { experiment := []
          options := []
          name := joinCollection front [kSeparatorChar]
          ext
          hash := if isSigned then substr hashSegment 0 hashLength else hashSegment
          signature := if isSigned then substrFrom hashSegment (hashLength % 2 ^ 32).toNat else prior.signature
          id } middle := by
  have hpos := List.length_pos_iff.mpr hne
  rw [decode, split_segments hlt, hsplit]
  dsimp only
  rw [idxOf?_of_first hfirst]
  dsimp only
  rw [if_pos (by simp only [List.length_append, List.length_cons, List.length_nil]; omega), decodeSegments]
  have hlen : (front ++ kSystemId :: (middle ++ [id, hashSegment, ext])).length = front.length + middle.length + 4 := by
    simp only [List.length_append, List.length_cons, List.length_nil]
    omega
  have hassoc : front ++ kSystemId :: (middle ++ [id, hashSegment, ext]) =
      (front ++ kSystemId :: middle) ++ [id, hashSegment, ext] := by simp
  have hmiddle : (front ++ kSystemId :: middle).length = front.length + middle.length + 1 := by
    rw [List.length_append, List.length_cons]
    omega
  have hget : ∀ i, ((front ++ kSystemId :: middle) ++ [id, hashSegment, ext]).getD (front.length + middle.length + 1 + i) [] =
      [id, hashSegment, ext].getD i [] := by
    intro i
    rw [← hmiddle, List.getD_append_right _ _ _ _ (Nat.le_add_right _ i), Nat.add_sub_cancel_left]
  dsimp only
  rw [hlen, show front.length + middle.length + 4 - 2 = front.length + middle.length + 1 + 1 by omega,
    show front.length + middle.length + 4 - 1 = front.length + middle.length + 1 + 2 by omega,
    show front.length + middle.length + 4 - 3 = front.length + middle.length + 1 + 0 by omega, hassoc,
    hget, hget, hget, List.append_assoc, List.take_left, ← List.append_assoc, Nat.add_zero, ← hmiddle, List.take_left]
  have hdrop : (front ++ kSystemId :: middle).drop (front.length + 1) = middle := by
    rw [← List.singleton_append, ← List.append_assoc]
    exact List.drop_left' (by rw [List.length_append, List.length_singleton])
  rw [hdrop]
  rfl

structure Encodable (namer : ResourceNamer) : Prop where
  id : kSeparatorChar ∉ namer.id
  hash : kSeparatorChar ∉ namer.hash
  signature : kSeparatorChar ∉ namer.signature
  ext : kSeparatorChar ∉ namer.ext
  middle : namer.experiment = [] ∧ namer.options = [] ∨
    (∃ c, 97 ≤ c ∧ c ≤ 122 ∧ namer.experiment = [c]) ∧ namer.options = [] ∨
      namer.experiment = [] ∧ 1 < (UrlEscaper.encodeToUrlSegment namer.options).length

def middleSegments (namer : ResourceNamer) : List GoogleString :=
  namer.experimentOrOptions.flatMap (·.splitOn kSeparatorChar)

variable {namer : ResourceNamer}

theorem splitOn_encode (h : namer.Encodable) :
    namer.encode.splitOn kSeparatorChar = namer.name.splitOn kSeparatorChar ++
      kSystemId :: (namer.middleSegments ++ [namer.id, namer.hash ++ namer.signature, namer.ext]) := by
  have hsegment : kSeparatorChar ∉ namer.hash ++ namer.signature := fun hmem =>
    (List.mem_append.mp hmem).elim h.hash h.signature
  rw [encode, splitOn_join _ (by simp)]
  simp only [List.flatMap_append, List.flatMap_cons, List.flatMap_nil, List.splitOn_eq_singleton h.id,
    List.splitOn_eq_singleton hsegment, List.splitOn_eq_singleton h.ext, middleSegments,
    List.splitOn_eq_singleton (show kSeparatorChar ∉ kSystemId by decide)]
  simp

theorem decodeMiddle_segments (h : namer.Encodable) (fields : ResourceNamer)
    (hexperiment : fields.experiment = []) (hoptions : fields.options = []) :
    decodeMiddle fields namer.middleSegments =
      (true, { fields with experiment := namer.experiment, options := namer.options }) := by
  obtain ⟨_, _, _, _, _, _, _⟩ := fields
  dsimp only at hexperiment hoptions
  rw [hexperiment, hoptions]
  obtain ⟨hexp, hopt⟩ | ⟨⟨c, hle, hge, hexp⟩, hopt⟩ | ⟨hexp, hlong⟩ := h.middle
  · have hsegments : namer.middleSegments = [] := by
      rw [middleSegments, experimentOrOptions, hexp, hopt]
      rfl
    rw [hsegments, hexp, hopt]
    rfl
  · have hdot : kSeparatorChar ∉ [c] := by
      intro hmem
      rw [← List.mem_singleton.mp hmem] at hle
      exact absurd hle (by decide)
    have hsegments : namer.middleSegments = [[c]] := by
      rw [middleSegments, experimentOrOptions, hexp, if_pos (List.cons_ne_nil _ _), List.flatMap_singleton,
        List.splitOn_eq_singleton hdot]
    have hread : ∀ fields : ResourceNamer, decodeMiddle fields [[c]] =
        if 97 ≤ c ∧ c ≤ 122 then (true, { fields with experiment := [c] }) else (false, fields) := fun _ => rfl
    rw [hsegments, hread, if_pos ⟨hle, hge⟩, hexp, hopt]
  · have hne : namer.options ≠ [] := by
      intro hnil
      rw [hnil] at hlong
      exact absurd hlong (by decide)
    have hsegments : namer.middleSegments =
        (UrlEscaper.encodeToUrlSegment namer.options).splitOn kSeparatorChar := by
      rw [middleSegments, experimentOrOptions, hexp, if_neg (not_not.mpr rfl), if_pos hne, List.flatMap_singleton]
    rw [decodeMiddle, hsegments, if_neg (List.splitOn_ne_nil _ _), join_splitOn]
    dsimp only
    split
    · next heq =>
      rw [heq] at hlong
      exact absurd hlong (by decide)
    · next heq =>
      rw [heq] at hlong
      exact absurd hlong (Nat.lt_irrefl 1)
    · rw [UrlEscaper.decode_encode, hexp]

theorem decode_encode (h : namer.Encodable) (hlt : namer.encode.length < 2 ^ 31)
    (hfirst : kSystemId ∉ namer.name.splitOn kSeparatorChar) (prior : ResourceNamer) :
    decode prior namer.encode namer.hash.length namer.signature.length =
      (true, { namer with signature := if namer.signature = [] then prior.signature else namer.signature }) := by
  have hle : (namer.hash ++ namer.signature).length ≤ namer.encode.length := length_le_join (by simp) _
  rw [List.length_append] at hle
  rw [decode_of_first hlt (splitOn_encode h) hfirst (List.splitOn_ne_nil _ _)]
  dsimp only
  rw [decodeMiddle_segments h _ rfl rfl, join_splitOn]
  by_cases hunsigned : namer.signature = []
  · have hsigned : decide (0 < (namer.signature.length : ℤ) ∧ ((namer.hash ++ namer.signature).length : ℤ) =
        (namer.hash.length + namer.signature.length) % 2 ^ 32) = false := by
      rw [hunsigned]
      exact decide_eq_false fun hpos => absurd hpos.1 (by decide)
    rw [hsigned, if_pos hunsigned, hunsigned, List.append_nil]
    rfl
  · have hpos := List.length_pos_iff.mpr hunsigned
    have hsigned : decide (0 < (namer.signature.length : ℤ) ∧ ((namer.hash ++ namer.signature).length : ℤ) =
        (namer.hash.length + namer.signature.length) % 2 ^ 32) = true := by
      rw [List.length_append]
      exact decide_eq_true (by omega)
    have hhash : substr (namer.hash ++ namer.signature) 0 namer.hash.length = namer.hash :=
      substr_append [] namer.hash namer.signature (by rw [List.nil_append, List.length_append]; omega)
    have hstart : ((namer.hash.length : ℤ) % 2 ^ 32).toNat = namer.hash.length := by omega
    have hsignature := substrFrom_append namer.hash namer.signature (show namer.hash.length < 2 ^ 32 by omega)
    rw [hsigned, if_neg hunsigned, hhash, hstart, hsignature]
    rfl

theorem decodeMiddle_name (namer : ResourceNamer) (middle : List GoogleString) :
    (decodeMiddle namer middle).2.name = namer.name := by
  unfold decodeMiddle
  split_ifs
  · rfl
  · dsimp only
    split
    · rfl
    · split_ifs <;> rfl
    · rfl

theorem pieces_of_legacyDecode {prior : ResourceNamer} {encoded : GoogleString}
    (h : legacyDecode prior encoded = (true, namer)) :
    ∃ id hash ext, splitStringPieceToVector encoded [kSeparatorChar] true = [id, hash, namer.name, ext] ∧
      hash.length = 32 := by
  unfold legacyDecode at h
  split at h
  · next id hash name ext _ hpieces =>
    split_ifs at h with hhash
    · injection h with hfalse
      cases hfalse
    · injection h with _ hnamer
      rw [← hnamer]
      exact ⟨id, hash, ext, hpieces, of_not_not fun hlen => hhash (Or.inl hlen)⟩
  · injection h with hfalse
    cases hfalse

theorem decode_ne_of_anchor (h : namer.Encodable) (hlt : namer.encode.length < 2 ^ 31)
    (hanchor : kSystemId ∈ namer.name.splitOn kSeparatorChar) (prior : ResourceNamer) :
    decode prior namer.encode namer.hash.length namer.signature.length ≠ (true, namer) := by
  obtain ⟨front, back, hsplit, hfirst⟩ := List.eq_append_cons_of_mem hanchor
  have hsegments := splitOn_encode h
  rw [hsplit, List.append_assoc, List.cons_append] at hsegments
  intro hdecode
  by_cases hne : front = []
  · rw [hne, List.nil_append] at hsplit hsegments
    have hlegacy : decode prior namer.encode namer.hash.length namer.signature.length =
        legacyDecode { prior with experiment := [], options := [] } namer.encode := by
      rw [decode, split_segments hlt, hsegments]
      rfl
    rw [hlegacy] at hdecode
    obtain ⟨id, hash, ext, hpieces, hlen⟩ := pieces_of_legacyDecode hdecode
    have hname := split_free kSeparatorChar true (show namer.encode.length < 2 ^ 32 by omega) namer.name
      (by rw [hpieces]; simp)
    rw [List.splitOn_eq_singleton hname] at hsplit
    obtain ⟨-, rfl⟩ := List.cons.inj hsplit
    rw [split_eq_splitOn _ _ hlt, hsegments] at hpieces
    have hhash : hash = kSystemId := by
      simp only [Bool.not_true, Bool.false_or, List.nil_append] at hpieces
      rw [List.filter_cons_of_pos (by decide), List.filter_cons_of_pos (by decide)] at hpieces
      exact (List.cons.inj (List.cons.inj hpieces).2).1.symm
    rw [hhash] at hlen
    exact absurd hlen (by decide)
  · have hassoc : namer.encode.splitOn kSeparatorChar = front ++ kSystemId :: ((back ++ kSystemId :: namer.middleSegments) ++
        [namer.id, namer.hash ++ namer.signature, namer.ext]) := by
      rw [hsegments]
      simp
    rw [decode_of_first hlt hassoc hfirst hne] at hdecode
    have hname := (decodeMiddle_name _ _).symm.trans (congrArg (fun r => r.2.name) hdecode)
    dsimp only at hname
    have hlonger := congrArg List.length (join_splitOn namer.name kSeparatorChar)
    rw [hsplit, join_append hne (List.cons_ne_nil _ _), hname, List.length_append, List.length_append,
      List.length_singleton] at hlonger
    omega

def RoundTrips (namer prior : ResourceNamer) (encoder : SegmentEncoder) (urls : List GoogleString)
    (data : ResourceContext) : Prop :=
  decode prior namer.encode namer.hash.length namer.signature.length = (true, namer) ∧
    encoder.GivesBack namer.name urls data

theorem roundTrips_iff {namer : ResourceNamer} (h : namer.Encodable) {encoder : SegmentEncoder}
    {urls : List GoogleString} {data : ResourceContext} (htakes : encoder.Takes urls data)
    (hname : namer.name = encoder.encode urls data) (hlt : namer.encode.length < 2 ^ 31) (prior : ResourceNamer) :
    namer.RoundTrips prior encoder urls data ↔
      kSystemId ∉ splitStringPieceToVector namer.name [kSeparatorChar] false ∧
        (namer.signature = [] → prior.signature = []) ∧ encoder.Distinct urls data := by
  have hle : namer.name.length ≤ namer.encode.length := length_le_join (by simp) _
  rw [RoundTrips, split_segments (by omega), hname, SegmentEncoder.givesBack_encode_iff htakes, ← hname, ← and_assoc]
  apply and_congr_left'
  constructor
  · intro hdecode
    have hfirst : kSystemId ∉ namer.name.splitOn kSeparatorChar := fun hanchor =>
      decode_ne_of_anchor h hlt hanchor prior hdecode
    constructor
    · exact hfirst
    · intro hunsigned
      rw [decode_encode h hlt hfirst, if_pos hunsigned] at hdecode
      have hsignature := congrArg (fun r => r.2.signature) hdecode
      exact hsignature.trans hunsigned
  · rintro ⟨hfirst, hprior⟩
    rw [decode_encode h hlt hfirst]
    by_cases hunsigned : namer.signature = []
    · rw [if_pos hunsigned, hprior hunsigned, ← hunsigned]
    · rw [if_neg hunsigned]

def sample (leaf : String) (signature : String) : ResourceNamer where
  id := ascii "cf"
  name := CssUrlEncoder.encode [ascii leaf]
  hash := ascii "0"
  ext := ascii "css"
  signature := ascii signature

theorem sample_encodable : (sample "a.css" "").Encodable where
  id := by decide
  hash := by decide
  signature := by decide
  ext := by decide
  middle := Or.inl ⟨rfl, rfl⟩

theorem sample_roundTrips_iff :
    (sample "a.css" "").RoundTrips {} .css [ascii "a.css"] {} ↔
      kSystemId ∉ splitStringPieceToVector (sample "a.css" "").name [kSeparatorChar] false ∧
        ((sample "a.css" "").signature = [] → (sample "a.css" "").signature = []) ∧
          SegmentEncoder.css.Distinct [ascii "a.css"] {} :=
  roundTrips_iff sample_encodable (show SegmentEncoder.css.Takes [ascii "a.css"] {} from rfl) rfl (by decide) {}

def sampleImage (width : Int32) : ResourceNamer :=
  { sample "a.css" "" with
    name := ImageUrlEncoder.encode [ascii "a.png"] { desiredImageDims := some { width := some width } } }

/-- A stylesheet whose name is the system's own, a namer that held a signature, and a wide image. -/
theorem sample_lost :
    (sample "pagespeed.css" "").Encodable ∧
      ¬(sample "pagespeed.css" "").RoundTrips {} .css [ascii "pagespeed.css"] {} ∧
      ¬(sample "a.css" "").RoundTrips (sample "b.css" "s") .css [ascii "a.css"] {} ∧
      ¬(sampleImage 2000000).RoundTrips {} .image [ascii "a.png"]
        { desiredImageDims := some { width := some 2000000 } } := by
  refine ⟨⟨by decide, by decide, by decide, by decide, Or.inl ⟨rfl, rfl⟩⟩, ?_, ?_, ?_⟩
  · rintro ⟨hdecode, -⟩
    exact absurd hdecode (by decide)
  · rintro ⟨hdecode, -⟩
    exact absurd hdecode (by decide)
  · rintro ⟨-, data, hread, hdata⟩
    have hwide : SegmentEncoder.image.decode (sampleImage 2000000).name {} =
        some ([ascii "a.png"], { desiredImageDims := some { width := some 1114112 } }) := by decide
    rw [show SegmentEncoder.image.requestContext { desiredImageDims := some { width := some 2000000 } } = {} from rfl,
      hwide] at hread
    injection hread with heq
    injection heq with _ heq
    rw [← heq] at hdata
    exact absurd hdata (by decide)

end ResourceNamer

end PageSpeed
