import PageSpeed.Util.UrlEscaper

/-!
`kernel/util/url_to_filename_encoder.cc`: a URL as the name of a file, in directories whose names are no
longer than 128 bytes. The character `,` begins an escape and ends the name.
-/

namespace PageSpeed.UrlToFilenameEncoder

def kEscapeChar : UInt8 := 44

def kTruncationChar : UInt8 := 45

def kMaximumSubdirectoryLength : ℕ := 128

def chopSize (size : ℕ) (segment : GoogleString) : ℕ :=
  if segment.getD (size - 1) 0 = kEscapeChar then size - 1
  else if segment.getD (size - 2) 0 = kEscapeChar then size - 2
  else size

/-- What `AppendSegment` writes, and what it leaves of the segment. -/
def appendSegment (segment : GoogleString) : GoogleString × GoogleString :=
  if segment = ascii "." ∨ segment = ascii ".." then (kEscapeChar :: segment, [])
  else if kMaximumSubdirectoryLength < segment.length then
    let size := chopSize (kMaximumSubdirectoryLength - 2) segment
    (segment.take size ++ [kEscapeChar, kTruncationChar], segment.drop size)
  else (segment, [])

def isSafe (ch : UInt8) : Bool := isAlnum ch || (ascii "_.=+-").contains ch

def escape (ch : UInt8) : GoogleString :=
  if isSafe ch then [ch]
  else [kEscapeChar, UrlEscaper.hexDigit (ch.toNat / 16), UrlEscaper.hexDigit (ch.toNat % 16)]

def encodeFrom (dirSeparator : UInt8) : GoogleString → GoogleString → GoogleString × GoogleString
  | [], segment => ([], segment)
  | ch :: ending, segment =>
    if ch = dirSeparator ∧ segment ≠ [] then
      let (out, last) := encodeFrom dirSeparator ending []
      ((appendSegment segment).1 ++ dirSeparator :: out, last)
    else
      let segment := segment ++ escape ch
      if kMaximumSubdirectoryLength < segment.length then
        let (out, last) := encodeFrom dirSeparator ending (appendSegment segment).2
        ((appendSegment segment).1 ++ dirSeparator :: out, last)
      else encodeFrom dirSeparator ending segment

def isHexDigit (c : UInt8) : Bool := (48 ≤ c ∧ c ≤ 57) ∨ (65 ≤ c ∧ c ≤ 70) ∨ (97 ≤ c ∧ c ≤ 102)

inductive State where
  | kStart
  | kEscape
  | kFirstDigit (digit : UInt8)
  | kTruncate
  | kEscapeDot
deriving DecidableEq

def step : State → UInt8 → Option (State × GoogleString)
  | .kStart, ch =>
    if ch = kEscapeChar then some (.kEscape, [])
    else if ch = 47 then some (.kStart, [47])
    else some (.kStart, [ch])
  | .kEscape, ch =>
    if isHexDigit ch then some (.kFirstDigit ch, [])
    else if ch = kTruncationChar then some (.kTruncate, [])
    else if ch = 46 then some (.kEscapeDot, [46])
    else if ch = 47 then some (.kStart, [47])
    else none
  | .kFirstDigit digit, ch =>
    if isHexDigit ch then
      some (.kStart, [UInt8.ofNat (((accumulateHexValue digit 0).bind (accumulateHexValue ch)).getD 0)])
    else none
  | .kTruncate, ch => if ch = 47 then some (.kStart, []) else none
  | .kEscapeDot, ch => some (.kStart, [ch])

def decodeFrom (state : State) : GoogleString → GoogleString × Bool
  | [] => ([], state = .kEscape)
  | ch :: rest =>
    match step state ch with
    | none => ([], false)
    | some (state, out) => (out ++ (decodeFrom state rest).1, (decodeFrom state rest).2)

def decode (encodedFilename : GoogleString) : GoogleString × Bool := decodeFrom .kStart encodedFilename

/-- The decoder goes over the text from one state to the other, and appends `out`. -/
def Reads (state : State) (text : GoogleString) (state' : State) (out : GoogleString) : Prop :=
  ∀ rest, decodeFrom state (text ++ rest) = (out ++ (decodeFrom state' rest).1, (decodeFrom state' rest).2)

variable {st st₁ st₂ : State} {text out out' segment v w : GoogleString} {c : UInt8}

namespace Reads

theorem nil (st : State) : Reads st [] st [] := fun _ => rfl

theorem single (h : step st c = some (st₁, out)) : Reads st [c] st₁ out := by
  intro rest
  rw [List.singleton_append, decodeFrom, h]

theorem append {text' : GoogleString} (h : Reads st text st₁ out) (h' : Reads st₁ text' st₂ out') :
    Reads st (text ++ text') st₂ (out ++ out') := by
  intro rest
  rw [List.append_assoc, h, h', List.append_assoc]

theorem cons (h : step st c = some (st₁, out)) (h' : Reads st₁ text st₂ out') : Reads st (c :: text) st₂ (out ++ out') :=
  (single h).append h'

end Reads

theorem escape_cases (c : UInt8) :
    (escape c = [c] ∧ c ≠ 44 ∧ c ≠ 47) ∨
      ∃ a b, escape c = [44, a, b] ∧ isHexDigit a = true ∧ isHexDigit b = true ∧
        UInt8.ofNat (((accumulateHexValue a 0).bind (accumulateHexValue b)).getD 0) = c := by
  have hsafe : ∀ n : Fin 256, isSafe (UInt8.ofNat n) = true → UInt8.ofNat n ≠ 44 ∧ UInt8.ofNat n ≠ 47 := by decide +kernel
  have hdigits : ∀ n : Fin 256,
      isHexDigit (UrlEscaper.hexDigit (n.val / 16)) = true ∧ isHexDigit (UrlEscaper.hexDigit (n.val % 16)) = true ∧
        ((accumulateHexValue (UrlEscaper.hexDigit (n.val / 16)) 0).bind
          (accumulateHexValue (UrlEscaper.hexDigit (n.val % 16)))).getD 0 = n.val := by decide +kernel
  by_cases hc : isSafe c = true
  · have hne := hsafe ⟨c.toNat, c.toNat_lt⟩
    rw [UInt8.ofNat_toNat] at hne
    exact .inl ⟨if_pos hc, hne hc⟩
  · obtain ⟨ha, hb, hval⟩ := hdigits ⟨c.toNat, c.toNat_lt⟩
    refine .inr ⟨_, _, if_neg hc, ha, hb, ?_⟩
    rw [hval, UInt8.ofNat_toNat]

theorem hexDigit_ne {a : UInt8} (h : isHexDigit a = true) : a ≠ 44 ∧ a ≠ 47 := by
  constructor <;> (rintro rfl; exact absurd h (by decide))

theorem reads_escape (c : UInt8) : Reads .kStart (escape c) .kStart [c] := by
  rcases escape_cases c with ⟨hc, h44, h47⟩ | ⟨a, b, hc, ha, hb, hval⟩
  · rw [hc]
    exact Reads.single (by simp [step, kEscapeChar, h44, h47])
  · have hcomma : step .kStart 44 = some (.kEscape, []) := rfl
    have hfirst : step .kEscape a = some (.kFirstDigit a, []) := by rw [step, if_pos ha]
    have hsecond : step (.kFirstDigit a) b = some (.kStart, [c]) := by rw [step, if_pos hb, hval]
    rw [hc]
    exact Reads.cons hcomma (Reads.cons hfirst (Reads.single hsecond))

def escaped (v : GoogleString) : GoogleString := v.flatMap escape

theorem escaped_cons (c : UInt8) (v : GoogleString) : escaped (c :: v) = escape c ++ escaped v := rfl

theorem escape_ne_nil (c : UInt8) : escape c ≠ [] := by
  unfold escape
  split_ifs <;> simp

theorem escaped_eq_nil (h : escaped v = []) : v = [] := by
  cases v with
  | nil => rfl
  | cons c v => exact absurd (List.append_eq_nil_iff.mp h).1 (escape_ne_nil c)

theorem reads_escaped (v : GoogleString) : Reads .kStart (escaped v) .kStart v := by
  induction v with
  | nil => exact Reads.nil _
  | cons c v ih => exact (reads_escape c).append ih

theorem slash_not_mem_escaped (v : GoogleString) : 47 ∉ escaped v := by
  intro h
  obtain ⟨c, -, hc⟩ := List.mem_flatMap.mp h
  rcases escape_cases c with ⟨heq, -, h47⟩ | ⟨a, b, heq, ha, hb, -⟩
  · rw [heq, List.mem_singleton] at hc
    exact h47 hc.symm
  · rw [heq] at hc
    have hne := (hexDigit_ne ha).2
    have hne' := (hexDigit_ne hb).2
    simp [Ne.symm hne, Ne.symm hne'] at hc

theorem getLast_escaped (v : GoogleString) : (escaped v).getLast? ≠ some 44 := by
  induction v with
  | nil => simp [escaped]
  | cons c v ih =>
    rw [escaped_cons, List.getLast?_append]
    cases hlast : (escaped v).getLast? with
    | some b => rwa [hlast] at ih
    | none =>
      rcases escape_cases c with ⟨heq, h44, -⟩ | ⟨a, b, heq, -, hb, -⟩
      · rw [heq]
        simpa using h44
      · rw [heq]
        simpa using (hexDigit_ne hb).1

end PageSpeed.UrlToFilenameEncoder
