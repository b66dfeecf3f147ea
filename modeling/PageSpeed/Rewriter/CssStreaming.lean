import PageSpeed.Rewriter.CssTurns
import PageSpeed.Lib.Incremental

/-!
`TransformUrlsStreaming` as a lexer whose tokens are the turns of its loop. A style sheet in
chunks is transformed as it is in one piece where no payload has white space too far from the end.
-/

namespace PageSpeed.CssTagScanner

open InputPortion LexResult Incremental

structure Token where
  bytes : GoogleString
  use : Option UrlUse

def portion (atEnd : Bool) : InputPortion := if atEnd then inputIncludesEnd else inputDoesNotIncludeEnd

def nextToken (atEnd : Bool) : GoogleString → Option (Token × GoogleString)
  | [] => none
  | c :: remaining =>
    match turn (portion atEnd) c remaining with
    | .interrupted => none
    | .passed use rest => some (⟨writeRange (c :: remaining) rest, use⟩, rest)

theorem nextToken_of_passed (atEnd : Bool) {c : UInt8} {remaining rest : GoogleString} {use : Option UrlUse}
    (h : turn (portion atEnd) c remaining = .passed use rest) :
    nextToken atEnd (c :: remaining) = some (⟨writeRange (c :: remaining) rest, use⟩, rest) := by
  rw [nextToken, h]

theorem nextToken_of_interrupted {atEnd : Bool} {c : UInt8} {remaining : GoogleString}
    (h : turn (portion atEnd) c remaining = .interrupted) : nextToken atEnd (c :: remaining) = none := by
  rw [nextToken, h]

theorem passed_of_nextToken {atEnd : Bool} {s rest : GoogleString} {token : Token}
    (h : nextToken atEnd s = some (token, rest)) :
    ∃ c remaining, s = c :: remaining ∧ turn (portion atEnd) c remaining = .passed token.use rest ∧
      rest <:+ remaining ∧ token.bytes = writeRange s rest := by
  cases s with
  | nil => contradiction
  | cons c remaining =>
    have hsound := turn_sound (portion atEnd) c remaining
    rw [nextToken] at h
    cases hturn : turn (portion atEnd) c remaining with
    | interrupted =>
      rw [hturn] at h
      contradiction
    | passed use rest' =>
      rw [hturn] at h hsound
      cases h
      exact ⟨c, remaining, rfl, hturn, hsound, rfl⟩

def lexer : Lexer UInt8 Token where
  next := nextToken
  shrinks := by
    intro atEnd s token rest h
    obtain ⟨c, remaining, rfl, -, hsuffix, -⟩ := passed_of_nextToken h
    exact Nat.lt_succ_of_le hsuffix.length_le

theorem writeRange_append (s rest : GoogleString) : writeRange (s ++ rest) rest = s := by
  rw [writeRange, List.length_append, Nat.add_sub_cancel, List.take_left']
  · split_ifs with h
    · rfl
    · exact (List.length_eq_zero_iff.mp (by omega)).symm
  · rfl

theorem bytes_append {atEnd : Bool} {s rest : GoogleString} {token : Token}
    (h : nextToken atEnd s = some (token, rest)) : token.bytes ++ rest = s := by
  obtain ⟨c, remaining, rfl, -, hsuffix, hbytes⟩ := passed_of_nextToken h
  obtain ⟨consumed, hconsumed⟩ := hsuffix.trans (List.suffix_cons c remaining)
  rw [hbytes, ← hconsumed, writeRange_append]

def readsFar : GoogleString → Bool
  | [] => false
  | c :: remaining => decide (c = 117 ∨ c = 85) && (unquotedPayload remaining).any farSpace

theorem lexer_stable {s : GoogleString} (h : readsFar s = false) : Stable lexer s := by
  rintro a b token rest rfl hnext
  obtain ⟨c, a, rfl, hturn, hsuffix, hbytes⟩ := passed_of_nextToken hnext
  have hnear : c = 117 ∨ c = 85 → ∀ payload ∈ unquotedPayload (a ++ b), farSpace payload = false := by
    intro hc payload hpayload
    rw [List.cons_append, readsFar, decide_eq_true hc, Bool.true_and, Option.mem_def.mp hpayload] at h
    exact h
  obtain ⟨consumed, hconsumed⟩ := hsuffix.trans (List.suffix_cons c a)
  have hbytes' : writeRange ((c :: a) ++ b) (rest ++ b) = token.bytes := by
    rw [hbytes, ← hconsumed, writeRange_append, List.append_assoc, writeRange_append]
  obtain ⟨bytes, use⟩ := token
  have hwhole := nextToken_of_passed true (turn_append b hnear hturn)
  rw [← List.cons_append, hbytes'] at hwhole
  exact hwhole

theorem scan_end (s : GoogleString) : (scan lexer true s).2 = [] := by
  induction hlen : s.length using Nat.strongRecOn generalizing s with
  | _ n ih =>
    cases hnext : lexer.next true s with
    | some p =>
      rw [scan_some hnext]
      exact ih p.2.length (hlen ▸ lexer.shrinks hnext) p.2 rfl
    | none =>
      rw [scan_none hnext]
      cases s with
      | nil => rfl
      | cons c remaining =>
        have hsound := turn_sound inputIncludesEnd c remaining
        cases hturn : turn inputIncludesEnd c remaining with
        | interrupted =>
          rw [hturn] at hsound
          exact absurd rfl hsound
        | passed use rest =>
          have hsome := nextToken_of_passed true hturn
          rw [show nextToken true (c :: remaining) = none from hnext] at hsome
          contradiction

section Runs

variable (transform : GoogleString → TransformStatus)

def written (token : Token) : GoogleString :=
  match token.use with
  | none => token.bytes
  | some use =>
    match transform use.url with
    | .success url => serializeUrlUse { use with url := url }
    | _ => token.bytes

def requested (token : Token) : List GoogleString := token.use.toList.map UrlUse.url

def passOf (before : GoogleString) (urls : List GoogleString) (turns : List Token × GoogleString) : Pass :=
  ⟨true, before ++ turns.1.flatMap (written transform), urls ++ turns.1.flatMap requested, turns.2⟩

variable {transform}

theorem transformLoop_eq (hnever : ∀ url, transform url ≠ .failure) (atEnd : Bool) (turns : ℕ)
    (pending remaining before : GoogleString) (urls : List GoogleString) (hturns : remaining.length ≤ turns) :
    transformLoop transform (portion atEnd) turns (pending ++ remaining) remaining remaining remaining before urls =
      passOf transform (before ++ pending) urls (scan lexer atEnd remaining) := by
  induction turns generalizing pending remaining before urls with
  | zero =>
    obtain rfl := List.length_eq_zero_iff.mp (Nat.le_zero.mp hturns)
    rw [scan_none rfl, transformLoop, writeRange_append, passOf]
    simp
  | succ turns ih =>
    cases remaining with
    | nil =>
      rw [scan_none rfl, transformLoop, writeRange_append, passOf]
      simp
    | cons c remaining =>
      rw [transformLoop]
      cases hturn : turn (portion atEnd) c remaining with
      | interrupted =>
        rw [scan_none (nextToken_of_interrupted hturn), writeRange_append, passOf]
        simp
      | passed use rest =>
        have hnext : lexer.next atEnd (c :: remaining) = some (⟨writeRange (c :: remaining) rest, use⟩, rest) :=
          nextToken_of_passed _ hturn
        have hbytes := bytes_append (nextToken_of_passed _ hturn)
        have hshort : rest.length ≤ turns := Nat.le_of_lt_succ ((lexer.shrinks hnext).trans_le hturns)
        rw [scan_some hnext]
        simp only at hbytes
        generalize writeRange (c :: remaining) rest = bytes at hbytes ⊢
        rw [← hbytes, ← List.append_assoc, passOf, List.flatMap_cons, List.flatMap_cons]
        cases use with
        | none =>
          simp only
          rw [ih _ _ _ _ hshort, passOf]
          simp [written, requested]
        | some use =>
          cases htransform : transform use.url with
          | failure => exact absurd htransform (hnever use.url)
          | noChange =>
            simp only [htransform]
            rw [ih _ _ _ _ hshort, passOf]
            simp [written, requested, htransform]
          | success url =>
            simp only [htransform]
            rw [List.append_assoc pending, hbytes, writeRange_append]
            have hrun := ih [] rest (before ++ pending ++ serializeUrlUse { use with url := url })
              (urls ++ [use.url]) hshort
            rw [List.nil_append] at hrun
            rw [hrun, passOf]
            simp [written, requested, htransform]

theorem transformUrlsStreaming_eq (hnever : ∀ url, transform url ≠ .failure) (atEnd : Bool)
    (reparse contents : GoogleString) :
    transformUrlsStreaming transform reparse contents (portion atEnd) =
      passOf transform [] [] (scan lexer atEnd (reparse ++ contents)) :=
  transformLoop_eq hnever atEnd _ [] _ [] [] (Nat.le_refl _)

theorem transformUrls_eq (hnever : ∀ url, transform url ≠ .failure) (contents : GoogleString) :
    transformUrls transform contents = passOf transform [] [] (scan lexer true contents) :=
  transformUrlsStreaming_eq hnever true [] contents

theorem andThen_eq (hnever : ∀ url, transform url ≠ .failure) (atEnd : Bool) (before : GoogleString)
    (urls : List GoogleString) (turns : List Token × GoogleString) (contents : GoogleString) :
    (passOf transform before urls turns).andThen transform contents (portion atEnd) =
      passOf transform before urls (turns.1 ++ (scan lexer atEnd (turns.2 ++ contents)).1,
        (scan lexer atEnd (turns.2 ++ contents)).2) := by
  rw [Pass.andThen, passOf, transformUrlsStreaming_eq hnever, passOf, passOf]
  simp [List.flatMap_append]

theorem foldl_andThen_eq (hnever : ∀ url, transform url ≠ .failure) (chunks : List GoogleString)
    (before : GoogleString) (urls : List GoogleString) (turns : List Token × GoogleString) :
    chunks.foldl (fun pass chunk => pass.andThen transform chunk inputDoesNotIncludeEnd)
        (passOf transform before urls turns) =
      passOf transform before urls (turns.1 ++ (feed lexer turns.2 chunks).1, (feed lexer turns.2 chunks).2) := by
  induction chunks generalizing turns with
  | nil => simp [feed]
  | cons chunk chunks ih =>
    have hcall := andThen_eq hnever false before urls turns chunk
    rw [List.foldl_cons]
    rw [show inputDoesNotIncludeEnd = portion false from rfl] at ih ⊢
    rw [hcall, ih, feed, List.append_assoc]

theorem streamed_eq (hnever : ∀ url, transform url ≠ .failure) (chunks : List GoogleString) (last : GoogleString) :
    streamed transform chunks last =
      passOf transform [] [] ((feed lexer [] chunks).1 ++ (scan lexer true ((feed lexer [] chunks).2 ++ last)).1,
        (scan lexer true ((feed lexer [] chunks).2 ++ last)).2) := by
  have hstart : (⟨true, [], [], []⟩ : Pass) = passOf transform [] [] ([], []) := rfl
  simp only [streamed, hstart]
  rw [foldl_andThen_eq hnever, show inputIncludesEnd = portion true from rfl, andThen_eq hnever]
  rfl

theorem scan_bytes (atEnd : Bool) (s : GoogleString) :
    (scan lexer atEnd s).1.flatMap Token.bytes ++ (scan lexer atEnd s).2 = s := by
  induction hlen : s.length using Nat.strongRecOn generalizing s with
  | _ n ih =>
    cases hnext : lexer.next atEnd s with
    | none =>
      rw [scan_none hnext]
      rfl
    | some p =>
      rw [scan_some hnext, List.flatMap_cons, List.append_assoc,
        ih p.2.length (hlen ▸ lexer.shrinks hnext) p.2 rfl]
      exact bytes_append hnext

theorem feed_bytes (kept : GoogleString) (chunks : List GoogleString) :
    (feed lexer kept chunks).1.flatMap Token.bytes ++ (feed lexer kept chunks).2 = kept ++ chunks.flatten := by
  induction chunks generalizing kept with
  | nil => simp [feed]
  | cons chunk chunks ih =>
    rw [feed, List.flatMap_append, List.append_assoc, ih, ← List.append_assoc, scan_bytes, List.flatten_cons,
      List.append_assoc]

theorem written_of_noChange (hnone : ∀ url, transform url = .noChange) (chunks : List GoogleString)
    (last : GoogleString) :
    (streamed transform chunks last).written = chunks.flatten ++ last ∧
      (transformUrls transform (chunks.flatten ++ last)).written = chunks.flatten ++ last := by
  have hwritten : written transform = Token.bytes := by
    funext token
    obtain ⟨bytes, use⟩ := token
    cases use with
    | none => rfl
    | some use => simp [written, hnone]
  have hbytes : ∀ s, (scan lexer true s).1.flatMap Token.bytes = s := by
    intro s
    have hs := scan_bytes true s
    rwa [scan_end, List.append_nil] at hs
  constructor
  · rw [streamed_eq (by simp [hnone]), passOf, hwritten, List.nil_append, List.flatMap_append, hbytes,
      ← List.append_assoc, feed_bytes, List.nil_append]
  · rw [transformUrls_eq (by simp [hnone]), passOf, hwritten, List.nil_append, hbytes]

theorem streamed_eq_batch (hnever : ∀ url, transform url ≠ .failure) {chunks : List GoogleString}
    {last : GoogleString} (hnear : ∀ t, Reached lexer (chunks.flatten ++ last) t → readsFar t = false) :
    streamed transform chunks last = transformUrls transform (chunks.flatten ++ last) := by
  rw [streamed_eq hnever, transformUrls_eq hnever,
    ← scan_pieces (fun t ht => lexer_stable (hnear t ht)) chunks [] last Reached.here]
  rfl

end Runs

section ShortTexts

theorem farSpace_of_short {s : GoogleString} (h : s.length ≤ 2 ^ 31) : farSpace s = false := by
  fun_induction farSpace s with
  | case1 => rfl
  | case2 => rfl
  | case3 inp hterm escapeVal ih =>
    rw [ih (by simp at h; omega), Bool.and_false]
  | case4 => rfl
  | case5 c inp hterm hescape hspace ahead tail =>
    simp only [List.length_cons] at h
    rw [decide_eq_false (show ¬2 ^ 31 ≤ inp.length by omega), Bool.and_false]
  | case6 => rfl
  | case7 c inp hterm hescape hspace ih => exact ih (by simp at h; omega)

theorem unquotedPayload_suffix {remaining payload : GoogleString} (h : payload ∈ unquotedPayload remaining) :
    payload <:+ remaining := by
  have hlit := eatLiteralNoCase_suffix inputIncludesEnd (ascii "rl(") remaining
  rw [unquotedPayload] at h
  generalize eatLiteralNoCase inputIncludesEnd (ascii "rl(") remaining = l at h hlit
  obtain ⟨result, inp⟩ := l
  cases result with
  | interrupted => contradiction
  | no => contradiction
  | yes =>
    simp only at h
    split_ifs at h with hno
    · obtain rfl := Option.some_inj.mp h
      exact (extractString_suffix _ _ (by simp [hno])).trans ((List.dropWhile_suffix _).trans hlit)
    · contradiction

theorem readsFar_of_short {s : GoogleString} (h : s.length ≤ 2 ^ 31) : readsFar s = false := by
  cases s with
  | nil => rfl
  | cons c remaining =>
    rw [readsFar, Bool.and_eq_false_iff]
    refine .inr ?_
    cases hpayload : unquotedPayload remaining with
    | none => rfl
    | some payload =>
      have hsuffix := (unquotedPayload_suffix hpayload).length_le
      exact farSpace_of_short (by simp at h; omega)

theorem reached_suffix {s t : GoogleString} (h : Reached lexer s t) : t <:+ s := by
  induction h with
  | here => exact List.suffix_refl s
  | next _ hnext ih => exact (List.suffix_append _ _).trans ((bytes_append hnext).symm ▸ ih)

end ShortTexts

/-- Where no unquoted payload has white space too far from the end of the style sheet, the chunks it
comes in do not matter; they never do when all URLs are left alone. -/
theorem streamed_eq_transformUrls {transform : GoogleString → TransformStatus}
    (hnever : ∀ url, transform url ≠ .failure) (chunks : List GoogleString) (last : GoogleString) :
    ((∀ t, Reached lexer (chunks.flatten ++ last) t → readsFar t = false) →
        (streamed transform chunks last).written = (transformUrls transform (chunks.flatten ++ last)).written ∧
        (streamed transform chunks last).urls = (transformUrls transform (chunks.flatten ++ last)).urls) ∧
      ((∀ url, transform url = .noChange) →
        (streamed transform chunks last).written = chunks.flatten ++ last ∧
        (transformUrls transform (chunks.flatten ++ last)).written = chunks.flatten ++ last) := by
  refine ⟨fun hnear => ?_, fun hnone => written_of_noChange hnone chunks last⟩
  rw [streamed_eq_batch hnever hnear]
  exact ⟨rfl, rfl⟩

theorem streamed_eq_transformUrls_import :
    (streamed (fun url => .success (url ++ ascii "?")) [ascii "@import 'a", ascii ".css"] (ascii "'; b")).urls =
      (transformUrls (fun url => .success (url ++ ascii "?")) (ascii "@import 'a.css'; b")).urls :=
  ((streamed_eq_transformUrls (fun _ h => by cases h) [ascii "@import 'a", ascii ".css"] (ascii "'; b")).1
    fun _ ht => readsFar_of_short ((reached_suffix ht).length_le.trans (by decide))).2

section Cut

theorem nextToken_cut : lexer.next false (ascii "url(a b") =
    some (⟨ascii "url(a", some ⟨.url, ascii "a", false, false, false, 63⟩⟩, ascii " b") := by
  rfl

theorem extractLoop_passes (int : ℕ → ℤ) (original tail : GoogleString) (h : int (tail.length + 2) ≤ 0)
    (turns : ℕ) :
    extractLoop int false inputIncludesEnd 41 original (turns + 4) (ascii "a b)" ++ tail) [] =
      ⟨yes, tail, ascii "ab", true⟩ := by
  obtain ⟨k, hk⟩ := @lookAhead_within [] _ 41 (98 :: 41 :: tail) (by simp) h
  rw [List.drop_nil, List.nil_append] at hk
  rw [show ascii "a b)" ++ tail = 97 :: 32 :: 98 :: 41 :: tail from rfl]
  rw [extractLoop_cons, if_neg (by decide), if_neg (by decide), if_neg (by decide), if_neg (by decide),
    extractLoop_space _ _ _ _ _ (by decide), show (98 :: 41 :: tail).length = tail.length + 2 from rfl, hk]
  rfl

theorem turnUrl_of_unquoted {inputPortion : InputPortion} {remaining inp rest rest' out url : GoogleString}
    {quote : UInt8} {quoteTerm parenTerm : Bool}
    (hlit : eatLiteralNoCase inputPortion (ascii "rl(") remaining = (yes, inp))
    (hstring : cssExtractString inputPortion (trimLeadingWhitespace inp) = (quote, ⟨no, rest, out, quoteTerm⟩))
    (hwrapped : cssExtractUntil false inputPortion 41 rest = ⟨yes, rest', url, parenTerm⟩) :
    turnUrl inputPortion remaining =
      .passed (some ⟨.url, trimWhitespace url, false, quoteTerm, parenTerm, quote⟩) rest' := by
  rw [turnUrl, hlit]
  simp only [hstring, hwrapped]

theorem nextToken_long {tail : GoogleString} (h : tail.length = 2 ^ 31) :
    ∃ bytes rest, lexer.next true (ascii "url(a b)" ++ tail) =
      some (⟨bytes, some ⟨.url, ascii "ab", false, false, true, 63⟩⟩, rest) := by
  have hturn : turn inputIncludesEnd 117 (ascii "rl(a b)" ++ tail) =
      .passed (some ⟨.url, ascii "ab", false, false, true, 63⟩) tail := by
    have htrim : trimLeadingWhitespace (ascii "a b)" ++ tail) = ascii "a b)" ++ tail :=
      List.dropWhile_cons_of_neg (by decide)
    have hstring : cssExtractString inputIncludesEnd (ascii "a b)" ++ tail) =
        (63, ⟨no, ascii "a b)" ++ tail, [], false⟩) := by
      rw [show ascii "a b)" ++ tail = 97 :: (ascii " b)" ++ tail) from rfl, cssExtractString, if_neg (by decide),
        if_neg (by decide)]
    have hint : (fun size : ℕ => toInt32 size) (tail.length + 2) ≤ 0 := by
      simp only [toInt32, h, Int.bmod_def]
      omega
    have hwrapped : cssExtractUntil false inputIncludesEnd 41 (ascii "a b)" ++ tail) =
        ⟨yes, tail, ascii "ab", true⟩ := by
      have hlength : (ascii "a b)" ++ tail).length = tail.length + 4 := by simp [ascii]
      rw [cssExtractUntil, hlength, extractLoop_passes (fun size : ℕ => toInt32 size) _ tail hint]
    have hlit : eatLiteralNoCase inputIncludesEnd (ascii "rl(") (ascii "rl(" ++ (ascii "a b)" ++ tail)) =
        (yes, ascii "a b)" ++ tail) :=
      eatLiteralNoCase_append inputIncludesEnd _ _ (ascii "a b)" ++ tail) (by decide)
    rw [turn, if_neg (by decide), if_pos (.inl rfl)]
    exact turnUrl_of_unquoted hlit (htrim.symm ▸ hstring) hwrapped
  rw [show ascii "url(a b)" ++ tail = 117 :: (ascii "rl(a b)" ++ tail) from rfl, show lexer.next = nextToken from rfl]
  exact ⟨_, _, nextToken_of_passed true hturn⟩

theorem urls_of_cut {tail : GoogleString} (h : tail.length = 2 ^ 31) :
    (streamed (fun _ => .noChange) [ascii "url(a b"] (ascii ")" ++ tail)).urls ≠
      (transformUrls (fun _ => .noChange) (ascii "url(a b)" ++ tail)).urls := by
  obtain ⟨bytes, rest, hnext⟩ := nextToken_long h
  have hfeed : feed lexer [] [ascii "url(a b"] =
      (⟨ascii "url(a", some ⟨.url, ascii "a", false, false, false, 63⟩⟩ :: (scan lexer false (ascii " b")).1,
        (scan lexer false (ascii " b")).2) := by
    rw [feed, feed, List.nil_append, scan_some nextToken_cut, List.append_nil]
  rw [streamed_eq (fun _ h => by cases h), transformUrls_eq (fun _ h => by cases h), scan_some hnext, hfeed]
  intro heq
  have hhead := congrArg List.head? heq
  simp only [passOf, List.cons_append, List.flatMap_cons, requested, Option.toList_some, List.map_cons,
    List.nil_append, List.head?_cons, Option.some_inj] at hhead
  exact absurd hhead (by decide)

/-- The URL ends at the white space if it comes in one chunk, and goes on if all the text is there. -/
theorem url_depends_on_chunks :
    (streamed (fun _ => .noChange) [ascii "url(a b"] (ascii ")" ++ List.replicate (2 ^ 31) 99)).urls ≠
      (transformUrls (fun _ => .noChange) (ascii "url(a b)" ++ List.replicate (2 ^ 31) 99)).urls :=
  urls_of_cut List.length_replicate

end Cut

end PageSpeed.CssTagScanner
