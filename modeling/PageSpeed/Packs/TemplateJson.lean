import PageSpeed.Lib.JsonPlaces
import PageSpeed.Packs.Template

/-!
What the expansion of a JSON template says.
-/

namespace PageSpeed.Packs

open Json (IsChar IsChars IsText HolesAt Spelling plain subst erase utf16)
open Utf8 (encode WellFormed IsAscii)

def symbols (segments : List TemplateSegment) : List (UInt8 ⊕ Placeholder) :=
  segments.flatMap fun
    | .literal text => plain text
    | .placeholder p => [.inr p]

def ltSpelling : Spelling where
  spell b := if b = 60 then ascii "\\u003c" else [b]
  same b := by
    by_cases hb : b = 60
    · rw [if_pos hb, hb]
      refine .inr ⟨by decide, ?_⟩
      exact @IsChar.hex [48, 48, 51, 99] rfl (List.all_eq_true.mp rfl)
    · exact .inl (if_neg hb)

theorem plain_escapeLt {H : Type} (s : GoogleString) : plain (H := H) (escapeLt s) = ltSpelling.text (plain s) := by
  induction s with
  | nil => rfl
  | cons c s ih =>
    rw [escapeLt, List.flatMap_cons, ← escapeLt, Json.plain_append, ih, Json.plain_cons, ltSpelling.text_inl]
    rfl

theorem plain_segments (ctx : ExpandContext) (segments : List TemplateSegment) :
    plain (H := Empty) (segments.flatMap (segmentText ctx .jsonString)) =
      subst (fun p => plain (escapeJsonString (ctx.valueOf p))) (symbols segments) := by
  induction segments with
  | nil => rfl
  | cons segment segments ih =>
    have hsymbols : symbols (segment :: segments) = symbols [segment] ++ symbols segments := by
      rw [symbols, symbols, symbols, ← List.flatMap_append]
      rfl
    rw [List.flatMap_cons, Json.plain_append, ih, hsymbols, Json.subst_append]
    refine congrArg (· ++ _) ?_
    cases segment with
    | literal text =>
      rw [symbols, List.flatMap_singleton, Json.subst_plain]
      rfl
    | placeholder p =>
      rw [symbols, List.flatMap_singleton, Json.subst_inr, Json.subst_nil, List.append_nil]
      rfl

theorem isHexDigit_hexLower {n : ℕ} (h : n < 16) : Json.isHexDigit (hexLower n) = true ∧ Json.hexDigit (hexLower n) = n := by
  have hall : ∀ n < 16, Json.isHexDigit (hexLower n) = true ∧ Json.hexDigit (hexLower n) = n := by decide
  exact hall n h

theorem isChar_control (b : UInt8) :
    IsChar [b.toNat] (ascii "\\u00" ++ [hexLower (b.toNat / 16), hexLower (b.toNat % 16)]) := by
  have hlt := b.toNat_lt
  obtain ⟨hhigh, hhighValue⟩ := isHexDigit_hexLower (by omega : b.toNat / 16 < 16)
  obtain ⟨hlow, hlowValue⟩ := isHexDigit_hexLower (by omega : b.toNat % 16 < 16)
  have hvalue : Json.hexValue [48, 48, hexLower (b.toNat / 16), hexLower (b.toNat % 16)] = b.toNat := by
    have hzero : Json.hexDigit 48 = 0 := rfl
    simp only [Json.hexValue, List.foldl_cons, List.foldl_nil, hzero, hhighValue, hlowValue]
    omega
  have hchar := @IsChar.hex [48, 48, hexLower (b.toNat / 16), hexLower (b.toNat % 16)] rfl
    (List.forall_mem_cons.mpr ⟨by decide, List.forall_mem_cons.mpr ⟨by decide,
      List.forall_mem_cons.mpr ⟨hhigh, List.forall_mem_cons.mpr ⟨hlow, nofun⟩⟩⟩⟩)
  rw [hvalue] at hchar
  exact hchar

theorem escapeJsonByte_of_high {b : UInt8} (h : 0x80 ≤ b) : escapeJsonByte b = [b] := by
  unfold escapeJsonByte
  grind

theorem isChar_escape (c : Char) : IsChar (utf16 c) (escapeJsonString (String.utf8EncodeChar c)) := by
  by_cases hascii : IsAscii c
  · have hlt : c.toNat < 0x80 := hascii
    have hunits : utf16 c = [c.toNat] := if_pos (by omega)
    have hplain := @IsChar.char c
    rw [hunits, Utf8.ascii_encodeChar hascii] at hplain
    rw [Utf8.ascii_encodeChar hascii, hunits, escapeJsonString, List.flatMap_singleton]
    obtain ⟨b, hb, htoNat⟩ : ∃ b : UInt8, c.toNat.toUInt8 = b ∧ c.toNat = b.toNat :=
      ⟨_, rfl, (UInt8.toNat_ofNat_of_lt' (Nat.lt_trans hlt (by decide))).symm⟩
    rw [hb, htoNat] at hplain ⊢
    have hescape {letter unit : UInt8} (hmem : (letter, unit.toNat) ∈ Json.escapes) :
        IsChar [unit.toNat] [92, letter] := .escape hmem
    unfold escapeJsonByte
    split_ifs with hquote hback hnewline hreturn htab hcontrol
    · rw [hquote]
      exact hescape (by decide)
    · rw [hback]
      exact hescape (by decide)
    · rw [hnewline]
      exact hescape (by decide)
    · rw [hreturn]
      exact hescape (by decide)
    · rw [htab]
      exact hescape (by decide)
    · exact isChar_control b
    · rw [not_or, UInt8.not_lt] at hcontrol
      have hne {k : UInt8} (h : b ≠ k) : b.toNat ≠ k.toNat := fun heq => h (UInt8.toNat_inj.mp heq)
      exact hplain (UInt8.le_iff_toNat_le.mp hcontrol.1) (hne hquote) (hne hback)
  · have hsame : escapeJsonString (String.utf8EncodeChar c) = String.utf8EncodeChar c := by
      have hall : ∀ bytes : GoogleString, (∀ b ∈ bytes, 0x80 ≤ b) → escapeJsonString bytes = bytes := by
        intro bytes hbytes
        induction bytes with
        | nil => rfl
        | cons b bytes ih =>
          obtain ⟨hb, hrest⟩ := List.forall_mem_cons.mp hbytes
          rw [escapeJsonString, List.flatMap_cons, ← escapeJsonString, ih hrest, escapeJsonByte_of_high hb]
          rfl
      exact hall _ (Utf8.high_encodeChar hascii).2
    have hhigh : ¬c.toNat < 0x80 := hascii
    rw [hsame]
    exact .char (by omega) (by omega) (by omega)

theorem isChars_escape {H : Type} (text : List Char) :
    IsChars (H := H) (plain (text.flatMap utf16)) (plain (escapeJsonString (encode text))) := by
  induction text with
  | nil => exact .nil
  | cons c text ih =>
    rw [List.flatMap_cons, Utf8.encode_cons, escapeJsonString, List.flatMap_append, ← escapeJsonString,
      ← escapeJsonString, Json.plain_append, Json.plain_append]
    exact .char (isChar_escape c) ih

structure ExpandContext.WellFormed (ctx : ExpandContext) : Prop where
  scheme : Utf8.WellFormed ctx.url.scheme
  host : Utf8.WellFormed ctx.url.host
  path : Utf8.WellFormed ctx.url.path
  query : Utf8.WellFormed ctx.url.query
  captures : ∀ value ∈ ctx.captures, Utf8.WellFormed value
  title : Utf8.WellFormed ctx.title
  description : Utf8.WellFormed ctx.description
  canonical : Utf8.WellFormed ctx.canonical

theorem wellFormed_flatten {pieces : List GoogleString} (h : ∀ piece ∈ pieces, WellFormed piece) :
    WellFormed pieces.flatten := by
  induction pieces with
  | nil => exact ⟨[], rfl⟩
  | cons piece pieces ih =>
    obtain ⟨⟨text, rfl⟩, hrest⟩ := List.forall_mem_cons.mp h
    obtain ⟨others, hothers⟩ := ih hrest
    exact ⟨text ++ others, by rw [List.flatten_cons, hothers, Utf8.encode_append]⟩

theorem ExpandContext.WellFormed.valueOf {ctx : ExpandContext} (h : ctx.WellFormed) (p : Placeholder) :
    Utf8.WellFormed (ctx.valueOf p) := by
  have hmark : Utf8.WellFormed (ascii "?") := ⟨['?'], by decide⟩
  have hseparator : Utf8.WellFormed (ascii "://") := ⟨[':', '/', '/'], by decide⟩
  have hone {value : GoogleString} (hvalue : Utf8.WellFormed value) : Utf8.WellFormed [value].flatten := by
    rwa [List.flatten_singleton]
  have hquery : ∀ piece ∈ (if ctx.url.query ≠ [] then [ascii "?", ctx.url.query] else []), Utf8.WellFormed piece := by
    intro piece hpiece
    split_ifs at hpiece
    · obtain rfl | hpiece := List.mem_cons.mp hpiece
      · exact hmark
      · rw [List.mem_singleton.mp hpiece]
        exact h.query
    · cases hpiece
  cases p with
  | scheme => exact hone h.scheme
  | host => exact hone h.host
  | path => exact hone h.path
  | query => exact wellFormed_flatten hquery
  | url =>
    refine wellFormed_flatten fun piece hpiece => ?_
    obtain hpiece | hpiece := List.mem_append.mp hpiece
    · simp only [List.mem_cons, List.not_mem_nil, or_false] at hpiece
      obtain rfl | rfl | rfl | rfl := hpiece
      · exact h.scheme
      · exact hseparator
      · exact h.host
      · exact h.path
    · exact hquery piece hpiece
  | capture group =>
    cases group with
    | zero => exact ⟨[], rfl⟩
    | succ idx =>
      refine wellFormed_flatten fun piece hpiece => ?_
      exact h.captures piece (List.mem_of_getElem? (Option.mem_toList.mp hpiece))
  | title => exact hone h.title
  | description => exact hone h.description
  | canonical => exact hone h.canonical

def IsJson (tokens : List (Json.Token Empty)) (s : GoogleString) : Prop := IsText tokens (plain s)

def fillTokens (values : Placeholder → List ℕ) (template : List (Json.Token Placeholder)) : List (Json.Token Empty) :=
  template.map (Json.Token.fill fun p => plain (values p))

def IsTextOf (chars : Placeholder → List Char) (ctx : ExpandContext) : Prop := ∀ p, ctx.valueOf p = encode (chars p)

theorem expandTemplate_json {tpl : Template} {ctx : ExpandContext} {maxBytes : ℕ} {out : GoogleString}
    {tokens : List (Json.Token Empty)} (hjson : IsText tokens (erase (symbols tpl.segments)))
    (hholes : HolesAt (· = .inside) .outside (symbols tpl.segments)) (hctx : ctx.WellFormed)
    (hout : expandTemplate tpl ctx .jsonString maxBytes = .ok out) :
    ∃ (template : List (Json.Token Placeholder)) (chars : Placeholder → List Char), IsText template (symbols tpl.segments) ∧
      fillTokens (fun _ => []) template = tokens ∧ IsTextOf chars ctx ∧
      IsJson (fillTokens (fun p => (chars p).flatMap utf16) template) out ∧ 60 ∉ out ∧ out.length ≤ maxBytes := by
  obtain ⟨template, htemplate, hmap⟩ := Json.text_of_erase hjson hholes
  obtain ⟨rfl, hlength⟩ := expandTemplate_eq hout
  choose chars hchars using fun p => hctx.valueOf p
  refine ⟨template, chars, htemplate, hmap, hchars, ?_, not_mem_escapeLt _, hlength⟩
  rw [IsJson, plain_escapeLt, plain_segments]
  have hfill (p : Placeholder) : IsChars (H := Empty) (plain ((chars p).flatMap utf16))
      (plain (escapeJsonString (ctx.valueOf p))) := by
    rw [hchars p]
    exact isChars_escape (chars p)
  obtain ⟨hlexes, hvalue⟩ := htemplate.subst hfill
  exact ⟨ltSpelling.lexes hlexes, hvalue⟩

def titled (title : GoogleString) : ExpandContext where
  url := ⟨[], [], [], []⟩
  captures := []
  title := title
  description := []
  canonical := []

theorem titled_wellFormed {title : GoogleString} (h : Utf8.WellFormed title) : (titled title).WellFormed where
  scheme := ⟨[], rfl⟩
  host := ⟨[], rfl⟩
  path := ⟨[], rfl⟩
  query := ⟨[], rfl⟩
  captures := nofun
  title := h
  description := ⟨[], rfl⟩
  canonical := ⟨[], rfl⟩

def titleList : List TemplateSegment := [.literal (ascii "[\""), .placeholder .title, .literal (ascii "\"]")]

theorem titleList_isText : IsText [.mark 91, .string [], .mark 93] (erase (symbols titleList)) := by
  refine ⟨.mark rfl (.string .nil (.mark rfl .nil)), ?_⟩
  exact .array [[.string]] (List.forall_mem_singleton.mpr .string)

theorem expandTemplate_json_quote :
    ∃ (template : List (Json.Token Placeholder)) (chars : Placeholder → List Char), IsText template (symbols titleList) ∧
      fillTokens (fun _ => []) template = [.mark 91, .string [], .mark 93] ∧ IsTextOf chars (titled (ascii "<\"")) ∧
      IsJson (fillTokens (fun p => (chars p).flatMap utf16) template) (ascii "[\"\\u003c\\\"\"]") ∧
      60 ∉ ascii "[\"\\u003c\\\"\"]" ∧ (ascii "[\"\\u003c\\\"\"]").length ≤ 12 :=
  @expandTemplate_json ⟨[], titleList⟩ _ _ _ _ titleList_isText (by decide) (titled_wellFormed ⟨['<', '"'], by decide⟩)
    (by decide)

/-- Between a backslash and its letter a value is not escaped. -/
theorem expandTemplate_after_backslash :
    ∃ (tpl : Template) (tokens : List (Json.Token Empty)) (ctx : ExpandContext) (out : GoogleString),
      parseTemplate (ascii "\"\\\x7btitle\x7dn\"") { allowPageValues := true } = .ok tpl ∧
      IsText tokens (erase (symbols tpl.segments)) ∧ HolesAt (· ≠ .outside) .outside (symbols tpl.segments) ∧
      ctx.WellFormed ∧ expandTemplate tpl ctx .jsonString 100 = .ok out ∧ ¬∃ others, IsJson others out := by
  refine ⟨⟨ascii "\"\\\x7btitle\x7dn\"", [.literal (ascii "\"\\"), .placeholder .title, .literal (ascii "n\"")]⟩,
    [.string [.inl 10]], titled (ascii "x"), ascii "\"\\xn\"", by decide +kernel, ⟨?_, .string⟩, by decide,
    titled_wellFormed ⟨['x'], by decide⟩, by decide, ?_⟩
  · exact .string (.char (.escape (by decide)) .nil) .nil
  · rintro ⟨others, hothers, -⟩
    exact absurd (Json.scan_lexes hothers) (by decide)

end PageSpeed.Packs
