import PageSpeed.Base.Ascii
import PageSpeed.Base.StringUtil
import PageSpeed.Lib.Checks

/-!
The templates of `kernel/packs/template.cc`: `ParseTemplate`, the escapes and `ExpandTemplate`.
-/

namespace PageSpeed.Packs

inductive Placeholder
  | scheme
  | host
  | path
  | query
  | url
  | capture (group : ℕ)
  | title
  | description
  | canonical
deriving DecidableEq

inductive TemplateSegment
  | literal (text : GoogleString)
  | placeholder (p : Placeholder)
deriving DecidableEq

structure Template where
  source : GoogleString
  segments : List TemplateSegment
deriving DecidableEq

structure TemplateParseOptions where
  allowPageValues : Bool := false
  captureGroups : ℕ := 0

def isIdentChar (c : UInt8) : Bool := 97 ≤ c ∧ c ≤ 122 ∨ 65 ≤ c ∧ c ≤ 90 ∨ 48 ≤ c ∧ c ≤ 57 ∨ c = 95

def braced (name : GoogleString) : GoogleString := 123 :: (name ++ [125])

def decimal (n : ℕ) : GoogleString := Decimal.digits 20 n

def placeholderOf (name : GoogleString) (options : TemplateParseOptions) : Except GoogleString Placeholder :=
  let pageValue (p : Placeholder) : Except GoogleString Placeholder :=
    if options.allowPageValues then .ok p
    else .error (ascii "placeholder " ++ braced name ++ ascii " is only allowed in jsonld")
  if name = ascii "scheme" then .ok .scheme
  else if name = ascii "host" then .ok .host
  else if name = ascii "path" then .ok .path
  else if name = ascii "query" then .ok .query
  else if name = ascii "url" then .ok .url
  else
    match name with
    | [c] =>
      if 49 ≤ c ∧ c ≤ 57 then
        let group := c.toNat - 48
        if group > options.captureGroups then
          .error (ascii "placeholder " ++ braced name ++ ascii " refers to capture group " ++ decimal group ++
            ascii " but path_regex has " ++ decimal options.captureGroups ++
            if options.captureGroups = 1 then ascii " group" else ascii " groups")
        else .ok (.capture group)
      else .error (ascii "unknown placeholder " ++ braced name)
    | _ =>
      if name = ascii "title" then pageValue .title
      else if name = ascii "description" then pageValue .description
      else if name = ascii "canonical" then pageValue .canonical
      else .error (ascii "unknown placeholder " ++ braced name)

def flushLiteral (literal : GoogleString) : List TemplateSegment := if literal = [] then [] else [.literal literal]

def parseSegments (options : TemplateParseOptions) (literal text : GoogleString) :
    Except GoogleString (List TemplateSegment) :=
  match text with
  | [] => .ok (flushLiteral literal)
  | c :: rest =>
    if c ≠ 123 then parseSegments options (literal ++ [c]) rest
    else
      let name := rest.takeWhile isIdentChar
      match _h : rest.dropWhile isIdentChar with
      | 125 :: after =>
        if name = [] then parseSegments options (literal ++ [c]) rest
        else do
          let p ← placeholderOf name options
          let segments ← parseSegments options [] after
          return flushLiteral literal ++ .placeholder p :: segments
      | _ => parseSegments options (literal ++ [c]) rest
termination_by text.length
decreasing_by
  · exact Nat.lt_succ_self _
  · exact Nat.lt_succ_self _
  · have hlength := (List.dropWhile_suffix isIdentChar (l := rest)).length_le
    rw [_h, List.length_cons] at hlength
    rw [List.length_cons]
    omega
  · exact Nat.lt_succ_self _

def parseTemplate (text : GoogleString) (options : TemplateParseOptions) : Except GoogleString Template := do
  let segments ← parseSegments options [] text
  return ⟨text, segments⟩

def escapeForHtmlText (s : GoogleString) : GoogleString :=
  s.flatMap fun c =>
    if c = 38 then ascii "&amp;" else if c = 60 then ascii "&lt;" else if c = 62 then ascii "&gt;" else [c]

def hexLower (n : ℕ) : UInt8 := if n < 10 then UInt8.ofNat (48 + n) else UInt8.ofNat (87 + n)

def escapeJsonByte (c : UInt8) : GoogleString :=
  if c = 34 then [92, 34]
  else if c = 92 then [92, 92]
  else if c = 10 then [92, 110]
  else if c = 13 then [92, 114]
  else if c = 9 then [92, 116]
  else if c < 0x20 ∨ c = 0x7f then ascii "\\u00" ++ [hexLower (c.toNat / 16), hexLower (c.toNat % 16)]
  else [c]

def escapeJsonString (s : GoogleString) : GoogleString := s.flatMap escapeJsonByte

structure PageUrl where
  scheme : GoogleString
  host : GoogleString
  path : GoogleString
  query : GoogleString

structure ExpandContext where
  url : PageUrl
  captures : List GoogleString
  title : GoogleString
  description : GoogleString
  canonical : GoogleString

inductive EscapeContext
  | none
  | htmlText
  | jsonString
deriving DecidableEq

def ExpandContext.pieces (ctx : ExpandContext) : Placeholder → List GoogleString
  | .scheme => [ctx.url.scheme]
  | .host => [ctx.url.host]
  | .path => [ctx.url.path]
  | .query => if ctx.url.query ≠ [] then [ascii "?", ctx.url.query] else []
  | .url => [ctx.url.scheme, ascii "://", ctx.url.host, ctx.url.path] ++
      if ctx.url.query ≠ [] then [ascii "?", ctx.url.query] else []
  | .capture 0 => []
  | .capture (idx + 1) => (ctx.captures[idx]?).toList
  | .title => [ctx.title]
  | .description => [ctx.description]
  | .canonical => [ctx.canonical]

def escapePiece (escape : EscapeContext) (isValue : Bool) (piece : GoogleString) : GoogleString :=
  if escape = .htmlText then escapeForHtmlText piece
  else if escape = .jsonString ∧ isValue then escapeJsonString piece
  else piece

def appendPiece (escape : EscapeContext) (maxBytes : ℕ) (isValue : Bool) (out piece : GoogleString) : Option GoogleString :=
  if piece.length > maxBytes ∨ out.length + piece.length > maxBytes then none
  else
    let out := out ++ escapePiece escape isValue piece
    if out.length ≤ maxBytes then some out else none

def appendSegment (ctx : ExpandContext) (escape : EscapeContext) (maxBytes : ℕ) (out : GoogleString) :
    TemplateSegment → Option GoogleString
  | .literal text => appendPiece escape maxBytes false out text
  | .placeholder p => (ctx.pieces p).foldlM (appendPiece escape maxBytes true) out

def tooBig (maxBytes : ℕ) : GoogleString := ascii "expanded value exceeds " ++ decimal maxBytes ++ ascii " bytes"

def escapeLt (s : GoogleString) : GoogleString := s.flatMap fun c => if c = 60 then ascii "\\u003c" else [c]

def expandTemplate (tpl : Template) (ctx : ExpandContext) (escape : EscapeContext) (maxBytes : ℕ) :
    Except GoogleString GoogleString :=
  match tpl.segments.foldlM (appendSegment ctx escape maxBytes) [] with
  | none => .error (tooBig maxBytes)
  | some out =>
    if escape = .jsonString then
      if out.length + out.count 60 * 5 > maxBytes then .error (tooBig maxBytes) else .ok (escapeLt out)
    else .ok out

def ExpandContext.valueOf (ctx : ExpandContext) (p : Placeholder) : GoogleString := (ctx.pieces p).flatten

def segmentText (ctx : ExpandContext) (escape : EscapeContext) : TemplateSegment → GoogleString
  | .literal text => escapePiece escape false text
  | .placeholder p => escapePiece escape true (ctx.valueOf p)

theorem escapePiece_append (escape : EscapeContext) (isValue : Bool) (s t : GoogleString) :
    escapePiece escape isValue (s ++ t) = escapePiece escape isValue s ++ escapePiece escape isValue t := by
  unfold escapePiece
  split_ifs
  · exact List.flatMap_append
  · exact List.flatMap_append
  · rfl

theorem escapePiece_nil (escape : EscapeContext) (isValue : Bool) : escapePiece escape isValue [] = [] := by
  unfold escapePiece
  split_ifs <;> rfl

variable {escape : EscapeContext} {maxBytes : ℕ} {out out' : GoogleString}

theorem appendPiece_eq {isValue : Bool} {piece : GoogleString}
    (h : appendPiece escape maxBytes isValue out piece = some out') : out' = out ++ escapePiece escape isValue piece := by
  unfold appendPiece at h
  dsimp only at h
  split_ifs at h
  exact (Option.some.inj h).symm

theorem appendPieces_eq {pieces : List GoogleString}
    (h : pieces.foldlM (appendPiece escape maxBytes true) out = some out') :
    out' = out ++ escapePiece escape true pieces.flatten := by
  induction pieces generalizing out with
  | nil =>
    rw [List.flatten_nil, escapePiece_nil, List.append_nil]
    exact (Option.some.inj h).symm
  | cons piece pieces ih =>
    rw [List.foldlM_cons] at h
    obtain ⟨mid, hmid, hrest⟩ := Option.bind_eq_some_iff.mp h
    rw [ih hrest, appendPiece_eq hmid, List.flatten_cons, escapePiece_append, List.append_assoc]

theorem appendSegments_eq {ctx : ExpandContext} {segments : List TemplateSegment} (h : segments.foldlM (appendSegment ctx escape maxBytes) out = some out') :
    out' = out ++ segments.flatMap (segmentText ctx escape) := by
  induction segments generalizing out with
  | nil =>
    rw [List.flatMap_nil, List.append_nil]
    exact (Option.some.inj h).symm
  | cons segment segments ih =>
    rw [List.foldlM_cons] at h
    obtain ⟨mid, hmid, hrest⟩ := Option.bind_eq_some_iff.mp h
    have hsegment : mid = out ++ segmentText ctx escape segment := by
      cases segment with
      | literal text => exact appendPiece_eq hmid
      | placeholder p => exact appendPieces_eq hmid
    rw [ih hrest, hsegment, List.flatMap_cons, List.append_assoc]

theorem length_escapeLt (s : GoogleString) : (escapeLt s).length = s.length + s.count 60 * 5 := by
  induction s with
  | nil => rfl
  | cons c s ih =>
    rw [escapeLt, List.flatMap_cons, ← escapeLt, List.length_append, ih, List.length_cons]
    by_cases hc : c = 60
    · rw [if_pos hc, hc, List.count_cons_self, show (ascii "\\u003c").length = 6 from rfl]
      omega
    · rw [if_neg hc, List.count_cons_of_ne hc, List.length_singleton]
      omega

theorem not_mem_escapeLt (s : GoogleString) : 60 ∉ escapeLt s := by
  intro h
  obtain ⟨c, -, hc⟩ := List.mem_flatMap.mp h
  split_ifs at hc with heq
  · exact absurd hc (by decide)
  · exact heq (List.mem_singleton.mp hc).symm

theorem expandTemplate_eq {tpl : Template} {ctx : ExpandContext}
    (h : expandTemplate tpl ctx .jsonString maxBytes = .ok out) :
    out = escapeLt (tpl.segments.flatMap (segmentText ctx .jsonString)) ∧ out.length ≤ maxBytes := by
  unfold expandTemplate at h
  split at h
  · cases h
  · rename_i text htext
    rw [if_pos rfl] at h
    split_ifs at h with hbig
    obtain rfl := Except.ok.inj h
    obtain rfl := appendSegments_eq htext
    rw [List.nil_append] at hbig ⊢
    refine ⟨rfl, ?_⟩
    rw [length_escapeLt]
    omega

end PageSpeed.Packs
