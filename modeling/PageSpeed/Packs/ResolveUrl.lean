import PageSpeed.Base.StringUtil
import PageSpeed.Lib.UriReference
import PageSpeed.Rewriter.Domain

/-!
`ResolveUrl` of `kernel/packs/planner_common.cc`.
-/

namespace PageSpeed.Packs

open Rewriter (findPiece)
open Uri (Reference IsScheme DotFree Valid parse recompose resolve flat dropDots segmentsOf)

def schemeFrom : GoogleString → Bool
  | [] => false
  | c :: s =>
    if c = 58 then true
    else if ¬(isAlnum c ∨ c = 43 ∨ c = 45 ∨ c = 46) then false
    else schemeFrom s

def hasScheme : GoogleString → Bool
  | [] => false
  | c :: s => if ¬isAlpha c then false else schemeFrom s

def keepParts : List GoogleString → List GoogleString → List GoogleString
  | out, [] => out
  | out, p :: parts =>
    let last := parts.isEmpty
    if p = ascii "." then keepParts (if last then out ++ [[]] else out) parts
    else if p = ascii ".." then
      let out := if out.length > 1 then out.dropLast else out
      keepParts (if last then out ++ [[]] else out) parts
    else keepParts (out ++ [p]) parts

def removeDotSegments (s : GoogleString) : GoogleString :=
  let path := s.takeWhile fun c => c ≠ 63 ∧ c ≠ 35
  let tail := s.dropWhile fun c => c ≠ 63 ∧ c ≠ 35
  joinCollection (keepParts [] (path.splitOn 47)) [47] ++ tail

def resolveUrl (base ref : GoogleString) : GoogleString :=
  let ref := trimWhitespace ref
  if hasScheme ref then ref
  else
    match findPiece (ascii "://") base with
    | none => []
    | some schemeEnd =>
      let base := base.takeWhile (· ≠ 35)
      let origin := base.take (schemeEnd + 3) ++ (base.drop (schemeEnd + 3)).takeWhile fun c => c ≠ 47 ∧ c ≠ 63
      let rest := (base.drop (schemeEnd + 3)).dropWhile fun c => c ≠ 47 ∧ c ≠ 63
      let path := rest.takeWhile (· ≠ 63)
      let query := rest.dropWhile (· ≠ 63)
      let path := if path = [] then [47] else path
      if ref = [] then origin ++ path ++ query
      else if [47, 47] <+: ref then base.take (schemeEnd + 1) ++ ref
      else if ref.head? = some 35 then origin ++ path ++ query ++ ref
      else if ref.head? = some 63 then origin ++ path ++ ref
      else if ref.head? = some 47 then origin ++ removeDotSegments ref
      else origin ++ removeDotSegments (path.rdropWhile (· ≠ 47) ++ ref)

theorem keepParts_rooted (out segments : List GoogleString) :
    keepParts ([] :: out) segments = [] :: dropDots out segments := by
  induction segments generalizing out with
  | nil => rfl
  | cons s segments ih =>
    have hdot : ascii "." = [46] := rfl
    have hdots : ascii ".." = [46, 46] := rfl
    have hpop : (if ([] :: out).length > 1 then ([] :: out).dropLast else [] :: out) = [] :: out.dropLast := by
      cases out with
      | nil => rfl
      | cons t out => rw [if_pos (by simp), List.dropLast_cons_of_ne_nil (List.cons_ne_nil _ _)]
    rw [keepParts, dropDots]
    simp only [hdot, hdots, hpop, List.isEmpty_iff]
    split_ifs with hs hempty hs' hempty
    · exact ih (out ++ [[]])
    · exact ih out
    · exact ih (out.dropLast ++ [[]])
    · exact ih out.dropLast
    · exact ih (out ++ [s])

theorem join_rooted (segments : List GoogleString) : joinCollection ([] :: segments) [47] = flat segments := by
  cases segments with
  | nil => rfl
  | cons s segments =>
    rw [Uri.flat_eq_intercalate (List.cons_ne_nil _ _), joinCollection, List.intercalate_cons_cons]
    rfl

theorem path_split {path : GoogleString} (hquery : 63 ∉ path) (hfragment : 35 ∉ path)
    (query fragment : Option GoogleString) :
    (path ++ (Uri.announced 63 query ++ Uri.announced 35 fragment)).takeWhile (fun c => c ≠ 63 ∧ c ≠ 35) = path ∧
      (path ++ (Uri.announced 63 query ++ Uri.announced 35 fragment)).dropWhile (fun c => c ≠ 63 ∧ c ≠ 35) =
        Uri.announced 63 query ++ Uri.announced 35 fragment := by
  have hpath : ∀ c ∈ path, decide (c ≠ 63 ∧ c ≠ 35) = true := by
    intro c hc
    rw [decide_eq_true_eq]
    constructor
    · rintro rfl
      exact hquery hc
    · rintro rfl
      exact hfragment hc
  rw [List.takeWhile_append_of_pos hpath, List.dropWhile_append_of_pos hpath]
  cases query with
  | none =>
    cases fragment with
    | none => simp [Uri.announced]
    | some f => simp [Uri.announced]
  | some q => simp [Uri.announced]

theorem removeDotSegments_eq {path : GoogleString} (h : path = [] ∨ ∃ rest, path = 47 :: rest)
    (hquery : 63 ∉ path) (hfragment : 35 ∉ path) (query fragment : Option GoogleString) :
    removeDotSegments (path ++ (Uri.announced 63 query ++ Uri.announced 35 fragment)) =
      Uri.removeDotSegments path ++ (Uri.announced 63 query ++ Uri.announced 35 fragment) := by
  obtain ⟨htake, hdrop⟩ := path_split hquery hfragment query fragment
  have hparts : joinCollection (keepParts [] (path.splitOn 47)) [47] = flat (dropDots [] (segmentsOf path)) := by
    obtain rfl | ⟨rest, rfl⟩ := h
    · rfl
    · rw [segmentsOf, List.splitOn_cons_eq_if_modifyHead, if_pos (by decide), List.tail_cons, ← join_rooted,
        ← keepParts_rooted]
      rfl
  rw [removeDotSegments, Uri.removeDotSegments_eq h]
  simp only [htake, hdrop, hparts]

theorem isSchemeByte_iff (c : UInt8) :
    Uri.isSchemeByte c = true ↔ (isAlnum c = true ∨ c = 43 ∨ c = 45 ∨ c = 46) := by
  simp only [Uri.isSchemeByte, Uri.isAlpha, isAlnum, isAlpha, isDigit, decide_eq_true_eq, Bool.or_eq_true, or_assoc]

theorem schemeFrom_iff (s : GoogleString) :
    schemeFrom s = true ↔ (s.dropWhile Uri.isSchemeByte).head? = some 58 := by
  induction s with
  | nil => simp [schemeFrom]
  | cons c s ih =>
    rw [schemeFrom]
    split_ifs with hcolon hbyte
    · subst hcolon
      exact iff_of_true rfl rfl
    · rw [List.dropWhile_cons_of_pos ((isSchemeByte_iff c).mpr hbyte), ih]
    · have hc : ¬Uri.isSchemeByte c = true := by rwa [isSchemeByte_iff]
      rw [List.dropWhile_cons_of_neg hc, List.head?_cons, Option.some.injEq]
      exact iff_of_false not_false hcolon

theorem hasScheme_iff (s : GoogleString) : hasScheme s = true ↔ (Uri.parse s).scheme.isSome := by
  have hall : ∀ c ∈ s.takeWhile Uri.isSchemeByte, Uri.isSchemeByte c = true := fun c hc => List.mem_takeWhile_imp hc
  cases s with
  | nil => decide
  | cons c s =>
    have hbyte : isAlpha c = true → Uri.isSchemeByte c = true := by
      intro h
      rw [isSchemeByte_iff]
      exact .inl (by rw [isAlnum, h, Bool.true_or])
    rw [hasScheme, Uri.parse, Uri.cutScheme]
    by_cases halpha : isAlpha c = true
    · have hscheme : IsScheme ((c :: s).takeWhile Uri.isSchemeByte) :=
        ⟨⟨c, by rw [List.takeWhile_cons_of_pos (hbyte halpha)]; rfl, halpha⟩, hall⟩
      rw [if_neg (not_not.mpr halpha), schemeFrom_iff]
      simp only [hscheme, true_and, List.dropWhile_cons_of_pos (hbyte halpha)]
      split_ifs with hcolon
      · simpa using hcolon
      · simpa using hcolon
    · have hscheme : ¬IsScheme ((c :: s).takeWhile Uri.isSchemeByte) := by
        rintro ⟨⟨first, hfirst, halpha'⟩, -⟩
        rw [List.takeWhile_cons] at hfirst
        split_ifs at hfirst with hc
        · exact halpha (Option.some.inj hfirst ▸ halpha')
        · cases hfirst
      rw [if_pos halpha]
      simp [hscheme]

def IsHttp (base : GoogleString) : Prop :=
  ∃ scheme rest, base = scheme ++ ascii "://" ++ rest ∧
    (stringCaseEqual scheme (ascii "http") = true ∨ stringCaseEqual scheme (ascii "https") = true)

theorem findPiece_scheme {scheme : GoogleString} (h : 58 ∉ scheme) (rest : GoogleString) :
    findPiece (ascii "://") (scheme ++ 58 :: 47 :: 47 :: rest) = some scheme.length := by
  have hpiece : ascii "://" = [58, 47, 47] := rfl
  induction scheme with
  | nil => rfl
  | cons c scheme ih =>
    rw [List.mem_cons, not_or] at h
    have hc : ¬(ascii "://").isPrefixOf (c :: (scheme ++ 58 :: 47 :: 47 :: rest)) = true := by
      rw [List.isPrefixOf_iff_prefix, hpiece, List.cons_prefix_cons]
      exact fun hp => h.1 hp.1
    rw [List.cons_append, findPiece, if_neg hc, ih h.2]
    rfl

def rooted (base : Reference) : Reference := if base.path = [] then { base with path := [47] } else base

theorem isAlpha_upperChar (c : UInt8) : isAlpha (upperChar c) = isAlpha c := by
  unfold isAlpha upperChar
  grind

theorem parse_http {base : GoogleString} (h : IsHttp base) :
    (parse base).scheme.isSome ∧ (parse base).authority.isSome := by
  obtain ⟨scheme, rest, rfl, hscheme⟩ := h
  have halpha : scheme ≠ [] ∧ ∀ c ∈ scheme, isAlpha c = true := by
    obtain ⟨name, hname, hne, hletters⟩ : ∃ name, scheme.map upperChar = name ∧ name ≠ [] ∧
        ∀ c ∈ name, isAlpha c = true := by
      obtain h | h := hscheme
      · exact ⟨_, eq_of_beq h, by decide, List.all_eq_true.mp rfl⟩
      · exact ⟨_, eq_of_beq h, by decide, List.all_eq_true.mp rfl⟩
    subst hname
    refine ⟨fun h => hne (by rw [h]; rfl), ?_⟩
    intro c hc
    rw [← isAlpha_upperChar]
    exact hletters _ (List.mem_map_of_mem hc)
  have hvalid : IsScheme scheme := by
    obtain ⟨hne, halpha⟩ := halpha
    obtain ⟨c, scheme, rfl⟩ := List.exists_cons_of_ne_nil hne
    refine ⟨⟨c, rfl, halpha c List.mem_cons_self⟩, fun d hd => ?_⟩
    rw [isSchemeByte_iff, isAlnum, halpha d hd, Bool.true_or]
    exact .inl rfl
  have hbase : scheme ++ ascii "://" ++ rest = scheme ++ 58 :: (47 :: 47 :: rest) := by
    rw [List.append_assoc]
    rfl
  rw [hbase, parse, Uri.cutScheme_append hvalid]
  exact ⟨rfl, by simp [Uri.cut, Uri.cutAuthority]⟩

theorem authority_split {a path : GoogleString} (ha : 47 ∉ a ∧ 63 ∉ a) (h : path = [] ∨ ∃ rest, path = 47 :: rest)
    (query : Option GoogleString) :
    (a ++ (path ++ Uri.announced 63 query)).takeWhile (fun c => c ≠ 47 ∧ c ≠ 63) = a ∧
      (a ++ (path ++ Uri.announced 63 query)).dropWhile (fun c => c ≠ 47 ∧ c ≠ 63) = path ++ Uri.announced 63 query := by
  have hne : ∀ c ∈ a, decide (c ≠ 47 ∧ c ≠ 63) = true := by
    intro c hc
    rw [decide_eq_true_eq]
    constructor
    · rintro rfl
      exact ha.1 hc
    · rintro rfl
      exact ha.2 hc
  rw [List.takeWhile_append_of_pos hne, List.dropWhile_append_of_pos hne]
  obtain rfl | ⟨rest, rfl⟩ := h
  · cases query with
    | none => simp [Uri.announced]
    | some q => simp [Uri.announced]
  · simp

theorem resolveUrl_parts {name a path : GoogleString} {query fragment : Option GoogleString} {ref : GoogleString}
    (hvalid : Valid ⟨some name, some a, path, query, fragment⟩) (hscheme : hasScheme (trimWhitespace ref) = false) :
    resolveUrl (recompose ⟨some name, some a, path, query, fragment⟩) ref =
      let ref := trimWhitespace ref
      let origin := name ++ [58, 47, 47] ++ a
      let path := if path = [] then [47] else path
      if ref = [] then origin ++ path ++ Uri.announced 63 query
      else if [47, 47] <+: ref then name ++ [58] ++ ref
      else if ref.head? = some 35 then origin ++ path ++ Uri.announced 63 query ++ ref
      else if ref.head? = some 63 then origin ++ path ++ ref
      else if ref.head? = some 47 then origin ++ removeDotSegments ref
      else origin ++ removeDotSegments (path.rdropWhile (· ≠ 47) ++ ref) := by
  have hname := (hvalid.scheme name rfl).2
  have hcolon : 58 ∉ name := fun h => absurd (hname 58 h) (by decide)
  have hhash : 35 ∉ name := fun h => absurd (hname 35 h) (by decide)
  obtain ⟨ha, ha', ha''⟩ := hvalid.authority a rfl
  obtain ⟨hpath, hpath'⟩ : 63 ∉ path ∧ 35 ∉ path := hvalid.path
  have hrooted : path = [] ∨ ∃ rest, path = 47 :: rest := hvalid.rooted rfl
  have hbase : recompose ⟨some name, some a, path, query, fragment⟩ =
      (name ++ ([58, 47, 47] ++ (a ++ (path ++ Uri.announced 63 query)))) ++ Uri.announced 35 fragment := by
    simp [recompose]
  have hfree : 35 ∉ name ++ ([58, 47, 47] ++ (a ++ (path ++ Uri.announced 63 query))) := by
    cases query with
    | none => simpa [Uri.announced, hhash, ha''] using hpath'
    | some q =>
      have hq : 35 ∉ q := hvalid.query q rfl
      simpa [Uri.announced, hhash, ha'', hq] using hpath'
  have hfind : findPiece (ascii "://")
      ((name ++ ([58, 47, 47] ++ (a ++ (path ++ Uri.announced 63 query)))) ++ Uri.announced 35 fragment) = some name.length := by
    rw [List.append_assoc]
    exact findPiece_scheme hcolon _
  have htake : (name ++ ([58, 47, 47] ++ (a ++ (path ++ Uri.announced 63 query)))).take (name.length + 3) =
      name ++ [58, 47, 47] := by
    simp [List.take_append]
  have hdrop : (name ++ ([58, 47, 47] ++ (a ++ (path ++ Uri.announced 63 query)))).drop (name.length + 3) =
      a ++ (path ++ Uri.announced 63 query) := by
    simp [List.drop_append]
  have hscheme' : (name ++ ([58, 47, 47] ++ (a ++ (path ++ Uri.announced 63 query)))).take (name.length + 1) =
      name ++ [58] := by
    simp [List.take_append]
  have hcut := (Uri.span_announced hfree fragment).1
  obtain ⟨hpathTake, hpathDrop⟩ := Uri.span_announced hpath query
  obtain ⟨hauthority, hrest⟩ := authority_split ⟨ha, ha'⟩ hrooted query
  rw [hbase, resolveUrl]
  simp only [hscheme, Bool.false_eq_true, if_false, hfind, hcut, htake, hdrop, hscheme', hauthority, hrest, hpathTake,
    hpathDrop]

/-- `ResolveUrl` does what section 5.2 says, and leaves no dot segments in a path that was given. -/
def MeetsRfc (base ref : GoogleString) : Prop :=
  resolveUrl base ref = recompose (resolve (rooted (parse base)) (parse (trimWhitespace ref))) ∧
    ((parse (trimWhitespace ref)).path ≠ [] → DotFree (parse (resolveUrl base ref)).path)

def NamesHostWithDots (ref : GoogleString) : Prop :=
  (parse (trimWhitespace ref)).authority.isSome ∧ ¬DotFree (parse (trimWhitespace ref)).path

theorem resolveUrl_authority {name a path h : GoogleString} {query fragment : Option GoogleString} {ref : GoogleString}
    (hvalid : Valid ⟨some name, some a, path, query, fragment⟩) (hscheme : hasScheme (trimWhitespace ref) = false)
    (hauthority : (parse (trimWhitespace ref)).authority = some h) :
    resolveUrl (recompose ⟨some name, some a, path, query, fragment⟩) ref = name ++ [58] ++ trimWhitespace ref := by
  have hnone : (parse (trimWhitespace ref)).scheme = none := by
    rw [← Option.not_isSome_iff_eq_none, ← hasScheme_iff, hscheme]
    exact Bool.false_ne_true
  have href : trimWhitespace ref = 47 :: 47 :: (h ++ (parse (trimWhitespace ref)).path ++
      Uri.announced 63 (parse (trimWhitespace ref)).query ++ Uri.announced 35 (parse (trimWhitespace ref)).fragment) := by
    conv_lhs => rw [← Uri.recompose_parse (trimWhitespace ref), recompose, hnone, hauthority]
    rfl
  have hslashes : [47, 47] <+: trimWhitespace ref := by
    rw [href]
    exact ⟨_, rfl⟩
  rw [resolveUrl_parts hvalid hscheme]
  dsimp only
  rw [if_neg (by rw [href]; exact List.cons_ne_nil _ _), if_pos hslashes]

theorem rooted_merge {name a path : GoogleString} {query fragment : Option GoogleString} (rest : GoogleString) :
    Uri.merge (rooted ⟨some name, some a, path, query, fragment⟩) rest =
      (if path = [] then [47] else path).rdropWhile (· ≠ 47) ++ rest := by
  by_cases h : path = []
  · simp [rooted, h, Uri.merge]
  · simp [rooted, h, Uri.merge]

theorem rooted_valid {base : Reference} (h : Valid base) : Valid (rooted base) := by
  rw [rooted]
  split_ifs with hempty
  · have hpath : 63 ∉ ([47] : GoogleString) ∧ 35 ∉ ([47] : GoogleString) := by decide
    have hslashes : ¬[47, 47] <+: ([47] : GoogleString) := by decide
    exact ⟨h.scheme, h.authority, hpath, fun _ => .inr ⟨[], rfl⟩, fun _ => hslashes, h.query⟩
  · exact h

theorem not_slashes {path : GoogleString} (hne : path ≠ []) (h : ¬[47, 47] <+: path) (query fragment : Option GoogleString) :
    ¬[47, 47] <+: path ++ (Uri.announced 63 query ++ Uri.announced 35 fragment) := by
  obtain ⟨c, path, rfl⟩ := List.exists_cons_of_ne_nil hne
  cases path with
  | nil =>
    cases query with
    | none =>
      cases fragment with
      | none => simp [Uri.announced]
      | some f => simp [Uri.announced]
    | some q => simp [Uri.announced]
  | cons d path =>
    intro hp
    refine h ?_
    rw [List.cons_append, List.cons_append, List.cons_prefix_cons, List.cons_prefix_cons] at hp
    rw [List.cons_prefix_cons, List.cons_prefix_cons]
    exact ⟨hp.1, hp.2.1, List.nil_prefix⟩

theorem resolveUrl_relative {name a path : GoogleString} {query fragment : Option GoogleString} {ref : GoogleString}
    (hvalid : Valid ⟨some name, some a, path, query, fragment⟩) (hscheme : hasScheme (trimWhitespace ref) = false)
    (hauthority : (parse (trimWhitespace ref)).authority = none) :
    resolveUrl (recompose ⟨some name, some a, path, query, fragment⟩) ref =
      recompose (resolve (rooted ⟨some name, some a, path, query, fragment⟩) (parse (trimWhitespace ref))) := by
  have hnone : (parse (trimWhitespace ref)).scheme = none := by
    rw [← Option.not_isSome_iff_eq_none, ← hasScheme_iff, hscheme]
    exact Bool.false_ne_true
  have href := Uri.recompose_parse (trimWhitespace ref)
  have hr := Uri.parse_valid (trimWhitespace ref)
  have hbase : (rooted ⟨some name, some a, path, query, fragment⟩).scheme = some name ∧
      (rooted ⟨some name, some a, path, query, fragment⟩).authority = some a ∧
      (rooted ⟨some name, some a, path, query, fragment⟩).path = (if path = [] then [47] else path) ∧
      (rooted ⟨some name, some a, path, query, fragment⟩).query = query := by
    by_cases h : path = []
    · simp [rooted, h]
    · simp [rooted, h]
  have hmerge := @rooted_merge name a path query fragment
  have hvalid' := rooted_valid hvalid
  rw [resolveUrl_parts hvalid hscheme]
  generalize parse (trimWhitespace ref) = r at *
  generalize trimWhitespace ref = text at *
  generalize rooted ⟨some name, some a, path, query, fragment⟩ = base at *
  obtain ⟨scheme, authority, rpath, rquery, rfragment⟩ := r
  obtain rfl : scheme = none := hnone
  obtain rfl : authority = none := hauthority
  obtain ⟨hname, ha, hpath, hquery⟩ := hbase
  subst href
  cases rpath with
  | nil =>
    cases rquery with
    | none =>
      cases rfragment with
      | none => simp [recompose, resolve, Uri.announced, hname, ha, hpath, hquery]
      | some f => simp [recompose, resolve, Uri.announced, hname, ha, hpath, hquery]
    | some q => simp [recompose, resolve, Uri.announced, hname, ha, hpath, hquery]
  | cons c rpath =>
    obtain ⟨hquestion, hhash⟩ : 63 ∉ c :: rpath ∧ 35 ∉ c :: rpath := hr.path
    have hc : c ≠ 63 ∧ c ≠ 35 := by
      rw [List.mem_cons, not_or] at hquestion hhash
      exact ⟨hquestion.1 ∘ Eq.symm, hhash.1 ∘ Eq.symm⟩
    have hslashes := not_slashes (List.cons_ne_nil c rpath) (hr.bare rfl) rquery rfragment
    have htext : recompose ⟨none, none, c :: rpath, rquery, rfragment⟩ =
        c :: rpath ++ (Uri.announced 63 rquery ++ Uri.announced 35 rfragment) := by
      simp [recompose]
    dsimp only
    rw [htext, if_neg (by simp), if_neg hslashes, List.cons_append, List.head?_cons, if_neg (by simp [hc.2]),
      if_neg (by simp [hc.1]), ← List.cons_append]
    by_cases hslash : c = 47
    · subst hslash
      rw [if_pos rfl, removeDotSegments_eq (.inr ⟨rpath, rfl⟩) hquestion hhash]
      simp [recompose, resolve, hname, ha]
    · obtain ⟨hrooted, hmem⟩ := Uri.merge_rooted hvalid' (by rw [ha]; rfl) (c :: rpath)
      have hfree : 63 ∉ Uri.merge base (c :: rpath) ∧ 35 ∉ Uri.merge base (c :: rpath) := by
        constructor
        · intro h
          obtain h | h | h := hmem 63 h
          · exact absurd h (by decide)
          · exact hvalid'.path.1 h
          · exact hquestion h
        · intro h
          obtain h | h | h := hmem 35 h
          · exact absurd h (by decide)
          · exact hvalid'.path.2 h
          · exact hhash h
      rw [if_neg (by simp [hslash]), ← List.append_assoc, ← hmerge,
        removeDotSegments_eq (.inr hrooted) hfree.1 hfree.2]
      simp [recompose, resolve, hname, ha, hslash]

theorem resolveUrl_rfc {base ref : GoogleString} (hbase : IsHttp base)
    (hscheme : (parse (trimWhitespace ref)).scheme = none) : MeetsRfc base ref ↔ ¬NamesHostWithDots ref := by
  have hscheme' : hasScheme (trimWhitespace ref) = false := by
    rw [← Bool.not_eq_true, hasScheme_iff, hscheme]
    exact Bool.false_ne_true
  have hr := Uri.parse_valid (trimWhitespace ref)
  have hparts := Uri.recompose_parse base
  have hvalid := Uri.parse_valid base
  obtain ⟨hname, ha⟩ := parse_http hbase
  rw [MeetsRfc, NamesHostWithDots]
  generalize parse base = b at *
  obtain ⟨scheme, authority, path, query, fragment⟩ := b
  obtain ⟨name, rfl⟩ := Option.isSome_iff_exists.mp hname
  obtain ⟨a, rfl⟩ := Option.isSome_iff_exists.mp ha
  subst hparts
  have hbase := rooted_valid hvalid
  have hrooted : (rooted ⟨some name, some a, path, query, fragment⟩).scheme = some name ∧
      (rooted ⟨some name, some a, path, query, fragment⟩).authority = some a := by
    rw [rooted]
    split_ifs
    · exact ⟨rfl, rfl⟩
    · exact ⟨rfl, rfl⟩
  obtain ⟨htarget, htargetScheme⟩ := Uri.resolve_valid hbase (by rw [hrooted.2]; rfl) hr hscheme
  have hparse := Uri.parse_recompose htarget (by rw [htargetScheme, hrooted.1]; rfl)
  have hdots : (parse (trimWhitespace ref)).path ≠ [] →
      DotFree (resolve (rooted ⟨some name, some a, path, query, fragment⟩) (parse (trimWhitespace ref))).path :=
    Uri.resolve_dotFree hbase (by rw [hrooted.2]; rfl) hr hscheme
  cases hauthority : (parse (trimWhitespace ref)).authority with
  | none =>
    rw [resolveUrl_relative hvalid hscheme' hauthority, hparse]
    exact iff_of_true ⟨rfl, hdots⟩ (by simp)
  | some h =>
    have href := Uri.recompose_parse (trimWhitespace ref)
    rw [resolveUrl_authority hvalid hscheme' hauthority]
    generalize parse (trimWhitespace ref) = r at *
    generalize trimWhitespace ref = text at *
    obtain ⟨scheme, authority, rpath, rquery, rfragment⟩ := r
    obtain rfl : scheme = none := hscheme
    obtain rfl : authority = some h := hauthority
    have hrpath : rpath = [] ∨ ∃ rest, rpath = 47 :: rest := hr.rooted rfl
    have hresolve : resolve (rooted ⟨some name, some a, path, query, fragment⟩) ⟨none, some h, rpath, rquery, rfragment⟩ =
        ⟨some name, some h, Uri.removeDotSegments rpath, rquery, rfragment⟩ := by
      simp [resolve, hrooted.1]
    -- The reference is written after the scheme as it is, so the target is that just if no segment goes.
    have hequal : name ++ [58] ++ text = recompose ⟨some name, some h, rpath, rquery, rfragment⟩ := by
      rw [← href]
      simp [recompose]
    rw [hresolve] at htarget hparse hdots ⊢
    rw [hequal]
    have hiff : recompose ⟨some name, some h, rpath, rquery, rfragment⟩ =
        recompose ⟨some name, some h, Uri.removeDotSegments rpath, rquery, rfragment⟩ ↔ DotFree rpath := by
      constructor
      · intro heq
        have hsame : rpath = Uri.removeDotSegments rpath := by simpa [recompose] using heq
        rw [hsame]
        exact (Uri.removed_path hrpath).1
      · intro hfree
        rw [Uri.removeDotSegments_of_dotFree hrpath hfree]
    rw [hiff, Option.isSome_some, and_iff_right rfl, not_not]
    refine ⟨fun h => h.1, fun hfree => ⟨hfree, fun hne => ?_⟩⟩
    rw [hiff.mpr hfree, hparse]
    exact hdots hne

theorem resolveUrl_rfc_up : MeetsRfc (ascii "https://a/b/c?q#f") (ascii " ../d/./e ") := by
  have hbase : IsHttp (ascii "https://a/b/c?q#f") := ⟨ascii "https", ascii "a/b/c?q#f", by decide, .inr (by decide)⟩
  exact (resolveUrl_rfc hbase (by decide)).mpr fun hhost => absurd hhost.1 (by decide)

/-- The dot segments after another host stay. -/
theorem resolveUrl_keeps_dots : resolveUrl (ascii "http://a/") (ascii "//h/a/../b") = ascii "http://h/a/../b" ∧
    ¬MeetsRfc (ascii "http://a/") (ascii "//h/a/../b") := by
  refine ⟨by decide, fun h => ?_⟩
  exact absurd (h.2 (by decide)) (by decide +kernel)

end PageSpeed.Packs
