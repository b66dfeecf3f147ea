import Mathlib.Data.List.TakeWhile
import PageSpeed.Rewriter.LawyerAnswers

/-!
`FindDomain` finds the domain of the longest directory that has one, and `NormalizeDomainName` takes
the spellings of a name to one, as long as no second default port is left.
-/

namespace PageSpeed.Rewriter.DomainLawyer

variable {u : UrlLib} {l : DomainLawyer}

/-! The search along a path. -/

def directories (dirs : List GoogleString) : GoogleString := dirs.flatMap (· ++ [47])

def directoryName (origin : GoogleString) (dirs : List GoogleString) : GoogleString :=
  origin ++ 47 :: directories dirs

structure WebUrl (gurl : GoogleUrl) (dirs : List GoogleString) : Prop where
  noSlash : ∀ dir ∈ dirs, 47 ∉ dir
  pathSansLeaf : gurl.pathSansLeaf = 47 :: directories dirs
  allExceptLeaf : gurl.allExceptLeaf = gurl.origin ++ gurl.pathSansLeaf
  /-- The positions in a URL are `int`s. -/
  length : gurl.pathSansLeaf.length < 2 ^ 31

theorem directories_concat (dirs : List GoogleString) (dir : GoogleString) :
    directories (dirs ++ [dir]) = directories dirs ++ (dir ++ [47]) := by
  rw [directories, List.flatMap_append, List.flatMap_singleton, directories]

variable {dirs : List GoogleString} {piece : GoogleString} {n : ℕ}

theorem splitOn_directories (h : ∀ dir ∈ dirs, 47 ∉ dir) : (directories dirs).splitOn 47 = dirs ++ [[]] := by
  induction dirs with
  | nil => rfl
  | cons dir dirs ih =>
    rw [List.forall_mem_cons] at h
    have hfree : ∀ c ∈ dir, (c == 47) = false := fun c hc => beq_false_of_ne (ne_of_mem_of_not_mem hc h.1)
    have hcons : directories (dir :: dirs) = dir ++ 47 :: directories dirs := by
      rw [directories, List.flatMap_cons, List.append_assoc, List.singleton_append, directories]
    rw [List.splitOn_eq_splitOnP] at ih ⊢
    rw [hcons, List.splitOnP_append_cons (p := (· == (47 : UInt8))) _ _ rfl,
      List.splitOnP_eq_singleton hfree, ih h.2]
    rfl

theorem components_eq {gurl : GoogleUrl} (h : WebUrl gurl dirs) :
    splitStringPieceToVector gurl.pathSansLeaf [47] false = [] :: (dirs ++ [[]]) := by
  rw [split_eq_splitOn 47 false h.length, h.pathSansLeaf]
  have hcons : (47 :: directories dirs).splitOn 47 = [] :: (directories dirs).splitOn 47 := by
    rw [List.splitOn_eq_splitOnP, List.splitOn_eq_splitOnP, List.splitOnP_cons_eq_if_modifyHead,
      if_pos (beq_self_eq_true _)]
  rw [hcons, splitOn_directories h.noSlash]
  exact List.filter_eq_self.mpr fun _ _ => rfl

theorem findPath_spec (l : DomainLawyer) (origin : GoogleString) (dirs : List GoogleString) :
    (∃ k ≤ dirs.length, (l.domainMap.get (directoryName origin (dirs.take k))).isSome = true ∧
        (∀ j ≤ dirs.length, k < j → l.domainMap.get (directoryName origin (dirs.take j)) = none) ∧
        (l.findPath (dirs.reverse ++ [[]]) (directoryName origin dirs)).1 =
          some ⟨l.id, directoryName origin (dirs.take k)⟩) ∨
      (∀ k ≤ dirs.length, l.domainMap.get (directoryName origin (dirs.take k)) = none) ∧
        l.findPath (dirs.reverse ++ [[]]) (directoryName origin dirs) = (none, directoryName origin []) := by
  induction dirs using List.reverseRecOn with
  | nil =>
    rw [List.reverse_nil, List.nil_append, findPath]
    split_ifs with hfound hempty
    · exact Or.inl ⟨0, Nat.le_refl 0, hfound, fun j hj hlt => absurd hlt (Nat.not_lt.mpr hj), rfl⟩
    · rw [Bool.not_eq_true, Option.isSome_eq_false_iff, Option.isNone_iff_eq_none] at hfound
      exact Or.inr ⟨fun k _ => by rw [List.take_nil, hfound], rfl⟩
    · exact absurd rfl hempty
  | append_singleton dirs dir ih =>
    have hshorter : ∀ k ≤ dirs.length, (dirs ++ [dir]).take k = dirs.take k := fun k hk =>
      List.take_append_of_le_length hk
    have hlongest : (dirs ++ [dir]).take (dirs.length + 1) = dirs ++ [dir] :=
      List.take_of_length_le (by rw [List.length_append]; exact Nat.le_refl _)
    rw [List.reverse_append, List.reverse_singleton, List.singleton_append, List.cons_append, findPath,
      List.length_append, List.length_singleton]
    split_ifs with hfound hempty
    · refine Or.inl ⟨dirs.length + 1, Nat.le_refl _, by rw [hlongest]; exact hfound, fun j hj hlt =>
        absurd hlt (Nat.not_lt.mpr hj), by rw [hlongest]⟩
    · simp at hempty
    · rw [Bool.not_eq_true, Option.isSome_eq_false_iff, Option.isNone_iff_eq_none] at hfound
      have hchop : (directoryName origin (dirs ++ [dir])).take
          ((directoryName origin (dirs ++ [dir])).length - (dir.length + 1)) = directoryName origin dirs := by
        have hdir : (dir ++ [47]).length = dir.length + 1 := List.length_append
        rw [directoryName, directories_concat, ← List.cons_append, ← List.append_assoc, List.length_append, hdir,
          Nat.add_sub_cancel, List.take_left, directoryName]
      have hnew : ∀ j ≤ dirs.length + 1, ¬ j ≤ dirs.length →
          l.domainMap.get (directoryName origin ((dirs ++ [dir]).take j)) = none := by
        intro j hj hnot
        obtain rfl : j = dirs.length + 1 := by omega
        rw [hlongest, hfound]
      rw [hchop]
      obtain ⟨k, hk, hsome, hnone, hpath⟩ | ⟨hnone, hpath⟩ := ih
      · refine Or.inl ⟨k, Nat.le_succ_of_le hk, by rw [hshorter k hk]; exact hsome, fun j hj hlt => ?_, by
          rw [hshorter k hk]; exact hpath⟩
        by_cases hjk : j ≤ dirs.length
        · rw [hshorter j hjk, hnone j hjk hlt]
        · exact hnew j hj hjk
      · refine Or.inr ⟨fun k hk => ?_, hpath⟩
        by_cases hkd : k ≤ dirs.length
        · rw [hshorter k hkd, hnone k hkd]
        · exact hnew k hk hkd

theorem findDomain_spec (l : DomainLawyer) {gurl : GoogleUrl} (h : WebUrl gurl dirs) :
    (∃ k ≤ dirs.length, (l.domainMap.get (directoryName gurl.origin (dirs.take k))).isSome = true ∧
        (∀ j ≤ dirs.length, k < j → l.domainMap.get (directoryName gurl.origin (dirs.take j)) = none) ∧
        l.findDomain gurl = some ⟨l.id, directoryName gurl.origin (dirs.take k)⟩) ∨
      (∀ k ≤ dirs.length, l.domainMap.get (directoryName gurl.origin (dirs.take k)) = none) ∧
        l.findDomain gurl = l.findWildcard (directoryName gurl.origin []) := by
  have hpath : gurl.allExceptLeaf = directoryName gurl.origin dirs := by
    rw [h.allExceptLeaf, h.pathSansLeaf, directoryName]
  have halong : l.findAlongPath gurl = l.findPath (dirs.reverse ++ [[]]) (directoryName gurl.origin dirs) := by
    rw [findAlongPath, components_eq h, ← List.cons_append, hpath]
    rw [if_pos, List.dropLast_concat, List.reverse_cons]
    refine ⟨?_, rfl, List.getLast?_concat⟩
    rw [List.length_append, List.length_cons, List.length_singleton]
    omega
  have hfind : l.findDomain gurl = (l.findAlongPath gurl).1.or (l.findWildcard (l.findAlongPath gurl).2) := rfl
  rw [hfind, halong]
  obtain ⟨k, hk, hsome, hnone, hfound⟩ | ⟨hnone, hfound⟩ := findPath_spec l gurl.origin dirs
  · exact Or.inl ⟨k, hk, hsome, hnone, by rw [hfound]; rfl⟩
  · exact Or.inr ⟨hnone, by rw [hfound]; rfl⟩

/-! Texts by their first delimiter. -/

theorem eq_of_findPiece {s : GoogleString} (hpiece : piece ≠ []) (h : findPiece piece s = some n) :
    ∃ back, s = s.take n ++ (piece ++ back) := by
  induction s generalizing n with
  | nil =>
    rw [findPiece, if_neg (by simpa using hpiece)] at h
    cases h
  | cons c s ih =>
    rw [findPiece] at h
    split_ifs at h with hprefix
    · obtain ⟨back, hback⟩ := List.isPrefixOf_iff_prefix.mp hprefix
      obtain rfl := Option.some_inj.mp h
      exact ⟨back, hback.symm⟩
    · obtain ⟨m, hm, rfl⟩ := Option.map_eq_some_iff.mp h
      obtain ⟨back, hback⟩ := ih hm
      exact ⟨back, by conv_lhs => rw [hback]
                      rfl⟩

theorem exists_of_findPiece {s : GoogleString} (hpiece : piece ≠ []) (h : findPiece piece s = some n) :
    ∃ front back, s = front ++ (piece ++ back) ∧ front.length = n := by
  obtain ⟨back, hback⟩ := eq_of_findPiece hpiece h
  refine ⟨s.take n, back, hback, List.length_take_of_le ?_⟩
  by_contra hlong
  rw [List.take_of_length_le (Nat.le_of_not_le hlong)] at hback
  have hnil := List.self_eq_append_right.mp hback
  exact hpiece (List.append_eq_nil_iff.mp hnil).1

theorem findPiece_append {s : GoogleString} (hpiece : piece ≠ []) (h : findPiece piece s = some n)
    (t : GoogleString) : findPiece piece (s ++ t) = some n := by
  induction s generalizing n with
  | nil =>
    rw [findPiece, if_neg (by simpa using hpiece)] at h
    cases h
  | cons c s ih =>
    rw [findPiece] at h
    rw [List.cons_append, findPiece]
    split_ifs at h with hprefix
    · rw [if_pos, h]
      rw [List.isPrefixOf_iff_prefix] at hprefix ⊢
      exact hprefix.trans (List.prefix_append (c :: s) t)
    · obtain ⟨m, hm, rfl⟩ := Option.map_eq_some_iff.mp h
      rw [if_neg, ih hm, Option.map_some]
      -- The piece is found behind, so it fits into what is there already.
      intro hlonger
      obtain ⟨back, hback⟩ := eq_of_findPiece hpiece hm
      have hfits : piece.length ≤ (c :: s).length := by
        rw [hback, List.length_cons, List.length_append, List.length_append]
        omega
      rw [List.isPrefixOf_iff_prefix] at hlonger hprefix
      exact hprefix (List.prefix_of_prefix_length_le hlonger (List.prefix_append (c :: s) t) hfits)

theorem findPiece_take {s : GoogleString} (hpiece : piece ≠ []) (h : findPiece piece s = some n) :
    findPiece piece (s.take n ++ piece) = some n := by
  induction s generalizing n with
  | nil =>
    rw [findPiece, if_neg (by simpa using hpiece)] at h
    cases h
  | cons c s ih =>
    rw [findPiece] at h
    split_ifs at h with hprefix
    · obtain rfl := Option.some_inj.mp h
      obtain ⟨d, piece, rfl⟩ := List.exists_cons_of_ne_nil hpiece
      rw [List.take_zero, List.nil_append, findPiece, if_pos]
      rw [List.isPrefixOf_iff_prefix]
    · obtain ⟨m, hm, rfl⟩ := Option.map_eq_some_iff.mp h
      rw [List.take_succ_cons, List.cons_append, findPiece, if_neg, ih hm, Option.map_some]
      intro hshorter
      obtain ⟨back, hback⟩ := eq_of_findPiece hpiece hm
      rw [List.isPrefixOf_iff_prefix] at hshorter hprefix
      refine hprefix (hshorter.trans ⟨back, ?_⟩)
      rw [List.cons_append, List.append_assoc, ← hback]

theorem lowerChar_eq_iff {c d : UInt8} (hd : d = 58 ∨ d = 47) : lowerChar c = d ↔ c = d := by
  unfold lowerChar
  grind

def schemeDelim : GoogleString := ascii "://"

theorem isPrefixOf_lower (h : ∀ d ∈ piece, d = 58 ∨ d = 47) (s : GoogleString) :
    piece.isPrefixOf (s.map lowerChar) = piece.isPrefixOf s := by
  induction piece generalizing s with
  | nil => rw [List.isPrefixOf_nil_left, List.isPrefixOf_nil_left]
  | cons d piece ih =>
    rw [List.forall_mem_cons] at h
    cases s with
    | nil => rfl
    | cons c s =>
      have hhead : (d == lowerChar c) = (d == c) := by
        rw [Bool.eq_iff_iff, beq_iff_eq, beq_iff_eq, eq_comm, lowerChar_eq_iff h.1, eq_comm]
      rw [List.map_cons, List.isPrefixOf_cons_cons, List.isPrefixOf_cons_cons, ih h.2, hhead]

theorem mem_schemeDelim {d : UInt8} (h : d ∈ schemeDelim) : d = 58 ∨ d = 47 := by
  have hdelim : schemeDelim = [58, 47, 47] := by decide
  rw [hdelim] at h
  simp at h
  exact h

theorem findPiece_lower (s : GoogleString) : findPiece schemeDelim (s.map lowerChar) = findPiece schemeDelim s := by
  induction s with
  | nil => rfl
  | cons c s ih =>
    rw [List.map_cons, findPiece, findPiece, ih, ← List.map_cons, isPrefixOf_lower fun _ => mem_schemeDelim]

theorem findPiece_slash {host : GoogleString} (h : 47 ∉ host) (path : GoogleString) :
    findPiece [47] (host ++ 47 :: path) = some host.length := by
  induction host with
  | nil => rfl
  | cons c host ih =>
    rw [List.mem_cons, not_or] at h
    rw [List.cons_append, findPiece, if_neg, ih h.2]
    · rfl
    · rw [List.isPrefixOf_iff_prefix, List.cons_prefix_cons]
      exact fun heq => h.1 heq.1

/-! Spellings. -/

structure Spelling where
  scheme : Option GoogleString
  host : GoogleString
  path : GoogleString

namespace Spelling

def schemeOrDefault (s : Spelling) : GoogleString := s.scheme.getD (ascii "http")

def text (s : Spelling) : GoogleString := (s.scheme.elim [] (· ++ schemeDelim)) ++ (s.host ++ s.path)

structure Valid (s : Spelling) : Prop where
  scheme : ∀ t ∈ s.scheme, findPiece schemeDelim (t ++ schemeDelim) = some t.length
  plain : s.scheme = none → findPiece schemeDelim s.text = none
  host : 47 ∉ s.host
  path : s.path = [] ∨ s.path.head? = some 47
  nonempty : s.host ++ s.path ≠ []

end Spelling

def defaultPort (scheme : GoogleString) : GoogleString :=
  if scheme = ascii "https" then ascii ":443" else if scheme = ascii "http" then ascii ":80" else []

def withoutPort (scheme host : GoogleString) : GoogleString :=
  if (defaultPort scheme).isSuffixOf host then host.take (host.length - (defaultPort scheme).length) else host

theorem ensureEndsInSlash_append (s : GoogleString) {t : GoogleString} (h : t ≠ []) :
    ensureEndsInSlash (s ++ t) = s ++ ensureEndsInSlash t := by
  rw [ensureEndsInSlash, ensureEndsInSlash, List.getLast?_append_of_ne_nil s h]
  split_ifs
  · rfl
  · rw [List.append_assoc]

theorem ensureEndsInSlash_path {path : GoogleString} (h : path = [] ∨ path.head? = some 47) :
    ∃ rest, ensureEndsInSlash path = 47 :: rest := by
  obtain rfl | hhead := h
  · exact ⟨[], rfl⟩
  · obtain ⟨rest, rfl⟩ := List.head?_eq_some_iff.mp hhead
    rw [ensureEndsInSlash]
    split_ifs
    · exact ⟨rest, rfl⟩
    · exact ⟨rest ++ [47], rfl⟩

variable {s : Spelling}

theorem ensureEndsInSlash_hostPath (h : s.Valid) :
    ensureEndsInSlash (s.host ++ s.path) = s.host ++ ensureEndsInSlash s.path := by
  by_cases hpath : s.path = []
  · have hhost : s.host.getLast? ≠ some 47 := fun hlast => h.host (List.mem_of_getLast? hlast)
    rw [hpath, List.append_nil, ensureEndsInSlash, if_neg hhost]
    rfl
  · exact ensureEndsInSlash_append s.host hpath

/-- `NormalizeDomainName` once the scheme is there. -/
def normalizeFrom (domain : GoogleString) (schemeDelimStart : ℕ) : GoogleString :=
  let domain := ensureEndsInSlash domain
  let originStart := schemeDelimStart + 3
  match findPiece [47] (domain.drop originStart) with
  | none => domain
  | some length =>
    let slash := originStart + length
    let domain := (domain.take slash).map lowerChar ++ domain.drop slash
    let scheme := domain.take schemeDelimStart
    let origin := (domain.drop originStart).take length
    if scheme = ascii "https" ∧ (ascii ":443").isSuffixOf origin then erasePort domain slash 4
    else if scheme = ascii "http" ∧ (ascii ":80").isSuffixOf origin then erasePort domain slash 3
    else domain

theorem normalizeDomainName_eq (h : s.Valid) :
    normalizeDomainName s.text =
      normalizeFrom (s.schemeOrDefault ++ (schemeDelim ++ (s.host ++ s.path))) s.schemeOrDefault.length := by
  rw [normalizeDomainName, ← schemeDelim, Spelling.schemeOrDefault]
  cases hscheme : s.scheme with
  | none =>
    have htext : s.text = s.host ++ s.path := by
      rw [Spelling.text, hscheme]
      rfl
    have hhttp : ascii "http://" = ascii "http" ++ schemeDelim := by decide
    rw [h.plain hscheme, htext, hhttp, List.append_assoc]
    rfl
  | some t =>
    have htext : s.text = t ++ (schemeDelim ++ (s.host ++ s.path)) := by
      rw [Spelling.text, hscheme, Option.elim_some, List.append_assoc]
    have hfind : findPiece schemeDelim s.text = some t.length := by
      rw [htext, ← List.append_assoc]
      exact findPiece_append (by decide) (h.scheme t hscheme) _
    rw [hfind, htext]
    rfl

theorem erasePort_eq (front host back : GoogleString) {digits : ℕ} (h : digits ≤ host.length) :
    erasePort (front ++ host ++ back) (front ++ host).length digits =
      front ++ (host.take (host.length - digits) ++ back) := by
  have htake : (front ++ host).length - digits = front.length + (host.length - digits) := by
    rw [List.length_append]
    omega
  rw [erasePort, List.drop_left, List.take_append_of_le_length (Nat.sub_le _ _), htake, List.take_length_add_append,
    List.append_assoc]

theorem normalizeDomainName_text (h : s.Valid) :
    normalizeDomainName s.text = s.schemeOrDefault.map lowerChar ++ (schemeDelim ++
      (withoutPort (s.schemeOrDefault.map lowerChar) (s.host.map lowerChar) ++ ensureEndsInSlash s.path)) := by
  rw [normalizeDomainName_eq h]
  generalize s.schemeOrDefault = scheme
  obtain ⟨rest, hpath⟩ := ensureEndsInSlash_path h.path
  have hdelim : schemeDelim.length = 3 := by decide
  have hlowerDelim : schemeDelim.map lowerChar = schemeDelim := by decide
  have hensure : ensureEndsInSlash (scheme ++ (schemeDelim ++ (s.host ++ s.path))) =
      scheme ++ (schemeDelim ++ (s.host ++ 47 :: rest)) := by
    rw [← List.append_assoc, ensureEndsInSlash_append _ h.nonempty, ensureEndsInSlash_hostPath h, hpath,
      List.append_assoc]
  have hdrop : (scheme ++ (schemeDelim ++ (s.host ++ 47 :: rest))).drop (scheme.length + 3) = s.host ++ 47 :: rest := by
    rw [← hdelim, ← List.length_append, ← List.append_assoc, List.drop_left]
  have hslash : scheme.length + 3 + s.host.length = (scheme ++ (schemeDelim ++ s.host)).length := by
    rw [List.length_append, List.length_append, hdelim]
    omega
  have hsplit :
      scheme ++ (schemeDelim ++ (s.host ++ 47 :: rest)) = (scheme ++ (schemeDelim ++ s.host)) ++ 47 :: rest := by
    simp only [List.append_assoc]
  have hlower : (scheme ++ (schemeDelim ++ s.host)).map lowerChar =
      scheme.map lowerChar ++ (schemeDelim ++ s.host.map lowerChar) := by
    rw [List.map_append, List.map_append, hlowerDelim]
  rw [normalizeFrom]
  dsimp only
  rw [hensure, hdrop, findPiece_slash h.host]
  dsimp only
  rw [hslash, hsplit, List.take_left, List.drop_left, hlower, hpath]
  have hlength : (scheme ++ (schemeDelim ++ s.host)).length =
      (scheme.map lowerChar ++ (schemeDelim ++ s.host.map lowerChar)).length := by
    simp only [List.length_append, List.length_map]
  rw [hlength]
  generalize hhost : s.host.map lowerChar = host
  generalize hscheme : scheme.map lowerChar = lower
  have hschemeLength : scheme.length = lower.length := by rw [← hscheme, List.length_map]
  have hhostLength : s.host.length = host.length := by rw [← hhost, List.length_map]
  have hfront : (lower ++ (schemeDelim ++ host) ++ 47 :: rest).take scheme.length = lower := by
    rw [hschemeLength, List.append_assoc, List.take_left]
  have horigin :
      ((lower ++ (schemeDelim ++ host) ++ 47 :: rest).drop (scheme.length + 3)).take s.host.length = host := by
    rw [hschemeLength, hhostLength, ← hdelim, ← List.length_append, ← List.append_assoc, List.append_assoc,
      List.drop_left, List.take_left]
  rw [hfront, horigin]
  have hassoc : lower ++ (schemeDelim ++ host) = lower ++ schemeDelim ++ host := (List.append_assoc _ _ _).symm
  have herase : ∀ digits ≤ host.length, erasePort (lower ++ (schemeDelim ++ host) ++ 47 :: rest)
      (lower ++ (schemeDelim ++ host)).length digits =
        lower ++ (schemeDelim ++ (host.take (host.length - digits) ++ 47 :: rest)) := by
    intro digits hdigits
    rw [hassoc, erasePort_eq _ _ _ hdigits, List.append_assoc]
  rw [withoutPort, defaultPort]
  by_cases hhttps : lower = ascii "https"
  · rw [if_pos hhttps]
    by_cases hport : (ascii ":443").isSuffixOf host = true
    · rw [if_pos ⟨hhttps, hport⟩, if_pos hport, herase 4 (List.isSuffixOf_iff_suffix.mp hport).length_le]
      rfl
    · have hhttp : lower ≠ ascii "http" := by
        rw [hhttps]
        decide
      rw [if_neg fun h => hport h.2, if_neg fun h => hhttp h.1, if_neg hport, List.append_assoc, List.append_assoc]
  · rw [if_neg fun h => hhttps h.1, if_neg hhttps]
    by_cases hhttp : lower = ascii "http"
    · rw [if_pos hhttp]
      by_cases hport : (ascii ":80").isSuffixOf host = true
      · rw [if_pos ⟨hhttp, hport⟩, if_pos hport, herase 3 (List.isSuffixOf_iff_suffix.mp hport).length_le]
        rfl
      · rw [if_neg fun h => hport h.2, if_neg hport, List.append_assoc, List.append_assoc]
    · rw [if_neg fun h => hhttp h.1, if_neg hhttp, List.append_assoc, List.append_assoc]
      simp

theorem lowerChar_lowerChar (c : UInt8) : lowerChar (lowerChar c) = lowerChar c := by
  unfold lowerChar
  grind

theorem map_lowerChar_twice (s : GoogleString) : (s.map lowerChar).map lowerChar = s.map lowerChar := by
  rw [List.map_map]
  exact List.map_congr_left fun c _ => lowerChar_lowerChar c

namespace Spelling

def port (s : Spelling) : GoogleString := defaultPort (s.schemeOrDefault.map lowerChar)

def TwoPorts (s : Spelling) : Prop := s.port ≠ [] ∧ s.port ++ s.port <:+ s.host.map lowerChar

structure Respells (s t : Spelling) : Prop where
  scheme : s.schemeOrDefault.map lowerChar = t.schemeOrDefault.map lowerChar
  host : t.host.map lowerChar = s.host.map lowerChar ∨ t.host.map lowerChar = s.host.map lowerChar ++ s.port
  path : ensureEndsInSlash s.path = ensureEndsInSlash t.path

end Spelling

theorem append_suffix_append_iff {front back t : GoogleString} : front ++ t <:+ back ++ t ↔ front <:+ back := by
  constructor
  · rintro ⟨first, hfirst⟩
    rw [← List.append_assoc] at hfirst
    exact ⟨first, List.append_cancel_right hfirst⟩
  · rintro ⟨first, rfl⟩
    exact ⟨first, (List.append_assoc _ _ _).symm⟩

theorem withoutPort_append (scheme host : GoogleString) :
    withoutPort scheme (host ++ defaultPort scheme) = host := by
  rw [withoutPort, if_pos (List.isSuffixOf_iff_suffix.mpr (List.suffix_append _ _)), List.length_append,
    Nat.add_sub_cancel, List.take_left]

theorem withoutPort_eq_self_iff (scheme host : GoogleString) :
    withoutPort scheme host = host ↔ ¬ (defaultPort scheme ≠ [] ∧ defaultPort scheme <:+ host) := by
  by_cases hsuffix : defaultPort scheme <:+ host
  · obtain ⟨front, rfl⟩ := hsuffix
    rw [withoutPort_append]
    constructor
    · intro heq hport
      exact hport.1 (List.self_eq_append_right.mp heq)
    · intro hport
      have hnil : defaultPort scheme = [] := by
        by_contra hne
        exact hport ⟨hne, List.suffix_append _ _⟩
      rw [hnil, List.append_nil]
  · rw [withoutPort, if_neg fun h => hsuffix (List.isSuffixOf_iff_suffix.mp h)]
    exact iff_of_true rfl fun h => hsuffix h.2

theorem normalize_respelled {t : Spelling} (hs : s.Valid) (ht : t.Valid) (h : s.Respells t) :
    normalizeDomainName s.text = normalizeDomainName t.text ↔
      t.host.map lowerChar = s.host.map lowerChar ∨ ¬ t.TwoPorts := by
  rw [normalizeDomainName_text hs, normalizeDomainName_text ht, ← h.scheme, ← h.path, List.append_cancel_left_eq,
    List.append_cancel_left_eq, List.append_cancel_right_eq, Spelling.TwoPorts, Spelling.port, ← h.scheme]
  obtain hhost | hhost := h.host
  · rw [hhost]
    exact iff_of_true rfl (Or.inl rfl)
  · rw [hhost, Spelling.port, withoutPort_append, withoutPort_eq_self_iff]
    rw [append_suffix_append_iff, List.append_right_eq_self]
    tauto

/-! Every name as a spelling. -/

def hostAndPath (scheme : Option GoogleString) (rest : GoogleString) : Spelling :=
  ⟨scheme, rest.takeWhile (· ≠ 47), rest.dropWhile (· ≠ 47)⟩

def spellingOf (name : GoogleString) : Spelling :=
  match findPiece schemeDelim name with
  | none => hostAndPath none name
  | some n => hostAndPath (some (name.take n)) (name.drop (n + 3))

theorem valid_hostAndPath {scheme : Option GoogleString} {rest : GoogleString}
    (hscheme : ∀ t ∈ scheme, findPiece schemeDelim (t ++ schemeDelim) = some t.length)
    (hplain : scheme = none → findPiece schemeDelim rest = none) (hrest : rest ≠ []) :
    (hostAndPath scheme rest).Valid where
  scheme := hscheme
  plain hnone := by
    have htext : (hostAndPath scheme rest).text = rest := by
      obtain rfl : scheme = none := hnone
      exact List.takeWhile_append_dropWhile
    rw [htext]
    exact hplain hnone
  host hmem := by simpa using List.mem_takeWhile_imp hmem
  path := by
    by_cases hpath : rest.dropWhile (· ≠ 47) = []
    · exact Or.inl hpath
    · have hhead := List.head_dropWhile_not (fun c : UInt8 => decide (c ≠ 47)) hpath
      refine Or.inr ?_
      rw [hostAndPath, List.head?_eq_some_head hpath]
      simpa using hhead
  nonempty := by
    rw [hostAndPath, List.takeWhile_append_dropWhile]
    exact hrest

theorem scheme_spellingOf (name : GoogleString) :
    ∀ t ∈ (spellingOf name).scheme, findPiece schemeDelim (t ++ schemeDelim) = some t.length := by
  intro t ht
  cases hfind : findPiece schemeDelim name with
  | none =>
    rw [spellingOf, hfind] at ht
    cases ht
  | some n =>
    obtain ⟨front, back, rfl, rfl⟩ := exists_of_findPiece (by decide) hfind
    rw [spellingOf, hfind] at ht
    obtain rfl := Option.some_inj.mp ht
    have htake := findPiece_take (by decide) hfind
    rwa [List.take_left] at htake ⊢

theorem spellingOf_spec (name : GoogleString) :
    (spellingOf name).text = name ∧
      ((spellingOf name).host ++ (spellingOf name).path ≠ [] → (spellingOf name).Valid) := by
  cases hfind : findPiece schemeDelim name with
  | none =>
    have hspelling : spellingOf name = hostAndPath none name := by rw [spellingOf, hfind]
    rw [hspelling]
    refine ⟨List.takeWhile_append_dropWhile, fun hne => valid_hostAndPath nofun (fun _ => hfind) ?_⟩
    rw [hostAndPath, List.takeWhile_append_dropWhile] at hne
    exact hne
  | some n =>
    obtain ⟨front, back, rfl, rfl⟩ := exists_of_findPiece (by decide) hfind
    have hlong : (front ++ schemeDelim).length = front.length + 3 := List.length_append
    have hspelling : spellingOf (front ++ (schemeDelim ++ back)) = hostAndPath (some front) back := by
      rw [spellingOf, hfind]
      dsimp only
      rw [List.take_left, ← hlong, ← List.append_assoc, List.drop_left]
    have hparts : back.takeWhile (· ≠ 47) ++ back.dropWhile (· ≠ 47) = back := List.takeWhile_append_dropWhile
    rw [hspelling]
    constructor
    · rw [hostAndPath, Spelling.text, hparts, Option.elim_some, List.append_assoc]
    · intro hne
      have hscheme := scheme_spellingOf (front ++ (schemeDelim ++ back))
      rw [hspelling] at hscheme
      rw [hostAndPath, hparts] at hne
      exact valid_hostAndPath hscheme nofun hne

/-! Names that are normal already. -/

theorem map_lower_withoutPort (scheme host : GoogleString) :
    (withoutPort scheme (host.map lowerChar)).map lowerChar = withoutPort scheme (host.map lowerChar) := by
  rw [withoutPort]
  split_ifs
  · rw [List.map_take, map_lowerChar_twice]
  · exact map_lowerChar_twice host

theorem ensureEndsInSlash_twice (s : GoogleString) : ensureEndsInSlash (ensureEndsInSlash s) = ensureEndsInSlash s := by
  have hlast : (ensureEndsInSlash s).getLast? = some 47 := by
    rw [ensureEndsInSlash]
    split_ifs with hslash
    · exact hslash
    · exact List.getLast?_concat
  generalize ensureEndsInSlash s = t at hlast ⊢
  rw [ensureEndsInSlash, if_pos hlast]

def Spelling.normal (s : Spelling) : Spelling where
  scheme := some (s.schemeOrDefault.map lowerChar)
  host := withoutPort (s.schemeOrDefault.map lowerChar) (s.host.map lowerChar)
  path := ensureEndsInSlash s.path

theorem Spelling.Valid.normal (h : s.Valid) : s.normal.Valid where
  scheme t ht := by
    obtain rfl := Option.some_inj.mp ht
    have hdelim : schemeDelim.map lowerChar = schemeDelim := by decide
    have hfind : findPiece schemeDelim (s.schemeOrDefault ++ schemeDelim) = some s.schemeOrDefault.length := by
      rw [schemeOrDefault]
      cases hscheme : s.scheme with
      | none => decide
      | some t => exact h.scheme t hscheme
    rw [← hdelim, ← List.map_append, hdelim, findPiece_lower, hfind, List.length_map]
  plain := nofun
  host hmem := by
    have hlower : 47 ∈ s.host.map lowerChar := by
      rw [Spelling.normal, withoutPort] at hmem
      split_ifs at hmem
      · exact List.mem_of_mem_take hmem
      · exact hmem
    obtain ⟨c, hc, heq⟩ := List.mem_map.mp hlower
    obtain rfl := (lowerChar_eq_iff (Or.inr rfl)).mp heq
    exact h.host hc
  path := by
    obtain ⟨rest, hrest⟩ := ensureEndsInSlash_path h.path
    exact Or.inr (by rw [Spelling.normal, hrest]; rfl)
  nonempty hnil := by
    obtain ⟨rest, hrest⟩ := ensureEndsInSlash_path h.path
    have hpath := (List.append_eq_nil_iff.mp hnil).2
    rw [Spelling.normal, hrest] at hpath
    cases hpath

theorem suffix_withoutPort (scheme host : GoogleString) :
    defaultPort scheme <:+ withoutPort scheme host ↔ defaultPort scheme ++ defaultPort scheme <:+ host := by
  by_cases hsuffix : defaultPort scheme <:+ host
  · obtain ⟨front, rfl⟩ := hsuffix
    rw [withoutPort_append, append_suffix_append_iff]
  · rw [withoutPort, if_neg fun h => hsuffix (List.isSuffixOf_iff_suffix.mp h)]
    exact iff_of_false hsuffix fun h => hsuffix ((List.suffix_append _ _).trans h)

theorem normalize_twice_iff (h : s.Valid) :
    normalizeDomainName (normalizeDomainName s.text) = normalizeDomainName s.text ↔ ¬ s.TwoPorts := by
  have hnormal : normalizeDomainName s.text = s.normal.text := by
    rw [normalizeDomainName_text h, Spelling.text, Spelling.normal, Option.elim_some, List.append_assoc]
  have htwice : normalizeDomainName s.normal.text = s.normal.text ↔
      withoutPort (s.schemeOrDefault.map lowerChar) s.normal.host = s.normal.host := by
    rw [normalizeDomainName_text h.normal, Spelling.normal, Spelling.schemeOrDefault, Option.getD_some,
      map_lowerChar_twice, map_lower_withoutPort, ensureEndsInSlash_twice, Spelling.text, Option.elim_some,
      List.append_assoc, List.append_cancel_left_eq, List.append_cancel_left_eq, List.append_cancel_right_eq]
  rw [hnormal, htwice, withoutPort_eq_self_iff, Spelling.TwoPorts, Spelling.port]
  exact not_congr (and_congr_right fun _ => suffix_withoutPort _ _)

theorem normalize_bare {scheme : GoogleString}
    (h : findPiece schemeDelim (scheme ++ schemeDelim) = some scheme.length) :
    normalizeDomainName (scheme ++ schemeDelim) = scheme ++ schemeDelim := by
  have hlast : (scheme ++ schemeDelim).getLast? = some 47 := List.getLast?_append_of_ne_nil scheme (by decide)
  have hdrop : (scheme ++ schemeDelim).drop (scheme.length + 3) = [] := by
    rw [List.drop_eq_nil_iff, List.length_append]
    exact Nat.le_refl _
  rw [normalizeDomainName, ← schemeDelim, h]
  dsimp only
  rw [ensureEndsInSlash, if_pos hlast, hdrop]
  rfl

theorem normalizeDomainName_twice_iff (name : GoogleString) :
    normalizeDomainName (normalizeDomainName name) = normalizeDomainName name ↔ ¬ (spellingOf name).TwoPorts := by
  by_cases hne : (spellingOf name).host ++ (spellingOf name).path = []
  · have hhost := (List.append_eq_nil_iff.mp hne).1
    have hports : ¬ (spellingOf name).TwoPorts := by
      rw [Spelling.TwoPorts, hhost]
      rintro ⟨hport, hsuffix⟩
      exact hport (List.append_eq_nil_iff.mp (List.suffix_nil.mp hsuffix)).1
    have htext := (spellingOf_spec name).1
    rw [Spelling.text, hne, List.append_nil] at htext
    refine iff_of_true ?_ hports
    cases hscheme : (spellingOf name).scheme with
    | none =>
      rw [hscheme] at htext
      rw [← htext]
      decide
    | some t =>
      rw [hscheme, Option.elim_some] at htext
      have hfind := scheme_spellingOf name t hscheme
      rw [← htext, normalize_bare hfind, normalize_bare hfind]
  · obtain ⟨htext, hvalid⟩ := spellingOf_spec name
    have hiff := normalize_twice_iff (hvalid hne)
    rwa [htext] at hiff

/-! The wildcards of a run. -/

theorem registered_call {c : Call} (h : Closed l) (hc : c ≠ .clear) :
    l.wildcardedDomains <+: (call u c l).2.wildcardedDomains := by
  have hadd : ∀ name w a p, l.wildcardedDomains <+: (l.addDomainHelper name w a p).2.wildcardedDomains := by
    intro name w a p
    obtain ⟨added, hadded, _⟩ := (grants_addDomainHelper (g := fun _ => True) (s := True) h name w a p
      (fun _ => trivial) fun _ => trivial).1.wildcards
    exact ⟨added, hadded.symm⟩
  have hmapping : c.isMapping = true → l.wildcardedDomains <+: (call u c l).2.wildcardedDomains := by
    intro hmaps
    obtain ⟨added, hadded, _⟩ := (settles_mapping (u := u) hmaps h).grants.wildcards
    exact ⟨added, hadded.symm⟩
  cases c with
  | addDomain name => exact hadd name true true false
  | addKnownDomain name => exact hadd name false false false
  | setAuthorizeAllDomains v => exact List.prefix_refl _
  | setProxySuffix suffix => exact List.prefix_refl _
  | clear => exact absurd rfl hc
  | _ => exact hmapping rfl

/-- A URL is for the domain of its longest directory that has one, or else for the first wildcard that matches its
origin, with the wildcards in the order of their registration; and spellings of a name become one name, once and
for all, where a host has its default port once. -/
theorem findDomain_mostSpecific (h : Reachable u Mergeable l) {gurl : GoogleUrl} {dirs : List GoogleString}
    (hurl : WebUrl gurl dirs) :
    ((∃ k ≤ dirs.length, (l.domainMap.get (directoryName gurl.origin (dirs.take k))).isSome = true ∧
          (∀ j ≤ dirs.length, k < j → l.domainMap.get (directoryName gurl.origin (dirs.take j)) = none) ∧
          l.findDomain gurl = some ⟨l.id, directoryName gurl.origin (dirs.take k)⟩) ∨
        (∀ k ≤ dirs.length, l.domainMap.get (directoryName gurl.origin (dirs.take k)) = none) ∧
          (l.findDomain gurl).map DomainRef.name = (l.wildcardsFor (gurl.origin ++ ascii "/")).head?) ∧
      (l.wildcardedDomains.Nodup ∧
        (∀ r, r ∈ l.wildcardedDomains ↔ Points l r ∧ isWildcardName r.name = true) ∧
        (∀ c, c ≠ .clear → l.wildcardedDomains <+: (call u c l).2.wildcardedDomains) ∧
        ∀ src, l.wildcardedDomains <+: (l.merge src).wildcardedDomains) ∧
      (∀ s t : Spelling, s.Valid → t.Valid → s.Respells t →
        (normalizeDomainName s.text = normalizeDomainName t.text ↔
          t.host.map lowerChar = s.host.map lowerChar ∨ ¬ t.TwoPorts)) ∧
      ∀ name, normalizeDomainName (normalizeDomainName name) = normalizeDomainName name ↔
        ¬ (spellingOf name).TwoPorts := by
  have hclosed := h.closed
  refine ⟨?_, ⟨h.wellFormed.nodup, h.wellFormed.wildcards, fun c hc => registered_call hclosed hc, fun src =>
    List.prefix_append _ _⟩, fun s t hs ht hrespells => normalize_respelled hs ht hrespells,
    normalizeDomainName_twice_iff⟩
  obtain hfound | ⟨hnone, hfound⟩ := findDomain_spec l hurl
  · exact Or.inl hfound
  · refine Or.inr ⟨hnone, ?_⟩
    rw [hfound, findWildcard_eq hclosed]
    rfl

/-- A domain with a path, asked for a URL below it. -/
theorem findDomain_mostSpecific_below : ∃ k ≤ 2,
    (call plainUrls (.addDomain (ascii "a.com/x")) (new 0)).2.findDomain (plainUrl (ascii "http://a.com/x//z")) =
      some ⟨0, directoryName (ascii "http://a.com") ([ascii "x", []].take k)⟩ := by
  have hurl : WebUrl (plainUrl (ascii "http://a.com/x//z")) [ascii "x", []] :=
    ⟨by decide, by decide, by decide, by decide⟩
  have hrun : Reachable plainUrls Mergeable (call plainUrls (.addDomain (ascii "a.com/x")) (new 0)).2 :=
    .call _ (.new 0)
  obtain ⟨k, hk, _, _, hfound⟩ | ⟨hnone, _⟩ := (findDomain_mostSpecific hrun hurl).1
  · exact ⟨k, hk, hfound⟩
  · exact absurd (hnone 1 (by decide)) (by decide)

/-- Two ports are taken off one by one. -/
theorem normalize_two_ports : normalizeDomainName (normalizeDomainName (ascii "a.com:80:80")) ≠
    normalizeDomainName (ascii "a.com:80:80") := by
  decide

end PageSpeed.Rewriter.DomainLawyer
