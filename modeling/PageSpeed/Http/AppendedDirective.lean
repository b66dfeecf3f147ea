import PageSpeed.Http.OverCaching

/-!
A directive that `SetCacheControlPublic` or `SetCacheControlImmutable` puts behind the others leaves
what the others say.
-/

namespace PageSpeed

open Headers

def significant (v : GoogleString) : Bool := !v.isEmpty && decide (44 ∉ v)

def Clean (v : GoogleString) : Prop := (44 ∉ v ∧ trimWhitespace v = v) ∨ ∀ c ∈ v, c = 44

variable {v : GoogleString} {values : List GoogleString}

theorem significant_commas (h : ∀ c ∈ v, c = 44) : significant v = false := by
  cases v with
  | nil => rfl
  | cons c v =>
    have hmem : (44 : UInt8) ∈ c :: v := by
      rw [h c List.mem_cons_self]
      exact List.mem_cons_self
    rw [significant, decide_eq_false (not_not.mpr hmem), Bool.and_false]

theorem startsWith_commas {start : GoogleString} (h : ∀ c ∈ v, c = 44)
    (hstart : start.any (fun a => upperChar a ≠ 44) = true) : stringCaseStartsWith v start = false := by
  apply Bool.eq_false_iff.mpr
  intro hstarts
  obtain ⟨a, ha, hupper⟩ := List.any_eq_true.mp hstart
  have hmem := (stringCaseStartsWith_iff.mp hstarts).subset (List.mem_map_of_mem ha)
  obtain ⟨c, hc, heq⟩ := List.mem_map.mp hmem
  rw [h c hc] at heq
  exact of_decide_eq_true hupper heq.symm

theorem equal_commas {start : GoogleString} (h : ∀ c ∈ v, c = 44)
    (hstart : start.any (fun a => upperChar a ≠ 44) = true) : stringCaseEqual v start = false := by
  apply Bool.eq_false_iff.mpr
  intro heq
  exact Bool.eq_false_iff.mp (startsWith_commas h hstart) (startsWith_of_equal heq)

theorem parseDirective_commas (cc : CacheControl) (h : ∀ c ∈ v, c = 44) : cc.parseDirective v = cc := by
  rw [CacheControl.parseDirective, equal_commas h (by decide), startsWith_commas h (by decide),
    startsWith_commas h (by decide), equal_commas h (by decide), startsWith_commas h (by decide),
    startsWith_commas h (by decide), equal_commas h (by decide), equal_commas h (by decide)]
  rfl

theorem parseCacheControl_significant (h : ∀ v ∈ values, Clean v) :
    parseCacheControl (values.filter significant) = parseCacheControl values := by
  induction values using List.reverseRecOn with
  | nil => rfl
  | append_singleton values v ih =>
    have hrest := ih fun w hw => h w (List.mem_append_left _ hw)
    rw [List.filter_append, List.filter_singleton, parseCacheControl, parseCacheControl, List.foldl_append,
      List.foldl_append, ← parseCacheControl, ← parseCacheControl, hrest]
    cases hv : significant v with
    | true => rfl
    | false =>
      have hcommas : ∀ c ∈ v, c = 44 := by
        obtain ⟨hfree, -⟩ | hcommas := h v List.mem_concat_self
        · rw [significant, decide_eq_true hfree, Bool.and_true, Bool.not_eq_false', List.isEmpty_iff] at hv
          intro c hc
          rw [hv] at hc
          cases hc
        · exact hcommas
      exact (parseDirective_commas _ hcommas).symm

theorem trimWhitespace_sublist (s : GoogleString) : (trimWhitespace s).Sublist s :=
  (List.rdropWhile_prefix isHtmlSpace _).sublist.trans (List.dropWhile_sublist _)

theorem clean_of_mem {name line : GoogleString} (hcomma : isCommaSeparatedField name = true) (hlt : line.length < 2 ^ 31)
    (hv : v ∈ splitValues name line) : Clean v := by
  rw [splitValues, if_pos hcomma] at hv
  dsimp only at hv
  split at hv
  · next hnil =>
    rw [List.mem_singleton.mp hv]
    exact Or.inr fun c hc =>
      List.mem_singleton.mp ((splitFrom_eq_nil line 0 0 (Nat.zero_add _).symm (Nat.le_refl 0) hnil).2 c hc)
  · obtain ⟨piece, hpiece, rfl⟩ := List.mem_map.mp hv
    have hfree := split_free 44 true (hlt.trans (by decide)) piece hpiece
    exact Or.inl ⟨fun hmem => hfree ((trimWhitespace_sublist piece).mem hmem), trimWhitespace_trim piece⟩

def pieces (s : GoogleString) : List GoogleString := ((s.splitOn 44).map trimWhitespace).filter fun v => !v.isEmpty

theorem pieces_split {line : GoogleString} (hlt : line.length < 2 ^ 31) :
    pieces line = ((splitStringPieceToVector line (ascii ",") true).map trimWhitespace).filter fun v => !v.isEmpty := by
  have hsplit : splitStringPieceToVector line (ascii ",") true = (line.splitOn 44).filter fun piece => !piece.isEmpty :=
    split_eq_splitOn 44 true hlt
  rw [hsplit, pieces, List.filter_map, List.filter_map, List.filter_filter]
  congr 1
  apply List.filter_congr
  intro piece _
  cases piece with
  | nil => rfl
  | cons c piece => exact (Bool.and_true _).symm

theorem filter_significant_split {line : GoogleString} (hlt : line.length < 2 ^ 31) :
    (splitValues HttpAttributes.kCacheControl line).filter significant = pieces line := by
  rw [splitValues, if_pos (by decide), pieces_split hlt]
  dsimp only
  split
  · next hnil =>
    have hcommas : ∀ c ∈ line, c = 44 := fun c hc =>
      List.mem_singleton.mp ((splitFrom_eq_nil line 0 0 (Nat.zero_add _).symm (Nat.le_refl 0) hnil).2 c hc)
    rw [hnil, List.filter_cons_of_neg (by rw [significant_commas hcommas]; exact Bool.false_ne_true)]
    rfl
  · apply List.filter_congr
    intro v hv
    obtain ⟨piece, hpiece, rfl⟩ := List.mem_map.mp hv
    have hfree : 44 ∉ trimWhitespace piece := fun hmem =>
      split_free 44 true (hlt.trans (by decide)) piece hpiece ((trimWhitespace_sublist piece).mem hmem)
    rw [significant, decide_eq_true hfree, Bool.and_true]

theorem pieces_commas (h : ∀ c ∈ v, c = 44) : pieces v = [] := by
  induction v with
  | nil => rfl
  | cons c v ih =>
    rw [pieces, List.splitOn_cons_eq_if_modifyHead, h c List.mem_cons_self, if_pos (beq_self_eq_true _), List.map_cons,
      List.filter_cons_of_neg (by decide), ← pieces]
    exact ih fun d hd => h d (List.mem_cons_of_mem c hd)

theorem pieces_of_clean (h : Clean v) : pieces v = [v].filter significant := by
  obtain ⟨hfree, htrim⟩ | hcommas := h
  · rw [pieces, List.splitOn_eq_singleton hfree, List.map_singleton, htrim, List.filter_singleton, List.filter_singleton,
      significant, decide_eq_true hfree, Bool.and_true]
  · rw [pieces_commas hcommas, List.filter_cons_of_neg (by rw [significant_commas hcommas]; exact Bool.false_ne_true)]
    rfl

theorem splitOn_space (v : GoogleString) :
    ((32 :: v).splitOn 44).map trimWhitespace = (v.splitOn 44).map trimWhitespace := by
  rw [List.splitOn_cons_eq_if_modifyHead, if_neg (by decide)]
  cases v.splitOn 44 with
  | nil => rfl
  | cons piece rest =>
    rw [List.modifyHead_cons, List.map_cons, List.map_cons, trimWhitespace_cons (by decide)]

theorem pieces_space (v : GoogleString) : pieces (32 :: v) = pieces v := by
  rw [pieces, pieces, splitOn_space]

theorem pieces_join (hne : values ≠ []) : pieces (joinCollection values (ascii ", ")) = values.flatMap pieces := by
  obtain ⟨v, vs, rfl⟩ := List.exists_cons_of_ne_nil hne
  have hpieces : ∀ parts : List GoogleString, parts ≠ [] →
      pieces (joinCollection parts [44]) = parts.flatMap pieces := by
    intro parts hparts
    rw [pieces, splitOn_join 44 hparts, List.map_flatMap, List.filter_flatMap]
    rfl
  rw [join_comma_space, hpieces _ (List.cons_ne_nil _ _), List.flatMap_cons, List.flatMap_cons, List.flatMap_map]
  congr 1
  exact List.flatMap_congr fun w _ => pieces_space w

theorem pieces_flatMap (h : ∀ v ∈ values, Clean v) : values.flatMap pieces = values.filter significant := by
  induction values with
  | nil => rfl
  | cons v values ih =>
    rw [List.flatMap_cons, pieces_of_clean (h v List.mem_cons_self), ih fun w hw => h w (List.mem_cons_of_mem v hw),
      ← List.filter_append, List.singleton_append]

def appendedLine (values : List GoogleString) (directive : GoogleString) : GoogleString :=
  let joined := joinCollection values (ascii ", ")
  joined ++ if joined = [] then directive else ascii ", " ++ directive

theorem parse_appendedLine {directive : GoogleString} (h : ∀ v ∈ values, Clean v)
    (hdirective : Clean directive) (hneutral : ∀ cc : CacheControl, cc.parseDirective directive = cc)
    (hlt : (appendedLine values directive).length < 2 ^ 31) :
    parseCacheControl (splitValues HttpAttributes.kCacheControl (appendedLine values directive)) =
      parseCacheControl values := by
  have hclean : ∀ v ∈ splitValues HttpAttributes.kCacheControl (appendedLine values directive), Clean v := fun v hv =>
    clean_of_mem (by decide) hlt hv
  have hpieces : pieces (appendedLine values directive) = (values ++ [directive]).filter significant := by
    have hall : ∀ v ∈ values ++ [directive], Clean v := by
      intro v hv
      obtain hv | hv := List.mem_append.mp hv
      · exact h v hv
      · rw [List.mem_singleton.mp hv]
        exact hdirective
    rw [← pieces_flatMap hall]
    unfold appendedLine
    dsimp only
    cases hvalues : values with
    | nil => exact (List.flatMap_singleton _ _).symm
    | cons v vs =>
      have hne : v :: vs ≠ [] := List.cons_ne_nil _ _
      split
      · next hnil =>
        have hnone : (v :: vs).flatMap pieces = [] := by
          rw [← pieces_join hne, hnil]
          rfl
        rw [List.flatMap_append, hnone, hnil, List.flatMap_singleton]
        rfl
      · have hjoin := join_append hne (List.cons_ne_nil directive []) (ascii ", ")
        have hsingle : joinCollection [directive] (ascii ", ") = directive := List.intercalate_singleton ..
        rw [hsingle, List.append_assoc] at hjoin
        rw [← hjoin]
        exact pieces_join (List.append_ne_nil_of_left_ne_nil hne _)
  have hlast : parseCacheControl (values ++ [directive]) = parseCacheControl values := by
    rw [parseCacheControl, List.foldl_concat]
    exact hneutral _
  rw [← parseCacheControl_significant hclean, filter_significant_split hlt, hpieces, parseCacheControl_significant, hlast]
  intro v hv
  obtain hv | hv := List.mem_append.mp hv
  · exact h v hv
  · rw [List.mem_singleton.mp hv]
    exact hdirective

end PageSpeed
