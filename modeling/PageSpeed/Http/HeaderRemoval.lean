import PageSpeed.Http.HeaderMap
import Mathlib.Data.List.DropRight

/-!
What `Remove` leaves to be looked up, and the map over whole runs of calls.
-/

namespace PageSpeed

theorem trimTrailingWhitespace_eq (s : GoogleString) : trimTrailingWhitespace s = s.rdropWhile isHtmlSpace := rfl

theorem trimWhitespace_cons {c : UInt8} (h : isHtmlSpace c = true) (s : GoogleString) :
    trimWhitespace (c :: s) = trimWhitespace s := by
  rw [trimWhitespace, trimLeadingWhitespace, List.dropWhile_cons_of_pos h]
  rfl

theorem trimWhitespace_trim (s : GoogleString) : trimWhitespace (trimWhitespace s) = trimWhitespace s := by
  have hleading : trimLeadingWhitespace (trimWhitespace s) = trimWhitespace s := by
    cases htrim : trimWhitespace s with
    | nil => rfl
    | cons c rest =>
      obtain ⟨tail, htail⟩ : trimWhitespace s <+: trimLeadingWhitespace s := List.rdropWhile_prefix isHtmlSpace _
      have hc : isHtmlSpace c = false := by
        have hstop := List.head?_dropWhile_not isHtmlSpace s
        rw [htrim, List.cons_append] at htail
        rw [trimLeadingWhitespace] at htail
        rw [← htail] at hstop
        exact hstop
      exact List.dropWhile_cons_of_neg (by rw [hc]; exact Bool.false_ne_true)
  rw [trimWhitespace, hleading, trimTrailingWhitespace_eq, trimWhitespace, trimTrailingWhitespace_eq]
  exact List.rdropWhile_idempotent isHtmlSpace _

namespace Headers

open StringMultiMap

variable {v name value : GoogleString} {h : Headers}

theorem isCommaSeparatedField_congr {name' : GoogleString} (h : stringCaseEqual name name' = true) :
    isCommaSeparatedField name = isCommaSeparatedField name' := by
  rw [isCommaSeparatedField, isCommaSeparatedField,
    funext (stringCaseEqual_congr (stringCaseEqual_iff.mp h))]

theorem split_ne_nil_of_free {line : GoogleString} (hne : line ≠ []) (hfree : 44 ∉ line) :
    splitStringPieceToVector line (ascii ",") true ≠ [] := by
  have hcommas : ∀ c ∈ line, c ∉ ascii "," := by
    intro c hc hmem
    have hcomma : c = 44 := List.mem_singleton.mp hmem
    rw [hcomma] at hc
    exact hfree hc
  have hskip := splitFrom_skip line (ascii ",") true hcommas [] 0 0
  rw [List.append_nil] at hskip
  rw [splitStringPieceToVector, hskip, splitFrom, if_pos (by simp [List.length_pos_iff.mpr hne])]
  exact List.cons_ne_nil _ _

theorem trimmed_of_mem {line : GoogleString} (hcomma : isCommaSeparatedField name = true)
    (hv : v ∈ splitValues name line) (hne : v ≠ []) (hfree : 44 ∉ v) : trimWhitespace v = v := by
  rw [splitValues, if_pos hcomma] at hv
  dsimp only at hv
  split at hv
  · next hnil =>
    rw [List.mem_singleton.mp hv] at hne hfree
    exact absurd hnil (split_ne_nil_of_free hne hfree)
  · obtain ⟨piece, -, rfl⟩ := List.mem_map.mp hv
    exact trimWhitespace_trim piece

theorem join_comma_space (v : GoogleString) (vs : List GoogleString) :
    joinCollection (v :: vs) (ascii ", ") = joinCollection (v :: vs.map (32 :: ·)) [44] := by
  induction vs generalizing v with
  | nil => rfl
  | cons w vs ih =>
    have hrest : joinCollection ((32 :: w) :: vs.map (32 :: ·)) [44] = 32 :: joinCollection (w :: vs) (ascii ", ") := by
      rw [ih w]
      cases vs with
      | nil => rfl
      | cons u vs =>
        rw [joinCollection, joinCollection, List.map_cons, List.intercalate_cons_cons, List.intercalate_cons_cons]
        rfl
    have hjoin : joinCollection (v :: w :: vs) (ascii ", ") = v ++ [44, 32] ++ joinCollection (w :: vs) (ascii ", ") :=
      List.intercalate_cons_cons ..
    have hjoin' : joinCollection (v :: (w :: vs).map (32 :: ·)) [44] =
        v ++ [44] ++ joinCollection ((32 :: w) :: vs.map (32 :: ·)) [44] := List.intercalate_cons_cons ..
    rw [hjoin, hjoin', hrest]
    simp

theorem splitValues_join_trimmed (hcomma : isCommaSeparatedField name = true)
    {vs : List GoogleString} (hlt : (joinCollection (v :: vs) (ascii ", ")).length < 2 ^ 31)
    (hvs : ∀ w ∈ v :: vs, 44 ∉ w ∧ trimWhitespace w = w) :
    splitValues name (joinCollection (v :: vs) (ascii ", ")) = if v = [] ∧ vs ≠ [] then vs else v :: vs := by
  obtain ⟨hfree, htrim⟩ := hvs v List.mem_cons_self
  have hfree' : ∀ w ∈ v :: vs.map (32 :: ·), 44 ∉ w := by
    intro w hw
    obtain rfl | hw := List.mem_cons.mp hw
    · exact hfree
    · obtain ⟨u, hu, rfl⟩ := List.mem_map.mp hw
      rw [List.mem_cons]
      exact not_or.mpr ⟨by decide, (hvs u (List.mem_cons_of_mem v hu)).1⟩
  have hpieces : splitStringPieceToVector (joinCollection (v :: vs) (ascii ", ")) (ascii ",") true =
      (if v = [] then [] else [v]) ++ vs.map (32 :: ·) := by
    have hsplit := split_eq_splitOn 44 true hlt
    have hspaced : (vs.map (32 :: ·)).filter (fun piece => !true || !piece.isEmpty) = vs.map (32 :: ·) := by
      rw [List.filter_eq_self]
      intro w hw
      obtain ⟨u, -, rfl⟩ := List.mem_map.mp hw
      rfl
    rw [join_comma_space, splitOn_join 44 (List.cons_ne_nil _ _),
      List.flatMap_congr fun w hw => List.splitOn_eq_singleton (hfree' w hw), List.flatMap_singleton',
      List.filter_cons, hspaced] at hsplit
    rw [join_comma_space]
    refine Eq.trans hsplit ?_
    cases v <;> rfl
  have htrims : (vs.map (32 :: ·)).map trimWhitespace = vs := by
    rw [List.map_map]
    refine (List.map_congr_left fun w hw => ?_).trans (List.map_id vs)
    exact (trimWhitespace_cons (by decide) w).trans (hvs w (List.mem_cons_of_mem v hw)).2
  rw [splitValues, if_pos hcomma]
  dsimp only
  rw [hpieces]
  by_cases hv : v = []
  · subst hv
    cases vs with
    | nil => rfl
    | cons w vs =>
      rw [if_pos rfl, List.nil_append, if_neg (mt List.map_eq_nil_iff.mp (List.cons_ne_nil w vs)), htrims,
        if_pos ⟨rfl, List.cons_ne_nil _ _⟩]
  · rw [if_neg hv, List.singleton_append, if_neg (List.cons_ne_nil _ _), List.map_cons, htrims, htrim,
      if_neg fun h => hv h.1]

theorem splitValues_join (hcomma : isCommaSeparatedField name = true)
    {vs : List GoogleString} (hlt : (joinCollection (v :: vs) (ascii ", ")).length < 2 ^ 31)
    (hvs : ∀ w ∈ v :: vs, w ≠ [] ∧ 44 ∉ w ∧ trimWhitespace w = w) :
    splitValues name (joinCollection (v :: vs) (ascii ", ")) = v :: vs := by
  rw [splitValues_join_trimmed hcomma hlt fun w hw => (hvs w hw).2, if_neg]
  exact fun h => (hvs v List.mem_cons_self).1 h.1

theorem add_of_room (hroom : h.headers.length < kMaxHeaders) (name value : GoogleString) :
    (h.add name value).headers = h.headers ++ [⟨name, value⟩] := by
  rw [Headers.add, if_neg (Nat.not_le.mpr hroom)]

theorem foldl_add_of_room {α : Type} (name value : α → GoogleString) {l : List α}
    (hroom : h.headers.length + l.length ≤ kMaxHeaders) :
    (l.foldl (fun h a => h.add (name a) (value a)) h).headers =
      h.headers ++ l.map fun a => ⟨name a, value a⟩ := by
  induction l generalizing h with
  | nil => exact (List.append_nil _).symm
  | cons a l ih =>
    rw [List.length_cons] at hroom
    have hadd := add_of_room (h := h) (by omega) (name a) (value a)
    rw [List.foldl_cons, ih (by rw [hadd, List.length_append, List.length_singleton]; omega), hadd, List.map_cons,
      List.append_assoc]
    rfl

theorem length_add_le (h : Headers) (name value : GoogleString) (hle : h.headers.length ≤ kMaxHeaders) :
    (h.add name value).headers.length ≤ kMaxHeaders := by
  unfold Headers.add
  split
  · exact hle
  · next hroom =>
    rw [List.length_append, List.length_singleton]
    omega

theorem length_foldl_add_le {α : Type} (name value : α → GoogleString) (l : List α)
    (hle : h.headers.length ≤ kMaxHeaders) :
    (l.foldl (fun h a => h.add (name a) (value a)) h).headers.length ≤ kMaxHeaders := by
  induction l generalizing h with
  | nil => exact hle
  | cons a l ih => exact ih (length_add_le h _ _ hle)

theorem length_removeAll_le (h : Headers) (names : List GoogleString) :
    (h.removeAllFromSortedArray names).2.headers.length ≤ h.headers.length := by
  unfold Headers.removeAllFromSortedArray
  dsimp only
  split
  · exact List.length_filter_le _ _
  · exact Nat.le_of_eq (by rw [headers_populateMap])

theorem length_keepLoop_le (keep : Headers) (headers : List NameValue) (bags : List (GoogleString × List GoogleString)) :
    (keepLoop keep headers bags).1.length ≤ headers.length := by
  induction headers generalizing bags with
  | nil => exact Nat.le_refl 0
  | cons header rest ih =>
    rw [keepLoop]
    dsimp only
    split
    · exact (ih _).trans (Nat.le_succ _)
    · split <;> exact Nat.succ_le_succ (ih _)

theorem length_remove_le (h : Headers) (name value : GoogleString) (hle : h.headers.length ≤ kMaxHeaders) :
    (h.remove name value).2.headers.length ≤ kMaxHeaders := by
  have hpopulate : h.populateMap.headers.length ≤ kMaxHeaders := by rw [headers_populateMap]; exact hle
  have hremoved := (length_removeAll_le h [name]).trans hle
  unfold Headers.remove
  split
  · exact hpopulate
  · split
    · dsimp only
      split
      · split
        · exact hremoved
        · exact length_add_le _ _ _ hremoved
      · exact length_foldl_add_le (fun _ => name) id _ hremoved
    · exact hpopulate

theorem length_apply_le (h : Headers) (op : Op) (hle : h.headers.length ≤ kMaxHeaders) :
    (h.apply op).headers.length ≤ kMaxHeaders := by
  have hpopulate : h.populateMap.headers.length ≤ kMaxHeaders := by rw [headers_populateMap]; exact hle
  cases op with
  | add name value => exact length_add_le h name value hle
  | remove name value => exact length_remove_le h name value hle
  | removeAll name => exact (length_removeAll_le h [name]).trans hle
  | removeAllFromSortedArray names => exact (length_removeAll_le h names).trans hle
  | removeAllWithPrefix start =>
    rw [Headers.apply, Headers.removeAllWithPrefix]
    split
    · exact (List.length_filter_le _ _).trans hle
    · exact hle
  | removeIfNotIn keep =>
    have hkept := (length_keepLoop_le keep h.headers []).trans hle
    rw [Headers.apply, Headers.removeIfNotIn]
    dsimp only
    split
    · exact hkept
    · exact hkept
  | replace name value => exact length_add_le _ _ _ ((length_removeAll_le h [name]).trans hle)
  | updateFrom other => exact length_foldl_add_le _ _ _ ((length_removeAll_le h _).trans hle)
  | removeCookie cookieName =>
    rw [Headers.apply, Headers.removeCookie]
    split
    · exact hpopulate
    · dsimp only
      split
      · exact length_foldl_add_le (fun _ => HttpAttributes.kCookie) id _ ((length_removeAll_le _ _).trans hle)
      · exact hpopulate
  | setValue i value => exact Nat.le_trans (Nat.le_of_eq (List.length_modify _ _ _)) hle
  | lookup name => exact hpopulate
  | has name => exact hpopulate
  | hasCookie name =>
    rw [Headers.apply, Headers.populateCookieMap]
    split
    · exact hle
    · exact hpopulate

theorem length_run_le (hle : h.headers.length ≤ kMaxHeaders) (ops : List Op) :
    (h.run ops).headers.length ≤ kMaxHeaders := by
  induction ops generalizing h with
  | nil => exact hle
  | cons op ops ih => exact ih (length_apply_le h op hle)

def valuesWithout (values : List GoogleString) (value : GoogleString) : List GoogleString :=
  values.filter fun v => !stringCaseEqual v value && !v.isEmpty

def Rejoins (name : GoogleString) (values : List GoogleString) : Prop :=
  isCommaSeparatedField name = true →
    (joinCollection values (ascii ", ")).length < 2 ^ 31 ∧ ((∀ v ∈ values, 44 ∉ v) ∨ ∃ n, values = [List.replicate n 44])

theorem splitFrom_commas (sp : GoogleString) (n pos : ℕ) (hpos : sp.length = pos + n) :
    splitFrom sp (ascii ",") true (List.replicate n 44) pos pos = [] := by
  induction n generalizing pos with
  | zero =>
    rw [List.replicate_zero, splitFrom, if_neg]
    simp [hpos]
  | succ n ih =>
    rw [List.replicate_succ, splitFrom, if_pos (by decide), if_neg (by simp)]
    exact ih (pos + 1) (by omega)

theorem splitValues_commas (hcomma : isCommaSeparatedField name = true) (n : ℕ) :
    splitValues name (List.replicate n 44) = [List.replicate n 44] := by
  have hnil : splitStringPieceToVector (List.replicate n 44) (ascii ",") true = [] :=
    splitFrom_commas _ n 0 (by rw [List.length_replicate, Nat.zero_add])
  rw [splitValues, if_pos hcomma]
  dsimp only
  rw [hnil, if_pos rfl]

theorem mem_linesOf {headers : List NameValue} (hv : v ∈ linesOf headers name) :
    ∃ header ∈ headers, stringCaseEqual header.name name = true ∧ v ∈ splitValues header.name header.value := by
  obtain ⟨header, hheader, hmem⟩ := List.mem_flatMap.mp hv
  split at hmem
  · next heq => exact ⟨header, hheader, heq, hmem⟩
  · cases hmem

theorem splitValues_rejoined {headers : List NameValue}
    (hcomma : isCommaSeparatedField name = true) (hrejoins : Rejoins name (valuesWithout (linesOf headers name) value))
    (hne : valuesWithout (linesOf headers name) value ≠ []) :
    splitValues name (joinCollection (valuesWithout (linesOf headers name) value) (ascii ", ")) =
      valuesWithout (linesOf headers name) value := by
  obtain ⟨hlt, hfree | ⟨n, hcommas⟩⟩ := hrejoins hcomma
  · have hgood : ∀ w ∈ valuesWithout (linesOf headers name) value, w ≠ [] ∧ 44 ∉ w ∧ trimWhitespace w = w := by
      intro w hw
      obtain ⟨hmem, hkeep⟩ := List.mem_filter.mp hw
      have hwne : w ≠ [] := by
        rintro rfl
        rw [List.isEmpty_nil, Bool.not_true, Bool.and_false] at hkeep
        cases hkeep
      obtain ⟨header, -, heq, hsplit⟩ := mem_linesOf hmem
      have hcomma' := (isCommaSeparatedField_congr heq).trans hcomma
      exact ⟨hwne, hfree w hw, trimmed_of_mem hcomma' hsplit hwne (hfree w hw)⟩
    obtain ⟨v, vs, hvs⟩ := List.exists_cons_of_ne_nil hne
    rw [hvs] at hgood hlt ⊢
    exact splitValues_join hcomma hlt hgood
  · rw [hcommas, joinCollection, List.intercalate_singleton]
    exact splitValues_commas hcomma n

theorem join_eq_nil {values : List GoogleString} (hvalues : ∀ v ∈ values, v ≠ []) (separator : GoogleString)
    (hnil : joinCollection values separator = []) : values = [] := by
  cases values with
  | nil => rfl
  | cons v vs =>
    have hle := length_le_join (@List.mem_cons_self _ v vs) separator
    rw [hnil, List.length_nil] at hle
    exact absurd (List.length_eq_zero_iff.mp (Nat.le_zero.mp hle)) (hvalues v List.mem_cons_self)

theorem length_linesOf_le (hcomma : isCommaSeparatedField name = false) (headers : List NameValue) :
    (linesOf headers name).length + (headers.filter fun header => !listed [name] header.name).length ≤ headers.length := by
  induction headers with
  | nil => exact Nat.le_refl 0
  | cons header headers ih =>
    have hswap : listed [name] header.name = stringCaseEqual header.name name := by
      rw [Bool.eq_iff_iff, listed_iff, stringCaseEqual_iff]
      simp [eq_comm]
    rw [← List.singleton_append, linesOf_append, linesOf_singleton, List.filter_append, List.length_append,
      List.length_append, List.length_append, List.length_singleton, List.filter_singleton, hswap]
    split
    · next heq =>
      rw [splitValues, if_neg (by rw [isCommaSeparatedField_congr heq, hcomma]; exact Bool.false_ne_true), heq]
      simp only [List.length_singleton, Bool.not_true, cond_false, List.length_nil]
      omega
    · next heq =>
      rw [Bool.eq_false_iff.mpr heq]
      simp only [List.length_singleton, Bool.not_false, cond_true, List.length_nil]
      omega

theorem linesOf_map (name : GoogleString) (hcomma : isCommaSeparatedField name = false) (values : List GoogleString) :
    linesOf (values.map fun v => ⟨name, v⟩) name = values := by
  have hself : stringCaseEqual name name = true := stringCaseEqual_iff.mpr rfl
  induction values with
  | nil => rfl
  | cons v values ih =>
    rw [List.map_cons, ← List.singleton_append, linesOf_append, linesOf_singleton, ih, if_pos hself, splitValues,
      if_neg (by rw [hcomma]; exact Bool.false_ne_true)]
    rfl

theorem lookup_dirty (h : Headers) (name : GoogleString) :
    { h with cacheFieldsDirty := true }.lookup name = h.lookup name := rfl

theorem Faithful.lookup_remove (hf : Faithful h) (hle : h.headers.length ≤ kMaxHeaders) (hany : (linesOf h.headers name).any (fun v => stringCaseEqual v value) = true)
    (hrejoins : Rejoins name (valuesWithout (linesOf h.headers name) value)) :
    (h.remove name value).2.lookup name = present (valuesWithout (linesOf h.headers name) value) := by
  have hne : linesOf h.headers name ≠ [] := by
    intro hnil
    rw [hnil, List.any_nil] at hany
    cases hany
  have hself : listed [name] name = true := listed_iff.mpr ⟨name, List.mem_cons_self, rfl⟩
  have hheaders : (h.removeAll name).2.headers = h.headers.filter fun header => !listed [name] header.name :=
    hf.removeAll_headers (sortedNames_single name)
  have hremoved : Faithful (h.removeAll name).2 := hf.removeAll (sortedNames_single name)
  have hnone : linesOf (h.removeAll name).2.headers name = [] := by
    rw [hheaders, linesOf_filter, if_pos hself]
  have hroom : (h.removeAll name).2.headers.length < h.headers.length := by
    rw [hheaders]
    apply List.length_filter_lt_length_iff_exists.mpr
    obtain ⟨header, hheader, heq⟩ : ∃ header ∈ h.headers, stringCaseEqual header.name name = true := by
      by_contra hnever
      push Not at hnever
      exact hne (linesOf_eq_nil_iff.mpr fun header hheader => Bool.eq_false_iff.mpr (hnever header hheader))
    have hlisted : listed [name] header.name = true :=
      listed_iff.mpr ⟨name, List.mem_cons_self, (stringCaseEqual_iff.mp heq).symm⟩
    exact ⟨header, hheader, by rw [hlisted]; exact Bool.false_ne_true⟩
  rw [Headers.remove, hf.lookup, present_of_ne_nil hne]
  dsimp only
  rw [if_pos hany, lookup_dirty]
  change (if isCommaSeparatedField name = true then _ else _ : Headers).lookup name = _
  split
  · next hcomma =>
    split
    · next hnil =>
      have hleft : valuesWithout (linesOf h.headers name) value = [] := by
        apply join_eq_nil _ _ hnil
        rintro v hv rfl
        have hkeep := (List.mem_filter.mp hv).2
        rw [List.isEmpty_nil, Bool.not_true, Bool.and_false] at hkeep
        cases hkeep
      exact (hremoved.lookup name).trans (congrArg present (hnone.trans hleft.symm))
    · next hjoined =>
      have hleft : valuesWithout (linesOf h.headers name) value ≠ [] := fun hnil => hjoined (congrArg _ hnil)
      rw [(Faithful.add hremoved name _).lookup, add_of_room (hroom.trans_le hle), linesOf_append, linesOf_singleton,
        if_pos (stringCaseEqual_iff.mpr rfl)]
      apply congrArg present
      rw [hnone]
      exact splitValues_rejoined hcomma hrejoins hleft
  · next hcomma =>
    have hcomma := Bool.eq_false_iff.mpr hcomma
    have hfit : (h.removeAll name).2.headers.length + (valuesWithout (linesOf h.headers name) value).length ≤
        kMaxHeaders := by
      have hcount := length_linesOf_le hcomma h.headers
      have hfilter : (valuesWithout (linesOf h.headers name) value).length ≤ (linesOf h.headers name).length :=
        List.length_filter_le _ _
      rw [hheaders]
      omega
    have hadded := Faithful.foldl_add hremoved (fun _ => name) id (valuesWithout (linesOf h.headers name) value)
    have hlines := foldl_add_of_room (fun _ => name) id hfit
    refine (hadded.lookup name).trans (congrArg present ?_)
    rw [hlines, linesOf_append, hnone]
    exact linesOf_map name hcomma _

theorem Faithful.lookup_remove_of_none (hf : Faithful h)
    (hnone : (linesOf h.headers name).any (fun v => stringCaseEqual v value) = false) :
    (h.remove name value).2.lookup name = h.lookup name := by
  have hpopulate : h.populateMap.lookup name = h.lookup name := by
    rw [hf.populateMap.lookup, headers_populateMap, hf.lookup]
  unfold Headers.remove
  split
  · exact hpopulate
  · next values hvalues =>
    rw [hf.lookup, present] at hvalues
    split at hvalues
    · cases hvalues
    · rw [← Option.some.inj hvalues, if_neg (by rw [hnone]; exact Bool.false_ne_true)]
      exact hpopulate

/-- Whatever is called, a map that is there is the one that would be built anew, and a value that is removed is
not found any more. -/
theorem map_and_removal {start : Headers} (hnone : start.map = none) {ops : List Op}
    (hops : ∀ op ∈ ops, op.Allowed) :
    (∀ m, (start.run ops).map = some m →
      ∀ name, valuesOf m.vector name = valuesOf (mapOf (start.run ops).headers).vector name) ∧
    ∀ name value values, start.headers.length ≤ kMaxHeaders → values = ((start.run ops).lookup name).getD [] →
      (values.any (fun v => stringCaseEqual v value) = true → Rejoins name (valuesWithout values value) →
        ((start.run ops).remove name value).2.lookup name = present (valuesWithout values value)) ∧
      (values.any (fun v => stringCaseEqual v value) = false →
        ((start.run ops).remove name value).2.lookup name = present values) := by
  have hf := (faithful_of_none hnone).run hops
  constructor
  · intro m hm name
    rw [(hf m hm).2 name, (views_mapOf _).2 name]
  · rintro name value values hle rfl
    rw [hf.lookup, getD_present]
    constructor
    · intro hany hrejoins
      exact hf.lookup_remove (length_run_le hle ops) hany hrejoins
    · intro hnever
      rw [hf.lookup_remove_of_none hnever, hf.lookup]

theorem map_and_removal_vary :
    ((({} : Headers).run [.add (ascii "Vary") (ascii "Cookie, Accept"), .has (ascii "Vary"),
      .add (ascii "vary") (ascii "Host")]).remove (ascii "VARY") (ascii "accept")).2.lookup (ascii "VARY") =
      present (valuesWithout [ascii "Cookie", ascii "Accept", ascii "Host"] (ascii "accept")) :=
  ((@map_and_removal {} rfl _ (by simp [Op.Allowed])).2 (ascii "VARY") (ascii "accept") _ (Nat.zero_le _)
    (by decide)).1 (by decide) fun _ =>
      ⟨by decide, Or.inl (by decide)⟩

/-- An empty value stays when the value to remove is not there, and a line of commas dissolves when it is joined. -/
theorem empty_value_stays :
    (¬ ∀ ops : List Op, (∀ op ∈ ops, op.Allowed) → ∀ name value, ((({} : Headers).run ops).remove name value).2.lookup name =
      present (valuesWithout (((({} : Headers).run ops).lookup name).getD []) value)) ∧
    ¬ ∀ ops : List Op, (∀ op ∈ ops, op.Allowed) → ∀ name value,
      (((({} : Headers).run ops).lookup name).getD []).any (stringCaseEqual · value) = true →
        ((({} : Headers).run ops).remove name value).2.lookup name =
          present (valuesWithout (((({} : Headers).run ops).lookup name).getD []) value) := by
  constructor
  · intro hclaim
    have hempty := hclaim [.add (ascii "X") []] (by simp [Op.Allowed]) (ascii "X") (ascii "a")
    revert hempty
    decide
  · intro hclaim
    have hcommas := hclaim [.add (ascii "Vary") (ascii ","), .add (ascii "Vary") (ascii "a,b")] (by simp [Op.Allowed])
      (ascii "Vary") (ascii "b") (by decide)
    revert hcommas
    decide

end Headers

end PageSpeed
