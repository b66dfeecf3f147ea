import PageSpeed.Http.Headers

/-!
The map of a header is a view of its lines. Each operation is described by what it leaves of the
lines, and keeps the map the one that would be built from them.
-/

namespace PageSpeed.Headers

open StringMultiMap

def linesOf (headers : List NameValue) (name : GoogleString) : List GoogleString :=
  headers.flatMap fun header => if stringCaseEqual header.name name then splitValues header.name header.value else []

def Views (m : StringMultiMap) (headers : List NameValue) : Prop :=
  m.Agrees ∧ ∀ name, valuesOf m.vector name = linesOf headers name

def Faithful (h : Headers) : Prop := ∀ m, h.map = some m → Views m h.headers

theorem splitValues_ne_nil (name value : GoogleString) : splitValues name value ≠ [] := by
  unfold splitValues
  split_ifs
  · dsimp only
    split_ifs with hnil
    · exact List.cons_ne_nil _ _
    · exact fun hmap => hnil (List.map_eq_nil_iff.mp hmap)
  · exact List.cons_ne_nil _ _

theorem linesOf_append (headers others : List NameValue) (name : GoogleString) :
    linesOf (headers ++ others) name = linesOf headers name ++ linesOf others name := List.flatMap_append

theorem linesOf_singleton (header : NameValue) (name : GoogleString) :
    linesOf [header] name = if stringCaseEqual header.name name then splitValues header.name header.value else [] :=
  List.flatMap_singleton _ _

theorem linesOf_eq_nil_iff {headers : List NameValue} {name : GoogleString} :
    linesOf headers name = [] ↔ ∀ header ∈ headers, stringCaseEqual header.name name = false := by
  rw [linesOf, List.flatMap_eq_nil_iff]
  apply forall₂_congr
  intro header _
  split_ifs with h
  · simp [splitValues_ne_nil, h]
  · simp [h]

theorem foldl_add {m : StringMultiMap} (h : m.Agrees) (key : GoogleString) (values : List GoogleString) :
    (values.foldl (fun m value => m.add key value) m).Agrees ∧
      ∀ name, valuesOf (values.foldl (fun m value => m.add key value) m).vector name =
        valuesOf m.vector name ++ if stringCaseEqual key name then values else [] := by
  induction values generalizing m with
  | nil =>
    constructor
    · exact h
    · intro name
      rw [List.foldl_nil, ite_self, List.append_nil]
  | cons value values ih =>
    obtain ⟨hagrees, hvalues⟩ := ih (h.add key value)
    constructor
    · exact hagrees
    · intro name
      rw [List.foldl_cons, hvalues name, valuesOf_add, List.append_assoc]
      split_ifs <;> rfl

theorem Views.addToMap {m : StringMultiMap} {headers : List NameValue} (h : Views m headers) (header : NameValue) :
    Views (addToMap m header) (headers ++ [header]) := by
  obtain ⟨hagrees, hvalues⟩ := foldl_add h.1 header.name (splitValues header.name header.value)
  constructor
  · exact hagrees
  · intro name
    rw [linesOf_append, linesOf_singleton, ← h.2 name]
    exact hvalues name

theorem views_mapOf (headers : List NameValue) : Views (mapOf headers) headers := by
  have hfold : ∀ (rest before : List NameValue) (m : StringMultiMap), Views m before →
      Views (rest.foldl Headers.addToMap m) (before ++ rest) := by
    intro rest
    induction rest with
    | nil =>
      intro before m h
      rw [List.append_nil]
      exact h
    | cons header rest ih =>
      intro before m h
      rw [← List.singleton_append, ← List.append_assoc]
      exact ih (before ++ [header]) _ (h.addToMap header)
  exact hfold headers [] {} ⟨agrees_empty, fun _ => rfl⟩

theorem headers_populateMap (h : Headers) : h.populateMap.headers = h.headers := by
  unfold populateMap
  split <;> rfl

theorem linesOf_filter (headers : List NameValue) (names : List GoogleString) (name : GoogleString) :
    linesOf (headers.filter fun header => !listed names header.name) name =
      if listed names name then [] else linesOf headers name := by
  induction headers with
  | nil => exact (ite_self _).symm
  | cons header headers ih =>
    rw [List.filter_cons]
    by_cases heq : stringCaseEqual header.name name = true
    · rw [listed_congr names (stringCaseEqual_iff.mp heq)]
      cases hlisted : listed names name with
      | true =>
        rw [hlisted, if_pos rfl] at ih
        exact ih
      | false =>
        rw [hlisted, if_neg Bool.false_ne_true] at ih
        exact congrArg (_ ++ ·) ih
    · have hskip : linesOf (header :: headers) name = linesOf headers name := by
        rw [linesOf, List.flatMap_cons, if_neg heq]
        rfl
      rw [hskip, ← ih]
      split_ifs
      · rw [linesOf, List.flatMap_cons, if_neg heq]
        rfl
      · rfl

section Operations

variable {h : Headers} (hf : Faithful h)
include hf

theorem Faithful.theMap : Views h.theMap h.headers := by
  unfold Headers.theMap
  cases hmap : h.map with
  | none => exact views_mapOf h.headers
  | some m => exact hf m hmap

theorem Faithful.lookup (name : GoogleString) : h.lookup name = present (linesOf h.headers name) := by
  rw [Headers.lookup, hf.theMap.1 name, hf.theMap.2 name]

theorem Faithful.populateMap : Faithful h.populateMap := by
  unfold Headers.populateMap
  split
  · exact hf
  · rintro m hm
    cases hm
    exact views_mapOf h.headers

theorem Faithful.add (name value : GoogleString) : Faithful (h.add name value) := by
  unfold Headers.add
  split
  · exact hf
  · intro m hm
    obtain ⟨m', hm', rfl⟩ := Option.map_eq_some_iff.mp hm
    exact (hf m' hm').addToMap _

theorem Faithful.removeAll_fst (names : List GoogleString) :
    (h.removeAllFromSortedArray names).1 = true ↔ ∃ header ∈ h.headers, listed names header.name = true := by
  have hfst : (h.removeAllFromSortedArray names).1 = (h.theMap.removeAllFromSortedArray names).1 := by
    unfold Headers.removeAllFromSortedArray
    dsimp only
    split <;> simp_all
  rw [hfst, StringMultiMap.removeAll_fst hf.theMap.1]
  constructor
  · rintro ⟨n, hn, hvalues⟩
    rw [hf.theMap.2 n] at hvalues
    obtain ⟨header, hheader, heq⟩ : ∃ header ∈ h.headers, stringCaseEqual header.name n = true := by
      by_contra hnone
      push Not at hnone
      exact hvalues (linesOf_eq_nil_iff.mpr fun header hheader => Bool.eq_false_iff.mpr (hnone header hheader))
    exact ⟨header, hheader, listed_iff.mpr ⟨n, hn, (stringCaseEqual_iff.mp heq).symm⟩⟩
  · rintro ⟨header, hheader, hlisted⟩
    obtain ⟨n, hn, hkey⟩ := listed_iff.mp hlisted
    refine ⟨n, hn, fun hnil => ?_⟩
    rw [hf.theMap.2 n] at hnil
    exact absurd (stringCaseEqual_iff.mpr hkey.symm) (Bool.eq_false_iff.mp (linesOf_eq_nil_iff.mp hnil header hheader))

variable {names : List GoogleString} (hsorted : SortedNames names)
include hsorted

theorem Faithful.removeAll_headers :
    (h.removeAllFromSortedArray names).2.headers = h.headers.filter fun header => !listed names header.name := by
  have hfst := hf.removeAll_fst names
  unfold Headers.removeAllFromSortedArray at hfst ⊢
  dsimp only at hfst ⊢
  split
  · rw [removeFromHeaders, hsorted.binarySearch_eq]
  · next hnone =>
    rw [if_neg hnone] at hfst
    rw [headers_populateMap]
    symm
    apply List.filter_eq_self.mpr
    intro header hheader
    rw [Bool.not_eq_true']
    apply Bool.eq_false_iff.mpr
    intro hlisted
    exact absurd (hfst.mpr ⟨header, hheader, hlisted⟩) Bool.false_ne_true

theorem Faithful.removeAll : Faithful (h.removeAllFromSortedArray names).2 := by
  have hheaders := hf.removeAll_headers hsorted
  intro m hm
  have hmap : m = (h.theMap.removeAllFromSortedArray names).2 := by
    unfold Headers.removeAllFromSortedArray at hm
    dsimp only at hm
    split at hm
    · exact (Option.some.inj hm).symm
    · exact (Option.some.inj hm).symm
  rw [hheaders, hmap]
  constructor
  · exact hf.theMap.1.removeAll hsorted
  · intro name
    rw [valuesOf_removeAll hf.theMap.1 hsorted, hf.theMap.2, linesOf_filter]

end Operations

theorem faithful_of_none {h : Headers} (hnone : h.map = none) : Faithful h := fun m hm => by
  rw [hnone] at hm
  cases hm

theorem sortedNames_single (name : GoogleString) : SortedNames [name] := List.pairwise_singleton _ _

theorem sortedNames_sortNames (names : List GoogleString) : SortedNames (sortNames names) := by
  have hle : ∀ a b, (!stringCompareInsensitive b a) = true ↔ caseKey a ≤ caseKey b := by
    intro a b
    rw [Bool.not_eq_true', stringCompareInsensitive, decide_eq_false_iff_not]
    exact not_lt
  have hsorted := @List.pairwise_mergeSort _ (fun a b => !stringCompareInsensitive b a)
    (fun a b c hab hbc => (hle a c).mpr (((hle a b).mp hab).trans ((hle b c).mp hbc)))
    (fun a b => by
      rw [Bool.or_eq_true, hle, hle]
      exact le_total _ _) names
  exact hsorted.imp fun hab => (hle _ _).mp hab

theorem Faithful.foldl_add {α : Type} {h : Headers} (hf : Faithful h) (name value : α → GoogleString) (l : List α) :
    Faithful (l.foldl (fun h a => h.add (name a) (value a)) h) := by
  induction l generalizing h with
  | nil => exact hf
  | cons a l ih => exact ih (hf.add (name a) (value a))

theorem Faithful.replace {h : Headers} (hf : Faithful h) (name value : GoogleString) : Faithful (h.replace name value) :=
  (hf.removeAll (sortedNames_single name)).add name value

theorem Faithful.updateFrom {h : Headers} (hf : Faithful h) (other : Headers) : Faithful (h.updateFrom other) :=
  (hf.removeAll (sortedNames_sortNames _)).foldl_add NameValue.name NameValue.value other.headers

theorem Faithful.remove {h : Headers} (hf : Faithful h) (name value : GoogleString) :
    Faithful (h.remove name value).2 := by
  have hremoved := hf.removeAll (sortedNames_single name)
  unfold Headers.remove
  split
  · exact hf.populateMap
  · split
    · dsimp only
      split
      · split
        · exact hremoved
        · exact hremoved.add name _
      · exact hremoved.foldl_add (fun _ => name) id _
    · exact hf.populateMap

theorem Faithful.removeAllWithPrefix {h : Headers} (hf : Faithful h) (start : GoogleString) :
    Faithful (h.removeAllWithPrefix start).2 := by
  unfold Headers.removeAllWithPrefix
  dsimp only
  split
  · exact faithful_of_none rfl
  · exact hf

theorem keepLoop_unchanged (keep : Headers) (headers : List NameValue) (bags : List (GoogleString × List GoogleString))
    (h : (keepLoop keep headers bags).2 = false) : (keepLoop keep headers bags).1 = headers := by
  induction headers generalizing bags with
  | nil => rfl
  | cons header rest ih =>
    rw [keepLoop] at h ⊢
    dsimp only at h ⊢
    split at h
    · cases h
    · split at h
      · cases h
      · next hkept hwhole =>
        rw [if_neg hkept, if_neg hwhole]
        exact congrArg (header :: ·) (ih _ h)

theorem Faithful.removeIfNotIn {h : Headers} (hf : Faithful h) (keep : Headers) :
    Faithful (h.removeIfNotIn keep).2 := by
  have hsame := keepLoop_unchanged keep h.headers []
  unfold Headers.removeIfNotIn
  dsimp only
  split
  · exact faithful_of_none rfl
  · next hchanged =>
    rw [hsame (Bool.eq_false_iff.mpr hchanged)]
    exact hf

theorem Faithful.removeCookie {h : Headers} (hf : Faithful h) (cookieName : GoogleString) :
    Faithful (h.removeCookie cookieName) := by
  unfold Headers.removeCookie
  split
  · exact hf.populateMap
  · dsimp only
    split
    · have hremoved : Faithful ({ h with cookies := false }.removeAll HttpAttributes.kCookie).2 :=
        Faithful.removeAll (h := { h with cookies := false }) hf (sortedNames_single _)
      exact hremoved.foldl_add (fun _ => HttpAttributes.kCookie) id _
    · exact hf.populateMap

theorem Faithful.populateCookieMap {h : Headers} (hf : Faithful h) : Faithful h.populateCookieMap := by
  unfold Headers.populateCookieMap
  split
  · exact hf
  · exact hf.populateMap

inductive Op
  | add (name value : GoogleString)
  | remove (name value : GoogleString)
  | removeAll (name : GoogleString)
  | removeAllFromSortedArray (names : List GoogleString)
  | removeAllWithPrefix (start : GoogleString)
  | removeIfNotIn (keep : Headers)
  | replace (name value : GoogleString)
  | updateFrom (other : Headers)
  | removeCookie (cookieName : GoogleString)
  | setValue (i : ℕ) (value : GoogleString)
  | lookup (name : GoogleString)
  | has (name : GoogleString)
  | hasCookie (name : GoogleString)

def Op.Allowed : Op → Prop
  | .removeAllFromSortedArray names => SortedNames names
  | _ => True

def apply (h : Headers) : Op → Headers
  | .add name value => h.add name value
  | .remove name value => (h.remove name value).2
  | .removeAll name => (h.removeAll name).2
  | .removeAllFromSortedArray names => (h.removeAllFromSortedArray names).2
  | .removeAllWithPrefix start => (h.removeAllWithPrefix start).2
  | .removeIfNotIn keep => (h.removeIfNotIn keep).2
  | .replace name value => h.replace name value
  | .updateFrom other => h.updateFrom other
  | .removeCookie cookieName => h.removeCookie cookieName
  | .setValue i value => h.setValue i value
  | .lookup _ => h.populateMap
  | .has _ => h.populateMap
  | .hasCookie _ => h.populateCookieMap

def run (h : Headers) (ops : List Op) : Headers := ops.foldl apply h

theorem Faithful.apply {h : Headers} (hf : Faithful h) {op : Op} (hop : op.Allowed) : Faithful (h.apply op) := by
  cases op with
  | add name value => exact hf.add name value
  | remove name value => exact hf.remove name value
  | removeAll name => exact hf.removeAll (sortedNames_single name)
  | removeAllFromSortedArray names => exact hf.removeAll hop
  | removeAllWithPrefix start => exact hf.removeAllWithPrefix start
  | removeIfNotIn keep => exact hf.removeIfNotIn keep
  | replace name value => exact hf.replace name value
  | updateFrom other => exact hf.updateFrom other
  | removeCookie cookieName => exact hf.removeCookie cookieName
  | setValue i value => exact faithful_of_none rfl
  | lookup name => exact hf.populateMap
  | has name => exact hf.populateMap
  | hasCookie name => exact hf.populateCookieMap

theorem Faithful.run {h : Headers} (hf : Faithful h) {ops : List Op} (hops : ∀ op ∈ ops, op.Allowed) :
    Faithful (h.run ops) := by
  induction ops generalizing h with
  | nil => exact hf
  | cons op ops ih =>
    exact ih (hf.apply (hops op List.mem_cons_self)) fun op' hop' => hops op' (List.mem_cons_of_mem op hop')

end PageSpeed.Headers
