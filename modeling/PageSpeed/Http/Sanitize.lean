import PageSpeed.Http.HeaderRemoval

/-!
The two ways in which a response loses the headers that are meant for one hop: `Sanitize` removes
them from the header one name at a time, `GetSanitizedProto` gathers their names and removes them
from a copy of the lines.
-/

namespace PageSpeed.Headers

open BinarySearch StringMultiMap

def isHopByHopIndication (val : GoogleString) : Bool :=
  !(val.isEmpty || stringCaseEqual val (ascii "keep-alive") || stringCaseEqual val (ascii "close") ||
    stringCaseStartsWith val (ascii "timeout=") || stringCaseStartsWith val (ascii "max=") ||
    binarySearchNames HttpAttributes.sortedEndToEndHeaders val)

/-- The loop over the values of `Connection`, with whether a header has changed. -/
def sanitizeConnection (values : List GoogleString) (changed : Bool) (h : Headers) : Bool × Headers :=
  values.foldl
    (fun (changed, h) val =>
      if !isHopByHopIndication val then (changed, h)
      else if stringCaseEqual val HttpAttributes.kConnection then (changed, h)
      else ((h.removeAll val).1 || changed, (h.removeAll val).2))
    (changed, h)

def sanitize (h : Headers) : Bool × Headers :=
  let (changed, left) := sanitizeConnection ((h.lookup HttpAttributes.kConnection).getD []) false h.populateMap
  let (removed, left) := left.removeAllFromSortedArray HttpAttributes.sortedHopByHopHeaders
  (removed || changed, left)

/-- The values of a line of `Connection`. -/
def connectionValues (value : GoogleString) : List GoogleString :=
  let split := splitStringPieceToVector value (ascii ",") true
  (if split = [] then [value] else split).map trimWhitespace

def insertName (names : List GoogleString) (val : GoogleString) : List GoogleString :=
  if !isHopByHopIndication val then names
  else
    let up := lowerBound (fun name => stringCompareInsensitive name val) names
    if ((names.drop up).head?.map fun name => stringCaseEqual name val) = some true then names
    else names.take up ++ val :: names.drop up

def moreNames (headers : List NameValue) : List GoogleString :=
  headers.foldl
    (fun names header =>
      if stringCaseEqual header.name HttpAttributes.kConnection then
        (connectionValues header.value).foldl insertName names
      else names)
    []

def getSanitizedProto (h : Headers) : List NameValue :=
  let headers := removeFromHeaders HttpAttributes.sortedHopByHopHeaders h.headers
  if (moreNames h.headers).length > 0 then removeFromHeaders (moreNames h.headers) headers else headers

/-- The names that the lines of `Connection` mark for one hop. -/
def marked (headers : List NameValue) : List GoogleString :=
  (linesOf headers HttpAttributes.kConnection).filter isHopByHopIndication

theorem trimWhitespace_of_split {line : GoogleString} (hnil : splitStringPieceToVector line (ascii ",") true = []) :
    trimWhitespace line = line := by
  have hcommas : ∀ c ∈ line, c = 44 := fun c hc =>
    List.mem_singleton.mp ((splitFrom_eq_nil line 0 0 (Nat.zero_add _).symm (Nat.le_refl 0) hnil).2 c hc)
  have hkeep : ∀ l : GoogleString, (∀ c ∈ l, c = 44) → l.dropWhile isHtmlSpace = l := by
    intro l hl
    cases l with
    | nil => rfl
    | cons c l =>
      rw [hl c List.mem_cons_self]
      rfl
  rw [trimWhitespace, trimLeadingWhitespace, hkeep line hcommas, trimTrailingWhitespace,
    hkeep line.reverse fun c hc => hcommas c (List.mem_reverse.mp hc), List.reverse_reverse]

variable {name : GoogleString} {names : List GoogleString}

theorem connectionValues_eq (hname : stringCaseEqual name HttpAttributes.kConnection = true)
    (value : GoogleString) : connectionValues value = splitValues name value := by
  rw [connectionValues, splitValues, if_pos ((isCommaSeparatedField_congr hname).trans (by decide))]
  dsimp only
  split
  · next hnil => rw [List.map_singleton, trimWhitespace_of_split hnil]
  · rfl

theorem moreNames_eq (headers : List NameValue) :
    moreNames headers = (linesOf headers HttpAttributes.kConnection).foldl insertName [] := by
  have hfold : ∀ names, headers.foldl
      (fun names header =>
        if stringCaseEqual header.name HttpAttributes.kConnection then
          (connectionValues header.value).foldl insertName names
        else names) names = (linesOf headers HttpAttributes.kConnection).foldl insertName names := by
    induction headers with
    | nil => exact fun names => rfl
    | cons header headers ih =>
      intro names
      rw [List.foldl_cons, ih, linesOf, linesOf, List.flatMap_cons, List.foldl_append]
      split
      · next hname => rw [connectionValues_eq hname]
      · rfl
  exact hfold []

theorem listed_cons (name : GoogleString) (names : List GoogleString) (other : GoogleString) :
    listed (name :: names) other = (stringCaseEqual name other || listed names other) := rfl

theorem listed_append (names others : List GoogleString) (name : GoogleString) :
    listed (names ++ others) name = (listed names name || listed others name) := List.any_append

theorem removeFromHeaders_eq (h : SortedNames names) (headers : List NameValue) :
    removeFromHeaders names headers = headers.filter fun header => !listed names header.name := by
  rw [removeFromHeaders, h.binarySearch_eq]

theorem sorted_insertName (h : SortedNames names) (val : GoogleString) : SortedNames (insertName names val) := by
  unfold insertName
  dsimp only
  split
  · exact h
  · split
    · exact h
    · exact Sorted.insert_lowerBound h fun name => decide_eq_true_iff

theorem listed_insertName (names : List GoogleString) (val name : GoogleString) :
    listed (insertName names val) name = (listed names name || isHopByHopIndication val && stringCaseEqual val name) := by
  unfold insertName
  cases hval : isHopByHopIndication val with
  | false => rw [Bool.false_and, Bool.or_false]; rfl
  | true =>
    rw [Bool.true_and]
    dsimp only
    generalize lowerBound (fun name => stringCompareInsensitive name val) names = up
    rw [if_neg (by decide)]
    split
    · next hthere =>
      obtain ⟨there, hhead, heq⟩ := Option.map_eq_some_iff.mp hthere
      have hmem : there ∈ names := List.mem_of_mem_drop (List.mem_of_mem_head? hhead)
      cases hname : stringCaseEqual val name with
      | false => rw [Bool.or_false]
      | true =>
        rw [Bool.or_true]
        exact listed_iff.mpr ⟨there, hmem, (stringCaseEqual_iff.mp heq).trans (stringCaseEqual_iff.mp hname)⟩
    · have hcut : listed names name = (listed (names.take up) name || listed (names.drop up) name) := by
        rw [← listed_append, List.take_append_drop]
      rw [listed_append, listed_cons, hcut, Bool.or_left_comm, Bool.or_comm]

theorem foldl_insertName (vals : List GoogleString) (h : SortedNames names) :
    SortedNames (vals.foldl insertName names) ∧
      ∀ name, listed (vals.foldl insertName names) name =
        (listed names name || listed (vals.filter isHopByHopIndication) name) := by
  induction vals generalizing names with
  | nil => exact ⟨h, fun name => (Bool.or_false _).symm⟩
  | cons val vals ih =>
    obtain ⟨hsorted, hlisted⟩ := ih (sorted_insertName h val)
    constructor
    · exact hsorted
    · intro name
      rw [List.foldl_cons, hlisted name, listed_insertName, List.filter_cons, Bool.or_assoc]
      split
      · next hval => rw [hval, Bool.true_and, listed_cons]
      · next hval => rw [Bool.eq_false_iff.mpr hval, Bool.false_and, Bool.false_or]

theorem getSanitizedProto_eq (h : Headers) :
    getSanitizedProto h = h.headers.filter fun header =>
      !listed (marked h.headers) header.name && !listed HttpAttributes.sortedHopByHopHeaders header.name := by
  have hnil : SortedNames [] := List.Pairwise.nil
  obtain ⟨hsorted, hlisted⟩ := foldl_insertName (linesOf h.headers HttpAttributes.kConnection) hnil
  rw [← moreNames_eq] at hsorted hlisted
  have hmore : listed (moreNames h.headers) = listed (marked h.headers) := by
    funext name
    exact (hlisted name).trans (Bool.false_or _)
  unfold getSanitizedProto
  dsimp only
  rw [removeFromHeaders_eq HttpAttributes.sorted_hopByHop]
  split
  · rw [removeFromHeaders_eq hsorted, List.filter_filter, hmore]
  · next hempty =>
    have hnone : moreNames h.headers = [] := List.length_eq_zero_iff.mp (by omega)
    rw [hnone] at hmore
    rw [← hmore]
    rfl

theorem sanitizeConnection_headers (values : List GoogleString) (changed : Bool) {h : Headers} (hf : Faithful h) :
    Faithful (sanitizeConnection values changed h).2 ∧
      (sanitizeConnection values changed h).2.headers = h.headers.filter fun header =>
        !listed (values.filter fun val => isHopByHopIndication val && !stringCaseEqual val HttpAttributes.kConnection)
          header.name := by
  induction values generalizing changed h with
  | nil =>
    constructor
    · exact hf
    · exact (List.filter_eq_self.mpr fun _ _ => rfl).symm
  | cons val values ih =>
    rw [sanitizeConnection, List.foldl_cons, ← sanitizeConnection, List.filter_cons]
    cases hval : isHopByHopIndication val with
    | false => exact ih changed hf
    | true =>
      cases hconn : stringCaseEqual val HttpAttributes.kConnection with
      | true => exact ih changed hf
      | false =>
        obtain ⟨hleft, hheaders⟩ := ih ((h.removeAll val).1 || changed) (hf.removeAll (sortedNames_single val))
        constructor
        · exact hleft
        · refine hheaders.trans ?_
          rw [hf.removeAll_headers (sortedNames_single val), List.filter_filter]
          apply List.filter_congr
          intro header _
          simp only [Bool.not_false, Bool.and_true, if_true]
          rw [listed_single, listed_cons, Bool.not_or, Bool.and_comm]

theorem listed_hopByHop_connection (h : stringCaseEqual HttpAttributes.kConnection name = true) :
    listed HttpAttributes.sortedHopByHopHeaders name = true :=
  listed_iff.mpr ⟨HttpAttributes.kConnection, by decide, stringCaseEqual_iff.mp h⟩

theorem listed_filter_connection (values : List GoogleString)
    (hname : listed HttpAttributes.sortedHopByHopHeaders name = false) :
    listed (values.filter fun val => isHopByHopIndication val && !stringCaseEqual val HttpAttributes.kConnection) name =
      listed (values.filter isHopByHopIndication) name := by
  induction values with
  | nil => rfl
  | cons val values ih =>
    rw [List.filter_cons, List.filter_cons]
    cases hval : isHopByHopIndication val with
    | false => exact ih
    | true =>
      cases hconn : stringCaseEqual val HttpAttributes.kConnection with
      | false => exact congrArg (stringCaseEqual val name || ·) ih
      | true =>
        have hother : stringCaseEqual val name = false := by
          apply Bool.eq_false_iff.mpr
          intro heq
          rw [← listed_congr _ (stringCaseEqual_iff.mp heq),
            listed_congr _ (stringCaseEqual_iff.mp hconn), listed_hopByHop_connection (stringCaseEqual_iff.mpr rfl)] at hname
          cases hname
        simp only [Bool.not_true, Bool.and_false, Bool.false_eq_true, if_false, if_true]
        rw [ih, listed_cons, hother, Bool.false_or]

theorem Faithful.sanitize_headers {h : Headers} (hf : Faithful h) :
    h.sanitize.2.headers = h.headers.filter fun header =>
      !listed (marked h.headers) header.name && !listed HttpAttributes.sortedHopByHopHeaders header.name := by
  have hvalues : (h.lookup HttpAttributes.kConnection).getD [] = linesOf h.headers HttpAttributes.kConnection := by
    rw [hf.lookup, getD_present]
  obtain ⟨hleft, hheaders⟩ := sanitizeConnection_headers (linesOf h.headers HttpAttributes.kConnection) false
    hf.populateMap
  have hlast := hleft.removeAll_headers HttpAttributes.sorted_hopByHop
  rw [headers_populateMap] at hheaders
  unfold Headers.sanitize
  dsimp only
  rw [hvalues, hlast, hheaders, List.filter_filter]
  apply List.filter_congr
  intro header _
  cases hhop : listed HttpAttributes.sortedHopByHopHeaders header.name with
  | true => rw [Bool.not_true, Bool.false_and, Bool.and_false]
  | false => rw [listed_filter_connection _ hhop, Bool.not_false, Bool.true_and, Bool.and_true, marked]

/-- Whatever was called before, the two sanitizers leave the same lines. -/
theorem sanitizers_agree {start : Headers} (hnone : start.map = none) {ops : List Op} (hops : ∀ op ∈ ops, op.Allowed) :
    (start.run ops).sanitize.2.headers = getSanitizedProto (start.run ops) := by
  rw [((faithful_of_none hnone).run hops).sanitize_headers, getSanitizedProto_eq]

theorem sanitizers_agree_upgrade :
    (({} : Headers).run [.add (ascii "Connection") (ascii "x-hop , connection,,Vary"), .has (ascii "Vary"),
      .add (ascii "X-Hop") [], .add (ascii "Vary") (ascii "Accept")]).sanitize.2.headers =
      getSanitizedProto (({} : Headers).run [.add (ascii "Connection") (ascii "x-hop , connection,,Vary"),
        .has (ascii "Vary"), .add (ascii "X-Hop") [], .add (ascii "Vary") (ascii "Accept")]) :=
  @sanitizers_agree {} rfl _ (by simp [Op.Allowed])

variable {h : Headers}

theorem Faithful.sanitize (hf : Faithful h) : Faithful h.sanitize.2 := by
  unfold Headers.sanitize
  exact (sanitizeConnection_headers _ false hf.populateMap).1.removeAll HttpAttributes.sorted_hopByHop

theorem Faithful.sanitize_clean (hf : Faithful h) (hclean : ∀ header ∈ h.headers,
    listed HttpAttributes.sortedHopByHopHeaders header.name = false) :
    h.sanitize.1 = false ∧ h.sanitize.2.headers = h.headers := by
  have hlines : linesOf h.headers HttpAttributes.kConnection = [] := by
    unfold linesOf
    apply List.flatMap_eq_nil_iff.mpr
    intro header hheader
    apply if_neg
    intro hname
    have hhop := listed_hopByHop_connection (stringCaseEqual_iff.mpr (stringCaseEqual_iff.mp hname).symm)
    rw [hclean header hheader] at hhop
    cases hhop
  constructor
  · have hnone : ¬ (h.populateMap.removeAllFromSortedArray HttpAttributes.sortedHopByHopHeaders).1 = true := by
      rw [hf.populateMap.removeAll_fst, headers_populateMap]
      rintro ⟨header, hheader, hhop⟩
      rw [hclean header hheader] at hhop
      cases hhop
    unfold Headers.sanitize
    rw [hf.lookup, getD_present, hlines]
    exact (Bool.or_false _).trans (Bool.eq_false_iff.mpr hnone)
  · rw [hf.sanitize_headers, marked, hlines]
    apply List.filter_eq_self.mpr
    intro header hheader
    rw [hclean header hheader]
    rfl

/-- After `Sanitize` there is nothing left for it to do. -/
theorem sanitize_sanitize {start : Headers} (hnone : start.map = none) {ops : List Op} (hops : ∀ op ∈ ops, op.Allowed) :
    (start.run ops).sanitize.2.sanitize.1 = false ∧
      (start.run ops).sanitize.2.sanitize.2.headers = (start.run ops).sanitize.2.headers := by
  have hf := (faithful_of_none hnone).run hops
  apply hf.sanitize.sanitize_clean
  intro header hheader
  rw [hf.sanitize_headers] at hheader
  exact (Bool.not_eq_true' _).mp (Bool.and_eq_true_iff.mp (List.mem_filter.mp hheader).2).2

theorem sanitize_sanitize_kept :
    (({} : Headers).run [.add (ascii "Connection") (ascii "Upgrade"), .add (ascii "Vary") []]).sanitize.2.sanitize.1 = false :=
  (@sanitize_sanitize {} rfl _ (by simp [Op.Allowed])).1

end PageSpeed.Headers
