import PageSpeed.Http.HeaderRemoval
import PageSpeed.Lib.Licences
import Mathlib.Data.List.Flatten

/-!
What `RemoveIfNotIn` leaves of a name, against the intersection of two bags of values. Each spelling of a name
has a bag of its own, and the values that a line is left with are read back from the line.
-/

namespace PageSpeed.Headers

open Licences StringMultiMap

def pairs (headers : List NameValue) : List (GoogleString × GoogleString) :=
  headers.flatMap fun header => (splitValues header.name header.value).map (Prod.mk header.name)

def spelled (headers : List NameValue) (name : GoogleString) : List (GoogleString × GoogleString) :=
  headers.flatMap fun header =>
    if stringCaseEqual header.name name then (splitValues header.name header.value).map (Prod.mk header.name) else []

/-- The values of a line that are left when each spelling of the name has all that `keep` has. -/
def licensed (keep : Headers) (before : List NameValue) (header : NameValue) : List GoogleString :=
  taken (rest (linesOf keep.headers header.name) (itemsOf header.name (pairs before)))
    (splitValues header.name header.value)

def LosesEmpty (values kept : List GoogleString) : Prop :=
  kept.length < values.length ∧ 1 < kept.length ∧ kept.head? = some []

instance (values kept : List GoogleString) : Decidable (LosesEmpty values kept) :=
  inferInstanceAs (Decidable (_ ∧ _ ∧ _))

def readBack (values kept : List GoogleString) : List GoogleString := if LosesEmpty values kept then kept.tail else kept

/-- A line that can be rewritten: its pieces are counted in an `int`. -/
def Fits (header : NameValue) : Prop :=
  isCommaSeparatedField header.name = true → header.value.length < 2 ^ 31 ∧
    (joinCollection (splitValues header.name header.value) (ascii ", ")).length < 2 ^ 31

/-- No value that is kept stands under two spellings of its name more often than `keep` has it. -/
def OneSpelling (h keep : Headers) : Prop := ∀ name, OneKey (spelled h.headers name) (linesOf keep.headers name)

def NoEmptyLost (h keep : Headers) : Prop :=
  ∀ before header after, h.headers = before ++ header :: after →
    ¬ LosesEmpty (splitValues header.name header.value) (licensed keep before header)

def values (h : Headers) (name : GoogleString) : List GoogleString := (h.lookup name).getD []

/-- Each value that `keep` has lets one such value of the name stay, from the front on. -/
def Intersects (h keep : Headers) : Prop :=
  ∀ name, (h.removeIfNotIn keep).2.values name = taken (keep.values name) (h.values name)

def Reached (h : Headers) : Prop :=
  ∃ (start : Headers) (ops : List Op), start.map = none ∧ (∀ op ∈ ops, op.Allowed) ∧ h = start.run ops

variable {name : GoogleString}

theorem linesOf_congr (headers : List NameValue) {name' : GoogleString} (h : stringCaseEqual name name' = true) :
    linesOf headers name = linesOf headers name' := by
  rw [linesOf, linesOf]
  congr 1
  funext header
  have hsame : stringCaseEqual header.name name = stringCaseEqual header.name name' := by
    rw [Bool.eq_iff_iff, stringCaseEqual_iff, stringCaseEqual_iff, stringCaseEqual_iff.mp h]
  rw [hsame]

theorem map_snd_spelled (headers : List NameValue) (name : GoogleString) :
    (spelled headers name).map Prod.snd = linesOf headers name := by
  rw [spelled, linesOf, List.map_flatMap]
  congr 1
  funext header
  split_ifs
  · rw [List.map_map]
    exact List.map_id _
  · rfl

theorem name_of_mem_spelled {headers : List NameValue} {item : GoogleString × GoogleString}
    (h : item ∈ spelled headers name) : stringCaseEqual item.1 name = true := by
  obtain ⟨header, -, hitem⟩ := List.mem_flatMap.mp h
  split_ifs at hitem with heq
  · obtain ⟨value, -, rfl⟩ := List.mem_map.mp hitem
    exact heq
  · cases hitem

theorem length_join_le_of_sublist {parts parts' : List GoogleString} (h : parts.Sublist parts')
    (separator : GoogleString) :
    (joinCollection parts separator).length ≤ (joinCollection parts' separator).length := by
  have hflat : ∀ {l : List GoogleString}, l ≠ [] →
      joinCollection l separator ++ separator = l.flatMap (· ++ separator) := by
    intro l hne
    induction l with
    | nil => exact absurd rfl hne
    | cons w l ih =>
      cases l with
      | nil => rw [joinCollection, List.intercalate_singleton, List.flatMap_singleton]
      | cons w' l =>
        rw [List.flatMap_cons, ← ih (List.cons_ne_nil _ _), joinCollection, List.intercalate_cons_cons]
        simp [joinCollection]
  by_cases hparts : parts = []
  · rw [hparts]
    exact Nat.zero_le _
  · have hparts' : parts' ≠ [] := fun hnil => hparts (List.eq_nil_of_sublist_nil (hnil ▸ h))
    have hle := (h.flatMap (· ++ separator)).length_le
    rw [← hflat hparts, ← hflat hparts', List.length_append, List.length_append] at hle
    omega

theorem splitValues_of_many {value : GoogleString} (hmany : 1 < (splitValues name value).length) :
    isCommaSeparatedField name = true ∧
      splitValues name value = (splitStringPieceToVector value (ascii ",") true).map trimWhitespace := by
  rw [splitValues] at hmany ⊢
  split_ifs at hmany ⊢ with hcomma
  · dsimp only at hmany ⊢
    split_ifs at hmany ⊢ with hnil
    · exact absurd hmany (by simp)
    · exact ⟨hcomma, rfl⟩
  · exact absurd hmany (by simp)

theorem splitValues_kept {header : NameValue} (hfits : Fits header) {kept : List GoogleString}
    (hsub : kept.Sublist (splitValues header.name header.value)) (hne : kept ≠ [])
    (hlt : kept.length < (splitValues header.name header.value).length) :
    splitValues header.name (joinCollection kept (ascii ", ")) =
      readBack (splitValues header.name header.value) kept := by
  have hpos := List.length_pos_iff.mpr hne
  obtain ⟨hcomma, hvalues⟩ := splitValues_of_many (Nat.lt_of_le_of_lt hpos hlt)
  have hgood : ∀ w ∈ kept, 44 ∉ w ∧ trimWhitespace w = w := by
    intro w hw
    have hmem := hsub.subset hw
    rw [hvalues] at hmem
    obtain ⟨piece, hpiece, rfl⟩ := List.mem_map.mp hmem
    have hfree := split_free 44 true (Nat.lt_trans (hfits hcomma).1 (by decide)) piece hpiece
    refine ⟨fun hin => hfree ?_, trimWhitespace_trim piece⟩
    exact (List.dropWhile_sublist _).subset ((List.rdropWhile_prefix isHtmlSpace _).subset hin)
  have hlength := Nat.lt_of_le_of_lt (length_join_le_of_sublist hsub (ascii ", ")) (hfits hcomma).2
  obtain ⟨v, vs, rfl⟩ := List.exists_cons_of_ne_nil hne
  rw [splitValues_join_trimmed hcomma hlength hgood, readBack]
  have hiff : LosesEmpty (splitValues header.name header.value) (v :: vs) ↔ v = [] ∧ vs ≠ [] := by
    rw [LosesEmpty, List.head?_cons, Option.some.injEq, List.length_cons, ← List.length_pos_iff]
    constructor
    · rintro ⟨-, hlong, hv⟩
      exact ⟨hv, by omega⟩
    · rintro ⟨hv, hlong⟩
      exact ⟨hlt, by omega, hv⟩
  by_cases hlost : v = [] ∧ vs ≠ []
  · rw [if_pos hlost, if_pos (hiff.mpr hlost), List.tail_cons]
  · rw [if_neg hlost, if_neg (mt hiff.mp hlost)]

theorem erase_eq (bag : List GoogleString) (value : GoogleString) :
    @List.erase _ List.instBEq bag value = @List.erase _ instBEqOfDecidableEq bag value :=
  congrArg (fun beq => @List.erase _ beq bag value) (lawful_beq_subsingleton _ _)

theorem takeFromBag_eq (values bag : List GoogleString) :
    takeFromBag values bag = (taken bag values, rest bag values) := by
  induction values generalizing bag with
  | nil => rw [takeFromBag, taken_nil, rest_nil]
  | cons value values ih =>
    rw [takeFromBag, rest_cons]
    split_ifs with hmem
    · rw [ih, taken_cons_of_mem hmem, erase_eq]
    · rw [ih, taken_cons_of_not_mem hmem, ← erase_eq, List.erase_of_not_mem hmem]

theorem append_eq_iff_of_sublist {α : Type} {a a' b b' : List α} (ha : a'.Sublist a) (hb : b'.Sublist b) :
    a' ++ b' = a ++ b ↔ a' = a ∧ b' = b := by
  constructor
  · intro heq
    have hlength := congrArg List.length heq
    have hla := ha.length_le
    have hlb := hb.length_le
    rw [List.length_append, List.length_append] at hlength
    exact ⟨ha.eq_of_length (by omega), hb.eq_of_length (by omega)⟩
  · rintro ⟨rfl, rfl⟩
    rfl

section Loop

variable (keep : Headers)

/-- The bag of a spelling: what is left of it, or all that `keep` has. -/
def bagOf (bags : List (GoogleString × List GoogleString)) (spelling : GoogleString) : List GoogleString :=
  (bags.lookup spelling).getD ((keep.lookup spelling).getD [])

theorem bagOf_cons (bags : List (GoogleString × List GoogleString)) (spelling : GoogleString) (bag : List GoogleString) :
    bagOf keep ((spelling, bag) :: bags) = Function.update (bagOf keep bags) spelling bag := by
  funext other
  rw [bagOf, List.lookup_cons]
  by_cases h : other = spelling
  · subst h
    rw [beq_self_eq_true, Function.update_self]
    rfl
  · rw [beq_false_of_ne h, Function.update_of_ne h]
    rfl

def After (before : List NameValue) (bags : List (GoogleString × List GoogleString)) : Prop :=
  bagOf keep bags = left (linesOf keep.headers) (pairs before)

variable {keep}

theorem after_nil (hkeep : Faithful keep) : After keep [] [] := by
  funext spelling
  rw [bagOf, List.lookup_nil, Option.getD_none, hkeep.lookup, getD_present]
  exact (rest_nil _).symm

variable {before : List NameValue} {bags : List (GoogleString × List GoogleString)}

theorem After.licensed (h : After keep before bags) (header : NameValue) :
    taken (bagOf keep bags header.name) (splitValues header.name header.value) = licensed keep before header := by
  rw [congrFun h header.name]
  rfl

theorem After.next (h : After keep before bags) (header : NameValue) :
    After keep (before ++ [header])
      ((header.name, rest (bagOf keep bags header.name) (splitValues header.name header.value)) :: bags) := by
  have hpairs : pairs (before ++ [header]) =
      pairs before ++ (splitValues header.name header.value).map (Prod.mk header.name) := by
    rw [pairs, List.flatMap_append, List.flatMap_singleton]
    rfl
  rw [After, bagOf_cons, hpairs, left_append, ← h, left_single]

theorem keepLoop_cons (header : NameValue) (others : List NameValue) (bags : List (GoogleString × List GoogleString)) :
    keepLoop keep (header :: others) bags =
      let values := splitValues header.name header.value
      let kept := taken (bagOf keep bags header.name) values
      let next := keepLoop keep others ((header.name, rest (bagOf keep bags header.name) values) :: bags)
      if kept = [] then (next.1, true)
      else if kept.length < values.length then ({ header with value := joinCollection kept (ascii ", ") } :: next.1, true)
      else (header :: next.1, next.2) := by
  rw [keepLoop, takeFromBag_eq]
  rfl

theorem linesOf_keepLoop_cons {header : NameValue} (hfits : Fits header) (h : After keep before bags) (others : List NameValue)
    (name : GoogleString) :
    ∃ bags', After keep (before ++ [header]) bags' ∧
      linesOf (keepLoop keep (header :: others) bags).1 name =
        (if stringCaseEqual header.name name then
          readBack (splitValues header.name header.value) (licensed keep before header) else []) ++
          linesOf (keepLoop keep others bags').1 name := by
  refine ⟨_, h.next header, ?_⟩
  rw [keepLoop_cons]
  dsimp only
  rw [h.licensed header]
  have hsub : (licensed keep before header).Sublist (splitValues header.name header.value) := taken_sublist _ _
  by_cases hnil : licensed keep before header = []
  · have hread : readBack (splitValues header.name header.value) [] = [] := by simp [readBack]
    rw [if_pos hnil, hnil, hread, ite_self, List.nil_append]
  · rw [if_neg hnil]
    by_cases hlt : (licensed keep before header).length < (splitValues header.name header.value).length
    · rw [if_pos hlt, ← List.singleton_append, linesOf_append, linesOf_singleton]
      dsimp only
      rw [splitValues_kept hfits hsub hnil hlt]
    · have hall : licensed keep before header = splitValues header.name header.value :=
        hsub.eq_of_length_le (Nat.not_lt.mp hlt)
      have hread : readBack (splitValues header.name header.value) (licensed keep before header) =
          splitValues header.name header.value := by
        rw [readBack, if_neg fun hloses => hlt hloses.1, hall]
      rw [if_neg hlt, ← List.singleton_append, linesOf_append, linesOf_singleton, hread]

theorem readBack_sublist (values kept : List GoogleString) : (readBack values kept).Sublist kept := by
  unfold readBack
  split_ifs
  · exact List.tail_sublist kept
  · exact List.Sublist.refl kept

theorem readBack_eq_iff {values kept : List GoogleString} : readBack values kept = kept ↔ ¬ LosesEmpty values kept := by
  unfold readBack
  split_ifs with hloses
  · have hlong := hloses.2.1
    refine iff_of_false (fun heq => ?_) (not_not_intro hloses)
    have hlength := congrArg List.length heq
    rw [List.length_tail] at hlength
    omega
  · exact iff_of_true rfl hloses

theorem separate_cons (before : List NameValue) (header : NameValue) (others : List NameValue) (name : GoogleString) :
    separate (left (linesOf keep.headers) (pairs before)) (spelled (header :: others) name) =
      (if stringCaseEqual header.name name then licensed keep before header else []) ++
        separate (left (linesOf keep.headers) (pairs (before ++ [header]))) (spelled others name) := by
  have hpairs : pairs (before ++ [header]) =
      pairs before ++ (splitValues header.name header.value).map (Prod.mk header.name) := by
    rw [pairs, List.flatMap_append, List.flatMap_singleton]
    rfl
  have hspelled : spelled (header :: others) name =
      (if stringCaseEqual header.name name then (splitValues header.name header.value).map (Prod.mk header.name)
        else []) ++ spelled others name := List.flatMap_cons
  rw [hpairs, left_append, hspelled]
  split_ifs with heq
  · rw [separate_append, separate_single]
    rfl
  · rw [List.nil_append, List.nil_append, left_single]
    apply separate_congr
    intro item hitem
    have hname : item.1 ≠ header.name := by
      intro hsame
      rw [← hsame] at heq
      exact heq (name_of_mem_spelled hitem)
    rw [Function.update_of_ne hname]

theorem linesOf_keepLoop (lines : List NameValue) (hfits : ∀ header ∈ lines, Fits header) (name : GoogleString) (h : After keep before bags) :
    (linesOf (keepLoop keep lines bags).1 name).Sublist
        (separate (left (linesOf keep.headers) (pairs before)) (spelled lines name)) ∧
      (linesOf (keepLoop keep lines bags).1 name =
          separate (left (linesOf keep.headers) (pairs before)) (spelled lines name) ↔
        ∀ mid header after, lines = mid ++ header :: after → stringCaseEqual header.name name = true →
          ¬ LosesEmpty (splitValues header.name header.value) (licensed keep (before ++ mid) header)) := by
  induction lines generalizing before bags with
  | nil => exact ⟨List.Sublist.refl _, iff_of_true rfl fun mid header after hnil => by simp at hnil⟩
  | cons header others ih =>
    obtain ⟨bags', hafter, hlines⟩ := linesOf_keepLoop_cons (hfits header List.mem_cons_self) h others name
    obtain ⟨hsub, hiff⟩ := ih (fun other hother => hfits other (List.mem_cons_of_mem _ hother)) hafter
    have hfirst : (if stringCaseEqual header.name name then
        readBack (splitValues header.name header.value) (licensed keep before header) else []).Sublist
          (if stringCaseEqual header.name name then licensed keep before header else []) := by
      split_ifs
      · exact readBack_sublist _ _
      · exact List.Sublist.refl _
    rw [hlines, separate_cons]
    refine ⟨hfirst.append hsub, ?_⟩
    rw [append_eq_iff_of_sublist hfirst hsub, hiff]
    constructor
    · rintro ⟨heq, hrest⟩ mid other after hsplit hname
      cases mid with
      | nil =>
        obtain ⟨rfl, rfl⟩ := List.cons.inj hsplit
        rw [if_pos hname, if_pos hname] at heq
        rw [List.append_nil]
        exact readBack_eq_iff.mp heq
      | cons first mid =>
        obtain ⟨rfl, hothers⟩ := List.cons.inj hsplit
        have hlost := hrest mid other after hothers hname
        rw [List.append_assoc] at hlost
        exact hlost
    · intro hnone
      constructor
      · split_ifs with hname
        · have hlost := hnone [] header others rfl hname
          rw [List.append_nil] at hlost
          exact readBack_eq_iff.mpr hlost
        · rfl
      · intro mid other after hsplit hname
        have hlost := hnone (header :: mid) other after (congrArg (header :: ·) hsplit) hname
        rw [List.append_assoc]
        exact hlost

theorem keepLoop_changed (lines : List NameValue) (hfits : ∀ header ∈ lines, Fits header)
    (bags : List (GoogleString × List GoogleString)) (hchanged : (keepLoop keep lines bags).2 = true) :
    (keepLoop keep lines bags).1 ≠ lines := by
  induction lines generalizing bags with
  | nil => cases hchanged
  | cons header others ih =>
    rw [keepLoop_cons] at hchanged ⊢
    dsimp only at hchanged ⊢
    have hsub : (taken (bagOf keep bags header.name) (splitValues header.name header.value)).Sublist
        (splitValues header.name header.value) := taken_sublist _ _
    split_ifs at hchanged ⊢ with hnil hlt
    · intro heq
      have hlength := length_keepLoop_le keep others
        ((header.name, rest (bagOf keep bags header.name) (splitValues header.name header.value)) :: bags)
      dsimp only at heq
      rw [heq, List.length_cons] at hlength
      omega
    · intro heq
      have hvalue := congrArg NameValue.value (List.cons.inj heq).1
      dsimp only at hvalue
      have hread := splitValues_kept (hfits header List.mem_cons_self) hsub hnil hlt
      rw [hvalue] at hread
      have hle := (readBack_sublist (splitValues header.name header.value)
        (taken (bagOf keep bags header.name) (splitValues header.name header.value))).length_le
      rw [← hread] at hle
      omega
    · intro heq
      exact ih (fun other hother => hfits other (List.mem_cons_of_mem _ hother)) _ hchanged (List.cons.inj heq).2

end Loop

theorem Reached.faithful {h : Headers} (hreached : Reached h) : Faithful h := by
  obtain ⟨start, ops, hnone, hops, rfl⟩ := hreached
  exact (faithful_of_none hnone).run hops

theorem Faithful.values {h : Headers} (hf : Faithful h) (name : GoogleString) : h.values name = linesOf h.headers name := by
  rw [Headers.values, hf.lookup, getD_present]

theorem headers_removeIfNotIn (h keep : Headers) :
    (h.removeIfNotIn keep).2.headers = (keepLoop keep h.headers []).1 ∧
      (h.removeIfNotIn keep).1 = (keepLoop keep h.headers []).2 := by
  unfold removeIfNotIn
  dsimp only
  split_ifs with hchanged
  · exact ⟨rfl, hchanged.symm⟩
  · exact ⟨rfl, (Bool.eq_false_iff.mpr hchanged).symm⟩

/-- Lines of one spelling are cut down to what both have, each value as often as both have it. -/
theorem removeIfNotIn_intersects {h keep : Headers} (hreached : Reached h) (hkeep : Reached keep)
    (hfits : ∀ header ∈ h.headers, Fits header) :
    ((h.removeIfNotIn keep).1 = true ↔ (h.removeIfNotIn keep).2.headers ≠ h.headers) ∧
      (OneSpelling h keep ∨ NoEmptyLost h keep →
        (Intersects h keep ↔ OneSpelling h keep ∧ NoEmptyLost h keep)) := by
  obtain ⟨hheaders, hreturned⟩ := headers_removeIfNotIn h keep
  have hkf := hkeep.faithful
  have hstart : left (linesOf keep.headers) (pairs []) = linesOf keep.headers := funext fun _ => rest_nil _
  have hloop := fun name => linesOf_keepLoop h.headers hfits name (after_nil hkf)
  rw [hstart] at hloop
  have hbag : ∀ name, separate (linesOf keep.headers) (spelled h.headers name) =
      separate (fun _ => linesOf keep.headers name) (spelled h.headers name) := fun name =>
    separate_congr fun item hitem => linesOf_congr keep.headers (name_of_mem_spelled hitem)
  have hintersects : Intersects h keep ↔ ∀ name, linesOf (keepLoop keep h.headers []).1 name =
      taken (linesOf keep.headers name) (linesOf h.headers name) := by
    apply forall_congr'
    intro name
    rw [(hreached.faithful.removeIfNotIn keep).values, hheaders, hkf.values, hreached.faithful.values]
  have hone : OneSpelling h keep ↔ ∀ name, separate (linesOf keep.headers) (spelled h.headers name) =
      taken (linesOf keep.headers name) (linesOf h.headers name) := by
    apply forall_congr'
    intro name
    rw [hbag, ← map_snd_spelled h.headers, separate_eq_iff]
  have hlost : NoEmptyLost h keep ↔ ∀ name, linesOf (keepLoop keep h.headers []).1 name =
      separate (linesOf keep.headers) (spelled h.headers name) := by
    constructor
    · intro hnone name
      exact (hloop name).2.mpr fun mid header after hsplit _ => hnone mid header after hsplit
    · intro hall before header after hsplit
      exact (hloop header.name).2.mp (hall header.name) before header after hsplit (stringCaseEqual_iff.mpr rfl)
  constructor
  · rw [hheaders, hreturned]
    constructor
    · exact keepLoop_changed h.headers hfits []
    · intro hne
      by_contra hsame
      exact hne (keepLoop_unchanged keep h.headers [] (Bool.eq_false_iff.mpr hsame))
  · rw [hintersects]
    rintro (hspelling | hempty)
    · have heq := hone.mp hspelling
      rw [hlost]
      constructor
      · exact fun hall => ⟨hspelling, fun name => (hall name).trans (heq name).symm⟩
      · exact fun hall name => (hall.2 name).trans (heq name)
    · have heq := hlost.mp hempty
      rw [hone]
      constructor
      · exact fun hall => ⟨fun name => (heq name).symm.trans (hall name), hempty⟩
      · exact fun hall name => (heq name).trans (hall.1 name)


theorem oneSpelling_of_same {h : Headers} (spelling : GoogleString)
    (hsame : ∀ header ∈ h.headers, header.name = spelling) (keep : Headers) : OneSpelling h keep := by
  intro name a _
  refine .inr ⟨spelling, fun item hitem _ => ?_⟩
  obtain ⟨header, hheader, hmem⟩ := List.mem_flatMap.mp hitem
  split_ifs at hmem
  · obtain ⟨value, -, rfl⟩ := List.mem_map.mp hmem
    exact hsame header hheader
  · exact absurd hmem List.not_mem_nil

theorem noEmptyLost_of_filled {h : Headers}
    (hfilled : ∀ header ∈ h.headers, [] ∉ splitValues header.name header.value) (keep : Headers) :
    NoEmptyLost h keep := by
  intro before header after hsplit hloses
  have hheader : header ∈ h.headers := by
    rw [hsplit]
    exact List.mem_append_right before List.mem_cons_self
  have hkept : [] ∈ licensed keep before header := List.mem_of_mem_head? hloses.2.2
  exact hfilled header hheader ((taken_sublist _ _).subset hkept)

/-- Values that are gone from both lines of a name, with one more than `keep` has. -/
theorem removeIfNotIn_intersects_vary :
    let keep := ({} : Headers).run [.add (ascii "vary") (ascii "Accept, Host")]
    let h := ({} : Headers).run [.add (ascii "Vary") (ascii "Cookie, Host"), .add (ascii "Vary") (ascii "Host,Accept")]
    (h.removeIfNotIn keep).2.headers ≠ h.headers ∧ Intersects h keep := by
  intro keep h
  have hlines : ∀ header ∈ h.headers,
      header = ⟨ascii "Vary", ascii "Cookie, Host"⟩ ∨ header = ⟨ascii "Vary", ascii "Host,Accept"⟩ :=
    fun header hheader => List.mem_pair.mp hheader
  have hfits : ∀ header ∈ h.headers, Fits header := by
    intro header hheader _
    obtain rfl | rfl := hlines header hheader
    · decide
    · decide
  have hone : OneSpelling h keep := by
    refine oneSpelling_of_same (ascii "Vary") (fun header hheader => ?_) keep
    obtain rfl | rfl := hlines header hheader
    · rfl
    · rfl
  have hnone : NoEmptyLost h keep := by
    refine noEmptyLost_of_filled (fun header hheader => ?_) keep
    obtain rfl | rfl := hlines header hheader
    · decide
    · decide
  obtain ⟨hchanged, hiff⟩ := removeIfNotIn_intersects ⟨{}, _, rfl, by simp [Op.Allowed], rfl⟩
    (⟨{}, _, rfl, by simp [Op.Allowed], rfl⟩ : Reached keep) hfits
  exact ⟨hchanged.mp (by decide), (hiff (.inl hone)).mpr ⟨hone, hnone⟩⟩

/-- One `Set-Cookie` lets two stay that are spelled in two ways. -/
theorem spellings_share_nothing : ¬ ∀ h keep : Headers, Reached h → Reached keep → Intersects h keep := by
  intro hclaim
  have hkept := hclaim
    (({} : Headers).run [.add (ascii "Set-Cookie") (ascii "a"), .add (ascii "set-cookie") (ascii "a")])
    (({} : Headers).run [.add (ascii "Set-Cookie") (ascii "a")])
    ⟨{}, _, rfl, by simp [Op.Allowed], rfl⟩ ⟨{}, _, rfl, by simp [Op.Allowed], rfl⟩ (ascii "Set-Cookie")
  revert hkept
  decide

end PageSpeed.Headers
