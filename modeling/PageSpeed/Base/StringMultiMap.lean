import PageSpeed.Base.Ascii
import PageSpeed.Lib.BinarySearch
import Mathlib.Order.Nat

/-!
`StringMultiMapInsensitive`: names with their values in a set for lookups, and the same pairs in
the order in which they were added. Names are compared without regard to case.
-/

namespace PageSpeed

def caseKey (s : GoogleString) : List ℕ := s.map fun c => (upperChar c).toNat

def stringCompareInsensitive (s t : GoogleString) : Bool := decide (caseKey s < caseKey t)

theorem stringCaseEqual_iff {s t : GoogleString} : stringCaseEqual s t = true ↔ caseKey s = caseKey t := by
  have hkey : ∀ s, caseKey s = (s.map upperChar).map UInt8.toNat := fun s => by
    rw [List.map_map]
    rfl
  rw [stringCaseEqual, beq_iff_eq, hkey, hkey]
  exact (List.map_injective_iff.mpr fun a b => UInt8.toNat_inj.mp).eq_iff.symm

def SortedNames (names : List GoogleString) : Prop := BinarySearch.Sorted caseKey names

def binarySearchNames (names : List GoogleString) (name : GoogleString) : Bool :=
  BinarySearch.binarySearch (fun n => stringCompareInsensitive n name) (fun n => stringCompareInsensitive name n) names

variable {names : List GoogleString}

theorem SortedNames.binarySearch_iff (h : SortedNames names) (name : GoogleString) :
    binarySearchNames names name = true ↔ ∃ n ∈ names, caseKey n = caseKey name :=
  BinarySearch.Sorted.binarySearch_iff h (fun _ => decide_eq_true_iff) fun _ => decide_eq_true_iff

def listed (names : List GoogleString) (name : GoogleString) : Bool := names.any fun n => stringCaseEqual n name

theorem listed_iff {name : GoogleString} : listed names name = true ↔ ∃ n ∈ names, caseKey n = caseKey name := by
  simp only [listed, List.any_eq_true, stringCaseEqual_iff]

theorem listed_single (name other : GoogleString) : listed [name] other = stringCaseEqual name other := Bool.or_false _

theorem SortedNames.binarySearch_eq (h : SortedNames names) : binarySearchNames names = listed names := by
  funext name
  rw [Bool.eq_iff_iff, h.binarySearch_iff, listed_iff]

theorem listed_congr (names : List GoogleString) {name name' : GoogleString} (h : caseKey name = caseKey name') :
    listed names name = listed names name' := by
  rw [Bool.eq_iff_iff, listed_iff, listed_iff, h]

structure StringMultiMap where
  set : List (GoogleString × List GoogleString) := []
  vector : List (GoogleString × GoogleString) := []
  deriving DecidableEq

namespace StringMultiMap

def lookup (m : StringMultiMap) (name : GoogleString) : Option (List GoogleString) :=
  (m.set.find? fun entry => stringCaseEqual entry.1 name).map Prod.snd

def has (m : StringMultiMap) (name : GoogleString) : Bool := (m.lookup name).isSome

def add (m : StringMultiMap) (key value : GoogleString) : StringMultiMap :=
  match m.set.find? fun entry => stringCaseEqual entry.1 key with
  | some stored =>
    { set := m.set.map fun entry =>
        if stringCaseEqual entry.1 key then (entry.1, entry.2 ++ [value]) else entry
      vector := m.vector ++ [(stored.1, value)] }
  | none => { set := m.set ++ [(key, [value])], vector := m.vector ++ [(key, value)] }

def erase (set : List (GoogleString × List GoogleString)) (name : GoogleString) :
    List (GoogleString × List GoogleString) := set.filter fun entry => !stringCaseEqual entry.1 name

def removeAllFromSortedArray (m : StringMultiMap) (names : List GoogleString) : Bool × StringMultiMap :=
  match names.findIdx? m.has with
  | none => (false, m)
  | some indexOfFirstMatch =>
    (true,
      { set := (names.drop indexOfFirstMatch).foldl erase m.set
        vector := m.vector.filter fun pair => !binarySearchNames names pair.1 })

def valuesOf (vector : List (GoogleString × GoogleString)) (name : GoogleString) : List GoogleString :=
  (vector.filter fun pair => stringCaseEqual pair.1 name).map Prod.snd

def present (values : List GoogleString) : Option (List GoogleString) := if values = [] then none else some values

theorem getD_present (values : List GoogleString) : (present values).getD [] = values := by
  unfold present
  split_ifs with h
  · exact h.symm
  · rfl

theorem present_of_ne_nil {values : List GoogleString} (h : values ≠ []) : present values = some values := if_neg h

def Agrees (m : StringMultiMap) : Prop := ∀ name, m.lookup name = present (valuesOf m.vector name)

theorem agrees_empty : Agrees {} := fun _ => rfl

theorem valuesOf_append (v w : List (GoogleString × GoogleString)) (name : GoogleString) :
    valuesOf (v ++ w) name = valuesOf v name ++ valuesOf w name := by
  rw [valuesOf, List.filter_append, List.map_append]
  rfl

theorem valuesOf_pair (key value name : GoogleString) :
    valuesOf [(key, value)] name = if stringCaseEqual key name then [value] else [] := by
  rw [valuesOf, List.filter_cons, List.filter_nil]
  split_ifs <;> rfl

theorem valuesOf_congr (v : List (GoogleString × GoogleString)) {name name' : GoogleString}
    (h : caseKey name = caseKey name') : valuesOf v name = valuesOf v name' := by
  have hsame : ∀ pair : GoogleString × GoogleString, stringCaseEqual pair.1 name = stringCaseEqual pair.1 name' := by
    intro pair
    rw [Bool.eq_iff_iff, stringCaseEqual_iff, stringCaseEqual_iff, h]
  simp only [valuesOf, hsame]

theorem stringCaseEqual_congr {s t : GoogleString} (h : caseKey s = caseKey t) (name : GoogleString) :
    stringCaseEqual s name = stringCaseEqual t name := by
  rw [Bool.eq_iff_iff, stringCaseEqual_iff, stringCaseEqual_iff, h]

variable {m : StringMultiMap} {names : List GoogleString}

theorem stored_key {key : GoogleString} {stored : GoogleString × List GoogleString}
    (h : m.set.find? (fun entry => stringCaseEqual entry.1 key) = some stored) : caseKey stored.1 = caseKey key :=
  stringCaseEqual_iff.mp (@List.find?_some _ (fun entry => stringCaseEqual entry.1 key) stored m.set h)

theorem valuesOf_add (m : StringMultiMap) (key value name : GoogleString) :
    valuesOf (m.add key value).vector name =
      valuesOf m.vector name ++ if stringCaseEqual key name then [value] else [] := by
  unfold add
  split
  · next stored hstored => rw [valuesOf_append, valuesOf_pair, stringCaseEqual_congr (stored_key hstored)]
  · rw [valuesOf_append, valuesOf_pair]

theorem lookup_add (m : StringMultiMap) (key value name : GoogleString) :
    (m.add key value).lookup name =
      if stringCaseEqual key name then some ((m.lookup name).getD [] ++ [value]) else m.lookup name := by
  have hsame : ∀ entry : GoogleString × List GoogleString, stringCaseEqual key name →
      stringCaseEqual entry.1 key = stringCaseEqual entry.1 name := by
    intro entry hkey
    rw [Bool.eq_iff_iff, stringCaseEqual_iff, stringCaseEqual_iff, stringCaseEqual_iff.mp hkey]
  unfold add
  split
  · next stored hstored =>
    have hkeep : ((fun entry : GoogleString × List GoogleString => stringCaseEqual entry.1 name) ∘ fun entry =>
        if stringCaseEqual entry.1 key then (entry.1, entry.2 ++ [value]) else entry) =
        fun entry => stringCaseEqual entry.1 name := by
      funext entry
      dsimp only [Function.comp]
      split_ifs <;> rfl
    rw [lookup, lookup, List.find?_map, hkeep]
    split_ifs with hkey
    · have hfound : m.set.find? (fun entry => stringCaseEqual entry.1 name) = some stored := by
        simp only [hsame _ hkey] at hstored
        exact hstored
      rw [hfound, Option.map_some, Option.map_some, Option.map_some, Option.getD_some,
        if_pos (stringCaseEqual_iff.mpr (stored_key hstored))]
    · cases hfind : m.set.find? fun entry => stringCaseEqual entry.1 name with
      | none => rfl
      | some entry =>
        have hother : stringCaseEqual entry.1 key ≠ true := by
          intro heq
          exact hkey (stringCaseEqual_iff.mpr ((stringCaseEqual_iff.mp heq).symm.trans (stored_key hfind)))
        rw [Option.map_some, if_neg hother]
  · next hnone =>
    rw [lookup, lookup, List.find?_append, List.find?_singleton]
    split_ifs with hkey
    · have hmissing : m.set.find? (fun entry => stringCaseEqual entry.1 name) = none := by
        simp only [hsame _ hkey] at hnone
        exact hnone
      rw [hmissing]
      rfl
    · rw [Option.or_none]

theorem Agrees.add (h : Agrees m) (key value : GoogleString) : Agrees (m.add key value) := by
  intro name
  rw [lookup_add, valuesOf_add, h name]
  by_cases hkey : stringCaseEqual key name = true
  · rw [if_pos hkey, if_pos hkey, getD_present, present_of_ne_nil (List.append_ne_nil_of_right_ne_nil _ (List.cons_ne_nil _ _))]
  · rw [if_neg hkey, if_neg hkey, List.append_nil]

theorem foldl_erase (names : List GoogleString) (set : List (GoogleString × List GoogleString)) :
    names.foldl erase set = set.filter fun entry => !listed names entry.1 := by
  induction names generalizing set with
  | nil => exact (List.filter_eq_self.mpr fun _ _ => rfl).symm
  | cons name names ih =>
    rw [List.foldl_cons, ih, erase, List.filter_filter]
    congr 1
    funext entry
    have hswap : stringCaseEqual entry.1 name = stringCaseEqual name entry.1 := by
      rw [Bool.eq_iff_iff, stringCaseEqual_iff, stringCaseEqual_iff, eq_comm]
    rw [listed, listed, List.any_cons, Bool.not_or, Bool.and_comm, hswap]

theorem has_iff (h : Agrees m) (name : GoogleString) : m.has name = true ↔ valuesOf m.vector name ≠ [] := by
  rw [has, h name, present]
  split_ifs with hnil
  · simp [hnil]
  · simp [hnil]

theorem removeAll_fst (h : Agrees m) (names : List GoogleString) :
    (m.removeAllFromSortedArray names).1 = true ↔ ∃ n ∈ names, valuesOf m.vector n ≠ [] := by
  have hsome : (m.removeAllFromSortedArray names).1 = (names.findIdx? m.has).isSome := by
    unfold removeAllFromSortedArray
    split <;> simp_all
  rw [hsome, List.findIdx?_isSome, List.any_eq_true]
  simp only [has_iff h]

theorem valuesOf_filter (v : List (GoogleString × GoogleString)) (names : List GoogleString) (name : GoogleString) :
    valuesOf (v.filter fun pair => !listed names pair.1) name = if listed names name then [] else valuesOf v name := by
  have hsame : ∀ pair ∈ v, (stringCaseEqual pair.1 name && !listed names pair.1) =
      (stringCaseEqual pair.1 name && !listed names name) := by
    intro pair _
    by_cases heq : stringCaseEqual pair.1 name = true
    · rw [listed_congr names (stringCaseEqual_iff.mp heq)]
    · rw [Bool.eq_false_iff.mpr heq, Bool.false_and, Bool.false_and]
  rw [valuesOf, List.filter_filter, List.filter_congr hsame]
  split_ifs with hlisted
  · simp [hlisted]
  · simp [hlisted, valuesOf]

theorem removeAll_of_none
    (h : (m.removeAllFromSortedArray names).1 = false) : (m.removeAllFromSortedArray names).2 = m := by
  unfold removeAllFromSortedArray at h ⊢
  split at h
  · rfl
  · cases h

theorem removeAll_of_some
    (h : (m.removeAllFromSortedArray names).1 = true) : ∃ first, names.findIdx? m.has = some first ∧
      (m.removeAllFromSortedArray names).2 =
        { set := (names.drop first).foldl erase m.set
          vector := m.vector.filter fun pair => !binarySearchNames names pair.1 } := by
  unfold removeAllFromSortedArray at h ⊢
  split at h
  · cases h
  · next first hfirst => exact ⟨first, hfirst, rfl⟩

theorem valuesOf_removeAll (h : Agrees m) (hsorted : SortedNames names) (name : GoogleString) :
    valuesOf (m.removeAllFromSortedArray names).2.vector name =
      if listed names name then [] else valuesOf m.vector name := by
  by_cases hremoved : (m.removeAllFromSortedArray names).1 = true
  · obtain ⟨first, -, heq⟩ := removeAll_of_some hremoved
    rw [heq, hsorted.binarySearch_eq]
    exact valuesOf_filter m.vector names name
  · rw [removeAll_of_none (Bool.eq_false_iff.mpr hremoved)]
    split_ifs with hlisted
    · obtain ⟨n, hn, hkey⟩ := listed_iff.mp hlisted
      rw [← valuesOf_congr m.vector hkey]
      by_contra hne
      exact hremoved ((removeAll_fst h names).mpr ⟨n, hn, hne⟩)
    · rfl

theorem lookup_filter (set : List (GoogleString × List GoogleString)) (v : List (GoogleString × GoogleString))
    (names : List GoogleString) (name : GoogleString) :
    (StringMultiMap.mk (set.filter fun entry => !listed names entry.1) v).lookup name =
      if listed names name then none else (StringMultiMap.mk set v).lookup name := by
  have hsame : (fun entry : GoogleString × List GoogleString => decide ((!listed names entry.1) = true ∧
      stringCaseEqual entry.1 name = true)) = fun entry => !listed names name && stringCaseEqual entry.1 name := by
    funext entry
    by_cases heq : stringCaseEqual entry.1 name = true
    · rw [listed_congr names (stringCaseEqual_iff.mp heq), Bool.decide_and, Bool.decide_eq_true, Bool.decide_eq_true]
    · rw [Bool.eq_false_iff.mpr heq]
      simp
  rw [lookup, List.find?_filter, hsame]
  split_ifs with hlisted
  · simp [hlisted]
  · simp [hlisted, lookup]

theorem listed_drop (h : Agrees m) {first : ℕ}
    (hfirst : names.findIdx? m.has = some first) {name : GoogleString} (hvalues : valuesOf m.vector name ≠ []) :
    listed (names.drop first) name = listed names name := by
  obtain ⟨hlt, -, hbefore⟩ := List.findIdx?_eq_some_iff_getElem.mp hfirst
  have htake : listed (names.take first) name = false := by
    apply Bool.eq_false_iff.mpr
    intro hlisted
    obtain ⟨n, hn, hkey⟩ := listed_iff.mp hlisted
    obtain ⟨j, hj, rfl⟩ := List.mem_take_iff_getElem.mp hn
    apply hbefore j (by omega)
    rw [has_iff h, valuesOf_congr m.vector hkey]
    exact hvalues
  have happend : listed names name = (listed (names.take first) name || listed (names.drop first) name) := by
    simp only [listed]
    rw [← List.any_append, List.take_append_drop]
  rw [happend, htake, Bool.false_or]

theorem Agrees.removeAll (h : Agrees m) (hsorted : SortedNames names) :
    Agrees (m.removeAllFromSortedArray names).2 := by
  intro name
  by_cases hremoved : (m.removeAllFromSortedArray names).1 = true
  · obtain ⟨first, hfirst, heq⟩ := removeAll_of_some hremoved
    rw [valuesOf_removeAll h hsorted, heq, foldl_erase, lookup_filter]
    change (if listed (names.drop first) name then none else m.lookup name) = _
    rw [h name]
    by_cases hvalues : valuesOf m.vector name = []
    · rw [hvalues]
      split_ifs <;> rfl
    · rw [listed_drop h hfirst hvalues]
      split_ifs <;> rfl
  · rw [removeAll_of_none (Bool.eq_false_iff.mpr hremoved)]
    exact h name

end StringMultiMap

end PageSpeed
