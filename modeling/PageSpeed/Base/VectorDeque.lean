import PageSpeed.Lib.Machine
import Mathlib.Data.Nat.Bitwise
import Mathlib.Data.Nat.ModEq

/-!
The deque of `kernel/base/vector_deque.h`: a ring in an array whose capacity is doubled when it is full. Its
numbers are of type `size_t`, and what `new T[]` leaves in an array is `none`.
-/

namespace PageSpeed

structure VectorDeque (T : Type*) where
  startPosition : ℕ
  sizeMinus1 : ℕ
  capacityMinus1 : ℕ
  data : ℕ → Option T

namespace VectorDeque

variable {T : Type*}

def initialCapacity : ℕ := 4

def new : VectorDeque T := ⟨0, 2 ^ 64 - 1, initialCapacity - 1, fun _ => none⟩

def capacity (d : VectorDeque T) : ℕ := (d.capacityMinus1 + 1) % 2 ^ 64

def size (d : VectorDeque T) : ℕ := (d.sizeMinus1 + 1) % 2 ^ 64

def empty (d : VectorDeque T) : Bool := d.sizeMinus1 = 2 ^ 64 - 1

def modCapacity (d : VectorDeque T) (index : ℕ) : ℕ := index % 2 ^ 64 &&& d.capacityMinus1

def position (d : VectorDeque T) (position : ℕ) : ℕ := d.modCapacity (d.startPosition + position)

/-- `std::copy_n` of `n` elements from `src + first` to `dst + result`. -/
def copyN (src : ℕ → Option T) (first n : ℕ) (dst : ℕ → Option T) (result : ℕ) : ℕ → Option T :=
  fun i => if result ≤ i ∧ i < result + n then src (first + (i - result)) else dst i

def expandIfNecessary (d : VectorDeque T) : VectorDeque T :=
  if d.sizeMinus1 = d.capacityMinus1 then
    let capacityMinus1 := (2 * d.capacity + 2 ^ 64 - 1) % 2 ^ 64
    let sz := d.size
    if d.startPosition = 0 then
      { d with
        capacityMinus1 := capacityMinus1
        data := copyN d.data 0 sz (fun _ => none) 0 }
    else
      let sizeOfRightChunk := sz - d.startPosition
      let newStartPosition := (d.startPosition + sz) % 2 ^ 64
      { d with
        startPosition := newStartPosition
        capacityMinus1 := capacityMinus1
        data :=
          copyN d.data d.startPosition sizeOfRightChunk (copyN d.data 0 d.startPosition (fun _ => none) 0)
            newStartPosition }
  else d

def pushBack (d : VectorDeque T) (value : T) : VectorDeque T :=
  let d := d.expandIfNecessary
  let d := { d with sizeMinus1 := (d.sizeMinus1 + 1) % 2 ^ 64 }
  { d with data := Function.update d.data (d.position d.sizeMinus1) (some value) }

def pushFront (d : VectorDeque T) (value : T) : VectorDeque T :=
  let d := d.expandIfNecessary
  let d := { d with startPosition := d.modCapacity (d.startPosition + 2 ^ 64 - 1) }
  { d with
    data := Function.update d.data d.startPosition (some value)
    sizeMinus1 := (d.sizeMinus1 + 1) % 2 ^ 64 }

def popBack (d : VectorDeque T) : VectorDeque T := { d with sizeMinus1 := (d.sizeMinus1 + 2 ^ 64 - 1) % 2 ^ 64 }

def popFront (d : VectorDeque T) : VectorDeque T :=
  { d with
    startPosition := d.modCapacity (d.startPosition + 1)
    sizeMinus1 := (d.sizeMinus1 + 2 ^ 64 - 1) % 2 ^ 64 }

def back (d : VectorDeque T) : Option T := d.data (d.position d.sizeMinus1)

def front (d : VectorDeque T) : Option T := d.data d.startPosition

structure Holds (d : VectorDeque T) (l : List T) : Prop where
  capacity : ∃ k ≤ 62, d.capacityMinus1 = 2 ^ k - 1
  start : d.startPosition ≤ d.capacityMinus1
  size : d.sizeMinus1 = (l.length + 2 ^ 64 - 1) % 2 ^ 64
  fits : l.length ≤ d.capacityMinus1 + 1
  elements : ∀ i < l.length, d.data ((d.startPosition + i) % (d.capacityMinus1 + 1)) = l[i]?

variable {d : VectorDeque T} {l : List T}

theorem new_holds : Holds (new : VectorDeque T) [] := by
  refine ⟨⟨2, by omega, rfl⟩, Nat.zero_le _, ?_, Nat.zero_le _, nofun⟩
  change 2 ^ 64 - 1 = (0 + 2 ^ 64 - 1) % 2 ^ 64
  omega

theorem Holds.modCapacity (h : Holds d l) {index : ℕ} : d.modCapacity index = index % (d.capacityMinus1 + 1) := by
  obtain ⟨k, hk, hcap⟩ := h.capacity
  have hdvd : 2 ^ k ∣ 2 ^ 64 := Nat.pow_dvd_pow 2 (by omega)
  have hone : d.capacityMinus1 + 1 = 2 ^ k := by
    have hpos := Nat.two_pow_pos k
    omega
  rw [VectorDeque.modCapacity, hcap, Nat.and_two_pow_sub_one_eq_mod, Nat.mod_mod_of_dvd _ hdvd, ← hcap, hone]

theorem Holds.capacity_le (h : Holds d l) : d.capacityMinus1 + 1 ≤ 2 ^ 62 := by
  obtain ⟨k, hk, hcap⟩ := h.capacity
  have hpos := Nat.two_pow_pos k
  have hle : 2 ^ k ≤ 2 ^ 62 := Nat.pow_le_pow_right (by omega) hk
  omega

theorem Holds.size_eq (h : Holds d l) : d.size = l.length := by
  have hcap := h.capacity_le
  have hfits := h.fits
  rw [VectorDeque.size, h.size]
  omega

theorem Holds.empty_eq (h : Holds d l) : d.empty = l.isEmpty := by
  have hcap := h.capacity_le
  have hfits := h.fits
  unfold VectorDeque.empty
  rw [h.size]
  by_cases hnil : l = []
  · subst hnil
    exact decide_eq_true (by rw [List.length_nil]; omega)
  · have hpos := List.length_pos_iff.mpr hnil
    rw [List.isEmpty_eq_false_iff.mpr hnil]
    exact decide_eq_false (by omega)

theorem Holds.front_eq (h : Holds d l) (hne : l ≠ []) : d.front = l.head? := by
  have helement := h.elements 0 (List.length_pos_iff.mpr hne)
  rw [Nat.add_zero, Nat.mod_eq_of_lt (Nat.lt_succ_of_le h.start)] at helement
  rw [front, helement, List.head?_eq_getElem?]

theorem Holds.back_eq (h : Holds d l) (hne : l ≠ []) : d.back = l.getLast? := by
  have hpos := List.length_pos_iff.mpr hne
  have hcap := h.capacity_le
  have hfits := h.fits
  have hlast : d.sizeMinus1 = l.length - 1 := by
    rw [h.size]
    omega
  rw [back, position, h.modCapacity, hlast, h.elements _ (by omega), List.getLast?_eq_getElem?]

theorem moved_element {data : ℕ → Option T} {s n i : ℕ} (hs : s < n) (hi : i < n) :
    copyN data s (n - s) (copyN data 0 s (fun _ => none) 0) (s + n) ((s + n + i) % (2 * n)) =
      data ((s + i) % n) := by
  by_cases hwrap : s + i < n
  · have hnew : (s + n + i) % (2 * n) = s + n + i := Nat.mod_eq_of_lt (by omega)
    rw [hnew, Nat.mod_eq_of_lt hwrap, copyN, if_pos (by omega)]
    congr 1
    omega
  · have hnew : (s + n + i) % (2 * n) = s + i - n := by
      rw [Nat.mod_eq_sub_mod (by omega), Nat.mod_eq_of_lt (by omega)]
      omega
    have hold : (s + i) % n = s + i - n := by
      rw [Nat.mod_eq_sub_mod (by omega), Nat.mod_eq_of_lt (by omega)]
    rw [hnew, hold, copyN, if_neg (by omega), copyN, if_pos (by omega)]
    congr 1
    omega

theorem Holds.expanded (h : Holds d l) (hroom : l.length + 1 < 2 ^ 62) :
    Holds d.expandIfNecessary l ∧ l.length < d.expandIfNecessary.capacityMinus1 + 1 := by
  have hcap := h.capacity_le
  have hfits := h.fits
  have hsize := h.size
  have hstart := h.start
  obtain ⟨k, hk, hpow⟩ := h.capacity
  have hpos := Nat.two_pow_pos k
  unfold expandIfNecessary
  by_cases hfull : d.sizeMinus1 = d.capacityMinus1
  · have hlen : l.length = d.capacityMinus1 + 1 := by omega
    have hk' : k + 1 ≤ 62 := by
      by_contra hlt
      obtain rfl : k = 62 := by omega
      omega
    have hnew : (2 * d.capacity + 2 ^ 64 - 1) % 2 ^ 64 = 2 * (d.capacityMinus1 + 1) - 1 := by
      unfold VectorDeque.capacity
      omega
    have hpow' : ∃ k ≤ 62, 2 * (d.capacityMinus1 + 1) - 1 = 2 ^ k - 1 := by
      refine ⟨k + 1, hk', ?_⟩
      rw [Nat.pow_succ]
      omega
    have htwice : 2 * (d.capacityMinus1 + 1) - 1 + 1 = 2 * (d.capacityMinus1 + 1) := by omega
    simp only [if_pos hfull, hnew, h.size_eq, hlen]
    by_cases hzero : d.startPosition = 0
    · simp only [if_pos hzero]
      refine ⟨⟨hpow', hzero.le.trans (Nat.zero_le _), hsize, ?_, fun i hi => ?_⟩, ?_⟩
      · rw [htwice]
        omega
      · have helement := h.elements i hi
        simp only [hzero, Nat.zero_add] at helement ⊢
        rw [Nat.mod_eq_of_lt (by omega)] at helement
        rw [htwice, Nat.mod_eq_of_lt (by omega), copyN, if_pos (by omega), Nat.sub_zero, Nat.zero_add, helement]
      · rw [htwice]
        omega
    · have hmod : (d.startPosition + (d.capacityMinus1 + 1)) % 2 ^ 64 = d.startPosition + (d.capacityMinus1 + 1) :=
        Nat.mod_eq_of_lt (by omega)
      simp only [if_neg hzero, hmod]
      refine ⟨⟨hpow', ?_, hsize, ?_, fun i hi => ?_⟩, ?_⟩
      · dsimp only
        omega
      · rw [htwice]
        omega
      · rw [htwice]
        exact (moved_element (by omega) (by omega)).trans (h.elements i hi)
      · rw [htwice]
        omega
  · rw [if_neg hfull]
    exact ⟨h, by omega⟩

theorem slot_ne {s n i j : ℕ} (hi : i < n) (hj : j < n) (hij : i ≠ j) : (s + i) % n ≠ (s + j) % n := by
  intro heq
  have hmod : i ≡ j [MOD n] := Nat.ModEq.add_left_cancel' s heq
  unfold Nat.ModEq at hmod
  rw [Nat.mod_eq_of_lt hi, Nat.mod_eq_of_lt hj] at hmod
  exact hij hmod

theorem Holds.pushBack (h : Holds d l) (hroom : l.length + 1 < 2 ^ 62) (value : T) :
    Holds (d.pushBack value) (l ++ [value]) := by
  obtain ⟨h, hlt⟩ := h.expanded hroom
  generalize hexpanded : d.expandIfNecessary = e at h hlt
  have hcap := h.capacity_le
  have hsize : (e.sizeMinus1 + 1) % 2 ^ 64 = l.length := h.size_eq
  have hslot : e.modCapacity (e.startPosition + l.length) = (e.startPosition + l.length) % (e.capacityMinus1 + 1) :=
    h.modCapacity
  have heq : d.pushBack value =
      { e with
        sizeMinus1 := l.length
        data := Function.update e.data ((e.startPosition + l.length) % (e.capacityMinus1 + 1)) (some value) } := by
    rw [VectorDeque.pushBack, hexpanded, hsize]
    exact congrArg (fun slot => ({ e with sizeMinus1 := l.length, data := Function.update e.data slot (some value) } :
      VectorDeque T)) hslot
  rw [heq]
  refine ⟨h.capacity, h.start, ?_, ?_, fun i hi => ?_⟩
  · rw [List.length_append, List.length_singleton]
    change l.length = _
    omega
  · rw [List.length_append, List.length_singleton]
    exact hlt
  · rw [List.length_append, List.length_singleton] at hi
    change Function.update e.data _ _ _ = _
    by_cases hlast : i = l.length
    · rw [hlast, Function.update_self, List.getElem?_concat_length]
    · rw [Function.update_of_ne (slot_ne (by omega) hlt hlast), h.elements i (by omega),
        List.getElem?_append_left (by omega)]

theorem Holds.pushFront (h : Holds d l) (hroom : l.length + 1 < 2 ^ 62) (value : T) :
    Holds (d.pushFront value) (value :: l) := by
  obtain ⟨h, hlt⟩ := h.expanded hroom
  generalize hexpanded : d.expandIfNecessary = e at h hlt
  have hcap := h.capacity_le
  have hsize : (e.sizeMinus1 + 1) % 2 ^ 64 = l.length := h.size_eq
  have hslot : e.modCapacity (e.startPosition + 2 ^ 64 - 1) =
      (e.startPosition + e.capacityMinus1) % (e.capacityMinus1 + 1) := by
    obtain ⟨k, hk, hpow⟩ := h.capacity
    have hpos := Nat.two_pow_pos k
    have hdvd : e.capacityMinus1 + 1 ∣ 2 ^ 64 := by
      rw [show e.capacityMinus1 + 1 = 2 ^ k by omega]
      exact Nat.pow_dvd_pow 2 (by omega)
    obtain ⟨m, hm⟩ := hdvd
    have hm0 : m ≠ 0 := by
      rintro rfl
      omega
    obtain ⟨m, rfl⟩ := Nat.exists_eq_succ_of_ne_zero hm0
    rw [h.modCapacity, hm, Nat.mul_succ, show e.startPosition + ((e.capacityMinus1 + 1) * m + (e.capacityMinus1 + 1)) - 1 =
      e.startPosition + e.capacityMinus1 + (e.capacityMinus1 + 1) * m by omega, Nat.add_mul_mod_self_left]
  have heq : d.pushFront value =
      { e with
        startPosition := (e.startPosition + e.capacityMinus1) % (e.capacityMinus1 + 1)
        sizeMinus1 := l.length
        data := Function.update e.data ((e.startPosition + e.capacityMinus1) % (e.capacityMinus1 + 1)) (some value) } := by
    rw [VectorDeque.pushFront, hexpanded, hslot]
    exact congrArg (fun size => ({ e with startPosition := _, sizeMinus1 := size, data := _ } : VectorDeque T)) hsize
  have hround : ∀ i, ((e.startPosition + e.capacityMinus1) % (e.capacityMinus1 + 1) + i) % (e.capacityMinus1 + 1) =
      (e.startPosition + (e.capacityMinus1 + i)) % (e.capacityMinus1 + 1) := by
    intro i
    rw [Nat.mod_add_mod, Nat.add_assoc]
  rw [heq]
  refine ⟨h.capacity, ?_, ?_, hlt, fun i hi => ?_⟩
  · exact Nat.le_of_lt_succ (Nat.mod_lt _ (Nat.succ_pos _))
  · rw [List.length_cons]
    change l.length = _
    omega
  · rw [List.length_cons] at hi
    change Function.update e.data _ _ (((e.startPosition + e.capacityMinus1) % (e.capacityMinus1 + 1) + i) %
      (e.capacityMinus1 + 1)) = _
    rw [hround]
    cases i with
    | zero =>
      rw [Nat.add_zero]
      exact Function.update_self _ _ _
    | succ i =>
      have hnext : (e.startPosition + (e.capacityMinus1 + (i + 1))) % (e.capacityMinus1 + 1) =
          (e.startPosition + i) % (e.capacityMinus1 + 1) := by
        rw [show e.startPosition + (e.capacityMinus1 + (i + 1)) = e.startPosition + i + (e.capacityMinus1 + 1) by omega,
          Nat.add_mod_right]
      rw [hnext, Function.update_of_ne (slot_ne (by omega) (Nat.lt_succ_self _) (by omega)), h.elements i (by omega),
        List.getElem?_cons_succ]

theorem Holds.popped (h : Holds d l) (hne : l ≠ []) :
    (d.sizeMinus1 + 2 ^ 64 - 1) % 2 ^ 64 = (l.length - 1 + 2 ^ 64 - 1) % 2 ^ 64 := by
  have hpos := List.length_pos_iff.mpr hne
  have hcap := h.capacity_le
  have hfits := h.fits
  rw [h.size]
  omega

theorem Holds.popBack (h : Holds d l) (hne : l ≠ []) : Holds d.popBack l.dropLast := by
  have hfits := h.fits
  rw [VectorDeque.popBack, h.popped hne]
  refine ⟨h.capacity, h.start, ?_, ?_, fun i hi => ?_⟩
  · rw [List.length_dropLast]
  · rw [List.length_dropLast]
    exact (Nat.sub_le _ _).trans hfits
  · rw [List.length_dropLast] at hi
    rw [List.getElem?_dropLast, if_pos hi]
    exact h.elements i (by omega)

theorem Holds.popFront (h : Holds d l) (hne : l ≠ []) : Holds d.popFront l.tail := by
  have hfits := h.fits
  rw [VectorDeque.popFront, h.popped hne, h.modCapacity]
  refine ⟨h.capacity, ?_, ?_, ?_, fun i hi => ?_⟩
  · exact Nat.le_of_lt_succ (Nat.mod_lt _ (Nat.succ_pos _))
  · rw [List.length_tail]
  · rw [List.length_tail]
    exact (Nat.sub_le _ _).trans hfits
  · rw [List.length_tail] at hi
    rw [List.getElem?_tail]
    change d.data (((d.startPosition + 1) % (d.capacityMinus1 + 1) + i) % (d.capacityMinus1 + 1)) = _
    rw [Nat.mod_add_mod, Nat.add_assoc, Nat.add_comm 1 i]
    exact h.elements (i + 1) (by omega)

inductive Op (T : Type*) where
  | pushBack (value : T)
  | pushFront (value : T)
  | popBack
  | popFront

def apply (d : VectorDeque T) : Op T → VectorDeque T
  | .pushBack value => d.pushBack value
  | .pushFront value => d.pushFront value
  | .popBack => d.popBack
  | .popFront => d.popFront

/-- The operations on a list, which pop nothing from an empty one and keep its size below `2 ^ 62`. -/
def plain (l : List T) : Op T → Option (List T)
  | .pushBack value => if l.length + 1 < 2 ^ 62 then some (l ++ [value]) else none
  | .pushFront value => if l.length + 1 < 2 ^ 62 then some (value :: l) else none
  | .popBack => if l = [] then none else some l.dropLast
  | .popFront => if l = [] then none else some l.tail

theorem Holds.apply (h : Holds d l) {op : Op T} {l' : List T} (hplain : plain l op = some l') :
    Holds (d.apply op) l' := by
  cases op with
  | pushBack value =>
    obtain ⟨hroom, heq⟩ := Option.ite_none_right_eq_some.mp hplain
    obtain rfl := Option.some.inj heq
    exact h.pushBack hroom value
  | pushFront value =>
    obtain ⟨hroom, heq⟩ := Option.ite_none_right_eq_some.mp hplain
    obtain rfl := Option.some.inj heq
    exact h.pushFront hroom value
  | popBack =>
    obtain ⟨hne, heq⟩ := Option.ite_none_left_eq_some.mp hplain
    obtain rfl := Option.some.inj heq
    exact h.popBack hne
  | popFront =>
    obtain ⟨hne, heq⟩ := Option.ite_none_left_eq_some.mp hplain
    obtain rfl := Option.some.inj heq
    exact h.popFront hne

theorem Holds.run (h : Holds d l) {ops : List (Op T)} {l' : List T} (hrun : Machine.run plain l ops = some l') :
    Holds (ops.foldl VectorDeque.apply d) l' := by
  induction ops generalizing d l with
  | nil =>
    obtain rfl := Option.some.inj hrun
    exact h
  | cons op ops ih =>
    obtain ⟨next, hnext, hrest⟩ := Option.bind_eq_some_iff.mp hrun
    exact ih (h.apply hnext) hrest

theorem answers_as_list {ops : List (Op T)} (h : Machine.run plain [] ops = some l) :
    (ops.foldl VectorDeque.apply new).size = l.length ∧ (ops.foldl VectorDeque.apply new).empty = l.isEmpty ∧
      (l ≠ [] → (ops.foldl VectorDeque.apply new).front = l.head? ∧
        (ops.foldl VectorDeque.apply new).back = l.getLast?) := by
  have hholds := new_holds.run h
  exact ⟨hholds.size_eq, hholds.empty_eq, fun hne => ⟨hholds.front_eq hne, hholds.back_eq hne⟩⟩

theorem answers_after_growth :
    let ops := [Op.pushBack 1, .pushBack 2, .pushFront 0, .popBack, .pushFront 7, .pushBack 3, .pushBack 4]
    Machine.run plain [] ops = some [7, 0, 1, 3, 4] ∧ (ops.foldl VectorDeque.apply new).size = 5 := by
  have hrun : Machine.run plain []
      [Op.pushBack 1, .pushBack 2, .pushFront 0, .popBack, .pushFront 7, .pushBack 3, .pushBack 4] =
      some [7, 0, 1, 3, 4] := by decide
  exact ⟨hrun, (answers_as_list hrun).1⟩

end VectorDeque

end PageSpeed
