import PageSpeed.Basic
import Mathlib.Data.List.DropRight
import Mathlib.Data.List.OfFn

/-!
The buffer of `kernel/base/circular_buffer.cc` that keeps the end of what is written to it. The size
of a message is held in an `int`.
-/

namespace PageSpeed

structure CircularBuffer where
  capacity : ℕ
  wrapped : Bool
  offset : ℕ
  linesWritten : ℕ
  buffer : List UInt8
  length_buffer : buffer.length = capacity
  offset_le : offset ≤ capacity

namespace CircularBuffer

def kMaxCapacity : ℤ := 2 ^ 30

/-- `memory` is what `malloc` finds in the block. -/
def create (capacity : ℤ) (memory : ℕ → UInt8) : Option CircularBuffer :=
  if 0 < capacity ∧ capacity ≤ kMaxCapacity then
    some
      { capacity := capacity.toNat
        wrapped := false
        offset := 0
        linesWritten := 0
        buffer := List.ofFn fun i : Fin capacity.toNat => memory i
        length_buffer := List.length_ofFn
        offset_le := Nat.zero_le _ }
  else none

def clear (b : CircularBuffer) : CircularBuffer :=
  { b with
    wrapped := false
    offset := 0
    offset_le := Nat.zero_le _ }

def copyTo (buffer : List UInt8) (at' : ℕ) (data : List UInt8) : List UInt8 :=
  buffer.take at' ++ data ++ buffer.drop (at' + data.length)

variable {data : List UInt8} {b : CircularBuffer}

theorem length_copyTo {buffer : List UInt8} {at' : ℕ} (h : at' + data.length ≤ buffer.length) :
    (copyTo buffer at' data).length = buffer.length := by
  simp only [copyTo, List.length_append, List.length_take, List.length_drop]
  omega

theorem copyTo_zero (buffer data : List UInt8) : copyTo buffer 0 data = data ++ buffer.drop data.length := by
  rw [copyTo, List.take_zero, List.nil_append, Nat.zero_add]

def rewind (b : CircularBuffer) : CircularBuffer :=
  if b.offset = b.capacity then
    { b with
      offset := 0
      wrapped := true
      offset_le := Nat.zero_le _ }
  else b

@[simp] theorem rewind_capacity (b : CircularBuffer) : b.rewind.capacity = b.capacity := by
  unfold rewind
  split_ifs <;> rfl

@[simp] theorem rewind_linesWritten (b : CircularBuffer) : b.rewind.linesWritten = b.linesWritten := by
  unfold rewind
  split_ifs <;> rfl

def append (b : CircularBuffer) (data : List UInt8) (h : data.length ≤ b.capacity) : CircularBuffer :=
  let len := min (b.capacity - b.offset) data.length
  have hfirst : (copyTo b.buffer b.offset (data.take len)).length = b.capacity := by
    have hoffset := b.offset_le
    rw [length_copyTo (by rw [List.length_take, b.length_buffer]; omega), b.length_buffer]
  if hlen : len < data.length then
    { b with
      buffer := copyTo (copyTo b.buffer b.offset (data.take len)) 0 (data.drop len)
      offset := data.length - len
      wrapped := true
      length_buffer := by
        rw [length_copyTo (by rw [List.length_drop, hfirst]; omega), hfirst]
      offset_le := by omega }
  else
    { b with
      buffer := copyTo b.buffer b.offset (data.take len)
      offset := b.offset + len
      length_buffer := hfirst
      offset_le := by
        have hoffset := b.offset_le
        omega }

@[simp] theorem append_capacity (b : CircularBuffer) (data : List UInt8) (h : data.length ≤ b.capacity) :
    (b.append data h).capacity = b.capacity := by
  unfold append
  dsimp only
  split_ifs <;> rfl

@[simp] theorem append_linesWritten (b : CircularBuffer) (data : List UInt8) (h : data.length ≤ b.capacity) :
    (b.append data h).linesWritten = b.linesWritten := by
  unfold append
  dsimp only
  split_ifs <;> rfl

def replace (b : CircularBuffer) (data : List UInt8) (h : b.capacity < data.length) : CircularBuffer :=
  { b with
    buffer := data.drop (data.length - b.capacity)
    offset := 0
    wrapped := true
    length_buffer := by
      rw [List.length_drop]
      omega
    offset_le := Nat.zero_le _ }

def countLines (b : CircularBuffer) (data : List UInt8) : CircularBuffer :=
  { b with linesWritten := b.linesWritten + data.count 10 }

def writeData (b : CircularBuffer) (data : List UInt8) : CircularBuffer :=
  if h : b.capacity < data.length then (b.countLines data).replace data h
  else ((b.countLines data).rewind).append data (by rw [rewind_capacity]; exact Nat.le_of_not_lt h)

/-- `none` where a negative length is given to `memcpy`. -/
def write (b : CircularBuffer) (message : List UInt8) : Option CircularBuffer :=
  let size := toInt32 message.length
  if size < 0 then none else some (b.writeData (message.take size.toNat))

def firstChunk (b : CircularBuffer) : List UInt8 := if b.wrapped then b.buffer.drop b.offset else []

def secondChunk (b : CircularBuffer) : List UInt8 := b.buffer.take b.offset

def toString (b : CircularBuffer) : List UInt8 := b.firstChunk ++ b.secondChunk

theorem rtake_of_length_le {α : Type*} {l : List α} {n : ℕ} (h : l.length ≤ n) : l.rtake n = l := by
  rw [List.rtake, Nat.sub_eq_zero_of_le h, List.drop_zero]

theorem rtake_append_of_le {α : Type*} (l : List α) {m : List α} {n : ℕ} (h : n ≤ m.length) :
    (l ++ m).rtake n = m.rtake n := by
  rw [List.rtake, List.rtake, List.length_append, Nat.add_sub_assoc h, List.drop_append,
    List.drop_of_length_le (Nat.le_add_right _ _), List.nil_append, Nat.add_sub_cancel_left]

theorem rtake_rtake_append {α : Type*} (l m : List α) (n : ℕ) : (l.rtake n ++ m).rtake n = (l ++ m).rtake n := by
  by_cases h : l.length ≤ n
  · rw [rtake_of_length_le h]
  · have hsplit : l.take (l.length - n) ++ l.rtake n = l := List.take_append_drop _ l
    have hlen : n ≤ (l.rtake n ++ m).length := by
      rw [List.length_append, List.rtake, List.length_drop]
      omega
    rw [← rtake_append_of_le (l.take (l.length - n)) hlen, ← List.append_assoc, hsplit]

@[simp] theorem rewind_toString (b : CircularBuffer) : b.rewind.toString = b.toString := by
  unfold rewind
  split_ifs with h
  · have hall : b.buffer.take b.offset = b.buffer := by rw [h, ← b.length_buffer, List.take_length]
    have hnone : b.buffer.drop b.offset = [] := by rw [h, ← b.length_buffer, List.drop_length]
    simp [toString, firstChunk, secondChunk, hall, hnone]
  · rfl

theorem split_at_offset (b : CircularBuffer) :
    ∃ pre post, b.buffer = pre ++ post ∧ pre.length = b.offset ∧ b.offset + post.length = b.capacity ∧
      b.toString = (if b.wrapped then post else []) ++ pre := by
  have hpre : (b.buffer.take b.offset).length = b.offset := by
    rw [List.length_take, b.length_buffer]
    exact Nat.min_eq_left b.offset_le
  have hpost : (b.buffer.drop b.offset).length = b.capacity - b.offset := by
    rw [List.length_drop, b.length_buffer]
  have hoffset := b.offset_le
  exact ⟨b.buffer.take b.offset, b.buffer.drop b.offset, (List.take_append_drop _ _).symm, hpre, by omega, rfl⟩

theorem toString_of_fits (h : data.length ≤ b.capacity) (hfits : b.offset + data.length ≤ b.capacity) :
    (b.append data h).toString = (b.toString ++ data).rtake b.capacity := by
  have hlen : min (b.capacity - b.offset) data.length = data.length := by omega
  obtain ⟨pre, post, hbuffer, hpre, hpost, hold⟩ := b.split_at_offset
  have hcopy : copyTo b.buffer b.offset data = pre ++ data ++ post.drop data.length := by
    rw [copyTo, hbuffer, ← hpre, List.take_left, List.drop_append]
    simp
  have htake : (pre ++ data ++ post.drop data.length).take (b.offset + data.length) = pre ++ data := by
    rw [← hpre, ← List.length_append, List.take_left]
  have hdrop : (pre ++ data ++ post.drop data.length).drop (b.offset + data.length) = post.drop data.length := by
    rw [← hpre, ← List.length_append, List.drop_left]
  have hnew : (b.append data h).toString =
      (if b.wrapped then post.drop data.length else []) ++ (pre ++ data) := by
    unfold append
    rw [dif_neg (by omega)]
    simp only [toString, firstChunk, secondChunk, hlen, List.take_length, hcopy, htake, hdrop]
  rw [hnew, hold]
  cases b.wrapped with
  | true =>
    rw [if_pos rfl, if_pos rfl, List.rtake, List.append_assoc, List.drop_append_of_le_length]
    · congr 2
      simp only [List.length_append]
      omega
    · simp only [List.length_append]
      omega
  | false =>
    rw [if_neg Bool.false_ne_true, if_neg Bool.false_ne_true, List.nil_append, List.nil_append, rtake_of_length_le]
    rw [List.length_append]
    omega

theorem toString_of_wraps (h : data.length ≤ b.capacity) (hwraps : b.capacity < b.offset + data.length) :
    (b.append data h).toString = (b.toString ++ data).rtake b.capacity := by
  obtain ⟨pre, post, hbuffer, hpre, hpost, hold⟩ := b.split_at_offset
  have hlen : min (b.capacity - b.offset) data.length = post.length := by omega
  have hfirst : copyTo b.buffer b.offset (data.take post.length) = pre ++ data.take post.length := by
    have hshort : (data.take post.length).length = post.length := by
      rw [List.length_take]
      omega
    rw [copyTo, hbuffer, hshort, ← hpre, List.take_left, ← List.length_append, List.drop_length, List.append_nil]
  have hoffset : data.length - post.length = (data.drop post.length).length := (List.length_drop).symm
  have hnew : (b.append data h).toString =
      (pre ++ data.take post.length).drop (data.length - post.length) ++ data.drop post.length := by
    unfold append
    rw [dif_pos (by omega)]
    simp only [toString, firstChunk, secondChunk, hlen, hfirst, copyTo_zero, if_true]
    rw [hoffset, List.drop_left, List.take_left]
  have hdrop : (pre ++ data.take post.length).drop (data.length - post.length) ++ data.drop post.length =
      (pre ++ data).drop (data.length - post.length) := by
    rw [← List.drop_append_of_le_length, List.append_assoc, List.take_append_drop]
    rw [List.length_append, List.length_take]
    omega
  have hlong : b.capacity ≤ (pre ++ data).length := by
    rw [List.length_append]
    omega
  rw [hnew, hdrop, hold, List.append_assoc, rtake_append_of_le _ hlong, List.rtake, List.length_append]
  congr 1
  omega

theorem toString_append (h : data.length ≤ b.capacity) :
    (b.append data h).toString = (b.toString ++ data).rtake b.capacity := by
  by_cases hfits : b.offset + data.length ≤ b.capacity
  · exact toString_of_fits h hfits
  · exact toString_of_wraps h (Nat.lt_of_not_le hfits)

theorem toString_replace (h : b.capacity < data.length) :
    (b.replace data h).toString = (b.toString ++ data).rtake b.capacity := by
  rw [rtake_append_of_le _ (Nat.le_of_lt h)]
  simp [replace, toString, firstChunk, secondChunk, List.rtake]

theorem writeData_capacity (b : CircularBuffer) (data : List UInt8) : (b.writeData data).capacity = b.capacity := by
  unfold writeData
  split_ifs
  · rfl
  · rw [append_capacity, rewind_capacity]
    rfl

theorem writeData_linesWritten (b : CircularBuffer) (data : List UInt8) :
    (b.writeData data).linesWritten = b.linesWritten + data.count 10 := by
  unfold writeData
  split_ifs
  · rfl
  · rw [append_linesWritten, rewind_linesWritten]
    rfl

theorem writeData_toString (b : CircularBuffer) (data : List UInt8) :
    (b.writeData data).toString = (b.toString ++ data).rtake b.capacity := by
  unfold writeData
  split_ifs with hlong
  · exact toString_replace hlong
  · rw [toString_append, rewind_toString, rewind_capacity]
    rfl

theorem write_eq (b : CircularBuffer) {message : List UInt8} (h : message.length < 2 ^ 31) :
    b.write message = some (b.writeData message) := by
  have hsize : toInt32 message.length = message.length := toInt32_of_lt (by omega) (by omega)
  unfold write
  simp only [hsize, Int.not_lt.mpr (Int.natCast_nonneg message.length), if_false, Int.toNat_natCast, List.take_length]

inductive Op where
  | write (message : List UInt8)
  | clear

def step (b : CircularBuffer) : Op → Option CircularBuffer
  | .write message => b.write message
  | .clear => some b.clear

/-- What has been written since the last `Clear`. -/
def sinceClear : List UInt8 → List Op → List UInt8
  | text, [] => text
  | text, .write message :: ops => sinceClear (text ++ message) ops
  | _, .clear :: ops => sinceClear [] ops

def newlines : List Op → ℕ
  | [] => 0
  | .write message :: ops => message.count 10 + newlines ops
  | .clear :: ops => newlines ops

def Op.size : Op → ℕ
  | .write message => message.length
  | .clear => 0

theorem toString_clear (b : CircularBuffer) : b.clear.toString = [] := by
  simp [clear, toString, firstChunk, secondChunk]

theorem run_of_tail {ops : List Op} (hops : ∀ op ∈ ops, op.size < 2 ^ 31) {text : List UInt8}
    (hb : b.toString = text.rtake b.capacity) :
    ∃ b', ops.foldlM step b = some b' ∧ b'.toString = (sinceClear text ops).rtake b.capacity ∧
      b'.linesWritten = b.linesWritten + newlines ops := by
  induction ops generalizing b text with
  | nil => exact ⟨b, rfl, hb, rfl⟩
  | cons op ops ih =>
    obtain ⟨hop, hrest⟩ := List.forall_mem_cons.mp hops
    cases op with
    | write message =>
      have hstring : (b.writeData message).toString = (text ++ message).rtake (b.writeData message).capacity := by
        rw [writeData_toString, writeData_capacity, hb, rtake_rtake_append]
      obtain ⟨b', hrun, hstring', hlines⟩ := ih hrest hstring
      refine ⟨b', ?_, ?_, ?_⟩
      · rw [List.foldlM_cons, step, write_eq b hop]
        exact hrun
      · rw [hstring', writeData_capacity, sinceClear]
      · rw [hlines, writeData_linesWritten, newlines, Nat.add_assoc]
    | clear =>
      have hclear : b.clear.toString = ([] : List UInt8).rtake b.clear.capacity := by
        rw [toString_clear, List.rtake_nil]
      obtain ⟨b', hrun, hstring', hlines'⟩ := ih hrest hclear
      exact ⟨b', hrun, hstring', hlines'⟩

theorem create_eq {capacity : ℤ} {memory : ℕ → UInt8} (h : create capacity memory = some b) :
    b.toString = [] ∧ b.capacity = capacity.toNat ∧ b.linesWritten = 0 := by
  unfold create at h
  split_ifs at h
  cases h
  exact ⟨rfl, rfl, rfl⟩

/-- The text of a buffer is the end of what was written since it was cleared, and every line is counted. -/
theorem toString_of_run {capacity : ℤ} {memory : ℕ → UInt8} {b : CircularBuffer} (hb : create capacity memory = some b)
    {ops : List Op} (hops : ∀ op ∈ ops, op.size < 2 ^ 31) :
    ∃ b', ops.foldlM step b = some b' ∧ b'.toString = (sinceClear [] ops).rtake capacity.toNat ∧
      b'.linesWritten = newlines ops := by
  obtain ⟨hempty, hcapacity, hzero⟩ := create_eq hb
  have hnil : b.toString = ([] : List UInt8).rtake b.capacity := by rw [hempty, List.rtake_nil]
  obtain ⟨b', hrun, hstring, hlines⟩ := run_of_tail hops hnil
  rw [hcapacity] at hstring
  rw [hzero, Nat.zero_add] at hlines
  exact ⟨b', hrun, hstring, hlines⟩

/-- Three messages of which the last goes over the end, and one that is as long as the buffer. -/
theorem toString_of_run_wrapped :
    ∃ b', ([.write [97, 98], .clear, .write [99, 100], .write [101, 10], .write []] : List Op).foldlM step
        (CircularBuffer.mk 3 false 0 0 [0, 0, 0] rfl (Nat.zero_le 3)) = some b' ∧
      b'.toString = [100, 101, 10] ∧ b'.linesWritten = 1 := by
  have hcreate : create 3 (fun _ => 0) = some (CircularBuffer.mk 3 false 0 0 [0, 0, 0] rfl (Nat.zero_le 3)) := rfl
  exact toString_of_run hcreate (by decide)

theorem write_of_wrapped_size (b : CircularBuffer) {message : List UInt8} (h : message.length = 2 ^ 32) :
    b.write message = some (b.writeData []) := by
  have hsize : toInt32 message.length = 0 := by
    rw [h]
    decide
  unfold write
  simp only [hsize, Int.lt_irrefl, if_false, Int.toNat_zero, List.take_zero]

theorem long_message_lost :
    ∃ b b', create 1 (fun _ => 0) = some b ∧ b.write (List.replicate (2 ^ 32) 65) = some b' ∧
      b'.toString ≠ (sinceClear [] [.write (List.replicate (2 ^ 32) 65)]).rtake 1 := by
  refine ⟨_, _, rfl, write_of_wrapped_size (CircularBuffer.mk 1 false 0 0 [0] rfl (Nat.zero_le 1))
    List.length_replicate, ?_⟩
  rw [writeData_toString, sinceClear, List.nil_append, sinceClear]
  intro heq
  have hlen := congrArg List.length heq
  rw [List.rtake, List.length_drop, List.rtake, List.length_drop, List.length_replicate] at hlen
  revert hlen
  decide

end CircularBuffer

end PageSpeed
