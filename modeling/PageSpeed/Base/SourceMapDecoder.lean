import PageSpeed.Base.SourceMap

/-!
A decoder for the mappings text of a version 3 source map, and that it recovers what the encoder wrote.
-/

namespace PageSpeed.SourceMap

structure Decoded where
  genLine : Int
  genCol : Int
  source : Option (Int × Int × Int)
  name : Option Int
deriving DecidableEq

structure Cursor where
  genCol : Int
  srcFile : Int
  srcLine : Int
  srcCol : Int
  name : Int
deriving DecidableEq

def Cursor.start : Cursor := ⟨0, 0, 0, 0, 0⟩

def Cursor.newLine (s : Cursor) : Cursor := { s with genCol := 0 }

def decodeFields (line : ℕ) (s : Cursor) : List Int → Option (Cursor × Decoded)
  | [col] => some ({ s with genCol := s.genCol + col }, ⟨line, s.genCol + col, none, none⟩)
  | [col, file, srcLine, srcCol] =>
    let t : Cursor := ⟨s.genCol + col, s.srcFile + file, s.srcLine + srcLine, s.srcCol + srcCol, s.name⟩
    some (t, ⟨line, t.genCol, some (t.srcFile, t.srcLine, t.srcCol), none⟩)
  | [col, file, srcLine, srcCol, name] =>
    let t : Cursor := ⟨s.genCol + col, s.srcFile + file, s.srcLine + srcLine, s.srcCol + srcCol, s.name + name⟩
    some (t, ⟨line, t.genCol, some (t.srcFile, t.srcLine, t.srcCol), some t.name⟩)
  | _ => none

def decodeSegment (line : ℕ) (s : Cursor) (text : GoogleString) : Option (Cursor × Decoded) :=
  (fieldsFrom 0 0 text).bind (decodeFields line s)

def decodeSegments (line : ℕ) (s : Cursor) : List GoogleString → Option (Cursor × List Decoded)
  | [] => some (s, [])
  | text :: rest =>
    (decodeSegment line s text).bind fun p => (decodeSegments line p.1 rest).map fun q => (q.1, p.2 :: q.2)

def decodeLine (line : ℕ) (s : Cursor) (text : GoogleString) : Option (Cursor × List Decoded) :=
  decodeSegments line s.newLine (if text = [] then [] else text.splitOn 44)

def decodeLines (line : ℕ) (s : Cursor) : List GoogleString → Option (List Decoded)
  | [] => some []
  | text :: rest => (decodeLine line s text).bind fun p => (decodeLines (line + 1) p.1 rest).map (p.2 ++ ·)

def decodeMappings (text : GoogleString) : Option (List Decoded) := decodeLines 0 Cursor.start (text.splitOn 59)

def Mapping.decoded (m : Mapping) : Decoded :=
  ⟨m.genLine.toInt, m.genCol.toInt, some (m.srcFile.toInt, m.srcLine.toInt, m.srcCol.toInt), none⟩

structure Encodable (mappings : List Mapping) : Prop where
  sorted : mappings.Pairwise (·.genLine ≤ ·.genLine)
  genLine : ∀ m ∈ mappings, 0 ≤ m.genLine
  genCol : ∀ m ∈ mappings, 0 ≤ m.genCol
  srcFile : ∀ m ∈ mappings, 0 ≤ m.srcFile
  srcLine : ∀ m ∈ mappings, 0 ≤ m.srcLine
  srcCol : ∀ m ∈ mappings, 0 ≤ m.srcCol

variable {m : Mapping} {prev : Option Mapping} {first : Bool} {line : ℕ} {s : Cursor} {seg t : GoogleString}
  {rest : List Mapping}

variable {mappings : List Mapping}

theorem Encodable.sublist {part : List Mapping} (h : Encodable mappings) (hsub : part.Sublist mappings) :
    Encodable part where
  sorted := h.sorted.sublist hsub
  genLine := fun m hm => h.genLine m (hsub.subset hm)
  genCol := fun m hm => h.genCol m (hsub.subset hm)
  srcFile := fun m hm => h.srcFile m (hsub.subset hm)
  srcLine := fun m hm => h.srcLine m (hsub.subset hm)
  srcCol := fun m hm => h.srcCol m (hsub.subset hm)

def atLine (line : ℕ) (s : Cursor) (text : GoogleString) : Option (List Decoded) := decodeLines line s (text.splitOn 59)

def inLine (line : ℕ) (s : Cursor) (text : GoogleString) : Option (List Decoded) :=
  match text.splitOn 59 with
  | [] => none
  | l :: ls => (decodeSegments line s (l.splitOn 44)).bind fun p => (decodeLines (line + 1) p.1 ls).map (p.2 ++ ·)

theorem atLine_nil : atLine line s [] = some [] := by
  simp [atLine, decodeLines, decodeLine, decodeSegments]

theorem decodeLines_newLine (line : ℕ) (s : Cursor) (ls : List GoogleString) :
    decodeLines line s.newLine ls = decodeLines line s ls := by
  cases ls with
  | nil => rfl
  | cons l ls => rfl

theorem atLine_semicolon : atLine line s (59 :: t) = atLine (line + 1) s t := by
  have hsplit : (59 :: t).splitOn (59 : UInt8) = [] :: t.splitOn 59 :=
    List.splitOn_append_cons_self_of_not_mem (List.not_mem_nil (a := 59)) t
  rw [atLine, hsplit, decodeLines, decodeLine]
  simp only [if_true, decodeSegments, Option.bind_some, List.nil_append]
  rw [decodeLines_newLine]
  exact Option.map_id'

theorem atLine_replicate (n : ℕ) : atLine line s (List.replicate n 59 ++ t) = atLine (line + n) s t := by
  induction n generalizing line with
  | zero => rfl
  | succ n ih => rw [List.replicate_succ, List.cons_append, atLine_semicolon, ih, Nat.add_right_comm, Nat.add_assoc]

theorem splitOn_append {sep : UInt8} (h : sep ∉ seg) (t : GoogleString) :
    (seg ++ t).splitOn sep = (t.splitOn sep).modifyHead (seg ++ ·) := by
  induction seg with
  | nil =>
    rw [List.nil_append]
    cases t.splitOn sep <;> rfl
  | cons c seg ih =>
    obtain ⟨hc, hseg⟩ := not_or.mp (mt List.mem_cons.mpr h)
    rw [List.cons_append, List.splitOn_cons_eq_if_modifyHead, if_neg (by simpa using Ne.symm hc), ih hseg]
    cases t.splitOn sep <;> rfl

theorem atLine_segment (hne : seg ≠ []) (hsemi : 59 ∉ seg) (t : GoogleString) :
    atLine line s (seg ++ t) = inLine line s.newLine (seg ++ t) := by
  obtain ⟨l, ls, hsplit⟩ := List.exists_cons_of_ne_nil (List.splitOn_ne_nil 59 t)
  have hl : seg ++ l ≠ [] := by simp [hne]
  rw [atLine, inLine, splitOn_append hsemi, hsplit, List.modifyHead_cons, decodeLines, decodeLine, if_neg hl]

section OneSegment

variable {p : Cursor × Decoded} (h : decodeSegment line s seg = some p) (hcomma : 44 ∉ seg) (hsemi : 59 ∉ seg)
include h hcomma hsemi

theorem inLine_last : inLine line s seg = some [p.2] := by
  rw [inLine, List.splitOn_eq_singleton hsemi]
  simp [List.splitOn_eq_singleton hcomma, decodeSegments, decodeLines, h]

theorem inLine_semicolon (t : GoogleString) :
    inLine line s (seg ++ 59 :: t) = (atLine (line + 1) p.1 t).map (p.2 :: ·) := by
  rw [inLine, List.splitOn_append_cons_self_of_not_mem hsemi]
  simp [List.splitOn_eq_singleton hcomma, decodeSegments, atLine, h]

theorem inLine_comma (t : GoogleString) :
    inLine line s (seg ++ 44 :: t) = (inLine line p.1 t).map (p.2 :: ·) := by
  obtain ⟨l, ls, hsplit⟩ := List.exists_cons_of_ne_nil (List.splitOn_ne_nil 59 t)
  have hcons : (44 :: t).splitOn 59 = (44 :: l) :: ls := by
    rw [List.splitOn_cons_eq_if_modifyHead, if_neg (by decide), hsplit]
    rfl
  rw [inLine, inLine, splitOn_append hsemi, hcons, hsplit]
  simp only [List.modifyHead_cons, List.splitOn_append_cons_self_of_not_mem hcomma, decodeSegments, h, Option.bind_some]
  cases decodeSegments line p.1 (l.splitOn 44) with
  | none => rfl
  | some q =>
    simp only [Option.map_some, Option.bind_some, Option.map_map, List.cons_append]
    rfl

end OneSegment

structure Cursor.Follows (s : Cursor) (prev : Option Mapping) (first : Bool) : Prop where
  genCol : s.genCol = if first then 0 else (prev.map (·.genCol.toInt)).getD 0
  srcFile : s.srcFile = (prev.map (·.srcFile.toInt)).getD 0
  srcLine : s.srcLine = (prev.map (·.srcLine.toInt)).getD 0
  srcCol : s.srcCol = (prev.map (·.srcCol.toInt)).getD 0

theorem toInt_sub {a b : Int32} (ha : 0 ≤ a) (hb : 0 ≤ b) : (a - b).toInt = a.toInt - b.toInt := by
  have ha' := Int32.le_iff_toInt_le.mp ha
  have hb' := Int32.le_iff_toInt_le.mp hb
  have hla := a.toInt_lt
  have hlb := b.toInt_lt
  rw [Int32.toInt_zero] at ha' hb'
  rw [Int32.toInt_sub, Int.bmod_def]
  split_ifs <;> omega

theorem add_relative (field : Mapping → Int32) (hprev : ∀ p ∈ prev, 0 ≤ field p) (hm : 0 ≤ field m) :
    (prev.map (fun p => (field p).toInt)).getD 0 + (relative field prev m).toInt = (field m).toInt := by
  cases prev with
  | none => simp [relative]
  | some p =>
    simp only [relative, toInt_sub hm (hprev p rfl), Option.map_some, Option.getD_some]
    omega

def Mapping.cursor (m : Mapping) (name : Int) : Cursor :=
  ⟨m.genCol.toInt, m.srcFile.toInt, m.srcLine.toInt, m.srcCol.toInt, name⟩

theorem fieldsFrom_segment (prev : Option Mapping) (first : Bool) (m : Mapping) :
    fieldsFrom 0 0 (segment prev first m) =
      some [(if first then m.genCol else relative Mapping.genCol prev m).toInt, (relative Mapping.srcFile prev m).toInt,
        (relative Mapping.srcLine prev m).toInt, (relative Mapping.srcCol prev m).toInt] := by
  rw [segment, List.append_assoc, List.append_assoc, fieldsFrom_encodeVlq, fieldsFrom_encodeVlq, fieldsFrom_encodeVlq]
  rw [← List.append_nil (encodeVlq (relative Mapping.srcCol prev m)), fieldsFrom_encodeVlq]
  rfl

theorem decodeSegment_segment (hs : s.Follows prev first) (h : Encodable (prev.toList ++ m :: rest))
    (hline : m.genLine.toInt = line) :
    decodeSegment line s (segment prev first m) = some (m.cursor s.name, m.decoded) := by
  have hm : m ∈ prev.toList ++ m :: rest := by simp
  have hprev : ∀ p ∈ prev, p ∈ prev.toList ++ m :: rest := by
    intro p hp
    simp [Option.mem_def.mp hp]
  have hcol : s.genCol + (if first then m.genCol else relative Mapping.genCol prev m).toInt = m.genCol.toInt := by
    rw [hs.genCol]
    cases first with
    | true => simp
    | false => exact add_relative Mapping.genCol (fun p hp => h.genCol p (hprev p hp)) (h.genCol m hm)
  have hfile := add_relative Mapping.srcFile (fun p hp => h.srcFile p (hprev p hp)) (h.srcFile m hm)
  have hsrcLine := add_relative Mapping.srcLine (fun p hp => h.srcLine p (hprev p hp)) (h.srcLine m hm)
  have hsrcCol := add_relative Mapping.srcCol (fun p hp => h.srcCol p (hprev p hp)) (h.srcCol m hm)
  rw [← hs.srcFile] at hfile
  rw [← hs.srcLine] at hsrcLine
  rw [← hs.srcCol] at hsrcCol
  rw [decodeSegment, fieldsFrom_segment, Option.bind_some, decodeFields]
  simp only [hcol, hfile, hsrcLine, hsrcCol, Mapping.cursor, Mapping.decoded, hline]

theorem follows_cursor (m : Mapping) (name : Int) : (m.cursor name).Follows (some m) false := ⟨rfl, rfl, rfl, rfl⟩

theorem follows_newLine (m : Mapping) (name : Int) : (m.cursor name).newLine.Follows (some m) true := ⟨rfl, rfl, rfl, rfl⟩

theorem encodeFrom_cons (h : ¬ m.genLine < currentGenLine) :
    (encodeFrom prev currentGenLine first (m :: rest)).2 =
      List.replicate (linesBetween currentGenLine m.genLine) 59 ++
        (segment prev (first || 0 < linesBetween currentGenLine m.genLine) m ++
          (comma m.genLine rest ++ (encodeFrom (some m) m.genLine false rest).2)) := by
  rw [encodeFrom, if_neg h]
  simp only [List.append_assoc]

theorem inLine_encodeFrom (hs : s.Follows prev first) (h : Encodable (prev.toList ++ m :: rest))
    (hline : m.genLine.toInt = line) :
    inLine line s (segment prev first m ++ (comma m.genLine rest ++ (encodeFrom (some m) m.genLine false rest).2)) =
      some ((m :: rest).map Mapping.decoded) := by
  induction rest generalizing m prev first line s with
  | nil =>
    have hseg := decodeSegment_segment hs h hline
    rw [comma, encodeFrom, List.append_nil, List.append_nil]
    exact inLine_last hseg (not_mem_segment comma_not_mem prev first m) (not_mem_segment semicolon_not_mem prev first m)
  | cons next rest ih =>
    have hseg := decodeSegment_segment hs h hline
    have hcomma := not_mem_segment comma_not_mem prev first m
    have hsemi := not_mem_segment semicolon_not_mem prev first m
    have htail : Encodable ((some m).toList ++ next :: rest) := h.sublist (List.sublist_append_right _ _)
    have hle : m.genLine ≤ next.genLine := (List.pairwise_cons.mp htail.sorted).1 next (.head rest)
    rw [encodeFrom_cons (Int32.not_lt.mpr hle)]
    by_cases heq : next.genLine = m.genLine
    · have hzero : linesBetween m.genLine next.genLine = 0 := by simp [linesBetween, heq]
      have hrest := ih (follows_cursor m s.name) htail (by rw [heq, hline])
      rw [comma, if_pos heq, hzero, List.replicate_zero, List.nil_append, List.singleton_append]
      rw [inLine_comma hseg hcomma hsemi]
      simp only [lt_irrefl, decide_false, Bool.or_false]
      rw [hrest]
      rfl
    · -- every further line is one more semicolon, and the column starts again
      obtain ⟨n, hn⟩ : ∃ n, linesBetween m.genLine next.genLine = n + 1 := by
        have hlt := Int32.lt_iff_toInt_lt.mp (Int32.lt_of_le_of_ne hle (Ne.symm heq))
        exact ⟨linesBetween m.genLine next.genLine - 1, by simp only [linesBetween]; omega⟩
      have hnext : next.genLine.toInt = ↑(line + 1 + n) := by
        simp only [linesBetween] at hn
        omega
      have hrest := ih (follows_newLine m s.name) htail hnext
      rw [comma, if_neg heq, hn, List.replicate_succ, List.nil_append, List.cons_append]
      refine (inLine_semicolon hseg hcomma hsemi _).trans ?_
      simp only [Nat.zero_lt_succ, decide_true, Bool.false_or]
      rw [atLine_replicate, atLine_segment (segment_ne_nil _ _ _) (not_mem_segment semicolon_not_mem _ _ _), hrest]
      rfl

theorem encodeFrom_succeeds {currentGenLine : Int32} (h : Encodable mappings)
    (hle : ∀ m ∈ mappings, currentGenLine ≤ m.genLine) :
    (encodeFrom prev currentGenLine first mappings).1 = true := by
  induction mappings generalizing prev currentGenLine first with
  | nil => rfl
  | cons m rest ih =>
    rw [encodeFrom, if_neg (Int32.not_lt.mpr (hle m (.head rest)))]
    exact ih (h.sublist (List.sublist_cons_self m rest)) (List.pairwise_cons.mp h.sorted).1

theorem atLine_encodeFrom (h : Encodable mappings) :
    atLine 0 Cursor.start (encodeFrom none 0 true mappings).2 = some (mappings.map Mapping.decoded) := by
  cases mappings with
  | nil => exact atLine_nil
  | cons m rest =>
    have hline : m.genLine.toInt = ↑(0 + linesBetween 0 m.genLine) := by
      have hpos := Int32.le_iff_toInt_le.mp (h.genLine m (.head rest))
      rw [Int32.toInt_zero] at hpos
      simp only [linesBetween, Int32.toInt_zero]
      omega
    have hfollows : Cursor.start.newLine.Follows none true := ⟨rfl, rfl, rfl, rfl⟩
    rw [encodeFrom_cons (Int32.not_lt.mpr (h.genLine m (.head rest))), Bool.true_or, atLine_replicate]
    rw [atLine_segment (segment_ne_nil _ _ _) (not_mem_segment semicolon_not_mem _ _ _)]
    exact inLine_encodeFrom hfollows h hline

/-- What the encoder writes of fewer than 2^31 sorted mappings, the decoder reads back. -/
theorem decodeMappings_encodeMappings {mappings : List Mapping} (h : Encodable mappings) (hlt : mappings.length < 2 ^ 31) :
    (encodeMappings mappings).1 = true ∧
      decodeMappings (encodeMappings mappings).2 = some (mappings.map Mapping.decoded) := by
  have hall : mappings.take (toInt32 mappings.length).toNat = mappings := by
    rw [toInt32_of_lt (by omega) (by omega), Int.toNat_natCast, List.take_length]
  rw [encodeMappings, hall]
  exact ⟨encodeFrom_succeeds h h.genLine, atLine_encodeFrom h⟩

/-- Two lines apart, with a step back in the source. -/
theorem decodeMappings_two_lines : ∃ a b : Mapping, a.genLine < b.genLine ∧ b.srcCol < a.srcCol ∧
    (encodeMappings [a, b]).1 = true ∧ decodeMappings (encodeMappings [a, b]).2 = some [a.decoded, b.decoded] := by
  have h : Encodable [⟨1, 2, 0, 0, 70⟩, ⟨3, 5, 1, 4, 2⟩] := ⟨by decide, by decide, by decide, by decide, by decide, by decide⟩
  exact ⟨_, _, by decide, by decide, decodeMappings_encodeMappings h (by decide)⟩

/-- The number of mappings overflows the `int`, and none of them is written. -/
theorem mappings_lost : Encodable (List.replicate (2 ^ 31) ⟨0, 0, 0, 0, 0⟩) ∧
    ¬ decodeMappings (encodeMappings (List.replicate (2 ^ 31) ⟨0, 0, 0, 0, 0⟩)).2 =
      some ((List.replicate (2 ^ 31) ⟨0, 0, 0, 0, 0⟩).map Mapping.decoded) := by
  constructor
  · refine ⟨List.pairwise_replicate.mpr (.inr (by decide)), ?_, ?_, ?_, ?_, ?_⟩ <;>
      (intro m hm; rw [List.eq_of_mem_replicate hm]; decide)
  · have hint : (toInt32 ((2 ^ 31 : ℕ) : Int)).toNat = 0 := by decide
    have hempty : decodeMappings (encodeFrom none 0 true []).2 = some [] := by decide
    rw [encodeMappings, List.length_replicate, hint, List.take_zero, hempty, List.map_replicate]
    intro h
    have hlen := congrArg List.length (Option.some.inj h)
    rw [List.length_replicate, List.length_nil] at hlen
    omega

end PageSpeed.SourceMap
