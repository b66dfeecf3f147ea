import Mathlib.Data.List.DropRight

/-!
References to a resource as RFC 3986 reads them: their components, the removal of dot segments from
a path as a loop over two buffers and as a run over its segments, and the resolution of a reference
without a scheme against a base.
-/

namespace PageSpeed.Uri

abbrev Bytes := List UInt8

def flat (segments : List Bytes) : Bytes := segments.flatMap (47 :: ·)

@[simp] theorem flat_nil : flat [] = [] := rfl

@[simp] theorem flat_cons (s : Bytes) (segments : List Bytes) : flat (s :: segments) = 47 :: (s ++ flat segments) := by
  rw [flat, List.flatMap_cons]
  rfl

theorem flat_append (a b : List Bytes) : flat (a ++ b) = flat a ++ flat b := List.flatMap_append

def dropSegment (output : Bytes) : Bytes := (output.rdropWhile (· ≠ 47)).dropLast

def turn (input output : Bytes) : Bytes × Bytes :=
  if [46, 46, 47] <+: input then (input.drop 3, output)
  else if [46, 47] <+: input then (input.drop 2, output)
  else if [47, 46, 47] <+: input then (input.drop 2, output)
  else if input = [47, 46] then ([47], output)
  else if [47, 46, 46, 47] <+: input then (input.drop 3, dropSegment output)
  else if input = [47, 46, 46] then ([47], dropSegment output)
  else if input = [46] ∨ input = [46, 46] then ([], output)
  else
    -- The first segment, with the slash before it if there is one.
    let slash := (input.takeWhile (· = 47)).take 1
    let rest := input.drop slash.length
    (rest.dropWhile (· ≠ 47), output ++ slash ++ rest.takeWhile (· ≠ 47))

theorem turn_length {input output : Bytes} (h : input ≠ []) : (turn input output).1.length < input.length := by
  have hpos := List.length_pos_iff.mpr h
  unfold turn
  split_ifs with h₁ h₂ h₃ h₄ h₅ h₆ h₇
  · rw [List.length_drop]
    omega
  · rw [List.length_drop]
    omega
  · rw [List.length_drop]
    omega
  · simp [h₄]
  · rw [List.length_drop]
    omega
  · simp [h₆]
  · exact hpos
  · cases input with
    | nil => exact absurd rfl h
    | cons c rest =>
      by_cases hc : c = 47
      · have hle := (List.dropWhile_sublist (l := rest) (p := (· ≠ 47))).length_le
        simpa [hc] using Nat.lt_succ_of_le hle
      · have hle := (List.dropWhile_sublist (l := rest) (p := (· ≠ 47))).length_le
        simpa [hc] using Nat.lt_succ_of_le hle

def removeLoop (input output : Bytes) : Bytes :=
  if _h : input = [] then output
  else removeLoop (turn input output).1 (turn input output).2
termination_by input.length
decreasing_by exact turn_length _h

def removeDotSegments (path : Bytes) : Bytes := removeLoop path []

def dropDots : List Bytes → List Bytes → List Bytes
  | out, [] => out
  | out, s :: segments =>
    if s = [46] then dropDots (if segments = [] then out ++ [[]] else out) segments
    else if s = [46, 46] then dropDots (if segments = [] then out.dropLast ++ [[]] else out.dropLast) segments
    else dropDots (out ++ [s]) segments

theorem flat_head (segments : List Bytes) : flat segments = [] ∨ ∃ rest, flat segments = 47 :: rest := by
  cases segments with
  | nil => exact .inl rfl
  | cons s segments => exact .inr ⟨_, flat_cons s segments⟩

variable {s w path : Bytes} {out segments : List Bytes}

theorem segment_unique {t t' : Bytes} (hs : 47 ∉ s) (hw : 47 ∉ w) (ht : t = [] ∨ ∃ rest, t = 47 :: rest)
    (ht' : t' = [] ∨ ∃ rest, t' = 47 :: rest) (h : s ++ t = w ++ t') : s = w ∧ t = t' := by
  have hfree : ∀ {a b u u' : Bytes}, 47 ∉ b → (u = [] ∨ ∃ rest, u = 47 :: rest) → ∀ mid, b = a ++ mid →
      u = mid ++ u' → mid = [] := by
    intro a b u u' hb hu mid hmid hrest
    cases mid with
    | nil => rfl
    | cons c mid =>
      obtain rfl | ⟨rest, rfl⟩ := hu
      · cases hrest
      · rw [(List.cons.inj hrest).1] at hb
        exact absurd (by simp [hmid]) hb
  obtain ⟨mid, hmid, hrest⟩ | ⟨mid, hmid, hrest⟩ := List.append_eq_append_iff.mp h
  · obtain rfl := hfree hw ht mid hmid hrest
    exact ⟨by simpa using hmid.symm, by simpa using hrest⟩
  · obtain rfl := hfree hs ht' mid hmid hrest
    exact ⟨by simpa using hmid, by simpa using hrest.symm⟩

theorem prefix_segment (hs : 47 ∉ s) (hw : 47 ∉ w) (segments : List Bytes) :
    47 :: (w ++ [47]) <+: 47 :: (s ++ flat segments) ↔ s = w ∧ segments ≠ [] := by
  rw [List.cons_prefix_cons, and_iff_right rfl]
  constructor
  · rintro ⟨rest, heq⟩
    rw [List.append_assoc] at heq
    obtain ⟨rfl, hflat⟩ := segment_unique hw hs (.inr ⟨rest, rfl⟩) (flat_head segments) heq
    refine ⟨rfl, ?_⟩
    rintro rfl
    cases hflat
  · rintro ⟨rfl, hne⟩
    obtain ⟨t, segments, rfl⟩ := List.exists_cons_of_ne_nil hne
    exact ⟨t ++ flat segments, by rw [flat_cons, List.append_assoc]; rfl⟩

theorem eq_segment (hs : 47 ∉ s) (hw : 47 ∉ w) (segments : List Bytes) :
    47 :: (s ++ flat segments) = 47 :: w ↔ s = w ∧ segments = [] := by
  constructor
  · intro heq
    have htail : s ++ flat segments = w ++ [] := by rw [(List.cons.inj heq).2, List.append_nil]
    obtain ⟨rfl, hflat⟩ := segment_unique hs hw (flat_head segments) (.inl rfl) htail
    refine ⟨rfl, ?_⟩
    cases segments with
    | nil => rfl
    | cons t segments =>
      rw [flat_cons] at hflat
      cases hflat
  · rintro ⟨rfl, rfl⟩
    rw [flat_nil, List.append_nil]

theorem dropSegment_flat (h : ∀ s ∈ out, 47 ∉ s) : dropSegment (flat out) = flat out.dropLast := by
  obtain rfl | ⟨before, s, rfl⟩ := List.eq_nil_or_concat' out
  · rfl
  · have hs : ∀ c ∈ s, (decide (c ≠ 47)) = true := by
      intro c hc
      rw [decide_eq_true_eq]
      rintro rfl
      exact h s (by simp) hc
    have hsplit : flat (before ++ [s]) = (flat before ++ [47]) ++ s := by simp [flat_append]
    have hdrop : ((flat before ++ [47]) ++ s).rdropWhile (· ≠ 47) = flat before ++ [47] := by
      have hreverse : ∀ c ∈ s.reverse, (decide (c ≠ 47)) = true := fun c hc => hs c (List.mem_reverse.mp hc)
      rw [List.rdropWhile, List.reverse_append, List.dropWhile_append_of_pos hreverse, ← List.rdropWhile]
      exact List.rdropWhile_concat_neg _ _ _ (by simp)
    rw [dropSegment, hsplit, hdrop, List.dropLast_concat, List.dropLast_concat]

theorem turn_flat (hs : 47 ∉ s) (segments : List Bytes) (output : Bytes) :
    turn (flat (s :: segments)) output =
      if s = [46] then (if segments = [] then [47] else flat segments, output)
      else if s = [46, 46] then (if segments = [] then [47] else flat segments, dropSegment output)
      else (flat segments, output ++ 47 :: s) := by
  have hdot := prefix_segment hs (by decide : 47 ∉ ([46] : Bytes)) segments
  have hdots := prefix_segment hs (by decide : 47 ∉ ([46, 46] : Bytes)) segments
  have hdot' := eq_segment hs (by decide : 47 ∉ ([46] : Bytes)) segments
  have hdots' := eq_segment hs (by decide : 47 ∉ ([46, 46] : Bytes)) segments
  have hfirst : ¬[46, 46, 47] <+: 47 :: (s ++ flat segments) := by simp
  have hsecond : ¬[46, 47] <+: 47 :: (s ++ flat segments) := by simp
  have hbare : ¬(47 :: (s ++ flat segments) = [46] ∨ 47 :: (s ++ flat segments) = [46, 46]) := by simp
  rw [List.cons_append, List.nil_append] at hdot
  rw [List.cons_append, List.cons_append, List.nil_append] at hdots
  rw [turn, flat_cons, if_neg hfirst, if_neg hsecond]
  simp only [hdot, hdots, hdot', hdots', hbare, if_false]
  by_cases hs₁ : s = [46]
  · subst hs₁
    by_cases hsegments : segments = []
    · simp [hsegments]
    · simp [hsegments]
  · by_cases hs₂ : s = [46, 46]
    · subst hs₂
      by_cases hsegments : segments = []
      · simp [hsegments]
      · simp [hsegments]
    · have hfree : ∀ c ∈ s, (decide (c ≠ 47)) = true := by
        intro c hc
        rw [decide_eq_true_eq]
        rintro rfl
        exact hs hc
      have hflat : (flat segments).takeWhile (· ≠ 47) = [] ∧ (flat segments).dropWhile (· ≠ 47) = flat segments := by
        obtain hnil | ⟨rest, hrest⟩ := flat_head segments
        · rw [hnil]
          exact ⟨rfl, rfl⟩
        · rw [hrest]
          exact ⟨rfl, rfl⟩
      have hslash : ((47 :: (s ++ flat segments)).takeWhile (· = 47)).take 1 = [47] := by
        rw [List.takeWhile_cons_of_pos (by decide)]
        rfl
      simp only [hs₁, hs₂, false_and, if_false, hslash, List.length_singleton, List.drop_succ_cons, List.drop_zero,
        List.takeWhile_append_of_pos hfree, List.dropWhile_append_of_pos hfree, hflat, List.append_nil,
        List.append_assoc, List.singleton_append]

theorem removeLoop_nil (output : Bytes) : removeLoop [] output = output := by
  rw [removeLoop, dif_pos rfl]

theorem removeLoop_cons {input : Bytes} (h : input ≠ []) (output : Bytes) :
    removeLoop input output = removeLoop (turn input output).1 (turn input output).2 := by
  rw [removeLoop, dif_neg h]

theorem removeLoop_flat (hsegments : ∀ s ∈ segments, 47 ∉ s) (hout : ∀ s ∈ out, 47 ∉ s) :
    removeLoop (flat segments) (flat out) = flat (dropDots out segments) := by
  induction segments generalizing out with
  | nil => exact removeLoop_nil _
  | cons s segments ih =>
    obtain ⟨hs, hrest⟩ := List.forall_mem_cons.mp hsegments
    have hdrop : ∀ t ∈ out.dropLast, 47 ∉ t := fun t ht => hout t (List.dropLast_subset out ht)
    have hlast : ∀ out : List Bytes, removeLoop [47] (flat out) = flat (out ++ [[]]) := by
      intro out
      have hturn := turn_flat (by simp : 47 ∉ ([] : Bytes)) [] (flat out)
      rw [if_neg (by simp), if_neg (by simp)] at hturn
      rw [removeLoop_cons (by simp), show ([47] : Bytes) = flat [[]] from rfl, hturn, flat_nil, removeLoop_nil,
        flat_append]
      rfl
    rw [removeLoop_cons (by simp), turn_flat hs, dropDots]
    split_ifs with hs₁ hempty hs₂ hempty
    · rw [hempty, hlast, dropDots]
    · exact ih hrest hout
    · rw [hempty, dropSegment_flat hout, hlast, dropDots]
    · rw [dropSegment_flat hout]
      exact ih hrest hdrop
    · have hout' : ∀ t ∈ out ++ [s], 47 ∉ t := by
        intro t ht
        obtain ht | ht := List.mem_append.mp ht
        · exact hout t ht
        · rwa [List.mem_singleton.mp ht]
      have hstep := ih hrest hout'
      rwa [flat_append, flat_cons, flat_nil, List.append_nil] at hstep

def IsDots (s : Bytes) : Prop := s = [46] ∨ s = [46, 46]

instance (s : Bytes) : Decidable (IsDots s) := inferInstanceAs (Decidable (_ ∨ _))

theorem dropDots_of_free (h : ∀ s ∈ segments, ¬IsDots s) (out : List Bytes) :
    dropDots out segments = out ++ segments := by
  induction segments generalizing out with
  | nil => rw [dropDots, List.append_nil]
  | cons s segments ih =>
    obtain ⟨hs, hrest⟩ := List.forall_mem_cons.mp h
    rw [dropDots, if_neg (fun h => hs (.inl h)), if_neg (fun h => hs (.inr h)), ih hrest, List.append_assoc,
      List.singleton_append]

theorem dropDots_forall {P : Bytes → Prop} (hnil : P [])
    (hsegments : ∀ s ∈ segments, IsDots s ∨ P s) (hout : ∀ s ∈ out, P s) : ∀ s ∈ dropDots out segments, P s := by
  induction segments generalizing out with
  | nil => exact hout
  | cons s segments ih =>
    obtain ⟨hs, hrest⟩ := List.forall_mem_cons.mp hsegments
    have hadd : ∀ {out : List Bytes} {t : Bytes}, (∀ s ∈ out, P s) → P t → ∀ s ∈ out ++ [t], P s := by
      intro out t hout ht s hs
      obtain hs | hs := List.mem_append.mp hs
      · exact hout s hs
      · rwa [List.mem_singleton.mp hs]
    have hdrop : ∀ s ∈ out.dropLast, P s := fun t ht => hout t (List.dropLast_subset out ht)
    rw [dropDots]
    split_ifs with hdot hempty hdots hempty
    · exact ih hrest (hadd hout hnil)
    · exact ih hrest hout
    · exact ih hrest (hadd hdrop hnil)
    · exact ih hrest hdrop
    · exact ih hrest (hadd hout (hs.resolve_left (not_or.mpr ⟨hdot, hdots⟩)))

def segmentsOf (path : Bytes) : List Bytes := (path.splitOn 47).tail

def DotFree (path : Bytes) : Prop := ∀ s ∈ path.splitOn 47, ¬IsDots s

instance (path : Bytes) : Decidable (DotFree path) := inferInstanceAs (Decidable (∀ s ∈ path.splitOn 47, ¬IsDots s))

theorem flat_eq_intercalate (h : segments ≠ []) : flat segments = 47 :: [47].intercalate segments := by
  induction segments with
  | nil => exact absurd rfl h
  | cons s segments ih =>
    cases segments with
    | nil => rw [flat_cons, flat_nil, List.append_nil, List.intercalate_singleton]
    | cons t segments =>
      rw [flat_cons, ih (List.cons_ne_nil _ _), List.intercalate_cons_cons, List.append_assoc]
      rfl

theorem flat_segmentsOf (h : path = [] ∨ ∃ rest, path = 47 :: rest) : flat (segmentsOf path) = path := by
  obtain rfl | ⟨rest, rfl⟩ := h
  · rfl
  · rw [segmentsOf, List.splitOn_cons_eq_if_modifyHead, if_pos (by decide), List.tail_cons,
      flat_eq_intercalate (List.splitOn_ne_nil _ _), List.intercalate_splitOn]

theorem splitOn_flat (h : ∀ s ∈ segments, 47 ∉ s) : (flat segments).splitOn 47 = [] :: segments := by
  by_cases hne : segments = []
  · rw [hne]
    rfl
  · rw [flat_eq_intercalate hne, List.splitOn_cons_eq_if_modifyHead, if_pos (by decide),
      List.splitOn_intercalate 47 h hne]

theorem mem_splitOn {a : UInt8} {text : Bytes} (h : s ∈ text.splitOn a) : a ∉ s ∧ ∀ c ∈ s, c ∈ text := by
  induction text generalizing s with
  | nil =>
    rw [List.splitOn_nil, List.mem_singleton] at h
    subst h
    exact ⟨by simp, nofun⟩
  | cons b text ih =>
    rw [List.splitOn_cons_eq_if_modifyHead] at h
    split_ifs at h with hb
    · obtain rfl | h := List.mem_cons.mp h
      · exact ⟨by simp, nofun⟩
      · exact ⟨(ih h).1, fun c hc => List.mem_cons_of_mem _ ((ih h).2 c hc)⟩
    · obtain ⟨first, rest, hsplit⟩ := List.exists_cons_of_ne_nil (List.splitOn_ne_nil a text)
      rw [hsplit, List.modifyHead_cons] at h
      obtain rfl | h := List.mem_cons.mp h
      · have hfirst := ih (s := first) (by rw [hsplit]; exact List.mem_cons_self)
        refine ⟨?_, ?_⟩
        · intro ha
          obtain rfl | ha := List.mem_cons.mp ha
          · exact hb (BEq.refl _)
          · exact hfirst.1 ha
        · intro c hc
          obtain rfl | hc := List.mem_cons.mp hc
          · exact List.mem_cons_self
          · exact List.mem_cons_of_mem _ (hfirst.2 c hc)
      · have hmem := ih (s := s) (by rw [hsplit]; exact List.mem_cons_of_mem _ h)
        exact ⟨hmem.1, fun c hc => List.mem_cons_of_mem _ (hmem.2 c hc)⟩

theorem mem_segmentsOf (h : s ∈ segmentsOf path) : 47 ∉ s ∧ ∀ c ∈ s, c ∈ path :=
  mem_splitOn (List.mem_of_mem_tail h)

theorem removeDotSegments_eq (h : path = [] ∨ ∃ rest, path = 47 :: rest) :
    removeDotSegments path = flat (dropDots [] (segmentsOf path)) := by
  have hrun := @removeLoop_flat [] (segmentsOf path) (fun s hs => (mem_segmentsOf hs).1) nofun
  rwa [flat_segmentsOf h, flat_nil] at hrun

theorem removeDotSegments_spec (h : path = [] ∨ ∃ rest, path = 47 :: rest) :
    ∃ segments, removeDotSegments path = flat segments ∧
      ∀ s ∈ segments, ¬IsDots s ∧ 47 ∉ s ∧ ∀ c ∈ s, c ∈ path := by
  refine ⟨_, removeDotSegments_eq h, dropDots_forall ⟨by simp [IsDots], by simp, nofun⟩ ?_ nofun⟩
  intro s hs
  by_cases hdots : IsDots s
  · exact .inl hdots
  · exact .inr ⟨hdots, mem_segmentsOf hs⟩

theorem dotFree_flat (h : ∀ s ∈ segments, ¬IsDots s ∧ 47 ∉ s) : DotFree (flat segments) := by
  intro s hs
  rw [splitOn_flat (fun s hs => (h s hs).2)] at hs
  obtain rfl | hs := List.mem_cons.mp hs
  · simp [IsDots]
  · exact (h s hs).1

theorem removeDotSegments_of_dotFree (h : path = [] ∨ ∃ rest, path = 47 :: rest) (hfree : DotFree path) :
    removeDotSegments path = path := by
  have hsegments : ∀ s ∈ segmentsOf path, ¬IsDots s := fun s hs => hfree s (List.mem_of_mem_tail hs)
  rw [removeDotSegments_eq h, dropDots_of_free hsegments, List.nil_append, flat_segmentsOf h]

structure Reference where
  scheme : Option Bytes
  authority : Option Bytes
  path : Bytes
  query : Option Bytes
  fragment : Option Bytes

/-- What is before the first `c`, and what is after it. -/
def cut (c : UInt8) (s : Bytes) : Bytes × Option Bytes := (s.takeWhile (· ≠ c), (s.dropWhile (· ≠ c)).tail?)

def announced (c : UInt8) (component : Option Bytes) : Bytes := component.elim [] (c :: ·)

theorem span_announced {c : UInt8} (h : c ∉ s) (component : Option Bytes) :
    (s ++ announced c component).takeWhile (· ≠ c) = s ∧
      (s ++ announced c component).dropWhile (· ≠ c) = announced c component := by
  have hne : ∀ b ∈ s, (decide (b ≠ c)) = true := by
    intro b hb
    rw [decide_eq_true_eq]
    rintro rfl
    exact h hb
  rw [List.takeWhile_append_of_pos hne, List.dropWhile_append_of_pos hne]
  cases component with
  | none => simp [announced]
  | some rest => simp [announced]

theorem cut_append {c : UInt8} (h : c ∉ s) (component : Option Bytes) :
    cut c (s ++ announced c component) = (s, component) := by
  obtain ⟨htake, hdrop⟩ := span_announced h component
  rw [cut, htake, hdrop]
  cases component with
  | none => rfl
  | some rest => rfl

theorem append_cut (c : UInt8) (s : Bytes) : (cut c s).1 ++ announced c (cut c s).2 = s := by
  induction s with
  | nil => rfl
  | cons b s ih =>
    by_cases hb : b = c
    · simp [cut, announced, hb]
    · rw [cut] at ih ⊢
      rw [List.takeWhile_cons_of_pos (by simpa using hb), List.dropWhile_cons_of_pos (by simpa using hb),
        List.cons_append, ih]

theorem cut_free (c : UInt8) (s : Bytes) : c ∉ (cut c s).1 := by
  intro hc
  simpa using List.mem_takeWhile_imp hc

def isAlpha (c : UInt8) : Bool := 65 ≤ c ∧ c ≤ 90 ∨ 97 ≤ c ∧ c ≤ 122

def isSchemeByte (c : UInt8) : Bool := isAlpha c ∨ 48 ≤ c ∧ c ≤ 57 ∨ c = 43 ∨ c = 45 ∨ c = 46

def IsScheme (s : Bytes) : Prop := (∃ c ∈ s.head?, isAlpha c = true) ∧ ∀ c ∈ s, isSchemeByte c = true

instance (s : Bytes) : Decidable (IsScheme s) := inferInstanceAs (Decidable (_ ∧ _))

def cutScheme (s : Bytes) : Option Bytes × Bytes :=
  let name := s.takeWhile isSchemeByte
  if IsScheme name ∧ (s.dropWhile isSchemeByte).head? = some 58 then (some name, s.drop (name.length + 1))
  else (none, s)

def cutAuthority : Bytes → Option Bytes × Bytes
  | 47 :: 47 :: rest => (some (rest.takeWhile (· ≠ 47)), rest.dropWhile (· ≠ 47))
  | s => (none, s)

def parse (s : Bytes) : Reference :=
  let hierarchy := cut 63 (cut 35 (cutScheme s).2).1
  { scheme := (cutScheme s).1
    authority := (cutAuthority hierarchy.1).1
    path := (cutAuthority hierarchy.1).2
    query := hierarchy.2
    fragment := (cut 35 (cutScheme s).2).2 }

def recompose (r : Reference) : Bytes :=
  r.scheme.elim [] (· ++ [58]) ++ (r.authority.elim [] (47 :: 47 :: ·) ++ r.path ++ announced 63 r.query ++
    announced 35 r.fragment)

structure Valid (r : Reference) : Prop where
  scheme : ∀ s ∈ r.scheme, IsScheme s
  authority : ∀ a ∈ r.authority, 47 ∉ a ∧ 63 ∉ a ∧ 35 ∉ a
  path : 63 ∉ r.path ∧ 35 ∉ r.path
  rooted : r.authority.isSome → r.path = [] ∨ ∃ rest, r.path = 47 :: rest
  bare : r.authority = none → ¬[47, 47] <+: r.path
  query : ∀ q ∈ r.query, 35 ∉ q

theorem append_cutScheme (s : Bytes) : (cutScheme s).1.elim [] (· ++ [58]) ++ (cutScheme s).2 = s := by
  rw [cutScheme]
  split_ifs with h
  · obtain ⟨rest, hrest⟩ := List.head?_eq_some_iff.mp h.2
    have hs : s = s.takeWhile isSchemeByte ++ 58 :: rest := by rw [← hrest, List.takeWhile_append_dropWhile]
    generalize s.takeWhile isSchemeByte = name at hs ⊢
    subst hs
    simp
  · rfl

theorem cutScheme_append {name : Bytes} (h : IsScheme name) (rest : Bytes) :
    cutScheme (name ++ 58 :: rest) = (some name, rest) := by
  have hcolon : isSchemeByte 58 = false := by decide
  have htake : (name ++ 58 :: rest).takeWhile isSchemeByte = name := by
    rw [List.takeWhile_append_of_pos h.2, List.takeWhile_cons_of_neg (by simp [hcolon]), List.append_nil]
  have hdrop : (name ++ 58 :: rest).dropWhile isSchemeByte = 58 :: rest := by
    rw [List.dropWhile_append_of_pos h.2, List.dropWhile_cons_of_neg (by simp [hcolon])]
  have htail : (name ++ 58 :: rest).drop (name.length + 1) = rest := by simp
  rw [cutScheme]
  simp only [htake, hdrop, htail, List.head?_cons, and_true, if_pos h]

theorem append_cutAuthority (s : Bytes) : (cutAuthority s).1.elim [] (47 :: 47 :: ·) ++ (cutAuthority s).2 = s := by
  rw [cutAuthority.eq_def]
  split
  · simp only [Option.elim_some, List.cons_append, List.takeWhile_append_dropWhile]
  · rfl

theorem recompose_parse (s : Bytes) : recompose (parse s) = s := by
  simp only [recompose, parse, append_cutAuthority, append_cut, append_cutScheme]

theorem cutAuthority_append {authority : Option Bytes} (h : ∀ a ∈ authority, 47 ∉ a)
    (hrooted : authority.isSome → path = [] ∨ ∃ rest, path = 47 :: rest)
    (hbare : authority = none → ¬[47, 47] <+: path) :
    cutAuthority (authority.elim [] (47 :: 47 :: ·) ++ path) = (authority, path) := by
  cases authority with
  | none =>
    rw [Option.elim_none, List.nil_append, cutAuthority.eq_def]
    split
    · exact absurd ⟨_, rfl⟩ (hbare rfl)
    · rfl
  | some a =>
    have hne : ∀ b ∈ a, (decide (b ≠ 47)) = true := by
      intro b hb
      rw [decide_eq_true_eq]
      rintro rfl
      exact h a rfl hb
    have hpath : path.takeWhile (· ≠ 47) = [] ∧ path.dropWhile (· ≠ 47) = path := by
      obtain rfl | ⟨rest, rfl⟩ := hrooted rfl
      · exact ⟨rfl, rfl⟩
      · exact ⟨rfl, rfl⟩
    rw [Option.elim_some, List.cons_append, List.cons_append, cutAuthority, List.takeWhile_append_of_pos hne,
      List.dropWhile_append_of_pos hne, hpath.1, hpath.2, List.append_nil]

variable {r base : Reference}

theorem parse_recompose (h : Valid r) (hscheme : r.scheme.isSome) : parse (recompose r) = r := by
  obtain ⟨scheme, authority, path, query, fragment⟩ := r
  obtain ⟨name, rfl⟩ := Option.isSome_iff_exists.mp hscheme
  have hhierarchy : 63 ∉ authority.elim [] (47 :: 47 :: ·) ++ path ∧ 35 ∉ authority.elim [] (47 :: 47 :: ·) ++ path := by
    cases authority with
    | none => exact h.path
    | some a =>
      obtain ⟨-, ha, ha'⟩ := h.authority a rfl
      have hpath := h.path
      constructor
      · simpa [ha] using hpath.1
      · simpa [ha'] using hpath.2
  have hquery : 35 ∉ authority.elim [] (47 :: 47 :: ·) ++ path ++ announced 63 query := by
    cases query with
    | none => simpa [announced] using hhierarchy.2
    | some q => simpa [announced, h.query q rfl] using hhierarchy.2
  have hauthority := cutAuthority_append (fun a ha => (h.authority a ha).1) h.rooted h.bare
  simp only [recompose, parse, Option.elim_some, List.append_assoc, List.singleton_append,
    cutScheme_append (h.scheme name rfl)]
  rw [← List.append_assoc, ← List.append_assoc, cut_append hquery, cut_append hhierarchy.1, hauthority]

theorem isScheme_of_cutScheme {name : Bytes} (h : name ∈ (cutScheme s).1) : IsScheme name := by
  rw [cutScheme] at h
  split_ifs at h with hname
  · rw [← Option.some.inj h]
    exact hname.1
  · cases h

theorem dropWhile_rooted (s : Bytes) : s.dropWhile (· ≠ 47) = [] ∨ ∃ rest, s.dropWhile (· ≠ 47) = 47 :: rest := by
  cases hrest : s.dropWhile (· ≠ 47) with
  | nil => exact .inl rfl
  | cons c rest =>
    have hc := List.head_dropWhile_not (p := (· ≠ 47)) (l := s) (by rw [hrest]; exact List.cons_ne_nil _ _)
    simp only [hrest, List.head_cons, decide_eq_false_iff_not, not_not] at hc
    exact .inr ⟨rest, by rw [hc]⟩

theorem cutAuthority_spec (s : Bytes) :
    (∀ a ∈ (cutAuthority s).1, 47 ∉ a ∧ ∀ c ∈ a, c ∈ s) ∧ (∀ c ∈ (cutAuthority s).2, c ∈ s) ∧
      ((cutAuthority s).1.isSome → (cutAuthority s).2 = [] ∨ ∃ rest, (cutAuthority s).2 = 47 :: rest) ∧
      ((cutAuthority s).1 = none → ¬[47, 47] <+: (cutAuthority s).2) := by
  rw [cutAuthority.eq_def]
  split
  · rename_i rest
    have hmem : ∀ c ∈ rest, c ∈ 47 :: 47 :: rest := fun c hc => List.mem_cons_of_mem _ (List.mem_cons_of_mem _ hc)
    refine ⟨?_, fun c hc => hmem c (List.dropWhile_subset _ hc), fun _ => dropWhile_rooted rest, nofun⟩
    rintro a ⟨rfl⟩
    refine ⟨fun h => ?_, fun c hc => hmem c (List.takeWhile_subset _ hc)⟩
    simpa using List.mem_takeWhile_imp h
  · rename_i hbare
    refine ⟨nofun, fun c hc => hc, nofun, ?_⟩
    rintro - ⟨rest, rfl⟩
    exact hbare rest rfl

theorem parse_valid (s : Bytes) : Valid (parse s) := by
  have hquery := cut_free 63 (cut 35 (cutScheme s).2).1
  have hfragment := cut_free 35 (cutScheme s).2
  have hsplit := append_cut 63 (cut 35 (cutScheme s).2).1
  obtain ⟨hauthority, hpath, hrooted, hbare⟩ := cutAuthority_spec (cut 63 (cut 35 (cutScheme s).2).1).1
  have hfree : 35 ∉ (cut 63 (cut 35 (cutScheme s).2).1).1 := by
    rw [← hsplit] at hfragment
    exact fun h => hfragment (List.mem_append_left _ h)
  refine ⟨fun name => isScheme_of_cutScheme, ?_, ⟨fun h => hquery (hpath _ h), fun h => hfree (hpath _ h)⟩, hrooted,
    hbare, ?_⟩
  · intro a ha
    obtain ⟨hslash, hmem⟩ := hauthority a ha
    exact ⟨hslash, fun h => hquery (hmem _ h), fun h => hfree (hmem _ h)⟩
  · intro q hq h
    have hq : (cut 63 (cut 35 (cutScheme s).2).1).2 = some q := hq
    rw [← hsplit, hq] at hfragment
    exact hfragment (List.mem_append_right _ (List.mem_cons_of_mem _ h))

def merge (base : Reference) (path : Bytes) : Bytes :=
  if base.authority.isSome ∧ base.path = [] then 47 :: path else base.path.rdropWhile (· ≠ 47) ++ path

def resolve (base r : Reference) : Reference :=
  if r.scheme.isSome then { r with path := removeDotSegments r.path }
  else if r.authority.isSome then { r with scheme := base.scheme, path := removeDotSegments r.path }
  else if r.path = [] then { base with query := r.query.or base.query, fragment := r.fragment }
  else
    { r with
      scheme := base.scheme
      authority := base.authority
      path := removeDotSegments (if r.path.head? = some 47 then r.path else merge base r.path) }

theorem merge_rooted (h : Valid base) (hauthority : base.authority.isSome) (path : Bytes) :
    (∃ rest, merge base path = 47 :: rest) ∧ ∀ c ∈ merge base path, c = 47 ∨ c ∈ base.path ∨ c ∈ path := by
  by_cases hempty : base.path = []
  · rw [merge, if_pos ⟨hauthority, hempty⟩]
    refine ⟨⟨path, rfl⟩, fun c hc => ?_⟩
    obtain rfl | hc := List.mem_cons.mp hc
    · exact .inl rfl
    · exact .inr (.inr hc)
  · obtain ⟨rest, hrest⟩ := (h.rooted hauthority).resolve_left hempty
    rw [merge, if_neg (fun h => hempty h.2)]
    constructor
    · have hne : base.path.rdropWhile (· ≠ 47) ≠ [] := by
        rw [ne_eq, List.rdropWhile_eq_nil_iff]
        intro hall
        simpa using hall 47 (by rw [hrest]; exact List.mem_cons_self)
      obtain ⟨c, kept, hkept⟩ := List.exists_cons_of_ne_nil hne
      have hprefix := List.rdropWhile_prefix (· ≠ 47) base.path
      rw [hkept, hrest, List.cons_prefix_cons] at hprefix
      exact ⟨kept ++ path, by rw [hkept, hprefix.1, List.cons_append]⟩
    · intro c hc
      obtain hc | hc := List.mem_append.mp hc
      · exact .inr (.inl ((List.rdropWhile_prefix (· ≠ 47) base.path).subset hc))
      · exact .inr (.inr hc)

theorem removed_path (h : path = [] ∨ ∃ rest, path = 47 :: rest) :
    DotFree (removeDotSegments path) ∧
      (removeDotSegments path = [] ∨ ∃ rest, removeDotSegments path = 47 :: rest) ∧
      ∀ c ∈ removeDotSegments path, c = 47 ∨ c ∈ path := by
  obtain ⟨segments, heq, hsegments⟩ := removeDotSegments_spec h
  rw [heq]
  refine ⟨dotFree_flat fun s hs => ⟨(hsegments s hs).1, (hsegments s hs).2.1⟩, flat_head segments, ?_⟩
  intro c hc
  obtain ⟨s, hs, hc⟩ := List.mem_flatMap.mp hc
  obtain rfl | hc := List.mem_cons.mp hc
  · exact .inl rfl
  · exact .inr ((hsegments s hs).2.2 c hc)

theorem resolve_path (hbase : Valid base) (hauthority : base.authority.isSome) (hr : Valid r)
    (hscheme : r.scheme = none) (hpath : r.path ≠ []) :
    ∃ path, (resolve base r).path = removeDotSegments path ∧ (∃ rest, path = 47 :: rest) ∧
      ∀ c ∈ path, c = 47 ∨ c ∈ base.path ∨ c ∈ r.path := by
  have hnone : r.scheme.isSome = false := by rw [hscheme, Option.isSome_none]
  unfold resolve
  simp only [hnone, Bool.false_eq_true, if_false]
  split_ifs with h hslash
  · exact ⟨r.path, rfl, (hr.rooted h).resolve_left hpath, fun c hc => .inr (.inr hc)⟩
  · exact ⟨r.path, rfl, List.head?_eq_some_iff.mp hslash, fun c hc => .inr (.inr hc)⟩
  · exact ⟨_, rfl, merge_rooted hbase hauthority r.path⟩

theorem resolve_dotFree (hbase : Valid base) (hauthority : base.authority.isSome) (hr : Valid r)
    (hscheme : r.scheme = none) (hpath : r.path ≠ []) : DotFree (resolve base r).path := by
  obtain ⟨path, heq, hrooted, -⟩ := resolve_path hbase hauthority hr hscheme hpath
  rw [heq]
  exact (removed_path (.inr hrooted)).1

theorem removed_nil : removeDotSegments [] = [] := removeLoop_nil []

theorem resolve_valid (hbase : Valid base) (hauthority : base.authority.isSome) (hr : Valid r)
    (hscheme : r.scheme = none) : Valid (resolve base r) ∧ (resolve base r).scheme = base.scheme := by
  have hnone : r.scheme.isSome = false := by rw [hscheme, Option.isSome_none]
  have hpath : (resolve base r).path = base.path ∨ ((resolve base r).path = [] ∨
      ∃ rest, (resolve base r).path = 47 :: rest) ∧
        ∀ c ∈ (resolve base r).path, c = 47 ∨ c ∈ base.path ∨ c ∈ r.path := by
    by_cases hempty : r.path = []
    · unfold resolve
      simp only [hnone, Bool.false_eq_true, if_false, hempty, if_true, removed_nil]
      split_ifs with h
      · exact .inr ⟨.inl rfl, nofun⟩
      · exact .inl rfl
    · obtain ⟨path, heq, hrooted, hmem⟩ := resolve_path hbase hauthority hr hscheme hempty
      obtain ⟨-, hrooted', hmem'⟩ := removed_path (.inr hrooted)
      rw [heq]
      refine .inr ⟨hrooted', fun c hc => ?_⟩
      obtain rfl | hc := hmem' c hc
      · exact .inl rfl
      · exact hmem c hc
  have hrooted : (resolve base r).path = [] ∨ ∃ rest, (resolve base r).path = 47 :: rest := by
    obtain h | h := hpath
    · rw [h]
      exact hbase.rooted hauthority
    · exact h.1
  have hfree : 63 ∉ (resolve base r).path ∧ 35 ∉ (resolve base r).path := by
    obtain h | h := hpath
    · rw [h]
      exact hbase.path
    · constructor
      · intro hc
        obtain hc | hc | hc := h.2 63 hc
        · exact absurd hc (by decide)
        · exact hbase.path.1 hc
        · exact hr.path.1 hc
      · intro hc
        obtain hc | hc | hc := h.2 35 hc
        · exact absurd hc (by decide)
        · exact hbase.path.2 hc
        · exact hr.path.2 hc
  have hrest : (resolve base r).scheme = base.scheme ∧
      ((resolve base r).authority = r.authority ∧ r.authority.isSome ∨ (resolve base r).authority = base.authority) ∧
      ((resolve base r).query = r.query ∨ (resolve base r).query = base.query) := by
    unfold resolve
    simp only [hnone, Bool.false_eq_true, if_false]
    split_ifs with h hempty
    · exact ⟨rfl, .inl ⟨rfl, h⟩, .inl rfl⟩
    · refine ⟨rfl, .inr rfl, ?_⟩
      cases r.query with
      | none => exact .inr rfl
      | some q => exact .inl rfl
    · exact ⟨rfl, .inr rfl, .inl rfl⟩
    · exact ⟨rfl, .inr rfl, .inl rfl⟩
  obtain ⟨hname, hhost, hquery⟩ := hrest
  refine ⟨⟨?_, ?_, hfree, fun _ => hrooted, ?_, ?_⟩, hname⟩
  · rw [hname]
    exact hbase.scheme
  · obtain ⟨h, -⟩ | h := hhost
    · rw [h]
      exact hr.authority
    · rw [h]
      exact hbase.authority
  · intro h
    obtain ⟨h', hsome⟩ | h' := hhost
    · rw [← h', h] at hsome
      cases hsome
    · rw [← h', h] at hauthority
      cases hauthority
  · obtain h | h := hquery
    · rw [h]
      exact hr.query
    · rw [h]
      exact hbase.query

end PageSpeed.Uri
