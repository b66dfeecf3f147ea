import Mathlib.Data.List.TakeDrop
import PageSpeed.Base.Ascii
import PageSpeed.Base.StringUtil
import PageSpeed.Lib.Words

/-!
Candidates of a `srcset` attribute, as `ParseSrcSet` reads and `Serialize` writes them, and as the HTML standard
splits the attribute.
-/

namespace PageSpeed.Rewriter.SrcSet

open Words

structure ImageCandidate where
  url : GoogleString
  descriptor : GoogleString
  deriving DecidableEq

def isSeparator (c : UInt8) : Bool := isHtmlSpace c || c == 44

def skipSeparators (input : GoogleString) : GoogleString := input.dropWhile isSeparator

def trimCommas (url : GoogleString) : GoogleString := url.rdropWhile (· == 44)

def descriptorEnd (insideParen : Bool) : GoogleString → ℕ
  | [] => 0
  | c :: input =>
    if c = 40 then descriptorEnd true input + 1
    else if c = 41 ∧ insideParen = true then descriptorEnd false input + 1
    else if c = 44 ∧ insideParen = false then 0
    else descriptorEnd insideParen input + 1

def takeUrl (input : GoogleString) : GoogleString × GoogleString :=
  let urlEnd := (input.takeWhile fun c => !isHtmlSpace c).length
  if urlEnd = input.length then (input, []) else (substr input 0 urlEnd, substrFrom input urlEnd)

/-- The descriptor, and what is left; `pos` and `n` are `int`s. -/
def takeDescriptor (input : GoogleString) : GoogleString × GoogleString :=
  let n := toInt32 input.length
  let pos := descriptorEnd false (input.take n.toNat)
  (trimWhitespace (substr input 0 pos), substrFrom input pos)

/-- One turn of the loop of `ParseSrcSet`. -/
def nextCandidate (input : GoogleString) : Option (ImageCandidate × GoogleString) :=
  let input := skipSeparators input
  if input.isEmpty then none
  else
    let (url, input) := takeUrl input
    -- A URL with commas behind it has no descriptor.
    if url.getLast? = some 44 then some (⟨trimCommas url, []⟩, input)
    else
      let (descriptor, input) := takeDescriptor input
      some (⟨url, descriptor⟩, input)

def parseFuel : ℕ → GoogleString → Option (List ImageCandidate)
  | 0, _ => none
  | fuel + 1, input =>
    match nextCandidate input with
    | none => some []
    | some (cand, rest) => (parseFuel fuel rest).map (cand :: ·)

/-- A turn that takes nothing is taken again and again: `none`. -/
def parseSrcSet (input : GoogleString) : Option (List ImageCandidate) := parseFuel (input.length + 1) input

def candidateText (cand : ImageCandidate) : GoogleString :=
  cand.url ++ if cand.descriptor.isEmpty then [] else 32 :: cand.descriptor

def joined (cands : List ImageCandidate) : GoogleString := joinCollection (cands.map candidateText) (ascii ", ")

/-- The count of the candidates is an `int`. -/
def serialize (cands : List ImageCandidate) : GoogleString := joined (cands.take (toInt32 cands.length).toNat)

/-! The standard. -/

inductive TokenizerState
  | inDescriptor
  | inParens
  | afterDescriptor
  deriving DecidableEq

structure Tokens where
  descriptors : List GoogleString
  text : GoogleString
  rest : GoogleString

def Tokens.pass (c : UInt8) (t : Tokens) : Tokens := { t with text := c :: t.text }

def Tokens.emit (current : GoogleString) (t : Tokens) : Tokens :=
  { t with descriptors := if current.isEmpty then t.descriptors else current :: t.descriptors }

def tokenize : TokenizerState → GoogleString → GoogleString → Tokens
  | .inDescriptor, current, [] => Tokens.emit current ⟨[], [], []⟩
  | .inDescriptor, current, c :: input =>
    if isHtmlSpace c then ((tokenize .afterDescriptor [] input).pass c).emit current
    else if c = 44 then Tokens.emit current ⟨[], [], input⟩
    else if c = 40 then (tokenize .inParens (current ++ [c]) input).pass c
    else (tokenize .inDescriptor (current ++ [c]) input).pass c
  | .inParens, current, [] => ⟨[current], [], []⟩
  | .inParens, current, c :: input =>
    if c = 41 then (tokenize .inDescriptor (current ++ [c]) input).pass c
    else (tokenize .inParens (current ++ [c]) input).pass c
  | .afterDescriptor, _, [] => ⟨[], [], []⟩
  | .afterDescriptor, current, c :: input =>
    if isHtmlSpace c then (tokenize .afterDescriptor current input).pass c
    -- The position is set back, and the character read in a descriptor.
    else if c = 44 then ⟨[], [], input⟩
    else if c = 40 then (tokenize .inParens [c] input).pass c
    else (tokenize .inDescriptor [c] input).pass c

structure Split where
  word : GoogleString
  behind : GoogleString
  descriptors : List GoogleString
  text : GoogleString

def splitNext (input : GoogleString) : Option (Split × GoogleString) :=
  let input := input.dropWhile isSeparator
  if input.isEmpty then none
  else
    let word := input.takeWhile fun c => !isHtmlSpace c
    let behind := input.dropWhile fun c => !isHtmlSpace c
    if word.getLast? = some 44 then some (⟨word, behind, [], []⟩, behind)
    else
      let tokens := tokenize .inDescriptor [] (behind.dropWhile isHtmlSpace)
      some (⟨word, behind, tokens.descriptors, behind.takeWhile isHtmlSpace ++ tokens.text⟩, tokens.rest)

def splitFuel : ℕ → GoogleString → List Split
  | 0, _ => []
  | fuel + 1, input =>
    match splitNext input with
    | none => []
    | some (cand, rest) => cand :: splitFuel fuel rest

def splitting (input : GoogleString) : List Split := splitFuel (input.length + 1) input

def Split.url (c : Split) : GoogleString := trimCommas c.word

def Split.candidate (c : Split) : ImageCandidate := ⟨c.url, trimWhitespace c.text⟩

example : parseSrcSet (ascii " ,a.jpg, b.jpg 1w,, d.jpg (x, y) , e,f.jpg 10w") = some [⟨ascii "a.jpg", []⟩,
    ⟨ascii "b.jpg", ascii "1w"⟩, ⟨ascii "d.jpg", ascii "(x, y)"⟩, ⟨ascii "e,f.jpg", ascii "10w"⟩] := by
  decide +kernel

/-! The text of a descriptor. -/

/-- Where a text of a descriptor leaves the parentheses; `none` is a comma outside of them. -/
def paren : Bool → GoogleString → Option Bool
  | inside, [] => some inside
  | inside, c :: s =>
    if c = 40 then paren true s
    else if c = 41 ∧ inside = true then paren false s
    else if c = 44 ∧ inside = false then none
    else paren inside s

theorem paren_append (inside : Bool) (s t : GoogleString) :
    paren inside (s ++ t) = (paren inside s).bind (paren · t) := by
  induction s generalizing inside with
  | nil => rfl
  | cons c s ih =>
    rw [List.cons_append, paren, paren]
    split_ifs
    · exact ih true
    · exact ih false
    · rfl
    · exact ih inside

theorem plain_of_space {c : UInt8} (h : isHtmlSpace c = true) : c ≠ 40 ∧ c ≠ 41 ∧ c ≠ 44 := by
  unfold isHtmlSpace at h
  grind

theorem paren_space {c : UInt8} (h : isHtmlSpace c = true) (inside : Bool) (s : GoogleString) :
    paren inside (c :: s) = paren inside s := by
  have hc := plain_of_space h
  rw [paren, if_neg hc.1, if_neg fun hparen => hc.2.1 hparen.1, if_neg fun hcomma => hc.2.2 hcomma.1]

theorem paren_blank {s : GoogleString} (h : ∀ c ∈ s, isHtmlSpace c = true) (inside : Bool) (t : GoogleString) :
    paren inside (s ++ t) = paren inside t := by
  induction s with
  | nil => rfl
  | cons c s ih =>
    rw [List.forall_mem_cons] at h
    rw [List.cons_append, paren_space h.1, ih h.2]

theorem paren_trim (inside : Bool) (s : GoogleString) : paren inside (trimWhitespace s) = paren inside s := by
  obtain ⟨front, back, hs, hfront, hback⟩ := exists_trim isHtmlSpace s
  have hend : ∀ b, paren b back = some b := fun b => by
    have hblank := paren_blank hback b []
    rwa [List.append_nil] at hblank
  have htrim : trimWhitespace s = trim isHtmlSpace s := rfl
  conv_rhs => rw [hs, List.append_assoc, paren_blank hfront, paren_append]
  rw [htrim]
  cases paren inside (trim isHtmlSpace s) with
  | none => rfl
  | some b => exact (hend b).symm

theorem descriptorEnd_spec (inside : Bool) (s : GoogleString) :
    ∃ inside', paren inside (s.take (descriptorEnd inside s)) = some inside' ∧ (s.drop (descriptorEnd inside s) = [] ∨
      inside' = false ∧ ∃ rest, s.drop (descriptorEnd inside s) = 44 :: rest) := by
  induction s generalizing inside with
  | nil => exact ⟨inside, rfl, Or.inl rfl⟩
  | cons c s ih =>
    rw [descriptorEnd]
    split_ifs with hopen hclose hcomma
    · rw [List.take_succ_cons, List.drop_succ_cons, paren, if_pos hopen]
      exact ih true
    · rw [List.take_succ_cons, List.drop_succ_cons, paren, if_neg hopen, if_pos hclose]
      exact ih false
    · exact ⟨inside, rfl, Or.inr ⟨hcomma.2, s, by rw [List.drop_zero, hcomma.1]⟩⟩
    · rw [List.take_succ_cons, List.drop_succ_cons, paren, if_neg hopen, if_neg hclose, if_neg hcomma]
      exact ih inside

theorem descriptorEnd_comma {inside : Bool} {s : GoogleString} (h : paren inside s = some false) (t : GoogleString) :
    descriptorEnd inside (s ++ 44 :: t) = s.length := by
  induction s generalizing inside with
  | nil =>
    obtain rfl := Option.some_inj.mp h
    rfl
  | cons c s ih =>
    rw [paren] at h
    rw [List.cons_append, descriptorEnd]
    split_ifs at h ⊢
    · rw [ih h, List.length_cons]
    · rw [ih h, List.length_cons]
    · rw [ih h, List.length_cons]

theorem descriptorEnd_all {inside inside' : Bool} {s : GoogleString} (h : paren inside s = some inside') :
    descriptorEnd inside s = s.length := by
  induction s generalizing inside with
  | nil => rfl
  | cons c s ih =>
    rw [paren] at h
    rw [descriptorEnd]
    split_ifs at h ⊢
    · rw [ih h, List.length_cons]
    · rw [ih h, List.length_cons]
    · rw [ih h, List.length_cons]

theorem descriptorEnd_take (inside : Bool) (s : GoogleString) (n : ℕ) :
    descriptorEnd inside (s.take n) = min n (descriptorEnd inside s) := by
  induction s generalizing inside n with
  | nil => rw [List.take_nil, descriptorEnd, Nat.min_zero]
  | cons c s ih =>
    cases n with
    | zero => rw [List.take_zero, descriptorEnd, Nat.zero_min]
    | succ n =>
      rw [List.take_succ_cons, descriptorEnd, descriptorEnd]
      split_ifs
      · rw [ih, Nat.succ_min_succ]
      · rw [ih, Nat.succ_min_succ]
      · rw [Nat.min_zero]
      · rw [ih, Nat.succ_min_succ]

theorem descriptorEnd_le (inside : Bool) (s : GoogleString) : descriptorEnd inside s ≤ s.length := by
  have htake := descriptorEnd_take inside s s.length
  rw [List.take_length] at htake
  rw [htake]
  exact Nat.min_le_left _ _

theorem descriptorEnd_space {c : UInt8} (h : isHtmlSpace c = true) (inside : Bool) (s : GoogleString) :
    descriptorEnd inside (c :: s) = descriptorEnd inside s + 1 := by
  have hc := plain_of_space h
  rw [descriptorEnd, if_neg hc.1, if_neg fun hparen => hc.2.1 hparen.1, if_neg fun hcomma => hc.2.2 hcomma.1]

theorem descriptorEnd_blank {s : GoogleString} (h : ∀ c ∈ s, isHtmlSpace c = true) (inside : Bool) (t : GoogleString) :
    descriptorEnd inside (s ++ t) = s.length + descriptorEnd inside t := by
  induction s with
  | nil => rw [List.nil_append, List.length_nil, Nat.zero_add]
  | cons c s ih =>
    rw [List.forall_mem_cons] at h
    rw [List.cons_append, descriptorEnd_space h.1, ih h.2, List.length_cons]
    omega

structure Tokens.UpTo (t : Tokens) (s : GoogleString) (n : ℕ) : Prop where
  text : t.text = s.take n
  rest : t.rest = s.drop (n + 1)

theorem Tokens.UpTo.pass {t : Tokens} {s : GoogleString} {n : ℕ} (h : t.UpTo s n) (c : UInt8) :
    (t.pass c).UpTo (c :: s) (n + 1) where
  text := by rw [Tokens.pass, h.text, List.take_succ_cons]
  rest := h.rest

theorem Tokens.UpTo.emit {t : Tokens} {s : GoogleString} {n : ℕ} (h : t.UpTo s n) (current : GoogleString) :
    (t.emit current).UpTo s n := ⟨h.text, h.rest⟩

theorem Tokens.UpTo.append_left {t : Tokens} {s : GoogleString} {n : ℕ} (h : t.UpTo s n) (front : GoogleString) :
    front ++ t.text = (front ++ s).take (front.length + n) ∧ t.rest = (front ++ s).drop (front.length + n + 1) := by
  rw [h.text, h.rest, List.take_length_add_append, Nat.add_assoc, List.drop_length_add_append]
  exact ⟨rfl, rfl⟩

theorem tokenize_upTo (state : TokenizerState) (current s : GoogleString) :
    (tokenize state current s).UpTo s (descriptorEnd (decide (state = .inParens)) s) := by
  induction s generalizing state current with
  | nil => cases state <;> exact ⟨rfl, rfl⟩
  | cons c s ih =>
    have hplain := fun current => (ih .inDescriptor current).pass c
    have hparens := fun current => (ih .inParens current).pass c
    have hafter := fun current => (ih .afterDescriptor current).pass c
    simp only [reduceCtorEq, decide_false, decide_true] at hplain hparens hafter
    cases state with
    | inDescriptor =>
      simp only [reduceCtorEq, decide_false]
      rw [tokenize]
      split_ifs with hspace hcomma hopen
      · rw [descriptorEnd_space hspace]
        exact (hafter []).emit current
      · subst hcomma
        exact ⟨rfl, rfl⟩
      · rw [descriptorEnd, if_pos hopen]
        exact hparens _
      · rw [descriptorEnd, if_neg hopen, if_neg fun h => Bool.false_ne_true h.2, if_neg fun h => hcomma h.1]
        exact hplain _
    | inParens =>
      simp only [decide_true]
      rw [tokenize]
      split_ifs with hclose
      · subst hclose
        exact hplain _
      · by_cases hopen : c = 40
        · rw [descriptorEnd, if_pos hopen]
          exact hparens _
        · rw [descriptorEnd, if_neg hopen, if_neg fun h => hclose h.1, if_neg fun h => Bool.false_ne_true h.2.symm]
          exact hparens _
    | afterDescriptor =>
      simp only [reduceCtorEq, decide_false]
      rw [tokenize]
      split_ifs with hspace hcomma hopen
      · rw [descriptorEnd_space hspace]
        exact hafter current
      · subst hcomma
        exact ⟨rfl, rfl⟩
      · rw [descriptorEnd, if_pos hopen]
        exact hparens _
      · rw [descriptorEnd, if_neg hopen, if_neg fun h => Bool.false_ne_true h.2, if_neg fun h => hcomma h.1]
        exact hplain _

/-! One candidate. -/

def Behind (behind : GoogleString) : Prop := behind = [] ∨ ∃ c rest, behind = c :: rest ∧ isHtmlSpace c = true

structure Front (s word behind : GoogleString) : Prop where
  eq : skipSeparators s = word ++ behind
  plain : ∀ c ∈ word, isHtmlSpace c = false
  head : ∃ c rest, word = c :: rest ∧ c ≠ 44
  behind : Behind behind

theorem front_or_nil (s : GoogleString) : skipSeparators s = [] ∨ ∃ word behind, Front s word behind := by
  by_cases hnil : skipSeparators s = []
  · exact Or.inl hnil
  · have hhead := List.head_dropWhile_not isSeparator hnil
    obtain ⟨c, rest, hrest⟩ := List.exists_cons_of_ne_nil hnil
    have hc : isSeparator c = false := by
      have hhead? := List.head?_dropWhile_not isSeparator s
      rw [← skipSeparators, hrest] at hhead?
      simpa using hhead?
    rw [isSeparator, Bool.or_eq_false_iff] at hc
    refine Or.inr ⟨(c :: rest).takeWhile (fun c => !isHtmlSpace c), (c :: rest).dropWhile (fun c => !isHtmlSpace c),
      ?_, ?_, ?_, ?_⟩
    · rw [hrest, List.takeWhile_append_dropWhile]
    · intro d hd
      have hkeep := List.mem_takeWhile_imp hd
      simpa using hkeep
    · refine ⟨c, rest.takeWhile (fun c => !isHtmlSpace c), ?_, by simpa using hc.2⟩
      rw [List.takeWhile_cons, hc.1]
      rfl
    · by_cases hbehind : (c :: rest).dropWhile (fun c => !isHtmlSpace c) = []
      · exact Or.inl hbehind
      · obtain ⟨d, more, hmore⟩ := List.exists_cons_of_ne_nil hbehind
        have hstop := List.head?_dropWhile_not (fun c => !isHtmlSpace c) (c :: rest)
        rw [hmore] at hstop
        exact Or.inr ⟨d, more, hmore, by simpa using hstop⟩

section

variable {s word behind : GoogleString}

theorem Front.takeWhile (h : Front s word behind) : (word ++ behind).takeWhile (fun c => !isHtmlSpace c) = word := by
  have hword : ∀ c ∈ word, (!isHtmlSpace c) = true := fun c hc => by rw [h.plain c hc]; rfl
  rw [List.takeWhile_append_of_pos hword]
  obtain rfl | ⟨c, rest, rfl, hc⟩ := h.behind
  · rw [List.takeWhile_nil, List.append_nil]
  · rw [List.takeWhile_cons, hc]
    exact List.append_nil word

theorem Front.dropWhile (h : Front s word behind) : (word ++ behind).dropWhile (fun c => !isHtmlSpace c) = behind := by
  have hboth := List.takeWhile_append_dropWhile (p := fun c => !isHtmlSpace c) (l := word ++ behind)
  rw [h.takeWhile] at hboth
  exact List.append_cancel_left hboth

/-- How far `substr` goes, where a position is a `uint32`. -/
def urlEnd (word behind : GoogleString) : ℕ := if behind = [] then word.length else word.length % 2 ^ 32

theorem urlEnd_le (word behind : GoogleString) : urlEnd word behind ≤ word.length := by
  rw [urlEnd]
  split_ifs
  · exact Nat.le_refl _
  · exact Nat.mod_le _ _

theorem takeUrl_front (h : Front s word behind) :
    takeUrl (word ++ behind) = (word.take (urlEnd word behind), word.drop (urlEnd word behind) ++ behind) := by
  have hle := urlEnd_le word behind
  rw [takeUrl, h.takeWhile]
  by_cases hbehind : behind = []
  · rw [hbehind, List.append_nil, if_pos rfl, urlEnd, if_pos rfl, List.take_length, List.drop_length]
    rfl
  · have hlength : word.length ≠ (word ++ behind).length := by
      rw [List.length_append]
      have hpos := List.length_pos_of_ne_nil hbehind
      omega
    have hmod : ((word.length : ℤ) % 2 ^ 32).toNat = word.length % 2 ^ 32 := by omega
    rw [urlEnd, if_neg hbehind] at hle ⊢
    rw [if_neg hlength, substr, substrFrom, hmod, Nat.zero_mod, List.drop_zero, List.take_append_of_le_length hle,
      List.drop_append_of_le_length hle]

inductive Takes (word behind : GoogleString) (c : Split) (rest : GoogleString) : Prop
  | bare (hcomma : word.getLast? = some 44) (htext : c.text = []) (hrest : rest = behind)
  | described (hcomma : word.getLast? ≠ some 44) (htext : c.text = behind.take (descriptorEnd false behind))
    (hrest : rest = behind.drop (descriptorEnd false behind + 1))

variable {c : Split} {t w url rest : GoogleString} {cs : List Split} {cands : List ImageCandidate}

theorem Takes.of_comma (h : Takes word behind c rest)
    (hcomma : word.getLast? = some 44) : c.text = [] ∧ rest = behind := by
  cases h with
  | bare _ htext hrest => exact ⟨htext, hrest⟩
  | described hnot _ _ => exact absurd hcomma hnot

theorem Takes.of_not (h : Takes word behind c rest) (hcomma : word.getLast? ≠ some 44) :
    c.text = behind.take (descriptorEnd false behind) ∧ rest = behind.drop (descriptorEnd false behind + 1) := by
  cases h with
  | bare hnot _ _ => exact absurd hnot hcomma
  | described _ htext hrest => exact ⟨htext, hrest⟩

theorem splitNext_front (h : Front s word behind) : ∃ c rest, splitNext s = some (c, rest) ∧ c.word = word ∧
    c.behind = behind ∧ Takes word behind c rest := by
  obtain ⟨d, more, hword, _⟩ := h.head
  have hne : (word ++ behind).isEmpty = false := by rw [hword]; rfl
  rw [splitNext, ← skipSeparators, h.eq, hne]
  simp only [Bool.false_eq_true, if_false]
  rw [h.takeWhile, h.dropWhile]
  by_cases hcomma : word.getLast? = some 44
  · rw [if_pos hcomma]
    exact ⟨_, _, rfl, rfl, rfl, .bare hcomma rfl rfl⟩
  · rw [if_neg hcomma]
    have htokens := tokenize_upTo .inDescriptor [] (behind.dropWhile isHtmlSpace)
    have hlead : ∀ c ∈ behind.takeWhile isHtmlSpace, isHtmlSpace c = true := fun c hc => List.mem_takeWhile_imp hc
    have hbehind : behind = behind.takeWhile isHtmlSpace ++ behind.dropWhile isHtmlSpace :=
      List.takeWhile_append_dropWhile.symm
    have hend : descriptorEnd false behind =
        (behind.takeWhile isHtmlSpace).length + descriptorEnd false (behind.dropWhile isHtmlSpace) := by
      conv_lhs => rw [hbehind]
      exact descriptorEnd_blank hlead _ _
    simp only [reduceCtorEq, decide_false] at htokens
    have hblank := htokens.append_left (behind.takeWhile isHtmlSpace)
    rw [List.takeWhile_append_dropWhile, ← hend] at hblank
    exact ⟨_, _, rfl, rfl, rfl, .described hcomma hblank.1 hblank.2⟩

theorem nextCandidate_nil (h : skipSeparators s = []) : nextCandidate s = none := by
  rw [nextCandidate, h]
  rfl

theorem splitNext_nil (h : skipSeparators s = []) : splitNext s = none := by
  rw [splitNext, ← skipSeparators, h]
  rfl

structure Split.Fits (c : Split) : Prop where
  commas : ∀ b ∈ c.word.drop (urlEnd c.word c.behind), (b == 44) = true
  blanks : ∀ b ∈ c.text.drop (toInt32 c.behind.length).toNat, isHtmlSpace b = true

theorem substr_zero {s : GoogleString} {n : ℕ} (h : n < 2 ^ 32) : substr s 0 n = s.take n := by
  have hmod : ((n : ℤ) % 2 ^ 32).toNat = n := by omega
  rw [substr, hmod, Nat.zero_mod, List.drop_zero]

theorem substrFrom_of_lt {s : GoogleString} {n : ℕ} (h : n < 2 ^ 32) : substrFrom s n = s.drop n := by
  rw [substrFrom, Nat.mod_eq_of_lt h]

theorem takeDescriptor_eq (input : GoogleString) : takeDescriptor input =
    (trimWhitespace (input.take (min (toInt32 input.length).toNat (descriptorEnd false input))),
      input.drop (min (toInt32 input.length).toNat (descriptorEnd false input))) := by
  have hlt : (toInt32 input.length).toNat < 2 ^ 32 := by
    have hbound : toInt32 input.length < 2 ^ 32 := by
      unfold toInt32
      rw [Int.bmod_def]
      split_ifs <;> omega
    omega
  have hmin : min (toInt32 input.length).toNat (descriptorEnd false input) < 2 ^ 32 :=
    lt_of_le_of_lt (Nat.min_le_left _ _) hlt
  rw [takeDescriptor, descriptorEnd_take, substr_zero hmin, substrFrom_of_lt hmin]

theorem skip_blank (h : ∀ c ∈ t, isSeparator c = true) (s : GoogleString) :
    skipSeparators (t ++ s) = skipSeparators s := by
  rw [skipSeparators, skipSeparators, List.dropWhile_append_of_pos h]

theorem isSeparator_of_space {c : UInt8} (h : isHtmlSpace c = true) : isSeparator c = true := by
  rw [isSeparator, h, Bool.true_or]

theorem isSeparator_of_comma {c : UInt8} (h : (c == 44) = true) : isSeparator c = true := by
  rw [isSeparator, h, Bool.or_true]

theorem skip_behind (behind : GoogleString) (n : ℕ)
    (h : ∀ b ∈ (behind.take (descriptorEnd false behind)).drop n, isHtmlSpace b = true) :
    skipSeparators (behind.drop (min n (descriptorEnd false behind))) =
      skipSeparators (behind.drop (descriptorEnd false behind + 1)) := by
  have hle := descriptorEnd_le false behind
  generalize hq : descriptorEnd false behind = q at h hle ⊢
  have hsplit : behind.drop (min n q) = (behind.take q).drop n ++ behind.drop q := by
    have hlength : (behind.take q).length = q := List.length_take_of_le hle
    obtain hn | hn := Nat.le_total n q
    · conv_lhs => rw [Nat.min_eq_left hn, ← List.take_append_drop q behind]
      rw [List.drop_append_of_le_length (by rw [hlength]; exact hn)]
    · have hnil : (behind.take q).drop n = [] := List.drop_eq_nil_of_le (by rw [hlength]; exact hn)
      rw [Nat.min_eq_right hn, hnil, List.nil_append]
  have hcomma : skipSeparators (behind.drop q) = skipSeparators (behind.drop (q + 1)) := by
    obtain ⟨_, _, hnil | ⟨_, rest, hrest⟩⟩ := descriptorEnd_spec false behind
    · rw [hq] at hnil
      rw [hnil, ← List.drop_drop, hnil, List.drop_nil]
    · rw [hq] at hrest
      rw [← List.drop_drop, hrest]
      rfl
  rw [hsplit, skip_blank fun c hc => isSeparator_of_space (h c hc), hcomma]

theorem trimCommas_of_not {word : GoogleString} (h : word.getLast? ≠ some 44) : trimCommas word = word := by
  rw [trimCommas, List.rdropWhile_eq_self_iff]
  intro hne hlast
  apply h
  rw [List.getLast?_eq_some_getLast hne, beq_iff_eq.mp hlast]

theorem nextCandidate_front (h : Front s word behind) (hword : c.word = word)
    (hbehind : c.behind = behind) (htakes : Takes word behind c rest) : ∃ cand rest',
      nextCandidate s = some (cand, rest') ∧ (cand = c.candidate ↔ c.Fits) ∧
      (c.Fits → skipSeparators rest' = skipSeparators rest) := by
  obtain ⟨d, more, hhead, hd⟩ := h.head
  have hne : (word ++ behind).isEmpty = false := by rw [hhead]; rfl
  have hcandidate : c.candidate = ⟨trimCommas word, trimWhitespace c.text⟩ := by
    rw [Split.candidate, Split.url, hword]
  have hfits : c.Fits ↔ (∀ b ∈ word.drop (urlEnd word behind), (b == 44) = true) ∧
      ∀ b ∈ c.text.drop (toInt32 behind.length).toNat, isHtmlSpace b = true := by
    constructor
    · rintro ⟨hcommas, hblanks⟩
      rw [hword, hbehind] at hcommas
      rw [hbehind] at hblanks
      exact ⟨hcommas, hblanks⟩
    · rintro ⟨hcommas, hblanks⟩
      rw [← hword, ← hbehind] at hcommas
      rw [← hbehind] at hblanks
      exact ⟨hcommas, hblanks⟩
  have hurl : ∀ m, trimCommas (word.take m) = trimCommas word ↔ ∀ b ∈ word.drop m, (b == 44) = true :=
    rdropWhile_take_iff word
  rw [nextCandidate, h.eq, hne]
  simp only [Bool.false_eq_true, if_false]
  rw [takeUrl_front h, hcandidate, hfits]
  generalize urlEnd word behind = m
  have hends : word.drop m ≠ [] → (∀ b ∈ word.drop m, (b == 44) = true) → word.getLast? = some 44 := by
    intro hdrop hcommas
    rw [← List.take_append_drop m word, List.getLast?_append_of_ne_nil _ hdrop, List.getLast?_eq_some_getLast hdrop,
      beq_iff_eq.mp (hcommas _ (List.getLast_mem hdrop))]
  dsimp only
  by_cases hcomma : (word.take m).getLast? = some 44
  · have hbare : (∀ b ∈ word.drop m, (b == 44) = true) → c.text = [] ∧ rest = behind := by
      intro hcommas
      apply htakes.of_comma
      by_cases hdrop : word.drop m = []
      · rw [← List.take_append_drop m word, hdrop, List.append_nil, hcomma]
      · exact hends hdrop hcommas
    rw [if_pos hcomma]
    refine ⟨_, _, rfl, ?_, ?_⟩
    · rw [ImageCandidate.mk.injEq, hurl]
      refine and_congr_right fun hcommas => ?_
      rw [(hbare hcommas).1, List.drop_nil]
      exact iff_of_true rfl nofun
    · rintro ⟨hcommas, _⟩
      rw [(hbare hcommas).2, skip_blank fun b hb => isSeparator_of_comma (hcommas b hb)]
  · rw [if_neg hcomma, takeDescriptor_eq]
    by_cases hdrop : word.drop m = []
    · have hwhole : word.take m = word := by
        conv_rhs => rw [← List.take_append_drop m word, hdrop, List.append_nil]
      rw [hwhole] at hcomma
      obtain ⟨htext, hrest⟩ := htakes.of_not hcomma
      rw [hwhole, hdrop, List.nil_append]
      refine ⟨_, _, rfl, ?_, ?_⟩
      · dsimp only
        rw [ImageCandidate.mk.injEq, trimCommas_of_not hcomma, htext, ← List.take_take]
        have hblanks := trim_take_iff (p := isHtmlSpace) (behind.take (descriptorEnd false behind))
          (toInt32 behind.length).toNat
        exact and_congr (iff_of_true rfl nofun) hblanks
      · rintro ⟨_, hblanks⟩
        rw [htext] at hblanks
        have hskip := skip_behind behind _ hblanks
        dsimp only
        rw [hrest, hskip]
    · obtain ⟨b, beyond, hbeyond⟩ := List.exists_cons_of_ne_nil hdrop
      have hnone : (∀ b ∈ word.drop m, (b == 44) = true) → descriptorEnd false (word.drop m ++ behind) = 0 := by
        intro hcommas
        have hb := beq_iff_eq.mp (hcommas b (by rw [hbeyond]; exact List.mem_cons_self))
        rw [hbeyond, hb]
        rfl
      refine ⟨_, _, rfl, ?_, ?_⟩
      · rw [ImageCandidate.mk.injEq]
        have hurl' := hurl m
        rw [trimCommas_of_not hcomma] at hurl'
        rw [hurl']
        refine and_congr_right fun hcommas => ?_
        rw [hnone hcommas, Nat.min_zero, (htakes.of_comma (hends hdrop hcommas)).1, List.drop_nil]
        exact iff_of_true rfl nofun
      · rintro ⟨hcommas, _⟩
        rw [hnone hcommas, Nat.min_zero, List.drop_zero, (htakes.of_comma (hends hdrop hcommas)).2,
          skip_blank fun b hb => isSeparator_of_comma (hcommas b hb)]

/-! All candidates. -/

inductive Splits : GoogleString → List Split → Prop
  | none {s : GoogleString} (h : splitNext s = none) : Splits s []
  | some {s rest : GoogleString} {c : Split} {cs : List Split} (h : splitNext s = some (c, rest))
    (hrest : Splits rest cs) : Splits s (c :: cs)

theorem Splits.unique {cs' : List Split} (h : Splits s cs) (h' : Splits s cs') : cs = cs' := by
  induction h generalizing cs' with
  | none hnone =>
    cases h' with
    | none => rfl
    | some hsome => cases hnone.symm.trans hsome
  | some hsome _ ih =>
    cases h' with
    | none hnone => cases hnone.symm.trans hsome
    | some hsome' hrest =>
      cases hsome.symm.trans hsome'
      rw [ih hrest]

theorem splitNext_congr (h : skipSeparators s = skipSeparators t) : splitNext s = splitNext t := by
  rw [splitNext, splitNext, ← skipSeparators, ← skipSeparators, h]

theorem Splits.congr (h : Splits s cs) (hskip : skipSeparators s = skipSeparators t) : Splits t cs := by
  cases h with
  | none hnone => exact .none ((splitNext_congr hskip).symm.trans hnone)
  | some hsome hrest => exact .some ((splitNext_congr hskip).symm.trans hsome) hrest

theorem front_of_splitNext (h : splitNext s = some (c, rest)) :
    Front s c.word c.behind ∧ Takes c.word c.behind c rest := by
  obtain hnil | ⟨word, behind, hfront⟩ := front_or_nil s
  · rw [splitNext_nil hnil] at h
    cases h
  · obtain ⟨c', rest', hnext, hword, hbehind, htakes⟩ := splitNext_front hfront
    cases h.symm.trans hnext
    rw [hword, hbehind]
    exact ⟨hfront, htakes⟩

theorem Takes.length_le (h : Takes word behind c rest) : (skipSeparators rest).length ≤ behind.length := by
  have hskip : (skipSeparators rest).length ≤ rest.length := (List.dropWhile_sublist isSeparator).length_le
  cases h with
  | bare _ _ hrest =>
    rw [hrest] at hskip ⊢
    exact hskip
  | described _ _ hrest =>
    rw [hrest, List.length_drop] at hskip
    rw [hrest]
    omega

theorem shorter_of_splitNext (h : splitNext s = some (c, rest)) :
    (skipSeparators rest).length < (skipSeparators s).length := by
  obtain ⟨hfront, htakes⟩ := front_of_splitNext h
  obtain ⟨d, more, hword, _⟩ := hfront.head
  have hle := htakes.length_le
  rw [hfront.eq, hword, List.length_append, List.length_cons]
  omega

theorem splits_splitFuel (fuel : ℕ) (s : GoogleString) (h : (skipSeparators s).length < fuel) :
    Splits s (splitFuel fuel s) := by
  induction fuel generalizing s with
  | zero => exact absurd h (Nat.not_lt_zero _)
  | succ fuel ih =>
    rw [splitFuel]
    cases hnext : splitNext s with
    | none => exact .none hnext
    | some p => exact .some hnext (ih p.2 (by have hlt := shorter_of_splitNext hnext; omega))

theorem splits_splitting (s : GoogleString) : Splits s (splitting s) := by
  have hskip : (skipSeparators s).length ≤ s.length := (List.dropWhile_sublist isSeparator).length_le
  exact splits_splitFuel _ s (Nat.lt_succ_of_le hskip)

theorem parseFuel_eq_iff (h : Splits t cs) (fuel : ℕ) (s : GoogleString)
    (hskip : skipSeparators s = skipSeparators t) (hfuel : (skipSeparators t).length < fuel) :
    parseFuel fuel s = some (cs.map Split.candidate) ↔ ∀ c ∈ cs, c.Fits := by
  induction h generalizing fuel s with
  | @none t hnone =>
    cases fuel with
    | zero => exact absurd hfuel (Nat.not_lt_zero _)
    | succ fuel =>
      obtain hnil | ⟨word, behind, hfront⟩ := front_or_nil t
      · rw [parseFuel, nextCandidate_nil (hskip.trans hnil)]
        exact iff_of_true rfl nofun
      · obtain ⟨c, rest, hnext, _⟩ := splitNext_front hfront
        cases hnone.symm.trans hnext
  | @some t rest c cs hsome _ ih =>
    cases fuel with
    | zero => exact absurd hfuel (Nat.not_lt_zero _)
    | succ fuel =>
      obtain ⟨hfront, htakes⟩ := front_of_splitNext hsome
      have hfront' : Front s c.word c.behind := ⟨hskip.trans hfront.eq, hfront.plain, hfront.head, hfront.behind⟩
      have hlt := shorter_of_splitNext hsome
      obtain ⟨cand, rest', hnext, hcand, hleft⟩ := nextCandidate_front hfront' rfl rfl htakes
      rw [parseFuel, hnext, List.forall_mem_cons, List.map_cons]
      dsimp only
      by_cases hfits : c.Fits
      · have hrest := ih fuel rest' (hleft hfits) (by omega)
        rw [← hrest, hcand.mpr hfits, Option.map_eq_some_iff]
        constructor
        · rintro ⟨cands, hparse, heq⟩
          rw [List.cons.injEq] at heq
          exact ⟨hfits, by rw [hparse, heq.2]⟩
        · rintro ⟨_, hparse⟩
          exact ⟨_, hparse, rfl⟩
      · refine iff_of_false ?_ fun hall => hfits hall.1
        rw [Option.map_eq_some_iff]
        rintro ⟨cands, _, heq⟩
        rw [List.cons.injEq] at heq
        exact hfits (hcand.mp heq.1)

theorem parseSrcSet_eq_iff (s : GoogleString) :
    parseSrcSet s = some ((splitting s).map Split.candidate) ↔ ∀ c ∈ splitting s, c.Fits := by
  have hskip : (skipSeparators s).length ≤ s.length := (List.dropWhile_sublist isSeparator).length_le
  exact parseFuel_eq_iff (splits_splitting s) _ s rfl (Nat.lt_succ_of_le hskip)

/-! Candidates that are written. -/

structure PlainUrl (url : GoogleString) : Prop where
  nonempty : url ≠ []
  plain : ∀ c ∈ url, isHtmlSpace c = false
  head : url.head? ≠ some 44
  last : url.getLast? ≠ some 44

structure ImageCandidate.Ok (cand : ImageCandidate) : Prop where
  url : PlainUrl cand.url
  trimmed : trimWhitespace cand.descriptor = cand.descriptor
  whole : (paren false cand.descriptor).isSome = true

def Parses : List ImageCandidate → Prop
  | [] => True
  | cand :: cands => cand.Ok ∧ (cands ≠ [] → paren false cand.descriptor = some false) ∧ Parses cands

theorem PlainUrl.cons (h : PlainUrl url) : ∃ d more, url = d :: more ∧ d ≠ 44 := by
  obtain ⟨d, more, rfl⟩ := List.exists_cons_of_ne_nil h.nonempty
  exact ⟨d, more, rfl, fun hd => h.head (by rw [hd, List.head?_cons])⟩

theorem PlainUrl.front (h : PlainUrl url) (commas : GoogleString) {behind : GoogleString}
    (hcommas : ∀ c ∈ commas, c = 44) (hbehind : Behind behind) :
    Front (url ++ commas ++ behind) (url ++ commas) behind := by
  obtain ⟨d, more, rfl, hd⟩ := h.cons
  refine ⟨?_, ?_, ⟨d, more ++ commas, rfl, hd⟩, hbehind⟩
  · have hsep : isSeparator d = false := by
      rw [isSeparator, h.plain d List.mem_cons_self, Bool.false_or]
      exact beq_false_of_ne hd
    rw [skipSeparators, List.cons_append, List.cons_append, List.dropWhile_cons, hsep]
    rfl
  · intro c hc
    obtain hc | hc := List.mem_append.mp hc
    · exact h.plain c hc
    · rw [hcommas c hc]
      rfl

theorem trim_space_cons {s : GoogleString} (h : trimWhitespace s = s) : trimWhitespace (32 :: s) = s := by
  have hcons : trim isHtmlSpace (32 :: s) = trim isHtmlSpace s := trim_cons rfl s
  exact hcons.trans h

theorem splitNext_bare (h : PlainUrl url) (x : GoogleString) :
    ∃ c rest, splitNext (url ++ 44 :: 32 :: x) = some (c, rest) ∧ c.candidate = ⟨url, []⟩ ∧
      skipSeparators rest = skipSeparators (44 :: 32 :: x) := by
  have hfront := h.front [44] (by simp) (Or.inr ⟨32, x, rfl, rfl⟩)
  obtain ⟨c, rest, hnext, hword, _, htakes⟩ := splitNext_front hfront
  obtain ⟨htext, hrest⟩ := htakes.of_comma List.getLast?_concat
  have htrim : trimCommas (url ++ [44]) = trimCommas url := List.rdropWhile_concat_pos _ _ _ rfl
  rw [List.append_assoc, List.singleton_append] at hnext
  refine ⟨c, rest, hnext, ?_, by rw [hrest]; rfl⟩
  rw [Split.candidate, Split.url, hword, htrim, trimCommas_of_not h.last, htext]
  rfl

theorem splitNext_described (h : PlainUrl url) {more : GoogleString} {b : Bool}
    (hbehind : Behind (t ++ more)) (hparen : paren false t = some b)
    (hmore : more = [] ∨ b = false ∧ ∃ x, more = 44 :: x) :
    ∃ c rest, splitNext (url ++ (t ++ more)) = some (c, rest) ∧ c.candidate = ⟨url, trimWhitespace t⟩ ∧
      skipSeparators rest = skipSeparators more := by
  have hfront := h.front [] nofun hbehind
  rw [List.append_nil] at hfront
  obtain ⟨c, rest, hnext, hword, _, htakes⟩ := splitNext_front hfront
  obtain ⟨htext, hrest⟩ := htakes.of_not h.last
  have hend : descriptorEnd false (t ++ more) = t.length := by
    obtain rfl | ⟨rfl, x, rfl⟩ := hmore
    · rw [List.append_nil, descriptorEnd_all hparen]
    · exact descriptorEnd_comma hparen x
  rw [hend, List.take_left] at htext
  rw [hend, List.drop_length_add_append] at hrest
  refine ⟨c, rest, hnext, ?_, ?_⟩
  · rw [Split.candidate, Split.url, hword, trimCommas_of_not h.last, htext]
  · obtain rfl | ⟨_, x, rfl⟩ := hmore
    · rw [hrest, List.drop_nil]
    · rw [hrest]
      rfl

theorem splitNext_candidate {cand : ImageCandidate} (h : cand.Ok) {more : GoogleString}
    (hmore : more = [] ∨ ∃ x, more = 44 :: 32 :: x) (hclosed : more ≠ [] → paren false cand.descriptor = some false) :
    ∃ c rest, splitNext (candidateText cand ++ more) = some (c, rest) ∧ c.candidate = cand ∧
      skipSeparators rest = skipSeparators more := by
  obtain ⟨url, descriptor⟩ := cand
  rw [candidateText]
  by_cases hdescriptor : descriptor = []
  · subst hdescriptor
    rw [List.isEmpty_nil, if_pos rfl, List.append_nil]
    obtain rfl | ⟨x, rfl⟩ := hmore
    · have hnil : Behind ([] ++ []) := Or.inl rfl
      exact splitNext_described h.url hnil rfl (Or.inl rfl)
    · exact splitNext_bare h.url x
  · have hempty : descriptor.isEmpty = false := List.isEmpty_eq_false_iff.mpr hdescriptor
    obtain ⟨b, hb⟩ := Option.isSome_iff_exists.mp h.whole
    have hparen : paren false (32 :: descriptor) = some b := (paren_space rfl false descriptor).trans hb
    have hends : more = [] ∨ b = false ∧ ∃ x, more = 44 :: x := by
      obtain rfl | ⟨x, rfl⟩ := hmore
      · exact Or.inl rfl
      · have hfalse := hb.symm.trans (hclosed (List.cons_ne_nil _ _))
        exact Or.inr ⟨Option.some_inj.mp hfalse, 32 :: x, rfl⟩
    have hnext := splitNext_described h.url (Or.inr ⟨32, descriptor ++ more, rfl, rfl⟩) hparen hends
    rw [trim_space_cons h.trimmed] at hnext
    rw [hempty, if_neg Bool.false_ne_true, List.append_assoc]
    exact hnext

theorem splits_joined (h : Parses cands) : ∃ cs, Splits (joined cands) cs ∧ cs.map Split.candidate = cands := by
  induction cands with
  | nil => exact ⟨[], .none rfl, rfl⟩
  | cons cand cands ih =>
    obtain ⟨hok, hclosed, hrest⟩ := h
    obtain ⟨cs, hcs, hmap⟩ := ih hrest
    cases cands with
    | nil =>
      obtain ⟨c, rest, hnext, hcand, hskip⟩ := splitNext_candidate hok (Or.inl rfl) fun hne => absurd rfl hne
      rw [List.append_nil] at hnext
      have hjoined : joined [cand] = candidateText cand := by
        rw [joined, joinCollection, List.map_singleton, List.intercalate_singleton]
      rw [hjoined]
      refine ⟨[c], .some hnext (.none ?_), by rw [List.map_singleton, hcand]⟩
      rw [splitNext_congr hskip]
      rfl
    | cons cand' cands =>
      have hjoined : joined (cand :: cand' :: cands) =
          candidateText cand ++ 44 :: 32 :: joined (cand' :: cands) := by
        rw [joined, joinCollection, List.map_cons, List.map_cons, List.intercalate_cons_cons, List.append_assoc]
        rfl
      obtain ⟨c, rest, hnext, hcand, hskip⟩ := splitNext_candidate hok (Or.inr ⟨joined (cand' :: cands), rfl⟩)
        fun _ => hclosed (List.cons_ne_nil _ _)
      rw [hjoined]
      exact ⟨c :: cs, .some hnext (hcs.congr hskip.symm), by rw [List.map_cons, hcand, hmap]⟩

theorem splitting_joined (h : Parses cands) : (splitting (joined cands)).map Split.candidate = cands := by
  obtain ⟨cs, hcs, hmap⟩ := splits_joined h
  rw [(splits_splitting _).unique hcs, hmap]

/-! Candidates that are found. -/

theorem plainUrl_trimCommas {word behind : GoogleString} (h : Front s word behind) : PlainUrl (trimCommas word) := by
  obtain ⟨d, more, hword, hd⟩ := h.head
  obtain ⟨back, hback⟩ : trimCommas word <+: word := List.rdropWhile_prefix _ _
  have hne : trimCommas word ≠ [] := by
    rw [trimCommas, Ne, List.rdropWhile_eq_nil_iff]
    intro hall
    exact hd (beq_iff_eq.mp (hall d (by rw [hword]; exact List.mem_cons_self)))
  refine ⟨hne, ?_, ?_, ?_⟩
  · intro c hc
    exact h.plain c (by rw [← hback]; exact List.mem_append_left back hc)
  · have hhead : (trimCommas word ++ back).head? = (trimCommas word).head? := List.head?_append_of_ne_nil _ hne
    rw [← hhead, hback, hword, List.head?_cons]
    exact fun heq => hd (Option.some_inj.mp heq)
  · have hlast := List.rdropWhile_last_not (· == (44 : UInt8)) word hne
    rw [List.getLast?_eq_some_getLast hne]
    intro heq
    exact hlast (beq_iff_eq.mpr (Option.some_inj.mp heq))

theorem ok_of_takes {word behind : GoogleString} (h : Front s word behind)
    (hword : c.word = word) (htakes : Takes word behind c rest) :
    c.candidate.Ok ∧ (rest ≠ [] → paren false c.candidate.descriptor = some false) := by
  have hparen : ∃ b, paren false c.text = some b ∧ (rest ≠ [] → b = false) := by
    cases htakes with
    | bare _ htext _ => exact ⟨false, by rw [htext]; rfl, fun _ => rfl⟩
    | described _ htext hrest =>
      obtain ⟨b, hb, hends⟩ := descriptorEnd_spec false behind
      refine ⟨b, by rw [htext, hb], fun hne => ?_⟩
      obtain hnil | ⟨hclosed, _⟩ := hends
      · rw [hrest, ← List.drop_drop, hnil, List.drop_nil] at hne
        exact absurd rfl hne
      · exact hclosed
  obtain ⟨b, hb, hclosed⟩ := hparen
  have hdescriptor : paren false c.candidate.descriptor = some b := (paren_trim false c.text).trans hb
  refine ⟨⟨?_, trim_trim c.text, ?_⟩, ?_⟩
  · rw [Split.candidate, Split.url, hword]
    exact plainUrl_trimCommas h
  · rw [hdescriptor]
    rfl
  · intro hne
    rw [hdescriptor, hclosed hne]

theorem Splits.parses (h : Splits s cs) : Parses (cs.map Split.candidate) := by
  induction h with
  | none => trivial
  | @some s rest c cs hnext hrest ih =>
    obtain ⟨hfront, htakes⟩ := front_of_splitNext hnext
    obtain ⟨hok, hclosed⟩ := ok_of_takes hfront rfl htakes
    refine ⟨hok, fun hne => hclosed ?_, ih⟩
    rintro rfl
    cases hrest with
    | none => exact hne rfl
    | some hsome _ => cases hsome

def Replaced (cands cands' : List ImageCandidate) : Prop :=
  List.Forall₂ (fun cand cand' => cand'.descriptor = cand.descriptor ∧ (cand'.url = cand.url ∨ PlainUrl cand'.url))
    cands cands'

theorem Replaced.parses {cands' : List ImageCandidate} (h : Replaced cands cands') (hparses : Parses cands) :
    Parses cands' := by
  induction h with
  | nil => trivial
  | @cons cand cand' cands cands' hcand hcands ih =>
    obtain ⟨hdescriptor, hurl⟩ := hcand
    obtain ⟨hok, hclosed, hrest⟩ := hparses
    refine ⟨⟨?_, ?_, ?_⟩, ?_, ih hrest⟩
    · obtain heq | hplain := hurl
      · rw [heq]
        exact hok.url
      · exact hplain
    · rw [hdescriptor]
      exact hok.trimmed
    · rw [hdescriptor]
      exact hok.whole
    · intro hne
      rw [hdescriptor]
      apply hclosed
      rintro rfl
      cases hcands
      exact hne rfl

/-! The descriptors of the standard are those of the text without white space at its ends. -/

theorem descriptors_text (state : TokenizerState) (current s : GoogleString) :
    (tokenize state current (tokenize state current s).text).descriptors = (tokenize state current s).descriptors := by
  induction s generalizing state current with
  | nil => cases state <;> rfl
  | cons c s ih =>
    cases state with
    | inDescriptor =>
      rw [tokenize]
      split_ifs with hspace hcomma hopen
      · simp only [Tokens.emit, Tokens.pass]
        rw [tokenize, if_pos hspace]
        simp only [Tokens.emit, Tokens.pass, ih]
      · rfl
      · simp only [Tokens.pass]
        rw [tokenize, if_neg hspace, if_neg hcomma, if_pos hopen]
        simp only [Tokens.pass, ih]
      · simp only [Tokens.pass]
        rw [tokenize, if_neg hspace, if_neg hcomma, if_neg hopen]
        simp only [Tokens.pass, ih]
    | inParens =>
      rw [tokenize]
      split_ifs with hclose
      · simp only [Tokens.pass]
        rw [tokenize, if_pos hclose]
        simp only [Tokens.pass, ih]
      · simp only [Tokens.pass]
        rw [tokenize, if_neg hclose]
        simp only [Tokens.pass, ih]
    | afterDescriptor =>
      rw [tokenize]
      split_ifs with hspace hcomma hopen
      · simp only [Tokens.pass]
        rw [tokenize, if_pos hspace]
        simp only [Tokens.pass, ih]
      · rfl
      · simp only [Tokens.pass]
        rw [tokenize, if_neg hspace, if_neg hcomma, if_pos hopen]
        simp only [Tokens.pass, ih]
      · simp only [Tokens.pass]
        rw [tokenize, if_neg hspace, if_neg hcomma, if_neg hopen]
        simp only [Tokens.pass, ih]

def Ends (s : GoogleString) : Prop := ∀ c, s.getLast? = some c → isHtmlSpace c = false

theorem Ends.append {s : GoogleString} (h : Ends (s ++ t)) (ht : t ≠ []) : Ends t := fun c hc =>
  h c (by rw [List.getLast?_append_of_ne_nil s ht, hc])

theorem ends_concat {c : UInt8} (h : isHtmlSpace c = false) (s : GoogleString) : Ends (s ++ [c]) := by
  intro d hd
  rw [List.getLast?_concat] at hd
  rw [← Option.some_inj.mp hd]
  exact h

theorem Ends.trimTrailing {s : GoogleString} (h : Ends s) : trimTrailingWhitespace s = s := by
  have hdrop : trimTrailingWhitespace s = s.rdropWhile isHtmlSpace := rfl
  rw [hdrop, List.rdropWhile_eq_self_iff]
  intro hne
  rw [h _ (List.getLast?_eq_some_getLast hne)]
  exact Bool.false_ne_true

theorem tokenize_blank (hw : ∀ c ∈ w, isHtmlSpace c = true) (current : GoogleString) :
    (tokenize .afterDescriptor current w).descriptors = [] := by
  induction w with
  | nil => rfl
  | cons c w ih =>
    rw [List.forall_mem_cons] at hw
    rw [tokenize, if_pos hw.1, Tokens.pass, ih hw.2]

theorem tokenize_parens_blank (hw : ∀ c ∈ w, isHtmlSpace c = true) (current : GoogleString) :
    (tokenize .inParens current w).descriptors = [current ++ w] := by
  induction w generalizing current with
  | nil => rw [List.append_nil]; rfl
  | cons c w ih =>
    rw [List.forall_mem_cons] at hw
    rw [tokenize, if_neg (plain_of_space hw.1).2.1, Tokens.pass, ih hw.2, List.append_assoc]
    rfl

theorem map_emit {current : GoogleString} (h : Ends current) {t t' : Tokens}
    (ht : t.descriptors.map trimTrailingWhitespace = t'.descriptors) :
    (t.emit current).descriptors.map trimTrailingWhitespace = (t'.emit current).descriptors := by
  rw [Tokens.emit, Tokens.emit]
  dsimp only
  split_ifs
  · exact ht
  · rw [List.map_cons, ht, h.trimTrailing]

theorem descriptors_append_blank (hw : ∀ c ∈ w, isHtmlSpace c = true) (s : GoogleString) :
    ∀ state current, (state = .inDescriptor → Ends current) → (state ≠ .afterDescriptor → Ends (current ++ s)) →
      Ends s → (tokenize state current (s ++ w)).descriptors.map trimTrailingWhitespace =
        (tokenize state current s).descriptors := by
  induction s with
  | nil =>
    intro state current hcurrent hboth _
    rw [List.nil_append]
    cases state with
    | inDescriptor =>
      cases w with
      | nil => exact map_emit (hcurrent rfl) rfl
      | cons c w =>
        rw [List.forall_mem_cons] at hw
        rw [tokenize, tokenize, if_pos hw.1]
        exact map_emit (hcurrent rfl) (by rw [Tokens.pass, tokenize_blank hw.2]; rfl)
    | inParens =>
      have hdrop : trimTrailingWhitespace (current ++ w) = trimTrailingWhitespace current :=
        rdropWhile_append_blank current hw
      have hcurrent := hboth (by decide)
      rw [List.append_nil] at hcurrent
      rw [tokenize_parens_blank hw, List.map_singleton, hdrop, hcurrent.trimTrailing]
      rfl
    | afterDescriptor =>
      rw [tokenize_blank hw]
      rfl
  | cons c s ih =>
    intro state current hcurrent hboth hends
    have htail : Ends s := by
      by_cases hs : s = []
      · rw [hs]
        nofun
      · exact hends.append (s := [c]) hs
    have hnext : state ≠ .afterDescriptor → Ends (current ++ [c] ++ s) := by
      rw [List.append_assoc]
      exact hboth
    rw [List.cons_append]
    cases state with
    | inDescriptor =>
      have hboth := hnext (by decide)
      rw [tokenize, tokenize]
      split_ifs with hspace hcomma hopen
      · exact map_emit (hcurrent rfl) (ih .afterDescriptor [] nofun (fun hne => absurd rfl hne) htail)
      · exact map_emit (hcurrent rfl) rfl
      · exact ih .inParens _ nofun (fun _ => hboth) htail
      · rw [Bool.not_eq_true] at hspace
        exact ih .inDescriptor _ (fun _ => ends_concat hspace current) (fun _ => hboth) htail
    | inParens =>
      have hboth := hnext (by decide)
      rw [tokenize, tokenize]
      split_ifs with hclose
      · subst hclose
        exact ih .inDescriptor _ (fun _ => ends_concat rfl current) (fun _ => hboth) htail
      · exact ih .inParens _ nofun (fun _ => hboth) htail
    | afterDescriptor =>
      rw [tokenize, tokenize]
      split_ifs with hspace hcomma hopen
      · exact ih .afterDescriptor current nofun (fun hne => absurd rfl hne) htail
      · rfl
      · exact ih .inParens [c] nofun (fun _ => hends) htail
      · rw [Bool.not_eq_true] at hspace
        exact ih .inDescriptor [c] (fun _ => ends_concat hspace []) (fun _ => hends) htail

theorem tokenize_start (s : GoogleString) :
    (tokenize .inDescriptor [] s).descriptors = (tokenize .afterDescriptor [] s).descriptors := by
  cases s with
  | nil => rfl
  | cons c s =>
    rw [tokenize, tokenize]
    split_ifs
    · rfl
    · rfl
    · rfl
    · rfl

theorem tokenize_blank_append (hw : ∀ c ∈ w, isHtmlSpace c = true) (s : GoogleString) :
    (tokenize .inDescriptor [] (w ++ s)).descriptors = (tokenize .inDescriptor [] s).descriptors := by
  rw [tokenize_start, tokenize_start]
  induction w with
  | nil => rfl
  | cons c w ih =>
    rw [List.forall_mem_cons] at hw
    rw [List.cons_append, tokenize, if_pos hw.1, Tokens.pass, ih hw.2]

theorem ends_trim (s : GoogleString) : Ends (trim isHtmlSpace s) := by
  intro c hc
  obtain ⟨t, ht⟩ := List.getLast?_eq_some_iff.mp hc
  exact trim_getLast isHtmlSpace ht

theorem descriptors_trim (s : GoogleString) : (tokenize .inDescriptor [] (trimWhitespace s)).descriptors =
    (tokenize .inDescriptor [] s).descriptors.map trimTrailingWhitespace := by
  obtain ⟨front, back, hs, hfront, hback⟩ := exists_trim isHtmlSpace s
  have htrim : trimWhitespace s = trim isHtmlSpace s := rfl
  have hends := ends_trim s
  have happend := descriptors_append_blank hback (trim isHtmlSpace s) .inDescriptor [] (fun _ => nofun)
    (fun _ => hends) hends
  conv_rhs => rw [hs, List.append_assoc, tokenize_blank_append hfront, happend]
  rw [htrim]

theorem descriptors_splitNext (h : splitNext s = some (c, rest)) :
    (tokenize .inDescriptor [] c.candidate.descriptor).descriptors = c.descriptors.map trimTrailingWhitespace := by
  have hcandidate : c.candidate.descriptor = trimWhitespace c.text := rfl
  rw [hcandidate, descriptors_trim]
  rw [splitNext] at h
  dsimp only at h
  split_ifs at h
  · cases h
    rfl
  · cases h
    dsimp only
    rw [tokenize_blank_append fun c hc => List.mem_takeWhile_imp hc, descriptors_text]

theorem descriptors_splitting (s : GoogleString) : ∀ c ∈ splitting s,
    (tokenize .inDescriptor [] c.candidate.descriptor).descriptors = c.descriptors.map trimTrailingWhitespace := by
  have hsplits := splits_splitting s
  generalize splitting s = cs at hsplits
  induction hsplits with
  | none => nofun
  | some hnext _ ih => exact List.forall_mem_cons.mpr ⟨descriptors_splitNext hnext, ih⟩

/-! Sizes. -/

theorem Takes.text_length (h : Takes word behind c rest) : c.text.length ≤ behind.length := by
  cases h with
  | bare _ htext _ =>
    rw [htext]
    exact Nat.zero_le _
  | described _ htext _ =>
    rw [htext]
    exact List.length_take_le' _ _

theorem Splits.fits (h : Splits s cs) (hlt : (skipSeparators s).length < 2 ^ 31) : ∀ c ∈ cs, c.Fits := by
  induction h with
  | none => nofun
  | @some s rest c cs hnext _ ih =>
    obtain ⟨hfront, htakes⟩ := front_of_splitNext hnext
    have hshorter := shorter_of_splitNext hnext
    refine List.forall_mem_cons.mpr ⟨?_, ih (hshorter.trans hlt)⟩
    have htext := htakes.text_length
    rw [hfront.eq, List.length_append] at hlt
    have hend : urlEnd c.word c.behind = c.word.length := by
      rw [urlEnd]
      split_ifs
      · rfl
      · exact Nat.mod_eq_of_lt (by omega)
    have hsize : (toInt32 c.behind.length).toNat = c.behind.length := by
      rw [toInt32_of_lt (by omega) (by omega)]
      rfl
    refine ⟨?_, ?_⟩
    · rw [hend, List.drop_length]
      nofun
    · rw [hsize, List.drop_eq_nil_of_le htext]
      nofun

theorem fits_of_length (h : s.length < 2 ^ 31) : ∀ c ∈ splitting s, c.Fits := by
  have hskip : (skipSeparators s).length ≤ s.length := (List.dropWhile_sublist isSeparator).length_le
  exact (splits_splitting s).fits (hskip.trans_lt h)

theorem parses_take (h : Parses cands) (n : ℕ) : Parses (cands.take n) := by
  induction cands generalizing n with
  | nil =>
    rw [List.take_nil]
    trivial
  | cons cand cands ih =>
    cases n with
    | zero => trivial
    | succ n =>
      rw [List.take_succ_cons]
      refine ⟨h.1, fun hne => h.2.1 ?_, ih h.2.2 n⟩
      rintro rfl
      exact hne List.take_nil

/-- The candidates of an attribute are those of the standard, they are read back once they are written, and so are
candidates with other URLs, where the sizes fit and only there. -/
theorem srcset_keeps_candidates (s : GoogleString) :
    (parseSrcSet s = some ((splitting s).map Split.candidate) ↔ ∀ c ∈ splitting s, c.Fits) ∧
      (s.length < 2 ^ 31 → ∀ c ∈ splitting s, c.Fits) ∧
      (∀ c ∈ splitting s, (tokenize .inDescriptor [] c.candidate.descriptor).descriptors =
        c.descriptors.map trimTrailingWhitespace) ∧
      ∀ cands, Replaced ((splitting s).map Split.candidate) cands →
        (cands.length < 2 ^ 31 →
          (parseSrcSet (serialize cands) = some cands ↔ ∀ c ∈ splitting (serialize cands), c.Fits)) ∧
        (2 ^ 31 ≤ cands.length → (∀ c ∈ splitting (serialize cands), c.Fits) →
          parseSrcSet (serialize cands) ≠ some cands) := by
  refine ⟨parseSrcSet_eq_iff s, fits_of_length, descriptors_splitting s, fun cands hreplaced => ?_⟩
  have hparses := hreplaced.parses (splits_splitting s).parses
  constructor
  · intro hlt
    have hall : serialize cands = joined cands := by
      have hcount : (toInt32 cands.length).toNat = cands.length := by
        rw [toInt32_of_lt (by omega) (by omega)]
        rfl
      rw [serialize, hcount, List.take_length]
    have hiff := parseSrcSet_eq_iff (serialize cands)
    rw [hall, splitting_joined hparses] at hiff
    rw [hall, hiff]
  · intro hle hfits hback
    have hsplit : ∀ n, (splitting (joined (cands.take n))).map Split.candidate = cands.take n := fun n =>
      splitting_joined (parses_take hparses n)
    have hparse := (parseSrcSet_eq_iff (serialize cands)).mpr hfits
    rw [hback, serialize, hsplit] at hparse
    have hlength := congrArg List.length (Option.some_inj.mp hparse)
    have hcount : (toInt32 cands.length).toNat < cands.length := by
      have hbmod : toInt32 cands.length < cands.length := by
        unfold toInt32
        rw [Int.bmod_def]
        split_ifs <;> omega
      omega
    rw [List.length_take, Nat.min_eq_left hcount.le] at hlength
    omega

theorem paren_replicate (n : ℕ) : paren false (List.replicate n 98) = some false := by
  induction n with
  | zero => rfl
  | succ n ih =>
    rw [List.replicate_succ, paren]
    exact ih

theorem misread_of_wrapped {n : ℕ} (hn : toInt32 (n + 1 : ℕ) ≤ 0) (hpos : n ≠ 0) :
    parseSrcSet (97 :: 32 :: List.replicate n 98) ≠
      some ((splitting (97 :: 32 :: List.replicate n 98)).map Split.candidate) := by
  rw [Ne, parseSrcSet_eq_iff]
  intro hfits
  have hfront : Front (97 :: 32 :: List.replicate n 98) [97] (32 :: List.replicate n 98) :=
    ⟨rfl, List.forall_mem_singleton.mpr rfl, ⟨97, [], rfl, by decide⟩, Or.inr ⟨32, _, rfl, rfl⟩⟩
  obtain ⟨c, rest, hnext, _, hbehind, htakes⟩ := splitNext_front hfront
  obtain ⟨htext, _⟩ := htakes.of_not (by decide)
  have hall := descriptorEnd_all ((paren_space (c := 32) rfl false (List.replicate n 98)).trans (paren_replicate n))
  rw [hall, List.take_length] at htext
  have hsplits := splits_splitting (97 :: 32 :: List.replicate n 98)
  generalize splitting (97 :: 32 :: List.replicate n 98) = cs at hsplits hfits
  cases hsplits with
  | none hnone => cases hnone.symm.trans hnext
  | some hsome _ =>
    cases hsome.symm.trans hnext
    have hblanks := (hfits c List.mem_cons_self).blanks
    rw [hbehind, htext, List.length_cons, List.length_replicate, Int.toNat_of_nonpos hn, List.drop_zero] at hblanks
    have hletter := hblanks 98 (List.mem_cons_of_mem _ (List.mem_replicate.mpr ⟨hpos, rfl⟩))
    exact absurd hletter (by decide)

theorem misread_two_gigabytes : parseSrcSet (97 :: 32 :: List.replicate (2 ^ 31) 98) ≠
    some ((splitting (97 :: 32 :: List.replicate (2 ^ 31) 98)).map Split.candidate) := by
  refine misread_of_wrapped ?_ (by omega)
  unfold toInt32
  rw [Int.bmod_def]
  split_ifs <;> omega

end

end PageSpeed.Rewriter.SrcSet
