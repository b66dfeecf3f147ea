import PageSpeed.Base.Ascii
import PageSpeed.Base.WildcardLanguage

/-!
`Wildcard::Match` gives the language of the pattern, and reads only what is there. The search for the
blocks keeps room for those that are left.
-/

namespace PageSpeed.Wildcard

variable {pat s b last actual rest : GoogleString} {blocks : List GoogleString}

structure Window (actual : GoogleString) (strLastBlock : ℕ) (pat : GoogleString) (str : ℕ) (charsToSkip : ℤ)
    (blocks : List GoogleString) (rest : GoogleString) : Prop where
  pat : pat = stored blocks ++ rest
  room : str + charsToSkip + total blocks = strLastBlock
  skip : 0 ≤ charsToSkip
  bound : strLastBlock ≤ actual.length
  blocks : ∀ b ∈ blocks, kMatchAny ∉ b ∧ ∃ c b', b = c :: b' ∧ c ≠ kMatchOne

theorem getElem?_of_fits {c : UInt8} {k : ℕ} (hc : c ≠ kMatchOne) (h : Fits (c :: b) (s.drop k)) : s[k]? = some c := by
  cases hdrop : s.drop k with
  | nil =>
    rw [hdrop] at h
    exact h.elim
  | cons a v =>
    rw [hdrop] at h
    rw [← List.head?_drop, hdrop, h.1.resolve_right hc]
    rfl

theorem not_fits_of_memchr_none {c : UInt8} (hc : c ≠ kMatchOne) (h : memchr s c = none) (k : ℕ) :
    ¬ Fits (c :: b) (s.drop k) := by
  intro hfits
  have hmem := List.mem_of_getElem? (getElem?_of_fits hc hfits)
  have hnone := List.findIdx?_eq_none_iff.mp h c hmem
  simp at hnone

theorem not_fits_before {c : UInt8} {i : ℕ} (hc : c ≠ kMatchOne) (h : memchr s c = some i) :
    ∀ j < i, ¬ Fits (c :: b) (s.drop j) := by
  intro j hj hfits
  obtain ⟨hlt, -, hbefore⟩ := List.findIdx?_eq_some_iff_getElem.mp h
  have hget := getElem?_of_fits hc hfits
  rw [List.getElem?_eq_getElem (by omega)] at hget
  have hne := hbefore j hj
  rw [Option.some.inj hget] at hne
  simp at hne

theorem matchBlock_of_fits {rest : GoogleString} (hb : kMatchAny ∉ b) (h : Fits b s) :
    matchBlock (b ++ kMatchAny :: rest) s = b.length := by
  induction b generalizing s with
  | nil =>
    cases s with
    | nil => rfl
    | cons c s => simp [matchBlock]
  | cons p b ih =>
    obtain ⟨hp, hb⟩ := not_or.mp (mt List.mem_cons.mpr hb)
    cases s with
    | nil => exact h.elim
    | cons c s =>
      rw [List.cons_append, matchBlock, if_pos ⟨Ne.symm hp, h.1⟩, ih hb h.2]
      rfl

theorem matchBlock_iff {rest : GoogleString} (hb : kMatchAny ∉ b) :
    (b ++ kMatchAny :: rest)[matchBlock (b ++ kMatchAny :: rest) s]? = some kMatchAny ↔ Fits b s := by
  constructor
  · exact fun h => (fits_of_matchBlock hb h).2
  · intro h
    rw [matchBlock_of_fits hb h]
    simp

namespace Window

variable {strLastBlock str : ℕ} {charsToSkip : ℤ} {c : UInt8}

def left (actual : GoogleString) (strLastBlock str : ℕ) : GoogleString := (actual.drop str).take (strLastBlock - str)

theorem left_drop (actual : GoogleString) (strLastBlock str k : ℕ) :
    (left actual strLastBlock str).drop k = left actual strLastBlock (str + k) := by
  unfold left
  rw [List.drop_take, List.drop_drop]
  congr 1
  omega

theorem length_left (h : Window actual strLastBlock pat str charsToSkip blocks rest) :
    ((left actual strLastBlock str).length : ℤ) = charsToSkip + total blocks := by
  have hroom := h.room
  have hskip := h.skip
  have hbound := h.bound
  unfold left
  rw [List.length_take, List.length_drop]
  omega

theorem cons (h : Window actual strLastBlock pat str charsToSkip blocks rest) (hne : blocks.length ≠ 0) :
    ∃ c b bs, blocks = (c :: b) :: bs ∧ c ≠ kMatchOne ∧ kMatchAny ∉ b ∧
      pat = c :: (b ++ kMatchAny :: (stored bs ++ rest)) := by
  cases blocks with
  | nil => exact absurd rfl hne
  | cons x bs =>
    obtain ⟨hstar, c, b, rfl, hc⟩ := h.blocks x List.mem_cons_self
    refine ⟨c, b, bs, rfl, hc, List.not_mem_of_not_mem_cons hstar, ?_⟩
    rw [h.pat, stored_cons]
    simp

theorem skipTo (h : Window actual strLastBlock pat str charsToSkip blocks rest) {k : ℕ} (hk : 0 ≤ charsToSkip - k) :
    Window actual strLastBlock pat (str + k) (charsToSkip - k) blocks rest := by
  refine ⟨h.pat, ?_, hk, h.bound, h.blocks⟩
  have hroom := h.room
  omega

theorem next (h : Window actual strLastBlock (c :: (b ++ kMatchAny :: (stored blocks ++ rest))) str charsToSkip
    ((c :: b) :: blocks) rest) : Window actual strLastBlock (stored blocks ++ rest) (str + (b.length + 1)) charsToSkip
      blocks rest := by
  refine ⟨rfl, ?_, h.skip, h.bound, fun x hx => h.blocks x (List.mem_cons_of_mem _ hx)⟩
  have hroom := h.room
  rw [total_cons, List.length_cons] at hroom
  push_cast at hroom ⊢
  omega

theorem not_found (h : Window actual strLastBlock pat str charsToSkip (b :: blocks) rest) {k : ℕ}
    (hk : charsToSkip - k < 0) (hbefore : ∀ j < k, ¬ Fits b ((left actual strLastBlock str).drop j)) :
    ¬ Found (b :: blocks) (left actual strLastBlock str) := by
  intro hfound
  have htotal := total_le_of_found ((found_cons_iff k hbefore).mp hfound)
  have hlen := h.length_left
  obtain ⟨-, c, b', rfl, -⟩ := h.blocks b List.mem_cons_self
  rw [List.length_drop] at htotal
  rw [total_cons, List.length_cons] at htotal hlen
  omega

theorem fits_left (h : Window actual strLastBlock pat str charsToSkip (b :: blocks) rest) :
    Fits b (left actual strLastBlock str) ↔ Fits b (actual.drop str) := by
  have hroom := h.room
  have hskip := h.skip
  rw [total_cons] at hroom
  exact fits_take _ (by omega)

theorem compare_iff (h : Window actual strLastBlock (c :: (b ++ kMatchAny :: (stored blocks ++ rest))) str charsToSkip
    ((c :: b) :: blocks) rest) (hstar : kMatchAny ∉ b) {skipped : ℕ} (hskip : 0 ≤ charsToSkip - skipped)
    (hfound : memchr (left actual strLastBlock str) c = some skipped) :
    (c :: (b ++ kMatchAny :: (stored blocks ++ rest)))[1 + matchBlock (b ++ kMatchAny :: (stored blocks ++ rest))
      (actual.drop (str + skipped + 1))]? = some kMatchAny ↔ Fits (c :: b) ((left actual strLastBlock str).drop skipped) := by
  have hdrop := drop_of_memchr hfound
  rw [List.drop_drop, List.drop_drop] at hdrop
  rw [Nat.add_comm 1, List.getElem?_cons_succ, matchBlock_iff hstar, left_drop, (h.skipTo hskip).fits_left, hdrop]
  exact (and_iff_right (.inl rfl)).symm

theorem advance (h : Window actual strLastBlock pat str charsToSkip blocks rest) (hne : blocks.length ≠ 0) {skipped : ℕ}
    (hskip : 0 ≤ charsToSkip - skipped) (hfound : memchr (left actual strLastBlock str) (pat.headD 0) = some skipped)
    (hmatch : pat[1 + matchBlock (pat.drop 1) (actual.drop (str + skipped + 1))]? = some kMatchAny) :
    ∃ b bs, blocks = b :: bs ∧ 1 + matchBlock (pat.drop 1) (actual.drop (str + skipped + 1)) = b.length ∧
      Fits b ((left actual strLastBlock str).drop skipped) ∧
      (∀ j < skipped, ¬ Fits b ((left actual strLastBlock str).drop j)) ∧
      Window actual strLastBlock (pat.drop (b.length + 1)) (str + skipped + b.length) (charsToSkip - skipped) bs rest := by
  obtain ⟨c, b, bs, rfl, hc, hstar, rfl⟩ := h.cons hne
  have hfits := (h.compare_iff hstar hskip hfound).mp hmatch
  have hdrop := drop_of_memchr hfound
  rw [List.drop_drop, List.drop_drop] at hdrop
  have hrest := (h.skipTo hskip).fits_left.mp (left_drop .. ▸ hfits)
  rw [hdrop] at hrest
  have hafter : Fits b (actual.drop (str + skipped + 1)) := hrest.2
  refine ⟨c :: b, bs, rfl, ?_, hfits, not_fits_before hc hfound, ?_⟩
  · change 1 + matchBlock (b ++ kMatchAny :: (stored bs ++ rest)) (actual.drop (str + skipped + 1)) = b.length + 1
    rw [matchBlock_of_fits hstar hafter, Nat.add_comm]
  · have hpat : (c :: (b ++ kMatchAny :: (stored bs ++ rest))).drop ((c :: b).length + 1) = stored bs ++ rest := by
      simp
    rw [hpat]
    exact (h.skipTo hskip).next

theorem inside (h : Window actual strLastBlock pat str charsToSkip blocks rest) (hne : blocks.length ≠ 0) :
    ¬ (strLastBlock < str ∨ actual.length < strLastBlock ∨ pat = []) := by
  have hroom := h.room
  have hskip := h.skip
  have hbound := h.bound
  obtain ⟨c, b, bs, -, -, -, rfl⟩ := h.cons hne
  rintro (hlt | hlt | hnil)
  · omega
  · omega
  · exact absurd hnil (List.cons_ne_nil _ _)

end Window

theorem matchBlocks_iff {strLastBlock str blocksLeft : ℕ} {charsToSkip : ℤ}
    (h : Window actual strLastBlock pat str charsToSkip blocks rest) (hcount : blocks.length = blocksLeft) :
    matchBlocks actual strLastBlock pat str charsToSkip blocksLeft = true ↔
      Found blocks (Window.left actual strLastBlock str) := by
  fun_induction matchBlocks actual strLastBlock pat str charsToSkip blocksLeft generalizing blocks with
  | case1 pat str charsToSkip =>
    obtain rfl := List.length_eq_zero_iff.mp hcount
    exact iff_of_true rfl trivial
  | case2 pat str charsToSkip blocksLeft hleft hnone =>
    obtain ⟨c, b, bs, rfl, hc, -, rfl⟩ := h.cons (hcount ▸ hleft)
    refine iff_of_false Bool.false_ne_true ?_
    rintro ⟨k, hfits, -⟩
    exact not_fits_of_memchr_none hc hnone k hfits
  | case3 pat str charsToSkip blocksLeft hleft skipped hfound hskip =>
    obtain ⟨c, b, bs, rfl, hc, -, rfl⟩ := h.cons (hcount ▸ hleft)
    exact iff_of_false Bool.false_ne_true (h.not_found hskip (not_fits_before hc hfound))
  | case4 pat str charsToSkip blocksLeft hleft skipped hfound hskip ofs hmismatch =>
    rename_i hskip'
    obtain ⟨c, b, bs, rfl, hc, hstar, rfl⟩ := h.cons (hcount ▸ hleft)
    have hnot := mt (h.compare_iff hstar (Int.not_lt.mp hskip) hfound).mpr hmismatch
    have hlast : charsToSkip - (skipped + 1 : ℕ) < 0 := by
      push_cast
      omega
    refine iff_of_false Bool.false_ne_true (h.not_found hlast fun j hj => ?_)
    obtain hlt | rfl := Nat.lt_or_eq_of_le (Nat.le_of_lt_succ hj)
    · exact not_fits_before hc hfound j hlt
    · exact hnot
  | case5 pat str charsToSkip blocksLeft hleft skipped hfound hskip ofs hmismatch hskip' =>
    rename_i ih
    obtain ⟨c, b, bs, rfl, hc, hstar, rfl⟩ := h.cons (hcount ▸ hleft)
    have hnot := mt (h.compare_iff hstar (Int.not_lt.mp hskip) hfound).mpr hmismatch
    have hbefore : ∀ j < skipped + 1, ¬ Fits (c :: b) ((Window.left actual strLastBlock str).drop j) := by
      intro j hj
      obtain hlt | rfl := Nat.lt_or_eq_of_le (Nat.le_of_lt_succ hj)
      · exact not_fits_before hc hfound j hlt
      · exact hnot
    have hnext := (h.skipTo (Int.not_lt.mp hskip)).skipTo (k := 1) (Int.not_lt.mp hskip')
    rw [ih hnext hcount, found_cons_iff (skipped + 1) hbefore, Window.left_drop]
    rfl
  | case6 pat str charsToSkip blocksLeft hleft skipped hfound hskip ofs hmatch =>
    rename_i ih
    obtain ⟨b, bs, rfl, hofs, hfits, hbefore, hnext⟩ :=
      h.advance (hcount ▸ hleft) (Int.not_lt.mp hskip) hfound (not_not.mp hmatch)
    have hofs : ofs = b.length := hofs
    rw [hofs] at ih ⊢
    rw [ih hnext (by rw [← hcount]; rfl), found_cons_iff skipped hbefore, found_cons_of_fits hfits, Window.left_drop,
      Window.left_drop]

/-- `MatchBlock`, where a byte that is read is there. -/
def readBlock : GoogleString → GoogleString → Option ℕ
  | [], _ => none
  | p :: pat, str =>
    if p = kMatchAny then some 0
    else
      match str with
      | [] => none
      | c :: str => if p = c ∨ p = kMatchOne then (readBlock pat str).map (· + 1) else some 0

def checkedBlocks (actual : GoogleString) (strLastBlock : ℕ) (pat : GoogleString) (str : ℕ) (charsToSkip : ℤ)
    (blocksLeft : ℕ) : Option Bool :=
  if blocksLeft = 0 then some true
  else if strLastBlock < str ∨ actual.length < strLastBlock ∨ pat = [] then none
  else
    match memchr ((actual.drop str).take (strLastBlock - str)) (pat.headD 0) with
    | none => some false
    | some skipped =>
      if charsToSkip - skipped < 0 then some false
      else
        match readBlock (pat.drop 1) (actual.drop (str + skipped + 1)) with
        | none => none
        | some n =>
          if pat[1 + n]? ≠ some kMatchAny then
            if charsToSkip - skipped - 1 < 0 then some false
            else checkedBlocks actual strLastBlock pat (str + skipped + 1) (charsToSkip - skipped - 1) blocksLeft
          else checkedBlocks actual strLastBlock (pat.drop (1 + n + 1)) (str + skipped + (1 + n)) (charsToSkip - skipped)
            (blocksLeft - 1)
termination_by (blocksLeft, charsToSkip.toNat)

/-- `Wildcard::Match`, where it reads only what is there. -/
def checkedMatch (w : Wildcard) (actual : GoogleString) : Option Bool :=
  if w.isSimple then some (actual == w.spec)
  else
    let charsInPat := w.storage.length - w.numBlocks
    let charsToSkip := toInt32 (actual.length - charsInPat)
    if charsToSkip < 0 then some false
    else
      let lastBlockSize := w.storage.length - w.lastBlockOffset - 1
      let patLastBlock := w.storage.drop w.lastBlockOffset
      if actual.length < lastBlockSize then none
      else
        let strLastBlock := actual.length - lastBlockSize
        match readBlock patLastBlock (actual.drop strLastBlock) with
        | none => none
        | some ofs =>
          if patLastBlock[ofs]? ≠ some kMatchAny then some false
          else if w.numBlocks = 1 then some (charsToSkip == 0)
          else
            match readBlock w.storage actual with
            | none => none
            | some ofs =>
              if w.storage[ofs]? ≠ some kMatchAny then some false
              else checkedBlocks actual strLastBlock (w.storage.drop (ofs + 1)) ofs charsToSkip (w.numBlocks - 2)

theorem readBlock_eq {rest : GoogleString} (hb : kMatchAny ∉ b) (hlen : b.length ≤ s.length) :
    readBlock (b ++ kMatchAny :: rest) s = some (matchBlock (b ++ kMatchAny :: rest) s) := by
  induction b generalizing s with
  | nil => cases s <;> simp [readBlock, matchBlock]
  | cons p b ih =>
    obtain ⟨hp, hb⟩ := not_or.mp (mt List.mem_cons.mpr hb)
    cases s with
    | nil => exact absurd hlen (Nat.not_succ_le_zero _)
    | cons c s =>
      rw [List.cons_append, readBlock, if_neg (Ne.symm hp), matchBlock]
      by_cases hc : p = c ∨ p = kMatchOne
      · rw [if_pos hc, if_pos ⟨Ne.symm hp, hc⟩, ih hb (Nat.le_of_succ_le_succ hlen), Option.map_some]
      · rw [if_neg hc, if_neg fun h => hc h.2]

theorem Window.readBlock {strLastBlock str : ℕ} {charsToSkip : ℤ}
    (h : Window actual strLastBlock pat str charsToSkip blocks rest) (hne : blocks.length ≠ 0) {skipped : ℕ}
    (hskip : 0 ≤ charsToSkip - skipped) :
    Wildcard.readBlock (pat.drop 1) (actual.drop (str + skipped + 1)) =
      some (matchBlock (pat.drop 1) (actual.drop (str + skipped + 1))) := by
  obtain ⟨c, b, bs, rfl, -, hstar, rfl⟩ := h.cons hne
  refine readBlock_eq hstar ?_
  have hroom := h.room
  have hbound := h.bound
  rw [total_cons, List.length_cons] at hroom
  rw [List.length_drop]
  omega

theorem checkedBlocks_eq {strLastBlock str blocksLeft : ℕ} {charsToSkip : ℤ}
    (h : Window actual strLastBlock pat str charsToSkip blocks rest) (hcount : blocks.length = blocksLeft) :
    checkedBlocks actual strLastBlock pat str charsToSkip blocksLeft =
      some (matchBlocks actual strLastBlock pat str charsToSkip blocksLeft) := by
  fun_induction matchBlocks actual strLastBlock pat str charsToSkip blocksLeft generalizing blocks with
  | case1 pat str charsToSkip => rw [checkedBlocks, if_pos rfl]
  | case2 pat str charsToSkip blocksLeft hleft hnone =>
    rw [checkedBlocks, if_neg hleft, if_neg (h.inside (hcount ▸ hleft)), hnone]
  | case3 pat str charsToSkip blocksLeft hleft skipped hfound hskip =>
    rw [checkedBlocks, if_neg hleft, if_neg (h.inside (hcount ▸ hleft)), hfound]
    dsimp only
    rw [if_pos hskip]
  | case4 pat str charsToSkip blocksLeft hleft skipped hfound hskip ofs hmismatch =>
    rename_i hskip'
    rw [checkedBlocks, if_neg hleft, if_neg (h.inside (hcount ▸ hleft)), hfound]
    dsimp only
    rw [if_neg hskip, h.readBlock (hcount ▸ hleft) (Int.not_lt.mp hskip)]
    dsimp only
    rw [if_pos hmismatch, if_pos hskip']
  | case5 pat str charsToSkip blocksLeft hleft skipped hfound hskip ofs hmismatch hskip' =>
    rename_i ih
    rw [checkedBlocks, if_neg hleft, if_neg (h.inside (hcount ▸ hleft)), hfound]
    dsimp only
    rw [if_neg hskip, h.readBlock (hcount ▸ hleft) (Int.not_lt.mp hskip)]
    dsimp only
    rw [if_pos hmismatch, if_neg hskip']
    exact ih ((h.skipTo (Int.not_lt.mp hskip)).skipTo (k := 1) (Int.not_lt.mp hskip')) hcount
  | case6 pat str charsToSkip blocksLeft hleft skipped hfound hskip ofs hmatch =>
    rename_i ih
    rw [checkedBlocks, if_neg hleft, if_neg (h.inside (hcount ▸ hleft)), hfound]
    dsimp only
    rw [if_neg hskip, h.readBlock (hcount ▸ hleft) (Int.not_lt.mp hskip)]
    dsimp only
    rw [if_neg hmatch]
    obtain ⟨b, bs, rfl, hofs, -, -, hnext⟩ :=
      h.advance (hcount ▸ hleft) (Int.not_lt.mp hskip) hfound (not_not.mp hmatch)
    have hofs : ofs = b.length := hofs
    change checkedBlocks actual strLastBlock (pat.drop (ofs + 1)) (str + skipped + ofs) _ _ = _
    rw [hofs] at ih ⊢
    exact ih hnext (by rw [← hcount]; rfl)

theorem inLanguage_spec {w : Wildcard} (hw : Stored w blocks last [kMatchAny])
    (hone : ¬ [kMatchAny, kMatchOne] <:+: w.storage) :
    InLanguage w.spec s ↔
      match blocks with
      | [] => Fits last s ∧ s.length ≤ last.length
      | b :: blocks => Fits b s ∧ last.length ≤ (s.drop b.length).length ∧
          Fits last ((s.drop b.length).drop ((s.drop b.length).length - last.length)) ∧
          Found blocks ((s.drop b.length).take ((s.drop b.length).length - last.length)) := by
  have hspec : w.spec = stored blocks ++ last := by
    unfold spec
    rw [hw.storage, List.length_append, List.length_singleton, Nat.add_sub_cancel, List.take_left]
  rw [hspec]
  cases blocks with
  | nil =>
    have hblock : InLanguage (last ++ []) s ↔ _ := inLanguage_block hw.lastNoStar
    rw [List.append_nil, inLanguage_nil, List.drop_eq_nil_iff] at hblock
    exact hblock
  | cons b blocks =>
    have hheads := head_of_stored hw hone
    rw [stored_cons, List.append_assoc, List.cons_append, inLanguage_block (hw.noStar b List.mem_cons_self),
      inLanguage_stored (fun x hx => ?_) hw.lastNoStar]
    obtain ⟨hstar, c, x', rfl, -⟩ := hheads x hx
    exact ⟨hstar, List.cons_ne_nil _ _⟩

namespace Stored

variable {w : Wildcard}

theorem charsInPat (hw : Stored w blocks last [kMatchAny]) :
    w.storage.length - w.numBlocks = total blocks + last.length := by
  rw [hw.storage, hw.numBlocks, List.length_append, List.length_append, List.length_singleton, length_stored]
  omega

theorem lastBlockSize (hw : Stored w blocks last [kMatchAny]) :
    w.storage.length - w.lastBlockOffset - 1 = last.length := by
  rw [hw.storage, hw.lastBlockOffset, List.length_append, List.length_append, List.length_singleton]
  omega

theorem patLastBlock (hw : Stored w blocks last [kMatchAny]) :
    w.storage.drop w.lastBlockOffset = last ++ kMatchAny :: [] := by
  rw [hw.storage, hw.lastBlockOffset, List.append_assoc, List.drop_left]

theorem firstBlock (hw : Stored w (b :: blocks) last [kMatchAny]) :
    w.storage = b ++ kMatchAny :: (stored blocks ++ (last ++ [kMatchAny])) := by
  rw [hw.storage, stored_cons]
  simp

theorem window (hw : Stored w (b :: blocks) last [kMatchAny]) (hone : ¬ [kMatchAny, kMatchOne] <:+: w.storage)
    (hroom : total (b :: blocks) + last.length ≤ actual.length) :
    Window actual (actual.length - last.length) (w.storage.drop (b.length + 1)) b.length
      (actual.length - (total (b :: blocks) + last.length : ℕ)) blocks (last ++ [kMatchAny]) := by
  rw [total_cons] at hroom ⊢
  refine ⟨?_, ?_, ?_, Nat.sub_le _ _, head_of_stored hw hone⟩
  · rw [hw.firstBlock]
    simp
  · omega
  · omega

end Stored

theorem left_eq_take (actual b last : GoogleString) : Window.left actual (actual.length - last.length) b.length =
    (actual.drop b.length).take ((actual.drop b.length).length - last.length) := by
  unfold Window.left
  rw [List.length_drop]
  congr 1
  omega

theorem isMatch_iff_spec {w : Wildcard} (hw : Stored w blocks last [kMatchAny])
    (hone : ¬ [kMatchAny, kMatchOne] <:+: w.storage) (hsimple : w.isSimple = false)
    (hint : toInt32 (actual.length - (total blocks + last.length : ℕ)) = actual.length - (total blocks + last.length : ℕ)) :
    checkedMatch w actual = some (w.isMatch actual) ∧ (w.isMatch actual = true ↔ InLanguage w.spec actual) := by
  rw [inLanguage_spec hw hone]
  unfold checkedMatch isMatch
  simp only [hsimple, Bool.false_eq_true, if_false, hw.charsInPat, hw.lastBlockSize, hw.patLastBlock, hint]
  by_cases hskip : (actual.length : ℤ) - (total blocks + last.length : ℕ) < 0
  · rw [if_pos hskip, if_pos hskip]
    refine ⟨rfl, iff_of_false Bool.false_ne_true ?_⟩
    cases blocks with
    | nil =>
      rintro ⟨hfits, -⟩
      have hle := length_le_of_fits hfits
      simp only [total, List.map_nil, List.sum_nil] at hskip
      omega
    | cons b blocks =>
      rintro ⟨hfits, hlast, -, hfound⟩
      have hle := length_le_of_fits hfits
      have htotal := total_le_of_found hfound
      rw [List.length_take, List.length_drop] at htotal
      rw [List.length_drop] at hlast
      rw [total_cons] at hskip
      omega
  · rw [if_neg hskip, if_neg hskip, if_neg (by omega)]
    have hlastLen : last.length ≤ (actual.drop (actual.length - last.length)).length := by
      rw [List.length_drop]
      omega
    rw [readBlock_eq hw.lastNoStar hlastLen]
    dsimp only
    have hlastIff : (last ++ kMatchAny :: [])[matchBlock (last ++ kMatchAny :: [])
        (actual.drop (actual.length - last.length))]? = some kMatchAny ↔
          Fits last (actual.drop (actual.length - last.length)) := matchBlock_iff hw.lastNoStar
    have hroom : total blocks + last.length ≤ actual.length := by omega
    cases blocks with
    | nil =>
      have hone : w.numBlocks = 1 := hw.numBlocks
      simp only [total, List.map_nil, List.sum_nil, Nat.zero_add] at hroom ⊢
      rw [if_pos hone, if_pos hone]
      by_cases hlast : Fits last (actual.drop (actual.length - last.length))
      · rw [if_neg (not_not.mpr (hlastIff.mpr hlast)), if_neg (not_not.mpr (hlastIff.mpr hlast))]
        refine ⟨rfl, ?_⟩
        rw [beq_iff_eq]
        constructor
        · intro hlen
          have hzero : actual.length - last.length = 0 := by omega
          rw [hzero, List.drop_zero] at hlast
          exact ⟨hlast, by omega⟩
        · rintro ⟨-, hle⟩
          omega
      · rw [if_pos (mt hlastIff.mp hlast), if_pos (mt hlastIff.mp hlast)]
        refine ⟨rfl, iff_of_false Bool.false_ne_true ?_⟩
        rintro ⟨hfits, hle⟩
        have hzero : actual.length - last.length = 0 := by omega
        rw [hzero, List.drop_zero] at hlast
        exact hlast hfits
    | cons b blocks =>
      have hone' : w.numBlocks ≠ 1 := by
        rw [hw.numBlocks, List.length_cons]
        omega
      have hcount : blocks.length = w.numBlocks - 2 := by
        rw [hw.numBlocks]
        rfl
      have hstar := hw.noStar b List.mem_cons_self
      have hfirst : b.length ≤ actual.length := by
        rw [total_cons] at hroom
        omega
      have hdrop : (actual.drop b.length).drop ((actual.drop b.length).length - last.length) =
          actual.drop (actual.length - last.length) := by
        rw [total_cons] at hroom
        rw [List.drop_drop, List.length_drop]
        congr 1
        omega
      have hwindow := hw.window hone hroom
      have hfirstIff : w.storage[matchBlock w.storage actual]? = some kMatchAny ↔ Fits b actual := by
        rw [hw.firstBlock]
        exact matchBlock_iff hstar
      have hread : Wildcard.readBlock w.storage actual = some (matchBlock w.storage actual) := by
        rw [hw.firstBlock]
        exact readBlock_eq hstar hfirst
      rw [if_neg hone', if_neg hone', hread]
      dsimp only
      simp only [hdrop]
      by_cases hlast : Fits last (actual.drop (actual.length - last.length))
      · rw [if_neg (not_not.mpr (hlastIff.mpr hlast)), if_neg (not_not.mpr (hlastIff.mpr hlast))]
        by_cases hfits : Fits b actual
        · have hofs : matchBlock w.storage actual = b.length := by
            rw [hw.firstBlock]
            exact matchBlock_of_fits hstar hfits
          rw [if_neg (not_not.mpr (hfirstIff.mpr hfits)), if_neg (not_not.mpr (hfirstIff.mpr hfits)), hofs,
            checkedBlocks_eq hwindow hcount]
          refine ⟨rfl, ?_⟩
          rw [matchBlocks_iff hwindow hcount, left_eq_take]
          constructor
          · intro hfound
            refine ⟨hfits, ?_, hlast, hfound⟩
            rw [total_cons] at hroom
            rw [List.length_drop]
            omega
          · exact fun h => h.2.2.2
        · rw [if_pos (mt hfirstIff.mp hfits), if_pos (mt hfirstIff.mp hfits)]
          exact ⟨rfl, iff_of_false Bool.false_ne_true fun h => hfits h.1⟩
      · rw [if_pos (mt hlastIff.mp hlast), if_pos (mt hlastIff.mp hlast)]
        exact ⟨rfl, iff_of_false Bool.false_ne_true fun h => hlast h.2.2.1⟩

/-- A string is matched just if it is in the language of the pattern, which the blocks keep. -/
theorem isMatch_exact (wildcardSpec actual : GoogleString) (hspec : wildcardSpec.length < 2 ^ 31)
    (hactual : actual.length < 2 ^ 31) :
    checkedMatch (initFromSpec wildcardSpec) actual = some ((initFromSpec wildcardSpec).isMatch actual) ∧
      ((initFromSpec wildcardSpec).isMatch actual = true ↔ InLanguage wildcardSpec actual) ∧
      SameLanguage wildcardSpec (initFromSpec wildcardSpec).spec := by
  have hlanguage := spec_language wildcardSpec
  cases hsimple : (initFromSpec wildcardSpec).isSimple with
  | true =>
    obtain ⟨hsame, hliteral⟩ := spec_of_isSimple hsimple
    refine ⟨?_, ?_, hlanguage⟩
    · rw [checkedMatch, isMatch, if_pos hsimple, if_pos hsimple]
    · rw [isMatch, if_pos hsimple, beq_iff_eq, hsame, inLanguage_literal hliteral]
  | false =>
    obtain ⟨blocks, last, hw⟩ := initFromSpec_stored wildcardSpec
    have hchars := hw.charsInPat
    have hlength := length_storage_le wildcardSpec
    have hdiff := toInt32_of_lt (show (actual.length - (total blocks + last.length : ℕ) : ℤ) < 2 ^ 31 by omega) (by omega)
    have hint := isMatch_iff_spec hw (not_infix_one wildcardSpec) hsimple hdiff
    exact ⟨hint.1, hint.2.trans (hlanguage actual).symm, hlanguage⟩

theorem isMatch_exact_moved : (initFromSpec (ascii "a*?b*")).isMatch (ascii "axybz") = true :=
  (isMatch_exact (ascii "a*?b*") (ascii "axybz") (by decide) (by decide)).2.1.mpr
    ⟨97, ascii "xybz", rfl, .inl rfl, ascii "x", ascii "ybz", rfl, 121, ascii "bz", rfl, .inr rfl, 98, ascii "z", rfl,
      .inl rfl, ascii "z", [], rfl, rfl⟩

theorem not_isMatch_of_length (h : actual.length = 2 ^ 31) : (initFromSpec [kMatchAny]).isMatch actual = false := by
  have hw : initFromSpec [kMatchAny] = ⟨[kMatchAny, kMatchAny], 2, 1, false⟩ := rfl
  rw [hw, isMatch, if_neg Bool.false_ne_true, h]
  exact if_pos (by decide)

theorem long_string_not_matched : ¬ ((initFromSpec [kMatchAny]).isMatch (List.replicate (2 ^ 31) 0) = true ↔
    InLanguage [kMatchAny] (List.replicate (2 ^ 31) 0)) := by
  intro h
  have hfalse := not_isMatch_of_length (List.length_replicate (n := 2 ^ 31) (a := (0 : UInt8)))
  rw [h.mpr (inLanguage_any.mpr ⟨List.replicate (2 ^ 31) 0, [], (List.append_nil _).symm, rfl⟩)] at hfalse
  cases hfalse

end PageSpeed.Wildcard
