import PageSpeed.Basic
import Mathlib.Data.List.Infix
import Mathlib.Data.List.Flatten

/-!
Wildcards (`kernel/base/wildcard.cc`), and that a string matched by one holds its
literal parts.
-/

namespace PageSpeed

structure Wildcard where
  storage : GoogleString
  numBlocks : ℕ
  lastBlockOffset : ℕ
  isSimple : Bool
deriving DecidableEq

namespace Wildcard

def kMatchAny : UInt8 := 42

def kMatchOne : UInt8 := 63

/-- The first part is the wildcard so far, the second `last_was_any`. -/
def initChar : Wildcard × Bool → UInt8 → Wildcard × Bool
  | (w, lastWasAny), c =>
    if c = kMatchAny then ({ w with isSimple := false }, true)
    else if c = kMatchOne then ({ w with storage := w.storage ++ [c], isSimple := false }, lastWasAny)
    else if lastWasAny then
      ({ w with
        numBlocks := w.numBlocks + 1
        storage := w.storage ++ [kMatchAny, c]
        lastBlockOffset := w.storage.length + 1 }, false)
    else ({ w with storage := w.storage ++ [c] }, false)

def initFromSpec (wildcardSpec : GoogleString) : Wildcard :=
  match wildcardSpec.foldl initChar (⟨[], 1, 0, true⟩, false) with
  | (w, lastWasAny) =>
    if lastWasAny then
      { w with
        numBlocks := w.numBlocks + 1
        storage := w.storage ++ [kMatchAny, kMatchAny]
        lastBlockOffset := w.storage.length + 1 }
    else { w with storage := w.storage ++ [kMatchAny] }

def spec (w : Wildcard) : GoogleString := w.storage.take (w.storage.length - 1)

/-- The offset of the first mismatch, or of the `*`. -/
def matchBlock : GoogleString → GoogleString → ℕ
  | p :: pat, c :: str => if p ≠ kMatchAny ∧ (p = c ∨ p = kMatchOne) then matchBlock pat str + 1 else 0
  | _, _ => 0

def memchr (str : GoogleString) (c : UInt8) : Option ℕ := str.findIdx? (· == c)

/-- The blocks between the first and the last; `str` and `strLastBlock` are offsets in `actual`. -/
def matchBlocks (actual : GoogleString) (strLastBlock : ℕ) (pat : GoogleString) (str : ℕ) (charsToSkip : ℤ)
    (blocksLeft : ℕ) : Bool :=
  if blocksLeft = 0 then true
  else
    match memchr ((actual.drop str).take (strLastBlock - str)) (pat.headD 0) with
    | none => false
    | some skipped =>
      if charsToSkip - skipped < 0 then false
      else
        let ofs := 1 + matchBlock (pat.drop 1) (actual.drop (str + skipped + 1))
        if pat[ofs]? ≠ some kMatchAny then
          if charsToSkip - skipped - 1 < 0 then false
          else matchBlocks actual strLastBlock pat (str + skipped + 1) (charsToSkip - skipped - 1) blocksLeft
        else matchBlocks actual strLastBlock (pat.drop (ofs + 1)) (str + skipped + ofs) (charsToSkip - skipped)
          (blocksLeft - 1)
termination_by (blocksLeft, charsToSkip.toNat)

/-- `Wildcard::Match`. -/
def isMatch (w : Wildcard) (actual : GoogleString) : Bool :=
  if w.isSimple then actual == w.spec
  else
    let charsInPat := w.storage.length - w.numBlocks
    let charsToSkip := toInt32 (actual.length - charsInPat)
    if charsToSkip < 0 then false
    else
      let lastBlockSize := w.storage.length - w.lastBlockOffset - 1
      let patLastBlock := w.storage.drop w.lastBlockOffset
      let strLastBlock := actual.length - lastBlockSize
      if patLastBlock[matchBlock patLastBlock (actual.drop strLastBlock)]? ≠ some kMatchAny then false
      else if w.numBlocks = 1 then charsToSkip == 0
      else
        let ofs := matchBlock w.storage actual
        if w.storage[ofs]? ≠ some kMatchAny then false
        else matchBlocks actual strLastBlock (w.storage.drop (ofs + 1)) ofs charsToSkip (w.numBlocks - 2)

def stored (blocks : List GoogleString) : GoogleString := (blocks.map (· ++ [kMatchAny])).flatten

@[simp] theorem stored_nil : stored [] = [] := rfl

theorem stored_cons (b : GoogleString) (blocks : List GoogleString) :
    stored (b :: blocks) = b ++ kMatchAny :: stored blocks := by
  simp [stored]

theorem stored_append (blocks blocks' : List GoogleString) :
    stored (blocks ++ blocks') = stored blocks ++ stored blocks' := by
  simp [stored]

structure Stored (w : Wildcard) (blocks : List GoogleString) (last ending : GoogleString) : Prop where
  storage : w.storage = stored blocks ++ last ++ ending
  numBlocks : w.numBlocks = blocks.length + 1
  lastBlockOffset : w.lastBlockOffset = (stored blocks).length
  noStar : ∀ b ∈ blocks, kMatchAny ∉ b
  lastNoStar : kMatchAny ∉ last
  nonempty : ∀ b ∈ blocks.tail, b ≠ []

structure Storing (w : Wildcard) (blocks : List GoogleString) (last : GoogleString) : Prop
    extends Stored w blocks last [] where
  lastNonempty : blocks ≠ [] → last ≠ []

variable {w : Wildcard} {blocks : List GoogleString} {b str last actual literal : GoogleString}

theorem Storing.push (h : Storing w blocks last) (c : UInt8) (simple : Bool) (hc : c ≠ kMatchAny) :
    Storing { w with storage := w.storage ++ [c], isSimple := simple } blocks (last ++ [c]) := by
  refine ⟨⟨?_, h.numBlocks, h.lastBlockOffset, h.noStar, ?_, h.nonempty⟩, fun _ => by simp⟩
  · change w.storage ++ [c] = _
    rw [h.storage]
    simp
  · simp [h.lastNoStar, hc.symm]

theorem tail_append_ne_nil (h : ∀ b ∈ blocks.tail, b ≠ [])
    (hlast : blocks ≠ [] → last ≠ []) : ∀ b ∈ (blocks ++ [last]).tail, b ≠ [] := by
  cases blocks with
  | nil => nofun
  | cons b blocks =>
    intro x hx
    obtain hx | hx := List.mem_append.mp hx
    · exact h x hx
    · rw [List.mem_singleton.mp hx]
      exact hlast (List.cons_ne_nil _ _)

theorem Storing.close (h : Storing w blocks last) :
    w.storage ++ [kMatchAny] = stored (blocks ++ [last]) ∧ w.numBlocks + 1 = (blocks ++ [last]).length + 1 ∧
      w.storage.length + 1 = (stored (blocks ++ [last])).length ∧ (∀ b ∈ blocks ++ [last], kMatchAny ∉ b) ∧
      ∀ b ∈ (blocks ++ [last]).tail, b ≠ [] := by
  have hstored : w.storage ++ [kMatchAny] = stored (blocks ++ [last]) := by
    rw [h.storage, stored_append, stored_cons, stored_nil]
    simp
  refine ⟨hstored, ?_, ?_, fun b hb => ?_, tail_append_ne_nil h.nonempty h.lastNonempty⟩
  · rw [h.numBlocks, List.length_append, List.length_singleton]
  · rw [← hstored, List.length_append, List.length_singleton]
  · obtain hb | hb := List.mem_append.mp hb
    · exact h.noStar b hb
    · rw [List.mem_singleton.mp hb]
      exact h.lastNoStar

theorem initChar_storing (lastWasAny : Bool) (h : Storing w blocks last) (c : UInt8) :
    ∃ blocks last, Storing (initChar (w, lastWasAny) c).1 blocks last := by
  simp only [initChar]
  split_ifs with hany hone hlast
  · exact ⟨blocks, last, ⟨h.storage, h.numBlocks, h.lastBlockOffset, h.noStar, h.lastNoStar, h.nonempty⟩, h.lastNonempty⟩
  · exact ⟨blocks, _, h.push c false hany⟩
  · obtain ⟨hstored, hcount, hoffset, hnoStar, hnonempty⟩ := h.close
    refine ⟨blocks ++ [last], [c], ⟨?_, hcount, hoffset, hnoStar, ?_, hnonempty⟩, fun _ => List.cons_ne_nil _ _⟩
    · change w.storage ++ [kMatchAny, c] = _
      rw [← hstored]
      simp
    · simpa using Ne.symm hany
  · exact ⟨blocks, _, h.push c w.isSimple hany⟩

theorem foldl_storing (wildcardSpec : GoogleString) (lastWasAny : Bool) (h : Storing w blocks last) :
    ∃ blocks last, Storing (wildcardSpec.foldl initChar (w, lastWasAny)).1 blocks last := by
  induction wildcardSpec generalizing w lastWasAny blocks last with
  | nil => exact ⟨blocks, last, h⟩
  | cons c rest ih =>
    obtain ⟨blocks', last', h'⟩ := initChar_storing lastWasAny h c
    exact ih _ h'

theorem initFromSpec_stored (wildcardSpec : GoogleString) :
    ∃ blocks last, Stored (initFromSpec wildcardSpec) blocks last [kMatchAny] := by
  have hempty : Storing ⟨[], 1, 0, true⟩ [] [] := ⟨⟨rfl, rfl, rfl, nofun, nofun, nofun⟩, fun h => absurd rfl h⟩
  obtain ⟨blocks, last, h⟩ := foldl_storing wildcardSpec false hempty
  unfold initFromSpec
  generalize wildcardSpec.foldl initChar (⟨[], 1, 0, true⟩, false) = state at h
  obtain ⟨w, lastWasAny⟩ := state
  cases lastWasAny with
  | true =>
    obtain ⟨hstored, hcount, hoffset, hnoStar, hnonempty⟩ := h.close
    refine ⟨blocks ++ [last], [], ?_, hcount, hoffset, hnoStar, nofun, hnonempty⟩
    change w.storage ++ [kMatchAny, kMatchAny] = _
    rw [← hstored]
    simp
  | false =>
    refine ⟨blocks, last, ?_, h.numBlocks, h.lastBlockOffset, h.noStar, h.lastNoStar, h.nonempty⟩
    change w.storage ++ [kMatchAny] = _
    rw [h.storage]
    simp

def Fits : GoogleString → GoogleString → Prop
  | [], _ => True
  | p :: b, c :: str => (p = c ∨ p = kMatchOne) ∧ Fits b str
  | _ :: _, [] => False

theorem fits_of_matchBlock {rest : GoogleString} (hb : kMatchAny ∉ b)
    (h : (b ++ kMatchAny :: rest)[matchBlock (b ++ kMatchAny :: rest) str]? = some kMatchAny) :
    matchBlock (b ++ kMatchAny :: rest) str = b.length ∧ Fits b str := by
  induction b generalizing str with
  | nil =>
    refine ⟨?_, trivial⟩
    cases str with
    | nil => rfl
    | cons c str => simp [matchBlock]
  | cons p b ih =>
    obtain ⟨hp, hb⟩ := not_or.mp (mt List.mem_cons.mpr hb)
    cases str with
    | nil => exact absurd (Option.some.inj h).symm hp
    | cons c str =>
      simp only [List.cons_append, matchBlock] at h ⊢
      split_ifs at h ⊢ with hfits
      · obtain ⟨hlength, hrest⟩ := ih hb h
        exact ⟨by rw [hlength, List.length_cons], hfits.2, hrest⟩
      · exact absurd (Option.some.inj h).symm hp

theorem fits_append {a : GoogleString} (h : Fits (a ++ b) str) : Fits b (str.drop a.length) := by
  induction a generalizing str with
  | nil => exact h
  | cons p a ih =>
    cases str with
    | nil => exact h.elim
    | cons c str => exact ih h.2

theorem prefix_of_fits (hb : kMatchOne ∉ b) (h : Fits b str) : b <+: str := by
  induction b generalizing str with
  | nil => exact List.nil_prefix
  | cons p b ih =>
    obtain ⟨hp, hb⟩ := not_or.mp (mt List.mem_cons.mpr hb)
    cases str with
    | nil => exact h.elim
    | cons c str =>
      rw [h.1.resolve_right (Ne.symm hp)]
      exact List.cons_prefix_cons.mpr ⟨rfl, ih hb h.2⟩

theorem fits_left {a : GoogleString} (h : Fits (a ++ b) str) : Fits a str := by
  induction a generalizing str with
  | nil => trivial
  | cons p a ih =>
    cases str with
    | nil => exact h.elim
    | cons c str => exact ⟨h.1, ih h.2⟩

theorem infix_of_fits (hliteral : kMatchOne ∉ literal) (hpart : literal <:+: b)
    (h : Fits b str) : literal <:+: str := by
  obtain ⟨a, c, rfl⟩ := hpart
  have hstarts := prefix_of_fits hliteral (fits_append (fits_left h))
  exact hstarts.isInfix.trans (List.drop_suffix _ _).isInfix

theorem drop_of_memchr {n i : ℕ} {c : UInt8} (h : memchr (str.take n) c = some i) :
    str.drop i = c :: str.drop (i + 1) := by
  obtain ⟨hlt, heq, -⟩ := List.findIdx?_eq_some_iff_getElem.mp h
  have hlt' : i < str.length := lt_of_lt_of_le hlt (List.length_take_le' n str)
  rw [List.getElem_take] at heq
  rw [List.drop_eq_getElem_cons hlt', beq_iff_eq.mp heq]

theorem fits_of_matchBlocks {pat : GoogleString} {strLastBlock str blocksLeft : ℕ} {charsToSkip : ℤ} {rest : GoogleString}
    (h : matchBlocks actual strLastBlock pat str charsToSkip blocksLeft = true) (hpat : pat = stored blocks ++ rest)
    (hcount : blocks.length = blocksLeft) (hblocks : ∀ b ∈ blocks, kMatchAny ∉ b ∧ b ≠ []) :
    ∀ b ∈ blocks, ∃ k, Fits b (actual.drop k) := by
  fun_induction matchBlocks actual strLastBlock pat str charsToSkip blocksLeft generalizing blocks with
  | case1 pat str charsToSkip =>
    rw [List.length_eq_zero_iff.mp hcount]
    nofun
  | case2 => cases h
  | case3 => cases h
  | case4 => cases h
  | case5 pat str charsToSkip blocksLeft hleft skipped hfound hskip ofs hmismatch hskip' =>
    rename_i ih
    exact ih h hpat hcount hblocks
  | case6 pat str charsToSkip blocksLeft hleft skipped hfound hskip ofs hmatch =>
    rename_i ih
    obtain _ | ⟨_ | ⟨c, b⟩, blocks⟩ := blocks
    · nofun
    · exact absurd rfl (hblocks [] List.mem_cons_self).2
    · obtain ⟨hstar, -⟩ := hblocks (c :: b) List.mem_cons_self
      have hpat' : pat = c :: (b ++ kMatchAny :: (stored blocks ++ rest)) := by
        rw [hpat, stored_cons]
        simp
      -- the rest of the block fits where `MatchBlock` compared it
      have hat : (b ++ kMatchAny :: (stored blocks ++ rest))[matchBlock (b ++ kMatchAny :: (stored blocks ++ rest))
          (actual.drop (str + skipped + 1))]? = some kMatchAny := by
        have hmatch := not_not.mp hmatch
        simp only [ofs, hpat', List.drop_succ_cons, List.drop_zero, Nat.add_comm 1, List.getElem?_cons_succ] at hmatch
        exact hmatch
      have hfits := fits_of_matchBlock (List.not_mem_of_not_mem_cons hstar) hat
      have hdrop : pat.drop (ofs + 1) = stored blocks ++ rest := by
        simp only [ofs, hpat', List.drop_succ_cons, List.drop_zero, Nat.add_comm 1, hfits.1]
        simp
      have hhead : actual.drop (str + skipped) = c :: actual.drop (str + skipped + 1) := by
        rw [hpat'] at hfound
        have hdrop := drop_of_memchr hfound
        rw [List.drop_drop, List.drop_drop] at hdrop
        exact hdrop
      intro x hx
      obtain rfl | hx := List.mem_cons.mp hx
      · refine ⟨str + skipped, ?_⟩
        rw [hhead]
        exact ⟨Or.inl rfl, hfits.2⟩
      · refine ih h hdrop ?_ (fun y hy => hblocks y (List.mem_cons_of_mem _ hy)) x hx
        rw [← hcount]
        rfl

theorem fits_of_isMatch
    (hw : Stored w blocks last [kMatchAny]) (hsimple : w.isSimple = false) (h : w.isMatch actual = true) :
    ∀ b ∈ blocks ++ [last], ∃ k, Fits b (actual.drop k) := by
  have hdrop : w.storage.drop w.lastBlockOffset = last ++ kMatchAny :: [] := by
    rw [hw.storage, hw.lastBlockOffset, List.append_assoc, List.drop_left]
  unfold isMatch at h
  rw [if_neg (by rw [hsimple]; exact nofun)] at h
  simp only [hdrop] at h
  split_ifs at h with hskip hlast hone hfirst
  · have hfits := (fits_of_matchBlock hw.lastNoStar (not_not.mp hlast)).2
    have hnil : blocks = [] := by
      have hnumBlocks := hw.numBlocks
      exact List.length_eq_zero_iff.mp (by omega)
    intro b hb
    rw [hnil] at hb
    rw [List.mem_singleton.mp hb]
    exact ⟨_, hfits⟩
  · have hfits := (fits_of_matchBlock hw.lastNoStar (not_not.mp hlast)).2
    obtain _ | ⟨b, blocks⟩ := blocks
    · exact absurd hw.numBlocks hone
    · have hstorage : w.storage = b ++ kMatchAny :: (stored blocks ++ (last ++ [kMatchAny])) := by
        rw [hw.storage, stored_cons]
        simp
      simp only [hstorage] at h hfirst
      obtain ⟨hofs, hfitsFirst⟩ := fits_of_matchBlock (hw.noStar b List.mem_cons_self) (not_not.mp hfirst)
      have hrest : (b ++ kMatchAny :: (stored blocks ++ (last ++ [kMatchAny]))).drop (b.length + 1) =
          stored blocks ++ (last ++ [kMatchAny]) := by
        simp
      rw [hofs, hrest] at h
      have hcount : blocks.length = w.numBlocks - 2 := by
        rw [hw.numBlocks]
        rfl
      have hmiddle := fits_of_matchBlocks h rfl hcount fun x hx =>
        ⟨hw.noStar x (List.mem_cons_of_mem _ hx), hw.nonempty x hx⟩
      intro x hx
      obtain hx | hx := List.mem_append.mp hx
      · obtain rfl | hx := List.mem_cons.mp hx
        · exact ⟨0, hfitsFirst⟩
        · exact hmiddle x hx
      · rw [List.mem_singleton.mp hx]
        exact ⟨_, hfits⟩

theorem infix_of_infix_cons {α : Type*} {a : α} {l b rest : List α} (ha : a ∉ l) (h : l <:+: b ++ a :: rest) :
    l <:+: b ∨ l <:+: rest := by
  obtain ⟨s, t, h⟩ := h
  obtain ⟨c, hb, -⟩ | ⟨c, hs, hc⟩ := List.append_eq_append_iff.mp h
  · exact Or.inl ⟨s, c, hb.symm⟩
  · obtain _ | ⟨x, c⟩ := c
    · exact Or.inl ⟨s, [], by rw [List.append_nil, hs, List.append_nil]⟩
    · obtain ⟨rfl, hrest⟩ := List.cons.inj hc
      obtain ⟨d, hb, hl⟩ | ⟨d, hs', hd⟩ := List.append_eq_append_iff.mp hs
      · exact absurd (by rw [hl]; simp) ha
      · obtain _ | ⟨y, d⟩ := d
        · exact absurd (by rw [← List.nil_append l, ← hd]; simp) ha
        · obtain ⟨rfl, hc⟩ := List.cons.inj hd
          exact Or.inr ⟨d, t, by rw [hrest, hc]; rfl⟩

theorem infix_of_infix_stored (ha : kMatchAny ∉ literal)
    (h : literal <:+: stored blocks ++ last) : ∃ b ∈ blocks ++ [last], literal <:+: b := by
  induction blocks with
  | nil => exact ⟨last, List.mem_singleton_self _, h⟩
  | cons b blocks ih =>
    rw [stored_cons, List.append_assoc, List.cons_append] at h
    obtain h | h := infix_of_infix_cons ha h
    · exact ⟨b, List.mem_cons_self, h⟩
    · obtain ⟨x, hx, hpart⟩ := ih h
      exact ⟨x, List.mem_cons_of_mem _ hx, hpart⟩

theorem literal_infix_of_isMatch {wildcardSpec : GoogleString}
    (hpart : literal <:+: (initFromSpec wildcardSpec).spec) (hany : kMatchAny ∉ literal) (hone : kMatchOne ∉ literal)
    (h : (initFromSpec wildcardSpec).isMatch actual = true) : literal <:+: actual := by
  cases hsimple : (initFromSpec wildcardSpec).isSimple with
  | true =>
    unfold isMatch at h
    rw [if_pos hsimple] at h
    rw [beq_iff_eq.mp h]
    exact hpart
  | false =>
    obtain ⟨blocks, last, hw⟩ := initFromSpec_stored wildcardSpec
    have hspec : (initFromSpec wildcardSpec).spec = stored blocks ++ last := by
      unfold spec
      rw [hw.storage, List.length_append, List.length_singleton, Nat.add_sub_cancel, List.take_left]
    rw [hspec] at hpart
    obtain ⟨b, hb, hpart⟩ := infix_of_infix_stored hany hpart
    obtain ⟨k, hfits⟩ := fits_of_isMatch hw hsimple h b hb
    exact (infix_of_fits hone hpart hfits).trans (List.drop_suffix _ _).isInfix

end Wildcard

end PageSpeed
