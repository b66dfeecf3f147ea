import PageSpeed.Base.WildcardGroupAnswers
import PageSpeed.Base.WildcardExact
import PageSpeed.Lib.Unambiguous
import PageSpeed.Lib.Machine

/-!
`FastWildcardGroup::Signature`, and that it tells groups apart whose patterns have no commas.
-/

namespace PageSpeed.FastWildcardGroup

open Machine

def signature (g : FastWildcardGroup) : GoogleString :=
  g.patterns.flatMap fun p => p.1.spec ++ ascii (if p.2 then "A" else "D") ++ ascii ","

def apply (g : FastWildcardGroup) (call : Call) : Option FastWildcardGroup :=
  match call with
  | .allow expr => some (g.allow expr)
  | .disallow expr => some (g.disallow expr)
  | .appendFrom src => some (g.appendFrom (ofPatterns src))
  | .copyFrom src => some (g.copyFrom (ofPatterns src))
  | .isMatch str allow => (g.isMatch str allow).map Prod.snd

def Bounded (g : FastWildcardGroup) (call : Call) : Prop := call.Small ∧ g.patterns.length + call.added ≤ 2 ^ 29

def SmallSpecs (patterns : List (Wildcard × Bool)) : Prop :=
  ∀ p ∈ patterns, ∃ expr : GoogleString, expr.length < 2 ^ 31 ∧ p.1 = Wildcard.initFromSpec expr

structure Built (g : FastWildcardGroup) : Prop where
  coherent : Coherent g
  count : g.patterns.length ≤ 2 ^ 29
  small : SmallSpecs g.patterns

variable {g g' t : FastWildcardGroup} {call : Call} {str : GoogleString}

theorem wildcardsOf_small {src : List (GoogleString × Bool)} (hsmall : ∀ p ∈ src, p.1.length < 2 ^ 31) :
    SmallSpecs (wildcardsOf src) := by
  intro p hp
  obtain ⟨q, hq, rfl⟩ := List.mem_map.mp hp
  exact ⟨q.1, hsmall q hq, rfl⟩

theorem Built.grow {src : List (GoogleString × Bool)} (h : Built g)
    (ht : Coherent t ∧ t.patterns = g.patterns ++ wildcardsOf src) (hsmall : ∀ p ∈ src, p.1.length < 2 ^ 31)
    (hroom : g.patterns.length + src.length ≤ 2 ^ 29) : Built t := by
  obtain ⟨ht, heq⟩ := ht
  refine ⟨ht, ?_, ?_⟩ <;> rw [heq]
  · rw [List.length_append, wildcardsOf, List.length_map]
    exact hroom
  · intro p hp
    exact (List.mem_append.mp hp).elim (h.small p) (wildcardsOf_small hsmall p)

theorem empty_built : Built empty := ⟨empty_coherent, Nat.zero_le _, fun _ hp => absurd hp List.not_mem_nil⟩

theorem Built.apply (hb : Bounded g call) (h : Built g) (hstep : g.apply call = some t) : Built t := by
  obtain ⟨hsmall, hroom⟩ := hb
  cases call with
  | allow expr | disallow expr =>
    obtain rfl := Option.some.inj hstep
    apply h.grow (h.coherent.add expr _) _ hroom
    intro p hp
    rw [List.mem_singleton.mp hp]
    exact hsmall
  | appendFrom src =>
    obtain rfl := Option.some.inj hstep
    exact h.grow (h.coherent.appendFrom src) hsmall hroom
  | copyFrom src =>
    obtain rfl := Option.some.inj hstep
    rw [copyFrom, h.coherent.clear]
    exact empty_built.grow (empty_coherent.appendFrom src) hsmall
      ((Nat.zero_add _).le.trans ((Nat.le_add_left _ _).trans hroom))
  | isMatch str allow =>
    obtain ⟨u, heq, hsame, hu⟩ := h.coherent.isMatch h.count hsmall allow
    change (g.isMatch str allow).map Prod.snd = some t at hstep
    rw [heq] at hstep
    obtain rfl := Option.some.inj hstep
    exact ⟨hu, hsame ▸ h.count, hsame ▸ h.small⟩

/-- What the signature says of a pattern. -/
def signed (p : GoogleString × Bool) : GoogleString := p.1 ++ ascii (if p.2 then "A" else "D") ++ ascii ","

theorem signature_eq (g : FastWildcardGroup) :
    g.signature = (g.patterns.map fun p => (p.1.spec, p.2)).flatMap signed := by
  rw [List.flatMap_map]
  rfl

theorem signed_reads : Reads (fun l : List (GoogleString × Bool) => l.flatMap signed)
    (fun l => ∀ p ∈ l, (44 : UInt8) ∉ p.1 ++ ascii (if p.2 then "A" else "D")) (· = []) := by
  have hpattern : Reads signed (fun p => (44 : UInt8) ∉ p.1 ++ ascii (if p.2 then "A" else "D")) fun _ => True := by
    apply (Reads.until_letter (44 : UInt8)).comap (e := fun p : GoogleString × Bool => p.1 ++ ascii (if p.2 then "A" else "D"))
    rintro ⟨spec, allow⟩ ⟨spec', allow'⟩ heq
    cases allow <;> cases allow' <;> simp [ascii] at heq <;> rw [heq]
  apply hpattern.many
  · rintro p s _ - rfl heq
    simp [signed, ascii] at heq
  · exact fun _ _ => trivial
  · exact fun _ _ _ => trivial

theorem scanPatterns_eq (patterns : List (Wildcard × Bool)) (str : GoogleString) (allow : Bool) :
    scanPatterns patterns str allow =
      (((patterns.map fun p => (p.1.isMatch str, p.2)).reverse.find? Prod.fst).map Prod.snd).getD allow := by
  rw [← List.map_reverse, List.find?_map]
  unfold scanPatterns
  change _ = (((patterns.reverse.find? fun p => p.1.isMatch str).map _).map _).getD allow
  cases patterns.reverse.find? fun p => p.1.isMatch str <;> rfl

open Classical in
theorem SmallSpecs.map_isMatch {patterns : List (Wildcard × Bool)} (h : SmallSpecs patterns) (hstr : str.length < 2 ^ 31) :
    patterns.map (fun p => (p.1.isMatch str, p.2)) =
      (patterns.map fun p => (p.1.spec, p.2)).map fun q => (decide (Wildcard.InLanguage q.1 str), q.2) := by
  rw [List.map_map]
  refine List.map_congr_left fun p hp => ?_
  obtain ⟨expr, hexpr, heq⟩ := h p hp
  obtain ⟨-, hmatch, hlanguage⟩ := Wildcard.isMatch_exact expr str hexpr hstr
  rw [hlanguage, ← heq] at hmatch
  exact Prod.ext (by simp [← hmatch]) rfl

/-- Two groups without commas that have the same signature give the same answers. -/
theorem signature_separates (calls calls' : List Call) (hbounded : Meets apply Bounded empty calls)
    (hbounded' : Meets apply Bounded empty calls') (hrun : run apply empty calls = some g)
    (hrun' : run apply empty calls' = some g') (hcommas : ∀ p ∈ g.patterns ++ g'.patterns, 44 ∉ p.1.spec)
    (hsame : g.signature = g'.signature) (hstr : str.length < 2 ^ 31) (allow : Bool) :
    (g.isMatch str allow).map Prod.fst = (g'.isMatch str allow).map Prod.fst := by
  have hbuilt := run_invariant (fun _ _ _ => Built.apply) empty_built hbounded hrun
  have hbuilt' := run_invariant (fun _ _ _ => Built.apply) empty_built hbounded' hrun'
  have hlisted : ∀ patterns : List (Wildcard × Bool), (∀ p ∈ patterns, 44 ∉ p.1.spec) →
      ∀ q ∈ patterns.map fun p => (p.1.spec, p.2), (44 : UInt8) ∉ q.1 ++ ascii (if q.2 then "A" else "D") := by
    intro patterns hfree q hq
    obtain ⟨p, hp, rfl⟩ := List.mem_map.mp hq
    have hletter : (44 : UInt8) ∉ ascii (if p.2 then "A" else "D") := by cases p.2 <;> decide
    exact List.not_mem_append (hfree p hp) hletter
  rw [signature_eq, signature_eq] at hsame
  obtain ⟨hpatterns, -⟩ := signed_reads _ _ [] [] (hlisted _ fun p hp => hcommas p (List.mem_append_left _ hp))
    (hlisted _ fun p hp => hcommas p (List.mem_append_right _ hp)) rfl rfl (by simpa using hsame)
  have hscan : scanPatterns g.patterns str allow = scanPatterns g'.patterns str allow := by
    rw [scanPatterns_eq, scanPatterns_eq, hbuilt.small.map_isMatch hstr, hbuilt'.small.map_isMatch hstr, hpatterns]
  obtain ⟨_, heq, -⟩ := hbuilt.coherent.isMatch hbuilt.count hstr allow
  obtain ⟨_, heq', -⟩ := hbuilt'.coherent.isMatch hbuilt'.count hstr allow
  rw [heq, heq', hscan]
  rfl

theorem signature_separates_stars :
    ((empty.allow (ascii "a*")).isMatch (ascii "ab") false).map Prod.fst =
      ((empty.allow (ascii "a**")).isMatch (ascii "ab") false).map Prod.fst := by
  apply signature_separates [.allow (ascii "a*")] [.allow (ascii "a**")] _ _ rfl rfl
  · decide
  · rfl
  · decide
  · exact ⟨⟨by change 2 < 2 ^ 31; decide, by decide⟩, fun _ _ => trivial⟩
  · exact ⟨⟨by change 3 < 2 ^ 31; decide, by decide⟩, fun _ _ => trivial⟩

example : (empty.allow (ascii "aA,b")).signature = ((empty.allow (ascii "a")).allow (ascii "b")).signature ∧
    ((empty.allow (ascii "aA,b")).isMatch (ascii "b") false).map Prod.fst = some false ∧
    (((empty.allow (ascii "a")).allow (ascii "b")).isMatch (ascii "b") false).map Prod.fst = some true := by
  decide

end PageSpeed.FastWildcardGroup
