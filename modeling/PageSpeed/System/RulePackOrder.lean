import PageSpeed.System.RulePackTrust
import PageSpeed.WebBotAuth.Base64
import Mathlib.Data.List.Pairwise

/-!
The order in which the packs of a file are kept. A call may store the pack that
it took long ago.
-/

namespace PageSpeed.RulePack

def LoadedBefore (history : List Event) (canonical : GoogleString) (p q : PackPtr) : Prop :=
  [Event.loaded canonical q, .loaded canonical p].Sublist history

/-- No slot of `accepted_` goes back to a pack that was loaded before the one it has. -/
def NeverBack (w w' : World) : Prop :=
  ∀ slot l l' p p', w.store.accepted slot = some l → w'.store.accepted slot = some l' → l.pack = some p →
    l'.pack = some p' → ¬ LoadedBefore w'.history slot.1 p' p

def InOrder (w : World) : Action → Prop
  | .proceed t =>
    match w.pc t with
    | .accepting s verdict _ =>
      s.mayUse verdict = true → ∀ q, Event.stored s.slot q ∈ w.history → ¬ LoadedBefore w.history s.canonical s.pack q
    | _ => True
  | _ => True

variable {lib : StoreLibraries} {engineVersion : GoogleString} {history : List Event} {w w' w'' : World} {t n : ℕ}
  {canonical : GoogleString} {p q : PackPtr} {e : Event} {slot : GoogleString × GoogleString}

structure Numbered (history : List Event) (n : ℕ) : Prop where
  below : ∀ canonical p, Event.loaded canonical p ∈ history → p.serial < n
  ordered : history.Pairwise fun e e' => ∀ c c' p p', e = .loaded c p → e' = .loaded c' p' → p'.serial < p.serial

theorem Numbered.note (h : Numbered history n) (he : ∀ c p, e ≠ .loaded c p) : Numbered (e :: history) n := by
  refine ⟨fun canonical p hmem => ?_, List.pairwise_cons.mpr ⟨fun e' _ c c' p p' heq => absurd heq (he c p), h.ordered⟩⟩
  obtain heq | hmem := List.mem_cons.mp hmem
  · exact absurd heq.symm (he canonical p)
  · exact h.below canonical p hmem

theorem Numbered.load (h : Numbered history n) (hp : p.serial = n) :
    Numbered (.loaded canonical p :: history) (n + 1) := by
  refine ⟨fun canonical' p' hmem => ?_, List.pairwise_cons.mpr ⟨fun e he c c' p' q heq heq' => ?_, h.ordered⟩⟩
  · obtain heq | hmem := List.mem_cons.mp hmem
    · cases heq
      omega
    · exact Nat.lt_succ_of_lt (h.below canonical' p' hmem)
  · cases heq
    subst heq'
    rw [hp]
    exact h.below c' q he

theorem Numbered.lt (h : Numbered history n) (hbefore : LoadedBefore history canonical p q) : p.serial < q.serial :=
  List.pairwise_iff_forall_sublist.mp h.ordered hbefore canonical canonical q p rfl rfl

theorem Numbered.before (h : Numbered history n) (hp : Event.loaded canonical p ∈ history)
    (hq : Event.loaded canonical q ∈ history) (hlt : p.serial < q.serial) : LoadedBefore history canonical p q := by
  obtain ⟨later, earlier, rfl⟩ := List.append_of_mem hq
  have hsplit := List.pairwise_append.mp h.ordered
  obtain hmem | hmem := List.mem_append.mp hp
  · -- a load that is later in the run has a greater number
    have hgt := hsplit.2.2 _ hmem _ List.mem_cons_self canonical canonical p q rfl rfl
    omega
  · obtain heq | hmem := List.mem_cons.mp hmem
    · cases heq
      exact absurd hlt (Nat.lt_irrefl _)
    · exact (List.Sublist.cons_cons _ (List.singleton_sublist.mpr hmem)).trans (List.sublist_append_right _ _)

structure Quiet (w w' : World) : Prop where
  accepted : w'.store.accepted = w.store.accepted
  stored : ∀ slot p, Event.stored slot p ∈ w'.history → Event.stored slot p ∈ w.history
  kept : w.history ⊆ w'.history
  numbered : Numbered w.history w.serials → Numbered w'.history w'.serials

theorem quiet_of_eq (haccepted : w'.store.accepted = w.store.accepted) (hhistory : w'.history = w.history)
    (hserials : w'.serials = w.serials) : Quiet w w' := by
  refine ⟨haccepted, fun slot p hmem => hhistory ▸ hmem, fun e he => hhistory.symm ▸ he, fun h => ?_⟩
  rw [hhistory, hserials]
  exact h

theorem Quiet.refl (w : World) : Quiet w w := quiet_of_eq rfl rfl rfl

theorem Quiet.trans (h : Quiet w w') (h' : Quiet w' w'') : Quiet w w'' :=
  ⟨h'.accepted.trans h.accepted, fun slot p hmem => h.stored slot p (h'.stored slot p hmem),
    fun _ hmem => h'.kept (h.kept hmem), fun hn => h'.numbered (h.numbered hn)⟩

theorem quiet_note (w : World) (hload : ∀ c p, e ≠ .loaded c p) (hstore : ∀ slot p, e ≠ .stored slot p) :
    Quiet w (w.note e) := by
  refine ⟨rfl, fun slot p hmem => ?_, List.subset_cons_self _ _, fun h => h.note hload⟩
  obtain heq | hmem := List.mem_cons.mp hmem
  · exact absurd heq.symm (hstore slot p)
  · exact hmem

theorem quiet_load (w : World) (hp : p.serial = w.serials) :
    Quiet w { w.note (.loaded canonical p) with serials := w.serials + 1 } := by
  refine ⟨rfl, fun slot q hmem => ?_, List.subset_cons_self _ _, fun h => h.load hp⟩
  obtain heq | hmem := List.mem_cons.mp hmem
  · exact absurd heq nofun
  · exact hmem

theorem quiet_setEntry (w : World) (canonical : GoogleString) (entry : Entry) : Quiet w (w.setEntry canonical entry) :=
  quiet_of_eq rfl rfl rfl

theorem quiet_serve (w : World) (t : ℕ) (canonical : GoogleString) (trust : PackTrust) (event : LoadEvent)
    (entry : Entry) : Quiet w (w.serve t canonical trust event entry) := by
  unfold World.serve
  split
  · exact (quiet_note (e := .returned t trust entry.loaded event .kNone) w nofun nofun).trans
      (quiet_of_eq rfl rfl rfl)
  · exact quiet_of_eq rfl rfl rfl

theorem quiet_enter (w : World) (t : ℕ) (canonical : GoogleString) (trust : PackTrust) (nowMs : ℤ) :
    Quiet w (w.enter t canonical trust nowMs) := by
  unfold World.enter
  dsimp only
  split
  · exact quiet_of_eq rfl rfl rfl
  · exact quiet_serve w t canonical trust .kNone _

theorem quiet_noteLoad (w : World) {event : LoadEvent} {entry : Entry}
    (h : event = .kLoaded → ∀ p, entry.loaded.pack = some p → p.serial = w.serials) :
    Quiet w (w.noteLoad canonical event entry) := by
  unfold World.noteLoad
  split
  · rename_i p hpack
    exact quiet_load w (h rfl p hpack)
  · exact Quiet.refl w

theorem quiet_refreshed (w : World) (t : ℕ) (canonical : GoogleString) (trust : PackTrust) (nowMs : ℤ) (work : Entry)
    (pack : PackLook) (look : SidecarLook) :
    Quiet w (w.refreshed lib engineVersion t canonical trust nowMs work pack look) := by
  have hcases := work.refresh_cases lib engineVersion canonical w.serials pack look
  have hlooked : Quiet w (w.note (.looked canonical look)) :=
    quiet_note (e := .looked canonical look) w nofun nofun
  unfold World.refreshed
  generalize work.refresh lib engineVersion canonical w.serials pack look = res at hcases ⊢
  obtain ⟨work', event⟩ := res
  dsimp only at hcases ⊢
  refine hlooked.trans (((quiet_noteLoad _ ?_).trans (quiet_setEntry _ canonical _)).trans
    (quiet_serve _ t canonical trust event _))
  rintro rfl p hp
  obtain ⟨hevent, -⟩ | ⟨-, q, hparsed⟩ := hcases
  · exact absurd rfl hevent
  · obtain rfl : q = p := Option.some.inj (hparsed.pack.symm.trans hp)
    exact hparsed.serial

theorem quiet_lookUp (w : World) (t : ℕ) (s : Snapshot) : Quiet w (w.lookUp t s) := by
  unfold World.lookUp
  split
  · exact quiet_of_eq rfl rfl rfl
  · exact quiet_of_eq rfl rfl rfl

theorem quiet_check (w : World) (t : ℕ) (s : Snapshot) : Quiet w (w.check lib t s) := by
  unfold World.check
  split
  · exact quiet_of_eq rfl rfl rfl
  · rename_i bytes _
    generalize checkPackSignature lib.toSignatureLibraries bytes s.pack.pack.publisher s.sidecar s.trust = verdict
    refine (quiet_note (e := .checked bytes s.pack.pack.publisher s.sidecar s.trust verdict.1) w nofun nofun).trans ?_
    exact quiet_of_eq rfl rfl rfl

theorem quiet_answer (w : World) (t : ℕ) (s : Snapshot) (verdict : Verdict) (first : Bool) (l : LoadedRulePack) :
    Quiet w (w.answer t s verdict first l) := by
  refine (quiet_note (e := .returned t s.trust l s.event (s.signatureEvent first verdict.status)) w nofun nofun).trans ?_
  exact quiet_of_eq rfl rfl rfl

theorem step_cases {a : Action} (h : w.step lib engineVersion a = some w') :
    Quiet w w' ∨ ∃ t s verdict first, a = .proceed t ∧ w.pc t = .accepting s verdict first ∧
      s.mayUse verdict = true ∧ Quiet (w.storeSlot s (s.named verdict)) w' := by
  cases a with
  | get t path trust nowMs =>
    cases hpc : w.pc t <;> simp only [World.step, hpc] at h <;> cases h
    unfold World.get
    dsimp only
    split
    · exact .inl (quiet_of_eq rfl rfl rfl)
    · exact .inl (quiet_of_eq rfl rfl rfl)
  | resolved t canonical =>
    cases hpc : w.pc t <;> simp only [World.step, hpc] at h <;> cases h
    exact .inl (quiet_of_eq rfl rfl rfl)
  | refreshed t pack sidecar =>
    cases hpc : w.pc t <;> simp only [World.step, hpc] at h <;> cases h
    exact .inl (quiet_refreshed w t _ _ _ _ pack sidecar)
  | proceed t =>
    cases hpc : w.pc t with
    | entering canonical trust nowMs =>
      simp only [World.step, hpc] at h
      cases h
      exact .inl (quiet_enter w t canonical trust nowMs)
    | lookingUp s =>
      simp only [World.step, hpc] at h
      cases h
      exact .inl (quiet_lookUp w t s)
    | checking s =>
      simp only [World.step, hpc] at h
      cases h
      exact .inl (quiet_check w t s)
    | reporting s verdict =>
      simp only [World.step, hpc] at h
      cases h
      exact .inl (quiet_of_eq rfl rfl rfl)
    | accepting s verdict first =>
      simp only [World.step, hpc] at h
      cases h
      unfold World.accept
      split
      · rename_i huse
        exact .inr ⟨t, s, verdict, first, rfl, hpc, huse, quiet_answer _ t s verdict first _⟩
      · exact .inl (quiet_answer w t s verdict first _)
    | idle => simp [World.step, hpc] at h
    | resolving path trust nowMs => simp [World.step, hpc] at h
    | refreshing canonical trust nowMs work => simp [World.step, hpc] at h

structure Ordered (w : World) : Prop where
  numbered : Numbered w.history w.serials
  loaded : ∀ slot p, Event.stored slot p ∈ w.history → Event.loaded slot.1 p ∈ w.history
  latest : ∀ slot p, Event.stored slot p ∈ w.history → ∃ l q, w.store.accepted slot = some l ∧ l.pack = some q ∧
    p.serial ≤ q.serial
  held : ∀ slot l, w.store.accepted slot = some l → ∃ p, l.pack = some p ∧ Event.stored slot p ∈ w.history

theorem Ordered.quiet (h : Ordered w) (hq : Quiet w w') : Ordered w' := by
  refine ⟨hq.numbered h.numbered, fun slot p hp => hq.kept (h.loaded slot p (hq.stored slot p hp)), ?_, ?_⟩
  · intro slot p hp
    rw [hq.accepted]
    exact h.latest slot p (hq.stored slot p hp)
  · intro slot l hl
    rw [hq.accepted] at hl
    obtain ⟨p, hp, hstored⟩ := h.held slot l hl
    exact ⟨p, hp, hq.kept hstored⟩

theorem Ordered.neverBack (h : Ordered w) (hq : Quiet w w') : NeverBack w w' := by
  intro slot l l' p p' hl hl' hp hp' hbefore
  rw [hq.accepted, hl] at hl'
  cases hl'
  obtain rfl := Option.some.inj (hp.symm.trans hp')
  exact Nat.lt_irrefl _ ((h.quiet hq).numbered.lt hbefore)

section Store

variable {s : Snapshot} {l : LoadedRulePack}

theorem accepted_storeSlot_of_ne (hne : slot ≠ s.slot) :
    (w.storeSlot s l).store.accepted slot = w.store.accepted slot :=
  Function.update_of_ne hne _ _

theorem accepted_storeSlot (hl : l.pack = some s.pack) :
    ∃ kept r, (w.storeSlot s l).store.accepted s.slot = some kept ∧ kept.pack = some r ∧ r.serial = s.pack.serial ∧
      (r = s.pack ∨ w.store.accepted s.slot = some kept) := by
  have hself : (w.storeSlot s l).store.accepted s.slot =
      some (if ((w.store.accepted s.slot).getD {}).pack.map PackPtr.serial ≠ some s.pack.serial ∨
        ((w.store.accepted s.slot).getD {}).keyId ≠ l.keyId then l else (w.store.accepted s.slot).getD {}) :=
    Function.update_self s.slot _ w.store.accepted
  split at hself
  · exact ⟨l, s.pack, hself, hl, rfl, .inl rfl⟩
  · rename_i hsame
    push Not at hsame
    cases hslot : w.store.accepted s.slot with
    | none =>
      rw [hslot] at hsame
      exact absurd hsame.1 nofun
    | some kept =>
      rw [hslot] at hsame hself
      obtain ⟨r, hr, hserial⟩ := Option.map_eq_some_iff.mp hsame.1
      exact ⟨kept, r, hself, hr, hserial, .inr rfl⟩

theorem Ordered.storeSlot (h : Ordered w) (hl : l.pack = some s.pack)
    (hload : Event.loaded s.canonical s.pack ∈ w.history)
    (hlatest : ∀ q, Event.stored s.slot q ∈ w.history → q.serial ≤ s.pack.serial) : Ordered (w.storeSlot s l) := by
  obtain ⟨kept, r, hkept, hr, hserial, horigin⟩ := accepted_storeSlot (w := w) hl
  refine ⟨h.numbered.note nofun, fun slot p hp => ?_, fun slot p hp => ?_, fun slot l' hl' => ?_⟩
  · obtain heq | hp := List.mem_cons.mp hp
    · cases heq
      exact List.mem_cons_of_mem _ hload
    · exact List.mem_cons_of_mem _ (h.loaded slot p hp)
  · by_cases hslot : slot = s.slot
    · subst hslot
      refine ⟨kept, r, hkept, hr, hserial ▸ ?_⟩
      obtain heq | hp := List.mem_cons.mp hp
      · cases heq
        exact Nat.le_refl _
      · exact hlatest p hp
    · rw [accepted_storeSlot_of_ne hslot]
      obtain heq | hp := List.mem_cons.mp hp
      · cases heq
        exact absurd rfl hslot
      · exact h.latest slot p hp
  · by_cases hslot : slot = s.slot
    · subst hslot
      obtain rfl := Option.some.inj (hkept.symm.trans hl')
      obtain rfl | hsame := horigin
      · exact ⟨s.pack, hr, List.mem_cons_self⟩
      · obtain ⟨p, hp, hstored⟩ := h.held s.slot kept hsame
        exact ⟨p, hp, List.mem_cons_of_mem _ hstored⟩
    · rw [accepted_storeSlot_of_ne hslot] at hl'
      obtain ⟨p, hp, hstored⟩ := h.held slot l' hl'
      exact ⟨p, hp, List.mem_cons_of_mem _ hstored⟩

theorem neverBack_storeSlot (h : Ordered w) (hl : l.pack = some s.pack)
    (hlatest : ∀ q, Event.stored s.slot q ∈ w.history → q.serial ≤ s.pack.serial) (hq : Quiet (w.storeSlot s l) w') :
    NeverBack w w' := by
  intro slot l₁ l₂ p p' hl₁ hl₂ hp hp' hbefore
  have hlt := (hq.numbered (h.numbered.note nofun)).lt hbefore
  rw [hq.accepted] at hl₂
  obtain ⟨p₁, hp₁, hstored⟩ := h.held slot l₁ hl₁
  obtain rfl := Option.some.inj (hp.symm.trans hp₁)
  by_cases hslot : slot = s.slot
  · subst hslot
    obtain ⟨kept, r, hkept, hr, hserial, -⟩ := accepted_storeSlot (w := w) hl
    obtain rfl := Option.some.inj (hkept.symm.trans hl₂)
    obtain rfl := Option.some.inj (hr.symm.trans hp')
    have hle := hlatest p hstored
    omega
  · rw [accepted_storeSlot_of_ne hslot, hl₁] at hl₂
    cases hl₂
    obtain rfl := Option.some.inj (hp.symm.trans hp')
    exact Nat.lt_irrefl _ hlt

theorem not_neverBack_storeSlot (h : Ordered w) (hl : l.pack = some s.pack)
    (hload : Event.loaded s.canonical s.pack ∈ w.history) (hstored : Event.stored s.slot q ∈ w.history)
    (hlt : s.pack.serial < q.serial) (hq : Quiet (w.storeSlot s l) w') : ¬ NeverBack w w' := by
  intro hnever
  obtain ⟨l₁, p, hl₁, hp, hle⟩ := h.latest s.slot q hstored
  obtain ⟨p₁, hp₁, hstored₁⟩ := h.held s.slot l₁ hl₁
  obtain rfl := Option.some.inj (hp.symm.trans hp₁)
  obtain ⟨kept, r, hkept, hr, hserial, horigin⟩ := accepted_storeSlot (w := w) hl
  have hsub : w.history ⊆ w'.history := fun e he => hq.kept (List.mem_cons_of_mem _ he)
  obtain rfl : r = s.pack := by
    obtain hsame | hslot := horigin
    · exact hsame
    · obtain rfl := Option.some.inj (hl₁.symm.trans hslot)
      obtain rfl := Option.some.inj (hp.symm.trans hr)
      omega
  refine hnever s.slot l₁ kept p s.pack hl₁ (hq.accepted ▸ hkept) hp hr ?_
  exact (hq.numbered (h.numbered.note nofun)).before (hsub hload) (hsub (h.loaded s.slot p hstored₁)) (by omega)

end Store

theorem ordered_start : Ordered World.start :=
  ⟨⟨fun _ _ hmem => absurd hmem List.not_mem_nil, List.Pairwise.nil⟩, fun _ _ hmem => absurd hmem List.not_mem_nil,
    fun _ _ hmem => absurd hmem List.not_mem_nil, fun _ _ hl => absurd hl nofun⟩

theorem load_of_accepting {s : Snapshot} {verdict : Verdict} {first : Bool} (h : Inv lib w)
    (hpc : w.pc t = .accepting s verdict first) : Event.loaded s.canonical s.pack ∈ w.history := by
  have hthread := h.threads t
  rw [hpc] at hthread
  exact (hthread.1.pack s.pack s.holds).1

theorem ordered_step {a : Action} (hinv : Inv lib w) (h : Ordered w) (hG : InOrder w a)
    (hstep : w.step lib engineVersion a = some w') : Ordered w' ∧ NeverBack w w' := by
  obtain hq | ⟨t, s, verdict, first, rfl, hpc, huse, hq⟩ := step_cases hstep
  · exact ⟨h.quiet hq, h.neverBack hq⟩
  · have hload := load_of_accepting hinv hpc
    have hlatest : ∀ q, Event.stored s.slot q ∈ w.history → q.serial ≤ s.pack.serial := by
      intro q hstored
      by_contra hlt
      simp only [InOrder, hpc] at hG
      exact hG huse q hstored (h.numbered.before hload (h.loaded s.slot q hstored) (Nat.lt_of_not_le hlt))
    have hpack := s.named_pack verdict
    exact ⟨(h.storeSlot hpack hload hlatest).quiet hq, neverBack_storeSlot h hpack hlatest hq⟩

theorem back_of_not_inOrder {a : Action} (hinv : Inv lib w) (h : Ordered w) (hG : ¬ InOrder w a) :
    ∃ w', w.step lib engineVersion a = some w' ∧ ¬ NeverBack w w' := by
  unfold InOrder at hG
  split at hG
  · rename_i t
    split at hG
    · rename_i s verdict first hpc
      push Not at hG
      obtain ⟨huse, q, hstored, hbefore⟩ := hG
      refine ⟨w.accept t s verdict first, by simp only [World.step, hpc], ?_⟩
      rw [World.accept, if_pos huse]
      exact not_neverBack_storeSlot h (s.named_pack verdict) (load_of_accepting hinv hpc) hstored
        (h.numbered.lt hbefore) (quiet_answer _ t s verdict first _)
    · exact absurd trivial hG
  · exact absurd trivial hG

/-- In every run only trusted packs are returned, and no slot goes back just if the calls come in order. -/
theorem trusted_and_forward_iff_inOrder (lib : StoreLibraries) (engineVersion : GoogleString) (as : List Action) :
    (∀ w, Machine.run (World.step lib engineVersion) World.start as = some w → CollisionFree lib w.history →
      Trusted lib w.history) ∧
    (Machine.Steps (World.step lib engineVersion) NeverBack World.start as ↔
      Machine.Meets (World.step lib engineVersion) InOrder World.start as) := by
  constructor
  · intro w hrun hfree
    exact (inv_run hrun).trusted hfree
  · have hkeep : ∀ w a w', InOrder w a → (Inv lib w ∧ Ordered w) → w.step lib engineVersion a = some w' →
        (Inv lib w' ∧ Ordered w') ∧ NeverBack w w' := by
      rintro w a w' hG ⟨hinv, hordered⟩ hstep
      obtain ⟨hordered', hnever⟩ := ordered_step hinv hordered hG hstep
      exact ⟨⟨hinv.step hstep, hordered'⟩, hnever⟩
    have hbreak : ∀ w a, (Inv lib w ∧ Ordered w) → ¬ InOrder w a →
        ∃ w', w.step lib engineVersion a = some w' ∧ ¬ NeverBack w w' := by
      rintro w a ⟨hinv, hordered⟩ hG
      exact back_of_not_inOrder hinv hordered hG
    exact Machine.steps_iff_meets hkeep hbreak ⟨inv_start, ordered_start⟩ as

section Sample

def bytesOf (base64 : String) : GoogleString := (WebBotAuth.base64Decode (ascii base64)).getD []

def publicKey : GoogleString := bytesOf "I6+Et5mXQWNTsq5IQZgyZNn0Hla9/g6FW18IJYXfe3A="

def publisher : GoogleString := ascii "example-publisher"

def packText (version template : String) : GoogleString :=
  ascii "\x7b\"pack\":\x7b\"id\":\"edge-seo\",\"publisher\":\"example-publisher\",\"version\":\"" ++ ascii version ++
    ascii "\"\x7d,\"sites\":[\x7b\"host\":\"t.test\",\"mode\":\"enforce\"\x7d],\"rules\":[\x7b\"id\":\"t\"," ++
    ascii "\"kind\":\"title\",\"enforce\":true,\"value\":\x7b\"template\":\"" ++ ascii template ++
    ascii "\"\x7d\x7d]\x7d"

def firstPack : GoogleString := packText "0.1.0" "A"

def secondPack : GoogleString := packText "0.2.0" "B"

def firstSignature : String :=
  "ZWxFQwvDeFbtJQHOUtNHfn46VLbD0qt9gTx7YQnU2gFGtFT7jBKhJhCZZkKn6aSSxNOCCHN0LVBH9MTq6xm8CA=="

def secondSignature : String :=
  "BH0rPoennlutUW57oAUI0YdCAjJzx8htBOdBsXlZZFdqfYRwSwEBtY5Bx3rNnD/kl9M9XN7TEZSNnJrEhjIRBw=="

def sidecarText (signature : String) : GoogleString :=
  ascii "ed25519 example-publisher " ++ ascii signature ++ [10]

def sampleDigest (text : GoogleString) : GoogleString :=
  if text = firstPack then bytesOf "nbCaRGeDL3I3a7xUTa+QxSelZeTNgirzxX65RG033hw="
  else if text = secondPack then bytesOf "6b/X0CwJC6xDctIhfWlG5M6XHodwo8T10VvbwdaeyE0="
  else if text = sidecarText firstSignature then bytesOf "kMWrn2Y47ywiL31CyEaAxIHmkwhIiv24zCzE6OINH/8="
  else bytesOf "/CIMz1na6sI7C9n3V1ApaemQZvAkayNYA/G6FBYprRk="

theorem length_sampleDigest (text : GoogleString) : (sampleDigest text).length = 32 := by
  unfold sampleDigest
  split_ifs <;> decide +kernel

def sampleLibraries : StoreLibraries where
  base64Unescape := WebBotAuth.base64Decode
  ed25519Verify message signature key := decide (key = publicKey ∧
    (message = firstPack ∧ signature = bytesOf firstSignature ∨
      message = secondPack ∧ signature = bytesOf secondSignature))
  sha256 text := ⟨sampleDigest text, length_sampleDigest text⟩
  loadPack contents _ _ :=
    if contents = firstPack ∨ contents = secondPack then .ok ⟨publisher⟩ else .error (ascii "malformed JSON")

def sampleTrust : PackTrust where
  requireSigned := true
  keys := [⟨publisher, publicKey, by decide +kernel, by decide +kernel⟩]
  sorted := List.pairwise_singleton _ _

def samplePath : GoogleString := ascii "/p/pack.json"

def sampleSlot : GoogleString × GoogleString := (samplePath, sampleTrust.fingerprint)

def sampleRun (as : List Action) : Option World := Machine.run (World.step sampleLibraries []) World.start as

def load (t : ℕ) (nowMs : ℤ) (text : GoogleString) (signature : String) : List Action :=
  [.get t samplePath sampleTrust nowMs, .resolved t (some samplePath), .proceed t,
    .refreshed t ⟨.ok (text.length, nowMs), .read text⟩
      ⟨true, true, some (sidecarText signature).length, some nowMs, .read (sidecarText signature)⟩]

def check (t : ℕ) : List Action := [.proceed t, .proceed t, .proceed t]

def firstPtr : PackPtr := ⟨0, ⟨publisher⟩, firstPack⟩

def secondPtr : PackPtr := ⟨1, ⟨publisher⟩, secondPack⟩

def slotPack (w : World) : Option PackPtr := (w.store.accepted sampleSlot).bind LoadedRulePack.pack

def loads (w : World) : List Event := w.history.filter fun e => e matches .loaded _ _

set_option maxRecDepth 4000 in
theorem signed_call : (sampleRun (load 0 0 firstPack firstSignature ++ check 0 ++ [.proceed 0])).map
    (fun w => (loads w, w.history.head?)) = some ([.loaded samplePath firstPtr], some (.returned 0 sampleTrust
      ⟨some firstPtr, sha256Hex sampleLibraries firstPack, publisher⟩ .kLoaded .kVerified)) := by
  simp only [sampleRun, sampleLibraries, sampleDigest, sampleTrust, samplePath, load, check, firstPtr, firstPack,
    secondPack, packText, firstSignature, secondSignature, sidecarText, bytesOf, publisher, publicKey,
    ascii_eq_textBytes]
  decide +kernel

/-- A signed pack is returned, and it is a trusted one. -/
theorem signed_pack_trusted : ∃ w,
    sampleRun (load 0 0 firstPack firstSignature ++ check 0 ++ [.proceed 0]) = some w ∧
    w.history.head? = some (.returned 0 sampleTrust
      ⟨some firstPtr, sha256Hex sampleLibraries firstPack, publisher⟩ .kLoaded .kVerified) ∧
    Trusted sampleLibraries w.history := by
  obtain ⟨w, hw, heq⟩ := Option.map_eq_some_iff.mp signed_call
  obtain ⟨hloads, hhead⟩ := Prod.mk.inj heq
  have honly : ∀ canonical p, Event.loaded canonical p ∈ w.history → p = firstPtr := by
    intro canonical p hmem
    have hload : Event.loaded canonical p ∈ loads w := List.mem_filter.mpr ⟨hmem, rfl⟩
    rw [hloads] at hload
    exact (Event.loaded.inj (List.mem_singleton.mp hload)).2
  refine ⟨w, hw, hhead, (trusted_and_forward_iff_inOrder sampleLibraries [] _).1 w hw ?_⟩
  intro canonical canonical' p p' hp hp' _
  rw [honly canonical p hp, honly canonical' p' hp']

set_option maxRecDepth 4000 in
theorem overtaken_call : ((sampleRun (load 0 0 firstPack firstSignature ++
    load 1 10000 secondPack secondSignature ++ check 1 ++ [.proceed 1] ++ check 0)).bind fun w =>
      (w.step sampleLibraries [] (.proceed 0)).map fun w' => ([slotPack w, slotPack w'], loads w')) =
        some ([some secondPtr, some firstPtr], [.loaded samplePath secondPtr, .loaded samplePath firstPtr]) := by
  simp only [sampleRun, sampleLibraries, sampleDigest, sampleTrust, sampleSlot, samplePath, slotPack, load, check,
    firstPtr, secondPtr, firstPack, secondPack, packText, firstSignature, secondSignature, sidecarText, bytesOf,
    publisher, publicKey, ascii_eq_textBytes]
  decide +kernel

theorem slot_goes_back : ¬ ∀ as, Machine.Steps (World.step sampleLibraries []) NeverBack World.start as := by
  intro h
  obtain ⟨w, hw, hrest⟩ := Option.bind_eq_some_iff.mp overtaken_call
  obtain ⟨w', hw', heq⟩ := Option.map_eq_some_iff.mp hrest
  obtain ⟨hslots, hloads⟩ := Prod.mk.inj heq
  obtain ⟨hbefore, hafter⟩ := List.cons.inj hslots
  obtain ⟨l, hl, hp⟩ := Option.bind_eq_some_iff.mp hbefore
  obtain ⟨l', hl', hp'⟩ := Option.bind_eq_some_iff.mp (List.cons.inj hafter).1
  have hnever := (Machine.steps_append (h (_ ++ [.proceed 0])) w hw w' hw').1
  refine hnever sampleSlot l l' secondPtr firstPtr hl hl' hp hp' ?_
  have hsub : (loads w').Sublist w'.history := List.filter_sublist
  rw [hloads] at hsub
  exact hsub

end Sample

end PageSpeed.RulePack
