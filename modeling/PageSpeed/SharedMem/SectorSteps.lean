import PageSpeed.SharedMem.SectorWrites

/-!
What one step of a client can do to a sector that is in order.
-/

namespace PageSpeed.SharedMem

def Pc.writing : Pc → Option ℕ
  | .putWait _ e _ _ | .putCopy _ e _ _ _ | .deleteWait _ e => some e
  | _ => none

inductive Pc.Starts (h : RawHash) : Pc → Prop
  | put (timestampMs : ℤ) (value : GoogleString) : Starts h (.put h timestampMs value)
  | delete : Starts h (.delete h)

inductive Pc.Waits (h : RawHash) (e : ℕ) : Pc → Prop
  | put (timestampMs : ℤ) (value : GoogleString) : Waits h e (.putWait h e timestampMs value)
  | delete : Waits h e (.deleteWait h e)

namespace Sector

open Links

variable {g : Config} {s s' : Sector} {own : ℕ → List ℕ} {h : RawHash} {e : ℕ}

theorem keys_lt (he : e ∈ (g.extractPosition h).keys) : e < g.entriesPerSector := by
  have hpos := g.entriesPerSector_pos
  simp only [Config.extractPosition, List.mem_cons, List.not_mem_nil, or_false] at he
  obtain rfl | rfl | rfl | rfl := he <;> exact Nat.mod_lt _ hpos

theorem find_some (hf : (g.extractPosition h).keys.find? (fun e => keyMatch (s.directory e) h) = some e) :
    e ∈ (g.extractPosition h).keys ∧ (s.directory e).hashBytes = h := by
  have hmatch := List.find?_some hf
  exact ⟨List.mem_of_find?_eq_some hf, beq_iff_eq.mp hmatch⟩

theorem find_none (hf : (g.extractPosition h).keys.find? (fun e => keyMatch (s.directory e) h) = none)
    (he : e ∈ (g.extractPosition h).keys) : (s.directory e).hashBytes ≠ h := by
  intro heq
  exact List.find?_eq_none.mp hf e he (beq_iff_eq.mpr heq)

theorem bestKey_spec {keys : List ℕ} (hb : s.bestKey keys = some e) :
    e ∈ keys ∧ (s.directory e).writeable = true := by
  -- The best slot so far is one of those looked at.
  rw [bestKey] at hb
  revert hb
  refine List.foldlRecOn (motive := fun best => best = some e → e ∈ keys ∧ (s.directory e).writeable = true)
    keys _ (fun he => by cases he) fun best hbest x hx he => ?_
  split_ifs at he with hw
  · cases best with
    | none =>
      cases he
      exact ⟨hx, hw⟩
    | some b =>
      dsimp only at he
      split_ifs at he with hlt
      · cases he
        exact ⟨hx, hw⟩
      · exact hbest he
  · exact hbest he

structure Placed (g : Config) (s : Sector) : Prop where
  home : ∀ e, e < g.entriesPerSector → (s.directory e).hashBytes ≠ nilHash →
    e ∈ (g.extractPosition (s.directory e).hashBytes).keys
  unique : ∀ e e', e < g.entriesPerSector → e' < g.entriesPerSector →
    (s.directory e).hashBytes = (s.directory e').hashBytes → (s.directory e).hashBytes ≠ nilHash → e = e'

def Absent (g : Config) (s : Sector) (h : RawHash) : Prop :=
  ∀ e, e < g.entriesPerSector → (s.directory e).hashBytes = h → h = nilHash

theorem Placed.absent (hp : Placed g s)
    (hf : (g.extractPosition h).keys.find? (fun e => keyMatch (s.directory e) h) = none) : Absent g s h := by
  intro e he heq
  by_contra hnil
  subst heq
  exact find_none hf (hp.home e he hnil) rfl

theorem Placed.write (hp : Placed g s)
    (hrest : ∀ e', e' ≠ e → (s'.directory e').hashBytes = (s.directory e').hashBytes ∨
      (s'.directory e').hashBytes = nilHash)
    (hself : (s'.directory e).hashBytes = nilHash ∨ (s'.directory e).hashBytes = h ∧
      e ∈ (g.extractPosition h).keys ∧ ((s.directory e).hashBytes = h ∨ Absent g s h)) : Placed g s' := by
  have hother : ∀ e', e' ≠ e → (s'.directory e').hashBytes ≠ nilHash →
      (s'.directory e').hashBytes = (s.directory e').hashBytes :=
    fun e' hee hnil => (hrest e' hee).resolve_right hnil
  -- Another slot for the same key would have been there before.
  have hclash : ∀ e', e' ≠ e → e < g.entriesPerSector → e' < g.entriesPerSector →
      (s'.directory e').hashBytes = (s'.directory e).hashBytes → (s'.directory e).hashBytes = nilHash := by
    intro e' hee he he' heq
    by_contra hnil
    obtain hs | ⟨hh, -, hkey⟩ := hself
    · exact hnil hs
    · rw [hh] at heq hnil
      have hold := hother e' hee (heq ▸ hnil)
      rw [heq] at hold
      obtain hsame | habs := hkey
      · exact hee (hp.unique e' e he' he (hold.symm.trans hsame.symm) (hold ▸ hnil))
      · exact hnil (habs e' he' hold.symm)
  refine ⟨fun e' he' hnil => ?_, fun e₁ e₂ h₁ h₂ heq hnil => ?_⟩
  · by_cases hee : e' = e
    · subst hee
      obtain hs | ⟨hh, hmem, -⟩ := hself
      · exact absurd hs hnil
      · rw [hh]
        exact hmem
    · have hold := hother e' hee hnil
      rw [hold] at hnil ⊢
      exact hp.home e' he' hnil
  · by_cases hee₁ : e₁ = e
    · by_contra hne
      subst hee₁
      exact hnil (hclash e₂ (Ne.symm hne) h₁ h₂ heq.symm)
    · by_cases hee₂ : e₂ = e
      · subst hee₂
        rw [heq] at hnil
        exact absurd (hclash e₁ hee₁ h₂ h₁ heq) hnil
      · have hnil₂ : (s'.directory e₂).hashBytes ≠ nilHash := heq ▸ hnil
        rw [hother e₁ hee₁ hnil, hother e₂ hee₂ hnil₂] at heq
        rw [hother e₁ hee₁ hnil] at hnil
        exact hp.unique e₁ e₂ h₁ h₂ heq hnil

theorem Placed.congr (hp : Placed g s) (hsame : ∀ e, (s'.directory e).hashBytes = (s.directory e).hashBytes) :
    Placed g s' := by
  refine ⟨fun e he hnil => ?_, fun e e' he he' heq hnil => ?_⟩
  · rw [hsame e] at hnil ⊢
    exact hp.home e he hnil
  · rw [hsame e] at heq hnil
    rw [hsame e'] at heq
    exact hp.unique e e' he he' heq hnil

def Lists (g : Config) (s : Sector) (own : ℕ → List ℕ) : Prop :=
  ∃ free l, Ledger g s none free [] own ∧ Listed g s none l

theorem Lists.setEntry {x : CacheEntry} (hl : Lists g s own) (hsize : x.byteSize = (s.directory e).byteSize)
    (hfirst : x.firstBlock = (s.directory e).firstBlock) (hnext : x.lruNext = (s.directory e).lruNext)
    (hprev : x.lruPrev = (s.directory e).lruPrev) : Lists g (s.setEntry e x) own := by
  obtain ⟨free, l, hledger, hlisted⟩ := hl
  have hentry : ∀ e', ((s.setEntry e x).directory e').firstBlock = (s.directory e').firstBlock ∧
      ((s.setEntry e x).directory e').byteSize = (s.directory e').byteSize := by
    intro e'
    by_cases hee : e' = e
    · subst hee
      rw [setEntry_self]
      exact ⟨hfirst, hsize⟩
    · rw [setEntry_of_ne s hee]
      exact ⟨rfl, rfl⟩
  refine ⟨free, l, hledger.congr rfl rfl rfl fun e' _ => hentry e', ?_, hlisted.bound, ?_⟩
  · exact hlisted.lru.congr (congrFun (setEntry_next_same hnext)) (congrFun (setEntry_prev_same hprev))
  · intro e' he' hx hpos
    rw [(hentry e').2] at hpos
    exact hlisted.sized e' he' hx hpos

theorem Lists.touch (hl : Lists g s own) (timestampMs : ℤ) (he : e < g.entriesPerSector) :
    Lists g (s.touchEntry timestampMs e) own ∧ Relinked s (s.touchEntry timestampMs e) ∧
      (s.touchEntry timestampMs e).checkFailed = s.checkFailed := by
  obtain ⟨free, l, hledger, hlisted⟩ := hl
  obtain ⟨hrel, hchk, hlru⟩ := touch_spec hlisted.lru timestampMs e
  refine ⟨⟨free, e :: l.erase e, hledger.relinked hrel, hlru, ?_, ?_⟩, hrel, hchk⟩
  · intro e' he'
    obtain rfl | he' := List.mem_cons.mp he'
    · exact he
    · exact hlisted.bound e' (List.mem_of_mem_erase he')
  · intro e' he' hx hpos
    rw [(hrel.same e').byteSize] at hpos
    by_cases hee : e' = e
    · exact hee ▸ List.mem_cons_self
    · exact List.mem_cons_of_mem e ((List.mem_erase_of_ne hee).mpr (hlisted.sized e' he' hx hpos))

theorem Lists.blockList (hl : Lists g s own) (he : e < g.entriesPerSector) : s.blockListForEntry g e = own e := by
  obtain ⟨free, l, hledger, -⟩ := hl
  exact hledger.blockList he nofun

inductive Effect (g : Config) (s s' : Sector) (own own' : ℕ → List ℕ) : Pc → Pc → Prop
  | miss {h : RawHash} (hrel : Relinked s s') (hown : own' = own) : Effect g s s' own own' (.get h) (.got h none)
  | refuse {pc : Pc} {h : RawHash} (hpc : pc.Starts h) (hrel : Relinked s s') (hown : own' = own)
      (hwhy : (∃ timestampMs value, pc = .put h timestampMs value ∧ g.maxValueSize < value.length) ∨
        (∃ e, e < g.entriesPerSector ∧ (s.directory e).hashBytes = h ∧ (s.directory e).creating = true) ∨
        Absent g s h) : Effect g s s' own own' pc (.done h)
  | spin {pc pc' : Pc} {h : RawHash} {e : ℕ} (hpc : pc.Waits h e) (hpc' : pc' = pc ∨ pc' = .done h)
      (hrel : Relinked s s') (hown : own' = own) : Effect g s s' own own' pc pc'
  | mark {pc pc' : Pc} {h : RawHash} {e : ℕ} (hpc : pc.Starts h) (hpc' : pc'.Waits h e ∨ pc' = .done h)
      (he : e ∈ (g.extractPosition h).keys) (hhash : (s.directory e).hashBytes = h)
      (hidle : (s.directory e).creating = false) (hopen : (s.directory e).openCount ≠ 0#32)
      (hrel : Relinked (s.beginWrite e) s') (hown : own' = own) : Effect g s s' own own' pc pc'
  | fill {pc : Pc} {h : RawHash} {e : ℕ} {timestampMs : ℤ} {value : GoogleString}
      (hpc : pc = .put h timestampMs value ∧ (s.directory e).creating = false ∨ pc = .putWait h e timestampMs value)
      (he : e ∈ (g.extractPosition h).keys) (hopen : (s.directory e).openCount = 0#32)
      (hkey : (s.directory e).hashBytes = h ∨ Absent g s h) (hspares : Spares s s' e own own')
      (hhash : (s'.directory e).hashBytes = h) (hsize : (s'.directory e).byteSize = value.length)
      (hcreating : (s'.directory e).creating = true) (hopen' : (s'.directory e).openCount = 0#32) :
      Effect g s s' own own' pc (.putCopy h e value (own' e) 0)
  | clear {pc : Pc} {h : RawHash} {e : ℕ} (hpc : pc.Starts h ∧ (s.directory e).creating = false ∨ pc.Waits h e)
      (he : e ∈ (g.extractPosition h).keys) (hopen : (s.directory e).openCount = 0#32)
      (hkey : (s.directory e).hashBytes = h ∨ Absent g s h) (hspares : Spares s s' e own own')
      (hcleared : Cleared (s.directory e) (s'.directory e)) : Effect g s s' own own' pc (.done h)
  | copyIn {h : RawHash} {e : ℕ} {value : GoogleString} {blocks : List ℕ} {b block : ℕ}
      (hb : blocks[b]? = some block) (hown : own' = own)
      (hs' : s' = { s with
        blockBytes := Function.update s.blockBytes block (memcpy (s.blockBytes block)
          ((value.drop (b * g.blockSize)).take
            (g.bytesInPortion (s.directory e).byteSize b blocks.length))) }) :
      Effect g s s' own own' (.putCopy h e value blocks b) (.putCopy h e value blocks (b + 1))
  | publish {h : RawHash} {e : ℕ} {value : GoogleString} {blocks : List ℕ} {b : ℕ} (hb : blocks[b]? = none)
      (hown : own' = own) (hs' : s' = s.setEntry e ((s.directory e).setCreating false)) :
      Effect g s s' own own' (.putCopy h e value blocks b) (.stored h value)
  | enter {h : RawHash} {e : ℕ} (he : e ∈ (g.extractPosition h).keys) (hhash : (s.directory e).hashBytes = h)
      (hidle : (s.directory e).creating = false)
      (hrel : Relinked (s.setEntry e (s.directory e).incrementOpenCount) s') (hown : own' = own) :
      Effect g s s' own own' (.get h) (.getExtend h e (own e))
  | extend {h : RawHash} {e : ℕ} {blocks : List ℕ} (hs' : s' = s) (hown : own' = own) :
      Effect g s s' own own' (.getExtend h e blocks)
        (.getCopy h e blocks (List.replicate (s.directory e).byteSize 0) 0 0)
  | copyOut {h : RawHash} {e : ℕ} {blocks : List ℕ} {str : GoogleString} {pos b block : ℕ}
      (hb : blocks[b]? = some block) (hs' : s' = s) (hown : own' = own) :
      Effect g s s' own own' (.getCopy h e blocks str pos b)
        (.getCopy h e blocks
          (writeAt str pos ((s.blockBytes block).take (g.bytesInPortion (s.directory e).byteSize b blocks.length)))
          (pos + g.bytesInPortion (s.directory e).byteSize b blocks.length) (b + 1))
  | leave {h : RawHash} {e : ℕ} {blocks : List ℕ} {str : GoogleString} {pos b : ℕ} (hb : blocks[b]? = none)
      (hrel : Relinked (s.setEntry e (s.directory e).decrementOpenCount) s') (hown : own' = own) :
      Effect g s s' own own' (.getCopy h e blocks str pos b) (.got h (some str))

structure Sound (g : Config) (s : Sector) (own : ℕ → List ℕ) : Prop where
  lists : Lists g s own
  placed : Placed g s

def Ready (g : Config) (s : Sector) (pc : Pc) : Prop :=
  ∀ e, pc.writing = some e → e ∈ (g.extractPosition pc.hash).keys ∧ (s.directory e).hashBytes = pc.hash ∧
    (s.directory e).creating = true

structure Steps (g : Config) (s s' : Sector) (own : ℕ → List ℕ) (pc pc' : Pc) (own' : ℕ → List ℕ) : Prop where
  sound : Sound g s' own'
  disabled : s'.disabled = s.disabled
  checkFailed : s'.checkFailed = s.checkFailed
  effect : Effect g s s' own own' pc pc'

structure Prepared (s s₁ : Sector) (e : ℕ) : Prop where
  rest : ∀ e', e' ≠ e → s₁.directory e' = s.directory e'
  blockBytes : s₁.blockBytes = s.blockBytes
  disabled : s₁.disabled = s.disabled
  checkFailed : s₁.checkFailed = s.checkFailed

theorem Spares.of_prepared {s₁ : Sector} {own' : ℕ → List ℕ} (hp : Prepared s s₁ e)
    (hs : Spares s₁ s' e own own') : Spares s s' e own own' := by
  refine ⟨fun e' hee => ?_, hs.blockBytes.trans hp.blockBytes, hs.disabled.trans hp.disabled,
    hs.checkFailed.trans hp.checkFailed⟩
  rw [← hp.rest e' hee]
  exact hs.yields e' hee

theorem Spares.hashes {own' : ℕ → List ℕ} (hs : Spares s s' e own own') {e' : ℕ} (hee : e' ≠ e) :
    (s'.directory e').hashBytes = (s.directory e').hashBytes ∨ (s'.directory e').hashBytes = nilHash := by
  obtain ⟨hsame, -⟩ | ⟨-, hem, -⟩ := hs.yields e' hee
  · exact Or.inl hsame.hashBytes
  · exact Or.inr hem.hashBytes

variable {pc : Pc} {s₁ : Sector} {timestampMs : ℤ} {value : GoogleString}

theorem putAndCopy_steps (hlists : Lists g s₁ own) (hplaced : Placed g s) (hprep : Prepared s s₁ e)
    (he : e ∈ (g.extractPosition h).keys) (hcreating : (s₁.directory e).creating = true)
    (hopen : (s₁.directory e).openCount = 0#32) (hhash : (s₁.directory e).hashBytes = h)
    (hopen₀ : (s.directory e).openCount = 0#32) (hdis : s.disabled = false)
    (hpc : pc = .put h timestampMs value ∧ (s.directory e).creating = false ∨ pc = .putWait h e timestampMs value)
    (hkey : (s.directory e).hashBytes = h ∨ Absent g s h) :
    ∃ own', Steps g s (s₁.putAndCopy g h e timestampMs value).1 own pc
      (s₁.putAndCopy g h e timestampMs value).2 own' := by
  obtain ⟨free, l, hledger, hlisted⟩ := hlists
  obtain ⟨free', own', l', hledger', hlisted', hspares, hcases⟩ := putIntoEntry_spec hledger hlisted (keys_lt he)
    hcreating hopen (hprep.disabled.trans hdis) timestampMs value
  have hspares := Spares.of_prepared hprep hspares
  have hpc' : pc.Starts h ∧ (s.directory e).creating = false ∨ pc.Waits h e := by
    obtain ⟨rfl, hidle⟩ | rfl := hpc
    · exact Or.inl ⟨.put _ _, hidle⟩
    · exact Or.inr (.put _ _)
  unfold putAndCopy
  obtain ⟨hblocks, hwritten⟩ | ⟨hblocks, hcleared⟩ := hcases
  · simp only [hblocks]
    have hhash' := hwritten.hashBytes.trans hhash
    refine ⟨own', ⟨⟨_, _, hledger', hlisted'⟩, ?_⟩, hspares.disabled, hspares.checkFailed, ?_⟩
    · exact hplaced.write (fun e' hee => hspares.hashes hee) (Or.inr ⟨hhash', he, hkey⟩)
    · refine .fill hpc he hopen₀ hkey hspares hhash' hwritten.byteSize ?_ ?_
      · unfold CacheEntry.creating
        rw [hwritten.flags]
        exact hcreating
      · unfold CacheEntry.openCount
        rw [hwritten.flags]
        exact hopen
  · simp only [hblocks]
    refine ⟨own', ⟨⟨_, _, hledger', hlisted'⟩, ?_⟩, hspares.disabled, hspares.checkFailed, ?_⟩
    · exact hplaced.write (h := h) (fun e' hee => hspares.hashes hee) (Or.inl hcleared.hashBytes)
    · refine .clear hpc' he hopen₀ hkey hspares ⟨hcleared.hashBytes, hcleared.byteSize, hcleared.creating, ?_⟩
      exact hcleared.openCount.trans (hopen.trans hopen₀.symm)

theorem deleteReady_steps (hlists : Lists g s₁ own) (hplaced : Placed g s) (hprep : Prepared s s₁ e)
    (he : e ∈ (g.extractPosition h).keys) (hopen : (s₁.directory e).openCount = 0#32)
    (hopen₀ : (s.directory e).openCount = 0#32) (hdis : s.disabled = false)
    (hpc : pc.Starts h ∧ (s.directory e).creating = false ∨ pc.Waits h e)
    (hkey : (s.directory e).hashBytes = h ∨ Absent g s h) :
    ∃ own', Steps g s (s₁.deleteReady g e) own pc (.done h) own' := by
  obtain ⟨free, l, hledger, hlisted⟩ := hlists
  obtain ⟨free', own', l', hledger', hlisted', hspares, hcleared⟩ :=
    deleteReady_spec hledger hlisted (keys_lt he) hopen (hprep.disabled.trans hdis)
  have hspares := Spares.of_prepared hprep hspares
  refine ⟨own', ⟨⟨_, _, hledger', hlisted'⟩, ?_⟩, hspares.disabled, hspares.checkFailed, ?_⟩
  · exact hplaced.write (h := h) (fun e' hee => hspares.hashes hee) (Or.inl hcleared.hashBytes)
  · refine .clear hpc he hopen₀ hkey hspares ⟨hcleared.hashBytes, hcleared.byteSize, hcleared.creating, ?_⟩
    exact hcleared.openCount.trans (hopen.trans hopen₀.symm)

def recount (s : Sector) (st : SectorStats) : Sector := { s with stats := st }

theorem Relinked.recount {st : SectorStats} (hst : st.usedBlocks = s.stats.usedBlocks) :
    Relinked s (s.recount st) := ⟨fun _ => .refl _, rfl, rfl, hst, rfl, rfl⟩

theorem Lists.recount {st : SectorStats} (hl : Lists g s own) (hst : st.usedBlocks = s.stats.usedBlocks) :
    Lists g (s.recount st) own := by
  obtain ⟨free, l, hledger, hlisted⟩ := hl
  exact ⟨free, l, hledger.relinked (.recount hst), hlisted.lru, hlisted.bound, hlisted.sized⟩

theorem Lists.beginWrite (hl : Lists g s own) : Lists g (s.beginWrite e) own := hl.setEntry rfl rfl rfl rfl

theorem openCount_of_mustWait (hw : s.mustWait e = true) : (s.directory e).openCount ≠ 0#32 := by
  unfold mustWait at hw
  simp only [Bool.and_eq_true, bne_iff_ne] at hw
  exact hw.1

theorem openCount_of_not_mustWait (hdis : s.disabled = false) (hw : ¬ s.mustWait e = true) :
    (s.directory e).openCount = 0#32 := by
  unfold mustWait at hw
  rw [hdis] at hw
  simpa using hw

theorem writeable_iff {x : CacheEntry} : x.writeable = true ↔ x.openCount = 0#32 ∧ x.creating = false := by
  unfold CacheEntry.writeable
  simp

theorem beginWrite_self (s : Sector) (e : ℕ) : (s.beginWrite e).directory e = (s.directory e).setCreating true :=
  setEntry_self s e _

section Begin

variable (st : SectorStats)

theorem recount_steps (hs : Sound g s own) (hst : st.usedBlocks = s.stats.usedBlocks) {pc' : Pc}
    (heff : Effect g s (s.recount st) own own pc pc') : ∃ own', Steps g s (s.recount st) own pc pc' own' :=
  ⟨own, ⟨hs.lists.recount hst, hs.placed.congr fun _ => rfl⟩, rfl, rfl, heff⟩

theorem mark_steps (hs : Sound g s own) (hst : st.usedBlocks = s.stats.usedBlocks) {pc' : Pc}
    (hpc : pc.Starts h) (hpc' : pc'.Waits h e ∨ pc' = .done h) (he : e ∈ (g.extractPosition h).keys)
    (hhash : (s.directory e).hashBytes = h) (hidle : (s.directory e).creating = false)
    (hopen : (s.directory e).openCount ≠ 0#32) :
    ∃ own', Steps g s ((s.beginWrite e).recount st) own pc pc' own' := by
  have hst' : st.usedBlocks = (s.beginWrite e).stats.usedBlocks := hst
  refine ⟨own, ⟨hs.lists.beginWrite.recount hst', hs.placed.congr fun e' => ?_⟩, rfl, rfl, ?_⟩
  · change ((s.beginWrite e).directory e').hashBytes = _
    by_cases hee : e' = e
    · subst hee
      rw [beginWrite_self]
      rfl
    · rw [beginWrite, setEntry_of_ne s hee]
  · exact .mark hpc hpc' he hhash hidle hopen (.recount hst') rfl

theorem beginWrite_prepared (s : Sector) (e : ℕ) (st : SectorStats) :
    Prepared s ((s.beginWrite e).recount st) e := ⟨fun _ hee => setEntry_of_ne s hee _, rfl, rfl, rfl⟩

theorem putWhenReady_begin (hs : Sound g s own) (hdis : s.disabled = false) (hst : st.usedBlocks = s.stats.usedBlocks)
    (he : e ∈ (g.extractPosition h).keys) (hhash : (s.directory e).hashBytes = h)
    (hidle : (s.directory e).creating = false) (gaveUp : Bool) :
    ∃ own', Steps g s (((s.beginWrite e).recount st).putWhenReady g h e timestampMs value gaveUp).1 own
      (.put h timestampMs value)
      (((s.beginWrite e).recount st).putWhenReady g h e timestampMs value gaveUp).2 own' := by
  have hcount : (((s.beginWrite e).recount st).directory e).openCount = (s.directory e).openCount := by
    change ((s.beginWrite e).directory e).openCount = _
    rw [beginWrite_self, CacheEntry.openCount_setCreating]
  unfold putWhenReady
  by_cases hw : ((s.beginWrite e).recount st).mustWait e = true
  · have hopen := openCount_of_mustWait hw
    rw [hcount] at hopen
    rw [if_pos hw]
    cases gaveUp with
    | true => exact mark_steps st hs hst (.put timestampMs value) (Or.inr rfl) he hhash hidle hopen
    | false =>
      exact mark_steps (e := e) { st with numPutSpins := st.numPutSpins + 1 } hs hst (.put timestampMs value)
        (Or.inl (.put timestampMs value)) he hhash hidle hopen
  · have hopen := openCount_of_not_mustWait (s := (s.beginWrite e).recount st) hdis hw
    have hopen₀ := hcount.symm.trans hopen
    rw [if_neg hw]
    refine putAndCopy_steps (Lists.recount hs.lists.beginWrite hst) hs.placed (beginWrite_prepared s e st) he ?_ hopen
      ?_ hopen₀ hdis (Or.inl ⟨rfl, hidle⟩) (Or.inl hhash)
    · change ((s.beginWrite e).directory e).creating = true
      rw [beginWrite_self, CacheEntry.creating_setCreating]
    · change ((s.beginWrite e).directory e).hashBytes = h
      rw [beginWrite_self]
      exact hhash

theorem deleteWhenReady_begin (hs : Sound g s own) (hdis : s.disabled = false)
    (he : e ∈ (g.extractPosition h).keys) (hhash : (s.directory e).hashBytes = h)
    (hidle : (s.directory e).creating = false) (gaveUp : Bool) :
    ∃ own', Steps g s ((s.beginWrite e).deleteWhenReady g h e gaveUp).1 own (.delete h)
      ((s.beginWrite e).deleteWhenReady g h e gaveUp).2 own' := by
  have hcount : ((s.beginWrite e).directory e).openCount = (s.directory e).openCount := by
    rw [beginWrite_self, CacheEntry.openCount_setCreating]
  unfold deleteWhenReady
  by_cases hw : (s.beginWrite e).mustWait e = true
  · have hopen := openCount_of_mustWait hw
    rw [hcount] at hopen
    rw [if_pos hw]
    cases gaveUp with
    | true => exact mark_steps (e := e) s.stats hs rfl .delete (Or.inr rfl) he hhash hidle hopen
    | false =>
      exact mark_steps (e := e) { s.stats with numPutSpins := s.stats.numPutSpins + 1 } hs rfl .delete
        (Or.inl .delete) he hhash hidle hopen
  · have hopen := openCount_of_not_mustWait (s := s.beginWrite e) hdis hw
    have hopen₀ := hcount.symm.trans hopen
    rw [if_neg hw]
    exact deleteReady_steps hs.lists.beginWrite hs.placed (beginWrite_prepared s e s.stats) he hopen hopen₀ hdis
      (Or.inl ⟨.delete, hidle⟩) (Or.inl hhash)

end Begin

theorem replace_steps (st : SectorStats) (hs : Sound g s own) (hdis : s.disabled = false)
    (hst : st.usedBlocks = s.stats.usedBlocks) (he : e ∈ (g.extractPosition h).keys)
    (hopen : (s.directory e).openCount = 0#32) (hidle : (s.directory e).creating = false) (habsent : Absent g s h) :
    ∃ own', Steps g s ((((s.recount st).beginWrite e).setEntry e
        { ((s.recount st).beginWrite e).directory e with hashBytes := h }).putAndCopy g h e timestampMs value).1 own
      (.put h timestampMs value) ((((s.recount st).beginWrite e).setEntry e
        { ((s.recount st).beginWrite e).directory e with hashBytes := h }).putAndCopy g h e timestampMs value).2
        own' := by
  obtain ⟨s₁, hs₁⟩ : ∃ s₁, s₁ = ((s.recount st).beginWrite e).setEntry e
      { ((s.recount st).beginWrite e).directory e with hashBytes := h } := ⟨_, rfl⟩
  have hmark : ((s.recount st).beginWrite e).directory e = (s.directory e).setCreating true := beginWrite_self _ e
  have hself : s₁.directory e = { (s.directory e).setCreating true with hashBytes := h } := by
    rw [hs₁, setEntry_self, hmark]
  have hprep : Prepared s s₁ e := by
    rw [hs₁]
    exact ⟨fun e' hee => (setEntry_of_ne _ hee _).trans (setEntry_of_ne s hee _), rfl, rfl, rfl⟩
  have hlists : Lists g s₁ own := by
    rw [hs₁]
    exact (Lists.beginWrite (hs.lists.recount hst)).setEntry rfl rfl rfl rfl
  rw [← hs₁]
  refine putAndCopy_steps hlists hs.placed hprep he ?_ ?_ ?_ hopen hdis (Or.inl ⟨rfl, hidle⟩) (Or.inr habsent)
  · rw [hself]
    exact CacheEntry.creating_setCreating _ true
  · rw [hself]
    exact (CacheEntry.openCount_setCreating _ true).trans hopen
  · rw [hself]

theorem putRawHash_steps (hs : Sound g s own) (hdis : s.disabled = false) (gaveUp : Bool) :
    ∃ own', Steps g s (s.putRawHash g h timestampMs value gaveUp).1 own (.put h timestampMs value)
      (s.putRawHash g h timestampMs value gaveUp).2 own' := by
  obtain ⟨st, hst⟩ : ∃ st, st = { s.stats with numPut := s.stats.numPut + 1 } := ⟨_, rfl⟩
  have hused : st.usedBlocks = s.stats.usedBlocks := by rw [hst]
  unfold putRawHash
  by_cases hbig : g.maxValueSize < value.length
  · rw [if_pos hbig]
    exact recount_steps s.stats hs rfl (.refuse (.put _ _) (.refl s) rfl (Or.inl ⟨_, _, rfl, hbig⟩))
  rw [if_neg hbig, if_neg (by rw [hdis]; exact Bool.false_ne_true), ← hst]
  cases hf : (g.extractPosition h).keys.find? fun e => keyMatch (s.directory e) h with
  | some e =>
    obtain ⟨he, hhash⟩ := find_some hf
    simp only [hf]
    by_cases hcreating : (s.directory e).creating = true
    · rw [if_pos hcreating]
      exact recount_steps { st with numPutConcurrentCreate := st.numPutConcurrentCreate + 1 } hs hused
        (.refuse (.put _ _) (.recount hused) rfl (Or.inr (Or.inl ⟨e, keys_lt he, hhash, hcreating⟩)))
    · rw [if_neg hcreating]
      exact putWhenReady_begin { st with numPutUpdate := st.numPutUpdate + 1 } hs hdis hused he hhash
        (Bool.eq_false_iff.mpr hcreating) gaveUp
  | none =>
    have habsent := hs.placed.absent hf
    simp only [hf]
    cases hb : (s.recount st).bestKey (g.extractPosition h).keys with
    | none =>
      have hb' := hb
      unfold recount at hb'
      rw [hb']
      exact recount_steps { st with numPutConcurrentFullSet := st.numPutConcurrentFullSet + 1 } hs hused
        (.refuse (.put _ _) (.recount hused) rfl (Or.inr (Or.inr habsent)))
    | some e =>
      obtain ⟨he, hw⟩ := bestKey_spec hb
      obtain ⟨hopen, hidle⟩ := writeable_iff.mp hw
      have hb' := hb
      unfold recount at hb'
      simp only [hb']
      obtain ⟨st', hused', hst'⟩ : ∃ st', st'.usedBlocks = s.stats.usedBlocks ∧
          (if (s.directory e).byteSize ≠ 0 ∨ ¬ isAllNil (s.directory e).hashBytes = true then
            (s.recount { st with numPutReplace := st.numPutReplace + 1 }) else s.recount st) = s.recount st' := by
        split_ifs
        · exact ⟨{ st with numPutReplace := st.numPutReplace + 1 }, hused, rfl⟩
        · exact ⟨st, hused, rfl⟩
      unfold recount at hst'
      rw [hst']
      exact replace_steps st' hs hdis hused' he hopen hidle habsent

theorem get_steps (hs : Sound g s own) (hdis : s.disabled = false) (nowMs : ℤ) :
    ∃ own', Steps g s (s.get g h nowMs).1 own (.get h) (s.get g h nowMs).2 own' := by
  obtain ⟨st, hst⟩ : ∃ st, st = { s.stats with numGet := s.stats.numGet + 1 } := ⟨_, rfl⟩
  have hused : st.usedBlocks = s.stats.usedBlocks := by rw [hst]
  have hmiss : ∃ own', Steps g s (s.recount st) own (.get h) (.got h none) own' :=
    recount_steps st hs hused (.miss (.recount hused) rfl)
  unfold Sector.get
  rw [if_neg (by rw [hdis]; exact Bool.false_ne_true), ← hst]
  cases hf : (g.extractPosition h).keys.find? fun e => keyMatch (s.directory e) h with
  | none =>
    simp only [hf]
    exact hmiss
  | some e =>
    obtain ⟨he, hhash⟩ := find_some hf
    simp only [hf]
    by_cases hcreating : (s.directory e).creating = true
    · rw [if_pos hcreating]
      exact hmiss
    · rw [if_neg hcreating]
      obtain ⟨s₁, hs₁⟩ : ∃ s₁, s₁ = (s.recount st).setEntry e (s.directory e).incrementOpenCount := ⟨_, rfl⟩
      have hlists : Lists g s₁ own := by
        rw [hs₁]
        exact (hs.lists.recount hused).setEntry rfl rfl rfl rfl
      have hrel₁ : Relinked (s.setEntry e (s.directory e).incrementOpenCount) s₁ := by
        rw [hs₁]
        exact Relinked.recount (s := s.setEntry e (s.directory e).incrementOpenCount) hused
      have hrest : s₁.disabled = s.disabled ∧ s₁.checkFailed = s.checkFailed := by
        rw [hs₁]
        exact ⟨rfl, rfl⟩
      obtain ⟨htouched, hrel, hchk⟩ := hlists.touch nowMs (keys_lt he)
      change ∃ own', Steps g s (((s.recount st).setEntry e (s.directory e).incrementOpenCount).touchEntry nowMs e) own _
        (.getExtend h e ((((s.recount st).setEntry e (s.directory e).incrementOpenCount).touchEntry
          nowMs e).blockListForEntry g e)) own'
      rw [← hs₁, htouched.blockList (keys_lt he)]
      refine ⟨own, ⟨htouched, ?_⟩, hrel.disabled.trans hrest.1, hchk.trans hrest.2,
        .enter he hhash (Bool.eq_false_iff.mpr hcreating) (hrel₁.trans hrel) rfl⟩
      refine hs.placed.congr fun e' => ?_
      rw [((hrel₁.trans hrel).same e').hashBytes]
      by_cases hee : e' = e
      · subst hee
        rw [setEntry_self]
        rfl
      · rw [setEntry_of_ne s hee]

theorem delete_steps (hs : Sound g s own) (hdis : s.disabled = false) (gaveUp : Bool) :
    ∃ own', Steps g s (s.delete g h gaveUp).1 own (.delete h) (s.delete g h gaveUp).2 own' := by
  unfold Sector.delete
  rw [if_neg (by rw [hdis]; exact Bool.false_ne_true)]
  cases hf : (g.extractPosition h).keys.find? fun e => keyMatch (s.directory e) h with
  | none =>
    exact recount_steps s.stats hs rfl
      (.refuse .delete (.refl s) rfl (Or.inr (Or.inr (hs.placed.absent hf))))
  | some e =>
    obtain ⟨he, hhash⟩ := find_some hf
    simp only
    by_cases hcreating : (s.directory e).creating = true
    · rw [if_pos hcreating]
      exact recount_steps s.stats hs rfl
        (.refuse .delete (.refl s) rfl (Or.inr (Or.inl ⟨e, keys_lt he, hhash, hcreating⟩)))
    · rw [if_neg hcreating]
      exact deleteWhenReady_begin hs hdis he hhash (Bool.eq_false_iff.mpr hcreating) gaveUp

theorem putWait_steps (hs : Sound g s own) (hdis : s.disabled = false) (gaveUp : Bool)
    (hready : Ready g s (.putWait h e timestampMs value)) :
    ∃ own', Steps g s (s.putWhenReady g h e timestampMs value gaveUp).1 own (.putWait h e timestampMs value)
      (s.putWhenReady g h e timestampMs value gaveUp).2 own' := by
  obtain ⟨he, hhash, hcreating⟩ := hready e rfl
  unfold putWhenReady
  by_cases hw : s.mustWait e = true
  · rw [if_pos hw]
    cases gaveUp with
    | true => exact recount_steps s.stats hs rfl (.spin (.put _ _) (Or.inr rfl) (.refl s) rfl)
    | false =>
      exact recount_steps { s.stats with numPutSpins := s.stats.numPutSpins + 1 } hs rfl
        (.spin (.put timestampMs value) (Or.inl rfl) (.recount rfl) rfl)
  · have hopen := openCount_of_not_mustWait hdis hw
    rw [if_neg hw]
    exact putAndCopy_steps hs.lists hs.placed ⟨fun _ _ => rfl, rfl, rfl, rfl⟩ he hcreating hopen hhash hopen hdis
      (Or.inr rfl) (Or.inl hhash)

theorem deleteWait_steps (hs : Sound g s own) (hdis : s.disabled = false) (gaveUp : Bool)
    (hready : Ready g s (.deleteWait h e)) :
    ∃ own', Steps g s (s.deleteWhenReady g h e gaveUp).1 own (.deleteWait h e)
      (s.deleteWhenReady g h e gaveUp).2 own' := by
  obtain ⟨he, hhash, -⟩ := hready e rfl
  unfold deleteWhenReady
  by_cases hw : s.mustWait e = true
  · rw [if_pos hw]
    cases gaveUp with
    | true => exact recount_steps s.stats hs rfl (.spin .delete (Or.inr rfl) (.refl s) rfl)
    | false =>
      exact recount_steps { s.stats with numPutSpins := s.stats.numPutSpins + 1 } hs rfl
        (.spin .delete (Or.inl rfl) (.recount rfl) rfl)
  · have hopen := openCount_of_not_mustWait hdis hw
    rw [if_neg hw]
    exact deleteReady_steps hs.lists hs.placed ⟨fun _ _ => rfl, rfl, rfl, rfl⟩ he hopen hopen hdis (Or.inr .delete)
      (Or.inl hhash)

theorem setEntry_steps (x : CacheEntry) (st : SectorStats) {pc' : Pc} (hs : Sound g s own)
    (hx : x.hashBytes = (s.directory e).hashBytes ∧ x.byteSize = (s.directory e).byteSize ∧
      x.firstBlock = (s.directory e).firstBlock ∧ x.lruNext = (s.directory e).lruNext ∧
      x.lruPrev = (s.directory e).lruPrev) (hst : st.usedBlocks = s.stats.usedBlocks)
    (heff : Effect g s ((s.setEntry e x).recount st) own own pc pc') :
    ∃ own', Steps g s ((s.setEntry e x).recount st) own pc pc' own' := by
  obtain ⟨hhash, hsize, hfirst, hnext, hprev⟩ := hx
  refine ⟨own, ⟨Lists.recount (hs.lists.setEntry hsize hfirst hnext hprev) hst, hs.placed.congr fun e' => ?_⟩,
    rfl, rfl, heff⟩
  change ((s.setEntry e x).directory e').hashBytes = _
  by_cases hee : e' = e
  · subst hee
    rw [setEntry_self, hhash]
  · rw [setEntry_of_ne s hee]

theorem exec_steps (hs : Sound g s own) (hdis : s.disabled = false) {nowMs : ℤ} {gaveUp : Bool} {r : Sector × Pc}
    (hready : Ready g s pc) (hexec : s.exec g nowMs gaveUp pc = some r) : ∃ own', Steps g s r.1 own pc r.2 own' := by
  cases pc with
  | put h timestampMs value =>
    cases hexec
    exact putRawHash_steps hs hdis gaveUp
  | putWait h e timestampMs value =>
    cases hexec
    exact putWait_steps hs hdis gaveUp hready
  | putCopy h e value blocks b =>
    unfold exec at hexec
    cases hb : blocks[b]? with
    | some block =>
      simp only [hb] at hexec
      cases hexec
      obtain ⟨⟨free, l, hledger, hlisted⟩, hplaced⟩ := hs
      refine ⟨own, ⟨⟨free, l, hledger.congr rfl rfl rfl fun _ _ => ⟨rfl, rfl⟩, hlisted.lru, hlisted.bound,
        hlisted.sized⟩, hplaced.congr fun _ => rfl⟩, rfl, rfl, .copyIn hb rfl rfl⟩
    | none =>
      simp only [hb] at hexec
      cases hexec
      exact setEntry_steps ((s.directory e).setCreating false) s.stats hs ⟨rfl, rfl, rfl, rfl, rfl⟩ rfl
        (.publish hb rfl rfl)
  | get h =>
    cases hexec
    exact get_steps hs hdis nowMs
  | getExtend h e blocks =>
    cases hexec
    exact ⟨own, hs, rfl, rfl, .extend rfl rfl⟩
  | getCopy h e blocks str pos b =>
    unfold exec at hexec
    cases hb : blocks[b]? with
    | some block =>
      simp only [hb] at hexec
      cases hexec
      exact ⟨own, hs, rfl, rfl, .copyOut hb rfl rfl⟩
    | none =>
      simp only [hb] at hexec
      cases hexec
      exact setEntry_steps (e := e) (s.directory e).decrementOpenCount
        { s.stats with numGetHit := s.stats.numGetHit + 1 } hs ⟨rfl, rfl, rfl, rfl, rfl⟩ rfl
        (.leave hb (.recount rfl) rfl)
  | delete h =>
    cases hexec
    exact delete_steps hs hdis gaveUp
  | deleteWait h e =>
    cases hexec
    exact deleteWait_steps hs hdis gaveUp hready
  | stored h value => cases hexec
  | got h value => cases hexec
  | done h => cases hexec

section Keeps

variable {own' : ℕ → List ℕ} {pc' : Pc} {e' : ℕ}

theorem setEntry_keeps {x : CacheEntry} (hrel : Relinked (s.setEntry e x) s')
    (hhash : x.hashBytes = (s.directory e).hashBytes) (hsize : x.byteSize = (s.directory e).byteSize)
    (e' : ℕ) : (s'.directory e').hashBytes = (s.directory e').hashBytes ∧
      (s'.directory e').byteSize = (s.directory e').byteSize := by
  rw [(hrel.same e').hashBytes, (hrel.same e').byteSize]
  by_cases hee : e' = e
  · subst hee
    rw [setEntry_self]
    exact ⟨hhash, hsize⟩
  · rw [setEntry_of_ne s hee]
    exact ⟨rfl, rfl⟩

theorem Spares.keeps (hspares : Spares s s' e own own') (hee : e' ≠ e)
    (hbusy : (s.directory e').creating = true ∨ (s.directory e').openCount ≠ 0#32) :
    CacheEntry.Same (s.directory e') (s'.directory e') ∧ own' e' = own e' := by
  obtain hkeep | ⟨hw, -⟩ := hspares.yields e' hee
  · exact hkeep
  · obtain ⟨hopen, hidle⟩ := writeable_iff.mp hw
    obtain hcreating | hreaders := hbusy
    · rw [hidle] at hcreating
      cases hcreating
    · exact absurd hopen hreaders

theorem Effect.keeps (heff : Effect g s s' own own' pc pc')
    (hbusy : (s.directory e').creating = true ∧ pc.writing ≠ some e' ∨ (s.directory e').openCount ≠ 0#32) :
    (s'.directory e').hashBytes = (s.directory e').hashBytes ∧
      (s'.directory e').byteSize = (s.directory e').byteSize ∧ own' e' = own e' := by
  have hspared : ∀ e, (pc.writing = some e ∨ (s.directory e).creating = false) →
      (s.directory e).openCount = 0#32 → Spares s s' e own own' →
      (s'.directory e').hashBytes = (s.directory e').hashBytes ∧
        (s'.directory e').byteSize = (s.directory e').byteSize ∧ own' e' = own e' := by
    intro e hclaim hopen hspares
    have hee : e' ≠ e := by
      rintro rfl
      obtain ⟨hcreating, hother⟩ | hreaders := hbusy
      · obtain hw | hidle := hclaim
        · exact hother hw
        · rw [hidle] at hcreating
          cases hcreating
      · exact hreaders hopen
    obtain ⟨hsame, hown⟩ := hspares.keeps hee (hbusy.imp And.left id)
    exact ⟨hsame.hashBytes, hsame.byteSize, hown⟩
  cases heff with
  | miss hrel hown | refuse _ hrel hown | spin _ _ hrel hown =>
    rw [hown]
    exact ⟨(hrel.same e').hashBytes, (hrel.same e').byteSize, rfl⟩
  | mark _ _ _ _ _ _ hrel hown | enter _ _ _ hrel hown | leave _ hrel hown =>
    obtain ⟨hhash, hsize⟩ := setEntry_keeps hrel rfl rfl e'
    rw [hown]
    exact ⟨hhash, hsize, rfl⟩
  | @fill _ _ e _ _ hpc _ hopen _ hspares =>
    refine hspared e ?_ hopen hspares
    obtain ⟨-, hidle⟩ | rfl := hpc
    · exact Or.inr hidle
    · exact Or.inl rfl
  | @clear _ _ e hpc _ hopen _ hspares =>
    refine hspared e ?_ hopen hspares
    obtain ⟨-, hidle⟩ | hw := hpc
    · exact Or.inr hidle
    · cases hw <;> exact Or.inl rfl
  | copyIn _ hown hs' =>
    rw [hown, hs']
    exact ⟨rfl, rfl, rfl⟩
  | @publish _ e _ _ _ _ hown hs' =>
    subst hs'
    obtain ⟨hhash, hsize⟩ :=
      setEntry_keeps (x := (s.directory e).setCreating false) (Relinked.refl _) rfl rfl e'
    rw [hown]
    exact ⟨hhash, hsize, rfl⟩
  | extend hs' hown | copyOut _ hs' hown =>
    rw [hown, hs']
    exact ⟨rfl, rfl, rfl⟩

theorem Effect.creating (heff : Effect g s s' own own' pc pc') (hcreating : (s.directory e').creating = true)
    (hother : pc.writing ≠ some e') : (s'.directory e').creating = true := by
  have hset : ∀ e (x : CacheEntry), (e' = e → x.creating = true) → Relinked (s.setEntry e x) s' →
      (s'.directory e').creating = true := by
    intro e x hx hrel
    rw [(hrel.same e').creating]
    by_cases hee : e' = e
    · rw [hee, setEntry_self]
      exact hx hee
    · rw [setEntry_of_ne s hee]
      exact hcreating
  cases heff with
  | miss hrel | refuse _ hrel | spin _ _ hrel => exact ((hrel.same e').creating).trans hcreating
  | @mark _ _ _ e _ _ _ _ _ _ hrel =>
    exact hset e _ (fun _ => CacheEntry.creating_setCreating _ true) hrel
  | @enter _ e _ _ _ hrel =>
    refine hset e _ (fun hee => ?_) hrel
    rw [CacheEntry.creating_increment, ← hee]
    exact hcreating
  | @leave _ e _ _ _ _ _ hrel =>
    refine hset e _ (fun hee => ?_) hrel
    rw [CacheEntry.creating_decrement, ← hee]
    exact hcreating
  | @fill _ _ e _ _ _ _ _ _ hspares _ _ hmarked =>
    by_cases hee : e' = e
    · rw [hee]
      exact hmarked
    · exact (hspares.keeps hee (Or.inl hcreating)).1.creating.trans hcreating
  | @clear _ _ e hpc _ _ _ hspares =>
    have hee : e' ≠ e := by
      rintro rfl
      obtain ⟨-, hidle⟩ | hw := hpc
      · rw [hidle] at hcreating
        cases hcreating
      · cases hw <;> exact hother rfl
    exact (hspares.keeps hee (Or.inl hcreating)).1.creating.trans hcreating
  | copyIn _ _ hs' => rw [hs']; exact hcreating
  | @publish _ e _ _ _ _ _ hs' =>
    have hee : e' ≠ e := fun hee => hother (congrArg some hee.symm)
    rw [hs', setEntry_of_ne s hee]
    exact hcreating
  | extend hs' => rw [hs']; exact hcreating
  | copyOut _ hs' => rw [hs']; exact hcreating

theorem Effect.writing (heff : Effect g s s' own own' pc pc') (hready : Ready g s pc) :
    Ready g s' pc' ∧ ∀ e, pc'.writing = some e → pc.writing = some e ∨ (s.directory e).creating = false := by
  cases heff with
  | miss | refuse | clear | publish | enter | extend | copyOut | leave => exact ⟨nofun, nofun⟩
  | spin hpc hpc' hrel =>
    obtain rfl | rfl := hpc'
    · refine ⟨fun e he => ?_, fun e he => Or.inl he⟩
      obtain ⟨hmem, hhash, hcreating⟩ := hready e he
      exact ⟨hmem, (hrel.same e).hashBytes.trans hhash, (hrel.same e).creating.trans hcreating⟩
    · exact ⟨nofun, nofun⟩
  | @mark _ _ h e hpc hpc' hmem hhash hidle _ hrel =>
    obtain hw | rfl := hpc'
    · have hwriting : pc'.writing = some e ∧ pc'.hash = h := by cases hw <;> exact ⟨rfl, rfl⟩
      refine ⟨fun e₁ he => ?_, fun e₁ he => ?_⟩
      · obtain rfl := Option.some.inj (hwriting.1.symm.trans he)
        have hmark := (hrel.same e).creating
        rw [beginWrite_self, CacheEntry.creating_setCreating] at hmark
        have hkey := (hrel.same e).hashBytes
        rw [beginWrite_self] at hkey
        rw [hwriting.2]
        exact ⟨hmem, hkey.trans hhash, hmark⟩
      · obtain rfl := Option.some.inj (hwriting.1.symm.trans he)
        exact Or.inr hidle
    · exact ⟨nofun, nofun⟩
  | @fill _ _ e _ _ hpc hmem _ _ _ hhash _ hcreating =>
    refine ⟨fun e₁ he => ?_, fun e₁ he => ?_⟩
    · cases he
      exact ⟨hmem, hhash, hcreating⟩
    · cases he
      obtain ⟨-, hidle⟩ | rfl := hpc
      · exact Or.inr hidle
      · exact Or.inl rfl
  | @copyIn _ e _ _ _ _ _ _ hs' =>
    refine ⟨fun e₁ he => ?_, fun e₁ he => Or.inl he⟩
    rw [hs']
    exact hready e₁ he

end Keeps

end Sector

end PageSpeed.SharedMem
