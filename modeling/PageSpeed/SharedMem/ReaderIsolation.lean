import PageSpeed.SharedMem.BlockConservation

/-!
A lookup in the shared memory cache copies its blocks without the lock. While it does, nobody writes to them, and what
it reports is the value of a completed `Put`.
-/

namespace PageSpeed.SharedMem

open Links Machine Sector

def Pc.reading : Pc → Option ℕ
  | .getExtend _ e _ | .getCopy _ e _ _ _ _ => some e
  | _ => none

def FewReaders (t : State) (_ : Action) : Prop := t.threads.countP (fun pc => pc.reading.isSome) + 1 < 2 ^ 31

instance (t : State) (a : Action) : Decidable (FewReaders t a) := inferInstanceAs (Decidable (_ < _))

section Portions

variable {g : Config} {s : Sector} {len b : ℕ}

theorem portion_end (hb : b < g.dataBlocksForSize len) :
    b * g.blockSize + g.bytesInPortion len b (g.dataBlocksForSize len) = min ((b + 1) * g.blockSize) len ∧
      b * g.blockSize < len := by
  have hpos := g.blockSize_pos
  have htotal : g.dataBlocksForSize len = (len + g.blockSize - 1) / g.blockSize := rfl
  have hle : (b + 1) * g.blockSize ≤ len + g.blockSize - 1 := by
    rw [← Nat.le_div_iff_mul_le hpos, ← htotal]
    exact hb
  unfold Config.bytesInPortion
  rw [Nat.add_mul, Nat.one_mul] at hle ⊢
  have hlt : b * g.blockSize < len := by omega
  refine ⟨?_, hlt⟩
  by_cases hlast : b = g.dataBlocksForSize len - 1
  · have hend : len + g.blockSize - 1 < (b + 2) * g.blockSize := by
      rw [← Nat.div_lt_iff_lt_mul hpos, ← htotal]
      omega
    rw [if_neg (not_not.mpr hlast)]
    rw [Nat.add_mul] at hend
    have hmod : len % g.blockSize = (len - b * g.blockSize) % g.blockSize := by
      conv_lhs => rw [← Nat.sub_add_cancel hlt.le, Nat.add_mul_mod_self_right]
    rw [hmod]
    obtain heq | hless : len - b * g.blockSize = g.blockSize ∨ len - b * g.blockSize < g.blockSize := by omega
    · rw [heq, Nat.mod_self, if_pos rfl]
      omega
    · rw [Nat.mod_eq_of_lt hless, if_neg (by omega)]
      omega
  · rw [if_pos hlast]
    have hnext : (b + 2) * g.blockSize ≤ len + g.blockSize - 1 := by
      rw [← Nat.le_div_iff_mul_le hpos, ← htotal]
      omega
    rw [Nat.add_mul] at hnext
    omega

theorem len_le (g : Config) (hb : g.dataBlocksForSize len ≤ b) : len ≤ b * g.blockSize := by
  have hpos := g.blockSize_pos
  have hlt : len + g.blockSize - 1 < (b + 1) * g.blockSize := by
    rw [← Nat.div_lt_iff_lt_mul hpos]
    exact Nat.lt_succ_of_le hb
  rw [Nat.add_mul] at hlt
  omega

/-- The blocks hold the first `n` portions of the value. -/
def Holds (g : Config) (s : Sector) (value : GoogleString) (blocks : List ℕ) (n : ℕ) : Prop :=
  ∀ b < n, ∀ block, blocks[b]? = some block →
    (s.blockBytes block).take (g.bytesInPortion value.length b blocks.length) =
      (value.drop (b * g.blockSize)).take (g.bytesInPortion value.length b blocks.length)

variable {value : GoogleString} {blocks : List ℕ} {n block : ℕ}

theorem length_portion (hlen : blocks.length = g.dataBlocksForSize value.length) (hb : blocks[b]? = some block) :
    ((value.drop (b * g.blockSize)).take (g.bytesInPortion value.length b blocks.length)).length =
      g.bytesInPortion value.length b blocks.length := by
  obtain ⟨hlt, -⟩ := List.getElem?_eq_some_iff.mp hb
  rw [hlen] at hlt ⊢
  obtain ⟨hend, -⟩ := portion_end hlt
  rw [List.length_take, List.length_drop]
  omega

theorem Holds.congr {s' : Sector} (h : Holds g s value blocks n)
    (hsame : ∀ block ∈ blocks, s'.blockBytes block = s.blockBytes block) : Holds g s' value blocks n := by
  intro b hb block hblock
  rw [hsame block (List.mem_of_getElem? hblock)]
  exact h b hb block hblock

theorem Holds.copyIn (h : Holds g s value blocks b) (hlen : blocks.length = g.dataBlocksForSize value.length)
    (hnodup : blocks.Nodup) (hb : blocks[b]? = some block) :
    Holds g { s with blockBytes := Function.update s.blockBytes block (memcpy (s.blockBytes block)
      ((value.drop (b * g.blockSize)).take (g.bytesInPortion value.length b blocks.length))) } value blocks (b + 1) := by
  intro b' hb' block' hblock'
  by_cases heq : b' = b
  · subst heq
    obtain rfl := Option.some.inj (hb.symm.trans hblock')
    simp only [Function.update_self, memcpy]
    rw [List.take_left' (length_portion hlen hb)]
  · have hne : block' ≠ block := by
      rintro rfl
      exact heq ((List.getElem?_inj (List.getElem?_eq_some_iff.mp hblock').1 hnodup).mp (hblock'.trans hb.symm))
    simp only [Function.update_of_ne hne]
    exact h b' (by omega) block' hblock'

/-- What a reader has after `b` blocks. -/
def readSoFar (g : Config) (value : GoogleString) (b : ℕ) : GoogleString :=
  value.take (b * g.blockSize) ++ List.replicate (value.length - b * g.blockSize) 0

theorem readSoFar_all (hb : g.dataBlocksForSize value.length ≤ b) : readSoFar g value b = value := by
  have hle := len_le g hb
  unfold readSoFar
  rw [List.take_of_length_le hle, Nat.sub_eq_zero_of_le hle, List.replicate_zero, List.append_nil]

theorem readSoFar_succ (h : Holds g s value blocks blocks.length)
    (hlen : blocks.length = g.dataBlocksForSize value.length) (hb : blocks[b]? = some block) :
    writeAt (readSoFar g value b) (min (b * g.blockSize) value.length)
        ((s.blockBytes block).take (g.bytesInPortion value.length b blocks.length)) = readSoFar g value (b + 1) ∧
      min (b * g.blockSize) value.length + g.bytesInPortion value.length b blocks.length =
        min ((b + 1) * g.blockSize) value.length := by
  obtain ⟨hlt, -⟩ := List.getElem?_eq_some_iff.mp hb
  have hsize := length_portion (g := g) hlen hb
  rw [h b hlt block hb]
  rw [hlen] at hlt hsize ⊢
  obtain ⟨hend, hstart⟩ := portion_end hlt
  generalize g.bytesInPortion value.length b (g.dataBlocksForSize value.length) = bytes at hend hsize ⊢
  generalize hfrom : b * g.blockSize = start at hend hstart hsize ⊢
  rw [min_eq_left hstart.le]
  refine ⟨?_, hend⟩
  have htake : (value.take start).length = start := List.length_take_of_le hstart.le
  have hnext : value.take ((b + 1) * g.blockSize) = value.take start ++ (value.drop start).take bytes := by
    rw [← List.take_add, hend, ← List.take_eq_take_min]
  unfold writeAt readSoFar
  rw [hfrom, hnext, hsize]
  have hcount : min bytes ((value.take start ++ List.replicate (value.length - start) (0 : UInt8)).length - start) =
      bytes := by
    rw [List.length_append, htake, List.length_replicate]
    omega
  dsimp only
  rw [hcount, List.take_left' htake, List.take_of_length_le hsize.le, ← List.drop_drop, List.drop_left' htake,
    List.drop_replicate]
  congr 2
  omega

end Portions

namespace Sector

variable {g : Config} {s s' : Sector} {own own' : ℕ → List ℕ} {pc pc' : Pc} {e : ℕ}

theorem Relinked.entry {x : CacheEntry} (hrel : Relinked (s.setEntry e x) s') (e' : ℕ) :
    e' = e ∧ CacheEntry.Same x (s'.directory e') ∨ e' ≠ e ∧ CacheEntry.Same (s.directory e') (s'.directory e') := by
  have hsame := hrel.same e'
  by_cases hee : e' = e
  · subst hee
    rw [setEntry_self] at hsame
    exact Or.inl ⟨rfl, hsame⟩
  · rw [setEntry_of_ne s hee] at hsame
    exact Or.inr ⟨hee, hsame⟩

variable {e' : ℕ}

structure Rests (s s' : Sector) (own own' : ℕ → List ℕ) (e : ℕ) : Prop where
  hashBytes : (s'.directory e).hashBytes = (s.directory e).hashBytes
  byteSize : (s'.directory e).byteSize = (s.directory e).byteSize
  own : own' e = own e

/-- What a step does to an entry, as its readers see it. -/
inductive Seen (s s' : Sector) (own own' : ℕ → List ℕ) (pc pc' : Pc) (e : ℕ) : Prop
  | same (hrests : Rests s s' own own' e) (hcreating : (s'.directory e).creating = (s.directory e).creating)
      (hopen : (s'.directory e).openCount = (s.directory e).openCount) (hreading : pc'.reading = some e ↔ pc.reading = some e)
  | hide (hhidden : (s'.directory e).creating = true ∨ (s'.directory e).hashBytes = nilHash)
      (hopen : (s'.directory e).openCount = (s.directory e).openCount)
      (hreading : pc'.reading = some e ↔ pc.reading = some e)
  | publish {h : RawHash} {value : GoogleString} {blocks : List ℕ} {b : ℕ} (hrests : Rests s s' own own' e)
      (hpc : pc = .putCopy h e value blocks b) (hpc' : pc' = .stored h value) (hb : blocks[b]? = none)
      (hopen : (s'.directory e).openCount = (s.directory e).openCount)
  | enter (hrests : Rests s s' own own' e) (hidle : (s.directory e).creating = false)
      (hopen : (s'.directory e).openCount = (s.directory e).incrementOpenCount.openCount) (hpc : pc.reading = none)
      (hpc' : pc'.reading = some e)
  | leave (hrests : Rests s s' own own' e) (hcreating : (s'.directory e).creating = (s.directory e).creating)
      (hopen : (s'.directory e).openCount = (s.directory e).decrementOpenCount.openCount) (hpc : pc.reading = some e)
      (hpc' : pc'.reading = none)

theorem Effect.seen (heff : Effect g s s' own own' pc pc') (e' : ℕ) : Seen s s' own own' pc pc' e' := by
  have hstarts : ∀ {p : Pc} {h : RawHash}, p.Starts h → p.reading = none := by
    intro p h hp
    cases hp <;> rfl
  have hwaits : ∀ {p : Pc} {h : RawHash} {e : ℕ}, p.Waits h e → p.reading = none := by
    intro p h e hp
    cases hp <;> rfl
  have hiff : pc'.reading = pc.reading → (pc'.reading = some e' ↔ pc.reading = some e') := fun h => by rw [h]
  have hsame : CacheEntry.Same (s.directory e') (s'.directory e') → own' e' = own e' →
      (pc'.reading = some e' ↔ pc.reading = some e') → Seen s s' own own' pc pc' e' := fun h hown =>
    .same ⟨h.hashBytes, h.byteSize, hown⟩ h.creating h.openCount
  have hspared : ∀ {e : ℕ}, Spares s s' e own own' →
      ((s'.directory e).creating = true ∨ (s'.directory e).hashBytes = nilHash) →
      (s'.directory e).openCount = (s.directory e).openCount → pc'.reading = pc.reading →
      Seen s s' own own' pc pc' e' := by
    intro e hspares hhidden hopen hreading
    by_cases hee : e' = e
    · subst hee
      exact .hide hhidden hopen (hiff hreading)
    · obtain ⟨h, hown⟩ | ⟨-, hem, -⟩ := hspares.yields e' hee
      · exact hsame h hown (hiff hreading)
      · refine .hide (Or.inr hem.hashBytes) ?_ (hiff hreading)
        unfold CacheEntry.openCount
        rw [hem.flags]
  cases heff with
  | miss hrel hown => exact hsame (hrel.same e') (congrFun hown e') Iff.rfl
  | refuse hpc hrel hown => exact hsame (hrel.same e') (congrFun hown e') (hiff (hstarts hpc).symm)
  | spin hpc hpc' hrel hown =>
    refine hsame (hrel.same e') (congrFun hown e') (hiff ?_)
    obtain rfl | rfl := hpc'
    · rfl
    · exact (hwaits hpc).symm
  | mark hpc hpc' _ _ _ _ hrel hown =>
    have hreading := hiff (Eq.trans (b := none) (hpc'.elim hwaits fun h => by rw [h]; rfl) (hstarts hpc).symm)
    obtain ⟨rfl, h⟩ | ⟨-, h⟩ := hrel.entry e'
    · refine .hide (Or.inl ?_) (h.openCount.trans (CacheEntry.openCount_setCreating _ _)) hreading
      exact h.creating.trans (CacheEntry.creating_setCreating _ _)
    · exact hsame h (congrFun hown e') hreading
  | fill hpc _ hopen _ hspares _ _ hcreating hopen' =>
    refine hspared hspares (Or.inl hcreating) (hopen'.trans hopen.symm) ?_
    obtain ⟨rfl, -⟩ | rfl := hpc <;> rfl
  | clear hpc _ _ _ hspares hcleared =>
    refine hspared hspares (Or.inr hcleared.hashBytes) hcleared.openCount ?_
    obtain ⟨hpc, -⟩ | hpc := hpc
    · exact (hstarts hpc).symm
    · exact (hwaits hpc).symm
  | copyIn _ hown hs' | extend hs' hown | copyOut _ hs' hown =>
    subst hs'
    exact hsame (.refl _) (congrFun hown e') Iff.rfl
  | @publish _ e _ _ _ hb hown hs' =>
    have hrel : Relinked (s.setEntry e ((s.directory e).setCreating false)) s' := hs' ▸ .refl _
    obtain ⟨rfl, h⟩ | ⟨-, h⟩ := hrel.entry e'
    · exact .publish ⟨h.hashBytes, h.byteSize, congrFun hown e'⟩ rfl rfl hb
        (h.openCount.trans (CacheEntry.openCount_setCreating _ _))
    · exact hsame h (congrFun hown e') Iff.rfl
  | enter _ _ hidle hrel hown =>
    obtain ⟨rfl, h⟩ | ⟨hee, h⟩ := hrel.entry e'
    · exact .enter ⟨h.hashBytes, h.byteSize, congrFun hown e'⟩ hidle h.openCount rfl rfl
    · exact hsame h (congrFun hown e') (iff_of_false (fun h => hee (Option.some.inj h).symm) fun h => by cases h)
  | leave _ hrel hown =>
    obtain ⟨rfl, h⟩ | ⟨hee, h⟩ := hrel.entry e'
    · exact .leave ⟨h.hashBytes, h.byteSize, congrFun hown e'⟩ (h.creating.trans (by simp)) h.openCount rfl rfl
    · exact hsame h (congrFun hown e') (iff_of_false (fun h => by cases h) fun h => hee (Option.some.inj h).symm)

theorem Seen.reads (h : Seen s s' own own' pc pc' e) (hreading : pc'.reading = some e) :
    pc.reading = some e ∨ (s.directory e).creating = false := by
  cases h with
  | same _ _ _ hiff | hide _ _ hiff => exact Or.inl (hiff.mp hreading)
  | publish _ _ hpc' =>
    rw [hpc'] at hreading
    cases hreading
  | enter _ hidle => exact Or.inr hidle
  | leave _ _ _ hpc => exact Or.inl hpc

theorem openCount_increment {x : CacheEntry} (hroom : x.openCount.toNat + 1 < 2 ^ 31) :
    x.incrementOpenCount.openCount.toNat = x.openCount.toNat + 1 := by
  rw [CacheEntry.openCount_toNat] at hroom ⊢
  rw [CacheEntry.openCount_toNat]
  change (x.flags + 2#32).toNat / 2 = _
  rw [BitVec.toNat_add, BitVec.toNat_ofNat]
  omega

theorem openCount_decrement {x : CacheEntry} (hopen : x.openCount ≠ 0#32) :
    x.decrementOpenCount.openCount.toNat + 1 = x.openCount.toNat := by
  have hlt := x.flags.isLt
  have hopen : x.openCount.toNat ≠ 0 := fun h => hopen (BitVec.eq_of_toNat_eq h)
  rw [CacheEntry.openCount_toNat] at hopen ⊢
  rw [CacheEntry.openCount_toNat]
  change (x.flags - 2#32).toNat / 2 + 1 = _
  rw [BitVec.toNat_sub, BitVec.toNat_ofNat]
  omega

theorem Effect.bytes (heff : Effect g s s' own own' pc pc') :
    s'.blockBytes = s.blockBytes ∨ ∃ h e value blocks b block, pc = .putCopy h e value blocks b ∧
      pc' = .putCopy h e value blocks (b + 1) ∧ blocks[b]? = some block ∧ own' = own ∧
      s' = { s with
        blockBytes := Function.update s.blockBytes block (memcpy (s.blockBytes block)
          ((value.drop (b * g.blockSize)).take
            (g.bytesInPortion (s.directory e).byteSize b blocks.length))) } := by
  cases heff with
  | miss hrel | refuse _ hrel | spin _ _ hrel | mark _ _ _ _ _ _ hrel | enter _ _ _ hrel | leave _ hrel =>
    exact Or.inl hrel.blockBytes
  | fill _ _ _ _ hspares | clear _ _ _ _ hspares => exact Or.inl hspares.blockBytes
  | copyIn hb hown hs' => exact Or.inr ⟨_, _, _, _, _, _, rfl, rfl, hb, hown, hs'⟩
  | publish _ _ hs' | extend hs' | copyOut _ hs' =>
    rw [hs']
    exact Or.inl rfl

theorem Lists.length_own (hl : Lists g s own) (he : e < g.entriesPerSector) :
    (own e).length = g.dataBlocksForSize (s.directory e).byteSize := by
  obtain ⟨free, l, hledger, -⟩ := hl
  exact (hledger.chains e he (by simp)).2

theorem Lists.nodup_own (hl : Lists g s own) (he : e < g.entriesPerSector) : (own e).Nodup := by
  obtain ⟨free, l, hledger, -⟩ := hl
  have hnodup := (Multiset.nodup_add.mp hledger.nodup).2.1
  exact Multiset.coe_nodup.mp (Multiset.nodup_of_le (Ledger.own_le own he) hnodup)

theorem Lists.disjoint_own (hl : Lists g s own) (he : e < g.entriesPerSector) (he' : e' < g.entriesPerSector)
    (hne : e' ≠ e) {block : ℕ} (hb : block ∈ own e) : block ∉ own e' := by
  obtain ⟨free, l, hledger, -⟩ := hl
  have hnodup := (Multiset.nodup_add.mp hledger.nodup).2.1
  have hle : (own e : Multiset ℕ) + (own e' : Multiset ℕ) ≤
      ∑ e ∈ Finset.range g.entriesPerSector, (own e : Multiset ℕ) := by
    rw [← Finset.sum_pair (f := fun e => (own e : Multiset ℕ)) hne.symm]
    refine Finset.sum_le_sum_of_subset fun x hx => ?_
    obtain rfl | rfl := by simpa using hx
    · exact Finset.mem_range.mpr he
    · exact Finset.mem_range.mpr he'
  exact fun hb' => Multiset.disjoint_left.mp (Multiset.nodup_add.mp (Multiset.nodup_of_le hle hnodup)).2.2
    (Multiset.mem_coe.mpr hb) (Multiset.mem_coe.mpr hb')

end Sector

structure Stores (g : Config) (s : Sector) (own : ℕ → List ℕ) (threads : List Pc) (h : RawHash) (e : ℕ)
    (value : GoogleString) : Prop where
  stored : .stored h value ∈ threads
  byteSize : (s.directory e).byteSize = value.length
  holds : Holds g s value (own e) (own e).length

def Pc.Sees (g : Config) (s : Sector) (own : ℕ → List ℕ) (threads : List Pc) : Pc → Prop
  | .putCopy _ e value blocks b => blocks = own e ∧ (s.directory e).byteSize = value.length ∧
      (s.directory e).openCount = 0#32 ∧ Holds g s value blocks b
  | .getExtend h e blocks => blocks = own e ∧ e < g.entriesPerSector ∧ ∃ value, Stores g s own threads h e value
  | .getCopy h e blocks str pos b => blocks = own e ∧ e < g.entriesPerSector ∧ ∃ value,
      Stores g s own threads h e value ∧ pos = min (b * g.blockSize) value.length ∧ str = readSoFar g value b
  | .got h (some str) => .stored h str ∈ threads
  | _ => True

def Pc.readsAt (g : Config) (k e : ℕ) (pc : Pc) : Bool := g.home pc = k ∧ pc.reading = some e

structure Isolated (g : Config) (t : State) (k : ℕ) (own : ℕ → List ℕ) : Prop where
  count : ∀ e, ((t.sectors k).directory e).openCount.toNat = t.threads.countP (Pc.readsAt g k e)
  settled : ∀ e, e < g.entriesPerSector → ((t.sectors k).directory e).creating = false →
    ((t.sectors k).directory e).hashBytes ≠ nilHash →
    ∃ value, Stores g (t.sectors k) own t.threads ((t.sectors k).directory e).hashBytes e value
  sees : ∀ pc ∈ t.threads, g.home pc = k → pc.Sees g (t.sectors k) own t.threads

variable {g : Config} {t t' : State} {k i : ℕ} {own own' : ℕ → List ℕ} {pc pc' : Pc} {s : Sector}

theorem FewReaders.count_lt {a : Action} (h : FewReaders t a) (k e : ℕ) :
    t.threads.countP (Pc.readsAt g k e) + 1 < 2 ^ 31 := by
  refine lt_of_le_of_lt (Nat.add_le_add_right (List.countP_mono_left fun pc _ hpc => ?_) 1) h
  rw [(of_decide_eq_true hpc).2]
  rfl

theorem countP_after (hi : t.threads[i]? = some pc) (pc' : Pc) (p : Pc → Bool) :
    (t.threads.set i pc').countP p + (p pc).toNat = t.threads.countP p + (p pc').toNat := by
  obtain ⟨hlt, rfl⟩ := List.getElem?_eq_some_iff.mp hi
  rw [(List.set_perm_cons_eraseIdx hlt pc').countP_eq p, ← (List.getElem_cons_eraseIdx_perm hlt).countP_eq p,
    List.countP_cons, List.countP_cons]
  cases p t.threads[i] <;> cases p pc' <;> simp

section Moves

variable {s s' : Sector} {threads threads' : List Pc}
  (hstored : ∀ h v, Pc.stored h v ∈ threads → Pc.stored h v ∈ threads')

include hstored in
theorem Stores.congr {h : RawHash} {e : ℕ} {value : GoogleString} (hstores : Stores g s own threads h e value)
    (hsize : (s'.directory e).byteSize = (s.directory e).byteSize) (hown : own' e = own e)
    (hbytes : ∀ block ∈ own e, s'.blockBytes block = s.blockBytes block) : Stores g s' own' threads' h e value := by
  refine ⟨hstored h value hstores.stored, hsize.trans hstores.byteSize, ?_⟩
  rw [hown]
  exact hstores.holds.congr hbytes

include hstored in
theorem Pc.Sees.move (hsees : pc.Sees g s own threads)
    (hreads : ∀ h e value, pc.reading = some e → e < g.entriesPerSector → Stores g s own threads h e value →
      own' e = own e ∧ Stores g s' own' threads' h e value)
    (hwrites : ∀ h e value blocks b, pc = .putCopy h e value blocks b → pc.Sees g s' own' threads') :
    pc.Sees g s' own' threads' := by
  cases pc with
  | put | putWait | stored | get | delete | deleteWait | done => trivial
  | putCopy => exact hwrites _ _ _ _ _ rfl
  | getExtend h e blocks =>
    obtain ⟨rfl, he, value, hstores⟩ := hsees
    obtain ⟨hown, hstores'⟩ := hreads h e value rfl he hstores
    exact ⟨hown.symm, he, value, hstores'⟩
  | getCopy h e blocks str pos b =>
    obtain ⟨rfl, he, value, hstores, hread⟩ := hsees
    obtain ⟨hown, hstores'⟩ := hreads h e value rfl he hstores
    exact ⟨hown.symm, he, value, hstores', hread⟩
  | got h value =>
    cases value with
    | none => trivial
    | some str => exact hstored h str hsees

theorem Pc.Sees.reading_lt {e : ℕ} (hsees : pc.Sees g s own threads) (hreading : pc.reading = some e) :
    e < g.entriesPerSector := by
  cases pc <;> cases hreading
  all_goals exact hsees.2.1

end Moves

section Here

variable (ho : InOrder g t k own) (hiso : Isolated g t k own) (hi : t.threads[i]? = some pc) (hk : g.home pc = k)
  (hsteps : Steps g (t.sectors k) s own pc pc' own')
  (hstored : ∀ h v, Pc.stored h v ∈ t.threads → Pc.stored h v ∈ t.threads.set i pc')

include ho hiso hi hk hsteps in
theorem bytes_after {e : ℕ} (he : e < g.entriesPerSector) (hpc : ∀ h value blocks b, pc ≠ .putCopy h e value blocks b) :
    ∀ block ∈ own e, s.blockBytes block = (t.sectors k).blockBytes block := by
  intro block hblock
  obtain hsame | ⟨h, e', value, blocks, b, block', rfl, -, hb, -, rfl⟩ := hsteps.effect.bytes
  · rw [hsame]
  · obtain ⟨rfl, -⟩ := hiso.sees _ (List.mem_of_getElem? hi) hk
    obtain ⟨he', -⟩ := ho.ready _ (List.mem_of_getElem? hi) hk e' rfl
    have hee : e' ≠ e := fun hee => hpc h value (own e') b (by rw [hee])
    apply Function.update_of_ne
    rintro rfl
    exact ho.sound.lists.disjoint_own he (keys_lt he') hee hblock (List.mem_of_getElem? hb)

include hiso in
theorem open_of_reading {q : Pc} {e : ℕ} (hq : q ∈ t.threads) (hkq : g.home q = k) (hreading : q.reading = some e) :
    ((t.sectors k).directory e).openCount ≠ 0#32 := by
  have hpos : 0 < t.threads.countP (Pc.readsAt g k e) :=
    List.countP_pos_iff.mpr ⟨q, hq, by simp [Pc.readsAt, hkq, hreading]⟩
  intro hzero
  rw [← hiso.count e, hzero] at hpos
  exact absurd hpos (by simp)

include ho hiso hi hk hsteps hstored in
theorem stores_after {q : Pc} (hq : q ∈ t.threads) (hkq : g.home q = k) {h : RawHash} {e : ℕ} {value : GoogleString}
    (hreading : q.reading = some e) (he : e < g.entriesPerSector)
    (hstores : Stores g (t.sectors k) own t.threads h e value) :
    own' e = own e ∧ Stores g s own' (t.threads.set i pc') h e value := by
  have hopen := open_of_reading hiso hq hkq hreading
  obtain ⟨-, hsize, hown⟩ := hsteps.effect.keeps (Or.inr hopen)
  refine ⟨hown, hstores.congr hstored hsize hown (bytes_after ho hiso hi hk hsteps he ?_)⟩
  rintro _ _ _ _ rfl
  exact hopen (hiso.sees _ (List.mem_of_getElem? hi) hk).2.2.1

include ho hiso hi hk hsteps hstored in
theorem settled_after {e : ℕ} (he : e < g.entriesPerSector) (hidle : (s.directory e).creating = false)
    (hhash : (s.directory e).hashBytes ≠ nilHash) :
    ∃ value, Stores g s own' (t.threads.set i pc') (s.directory e).hashBytes e value := by
  have hready := ho.ready pc (List.mem_of_getElem? hi) hk
  have hold : Rests (t.sectors k) s own own' e → ((t.sectors k).directory e).creating = false →
      ∃ value, Stores g s own' (t.threads.set i pc') (s.directory e).hashBytes e value := by
    intro hrests hidle₀
    rw [hrests.hashBytes] at hhash ⊢
    obtain ⟨value, hstores⟩ := hiso.settled e he hidle₀ hhash
    refine ⟨value, hstores.congr hstored hrests.byteSize hrests.own (bytes_after ho hiso hi hk hsteps he ?_)⟩
    rintro _ _ _ _ rfl
    have hcreating := (hready e rfl).2.2
    simp [hidle₀] at hcreating
  cases hsteps.effect.seen e with
  | same hrests hcreating | leave hrests hcreating => exact hold hrests (hcreating.symm.trans hidle)
  | enter hrests hidle₀ => exact hold hrests hidle₀
  | hide hhidden =>
    obtain hcreating | hnil := hhidden
    · simp [hidle] at hcreating
    · exact absurd hnil hhash
  | @publish h value blocks b hrests hpc hpc' hb =>
    subst hpc hpc'
    obtain ⟨rfl, hsize, -, hholds⟩ := hiso.sees _ (List.mem_of_getElem? hi) hk
    have hbytes : s.blockBytes = (t.sectors k).blockBytes := by
      apply hsteps.effect.bytes.resolve_right
      rintro ⟨_, _, _, _, _, _, -, h, -⟩
      cases h
    refine ⟨value, ?_, hrests.byteSize.trans hsize, ?_⟩
    · rw [hrests.hashBytes, (hready e rfl).2.1]
      exact List.mem_set (List.getElem?_eq_some_iff.mp hi).1 _
    · rw [hrests.own]
      have hall : Holds g (t.sectors k) value (own e) (own e).length := fun b' hb' =>
        hholds b' (lt_of_lt_of_le hb' (List.getElem?_eq_none_iff.mp hb))
      apply hall.congr
      simp [hbytes]

include hiso hi hk hsteps in
theorem count_after (hk' : g.home pc' = k) (hfew : ∀ e, t.threads.countP (Pc.readsAt g k e) + 1 < 2 ^ 31) (e : ℕ) :
    (s.directory e).openCount.toNat = (t.threads.set i pc').countP (Pc.readsAt g k e) := by
  have hcount := hiso.count e
  have hset := countP_after hi pc' (Pc.readsAt g k e)
  simp only [Pc.readsAt, hk, hk', true_and] at hset
  cases hsteps.effect.seen e with
  | same _ _ hopen hreading | hide _ hopen hreading =>
    rw [hopen, hcount]
    simp only [hreading] at hset
    exact (Nat.add_right_cancel hset).symm
  | publish _ hpc hpc' _ hopen =>
    subst hpc hpc'
    rw [hopen, hcount]
    exact hset.symm
  | enter _ _ hopen hpc hpc' =>
    rw [hopen, openCount_increment (by rw [hcount]; exact hfew e), hcount]
    simp [hpc, hpc'] at hset
    exact hset.symm
  | leave _ _ hopen hpc hpc' =>
    have hdecrement := openCount_decrement (open_of_reading hiso (List.mem_of_getElem? hi) hk hpc)
    rw [hopen]
    simp [hpc, hpc'] at hset
    exact Nat.add_right_cancel (hdecrement.trans (hcount.trans hset.symm))

include ho hiso hi hk hsteps hstored in
theorem others_see (hk' : g.home pc' = k) (hfew : ∀ e, t.threads.countP (Pc.readsAt g k e) + 1 < 2 ^ 31) {j : ℕ}
    {q : Pc} (hji : j ≠ i) (hj : t.threads[j]? = some q) (hkq : g.home q = k) :
    q.Sees g s own' (t.threads.set i pc') := by
  have hq := List.mem_of_getElem? hj
  have hsees := hiso.sees q hq hkq
  refine hsees.move hstored (fun h e value => stores_after ho hiso hi hk hsteps hstored hq hkq) ?_
  rintro h e value blocks b rfl
  obtain ⟨rfl, hsize, hopen, hholds⟩ := hsees
  obtain ⟨hmem, -, hcreating⟩ := ho.ready _ hq hkq e rfl
  have hother : pc.writing ≠ some e := fun hw => hji (ho.alone j i _ pc e hj hi hkq hk rfl hw)
  obtain ⟨-, hsize', hown⟩ := hsteps.effect.keeps (Or.inl ⟨hcreating, hother⟩)
  have hbytes := bytes_after ho hiso hi hk hsteps (keys_lt hmem) (by rintro _ _ _ _ rfl; exact hother rfl)
  refine ⟨hown.symm, hsize'.trans hsize, ?_, hholds.congr hbytes⟩
  -- Nobody reads the entry, and nobody can begin to.
  have hzero : ∀ r, r ∈ t.threads → g.home r = k → r.reading ≠ some e := fun r hr hkr hreading =>
    open_of_reading hiso hr hkr hreading hopen
  rw [← BitVec.toNat_inj, count_after hiso hi hk hsteps hk' hfew e]
  apply List.countP_eq_zero.mpr
  intro r hr
  simp only [Pc.readsAt, decide_eq_true_eq, not_and]
  intro hkr hreading
  obtain hr | rfl := List.mem_or_eq_of_mem_set hr
  · exact hzero r hr hkr hreading
  · obtain h | h := (hsteps.effect.seen e).reads hreading
    · exact hzero pc (List.mem_of_getElem? hi) hk h
    · simp [hcreating] at h

include ho hiso hi hk hsteps hstored in
theorem self_sees (hnil : pc.hash ≠ nilHash) : pc'.Sees g s own' (t.threads.set i pc') := by
  have hmem := List.mem_of_getElem? hi
  have hsees := hiso.sees pc hmem hk
  have hready := ho.ready pc hmem hk
  have hsettled := fun e he => settled_after (e := e) ho hiso hi hk hsteps hstored he
  have hstores := fun h e value => @stores_after g t k i own own' pc pc' s ho hiso hi hk hsteps hstored pc hmem hk h e value
  have hlists := ho.sound.lists
  have heff := hsteps.effect
  generalize t.threads.set i pc' = threads at hsettled hstores ⊢
  generalize t.sectors k = s₀ at *
  cases heff with
  | miss | refuse | clear | publish => trivial
  | spin hpc hpc' =>
    obtain rfl | rfl := hpc'
    · cases hpc <;> trivial
    · trivial
  | mark _ hpc' =>
    obtain hw | rfl := hpc'
    · cases hw <;> trivial
    · trivial
  | fill _ _ _ _ _ _ hsize _ hopen =>
    refine ⟨rfl, hsize, hopen, fun b hb => ?_⟩
    cases hb
  | @copyIn _ e value _ b _ hb hown hs' =>
    obtain ⟨rfl, hsize, hopen, hholds⟩ := hsees
    have he := keys_lt (hready e rfl).1
    have hlen := hlists.length_own he
    rw [hsize] at hs' hlen
    subst hown hs'
    exact ⟨rfl, hsize, hopen, hholds.copyIn hlen (hlists.nodup_own he) hb⟩
  | @enter _ e he hhash hidle hrel hown =>
    have h := hrel.same e
    rw [setEntry_self] at h
    have hhash' := h.hashBytes.trans hhash
    obtain ⟨value, hvalue⟩ := hsettled e (keys_lt he) (h.creating.trans (by simpa using hidle)) (by rw [hhash']; exact hnil)
    rw [hhash'] at hvalue
    exact ⟨congrFun hown.symm e, keys_lt he, value, hvalue⟩
  | @extend _ e =>
    obtain ⟨rfl, he, value, hvalue⟩ := hsees
    obtain ⟨hown, hvalue'⟩ := hstores _ e value rfl he hvalue
    refine ⟨hown.symm, he, value, hvalue', by simp, ?_⟩
    simp [readSoFar, hvalue.byteSize]
  | @copyOut _ e _ _ _ _ _ hb =>
    obtain ⟨rfl, he, value, hvalue, rfl, rfl⟩ := hsees
    obtain ⟨hown, hvalue'⟩ := hstores _ e value rfl he hvalue
    have hlen := hlists.length_own he
    rw [hvalue.byteSize] at hlen ⊢
    obtain ⟨hread, hpos⟩ := readSoFar_succ hvalue.holds hlen hb
    exact ⟨hown.symm, he, value, hvalue', hpos, hread⟩
  | @leave _ e _ _ _ _ hb =>
    obtain ⟨rfl, he, value, hvalue, -, rfl⟩ := hsees
    have hlen := hlists.length_own he
    rw [hvalue.byteSize] at hlen
    rw [Pc.Sees, readSoFar_all (hlen ▸ List.getElem?_eq_none_iff.mp hb)]
    exact (hstores _ e value rfl he hvalue).2.stored

include ho hiso hi hk hsteps hstored in
theorem Isolated.here (hk' : g.home pc' = k) (hnil : pc.hash ≠ nilHash)
    (hfew : ∀ e, t.threads.countP (Pc.readsAt g k e) + 1 < 2 ^ 31) : Isolated g (t.after k s i pc') k own' := by
  have hsector := t.after_self k s i pc'
  constructor <;> rw [hsector]
  · exact count_after hiso hi hk hsteps hk' hfew
  · exact fun e he => settled_after ho hiso hi hk hsteps hstored he
  · intro q hq hkq
    obtain ⟨j, hj⟩ := List.mem_iff_getElem?.mp hq
    obtain ⟨-, rfl⟩ | ⟨hji, hold⟩ := getElem?_set_cases hj
    · exact self_sees ho hiso hi hk hsteps hstored hnil
    · exact others_see ho hiso hi hk hsteps hstored hk' hfew hji hold hkq

end Here

theorem Isolated.frame (hiso : Isolated g t k own) (hsector : t'.sectors k = t.sectors k)
    (hstored : ∀ h v, Pc.stored h v ∈ t.threads → Pc.stored h v ∈ t'.threads)
    (hcount : ∀ e, t'.threads.countP (Pc.readsAt g k e) = t.threads.countP (Pc.readsAt g k e))
    (hnew : ∀ pc ∈ t'.threads, g.home pc = k → pc ∈ t.threads ∨ pc.Sees g (t.sectors k) own t'.threads) :
    Isolated g t' k own := by
  constructor <;> rw [hsector]
  · exact fun e => (hiso.count e).trans (hcount e).symm
  · intro e he hidle hhash
    obtain ⟨value, hstores⟩ := hiso.settled e he hidle hhash
    exact ⟨value, hstores.congr hstored rfl rfl fun _ _ => rfl⟩
  · intro pc hpc hk
    obtain hold | hsees := hnew pc hpc hk
    · have hsees := hiso.sees pc hold hk
      refine hsees.move hstored (fun h e value _ _ hstores => ⟨rfl, hstores.congr hstored rfl rfl fun _ _ => rfl⟩) ?_
      rintro h e value blocks b rfl
      exact hsees
    · exact hsees

def AllIsolated (g : Config) (t : State) : Prop :=
  (∀ pc ∈ t.threads, pc.hash ≠ nilHash) ∧
    ∀ k, (t.sectors k).disabled = false → ∃ own, InOrder g t k own ∧ Isolated g t k own

theorem toRawHash_ne_nil (g : Config) (key : GoogleString) : g.toRawHash key ≠ nilHash := by
  unfold Config.toRawHash
  dsimp only
  split_ifs with hnil
  · intro h
    have hhead := congrArg (fun h : RawHash => h.1[0]?) h
    dsimp only at hhead
    rw [List.getElem?_set_self (by rw [(g.rawHash key).2]; decide)] at hhead
    cases hhead
  · rintro h
    rw [h] at hnil
    exact hnil rfl

theorem exec_enabled {nowMs : ℤ} {gaveUp : Bool} {r : Sector × Pc} (hexec : s.exec g nowMs gaveUp pc = some r)
    (hdis : r.1.disabled = false) : s.disabled = false := by
  rw [← Bool.not_eq_true] at hdis ⊢
  exact mt (exec_disabled hexec) hdis

theorem mem_set_of_ne {α : Type*} {l : List α} {a b c : α} (ha : a ∈ l) (hi : l[i]? = some b) (hne : b ≠ a) :
    a ∈ l.set i c := by
  obtain ⟨j, hj⟩ := List.mem_iff_getElem?.mp ha
  have hij : i ≠ j := by
    rintro rfl
    exact hne (Option.some.inj (hi.symm.trans hj))
  exact List.mem_of_getElem? ((List.getElem?_set_ne hij).trans hj)

theorem step_isolated {a : Action} (h : AllIsolated g t) (hfew : FewReaders t a) (hstep : step g t a = some t') :
    AllIsolated g t' := by
  obtain ⟨hhash, hall⟩ := h
  obtain ⟨key, pc, hpc, rfl⟩ | ⟨i, nowMs, gaveUp, pc, r, -, hi, hexec, rfl⟩ | ⟨k', left, -, rfl⟩ := step_cases hstep
  · have hnew : pc.hash = g.toRawHash key ∧ pc.writing = none ∧ pc.reading = none ∧
        ∀ s own threads, pc.Sees g s own threads := by
      obtain hpc | rfl := hpc
      · cases hpc <;> exact ⟨rfl, rfl, rfl, fun _ _ _ => trivial⟩
      · exact ⟨rfl, rfl, rfl, fun _ _ _ => trivial⟩
    obtain ⟨hkey, hwriting, hreading, hsees⟩ := hnew
    constructor
    · intro q hq
      obtain hq | hq := List.mem_append.mp hq
      · exact hhash q hq
      · rw [List.mem_singleton.mp hq, hkey]
        exact toRawHash_ne_nil g key
    · intro k hdis
      obtain ⟨own, ho, hiso⟩ := hall k hdis
      refine ⟨own, ho.call hwriting, hiso.frame rfl (fun _ _ => List.mem_append_left _) (fun e => ?_) fun q hq _ => ?_⟩
      · simp [List.countP_append, Pc.readsAt, hreading]
      · refine (List.mem_append.mp hq).imp_right fun hq => ?_
        rw [List.mem_singleton.mp hq]
        exact hsees _ _ _
  · have hmem := List.mem_of_getElem? hi
    constructor
    · intro q hq
      obtain hq | rfl := List.mem_or_eq_of_mem_set hq
      · exact hhash q hq
      · rw [exec_hash hexec]
        exact hhash pc hmem
    have hhome : g.home r.2 = g.home pc := by rw [Config.home, exec_hash hexec, Config.home]
    have hstored : ∀ h v, Pc.stored h v ∈ t.threads → Pc.stored h v ∈ t.threads.set i r.2 := by
      refine fun h v hv => mem_set_of_ne hv hi ?_
      rintro rfl
      cases hexec
    intro k hdis
    by_cases hk : g.home pc = k
    · rw [hk] at hexec hdis ⊢
      rw [State.after_self] at hdis
      have hdis₀ := exec_enabled hexec hdis
      obtain ⟨own, ho, hiso⟩ := hall k hdis₀
      obtain ⟨own', hsteps⟩ := exec_steps ho.sound hdis₀ (ho.ready pc hmem hk) hexec
      exact ⟨own', ho.here hi hk hsteps, hiso.here ho hi hk hsteps hstored (hhome.trans hk) (hhash pc hmem)
        (hfew.count_lt k)⟩
    · have hsector := t.after_of_ne (Ne.symm hk) r.1 i r.2
      rw [hsector] at hdis
      obtain ⟨own, ho, hiso⟩ := hall k hdis
      refine ⟨own, ho.away (hhome ▸ hk) hk, hiso.frame hsector hstored (fun e => ?_) ?_⟩
      · have hset := countP_after hi r.2 (Pc.readsAt g k e)
        have haway : ∀ q : Pc, g.home q = g.home pc → q.readsAt g k e = false := fun q hq =>
          decide_eq_false fun h => hk (hq.symm.trans h.1)
        rwa [haway pc rfl, haway r.2 hhome] at hset
      · intro q hq hkq
        refine Or.inl ((List.mem_or_eq_of_mem_set hq).resolve_right ?_)
        rintro rfl
        exact hk (hhome.symm.trans hkq)
  · refine ⟨hhash, fun k hdis => ?_⟩
    have hk : k ≠ k' := by
      rintro rfl
      simp only [Function.update_self] at hdis
      cases hdis
    have hsector : Function.update t.sectors k' { left with disabled := true } k = t.sectors k :=
      Function.update_of_ne hk _ _
    simp only [hsector] at hdis
    obtain ⟨own, ho, hiso⟩ := hall k hdis
    refine ⟨own, ⟨?_, ?_, ho.alone, ?_⟩, hiso.frame hsector (fun _ _ => id) (fun _ => rfl) fun _ hq _ => Or.inl hq⟩ <;>
      simp only [hsector]
    · exact ho.sound
    · exact ho.ready
    · exact ho.checks

theorem new_isolated (g : Config) : AllIsolated g (State.new g) := by
  have hnone : ∀ pc, pc ∉ (State.new g).threads := fun _ => List.not_mem_nil
  refine ⟨fun pc hpc => absurd hpc (hnone pc), fun k _ => ⟨_, new_inOrder g k, ?_, ?_, ?_⟩⟩
  · intro e
    change (0#32 >>> 1).toNat = 0
    rfl
  · exact fun e _ _ hhash => absurd rfl hhash
  · exact fun pc hpc => absurd hpc (hnone pc)

theorem run_isolated {as : List Action} (hrun : run (step g) (State.new g) as = some t)
    (hfew : Meets (step g) FewReaders (State.new g) as) : AllIsolated g t :=
  run_invariant (fun _ _ _ hfew h hstep => step_isolated h hfew hstep) (new_isolated g) hfew hrun

/-- In every run with fewer than `2 ^ 31` readers at a time, what a lookup returns is the value of a completed `Put` of
the same key. -/
theorem reads_completed_puts (g : Config) (as : List Action) (t : State)
    (hrun : run (step g) (State.new g) as = some t) (hfew : Meets (step g) FewReaders (State.new g) as) {h : RawHash}
    {str : GoogleString} (hgot : .got h (some str) ∈ t.threads)
    (hdis : (t.sectors (g.extractPosition h).sector).disabled = false) : .stored h str ∈ t.threads := by
  obtain ⟨own, -, hiso⟩ := (run_isolated hrun hfew).2 _ hdis
  exact hiso.sees _ hgot rfl

def readRun : List Action :=
  [.put [1] [2, 3] 5, .get [1], .delete [1], .thread 0 5 false, .thread 0 5 false, .thread 0 5 false, .thread 1 6 false,
    .thread 1 6 false, .thread 1 6 false, .thread 1 6 false]

theorem reads_completed_puts_small : ∃ t, run (step smallConfig) (State.new smallConfig) readRun = some t ∧
    .got (smallConfig.toRawHash [1]) (some [2, 3]) ∈ t.threads ∧ .stored (smallConfig.toRawHash [1]) [2, 3] ∈ t.threads :=
  ⟨_, rfl, by decide, reads_completed_puts smallConfig readRun _ rfl (by decide +kernel) (by decide) rfl⟩

/-- While a client reads an entry, no step moves or overwrites what it reads, unless the owner of the sector's lock
dies. -/
theorem readers_undisturbed (g : Config) (as : List Action) (a : Action) (t t' : State)
    (hrun : run (step g) (State.new g) as = some t) (hfew : Meets (step g) FewReaders (State.new g) as)
    (hstep : step g t a = some t') {pc : Pc} {e : ℕ} (hpc : pc ∈ t.threads) (hreading : pc.reading = some e)
    (hdis : (t'.sectors (g.home pc)).disabled = false) :
    let before := t.sectors (g.home pc)
    let after := t'.sectors (g.home pc)
    (after.directory e).byteSize = (before.directory e).byteSize ∧
      after.blockListForEntry g e = before.blockListForEntry g e ∧
      ∀ block ∈ before.blockListForEntry g e, after.blockBytes block = before.blockBytes block := by
  have hall := run_isolated hrun hfew
  dsimp only
  obtain ⟨key, q, -, rfl⟩ | ⟨i, nowMs, gaveUp, q, r, -, hi, hexec, rfl⟩ | ⟨k, left, -, rfl⟩ := step_cases hstep
  · exact ⟨rfl, rfl, fun _ _ => rfl⟩
  · by_cases hk : g.home q = g.home pc
    · rw [hk] at hexec hdis ⊢
      rw [State.after_self] at hdis ⊢
      obtain ⟨own, ho, hiso⟩ := hall.2 _ (exec_enabled hexec hdis)
      have hq := List.mem_of_getElem? hi
      obtain ⟨own', hsteps⟩ := exec_steps ho.sound (exec_enabled hexec hdis) (ho.ready q hq hk) hexec
      have hopen := open_of_reading hiso hpc rfl hreading
      have he := (hiso.sees pc hpc rfl).reading_lt hreading
      obtain ⟨-, hsize, hown⟩ := hsteps.effect.keeps (Or.inr hopen)
      rw [ho.sound.lists.blockList he, hsteps.sound.lists.blockList he, hown]
      refine ⟨hsize, rfl, bytes_after ho hiso hi hk hsteps he ?_⟩
      rintro _ _ _ _ rfl
      exact hopen (hiso.sees _ hq hk).2.2.1
    · rw [t.after_of_ne (Ne.symm hk)]
      exact ⟨rfl, rfl, fun _ _ => rfl⟩
  · have hk : g.home pc ≠ k := by
      rintro rfl
      simp only [Function.update_self] at hdis
      cases hdis
    have hsector : Function.update t.sectors k { left with disabled := true } (g.home pc) = t.sectors (g.home pc) :=
      Function.update_of_ne hk _ _
    simp only [hsector]
    exact ⟨trivial, trivial, fun _ _ => trivial⟩

theorem readers_undisturbed_delete : ∃ t t', run (step smallConfig) (State.new smallConfig) (readRun.take 7) = some t ∧
    step smallConfig t (.thread 2 7 false) = some t' ∧
      ((t'.sectors 0).directory 1).byteSize = ((t.sectors 0).directory 1).byteSize := by
  refine ⟨_, _, rfl, rfl, ?_⟩
  exact (readers_undisturbed smallConfig (readRun.take 7) (.thread 2 7 false) _ _ rfl (by decide +kernel) rfl
    (List.mem_of_getElem? (i := 1) rfl) rfl rfl).1

/-- In every run the open count of an entry is the number of its readers, and a client that copies into an entry is alone
with it. -/
theorem copies_alone (g : Config) (as : List Action) (t : State) (hrun : run (step g) (State.new g) as = some t)
    (hfew : Meets (step g) FewReaders (State.new g) as) (k : ℕ) (hdis : (t.sectors k).disabled = false) :
    (∀ e, ((t.sectors k).directory e).openCount.toNat = t.threads.countP (Pc.readsAt g k e)) ∧
      ∀ (i j : ℕ) (p q : Pc) (h : RawHash) (e : ℕ) (value : GoogleString) (blocks : List ℕ) (b : ℕ),
        p = .putCopy h e value blocks b → t.threads[i]? = some p → t.threads[j]? = some q → g.home p = k →
          g.home q = k → i ≠ j → q.writing ≠ some e ∧ q.reading ≠ some e := by
  obtain ⟨own, ho, hiso⟩ := (run_isolated hrun hfew).2 k hdis
  refine ⟨hiso.count, ?_⟩
  rintro i j _ q h e value blocks b rfl hi hj hk hkq hij
  constructor
  · exact fun hwriting => hij (ho.alone i j _ q e hi hj hk hkq rfl hwriting)
  · intro hreading
    exact open_of_reading hiso (List.mem_of_getElem? hj) hkq hreading (hiso.sees _ (List.mem_of_getElem? hi) hk).2.2.1

theorem copies_alone_small : ∃ t, run (step smallConfig) (State.new smallConfig) (readRun.take 7) = some t ∧
    ((t.sectors 0).directory 1).openCount.toNat = t.threads.countP (Pc.readsAt smallConfig 0 1) :=
  ⟨_, rfl, (copies_alone smallConfig (readRun.take 7) _ rfl (by decide +kernel) 0 rfl).1 1⟩

end PageSpeed.SharedMem
