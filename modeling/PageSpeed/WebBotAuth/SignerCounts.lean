import PageSpeed.WebBotAuth.CounterStore

/-!
Signers are counted exactly, whatever the order of the atomic steps: a slot is claimed for
one signer only and for good, and every finished call has been counted once, in the slot of
its signer or, when other signers hold all slots, among the other bots.
-/

namespace PageSpeed.WebBotAuthCounter



namespace CounterStats

variable {st st' : CounterStats} {c : Call} {p : Phase}

inductive Moves (st : CounterStats) (c : Call) : CounterStats → Phase → Prop where
  | bucket (hphase : c.phase = .bucket) : Moves st c (st.bucketLatency c.latencyUs) (st.scan 0)
  | own {i : ℕ} (hphase : c.phase = .load i ∨ c.phase = .claim i) (hslot : st.hashes[i]? = some c.hash) :
      Moves st c st (.count i)
  | free {i : ℕ} (hphase : c.phase = .load i) (hslot : st.hashes[i]? = some 0) : Moves st c st (.claim i)
  | taken {i : ℕ} {g : UInt64} (hphase : c.phase = .load i ∨ c.phase = .claim i) (hslot : st.hashes[i]? = some g)
      (hg : g ≠ 0) (hother : g ≠ c.hash) : Moves st c st (st.scan (i + 1))
  | claim {i : ℕ} {slot : SignerSlot} (hphase : c.phase = .claim i) (hslot : st.signers[i]? = some slot)
      (hzero : slot.kidHash = 0) :
      Moves st c { st with signers := st.signers.set i { slot with kidHash := c.hash } } (.count i)
  | count {i : ℕ} {slot : SignerSlot} (hphase : c.phase = .count i) (hslot : st.signers[i]? = some slot) :
      Moves st c { st with signers := st.signers.set i { slot with count := slot.count + 1 } } .done
  | countOther (hphase : c.phase = .countOther) :
      Moves st c { st with otherVerifiedBots := st.otherVerifiedBots + 1 } .done

theorem moves_of_record (h : st.recordVerifiedSigner c = some (st', p)) : Moves st c st' p := by
  unfold recordVerifiedSigner at h
  split at h
  next hphase =>
    cases h
    exact .bucket hphase
  next i hphase =>
    obtain ⟨slot, hslot, hp⟩ := Option.map_eq_some_iff.mp h
    have hhash : st.hashes[i]? = some slot.kidHash := by rw [hashes_getElem?, hslot]; rfl
    split_ifs at hp with hown hzero
    · cases hp
      exact .own (.inl hphase) (hown ▸ hhash)
    · cases hp
      exact .free hphase (hzero ▸ hhash)
    · cases hp
      exact .taken (.inl hphase) hhash hzero hown
  next i hphase =>
    obtain ⟨slot, hslot, hp⟩ := Option.map_eq_some_iff.mp h
    have hhash : st.hashes[i]? = some slot.kidHash := by rw [hashes_getElem?, hslot]; rfl
    split_ifs at hp with hzero hown
    · cases hp
      exact .claim hphase hslot hzero
    · cases hp
      exact .own (.inr hphase) (hown ▸ hhash)
    · cases hp
      exact .taken (.inr hphase) hhash hzero hown
  next i hphase =>
    obtain ⟨slot, hslot, hp⟩ := Option.map_eq_some_iff.mp h
    cases hp
    exact .count hphase hslot
  next hphase =>
    cases h
    exact .countOther hphase
  next => cases h

theorem bucketLatency_hashes (st : CounterStats) (latencyUs : UInt64) : (st.bucketLatency latencyUs).hashes = st.hashes := by
  unfold bucketLatency
  split_ifs <;> rfl

theorem bucketLatency_signers (st : CounterStats) (latencyUs : UInt64) : (st.bucketLatency latencyUs).signers = st.signers := by
  unfold bucketLatency
  split_ifs <;> rfl

theorem bucketLatency_other (st : CounterStats) (latencyUs : UInt64) :
    (st.bucketLatency latencyUs).otherVerifiedBots = st.otherVerifiedBots := by
  unfold bucketLatency
  split_ifs <;> rfl

theorem hashes_set (st : CounterStats) (i : ℕ) (slot : SignerSlot) :
    ({ st with signers := st.signers.set i slot } : CounterStats).hashes = st.hashes.set i slot.kidHash :=
  List.map_set

theorem set_kidHash {i : ℕ} {slot : SignerSlot} (hslot : st.signers[i]? = some slot) :
    st.hashes.set i slot.kidHash = st.hashes := by
  obtain ⟨hi, rfl⟩ := List.getElem?_eq_some_iff.mp hslot
  have hi' : i < st.hashes.length := by
    rw [hashes, List.length_map]
    exact hi
  have hget : st.hashes[i] = st.signers[i].kidHash := List.getElem_map _
  rw [← hget]
  exact List.set_getElem_self hi'

theorem Moves.hashes_cases (h : Moves st c st' p) :
    st'.hashes = st.hashes ∨
      ∃ i, c.phase = .claim i ∧ p = .count i ∧ st.hashes[i]? = some 0 ∧ st'.hashes = st.hashes.set i c.hash := by
  cases h with
  | bucket => exact .inl (bucketLatency_hashes _ _)
  | own | free | taken | countOther => exact .inl rfl
  | @claim i slot hphase hslot hzero =>
    refine .inr ⟨i, hphase, rfl, ?_, hashes_set _ _ _⟩
    rw [hashes_getElem?, hslot, ← hzero]
    rfl
  | @count i slot hphase hslot =>
    left
    rw [hashes_set]
    have heq := set_kidHash hslot
    exact heq

/-- The claimed slots of `st` are still those of the same signers. -/
def Keeps (st st' : CounterStats) : Prop := ∀ (i : ℕ) (g : UInt64), g ≠ 0 → st.hashes[i]? = some g → st'.hashes[i]? = some g

theorem Moves.keeps (h : Moves st c st' p) : st.Keeps st' := by
  intro i g hg hi
  obtain heq | ⟨j, -, -, hj, heq⟩ := h.hashes_cases
  · rw [heq]
    exact hi
  · rw [heq, List.getElem?_set_ne]
    · exact hi
    · rintro rfl
      exact hg (Option.some.inj (hi.symm.trans hj))

theorem Moves.length (h : Moves st c st' p) : st'.hashes.length = st.hashes.length := by
  obtain heq | ⟨j, -, -, -, heq⟩ := h.hashes_cases
  · rw [heq]
  · rw [heq, List.length_set]

theorem Keeps.passed {g : UInt64} {n : ℕ} (h : st.Keeps st') (hp : st.Passed g n) : st'.Passed g n := by
  intro j hj
  obtain ⟨g', hg', hne, hother⟩ := hp j hj
  exact ⟨g', h j g' hne hg', hne, hother⟩

theorem Passed.succ {g g' : UInt64} {n : ℕ} (h : st.Passed g n) (hn : st.hashes[n]? = some g') (hne : g' ≠ 0)
    (hother : g' ≠ g) : st.Passed g (n + 1) := by
  intro j hj
  obtain hj | rfl := Nat.lt_succ_iff_lt_or_eq.mp hj
  · exact h j hj
  · exact ⟨g', hn, hne, hother⟩

def Sound (st : CounterStats) (c : Call) : Prop :=
  match c.phase with
  | .bucket => True
  | .load i => st.Passed c.hash i
  | .claim i => st.Passed c.hash i
  | .count i => st.hashes[i]? = some c.hash
  | .countOther => st.Passed c.hash st.hashes.length
  | .done => c.hash ∈ st.hashes ∨ st.Passed c.hash st.hashes.length

theorem Keeps.sound (h : st.Keeps st') (hlen : st'.hashes.length = st.hashes.length) (hs : st.Sound c) : st'.Sound c := by
  unfold Sound at hs ⊢
  cases hphase : c.phase with
  | bucket => trivial
  | load i =>
    simp only [hphase] at hs
    exact h.passed hs
  | claim i =>
    simp only [hphase] at hs
    exact h.passed hs
  | count i =>
    simp only [hphase] at hs
    exact h i _ (hashWebBotAuthKeyid_ne_zero _) hs
  | countOther =>
    simp only [hphase] at hs
    rw [hlen]
    exact h.passed hs
  | done =>
    simp only [hphase] at hs
    obtain hmem | hp := hs
    · obtain ⟨i, hi⟩ := List.mem_iff_getElem?.mp hmem
      exact .inl (List.mem_of_getElem? (h i _ (hashWebBotAuthKeyid_ne_zero _) hi))
    · rw [hlen]
      exact .inr (h.passed hp)

theorem passed_of_sound {i : ℕ} (hs : st.Sound c) (hphase : c.phase = .load i ∨ c.phase = .claim i) : st.Passed c.hash i := by
  unfold Sound at hs
  obtain hphase | hphase := hphase <;> simpa only [hphase] using hs

theorem hashes_length (st : CounterStats) : st.hashes.length = st.signers.length := List.length_map _

theorem sound_scan {n : ℕ} (hp : st.Passed c.hash n) (hn : n ≤ st.hashes.length) :
    st.Sound { c with phase := st.scan n } := by
  unfold scan
  split_ifs with hlt
  · exact hp
  · have hn' : n = st.hashes.length := by
      rw [hashes_length] at hn ⊢
      omega
    subst hn'
    exact hp

theorem Moves.sound (h : Moves st c st' p) (hs : st.Sound c) : st'.Sound { c with phase := p } := by
  cases h with
  | bucket hphase =>
    have hscan : st.Sound { c with phase := st.scan 0 } := sound_scan (fun j hj => absurd hj (Nat.not_lt_zero j)) (Nat.zero_le _)
    unfold Sound Passed at hscan ⊢
    rw [bucketLatency_hashes]
    exact hscan
  | own hphase hslot => exact hslot
  | @free i hphase hslot =>
    have hp : st.Passed c.hash i := passed_of_sound hs (.inl hphase)
    exact hp
  | @taken i g hphase hslot hg hother =>
    obtain ⟨hi, -⟩ := List.getElem?_eq_some_iff.mp hslot
    exact sound_scan ((passed_of_sound hs hphase).succ hslot hg hother) hi
  | @claim i slot hphase hslot hzero =>
    change (CounterStats.hashes _)[i]? = some c.hash
    rw [hashes_set]
    apply List.getElem?_set_self
    rw [hashes_length]
    exact (List.getElem?_eq_some_iff.mp hslot).1
  | @count i slot hphase hslot =>
    left
    have hown : st.hashes[i]? = some c.hash := by simpa only [Sound, hphase] using hs
    rw [hashes_set, set_kidHash hslot]
    exact List.mem_of_getElem? hown
  | countOther hphase =>
    right
    have hp : st.Passed c.hash st.hashes.length := by simpa only [Sound, hphase] using hs
    exact hp

end CounterStats

/-- The finished calls of the signer with the hash `g`, as the counters count. -/
def credits (calls : List Call) (g : UInt64) : UInt64 :=
  Bag.total (fun c => if c.phase = .done ∧ c.hash = g then 1 else 0) calls

def recorded (calls : List Call) : UInt64 := Bag.total (fun c => if c.phase = .done then 1 else 0) calls

def CounterStats.total (st : CounterStats) : UInt64 := Bag.total SignerSlot.count st.signers + st.otherVerifiedBots

structure Counted (s : State) : Prop where
  sound : ∀ c ∈ s.calls, s.stats.Sound c
  first : ∀ (i j : ℕ) (g : UInt64), i < j → s.stats.hashes[j]? = some g → g ≠ 0 → ∃ g', s.stats.hashes[i]? = some g' ∧ g' ≠ 0
  unique : ∀ (i j : ℕ) (g : UInt64), g ≠ 0 → s.stats.hashes[i]? = some g → s.stats.hashes[j]? = some g → i = j
  own : ∀ slot ∈ s.stats.signers, slot.count = credits s.calls slot.kidHash
  all : s.stats.total = recorded s.calls

theorem credits_zero (calls : List Call) : credits calls 0 = 0 := by
  apply List.sum_eq_zero
  intro v hv
  obtain ⟨c, -, rfl⟩ := List.mem_map.mp hv
  exact if_neg fun h => hashWebBotAuthKeyid_ne_zero _ h.2

variable {s : State}

theorem Counted.credits_of_free (h : Counted s) {g : UInt64} {i : ℕ} (hfree : s.stats.hashes[i]? = some 0)
    (hp : s.stats.Passed g i) : credits s.calls g = 0 := by
  apply List.sum_eq_zero
  intro v hv
  obtain ⟨c, hc, rfl⟩ := List.mem_map.mp hv
  apply if_neg
  rintro ⟨hdone, rfl⟩
  have hs := h.sound c hc
  simp only [CounterStats.Sound, hdone] at hs
  obtain hmem | hall := hs
  · obtain ⟨j, hj⟩ := List.mem_iff_getElem?.mp hmem
    obtain hlt | rfl | hgt := Nat.lt_trichotomy j i
    · obtain ⟨g, hg, -, hother⟩ := hp j hlt
      exact hother (Option.some.inj (hg.symm.trans hj))
    · exact hashWebBotAuthKeyid_ne_zero _ (Option.some.inj (hj.symm.trans hfree))
    · obtain ⟨g, hg, hne⟩ := h.first i j _ hgt hj (hashWebBotAuthKeyid_ne_zero _)
      exact hne (Option.some.inj (hg.symm.trans hfree))
  · obtain ⟨g, hg, hne, -⟩ := hall i (List.getElem?_eq_some_iff.mp hfree).1
    exact hne (Option.some.inj (hg.symm.trans hfree))

theorem credits_append (calls : List Call) (keyid : GoogleString) (latencyUs g : UInt64) :
    credits (calls ++ [⟨keyid, latencyUs, .bucket⟩]) g = credits calls g := by
  rw [credits, Bag.total_append]
  exact add_zero _

theorem recorded_append (calls : List Call) (keyid : GoogleString) (latencyUs : UInt64) :
    recorded (calls ++ [⟨keyid, latencyUs, .bucket⟩]) = recorded calls := by
  rw [recorded, Bag.total_append]
  exact add_zero _

section Proceed

variable {calls : List Call} {i : ℕ} {c : Call} {p : Phase}

theorem credits_set_open (hc : calls[i]? = some c) (ho : c.phase ≠ .done) (hp : p ≠ .done) (g : UInt64) :
    credits (calls.set i { c with phase := p }) g = credits calls g := by
  obtain ⟨r, hr, hset⟩ := Bag.total_set hc fun c => if c.phase = .done ∧ c.hash = g then (1 : UInt64) else 0
  simp only [credits, hr, hset, ho, hp, false_and, ↓reduceIte]

theorem recorded_set_open (hc : calls[i]? = some c) (ho : c.phase ≠ .done) (hp : p ≠ .done) :
    recorded (calls.set i { c with phase := p }) = recorded calls := by
  obtain ⟨r, hr, hset⟩ := Bag.total_set hc fun c => if c.phase = .done then (1 : UInt64) else 0
  simp only [recorded, hr, hset, ho, hp, ↓reduceIte]

theorem credits_set_done (hc : calls[i]? = some c) (ho : c.phase ≠ .done) (g : UInt64) :
    credits (calls.set i { c with phase := .done }) g = credits calls g + if c.hash = g then 1 else 0 := by
  obtain ⟨r, hr, hset⟩ := Bag.total_set hc fun c => if c.phase = .done ∧ c.hash = g then (1 : UInt64) else 0
  simp only [credits, hr, hset, ho, false_and, true_and, ↓reduceIte, zero_add]
  exact add_comm _ _

theorem recorded_set_done (hc : calls[i]? = some c) (ho : c.phase ≠ .done) :
    recorded (calls.set i { c with phase := .done }) = recorded calls + 1 := by
  obtain ⟨r, hr, hset⟩ := Bag.total_set hc fun c => if c.phase = .done then (1 : UInt64) else 0
  simp only [recorded, hr, hset, ho, ↓reduceIte, zero_add]
  exact add_comm _ _

end Proceed

theorem new_counted : Counted .new := by
  have hzero : ∀ (i : ℕ) (g : UInt64), g ≠ 0 → State.new.stats.hashes[i]? ≠ some g := by
    intro i g hg hi
    have hi' : (List.replicate kMaxCountedBots (0 : UInt64))[i]? = some g := hi
    exact hg (List.eq_of_mem_replicate (List.mem_of_getElem? hi'))
  refine ⟨nofun, fun _ j g _ hj hg => absurd hj (hzero j g hg), fun i _ g hg hi => absurd hi (hzero i g hg), ?_, ?_⟩
  · intro slot hslot
    obtain rfl := List.eq_of_mem_replicate hslot
    rfl
  · rfl

theorem Counted.hashes_step (h : Counted s) {st' : CounterStats} {c : Call} {p : Phase} (hc : c ∈ s.calls)
    (hm : s.stats.Moves c st' p) :
    (∀ (i j : ℕ) (g : UInt64), i < j → st'.hashes[j]? = some g → g ≠ 0 → ∃ g', st'.hashes[i]? = some g' ∧ g' ≠ 0) ∧
    (∀ (i j : ℕ) (g : UInt64), g ≠ 0 → st'.hashes[i]? = some g → st'.hashes[j]? = some g → i = j) := by
  obtain heq | ⟨k, hphase, -, hk, heq⟩ := hm.hashes_cases
  · rw [heq]
    exact ⟨h.first, h.unique⟩
  · have hp : s.stats.Passed c.hash k := CounterStats.passed_of_sound (h.sound c hc) (.inr hphase)
    have hklt : k < s.stats.hashes.length := (List.getElem?_eq_some_iff.mp hk).1
    have hbefore : ∀ j g, s.stats.hashes[j]? = some g → g ≠ 0 → j < k := by
      intro j g hj hg
      by_contra hge
      obtain rfl | hlt := Nat.eq_or_lt_of_not_lt hge
      · exact hg (Option.some.inj (hj.symm.trans hk))
      · obtain ⟨g', hg', hne⟩ := h.first k j g hlt hj hg
        exact hne (Option.some.inj (hg'.symm.trans hk))
    have hget : ∀ j g, g ≠ 0 → st'.hashes[j]? = some g → j = k ∧ g = c.hash ∨ j < k ∧ s.stats.hashes[j]? = some g := by
      intro j g hg hj
      rw [heq] at hj
      by_cases hjk : j = k
      · subst hjk
        rw [List.getElem?_set_self hklt] at hj
        exact .inl ⟨rfl, (Option.some.inj hj).symm⟩
      · rw [List.getElem?_set_ne (Ne.symm hjk)] at hj
        exact .inr ⟨hbefore j g hj hg, hj⟩
    constructor
    · intro i j g hij hj hg
      have hik : i < k := by
        obtain ⟨rfl, -⟩ | ⟨hjk, -⟩ := hget j g hg hj <;> omega
      obtain ⟨g', hg', hne, -⟩ := hp i hik
      exact ⟨g', hm.keeps i g' hne hg', hne⟩
    · intro i j g hg hi hj
      obtain ⟨rfl, rfl⟩ | ⟨hik, hi⟩ := hget i g hg hi
      · obtain ⟨rfl, -⟩ | ⟨hjk, hj⟩ := hget j _ hg hj
        · rfl
        · obtain ⟨g', hg', -, hother⟩ := hp j hjk
          exact absurd (Option.some.inj (hg'.symm.trans hj)) hother
      · obtain ⟨rfl, rfl⟩ | ⟨hjk, hj⟩ := hget j g hg hj
        · obtain ⟨g', hg', -, hother⟩ := hp i hik
          exact absurd (Option.some.inj (hg'.symm.trans hi)) hother
        · exact h.unique i j g hg hi hj

theorem Counted.counts_step (h : Counted s) {st' : CounterStats} {i : ℕ} {c : Call} {p : Phase}
    (hc : s.calls[i]? = some c) (hm : s.stats.Moves c st' p) :
    (∀ slot ∈ st'.signers, slot.count = credits (s.calls.set i { c with phase := p }) slot.kidHash) ∧
      st'.total = recorded (s.calls.set i { c with phase := p }) := by
  have hsound := h.sound c (List.mem_of_getElem? hc)
  have hscan : ∀ n, s.stats.scan n ≠ .done := by
    intro n
    unfold CounterStats.scan
    split_ifs <;> exact nofun
  cases hm with
  | bucket hphase =>
    have hopen : c.phase ≠ .done := by rw [hphase]; exact nofun
    simp only [credits_set_open hc hopen (hscan 0), recorded_set_open hc hopen (hscan 0), CounterStats.total,
      CounterStats.bucketLatency_signers, CounterStats.bucketLatency_other]
    exact ⟨h.own, h.all⟩
  | @own k hphase hslot =>
    have hopen : c.phase ≠ .done := by obtain hphase | hphase := hphase <;> rw [hphase] <;> exact nofun
    have hp : Phase.count k ≠ .done := nofun
    rw [recorded_set_open hc hopen hp]
    simp only [credits_set_open hc hopen hp]
    exact ⟨h.own, h.all⟩
  | @free k hphase hslot =>
    have hopen : c.phase ≠ .done := by rw [hphase]; exact nofun
    have hp : Phase.claim k ≠ .done := nofun
    rw [recorded_set_open hc hopen hp]
    simp only [credits_set_open hc hopen hp]
    exact ⟨h.own, h.all⟩
  | @taken k g hphase hslot hg hother =>
    have hopen : c.phase ≠ .done := by obtain hphase | hphase := hphase <;> rw [hphase] <;> exact nofun
    rw [recorded_set_open hc hopen (hscan (k + 1))]
    simp only [credits_set_open hc hopen (hscan (k + 1))]
    exact ⟨h.own, h.all⟩
  | @claim k slot hphase hslot hzero =>
    have hopen : c.phase ≠ .done := by rw [hphase]; exact nofun
    have hfree : s.stats.hashes[k]? = some 0 := by
      rw [CounterStats.hashes_getElem?, hslot, ← hzero]
      rfl
    have hnew : credits s.calls c.hash = 0 :=
      h.credits_of_free hfree (CounterStats.passed_of_sound hsound (.inr hphase))
    have hcount : slot.count = 0 := by
      rw [h.own slot (List.mem_of_getElem? hslot), hzero]
      exact credits_zero s.calls
    have hp : Phase.count k ≠ .done := nofun
    rw [recorded_set_open hc hopen hp]
    simp only [credits_set_open hc hopen hp]
    constructor
    · intro slot' hmem
      obtain hmem | rfl := List.mem_or_eq_of_mem_set hmem
      · exact h.own slot' hmem
      · exact hcount.trans hnew.symm
    · obtain ⟨r, hr, hset⟩ := Bag.total_set hslot SignerSlot.count
      have hall := h.all
      simp only [CounterStats.total, hr] at hall
      simp only [CounterStats.total, hset]
      exact hall
  | @count k slot hphase hslot =>
    have hopen : c.phase ≠ .done := by rw [hphase]; exact nofun
    have hown : s.stats.hashes[k]? = some c.hash := by simpa only [CounterStats.Sound, hphase] using hsound
    have hhash : slot.kidHash = c.hash := by
      rw [CounterStats.hashes_getElem?, hslot] at hown
      exact Option.some.inj hown
    rw [recorded_set_done hc hopen]
    simp only [credits_set_done hc hopen]
    constructor
    · intro slot' hmem
      obtain ⟨j, hj⟩ := List.mem_iff_getElem?.mp hmem
      by_cases hjk : j = k
      · subst hjk
        rw [List.getElem?_set_self (List.getElem?_eq_some_iff.mp hslot).1] at hj
        obtain rfl := Option.some.inj hj
        have hcount := h.own slot (List.mem_of_getElem? hslot)
        simp only [hhash, ↓reduceIte] at hcount ⊢
        rw [hcount]
      · rw [List.getElem?_set_ne (Ne.symm hjk)] at hj
        have hother : c.hash ≠ slot'.kidHash := by
          intro heq
          have hj' : s.stats.hashes[j]? = some c.hash := by rw [CounterStats.hashes_getElem?, hj, heq]; rfl
          exact hjk (h.unique j k _ (hashWebBotAuthKeyid_ne_zero _) hj' hown)
        rw [if_neg hother, add_zero]
        exact h.own slot' (List.mem_of_getElem? hj)
    · obtain ⟨r, hr, hset⟩ := Bag.total_set hslot SignerSlot.count
      have hall := h.all
      simp only [CounterStats.total, hr] at hall
      simp only [CounterStats.total, hset]
      rw [← hall, add_right_comm slot.count, add_right_comm _ _ s.stats.otherVerifiedBots]
  | countOther hphase =>
    have hopen : c.phase ≠ .done := by rw [hphase]; exact nofun
    have hp : s.stats.Passed c.hash s.stats.hashes.length := by simpa only [CounterStats.Sound, hphase] using hsound
    rw [recorded_set_done hc hopen]
    simp only [credits_set_done hc hopen]
    constructor
    · intro slot hmem
      have hother : c.hash ≠ slot.kidHash := by
        intro heq
        obtain ⟨j, hj⟩ := List.mem_iff_getElem?.mp (List.mem_map_of_mem (f := SignerSlot.kidHash) hmem)
        obtain ⟨g, hg, -, hne⟩ := hp j (List.getElem?_eq_some_iff.mp hj).1
        exact hne ((Option.some.inj (hg.symm.trans hj)).trans heq.symm)
      rw [if_neg hother, add_zero]
      exact h.own slot hmem
    · rw [← h.all]
      exact (add_assoc _ _ _).symm

theorem Counted.step {t : State} {a : Action} (h : Counted s) (ht : step s a = some t) :
    Counted t ∧ s.stats.Keeps t.stats := by
  cases a with
  | record keyid latencyUs =>
    cases ht
    refine ⟨⟨fun c hc => ?_, h.first, h.unique, fun slot hslot => ?_, ?_⟩, fun _ _ _ hi => hi⟩
    · obtain hc | hc := List.mem_append.mp hc
      · exact h.sound c hc
      · obtain rfl := List.mem_singleton.mp hc
        trivial
    · rw [credits_append]
      exact h.own slot hslot
    · rw [recorded_append]
      exact h.all
  | proceed i =>
    obtain ⟨c, hc, ht⟩ := Option.bind_eq_some_iff.mp ht
    obtain ⟨⟨st', p⟩, hp, ht⟩ := Option.bind_eq_some_iff.mp ht
    cases ht
    have hm := CounterStats.moves_of_record hp
    obtain ⟨hfirst, hunique⟩ := h.hashes_step (List.mem_of_getElem? hc) hm
    obtain ⟨hown, hall⟩ := h.counts_step hc hm
    refine ⟨⟨fun c' hc' => ?_, hfirst, hunique, hown, hall⟩, hm.keeps⟩
    obtain hc' | rfl := List.mem_or_eq_of_mem_set hc'
    · exact hm.keeps.sound hm.length (h.sound c' hc')
    · exact hm.sound (h.sound c (List.mem_of_getElem? hc))

theorem Counted.run {t : State} {as : List Action} (h : Counted s) (ht : Machine.run WebBotAuthCounter.step s as = some t) :
    Counted t ∧ s.stats.Keeps t.stats := by
  induction as generalizing s with
  | nil =>
    cases ht
    exact ⟨h, fun _ _ _ hi => hi⟩
  | cons a as ih =>
    obtain ⟨u, hu, hr⟩ := Machine.run_cons.mp ht
    obtain ⟨hcounted, hkeeps⟩ := h.step hu
    obtain ⟨hcounted', hkeeps'⟩ := ih hcounted hr
    exact ⟨hcounted', fun i g hg hi => hkeeps' i g hg (hkeeps i g hg hi)⟩

def CounterStats.Distinct (st : CounterStats) : Prop :=
  ∀ (i j : ℕ) (g : UInt64), g ≠ 0 → st.hashes[i]? = some g → st.hashes[j]? = some g → i = j

def CounterStats.ClaimedFirst (st : CounterStats) : Prop :=
  ∀ (i j : ℕ) (g : UInt64), i < j → st.hashes[j]? = some g → g ≠ 0 → ∃ g', st.hashes[i]? = some g' ∧ g' ≠ 0

def State.Finished (s : State) : Prop := ∀ c ∈ s.calls, c.phase = .done

theorem total_indicator (p : Call → Bool) (calls : List Call) :
    Bag.total (fun c => if p c then (1 : UInt64) else 0) calls = UInt64.ofNat (calls.countP p) := by
  induction calls with
  | nil => rfl
  | cons c calls ih =>
    have hcons : Bag.total (fun c => if p c then (1 : UInt64) else 0) (c :: calls) =
        (if p c then 1 else 0) + Bag.total (fun c => if p c then (1 : UInt64) else 0) calls := List.sum_cons
    rw [hcons, ih, List.countP_cons, UInt64.ofNat_add, add_comm]
    split_ifs <;> rfl

theorem total_congr {φ ψ : Call → UInt64} {calls : List Call} (h : ∀ c ∈ calls, φ c = ψ c) :
    Bag.total φ calls = Bag.total ψ calls := congrArg List.sum (List.map_congr_left h)

theorem State.Finished.recorded_eq (h : s.Finished) : recorded s.calls = UInt64.ofNat s.calls.length := by
  have hall : s.calls.countP (fun _ => true) = s.calls.length := congrFun List.countP_true s.calls
  rw [← hall, ← total_indicator]
  exact total_congr fun c hc => by rw [if_pos (h c hc)]; rfl

theorem State.Finished.credits_eq (h : s.Finished) (g : UInt64) :
    credits s.calls g = UInt64.ofNat (s.calls.countP fun c => decide (c.hash = g)) := by
  rw [← total_indicator]
  apply total_congr
  intro c hc
  simp only [h c hc, true_and, decide_eq_true_eq]

theorem signer_counts_conserved {as bs : List Action} {s t : State} (hs : Machine.run step .new as = some s)
    (ht : Machine.run step s bs = some t) :
    t.stats.Distinct ∧ t.stats.ClaimedFirst ∧ s.stats.Keeps t.stats ∧ (t.Finished →
      t.stats.total = UInt64.ofNat t.calls.length ∧
      ∀ slot ∈ t.stats.signers, slot.kidHash ≠ 0 →
        slot.count = UInt64.ofNat (t.calls.countP fun c => decide (c.hash = slot.kidHash))) := by
  obtain ⟨hcounted, hkeeps⟩ := (new_counted.run hs).1.run ht
  refine ⟨hcounted.unique, hcounted.first, hkeeps, fun hfinished => ⟨?_, fun slot hslot _ => ?_⟩⟩
  · rw [hcounted.all, hfinished.recorded_eq]
  · rw [hcounted.own slot hslot, hfinished.credits_eq]

def raceRun : List Action :=
  [.record [97] 5, .record [97] 500, .proceed 0, .proceed 1, .proceed 0, .proceed 1, .proceed 1, .proceed 0]

def countRun : List Action := [.proceed 0, .proceed 1]

theorem signer_counts_conserved_race :
    ∃ s t, Machine.run step .new raceRun = some s ∧ Machine.run step s countRun = some t ∧ t.Finished ∧
      t.stats.Distinct ∧ t.stats.ClaimedFirst ∧ s.stats.Keeps t.stats ∧ t.stats.total = 2 := by
  have hrun : (Machine.run step .new (raceRun ++ countRun)).map (fun t => t.calls.map Call.phase) =
      some [.done, .done] := by decide
  obtain ⟨t, hall, hphases⟩ := Option.map_eq_some_iff.mp hrun
  obtain ⟨s, hs, ht⟩ := Machine.run_append.mp hall
  have hfinished : t.Finished := by
    intro c hc
    have hmem : c.phase ∈ t.calls.map Call.phase := List.mem_map_of_mem hc
    rw [hphases] at hmem
    simpa using hmem
  have hlen : t.calls.length = 2 := by
    have hlen := congrArg List.length hphases
    rwa [List.length_map] at hlen
  obtain ⟨hdistinct, hfirst, hkeeps, hcounts⟩ := signer_counts_conserved hs ht
  refine ⟨s, t, hs, ht, hfinished, hdistinct, hfirst, hkeeps, ?_⟩
  rw [(hcounts hfinished).1, hlen]
  rfl

end PageSpeed.WebBotAuthCounter
