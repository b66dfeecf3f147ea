import PageSpeed.SharedMem.SharedMemLockManager

/-!
A lock is held by the object whose acquisition time stands in the first slot that
carries its hash. Objects that were stolen from have older times, so they cannot
release the locks of others.
-/

namespace PageSpeed.SharedMemLock

def carrier (slots : Bucket) (hash : UInt64) : Option ℕ := (probes hash).find? fun s => (slots s).hash = hash

variable {hash : UInt64} {slots : Bucket} {l : List ℕ} {steal : Bool} {nowMs stealTimeoutMs : ℤ}

theorem mem_probes {s : ℕ} : s ∈ probes hash ↔ s < kSlotsPerBucket := by
  have hk : kSlotsPerBucket = 32 := rfl
  simp only [probes, List.mem_map, List.mem_range]
  constructor
  · rintro ⟨offset, -, rfl⟩
    exact Nat.mod_lt _ (by decide)
  · intro hs
    rw [hk] at hs ⊢
    exact ⟨(s + 32 - hash.toNat % 32) % 32, Nat.mod_lt _ (by decide), by omega⟩

theorem carrier_some {s : ℕ} (h : carrier slots hash = some s) : s < kSlotsPerBucket ∧ (slots s).hash = hash :=
  ⟨mem_probes.mp (List.mem_of_find?_eq_some h), by simpa using List.find?_some h⟩

theorem carrier_none {s : ℕ} (h : carrier slots hash = none) (hs : s < kSlotsPerBucket) : (slots s).hash ≠ hash := by
  simpa using List.find?_eq_none.mp h s (mem_probes.mpr hs)

theorem find?_of_imp {p q : ℕ → Bool} {a : ℕ} (h : l.find? p = some a) (ha : q a = true)
    (himp : ∀ x ∈ l, q x = true → p x = true) : l.find? q = some a := by
  induction l with
  | nil => cases h
  | cons x l ih =>
    rw [List.find?_cons] at h ⊢
    cases hp : p x with
    | true =>
      rw [hp] at h
      obtain rfl := Option.some.inj h
      rw [ha]
    | false =>
      rw [hp] at h
      have hq : q x = false := by
        rw [← Bool.not_eq_true]
        intro hq
        rw [himp x List.mem_cons_self hq] at hp
        cases hp
      rw [hq]
      exact ih h fun y hy => himp y (List.mem_cons_of_mem x hy)

theorem find?_of_unique {q : ℕ → Bool} {a : ℕ} (hmem : a ∈ l) (ha : q a = true)
    (hunique : ∀ x ∈ l, q x = true → x = a) : l.find? q = some a := by
  cases hf : l.find? q with
  | none => exact absurd ha (List.find?_eq_none.mp hf a hmem)
  | some b => rw [hunique b (List.mem_of_find?_eq_some hf) (List.find?_some hf)]

theorem search_found {e : Option ℕ} {s : ℕ}
    (h : search slots hash l e = .found s) : l.find? (fun s => (slots s).hash = hash) = some s := by
  induction l generalizing e with
  | nil => cases e <;> cases h
  | cons x l ih =>
    unfold search at h
    rw [List.find?_cons]
    split_ifs at h with hx hfree
    · cases h
      rw [decide_eq_true hx]
    · rw [decide_eq_false hx]
      exact ih h
    · rw [decide_eq_false hx]
      exact ih h

theorem search_empty {e : Option ℕ} {s : ℕ}
    (h : search slots hash l e = .empty s) : l.find? (fun s => (slots s).hash = hash) = none ∧
      (e = some s ∨ s ∈ l ∧ (slots s).acquiredAtMs = kNotAcquired) := by
  induction l generalizing e with
  | nil =>
    cases e with
    | none => cases h
    | some s' =>
      cases h
      exact ⟨rfl, Or.inl rfl⟩
  | cons x l ih =>
    unfold search at h
    rw [List.find?_cons]
    split_ifs at h with hx hfree
    · rw [decide_eq_false hx]
      obtain ⟨hnone, hs⟩ := ih h
      refine ⟨hnone, ?_⟩
      obtain hs | ⟨hmem, hacq⟩ := hs
      · cases e with
        | none =>
          cases hs
          exact Or.inr ⟨List.mem_cons_self, hfree⟩
        | some s' => exact Or.inl hs
      · exact Or.inr ⟨List.mem_cons_of_mem x hmem, hacq⟩
    · rw [decide_eq_false hx]
      obtain ⟨hnone, hs⟩ := ih h
      exact ⟨hnone, hs.imp_right fun hs => ⟨List.mem_cons_of_mem x hs.1, hs.2⟩⟩

theorem tryLockImpl_spec {s : ℕ} (h : tryLockImpl slots hash steal stealTimeoutMs nowMs = some s) :
    (carrier slots hash = some s ∧ ((slots s).acquiredAtMs = kNotAcquired ∨
      (steal = true ∧ stealTimeoutMs ≤ stamp nowMs - (slots s).acquiredAtMs))) ∨
    (carrier slots hash = none ∧ s < kSlotsPerBucket ∧ (slots s).acquiredAtMs = kNotAcquired) := by
  unfold tryLockImpl at h
  cases hsearch : search slots hash (probes hash) none with
  | found s' =>
    rw [hsearch] at h
    simp only at h
    split_ifs at h with hcond
    cases h
    exact Or.inl ⟨search_found hsearch, hcond⟩
  | empty s' =>
    rw [hsearch] at h
    cases h
    obtain ⟨hnone, hs⟩ := search_empty hsearch
    obtain hs | ⟨hmem, hacq⟩ := hs
    · cases hs
    · exact Or.inr ⟨hnone, mem_probes.mp hmem, hacq⟩
  | overflowed =>
    rw [hsearch] at h
    cases h

theorem stamp_ne (nowMs : ℤ) : stamp nowMs ≠ kNotAcquired := by
  unfold stamp kNotAcquired
  split_ifs <;> omega

theorem stamp_mono {a b : ℤ} (h : a ≤ b) : stamp a ≤ stamp b := by
  unfold stamp kNotAcquired
  split_ifs <;> omega

structure Consistent (t : State) : Prop where
  first : ∀ b s, s < kSlotsPerBucket → (t.buckets b s).acquiredAtMs ≠ kNotAcquired →
    carrier (t.buckets b) (t.buckets b s).hash = some s
  unique : ∀ b s s', s < kSlotsPerBucket → s' < kSlotsPerBucket → (t.buckets b s).hash = (t.buckets b s').hash →
    (t.buckets b s).hash ≠ 0 → s = s'
  owned : ∀ a i, t.owner a = some i → ∃ x s, t.objects[i]? = some x ∧ x.address = a ∧
    carrier (t.buckets a.bucket) a.hash = some s ∧ (t.buckets a.bucket s).acquiredAtMs = x.acquisitionTime ∧
    x.acquisitionTime ≠ kNotAcquired
  free : ∀ a, t.owner a = none → ∀ s, s < kSlotsPerBucket → (t.buckets a.bucket s).hash = a.hash →
    (t.buckets a.bucket s).acquiredAtMs = kNotAcquired
  past : ∀ (i : ℕ) x, t.objects[i]? = some x → x.acquisitionTime ≠ kNotAcquired → x.acquisitionTime ≤ stamp t.clock
  stale : ∀ (i : ℕ) x, t.objects[i]? = some x → x.acquisitionTime ≠ kNotAcquired → t.owner x.address ≠ some i →
    x.acquisitionTime < stamp t.clock ∧ ∀ (j : ℕ) y, t.owner x.address = some j → t.objects[j]? = some y →
      x.acquisitionTime < y.acquisitionTime

theorem new_consistent (clock : ℤ) : Consistent (State.new clock) where
  first := fun _ _ _ h => absurd rfl h
  unique := fun _ _ _ _ _ _ h => absurd rfl h
  owned := nofun
  free := fun _ _ _ _ _ => rfl
  past := nofun
  stale := nofun

variable {t : State} {b s : ℕ} {v : Slot}

theorem setSlot_self (t : State) (b s : ℕ) (v : Slot) : (t.setSlot b s v).buckets b s = v := by
  simp only [State.setSlot, Function.update_self]

theorem setSlot_of_ne {b' s' : ℕ} (h : ¬ (b' = b ∧ s' = s)) : (t.setSlot b s v).buckets b' s' = t.buckets b' s' := by
  unfold State.setSlot
  by_cases hb : b' = b
  · subst hb
    have hs : s' ≠ s := fun hs => h ⟨rfl, hs⟩
    simp only [Function.update_self, Function.update_of_ne hs]
  · simp only [Function.update_of_ne hb]

theorem carrier_setSlot_of_ne {b' s' : ℕ} (h : carrier (t.buckets b') hash = some s')
    (hne : ¬ (b' = b ∧ s' = s)) (hv : b' = b → v.hash ≠ hash) :
    carrier ((t.setSlot b s v).buckets b') hash = some s' := by
  refine find?_of_imp h ?_ fun x _ hx => ?_
  · rw [setSlot_of_ne hne]
    simpa using (carrier_some h).2
  · by_cases hxs : b' = b ∧ x = s
    · obtain ⟨rfl, rfl⟩ := hxs
      rw [setSlot_self] at hx
      exact absurd (of_decide_eq_true hx) (hv rfl)
    · rwa [setSlot_of_ne hxs] at hx

theorem carrier_setSlot_self (hs : s < kSlotsPerBucket)
    (h : carrier (t.buckets b) v.hash = some s ∨ carrier (t.buckets b) v.hash = none) :
    carrier ((t.setSlot b s v).buckets b) v.hash = some s := by
  have hself : decide (((t.setSlot b s v).buckets b s).hash = v.hash) = true := by
    rw [setSlot_self]
    exact decide_eq_true rfl
  obtain h | h := h
  · refine find?_of_imp h hself fun x _ hx => ?_
    by_cases hxs : x = s
    · rw [hxs]
      exact decide_eq_true (carrier_some h).2
    · rwa [setSlot_of_ne fun hne => hxs hne.2] at hx
  · refine find?_of_unique (mem_probes.mpr hs) hself fun x hx hxh => ?_
    by_contra hxs
    rw [setSlot_of_ne fun hne => hxs hne.2] at hxh
    exact carrier_none h (mem_probes.mp hx) (of_decide_eq_true hxh)

theorem Consistent.advance (hc : Consistent t) (h : t.clock ≤ nowMs) : Consistent { t with clock := nowMs } where
  first := hc.first
  unique := hc.unique
  owned := hc.owned
  free := hc.free
  past := fun i x hi hx => Int.le_trans (hc.past i x hi hx) (stamp_mono h)
  stale := by
    intro i x hi hx ho
    obtain ⟨hlt, hj⟩ := hc.stale i x hi hx ho
    exact ⟨Int.lt_of_lt_of_le hlt (stamp_mono h), hj⟩

variable {i : ℕ} {x : LockObject}

theorem Consistent.owner_of_acquired (hc : Consistent t) {a : Address} (hs : s < kSlotsPerBucket)
    (hhash : (t.buckets a.bucket s).hash = a.hash) (hacq : (t.buckets a.bucket s).acquiredAtMs ≠ kNotAcquired) :
    ∃ (j : ℕ) (y : LockObject), t.owner a = some j ∧ t.objects[j]? = some y ∧ y.address = a ∧
      (t.buckets a.bucket s).acquiredAtMs = y.acquisitionTime := by
  cases ho : t.owner a with
  | none => exact absurd (hc.free a ho s hs hhash) hacq
  | some j =>
    obtain ⟨y, s', hj, ha, hcar, hy, -⟩ := hc.owned a j ho
    have hfirst := hc.first a.bucket s hs hacq
    rw [hhash, hcar] at hfirst
    obtain rfl := Option.some.inj hfirst
    exact ⟨j, y, rfl, hj, ha, hy⟩

def Takeable (t : State) (a : Address) (s : ℕ) (nowMs : ℤ) : Prop :=
  s < kSlotsPerBucket ∧
    (carrier (t.buckets a.bucket) a.hash = some s ∨ carrier (t.buckets a.bucket) a.hash = none) ∧
    ((t.buckets a.bucket s).acquiredAtMs = kNotAcquired ∨ carrier (t.buckets a.bucket) a.hash = some s ∧
      (t.buckets a.bucket s).acquiredAtMs < stamp nowMs)

theorem doLockSlot_consistent (hc : Consistent t) (hi : t.objects[i]? = some x) (hclock : t.clock = nowMs)
    (htake : Takeable t x.address s nowMs) : Consistent (t.doLockSlot i x s nowMs) := by
  obtain ⟨hs, hcar, hold⟩ := htake
  obtain ⟨w, hw⟩ : ∃ w : Slot, w = ⟨x.address.hash, stamp nowMs⟩ := ⟨_, rfl⟩
  have hbuckets : (t.doLockSlot i x s nowMs).buckets = (t.setSlot x.address.bucket s w).buckets := by
    rw [hw]
    rfl
  have hobject : ∀ (j : ℕ) y, (t.doLockSlot i x s nowMs).objects[j]? = some y →
      (j = i ∧ y = { x with acquisitionTime := stamp nowMs }) ∨ (j ≠ i ∧ t.objects[j]? = some y) := by
    intro j y hy
    change (t.objects.set i _)[j]? = some y at hy
    by_cases hj : i = j
    · subst hj
      rw [List.getElem?_set_self', hi] at hy
      exact Or.inl ⟨rfl, (Option.some.inj hy).symm⟩
    · rw [List.getElem?_set_ne hj] at hy
      exact Or.inr ⟨Ne.symm hj, hy⟩
  have hself : (t.doLockSlot i x s nowMs).objects[i]? = some { x with acquisitionTime := stamp nowMs } := by
    change (t.objects.set i _)[i]? = _
    rw [List.getElem?_set_self', hi]
    rfl
  have howner : (t.doLockSlot i x s nowMs).owner x.address = some i := Function.update_self _ _ _
  have hother : ∀ a, a ≠ x.address → (t.doLockSlot i x s nowMs).owner a = t.owner a :=
    fun a ha => Function.update_of_ne ha _ _
  have hcar' : carrier ((t.setSlot x.address.bucket s w).buckets x.address.bucket) x.address.hash = some s := by
    have hhash : w.hash = x.address.hash := by rw [hw]
    rw [← hhash] at hcar ⊢
    exact carrier_setSlot_self hs hcar
  -- The owner of another lock keeps its slot.
  have hkeep : ∀ a s', a ≠ x.address → carrier (t.buckets a.bucket) a.hash = some s' →
      (t.buckets a.bucket s').acquiredAtMs ≠ kNotAcquired →
      ¬ (a.bucket = x.address.bucket ∧ s' = s) ∧
        carrier ((t.setSlot x.address.bucket s w).buckets a.bucket) a.hash = some s' := by
    intro a s' ha hcar₁ hacq
    have hhash : a.bucket = x.address.bucket → w.hash ≠ a.hash := by
      intro hb hh
      rw [hw] at hh
      exact ha (Address.ext hh.symm hb)
    have hne : ¬ (a.bucket = x.address.bucket ∧ s' = s) := by
      rintro ⟨hb, rfl⟩
      obtain hzero | ⟨hcarx, -⟩ := hold
      · rw [hb] at hacq
        exact hacq hzero
      · have h₁ := (carrier_some hcar₁).2
        rw [hb, (carrier_some hcarx).2] at h₁
        exact hhash hb (by rw [hw]; exact h₁)
    exact ⟨hne, carrier_setSlot_of_ne hcar₁ hne hhash⟩
  refine ⟨?_, ?_, ?_, ?_, ?_, ?_⟩
  · rw [hbuckets]
    intro b₁ s₁ hs₁ hacq
    by_cases hsame : b₁ = x.address.bucket ∧ s₁ = s
    · obtain ⟨rfl, rfl⟩ := hsame
      have hhash : w.hash = x.address.hash := by rw [hw]
      rw [setSlot_self, hhash]
      exact hcar'
    · rw [setSlot_of_ne hsame] at hacq ⊢
      have hfirst := hc.first b₁ s₁ hs₁ hacq
      refine carrier_setSlot_of_ne hfirst hsame fun hb hh => hsame ⟨hb, ?_⟩
      -- The slot was the first to carry the hash of this lock already.
      rw [hw] at hh
      rw [← hh, hb] at hfirst
      obtain hcar | hcar := hcar
      · exact Option.some.inj (hfirst.symm.trans hcar)
      · cases hfirst.symm.trans hcar
  · rw [hbuckets]
    have hnew : ∀ s', s' < kSlotsPerBucket → s' ≠ s → x.address.hash ≠ 0 →
        (t.buckets x.address.bucket s').hash ≠ x.address.hash := by
      intro s' hs' hne hzero hh
      obtain hcar | hcar := hcar
      · have hhs := (carrier_some hcar).2
        exact hne (hc.unique _ s' s hs' hs (hh.trans hhs.symm) (hh ▸ hzero))
      · exact carrier_none hcar hs' hh
    intro b₁ s₁ s₂ hs₁ hs₂ heq hzero
    by_cases h₁ : b₁ = x.address.bucket ∧ s₁ = s <;> by_cases h₂ : b₁ = x.address.bucket ∧ s₂ = s
    · exact h₁.2.trans h₂.2.symm
    · obtain ⟨rfl, rfl⟩ := h₁
      rw [setSlot_self, hw] at heq hzero
      rw [setSlot_of_ne h₂] at heq
      exact absurd heq.symm (hnew s₂ hs₂ (fun h => h₂ ⟨rfl, h⟩) hzero)
    · obtain ⟨rfl, rfl⟩ := h₂
      rw [heq, setSlot_self, hw] at hzero
      rw [setSlot_of_ne h₁, setSlot_self, hw] at heq
      exact absurd heq (hnew s₁ hs₁ (fun h => h₁ ⟨rfl, h⟩) hzero)
    · rw [setSlot_of_ne h₁, setSlot_of_ne h₂] at heq
      rw [setSlot_of_ne h₁] at hzero
      exact hc.unique b₁ s₁ s₂ hs₁ hs₂ heq hzero
  · rw [hbuckets]
    intro a j hj
    by_cases ha : a = x.address
    · subst ha
      obtain rfl := Option.some.inj (howner.symm.trans hj)
      refine ⟨_, s, hself, rfl, hcar', ?_, stamp_ne nowMs⟩
      rw [setSlot_self, hw]
    · rw [hother a ha] at hj
      obtain ⟨y, s', hy, hya, hcar₁, hacq, hne⟩ := hc.owned a j hj
      have hji : j ≠ i := by
        rintro rfl
        obtain rfl := Option.some.inj (hi.symm.trans hy)
        exact ha hya.symm
      obtain ⟨hslot, hcar₂⟩ := hkeep a s' ha hcar₁ (hacq ▸ hne)
      refine ⟨y, s', ?_, hya, hcar₂, ?_, hne⟩
      · change (t.objects.set i _)[j]? = some y
        rw [List.getElem?_set_ne hji.symm]
        exact hy
      · rw [setSlot_of_ne hslot]
        exact hacq
  · rw [hbuckets]
    intro a ho s₁ hs₁ hhash
    have ha : a ≠ x.address := by
      rintro rfl
      rw [howner] at ho
      cases ho
    rw [hother a ha] at ho
    have hsame : ¬ (a.bucket = x.address.bucket ∧ s₁ = s) := by
      rintro ⟨hb, rfl⟩
      rw [hb, setSlot_self, hw] at hhash
      exact ha (Address.ext hhash.symm hb)
    rw [setSlot_of_ne hsame] at hhash ⊢
    exact hc.free a ho s₁ hs₁ hhash
  · intro j y hy hne
    change _ ≤ stamp t.clock
    obtain ⟨-, rfl⟩ | ⟨-, hy⟩ := hobject j y hy
    · exact Int.le_of_eq (by rw [hclock])
    · exact hc.past j y hy hne
  · intro j y hy hne ho
    change _ < stamp t.clock ∧ _
    obtain ⟨rfl, rfl⟩ | ⟨hji, hy⟩ := hobject j y hy
    · exact absurd howner ho
    · by_cases ha : y.address = x.address
      · have hlt : y.acquisitionTime < stamp t.clock := by
          by_cases hoy : t.owner y.address = some j
          · -- The lock has just been stolen from this object.
            obtain ⟨y', s', hy', -, hcar₁, hacq, -⟩ := hc.owned _ j hoy
            obtain rfl := Option.some.inj (hy.symm.trans hy')
            rw [ha] at hcar₁ hacq
            obtain rfl : s' = s := by
              obtain hcar | hcar := hcar
              · exact Option.some.inj (hcar₁.symm.trans hcar)
              · cases hcar₁.symm.trans hcar
            obtain hzero | ⟨-, hlt⟩ := hold
            · exact absurd (hacq.symm.trans hzero) hne
            · rw [hclock, ← hacq]
              exact hlt
          · exact (hc.stale j y hy hne hoy).1
        refine ⟨hlt, fun k z hk hz => ?_⟩
        rw [ha, howner] at hk
        obtain rfl := Option.some.inj hk
        obtain rfl := Option.some.inj (hself.symm.trans hz)
        rw [hclock] at hlt
        exact hlt
      · rw [hother _ ha] at ho ⊢
        obtain ⟨hlt, hk⟩ := hc.stale j y hy hne ho
        refine ⟨hlt, fun k z hok hz => ?_⟩
        obtain ⟨rfl, rfl⟩ | ⟨-, hz⟩ := hobject k z hz
        · obtain ⟨x', -, hx', hxa, -⟩ := hc.owned _ k hok
          obtain rfl := Option.some.inj (hi.symm.trans hx')
          exact absurd hxa.symm ha
        · exact hk k z hok hz

theorem takeable_of_tryLockImpl (hsteal : steal = true → 1 ≤ stealTimeoutMs)
    (h : tryLockImpl (t.buckets x.address.bucket) x.address.hash steal stealTimeoutMs nowMs = some s) :
    Takeable t x.address s nowMs := by
  obtain ⟨hcar, hcond⟩ | ⟨hcar, hs, hacq⟩ := tryLockImpl_spec h
  · refine ⟨(carrier_some hcar).1, Or.inl hcar, hcond.imp_right fun ⟨hst, hle⟩ => ⟨hcar, ?_⟩⟩
    have hone := hsteal hst
    omega
  · exact ⟨hs, Or.inr hcar, Or.inl hacq⟩

theorem tryLock_consistent (hc : Consistent t) (hi : t.objects[i]? = some x)
    (hclock : t.clock ≤ nowMs) (hsteal : steal = true → 1 ≤ stealTimeoutMs) :
    Consistent (t.tryLock i x steal stealTimeoutMs nowMs).2 := by
  have hc' := hc.advance hclock
  unfold State.tryLock
  simp only
  cases htry : tryLockImpl (t.buckets x.address.bucket) x.address.hash steal stealTimeoutMs nowMs with
  | none => exact hc'
  | some s =>
    have htake : Takeable { t with clock := nowMs } x.address s nowMs := takeable_of_tryLockImpl hsteal htry
    exact doLockSlot_consistent hc' hi rfl htake

theorem unlockSlot_eq (hc : Consistent t) (hi : t.objects[i]? = some x) (hne : x.acquisitionTime ≠ kNotAcquired) :
    unlockSlot (t.buckets x.address.bucket) x.address.hash x.acquisitionTime =
      if t.owner x.address = some i then carrier (t.buckets x.address.bucket) x.address.hash else none := by
  split_ifs with ho
  · obtain ⟨x', s, hx', -, hcar, hacq, -⟩ := hc.owned _ i ho
    obtain rfl := Option.some.inj (hi.symm.trans hx')
    rw [hcar]
    refine find?_of_imp hcar ?_ fun s' _ hs' => ?_
    · simp [(carrier_some hcar).2, hacq]
    · simp only [Bool.and_eq_true] at hs'
      exact hs'.1
  · refine List.find?_eq_none.mpr fun s hs hmatch => ?_
    simp only [Bool.and_eq_true, decide_eq_true_eq] at hmatch
    obtain ⟨hhash, hacq⟩ := hmatch
    have hs := mem_probes.mp hs
    obtain ⟨j, y, hj, hy, -, hjacq⟩ := hc.owner_of_acquired hs hhash (hacq ▸ hne)
    have hlt := (hc.stale i x hi hne ho).2 j y hj hy
    omega

theorem unlock_consistent (hc : Consistent t) (hi : t.objects[i]? = some x) : Consistent (t.unlock i x) := by
  unfold State.unlock
  split_ifs with hzero
  · exact hc
  have heq := unlockSlot_eq hc hi hzero
  have hobject : ∀ (j : ℕ) y, (t.objects.set i { x with acquisitionTime := kNotAcquired })[j]? = some y →
      y.acquisitionTime ≠ kNotAcquired → j ≠ i ∧ t.objects[j]? = some y := by
    intro j y hy hne
    by_cases hj : i = j
    · subst hj
      rw [List.getElem?_set_self', hi] at hy
      obtain rfl := Option.some.inj hy
      exact absurd rfl hne
    · rw [List.getElem?_set_ne hj] at hy
      exact ⟨Ne.symm hj, hy⟩
  by_cases ho : t.owner x.address = some i
  · rw [if_pos ho] at heq
    obtain ⟨x', s, hx', -, hcar, hacq, -⟩ := hc.owned _ i ho
    obtain rfl := Option.some.inj (hi.symm.trans hx')
    obtain ⟨hs, hhash⟩ := carrier_some hcar
    rw [heq, hcar]
    simp only
    obtain ⟨w, hw⟩ : ∃ w : Slot, w = { t.buckets x.address.bucket s with acquiredAtMs := kNotAcquired } := ⟨_, rfl⟩
    rw [← hw]
    have hwh : w.hash = x.address.hash := by rw [hw, ← hhash]
    have howner : (t.setSlot x.address.bucket s w).owner x.address = some i := ho
    rw [if_pos howner]
    have hhashes : ∀ b' s', ((t.setSlot x.address.bucket s w).buckets b' s').hash = (t.buckets b' s').hash := by
      intro b' s'
      by_cases hsame : b' = x.address.bucket ∧ s' = s
      · rw [hsame.1, hsame.2, setSlot_self, hwh, hhash]
      · rw [setSlot_of_ne hsame]
    have hcarrier : ∀ b' h', carrier ((t.setSlot x.address.bucket s w).buckets b') h' = carrier (t.buckets b') h' := by
      intro b' h'
      unfold carrier
      simp only [hhashes]
    have hacquired : ∀ b' s', ((t.setSlot x.address.bucket s w).buckets b' s').acquiredAtMs = kNotAcquired ∨
        ((t.setSlot x.address.bucket s w).buckets b' s').acquiredAtMs = (t.buckets b' s').acquiredAtMs := by
      intro b' s'
      by_cases hsame : b' = x.address.bucket ∧ s' = s
      · rw [hsame.1, hsame.2, setSlot_self, hw]
        exact Or.inl rfl
      · rw [setSlot_of_ne hsame]
        exact Or.inr rfl
    have hother : ∀ a j, Function.update (t.setSlot x.address.bucket s w).owner x.address none a = some j →
        a ≠ x.address ∧ t.owner a = some j := by
      intro a j hj
      have ha : a ≠ x.address := by
        rintro rfl
        rw [Function.update_self] at hj
        cases hj
      rw [Function.update_of_ne ha] at hj
      exact ⟨ha, hj⟩
    refine ⟨fun b₁ s₁ hs₁ hne => ?_, fun b₁ s₁ s₂ hs₁ hs₂ heq hne => ?_, fun a j hj => ?_, fun a hnone s₁ hs₁ hh => ?_,
      fun j y hy hne => hc.past j y (hobject j y hy hne).2 hne, fun j y hy hne hoy => ?_⟩
    · rw [(hacquired b₁ s₁).resolve_left hne] at hne
      simp only [hcarrier, hhashes]
      exact hc.first b₁ s₁ hs₁ hne
    · simp only [hhashes] at heq hne
      exact hc.unique b₁ s₁ s₂ hs₁ hs₂ heq hne
    · obtain ⟨ha, hj⟩ := hother a j hj
      obtain ⟨y, s', hy, hya, hcar', hyacq, hne⟩ := hc.owned a j hj
      have hji : i ≠ j := by
        rintro rfl
        obtain rfl := Option.some.inj (hi.symm.trans hy)
        exact ha hya.symm
      have hsame : ¬ (a.bucket = x.address.bucket ∧ s' = s) := by
        rintro ⟨hb, rfl⟩
        have hh := (carrier_some hcar').2
        rw [hb, hhash] at hh
        exact ha (Address.ext hh.symm hb)
      refine ⟨y, s', ?_, hya, ?_, ?_, hne⟩
      · change (t.objects.set i _)[j]? = some y
        rw [List.getElem?_set_ne hji]
        exact hy
      · simp only [hcarrier]
        exact hcar'
      · simp only [setSlot_of_ne hsame]
        exact hyacq
    · simp only [hhashes] at hh
      by_cases ha : a = x.address
      · subst ha
        by_cases hsame : s₁ = s
        · simp only [hsame, setSlot_self]
          rw [hw]
        · simp only [setSlot_of_ne fun h => hsame h.2]
          by_contra hne
          have hfirst := hc.first _ s₁ hs₁ hne
          rw [hh, hcar] at hfirst
          exact hsame (Option.some.inj hfirst).symm
      · have hold : t.owner a = none := by
          rw [← hnone]
          exact (Function.update_of_ne ha _ _).symm
        obtain hz | hsame := hacquired a.bucket s₁
        · exact hz
        · exact hsame.trans (hc.free a hold s₁ hs₁ hh)
    · obtain ⟨hji, hy⟩ := hobject j y hy hne
      have hoy' : t.owner y.address ≠ some j := by
        intro hown
        by_cases ha : y.address = x.address
        · rw [ha, ho] at hown
          exact hji (Option.some.inj hown).symm
        · exact hoy ((Function.update_of_ne ha _ _).trans hown)
      obtain ⟨hlt, hk⟩ := hc.stale j y hy hne hoy'
      refine ⟨hlt, fun k z hok hz => ?_⟩
      obtain ⟨ha, hok⟩ := hother _ k hok
      obtain ⟨z', -, hz', hza, -⟩ := hc.owned _ k hok
      have hki : i ≠ k := by
        rintro rfl
        obtain rfl := Option.some.inj (hi.symm.trans hz')
        exact ha hza.symm
      change (t.objects.set i _)[k]? = some z at hz
      rw [List.getElem?_set_ne hki] at hz
      exact hk k z hok hz
  · rw [if_neg ho] at heq
    rw [heq]
    simp only [if_neg ho, Function.update_eq_self]
    refine ⟨hc.first, hc.unique, fun a j hj => ?_, hc.free, fun j y hy hne => ?_, fun j y hy hne hoy => ?_⟩
    · obtain ⟨y, s, hy, hya, hrest⟩ := hc.owned a j hj
      have hji : i ≠ j := by
        rintro rfl
        obtain rfl := Option.some.inj (hi.symm.trans hy)
        exact ho (hya ▸ hj)
      refine ⟨y, s, ?_, hya, hrest⟩
      rw [List.getElem?_set_ne hji]
      exact hy
    · exact hc.past j y (hobject j y hy hne).2 hne
    · obtain ⟨hlt, hk⟩ := hc.stale j y (hobject j y hy hne).2 hne hoy
      refine ⟨hlt, fun k z hok hz => ?_⟩
      obtain ⟨z', -, hz', hza, -⟩ := hc.owned _ k hok
      have hki : i ≠ k := by
        rintro rfl
        obtain rfl := Option.some.inj (hi.symm.trans hz')
        exact ho (hza ▸ hok)
      rw [List.getElem?_set_ne hki] at hz
      exact hk k z hok hz

theorem step_consistent {rawHash : GoogleString → GoogleString} {t' : State} {a : Action} (hok : Allowed t a)
    (hc : Consistent t) (h : step rawHash t a = some t') : Consistent t' := by
  cases a with
  | create name =>
    cases h
    have hobject : ∀ (j : ℕ) y, (t.objects ++ [⟨getHashAndBucket (rawHash name), kNotAcquired⟩])[j]? = some y →
        y.acquisitionTime ≠ kNotAcquired → t.objects[j]? = some y := by
      intro j y hy hne
      rw [List.getElem?_append] at hy
      split_ifs at hy
      · exact hy
      · rw [List.mem_singleton.mp (List.mem_of_getElem? hy)] at hne
        exact absurd rfl hne
    refine ⟨hc.first, hc.unique, fun a j hj => ?_, hc.free, fun j y hy hne => hc.past j y (hobject j y hy hne) hne,
      fun j y hy hne ho => ?_⟩
    · obtain ⟨y, s, hy, hrest⟩ := hc.owned a j hj
      refine ⟨y, s, ?_, hrest⟩
      exact List.getElem?_append_left (List.getElem?_eq_some_iff.mp hy).1 ▸ hy
    · obtain ⟨hlt, hk⟩ := hc.stale j y (hobject j y hy hne) hne ho
      refine ⟨hlt, fun k z hok hz => hk k z hok ?_⟩
      obtain ⟨z', -, hz', -⟩ := hc.owned _ k hok
      have hz'' := hz
      rw [List.getElem?_append_left (List.getElem?_eq_some_iff.mp hz').1] at hz''
      exact hz''
  | tryLock i nowMs =>
    obtain ⟨x, hi, rfl⟩ := Option.map_eq_some_iff.mp h
    exact tryLock_consistent hc hi hok nofun
  | tryLockStealOld i timeoutMs nowMs =>
    obtain ⟨x, hi, rfl⟩ := Option.map_eq_some_iff.mp h
    exact tryLock_consistent hc hi hok.1 fun _ => hok.2
  | unlock i =>
    obtain ⟨x, hi, rfl⟩ := Option.map_eq_some_iff.mp h
    exact unlock_consistent hc hi

structure Exclusive (t : State) : Prop where
  carried : ∀ b s s', s < kSlotsPerBucket → s' < kSlotsPerBucket → (t.buckets b s).hash = (t.buckets b s').hash →
    (t.buckets b s).hash ≠ 0 → s = s'
  acquired : ∀ b s s', s < kSlotsPerBucket → s' < kSlotsPerBucket → (t.buckets b s).hash = (t.buckets b s').hash →
    (t.buckets b s).acquiredAtMs ≠ kNotAcquired → (t.buckets b s').acquiredAtMs ≠ kNotAcquired → s = s'
  tryLock : ∀ (i : ℕ) x nowMs, t.objects[i]? = some x → t.clock ≤ nowMs → (t.tryLock i x false 0 nowMs).1 = true →
    t.owner x.address = none
  steal : ∀ (i j : ℕ) x y timeoutMs nowMs, t.objects[i]? = some x → t.clock ≤ nowMs → 1 ≤ timeoutMs →
    (t.tryLock i x true timeoutMs nowMs).1 = true → t.owner x.address = some j → t.objects[j]? = some y →
    y.acquisitionTime + timeoutMs ≤ stamp nowMs
  unlock : ∀ (i j : ℕ) x y, t.objects[i]? = some x → x.held = true → t.owner x.address = some j → j ≠ i →
    t.objects[j]? = some y → y.held = true ∧ (t.unlock i x).owner x.address = some j ∧
      ∃ s, s < kSlotsPerBucket ∧ (t.unlock i x).buckets x.address.bucket s = ⟨x.address.hash, y.acquisitionTime⟩

theorem tryLock_succeeds (h : (t.tryLock i x steal stealTimeoutMs nowMs).1 = true) :
    ∃ s, tryLockImpl (t.buckets x.address.bucket) x.address.hash steal stealTimeoutMs nowMs = some s := by
  unfold State.tryLock at h
  simp only at h
  cases htry : tryLockImpl (t.buckets x.address.bucket) x.address.hash steal stealTimeoutMs nowMs with
  | none =>
    rw [htry] at h
    cases h
  | some s => exact ⟨s, rfl⟩

theorem Consistent.exclusive (hc : Consistent t) : Exclusive t := by
  refine ⟨hc.unique, fun b s s' hs hs' heq hne hne' => ?_, fun i x nowMs hi _ h => ?_,
    fun i j x y timeoutMs nowMs hi _ _ h hj hy => ?_, fun i j x y hi hheld hj hji hy => ?_⟩
  · have hfirst := hc.first b s hs hne
    rw [heq, hc.first b s' hs' hne'] at hfirst
    exact (Option.some.inj hfirst).symm
  · obtain ⟨s, hs⟩ := tryLock_succeeds h
    by_contra howner
    obtain ⟨j, hj⟩ := Option.ne_none_iff_exists'.mp howner
    obtain ⟨y, s', -, -, hcar, hacq, hne⟩ := hc.owned _ j hj
    obtain ⟨hcar', hcond⟩ | ⟨hcar', -⟩ := tryLockImpl_spec hs
    · obtain rfl := Option.some.inj (hcar.symm.trans hcar')
      obtain hzero | ⟨hst, -⟩ := hcond
      · exact hne (hacq.symm.trans hzero)
      · cases hst
    · cases hcar.symm.trans hcar'
  · obtain ⟨s, hs⟩ := tryLock_succeeds h
    obtain ⟨y', s', hy', -, hcar, hacq, hne⟩ := hc.owned _ j hj
    obtain rfl := Option.some.inj (hy.symm.trans hy')
    obtain ⟨hcar', hcond⟩ | ⟨hcar', -⟩ := tryLockImpl_spec hs
    · obtain rfl := Option.some.inj (hcar.symm.trans hcar')
      obtain hzero | ⟨-, hle⟩ := hcond
      · exact absurd (hacq.symm.trans hzero) hne
      · omega
    · cases hcar.symm.trans hcar'
  · have hne : x.acquisitionTime ≠ kNotAcquired := bne_iff_ne.mp hheld
    have ho : t.owner x.address ≠ some i := by
      rw [hj]
      exact fun h => hji (Option.some.inj h)
    have heq := unlockSlot_eq hc hi hne
    rw [if_neg ho] at heq
    obtain ⟨y', s, hy', -, hcar, hacq, hyne⟩ := hc.owned _ j hj
    obtain rfl := Option.some.inj (hy.symm.trans hy')
    obtain ⟨hs, hhash⟩ := carrier_some hcar
    unfold State.unlock
    rw [if_neg hne, heq]
    simp only [if_neg ho, Function.update_eq_self]
    refine ⟨bne_iff_ne.mpr hyne, hj, s, hs, ?_⟩
    rw [← hhash, ← hacq]

/-- For any number of objects, any order of their critical sections and a clock that does not run backwards. -/
theorem mutual_exclusion (rawHash : GoogleString → GoogleString) (clock : ℤ) (as : List Action) (t : State)
    (hrun : Machine.run (step rawHash) (State.new clock) as = some t)
    (hallowed : Machine.Meets (step rawHash) Allowed (State.new clock) as) : Exclusive t := by
  have hc := Machine.run_invariant (fun _ _ _ hok hc h => step_consistent hok hc h) (new_consistent clock) hallowed hrun
  exact hc.exclusive

def paddedHash (name : GoogleString) : GoogleString := name ++ List.replicate 10 7

def stealRun : List Action :=
  [.create [1], .create [1], .tryLock 0 5, .tryLockStealOld 1 3 8, .unlock 0]

theorem mutual_exclusion_stolen :
    ∃ t, Machine.run (step paddedHash) (State.new 5) stealRun = some t ∧ Exclusive t := by
  refine ⟨_, rfl, mutual_exclusion paddedHash 5 stealRun _ rfl ?_⟩
  refine ⟨trivial, fun t₁ h₁ => ⟨trivial, fun t₂ h₂ => ⟨?_, fun t₃ h₃ => ⟨?_, fun _ _ => ⟨trivial, fun _ _ => trivial⟩⟩⟩⟩⟩
  · obtain rfl := Option.some.inj h₁
    obtain rfl := Option.some.inj h₂
    exact Int.le_refl 5
  · obtain rfl := Option.some.inj h₁
    obtain rfl := Option.some.inj h₂
    obtain rfl := Option.some.inj h₃
    exact ⟨by decide, by decide⟩

/-- The unused slots of a bucket all carry the hash 0, which a name may have; and a clock reading of 0 counts as 1,
so that a lock acquired at -5 is stolen at 0 by a client that asks for 6 ms. -/
theorem exclusion_corner_cases :
    (∃ t x, Machine.run (step fun _ => List.replicate 10 0) (State.new 5) [.create []] = some t ∧
      t.objects[0]? = some x ∧ (t.buckets x.address.bucket 0).hash = x.address.hash ∧
      (t.buckets x.address.bucket 1).hash = x.address.hash) ∧
    ∃ t x y, Machine.run (step paddedHash) (State.new (-5))
        [.create [1], .create [1], .tryLock 0 (-5)] = some t ∧
      t.objects[1]? = some x ∧ t.owner x.address = some 0 ∧ t.objects[0]? = some y ∧
      (t.tryLock 1 x true 6 0).1 = true ∧ ¬ y.acquisitionTime + 6 ≤ 0 := by
  refine ⟨⟨_, _, rfl, rfl, rfl, rfl⟩, _, _, _, rfl, rfl, ?_, rfl, ?_, ?_⟩
  · rfl
  · rfl
  · decide

end PageSpeed.SharedMemLock
