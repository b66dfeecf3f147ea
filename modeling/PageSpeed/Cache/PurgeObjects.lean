import PageSpeed.Cache.PurgeCover
import PageSpeed.Lib.Machine

/-!
Purge sets as objects. A cache calls the helper it was made with, and that helper
notifies the set it points to; `Swap` moves caches and exchanges those pointers,
but leaves each set its last timestamp.
-/

namespace PageSpeed

structure PurgeObject where
  set : PurgeSet
  helperSet : ℕ
  lruHelper : ℕ

structure PurgeObjects where
  object : ℕ → PurgeObject
  dcheckHeld : Bool
  oldestEvicted : Bool

namespace PurgeObjects

open PurgeSet

def new (maxSize : ℕ → ℕ) : PurgeObjects := ⟨fun i => ⟨.new (maxSize i), i, i⟩, true, true⟩

/-- The set that is notified of the evictions from the cache of set `i`. -/
def notified (o : PurgeObjects) (i : ℕ) : ℕ := (o.object (o.object i).lruHelper).helperSet

def modify (o : PurgeObjects) (i : ℕ) (f : PurgeSet → PurgeSet) : PurgeObjects :=
  { o with object := Function.update o.object i { o.object i with set := f (o.object i).set } }

/-- The state is the global timestamp of the notified set, whose last timestamp is `lastMs`. -/
def evictionHelper (lastMs : Int64) : ValueHelper Int64 (Int64 × Bool) where
  size := invalidationTimestampHelper.size
  equal := invalidationTimestampHelper.equal
  evictNotify := fun evicted state => (stdMax evicted state.1, state.2 && decide (evicted ≤ lastMs))
  shouldReplace := invalidationTimestampHelper.shouldReplace

def evictsOldest (key : GoogleString) (before after : List (GoogleString × Int64)) : Bool :=
  before.all fun e => e.1 == key || after.contains e || after.all fun f => decide (e.2 ≤ f.2)

def lruPut (o : PurgeObjects) (i : ℕ) (key : GoogleString) (timestampMs : Int64) : PurgeObjects :=
  let w := o.notified i
  let lru := (o.object i).set.lru
  let r := lru.put (evictionHelper (o.object w).set.lastInvalidationTimestampMs) key timestampMs
    ((o.object w).set.globalInvalidationTimestampMs, o.dcheckHeld)
  let o := o.modify i fun s => { s with lru := r.1 }
  let o := o.modify w fun s => { s with globalInvalidationTimestampMs := r.2.1 }
  { o with dcheckHeld := r.2.2, oldestEvicted := o.oldestEvicted && evictsOldest key lru.entries r.1.entries }

def put (o : PurgeObjects) (i : ℕ) (key : GoogleString) (timestampMs : Int64) : Option PurgeObjects :=
  (sanitizeTimestamp (o.object i).set.lastInvalidationTimestampMs timestampMs).map fun
    | .rejected => o
    | .accepted lastMs timestampMs =>
      let o := o.modify i fun s => { s with lastInvalidationTimestampMs := lastMs }
      if (o.object i).set.globalInvalidationTimestampMs < timestampMs then o.lruPut i key timestampMs else o

def updateGlobalInvalidationTimestampMs (o : PurgeObjects) (i : ℕ) (timestampMs : Int64) : Option PurgeObjects :=
  ((o.object i).set.updateGlobalInvalidationTimestampMs timestampMs).map fun r => o.modify i fun _ => r.2

def clear (o : PurgeObjects) (i : ℕ) : PurgeObjects :=
  o.modify i fun s => { s with lru := s.lru.clear, globalInvalidationTimestampMs := initialTimestampMs }

def putAll (o : PurgeObjects) (i : ℕ) : List (GoogleString × Int64) → Option PurgeObjects
  | [] => some o
  | e :: es => (o.put i e.1 e.2).bind fun o => o.putAll i es

def merge (o : PurgeObjects) (i j : ℕ) : Option PurgeObjects :=
  if i = j then none
  else
    let global := stdMax (o.object i).set.globalInvalidationTimestampMs (o.object j).set.globalInvalidationTimestampMs
    let records := mergeContext (o.object i).set (o.object j).set global
    (o.modify i fun s => ⟨global, global, s.lru.clear.clearStats⟩).putAll i records

def assign (o : PurgeObjects) (i j : ℕ) : Option PurgeObjects :=
  if i = j then some o
  else
    let maxBytes := (o.object j).set.lru.maxBytesInCache
    ((o.clear i).modify i fun s => { s with lru := { s.lru with maxBytesInCache := maxBytes } }).merge i j

def swap (o : PurgeObjects) (i j : ℕ) : PurgeObjects :=
  let x := o.object i
  let y := o.object j
  let x' : PurgeObject := { y with set := { y.set with lastInvalidationTimestampMs := x.set.lastInvalidationTimestampMs } }
  let y' : PurgeObject := { x with set := { x.set with lastInvalidationTimestampMs := y.set.lastInvalidationTimestampMs } }
  { o with object := Function.update (Function.update o.object i x') j y' }

inductive Op where
  | put (i : ℕ) (key : GoogleString) (timestampMs : Int64)
  | updateGlobal (i : ℕ) (timestampMs : Int64)
  | merge (i j : ℕ)
  | clear (i : ℕ)
  | assign (i j : ℕ)
  | swap (i j : ℕ)

def step (o : PurgeObjects) : Op → Option PurgeObjects
  | .put i key timestampMs => o.put i key timestampMs
  | .updateGlobal i timestampMs => o.updateGlobalInvalidationTimestampMs i timestampMs
  | .merge i j => o.merge i j
  | .clear i => some (o.clear i)
  | .assign i j => o.assign i j
  | .swap i j => some (o.swap i j)

structure InOrder (s : PurgeSet) : Prop where
  sorted : s.lru.entries.Pairwise fun a b => a.2 ≤ b.2
  recent : ∀ e ∈ s.lru.entries, e.2 ≤ s.lastInvalidationTimestampMs

structure SafeSwap (o : PurgeObjects) (i j : ℕ) : Prop where
  left : ∀ e ∈ (o.object j).set.lru.entries, e.2 ≤ (o.object i).set.lastInvalidationTimestampMs
  right : ∀ e ∈ (o.object i).set.lru.entries, e.2 ≤ (o.object j).set.lastInvalidationTimestampMs
  leftHelper : (o.object i).lruHelper = i ∨ (o.object i).lruHelper = j
  rightHelper : (o.object j).lruHelper = i ∨ (o.object j).lruHelper = j

def Safe (o : PurgeObjects) (op : Op) : Prop := ∀ i j, op = .swap i j → i = j ∨ SafeSwap o i j

structure Sound (o : PurgeObjects) : Prop where
  wellFormed : ∀ i, (o.object i).set.lru.WellFormed helper
  inOrder : ∀ i, InOrder (o.object i).set
  injective : ∀ i j, (o.object i).lruHelper = (o.object j).lruHelper → i = j
  own : ∀ i, o.notified i = i
  dcheck : o.dcheckHeld = true
  oldest : o.oldestEvicted = true

theorem modify_self (o : PurgeObjects) (i : ℕ) (f : PurgeSet → PurgeSet) :
    (o.modify i f).object i = { o.object i with set := f (o.object i).set } := Function.update_self _ _ _

theorem modify_of_ne (o : PurgeObjects) {i j : ℕ} (h : j ≠ i) (f : PurgeSet → PurgeSet) :
    (o.modify i f).object j = o.object j := Function.update_of_ne h _ _

theorem modify_pointers (o : PurgeObjects) (i : ℕ) (f : PurgeSet → PurgeSet) (j : ℕ) :
    ((o.modify i f).object j).lruHelper = (o.object j).lruHelper ∧
      ((o.modify i f).object j).helperSet = (o.object j).helperSet := by
  by_cases h : j = i
  · subst h
    rw [modify_self]
    exact ⟨rfl, rfl⟩
  · rw [modify_of_ne o h]
    exact ⟨rfl, rfl⟩

theorem modify_notified (o : PurgeObjects) (i : ℕ) (f : PurgeSet → PurgeSet) (j : ℕ) :
    (o.modify i f).notified j = o.notified j := by
  unfold notified
  rw [(modify_pointers o i f j).1, (modify_pointers o i f _).2]

variable {o o' : PurgeObjects} {i j : ℕ}

theorem Sound.modify (hs : Sound o) {f : PurgeSet → PurgeSet} (hw : (f (o.object i).set).lru.WellFormed helper)
    (ho : InOrder (f (o.object i).set)) : Sound (o.modify i f) := by
  refine ⟨fun j => ?_, fun j => ?_, fun j k h => ?_, fun j => ?_, hs.dcheck, hs.oldest⟩
  · by_cases h : j = i
    · subst h
      rw [modify_self]
      exact hw
    · rw [modify_of_ne o h]
      exact hs.wellFormed j
  · by_cases h : j = i
    · subst h
      rw [modify_self]
      exact ho
    · rw [modify_of_ne o h]
      exact hs.inOrder j
  · rw [(modify_pointers o i f j).1, (modify_pointers o i f k).1] at h
    exact hs.injective j k h
  · rw [modify_notified]
    exact hs.own j

theorem notifyAll_dcheck (lastMs : Int64) (es : List (GoogleString × Int64)) (state : Int64 × Bool) :
    (LRUCacheBase.notifyAll (evictionHelper lastMs) state es).2 = (state.2 && es.all fun e => decide (e.2 ≤ lastMs)) := by
  induction es generalizing state with
  | nil => simp [LRUCacheBase.notifyAll]
  | cons e es ih =>
    have hstep : LRUCacheBase.notifyAll (evictionHelper lastMs) state (e :: es) =
        LRUCacheBase.notifyAll (evictionHelper lastMs) (stdMax e.2 state.1, state.2 && decide (e.2 ≤ lastMs)) es := rfl
    rw [hstep, ih, List.all_cons, Bool.and_assoc]

variable {key : GoogleString}

theorem put_records {maxBytes : ℕ} {t : Int64} {records : List (GoogleString × Int64)}
    (hsorted : records.Pairwise fun a b => a.2 ≤ b.2) (hrecent : ∀ e ∈ records, e.2 ≤ t)
    {out : List (GoogleString × Int64) × List (GoogleString × Int64)}
    (hout : out = Records.put (LRUCacheBase.pairSize helper) maxBytes helper.shouldReplace helper.equal key t records) :
    (out.1.Pairwise fun a b => a.2 ≤ b.2) ∧ (∀ e ∈ out.1, e.2 ≤ t) ∧ (∀ e ∈ out.2, e.2 ≤ t) ∧
      evictsOldest key records out.1 = true := by
  obtain ⟨old, -, -, hput⟩ | ⟨-, hput⟩ := put_cases (LRUCacheBase.pairSize helper) maxBytes key t records
  · rw [hout, hput]
    refine ⟨hsorted, hrecent, nofun, ?_⟩
    unfold evictsOldest
    rw [List.all_eq_true]
    intro e he
    simp [he]
  · rw [hout, hput]
    have hsub : ∀ e ∈ Records.remove key records, e ∈ records := fun e he => List.mem_of_mem_filter he
    have hsorted' : (Records.remove key records).Pairwise fun a b => a.2 ≤ b.2 :=
      hsorted.sublist List.filter_sublist
    refine ⟨insert_sorted hsorted' fun e he => hrecent e (hsub e he), ?_, ?_, ?_⟩
    · intro e he
      obtain he | ⟨rfl, -⟩ := insert_mem he
      · exact hrecent e (hsub e he)
      · exact Int64.le_refl t
    · intro e he
      unfold Records.insert at he
      split_ifs at he
      · refine hrecent e (hsub e ?_)
        rw [← Records.dropped_append_kept (LRUCacheBase.pairSize helper)
          (maxBytes - LRUCacheBase.pairSize helper (key, t)) (Records.remove key records)]
        exact List.mem_append_left _ he
      · cases he
    · unfold evictsOldest
      rw [List.all_eq_true]
      intro e he
      by_cases hk : e.1 = key
      · simp [hk]
      · have hmem : e ∈ Records.remove key records := List.mem_filter.mpr ⟨he, by simpa using hk⟩
        unfold Records.insert
        split_ifs
        · have hsplit := Records.dropped_append_kept (LRUCacheBase.pairSize helper)
            (maxBytes - LRUCacheBase.pairSize helper (key, t)) (Records.remove key records)
          rw [← hsplit] at hmem hsorted'
          obtain hd | hkept := List.mem_append.mp hmem
          · -- The record is evicted, so it comes before all that stay.
            have hall : ∀ f ∈ Records.kept (LRUCacheBase.pairSize helper)
                (maxBytes - LRUCacheBase.pairSize helper (key, t)) (Records.remove key records) ++ [(key, t)],
                e.2 ≤ f.2 := by
              intro f hf
              obtain hf | hf := List.mem_append.mp hf
              · exact (List.pairwise_append.mp hsorted').2.2 e hd f hf
              · rw [List.mem_singleton.mp hf]
                exact hrecent e he
            simp only [Bool.or_eq_true, List.all_eq_true, decide_eq_true_eq]
            exact Or.inr hall
          · simp only [Bool.or_eq_true, List.contains_iff_mem]
            exact Or.inl (Or.inr (List.mem_append_left _ hkept))
        · simp only [Bool.or_eq_true, List.contains_iff_mem]
          exact Or.inl (Or.inr hmem)

theorem lruPut_sound (hs : Sound o) {t : Int64}
    (hlast : (o.object i).set.lastInvalidationTimestampMs = t) : Sound (o.lruPut i key t) := by
  obtain ⟨s, hset⟩ : ∃ s, s = (o.object i).set := ⟨_, rfl⟩
  have hw := hs.wellFormed i
  have ho := hs.inOrder i
  rw [← hset] at hw ho hlast
  have hw' : s.lru.WellFormed (evictionHelper t) := ⟨hw.keys, hw.cells, hw.fresh, hw.mapped, hw.bytes⟩
  have hp := LRUCacheBase.put_spec hw' key t (s.globalInvalidationTimestampMs, true)
  obtain ⟨r, hr⟩ : ∃ r, r = s.lru.put (evictionHelper t) key t (s.globalInvalidationTimestampMs, true) := ⟨_, rfl⟩
  rw [← hr] at hp
  obtain ⟨out, hout⟩ : ∃ out, out = Records.put (LRUCacheBase.pairSize helper) s.lru.maxBytesInCache
      helper.shouldReplace helper.equal key t s.lru.entries := ⟨_, rfl⟩
  have hentries : r.1.entries = out.1 := hp.entries.trans (congrArg Prod.fst hout.symm)
  have hnotified : r.2 = LRUCacheBase.notifyAll (evictionHelper t) (s.globalInvalidationTimestampMs, true) out.2 := by
    rw [hout]
    exact hp.notified
  obtain ⟨hsorted, hrecent, hdropped, holdest⟩ := put_records ho.sorted (hlast ▸ ho.recent) hout
  rw [← hentries] at hsorted hrecent holdest
  have hdcheck : r.2.2 = true := by
    rw [hnotified, notifyAll_dcheck, Bool.true_and, List.all_eq_true]
    exact fun e he => decide_eq_true (hdropped e he)
  have hf : Sound (o.modify i fun s => ⟨r.2.1, s.lastInvalidationTimestampMs, r.1⟩) := by
    refine hs.modify ?_ ⟨hsorted, ?_⟩
    · exact ⟨hp.wellFormed.keys, hp.wellFormed.cells, hp.wellFormed.fresh, hp.wellFormed.mapped, hp.wellFormed.bytes⟩
    · change ∀ e ∈ r.1.entries, e.2 ≤ (o.object i).set.lastInvalidationTimestampMs
      rw [← hset, hlast]
      exact hrecent
  have heq : o.lruPut i key t = { o.modify i (fun s => ⟨r.2.1, s.lastInvalidationTimestampMs, r.1⟩) with
      dcheckHeld := true, oldestEvicted := true } := by
    unfold lruPut
    simp only [hs.own i, ← hset, hlast, hs.dcheck, ← hr, hdcheck]
    congr 1
    · unfold PurgeObjects.modify
      simp only [Function.update_self, Function.update_idem]
    · change (o.oldestEvicted && evictsOldest key s.lru.entries r.1.entries) = true
      rw [hs.oldest, holdest]
      rfl
  rw [heq]
  exact ⟨hf.wellFormed, hf.inOrder, hf.injective, hf.own, rfl, rfl⟩

theorem put_sound (hs : Sound o) {timestampMs : Int64} (h : o.put i key timestampMs = some o') : Sound o' := by
  obtain ⟨r, hr, he⟩ := Option.map_eq_some_iff.mp h
  cases r with
  | rejected =>
    cases he
    exact hs
  | accepted l v =>
    obtain ⟨rfl, hl, -⟩ := sanitize_accepted hr
    have hs' : Sound (o.modify i fun s => { s with lastInvalidationTimestampMs := l }) := by
      refine hs.modify (hs.wellFormed i) ⟨(hs.inOrder i).sorted, fun e he => ?_⟩
      exact Int64.le_trans ((hs.inOrder i).recent e he) hl
    simp only at he
    split_ifs at he
    · cases he
      refine lruPut_sound hs' ?_
      rw [modify_self]
    · cases he
      exact hs'

theorem putAll_sound (es : List (GoogleString × Int64)) (hs : Sound o) (h : o.putAll i es = some o') : Sound o' := by
  induction es generalizing o with
  | nil =>
    cases h
    exact hs
  | cons e es ih =>
    obtain ⟨o₁, hput, hrest⟩ := Option.bind_eq_some_iff.mp h
    exact ih (put_sound hs hput) hrest

theorem merge_sound (hs : Sound o) (h : o.merge i j = some o') : Sound o' := by
  unfold merge at h
  split_ifs at h
  exact putAll_sound _ (hs.modify (LRUCacheBase.clear_wellFormed _).clearStats ⟨List.Pairwise.nil, fun _ he => absurd he List.not_mem_nil⟩) h

theorem clear_sound (hs : Sound o) : Sound (o.clear i) :=
  hs.modify (LRUCacheBase.clear_wellFormed _) ⟨List.Pairwise.nil, fun _ he => absurd he List.not_mem_nil⟩

theorem assign_sound (hs : Sound o) (h : o.assign i j = some o') : Sound o' := by
  unfold assign at h
  split_ifs at h
  · cases h
    exact hs
  · refine merge_sound ((clear_sound hs).modify ?_ ?_) h
    · have hw := (clear_sound (i := i) hs).wellFormed i
      exact ⟨hw.keys, hw.cells, hw.fresh, hw.mapped, hw.bytes⟩
    · have ho := (clear_sound (i := i) hs).inOrder i
      exact ⟨ho.sorted, ho.recent⟩

theorem updateGlobal_sound (hs : Sound o) {timestampMs : Int64}
    (h : o.updateGlobalInvalidationTimestampMs i timestampMs = some o') : Sound o' := by
  obtain ⟨⟨b, s⟩, hr, rfl⟩ := Option.map_eq_some_iff.mp h
  obtain ⟨r, hr, he⟩ := Option.map_eq_some_iff.mp hr
  cases r with
  | rejected =>
    cases he
    exact hs.modify (hs.wellFormed i) (hs.inOrder i)
  | accepted l v =>
    obtain ⟨rfl, hl, -⟩ := sanitize_accepted hr
    cases he
    refine hs.modify (hs.wellFormed i) ⟨(hs.inOrder i).sorted, fun e he => ?_⟩
    exact Int64.le_trans ((hs.inOrder i).recent e he) hl

theorem swap_object (o : PurgeObjects) (i j k : ℕ) :
    ((o.swap i j).object k).set.lru = (o.object (Equiv.swap i j k)).set.lru ∧
      ((o.swap i j).object k).lruHelper = (o.object (Equiv.swap i j k)).lruHelper ∧
      ((o.swap i j).object k).helperSet = (o.object (Equiv.swap i j k)).helperSet ∧
      ((o.swap i j).object k).set.lastInvalidationTimestampMs = (o.object k).set.lastInvalidationTimestampMs := by
  unfold swap
  by_cases hj : k = j
  · subst hj
    rw [Equiv.swap_apply_right]
    simp only [Function.update_self, and_self]
  · by_cases hi : k = i
    · subst hi
      rw [Equiv.swap_apply_left]
      simp only [Function.update_of_ne hj, Function.update_self, and_self]
    · rw [Equiv.swap_apply_of_ne_of_ne hi hj]
      simp only [Function.update_of_ne hj, Function.update_of_ne hi, and_self]

theorem swap_self (o : PurgeObjects) (i : ℕ) : o.swap i i = o := by
  unfold swap
  simp only [Function.update_eq_self]

theorem swap_notified (hs : Sound o) (hij : i ≠ j) (hsafe : SafeSwap o i j) (k : ℕ) : (o.swap i j).notified k = k := by
  -- The helpers of the two caches are those of the two sets.
  have hpair : Equiv.swap i j (o.object (Equiv.swap i j k)).lruHelper = (o.object k).lruHelper := by
    have hne : (o.object i).lruHelper ≠ (o.object j).lruHelper := fun h => hij (hs.injective i j h)
    by_cases hj : k = j
    · subst hj
      rw [Equiv.swap_apply_right]
      obtain hl | hl := hsafe.leftHelper <;> obtain hr | hr := hsafe.rightHelper
      · exact absurd (hl.trans hr.symm) hne
      · rw [hl, hr, Equiv.swap_apply_left]
      · rw [hl, hr, Equiv.swap_apply_right]
      · exact absurd (hl.trans hr.symm) hne
    · by_cases hi : k = i
      · subst hi
        rw [Equiv.swap_apply_left]
        obtain hl | hl := hsafe.leftHelper <;> obtain hr | hr := hsafe.rightHelper
        · exact absurd (hl.trans hr.symm) hne
        · rw [hl, hr, Equiv.swap_apply_right]
        · rw [hl, hr, Equiv.swap_apply_left]
        · exact absurd (hl.trans hr.symm) hne
      · rw [Equiv.swap_apply_of_ne_of_ne hi hj]
        have hki : (o.object k).lruHelper ≠ (o.object i).lruHelper := fun h => hi (hs.injective k i h)
        have hkj : (o.object k).lruHelper ≠ (o.object j).lruHelper := fun h => hj (hs.injective k j h)
        apply Equiv.swap_apply_of_ne_of_ne
        · obtain hl | hl := hsafe.leftHelper
          · exact hl ▸ hki
          · obtain hr | hr := hsafe.rightHelper
            · exact hr ▸ hkj
            · exact absurd (hl.trans hr.symm) hne
        · obtain hl | hl := hsafe.leftHelper
          · obtain hr | hr := hsafe.rightHelper
            · exact absurd (hl.trans hr.symm) hne
            · exact hr ▸ hkj
          · exact hl ▸ hki
  unfold notified
  obtain ⟨-, hhelper, -, -⟩ := swap_object o i j k
  rw [hhelper, (swap_object o i j _).2.2.1, hpair]
  exact hs.own k

theorem swap_sound (hs : Sound o) (hsafe : i = j ∨ SafeSwap o i j) : Sound (o.swap i j) := by
  by_cases hij : i = j
  · subst hij
    rw [swap_self]
    exact hs
  have hsafe := hsafe.resolve_left hij
  refine ⟨fun k => ?_, fun k => ?_, fun k l h => ?_, swap_notified hs hij hsafe, hs.dcheck, hs.oldest⟩
  · rw [(swap_object o i j k).1]
    exact hs.wellFormed _
  · obtain ⟨hlru, -, -, hlast⟩ := swap_object o i j k
    refine ⟨?_, ?_⟩
    · rw [hlru]
      exact (hs.inOrder _).sorted
    · rw [hlru, hlast]
      by_cases hj : k = j
      · subst hj
        rw [Equiv.swap_apply_right]
        exact hsafe.right
      · by_cases hi : k = i
        · subst hi
          rw [Equiv.swap_apply_left]
          exact hsafe.left
        · rw [Equiv.swap_apply_of_ne_of_ne hi hj]
          exact (hs.inOrder k).recent
  · rw [(swap_object o i j k).2.1, (swap_object o i j l).2.1] at h
    exact (Equiv.swap i j).injective (hs.injective _ _ h)

theorem step_sound {op : Op} (hsafe : Safe o op) (hs : Sound o) (h : step o op = some o') : Sound o' := by
  cases op with
  | put i key timestampMs => exact put_sound hs h
  | updateGlobal i timestampMs => exact updateGlobal_sound hs h
  | merge i j => exact merge_sound hs h
  | clear i =>
    cases h
    exact clear_sound hs
  | assign i j => exact assign_sound hs h
  | swap i j =>
    cases h
    exact swap_sound hs (hsafe i j rfl)

theorem new_sound (maxSize : ℕ → ℕ) : Sound (new maxSize) where
  wellFormed := fun i => LRUCacheBase.new_wellFormed (maxSize i)
  inOrder := fun i => ⟨(new_ordered (maxSize i)).sorted, (new_ordered (maxSize i)).recent⟩
  injective := fun _ _ h => h
  own := fun _ => rfl
  dcheck := rfl
  oldest := rfl

/-- Any sequence of the mutators on any sets keeps their records in order, as long as no `Swap` gives a set a
record newer than its last timestamp or mixes the caches of more than two sets. -/
theorem records_in_order (maxSize : ℕ → ℕ) (ops : List Op) (o : PurgeObjects)
    (hrun : Machine.run step (new maxSize) ops = some o) (hsafe : Machine.Meets step Safe (new maxSize) ops) :
    (∀ i, InOrder (o.object i).set) ∧ o.dcheckHeld = true ∧ o.oldestEvicted = true := by
  have hs := Machine.run_invariant (fun _ _ _ hsafe hs h => step_sound hsafe hs h) (new_sound maxSize) hsafe hrun
  exact ⟨hs.inOrder, hs.dcheck, hs.oldest⟩

theorem records_in_order_swapped :
    ∃ o, Machine.run step (new fun _ => 20) [.put 0 [97] 1000, .put 1 [98] 1000, .swap 0 1, .put 0 [99] 2000] = some o ∧
      ((∀ i, InOrder (o.object i).set) ∧ o.dcheckHeld = true ∧ o.oldestEvicted = true) := by
  refine ⟨_, rfl, records_in_order (fun _ => 20) [.put 0 [97] 1000, .put 1 [98] 1000, .swap 0 1, .put 0 [99] 2000]
    _ rfl ?_⟩
  refine ⟨nofun, fun o₁ h₁ => ⟨nofun, fun o₂ h₂ => ⟨?_, fun o₃ _ => ⟨nofun, fun _ _ => trivial⟩⟩⟩⟩
  obtain rfl := Option.some.inj h₁
  obtain rfl := Option.some.inj h₂
  intro i j hij
  cases hij
  exact Or.inr ⟨by decide, by decide, Or.inl rfl, Or.inr rfl⟩

/-- The swap leaves set 1 with a record of time 1000000 and the last timestamp 0, so the records of times 5 and 6
come after it and it is evicted first. -/
theorem swap_breaks_order :
    ∃ o, Machine.run step (new fun _ => 20) [.put 0 [97] 1000000, .swap 1 0, .put 1 [98] 5] = some o ∧
      ¬ InOrder (o.object 1).set ∧
      ∃ o', step o (.put 1 [99] 6) = some o' ∧ o'.dcheckHeld = false ∧ o'.oldestEvicted = false := by
  refine ⟨_, rfl, fun h => ?_, _, rfl, rfl, rfl⟩
  have hsorted := h.sorted
  revert hsorted
  decide

end PurgeObjects

end PageSpeed
