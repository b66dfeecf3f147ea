import PageSpeed.Cache.PurgeMerge
import PageSpeed.Cache.PurgeObjects

/-!
Where a purge set is notified of its own evictions, or evicts nothing, the object does what
the set alone would do.
-/

namespace PageSpeed

namespace LRUCacheBase

variable {V H I : Type}

structure Similar (helper : ValueHelper V H) (helper' : ValueHelper V I) (φ : H → I) : Prop where
  size : helper.size = helper'.size
  equal : helper.equal = helper'.equal
  shouldReplace : helper.shouldReplace = helper'.shouldReplace
  evictNotify : ∀ v h, φ (helper.evictNotify v h) = helper'.evictNotify v (φ h)

variable {helper : ValueHelper V H} {helper' : ValueHelper V I} {φ : H → I}

theorem evictLoop_similar (hsim : Similar helper helper' φ) (bytesNeeded fuel : ℕ) (c : LRUCacheBase V) (h : H) :
    Prod.map id φ (evictLoop helper bytesNeeded fuel c h) = evictLoop helper' bytesNeeded fuel c (φ h) := by
  have hback : ∀ n c, evictBack helper n c = evictBack helper' n c := by
    intro n c
    unfold evictBack entrySize
    rw [hsim.size]
  induction fuel generalizing c h with
  | zero => rfl
  | succ fuel ih =>
    rw [evictLoop, evictLoop]
    split_ifs
    · cases c.lruOrderedList.getLast? with
      | none => rfl
      | some n => exact (ih _ _).trans (by rw [hback, hsim.evictNotify])
    · rfl

theorem evictIfNecessary_similar (hsim : Similar helper helper' φ) (bytesNeeded : ℕ) (c : LRUCacheBase V) (h : H) :
    evictIfNecessary helper' bytesNeeded c (φ h) =
      ((evictIfNecessary helper bytesNeeded c h).1, (evictIfNecessary helper bytesNeeded c h).2.1,
        φ (evictIfNecessary helper bytesNeeded c h).2.2) := by
  unfold evictIfNecessary
  split_ifs
  · rw [← evictLoop_similar hsim]
    rfl
  · rfl

theorem put_similar (hsim : Similar helper helper' φ) (key : GoogleString) (v : V) (c : LRUCacheBase V) (h : H) :
    Prod.map id φ (c.put helper key v h) = c.put helper' key v (φ h) := by
  have hsize : ∀ n, entrySize helper n = entrySize helper' n := fun n => by unfold entrySize; rw [hsim.size]
  unfold put
  cases (c.map.lookup key).bind c.nodeAt with
  | none =>
    simp only [← hsim.size, evictIfNecessary_similar hsim]
    obtain ⟨b, c', h'⟩ := evictIfNecessary helper (key.length + helper.size v) c h
    cases b <;> rfl
  | some n =>
    simp only [← hsim.shouldReplace, ← hsim.equal, ← hsize, ← hsim.size, evictIfNecessary_similar hsim]
    split_ifs
    · rfl
    · rfl
    · obtain ⟨b, c', h'⟩ := evictIfNecessary helper (key.length + helper.size v) _ h
      cases b <;> rfl

end LRUCacheBase

namespace PurgeObjects

open PurgeSet

variable {o o' : PurgeObjects} {i j : ℕ} {key : GoogleString} {v timestampMs : Int64}

/-- `LRUCacheBase::Put` of the timestamp evicts nothing. -/
def Evictless (s : PurgeSet) (key : GoogleString) (v : Int64) : Prop :=
  (Records.put (LRUCacheBase.pairSize helper) s.lru.maxBytesInCache helper.shouldReplace helper.equal key v
    s.lru.entries).2 = []

def AllEvictless : PurgeSet → List (GoogleString × Int64) → Prop
  | _, [] => True
  | s, e :: es => Evictless s e.1 e.2 ∧ ∀ r, s.put e.1 e.2 = some r → AllEvictless r.2 es

structure Sets (o o' : PurgeObjects) (i : ℕ) (t : PurgeSet) : Prop where
  self : o'.object i = { o.object i with set := t }
  other : ∀ j ≠ i, o'.object j = o.object j

theorem Sets.trans {o'' : PurgeObjects} {t t' : PurgeSet} (h : Sets o o' i t) (h' : Sets o' o'' i t') : Sets o o'' i t' := by
  refine ⟨?_, fun j hj => (h'.other j hj).trans (h.other j hj)⟩
  rw [h'.self, h.self]

theorem modify_sets (o : PurgeObjects) (i : ℕ) (f : PurgeSet → PurgeSet) : Sets o (o.modify i f) i (f (o.object i).set) :=
  ⟨modify_self o i f, fun _ hj => modify_of_ne o hj f⟩

theorem Sets.notified {t : PurgeSet} (h : Sets o o' i t) (j : ℕ) : o'.notified j = o.notified j := by
  have hpointers : ∀ k, (o'.object k).lruHelper = (o.object k).lruHelper ∧
      (o'.object k).helperSet = (o.object k).helperSet := by
    intro k
    by_cases hk : k = i
    · rw [hk, h.self]
      exact ⟨rfl, rfl⟩
    · rw [h.other k hk]
      exact ⟨rfl, rfl⟩
  unfold PurgeObjects.notified
  rw [(hpointers j).1, (hpointers _).2]

theorem lruPut_sets (hw : (o.object i).set.lru.WellFormed helper)
    (hquiet : o.notified i = i ∨ Evictless (o.object i).set key v) :
    Sets o (o.lruPut i key v) i
      ⟨((o.object i).set.lru.put helper key v (o.object i).set.globalInvalidationTimestampMs).2,
        (o.object i).set.lastInvalidationTimestampMs,
        ((o.object i).set.lru.put helper key v (o.object i).set.globalInvalidationTimestampMs).1⟩ := by
  obtain ⟨s, hset⟩ : ∃ s, s = (o.object i).set := ⟨_, rfl⟩
  obtain ⟨w, hnotified⟩ : ∃ w, w = o.notified i := ⟨_, rfl⟩
  obtain ⟨lastMs, hlast⟩ : ∃ l, l = (o.object w).set.lastInvalidationTimestampMs := ⟨_, rfl⟩
  have hsim : LRUCacheBase.Similar (evictionHelper lastMs) helper Prod.fst := ⟨rfl, rfl, rfl, fun _ _ => rfl⟩
  have hput := fun g => LRUCacheBase.put_similar hsim key v s.lru (g, o.dcheckHeld)
  obtain ⟨r, hr⟩ : ∃ r, r = s.lru.put (evictionHelper lastMs) key v ((o.object w).set.globalInvalidationTimestampMs,
    o.dcheckHeld) := ⟨_, rfl⟩
  have hlru : (o.lruPut i key v).object = ((o.modify i fun s => { s with lru := r.1 }).modify w fun s =>
      { s with globalInvalidationTimestampMs := r.2.1 }).object := by
    unfold lruPut
    simp only [← hnotified, ← hset, ← hlast, ← hr]
  have hr' : s.lru.put helper key v (o.object w).set.globalInvalidationTimestampMs = (r.1, r.2.1) := by
    rw [← hput, ← hr]
    rfl
  rw [← hset]
  rw [← hset] at hquiet hw
  suffices hsets : Sets o ((o.modify i fun s => { s with lru := r.1 }).modify w fun s =>
      { s with globalInvalidationTimestampMs := r.2.1 }) i
        ⟨(s.lru.put helper key v s.globalInvalidationTimestampMs).2, s.lastInvalidationTimestampMs,
          (s.lru.put helper key v s.globalInvalidationTimestampMs).1⟩ from
    ⟨(congrFun hlru i).trans hsets.self, fun j hj => (congrFun hlru j).trans (hsets.other j hj)⟩
  by_cases hi : w = i
  · rw [hi] at hr' ⊢
    rw [← hset] at hr'
    rw [hr']
    refine ⟨?_, fun j hj => ?_⟩
    · rw [modify_self, modify_self, ← hset]
    · rw [modify_of_ne _ hj, modify_of_ne _ hj]
  · have hnone := hquiet.resolve_left fun h => hi (hnotified.trans h)
    have hsame : ∀ g, (s.lru.put helper key v g).2 = g := by
      intro g
      have hp := (LRUCacheBase.put_spec hw key v g).notified
      unfold Evictless at hnone
      rw [hnone] at hp
      exact hp
    have hfirst : (s.lru.put helper key v s.globalInvalidationTimestampMs).1 = r.1 := by
      have hforget : LRUCacheBase.Similar helper (⟨helper.size, helper.equal, fun _ _ => (), helper.shouldReplace⟩ :
          ValueHelper Int64 Unit) fun _ => () := ⟨rfl, rfl, rfl, fun _ _ => rfl⟩
      have hboth := fun g => LRUCacheBase.put_similar hforget key v s.lru g
      have hfst := congrArg Prod.fst ((hboth s.globalInvalidationTimestampMs).trans
        (hboth (o.object w).set.globalInvalidationTimestampMs).symm)
      rw [hr'] at hfst
      exact hfst
    have hkeep : r.2.1 = (o.object w).set.globalInvalidationTimestampMs := by
      have h := hsame (o.object w).set.globalInvalidationTimestampMs
      rw [hr'] at h
      exact h
    rw [hfirst, hsame, hkeep]
    refine ⟨?_, fun j hj => ?_⟩
    · rw [modify_of_ne _ (Ne.symm hi), modify_self, ← hset]
    · by_cases hjw : j = w
      · rw [hjw, modify_self, modify_of_ne _ hi]
      · rw [modify_of_ne _ hjw, modify_of_ne _ hj]

theorem put_sets (hw : (o.object i).set.lru.WellFormed helper)
    (hquiet : o.notified i = i ∨
      Evictless (o.object i).set key (stdMax timestampMs (o.object i).set.lastInvalidationTimestampMs))
    (h : o.put i key timestampMs = some o') :
    ∃ r, (o.object i).set.put key timestampMs = some r ∧ Sets o o' i r.2 := by
  obtain ⟨r, hr, he⟩ := Option.map_eq_some_iff.mp h
  obtain ⟨s, hset⟩ : ∃ s, s = (o.object i).set := ⟨_, rfl⟩
  rw [← hset] at hr hquiet hw ⊢
  cases r with
  | rejected =>
    cases he
    refine ⟨(true, s), ?_, ?_, fun _ _ => rfl⟩
    · rw [PurgeSet.put, hr]
      rfl
    · rw [hset]
  | accepted l v =>
    obtain ⟨rfl, hl, hv⟩ := sanitize_accepted hr
    have hv' : stdMax timestampMs s.lastInvalidationTimestampMs = l := by
      obtain ⟨d, -, hd⟩ := Option.map_eq_some_iff.mp hr
      split_ifs at hd <;> grind [stdMax]
    rw [hv'] at hquiet
    have hput := put_eq hr key
    have hlast : Sets o (o.modify i fun s => { s with lastInvalidationTimestampMs := l }) i
        { s with lastInvalidationTimestampMs := l } := by
      rw [hset]
      exact modify_sets o i _
    simp only at he
    refine ⟨_, hput, ?_⟩
    have hobject : ((o.modify i fun s => { s with lastInvalidationTimestampMs := l }).object i).set =
        { s with lastInvalidationTimestampMs := l } := by rw [hlast.self]
    rw [hobject] at he
    split_ifs at he ⊢ with hg
    · cases he
      have hquiet' : (o.modify i fun s => { s with lastInvalidationTimestampMs := l }).notified i = i ∨
          Evictless ((o.modify i fun s => { s with lastInvalidationTimestampMs := l }).object i).set key l := by
        rw [hlast.notified, hobject]
        exact hquiet
      have hlru := lruPut_sets (by rw [hobject]; exact hw) hquiet'
      rw [hobject] at hlru
      exact hlast.trans hlru
    · cases he
      exact hlast

theorem putAll_sets (es : List (GoogleString × Int64)) {maxSize : ℕ} (hs : Ordered maxSize (o.object i).set)
    (hquiet : o.notified i = i ∨ AllEvictless (o.object i).set es)
    (hsorted : es.Pairwise fun a b => a.2 ≤ b.2)
    (hlast : ∀ e ∈ es, (o.object i).set.lastInvalidationTimestampMs ≤ e.2) (h : o.putAll i es = some o') :
    ∃ t, (o.object i).set.putAll es = some t ∧ Sets o o' i t := by
  induction es generalizing o with
  | nil =>
    cases h
    exact ⟨_, rfl, rfl, fun _ _ => rfl⟩
  | cons e es ih =>
    obtain ⟨he, hsorted⟩ := List.pairwise_cons.mp hsorted
    obtain ⟨o₁, hput, hrest⟩ := Option.bind_eq_some_iff.mp h
    have hle := hlast e List.mem_cons_self
    have hmax : stdMax e.2 (o.object i).set.lastInvalidationTimestampMs = e.2 := by grind [stdMax]
    obtain ⟨r, hr, hsets⟩ := put_sets hs.wellFormed (by
      rw [hmax]
      exact hquiet.imp_right And.left) hput
    have hinit : initialTimestampMs ≤ (o.object i).set.lastInvalidationTimestampMs := Int64.le_trans hs.initial hs.global
    obtain ⟨t, ht, ho, hlast', -, -⟩ := put_accepted hs (sanitize_of_le hinit hle) e.1
    obtain rfl := Option.some.inj (hr.symm.trans ht)
    have hset : (o₁.object i).set = t := by rw [hsets.self]
    obtain ⟨t', ht', hsets'⟩ := ih (o := o₁) (by rw [hset]; exact ho) (by
      rw [hsets.notified, hset]
      exact hquiet.imp_right fun hall => hall.2 _ hr) hsorted (fun f hf => by
      rw [hset, hlast']
      exact he f hf) hrest
    rw [hset] at ht'
    refine ⟨t', ?_, hsets.trans hsets'⟩
    rw [PurgeSet.putAll, hr]
    exact ht'

/-- The records that `Merge` puts evict nothing. -/
def MergeEvictless (s src : PurgeSet) : Prop :=
  let global := stdMax s.globalInvalidationTimestampMs src.globalInvalidationTimestampMs
  AllEvictless ⟨global, global, s.lru.clear.clearStats⟩ (mergeContext s src global)

theorem merge_sets {maxSize : ℕ} {lastMs : Int64} (hs : Ordered maxSize (o.object i).set)
    (hsrc : Ordered maxSize { (o.object j).set with lastInvalidationTimestampMs := lastMs })
    (hquiet : o.notified i = i ∨ MergeEvictless (o.object i).set (o.object j).set) (h : o.merge i j = some o') :
    ∃ t, (o.object i).set.merge (o.object j).set = some t ∧ Sets o o' i t := by
  unfold PurgeObjects.merge at h
  split_ifs at h with hij
  obtain ⟨global, hglobal⟩ : ∃ g, g = stdMax (o.object i).set.globalInvalidationTimestampMs
    (o.object j).set.globalInvalidationTimestampMs := ⟨_, rfl⟩
  have hsets := modify_sets o i fun s => ⟨global, global, s.lru.clear.clearStats⟩
  have hset : ((o.modify i fun s => ⟨global, global, s.lru.clear.clearStats⟩).object i).set =
      ⟨global, global, (o.object i).set.lru.clear.clearStats⟩ := by rw [hsets.self]
  have hempty : (o.object i).set.lru.clear.clearStats.entries = [] := rfl
  have hinit : initialTimestampMs ≤ global := Int64.le_trans hs.initial (hglobal ▸ le_stdMax_left _ _)
  have hbase : Ordered maxSize ⟨global, global, (o.object i).set.lru.clear.clearStats⟩ :=
    ⟨(LRUCacheBase.clear_wellFormed _).clearStats, hs.maxBytes, by rw [hempty]; exact List.Pairwise.nil,
      by rw [hempty]; exact nofun, by rw [hempty]; exact nofun, Int64.le_refl _, hinit⟩
  simp only [← hglobal] at h
  rw [← hset] at hbase
  obtain ⟨t, ht, hsets'⟩ := putAll_sets (mergeContext (o.object i).set (o.object j).set global) hbase (by
      rw [hset, hsets.notified, hglobal]
      exact hquiet) (mergeContext_sorted hs hsrc global) (fun e he => by
      rw [hset]
      exact Int64.le_of_lt (mem_mergeContext.mp he).2) h
  rw [hset] at ht
  refine ⟨t, ?_, hsets.trans hsets'⟩
  rw [PurgeSet.merge, ← hglobal]
  exact ht

end PurgeObjects

end PageSpeed
