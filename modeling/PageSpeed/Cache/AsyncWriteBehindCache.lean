import PageSpeed.Cache.CacheInterface
import PageSpeed.Lib.Machine
import PageSpeed.Lib.Writes

/-!
The cache of `kernel/cache/async_write_behind_cache.cc`: a `Put` or `Delete` is
queued on one sequence and reaches the backend when a worker runs it, except
that a value the level in front would skip is written at once.
-/

namespace PageSpeed

open Writes

namespace KeyValueCodec

def keyMaxLength : ℕ := 2 ^ 16 - 1

def encode (key value : GoogleString) : Option GoogleString :=
  if key.length > keyMaxLength then none
  else some (value ++ key ++ [UInt8.ofNat key.length, UInt8.ofNat (key.length / 2 ^ 8)])

theorem encode_injective {key v w x : GoogleString} (hv : encode key v = some x) (hw : encode key w = some x) :
    v = w := by
  unfold encode at hv hw
  split_ifs at hv
  · rw [if_neg ‹_›] at hw
    have h := (Option.some.inj hv).trans (Option.some.inj hw).symm
    simp only [List.append_assoc] at h
    exact List.append_cancel_right h

end KeyValueCodec

structure AsyncWriteBehindCache where
  cache : Contents
  mustEncodeKeyInValueOnPut : Bool
  syncPutSizeThreshold : ℕ
  healthy : Bool
  workQueue : List (Write GoogleString GoogleString)
  running : Option (Write GoogleString GoogleString)
  outstanding : ℤ

namespace AsyncWriteBehindCache

def unlimited : ℕ := 2 ^ 64 - 1

def maxQueueSize : ℕ := 100000

def skipsL1 (threshold : ℕ) (key value : GoogleString) : Bool :=
  threshold != unlimited && decide (threshold ≤ key.length + value.length)

def valueToPut (mustEncode : Bool) (key value : GoogleString) : Option GoogleString :=
  if mustEncode then KeyValueCodec.encode key value else some value

def add (c : AsyncWriteBehindCache) (w : Write GoogleString GoogleString) : AsyncWriteBehindCache :=
  -- an overflow cancels the oldest write, and `CancelPut` and `CancelDelete` take back its count
  if maxQueueSize ≤ c.workQueue.length then { c with workQueue := c.workQueue.tail ++ [w] }
  else { c with workQueue := c.workQueue ++ [w], outstanding := c.outstanding + 1 }

def put (c : AsyncWriteBehindCache) (key value : GoogleString) : AsyncWriteBehindCache :=
  if c.healthy then
    match valueToPut c.mustEncodeKeyInValueOnPut key value with
    | none => c
    | some x =>
      if skipsL1 c.syncPutSizeThreshold key value then { c with cache := Write.apply ⟨key, some x⟩ c.cache }
      else c.add ⟨key, some x⟩
  else c

def delete (c : AsyncWriteBehindCache) (key : GoogleString) : AsyncWriteBehindCache :=
  if c.healthy then c.add ⟨key, none⟩ else c

/-- `DoPut` and `DoDelete`. -/
def callRun (c : AsyncWriteBehindCache) (w : Write GoogleString GoogleString) : AsyncWriteBehindCache :=
  { c with cache := if c.healthy then w.apply c.cache else c.cache
           running := none
           outstanding := c.outstanding - 1 }

inductive Action where
  | put (key value : GoogleString)
  | delete (key : GoogleString)
  | nextFunction
  | callRun
  | setHealthy (b : Bool)

def Action.key : Action → Option GoogleString
  | .put key _ => some key
  | .delete key => some key
  | _ => none

def step (c : AsyncWriteBehindCache) : Action → Option AsyncWriteBehindCache
  | .put key value => some (c.put key value)
  | .delete key => some (c.delete key)
  | .nextFunction =>
    match c.running, c.workQueue with
    | none, w :: ws => some { c with running := some w, workQueue := ws }
    | _, _ => none
  | .callRun => c.running.map c.callRun
  | .setHealthy b => some { c with healthy := b }

def pending (c : AsyncWriteBehindCache) : List (Write GoogleString GoogleString) :=
  c.running.toList ++ c.workQueue

def Calm (c : AsyncWriteBehindCache) : Action → Prop
  | .put key value => c.healthy = true ∧
      ((valueToPut c.mustEncodeKeyInValueOnPut key value).isSome →
        skipsL1 c.syncPutSizeThreshold key value = false → c.workQueue.length < maxQueueSize)
  | .delete _ => c.healthy = true ∧ c.workQueue.length < maxQueueSize
  | _ => c.healthy = true

def Produces (mustEncode : Bool) : Action → Option GoogleString → Prop
  | .put key value, entry => ∃ x, valueToPut mustEncode key value = some x ∧ entry = some x
  | .delete _, entry => entry = none
  | _, _ => True

/-- A `Put` that the codec refuses, or that is written at once while an earlier write of its key is deferred. -/
def Overtakes (c : AsyncWriteBehindCache) : Action → Prop
  | .put key value => valueToPut c.mustEncodeKeyInValueOnPut key value = none ∨
      (skipsL1 c.syncPutSizeThreshold key value = true ∧ ∃ w ∈ c.pending, w.key = key)
  | _ => False

/-- `a` comes after `pre` and is the last action on its key. -/
def LastOn (as pre : List Action) (a : Action) (key : GoogleString) : Prop :=
  ∃ post, as = pre ++ a :: post ∧ a.key = some key ∧ ∀ b ∈ post, b.key ≠ some key

inductive Effect (c d : AsyncWriteBehindCache) : Action → Prop where
  | worker {a : Action} : a.key = none → settle d.pending d.cache = settle c.pending c.cache →
      (∀ w ∈ d.pending, w ∈ c.pending) → Effect c d a
  | deferPut {key value x : GoogleString} : valueToPut c.mustEncodeKeyInValueOnPut key value = some x →
      skipsL1 c.syncPutSizeThreshold key value = false → d.cache = c.cache →
      d.pending = c.pending ++ [⟨key, some x⟩] → Effect c d (.put key value)
  | deferDelete {key : GoogleString} : d.cache = c.cache →
      d.pending = c.pending ++ [⟨key, none⟩] → Effect c d (.delete key)
  | putNow {key value x : GoogleString} : valueToPut c.mustEncodeKeyInValueOnPut key value = some x →
      skipsL1 c.syncPutSizeThreshold key value = true → d.cache = Write.apply ⟨key, some x⟩ c.cache →
      d.pending = c.pending → Effect c d (.put key value)
  | refuse {key value : GoogleString} : valueToPut c.mustEncodeKeyInValueOnPut key value = none → d = c →
      Effect c d (.put key value)

variable {c d : AsyncWriteBehindCache} {a : Action} {mustEncode : Bool} {key : GoogleString}

theorem add_pending (h : c.workQueue.length < maxQueueSize)
    (w : Write GoogleString GoogleString) : (c.add w).pending = c.pending ++ [w] ∧ (c.add w).cache = c.cache := by
  unfold add
  rw [if_neg (Nat.not_le.mpr h)]
  exact ⟨(List.append_assoc _ _ _).symm, rfl⟩

theorem step_effect (hc : Calm c a) (h : step c a = some d) : Effect c d a := by
  cases a with
  | put key value =>
    obtain ⟨hh, hroom⟩ := hc
    cases h
    unfold put
    rw [if_pos hh]
    cases hx : valueToPut c.mustEncodeKeyInValueOnPut key value with
    | none => exact .refuse hx rfl
    | some x =>
      by_cases hs : skipsL1 c.syncPutSizeThreshold key value = true
      · simp only [if_pos hs]
        exact .putNow hx hs rfl rfl
      · simp only [if_neg hs]
        rw [Bool.not_eq_true] at hs
        obtain ⟨hp, hcache⟩ := add_pending (hroom (hx ▸ rfl) hs) ⟨key, some x⟩
        exact .deferPut hx hs hcache hp
  | delete key =>
    cases h
    unfold delete
    rw [if_pos hc.1]
    obtain ⟨hp, hcache⟩ := add_pending hc.2 ⟨key, none⟩
    exact .deferDelete hcache hp
  | nextFunction =>
    unfold step at h
    cases hr : c.running <;> cases hq : c.workQueue <;> simp only [hr, hq] at h <;> cases h
    have hp : c.pending = c.workQueue := by unfold pending; rw [hr]; rfl
    refine .worker rfl ?_ ?_
    · rw [hp, hq]; rfl
    · intro w hw
      rw [hp, hq]; exact hw
  | callRun =>
    obtain ⟨w, hr, rfl⟩ := Option.map_eq_some_iff.mp h
    have hp : c.pending = w :: c.workQueue := by unfold pending; rw [hr]; rfl
    refine .worker rfl ?_ ?_
    · have hcache : (c.callRun w).cache = w.apply c.cache := if_pos hc
      rw [hp, settle_cons, hcache]
      rfl
    · intro v hv
      rw [hp]; exact List.mem_cons_of_mem w hv
  | setHealthy b =>
    cases h
    exact .worker rfl rfl fun _ hw => hw

theorem add_params (c : AsyncWriteBehindCache) (w : Write GoogleString GoogleString) :
    (c.add w).mustEncodeKeyInValueOnPut = c.mustEncodeKeyInValueOnPut ∧
      (c.add w).syncPutSizeThreshold = c.syncPutSizeThreshold := by
  unfold add
  split_ifs <;> exact ⟨rfl, rfl⟩

theorem step_params (h : step c a = some d) :
    d.mustEncodeKeyInValueOnPut = c.mustEncodeKeyInValueOnPut ∧
      d.syncPutSizeThreshold = c.syncPutSizeThreshold := by
  cases a with
  | put key value =>
    cases h
    unfold put
    by_cases hh : c.healthy = true
    · rw [if_pos hh]
      cases valueToPut c.mustEncodeKeyInValueOnPut key value with
      | none => exact ⟨rfl, rfl⟩
      | some x =>
        by_cases hs : skipsL1 c.syncPutSizeThreshold key value = true
        · simp [hs]
        · simpa only [if_neg hs] using add_params c _
    · rw [if_neg hh]
      exact ⟨rfl, rfl⟩
  | delete key =>
    cases h
    unfold delete
    split_ifs
    · exact add_params c _
    · exact ⟨rfl, rfl⟩
  | nextFunction =>
    unfold step at h
    cases hr : c.running <;> cases hq : c.workQueue <;> simp only [hr, hq] at h <;> cases h
    exact ⟨rfl, rfl⟩
  | callRun =>
    obtain ⟨w, -, rfl⟩ := Option.map_eq_some_iff.mp h
    exact ⟨rfl, rfl⟩
  | setHealthy b => cases h; exact ⟨rfl, rfl⟩

def Deferred (mustEncode : Bool) (threshold : ℕ) (c : AsyncWriteBehindCache) : Prop :=
  (c.mustEncodeKeyInValueOnPut = mustEncode ∧ c.syncPutSizeThreshold = threshold) ∧
    ∀ w ∈ c.pending, ∀ x, w.entry = some x →
      ∃ value, valueToPut mustEncode w.key value = some x ∧ skipsL1 threshold w.key value = false

theorem step_deferred {threshold : ℕ} (ha : Calm c a) (hc : Deferred mustEncode threshold c) (h : step c a = some d) :
    Deferred mustEncode threshold d := by
  obtain ⟨⟨he, hth⟩, hp⟩ := hc
  obtain ⟨he', hth'⟩ := step_params h
  refine ⟨⟨he'.trans he, hth'.trans hth⟩, ?_⟩
  cases step_effect ha h with
  | worker _ _ hsub => exact fun w hw => hp w (hsub w hw)
  | deferPut hx hs _ hd =>
    intro w hw x' hx'
    rw [hd, List.mem_append, List.mem_singleton] at hw
    obtain hw | rfl := hw
    · exact hp w hw x' hx'
    · cases hx'
      rw [he] at hx
      rw [hth] at hs
      exact ⟨_, hx, hs⟩
  | deferDelete _ hd =>
    intro w hw x' hx'
    rw [hd, List.mem_append, List.mem_singleton] at hw
    obtain hw | rfl := hw
    · exact hp w hw x' hx'
    · cases hx'
  | putNow _ _ _ hd => rw [hd]; exact hp
  | refuse _ hd => rw [hd]; exact hp

theorem step_settle_other (ha : Calm c a) (hkey : a.key ≠ some key) (h : step c a = some d) :
    settle d.pending d.cache key = settle c.pending c.cache key := by
  cases step_effect ha h with
  | worker _ hsettle _ => rw [hsettle]
  | deferPut _ _ hcache hd =>
    rw [hd, hcache, settle_append]
    exact settle_untouched (by simpa [Action.key] using hkey) _
  | deferDelete hcache hd =>
    rw [hd, hcache, settle_append]
    exact settle_untouched (by simpa [Action.key] using hkey) _
  | putNow _ _ hcache hd =>
    rw [hd, hcache]
    apply settle_congr
    exact Function.update_of_ne (fun hk => hkey (congrArg some hk.symm)) _ _
  | refuse _ hd => rw [hd]

theorem run_settle_other {as : List Action}
    (ha : Machine.Meets step Calm c as) (hkey : ∀ a ∈ as, a.key ≠ some key) (h : Machine.run step c as = some d) :
    settle d.pending d.cache key = settle c.pending c.cache key := by
  induction as generalizing c with
  | nil => cases h; rfl
  | cons a as ih =>
    obtain ⟨e, he, hr⟩ := Machine.run_cons.mp h
    rw [ih (ha.2 e he) (fun b hb => hkey b (List.mem_cons_of_mem a hb)) hr]
    exact step_settle_other ha.1 (hkey a List.mem_cons_self) he

theorem valueToPut_injective {v w x : GoogleString}
    (hv : valueToPut mustEncode key v = some x) (hw : valueToPut mustEncode key w = some x) : v = w := by
  cases mustEncode with
  | false => exact (Option.some.inj hv).trans (Option.some.inj hw).symm
  | true => exact KeyValueCodec.encode_injective hv hw

theorem step_settle_own {threshold : ℕ} (ha : Calm c a) (hc : Deferred mustEncode threshold c) (hkey : a.key = some key)
    (h : step c a = some d) : Produces mustEncode a (settle d.pending d.cache key) ↔ ¬ Overtakes c a := by
  obtain ⟨⟨rfl, rfl⟩, hp⟩ := hc
  cases step_effect ha h with
  | worker hnone => rw [hnone] at hkey; cases hkey
  | @deferPut _ value x hx hs hcache hd =>
    cases hkey
    rw [hd, settle_append]
    have hover : ¬ Overtakes c (.put key value) := by
      rintro (hnone | ⟨hskip, -⟩)
      · rw [hx] at hnone; cases hnone
      · rw [hs] at hskip; cases hskip
    exact iff_of_true ⟨_, hx, Function.update_self _ _ _⟩ hover
  | deferDelete hcache hd =>
    cases hkey
    rw [hd, settle_append]
    exact iff_of_true (Function.update_self _ _ _) id
  | @putNow _ value x hx hs hcache hd =>
    cases hkey
    rw [hd, hcache]
    by_cases hpend : ∃ w ∈ c.pending, w.key = key
    · refine iff_of_false ?_ (not_not.mpr (Or.inr ⟨hs, hpend⟩))
      rintro ⟨y, hy, hsettle⟩
      obtain ⟨w, hw, hwk, hlast⟩ := settle_last hpend
      rw [hlast] at hsettle
      obtain ⟨v, hv, hvs⟩ := hp w hw y hsettle
      rw [hwk] at hv hvs
      rw [valueToPut_injective hv hy, hs] at hvs
      cases hvs
    · refine iff_of_true ⟨x, hx, ?_⟩ ?_
      · rw [settle_untouched fun w hw hk => hpend ⟨w, hw, hk⟩]
        exact Function.update_self _ _ _
      · rintro (hnone | ⟨-, hpend'⟩)
        · rw [hx] at hnone; cases hnone
        · exact hpend hpend'
  | refuse hx hd =>
    refine iff_of_false ?_ (not_not.mpr (Or.inl hx))
    rintro ⟨y, hy, -⟩
    rw [hx] at hy
    cases hy

theorem drained_last_wins_iff {c t : AsyncWriteBehindCache} {as : List Action} (hidle : c.pending = [])
    (hcalm : Machine.Meets step Calm c as) (h : Machine.run step c as = some t) (hdrained : t.pending = []) :
    (∀ pre a key, LastOn as pre a key → Produces c.mustEncodeKeyInValueOnPut a (t.cache key)) ↔
      ∀ pre a key s, LastOn as pre a key → Machine.run step c pre = some s → ¬ Overtakes s a := by
  have hc : Deferred c.mustEncodeKeyInValueOnPut c.syncPutSizeThreshold c :=
    ⟨⟨rfl, rfl⟩, fun w hw => by rw [hidle] at hw; cases hw⟩
  have hlast : ∀ pre a key s, LastOn as pre a key → Machine.run step c pre = some s →
      (Produces c.mustEncodeKeyInValueOnPut a (t.cache key) ↔ ¬ Overtakes s a) := by
    rintro pre a key s ⟨post, rfl, hkey, hpost⟩ hs
    obtain ⟨s', hs', hrest⟩ := Machine.run_append.mp h
    obtain rfl := Option.some.inj (hs.symm.trans hs')
    obtain ⟨u, hu, ht⟩ := Machine.run_cons.mp hrest
    obtain ⟨hpre, htail⟩ := Machine.meets_append hcalm
    have hsu := htail s hs
    have hd := Machine.run_invariant (fun _ _ _ => step_deferred) hc hpre hs
    rw [← step_settle_own hsu.1 hd hkey hu, ← run_settle_other (hsu.2 u hu) hpost ht, hdrained]
    rfl
  constructor
  · intro hwins pre a key s hl hs
    exact (hlast pre a key s hl hs).mp (hwins pre a key hl)
  · intro hno pre a key hl
    obtain ⟨post, hsplit, -⟩ := id hl
    rw [hsplit] at h
    obtain ⟨s, hs, -⟩ := Machine.run_append.mp h
    exact (hlast pre a key s hl hs).mpr (hno pre a key s hl hs)

def new (mustEncode : Bool) (threshold : ℕ) : AsyncWriteBehindCache :=
  ⟨fun _ => none, mustEncode, threshold, true, [], none, 0⟩

def putThenDelete : List Action :=
  [.put [107] [97], .delete [107], .nextFunction, .callRun, .nextFunction, .callRun]

theorem drained_delete_wins : ∃ t, Machine.run step (new false 4) putThenDelete = some t ∧ t.cache [107] = none := by
  have hcalm : Machine.Meets step Calm (new false 4) putThenDelete := by
    refine Machine.meets_cons ⟨rfl, fun _ _ => by decide⟩ rfl ?_
    refine Machine.meets_cons ⟨rfl, by decide⟩ rfl ?_
    refine Machine.meets_cons rfl rfl ?_
    refine Machine.meets_cons rfl rfl ?_
    refine Machine.meets_cons rfl rfl ?_
    exact Machine.meets_cons rfl rfl trivial
  refine ⟨_, rfl, ((drained_last_wins_iff rfl hcalm rfl rfl).mpr ?_) [.put [107] [97]] (.delete [107]) [107]
    ⟨_, rfl, rfl, by simp [Action.key]⟩⟩
  rintro pre a key s ⟨post, hsplit, hkey, hpost⟩ -
  cases a with
  | put k v =>
    cases pre with
    | nil =>
      cases hsplit
      exact absurd hkey (hpost (.delete [107]) List.mem_cons_self)
    | cons first pre =>
      have hmem : Action.put k v ∈ putThenDelete.tail := by
        rw [hsplit]
        simp
      simp [putThenDelete] at hmem
  | _ => exact id

theorem sync_put_overtaken :
    ∃ t, Machine.run step (new false 4)
        [.put [107] [97], .put [107] [97, 98, 99], .nextFunction, .callRun] = some t ∧
      t.pending = [] ∧ t.outstanding = 0 ∧ t.cache [107] = some [97] :=
  ⟨_, rfl, rfl, by decide, by decide⟩

end AsyncWriteBehindCache

end PageSpeed
