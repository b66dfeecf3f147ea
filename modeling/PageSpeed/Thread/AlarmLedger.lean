import PageSpeed.Thread.Scheduler

/-!
The ledger of the alarms of a scheduler: which of them are outstanding, which were run or
cancelled, which were freed, and which some thread has yet to free.
-/

namespace PageSpeed.Scheduler

open OrderedSet

structure Ledger where
  alarm : ℕ → Alarm
  inserted : ℕ
  outstanding : List ℕ
  waiting : List ℕ
  starts : List Start
  cancels : List ℕ
  freed : List ℕ
  owned : Multiset ℕ

namespace Ledger

variable {l : Ledger} {a b : ℕ}

def key (l : Ledger) (a : ℕ) : ℤ ×ₗ ℕ := toLex ((l.alarm a).wakeupTimeUs, (l.alarm a).index)

def dispatched (l : Ledger) : List ℕ := l.starts.map Start.alarm ++ l.cancels

def flagged (l : Ledger) (a : ℕ) : Bool := (l.alarm a).inWaitDispatch

structure Sound (l : Ledger) : Prop where
  index : ∀ a, 0 < a → a ≤ l.inserted → (l.alarm a).index = a
  outstanding : ∀ a, a ∈ l.outstanding ↔ (0 < a ∧ a ≤ l.inserted) ∧ a ∉ l.dispatched
  ordered : Ordered l.key l.outstanding
  waiting : ∀ a ∈ l.waiting, a ∈ l.outstanding ∧ l.flagged a = false ∧ (l.alarm a).kind ≠ .function
  waitingOrdered : Ordered l.key l.waiting
  nodup : l.dispatched.Nodup
  known : ∀ a, a ∈ l.dispatched ∨ l.flagged a = true → 0 < a ∧ a ≤ l.inserted
  flagged : ∀ a, l.flagged a = true → (l.alarm a).kind ≠ .function
  once : ∀ a, a ∈ l.dispatched ∨ l.flagged a = true → l.owned.count a + l.freed.count a = 1
  never : ∀ a, ¬ (a ∈ l.dispatched ∨ l.flagged a = true) → l.owned.count a + l.freed.count a = 0
  freed : ∀ a ∈ l.freed, a ∈ l.dispatched

structure Timely (l : Ledger) : Prop where
  onTime : ∀ x ∈ l.starts, (l.alarm x.alarm).wakeupTimeUs ≤ x.nowUs
  inserted : ∀ x ∈ l.starts, x.inserted ≤ l.inserted
  first : ∀ x ∈ l.starts, ∀ b ∈ l.outstanding, b ≤ x.inserted → l.key x.alarm < l.key b
  order : l.starts.Pairwise fun x y => l.key x.alarm < l.key y.alarm ∨ x.inserted < y.alarm

theorem Sound.key_injOn (h : Sound l) (ha : 0 < a ∧ a ≤ l.inserted) (hb : 0 < b ∧ b ≤ l.inserted)
    (heq : l.key a = l.key b) : a = b := by
  have hindex : (l.alarm a).index = (l.alarm b).index := (Prod.ext_iff.mp (toLex_inj.mp heq)).2
  rw [h.index a ha.1 ha.2, h.index b hb.1 hb.2] at hindex
  exact hindex

theorem Sound.known_of_outstanding (h : Sound l) (ha : a ∈ l.outstanding) : 0 < a ∧ a ≤ l.inserted :=
  ((h.outstanding a).mp ha).1

theorem Sound.mem_erase {m : List ℕ} (h : Sound l) (hm : ∀ b ∈ m, b ∈ l.outstanding) (ha : 0 < a ∧ a ≤ l.inserted) :
    b ∈ erase l.key a m ↔ b ∈ m ∧ b ≠ a := by
  unfold erase
  rw [List.mem_filter, decide_eq_true_iff]
  refine and_congr_right fun hb => not_congr ⟨h.key_injOn (h.known_of_outstanding (hm b hb)) ha, ?_⟩
  rintro rfl
  rfl

structure Dispatch (l t : Ledger) (a : ℕ) : Prop where
  alarm : t.alarm = l.alarm
  inserted : t.inserted = l.inserted
  mem : a ∈ l.outstanding
  outstanding : ∀ b, b ∈ t.outstanding ↔ b ∈ l.outstanding ∧ b ≠ a
  outstandingSublist : t.outstanding.Sublist l.outstanding
  waiting : a ∉ t.waiting
  waitingSublist : t.waiting.Sublist l.waiting
  dispatched : t.dispatched.Perm (a :: l.dispatched)
  owned : t.owned + (t.freed : Multiset ℕ) =
    if l.flagged a then l.owned + (l.freed : Multiset ℕ) else a ::ₘ (l.owned + (l.freed : Multiset ℕ))
  freed : ∀ b ∈ t.freed, b = a ∨ b ∈ l.freed

theorem count_owned (l : Ledger) (b : ℕ) :
    (l.owned + (l.freed : Multiset ℕ)).count b = l.owned.count b + l.freed.count b := by
  rw [Multiset.count_add, Multiset.coe_count]

variable {t : Ledger}

theorem Dispatch.count (h : Sound l) (hd : Dispatch l t a) (b : ℕ) :
    t.owned.count b + t.freed.count b = if b = a then 1 else l.owned.count b + l.freed.count b := by
  have hnew := ((h.outstanding a).mp hd.mem).2
  rw [← count_owned, hd.owned]
  cases hflag : l.flagged a with
  | true =>
    rw [if_pos rfl, count_owned]
    split_ifs with hba
    · rw [hba]
      exact h.once a (Or.inr hflag)
    · rfl
  | false =>
    rw [if_neg Bool.false_ne_true, Multiset.count_cons, count_owned]
    split_ifs with hba
    · rw [hba, h.never a (not_or.mpr ⟨hnew, by rw [hflag]; exact Bool.false_ne_true⟩)]
    · rfl

theorem Sound.dispatch (h : Sound l) (hd : Dispatch l t a) : Sound t := by
  obtain ⟨hknown, hnew⟩ := (h.outstanding a).mp hd.mem
  have hkey : t.key = l.key := by
    unfold key
    rw [hd.alarm]
  have hflagged : t.flagged = l.flagged := by
    unfold Ledger.flagged
    rw [hd.alarm]
  have hmem : ∀ b, b ∈ t.dispatched ↔ b = a ∨ b ∈ l.dispatched := fun b =>
    hd.dispatched.mem_iff.trans List.mem_cons
  refine ⟨fun b => ?_, fun b => ?_, ?_, fun b hb => ?_, ?_, ?_, fun b hb => ?_, fun b hb => ?_,
    fun b hb => ?_, fun b hb => ?_, fun b hb => ?_⟩
  · rw [hd.alarm, hd.inserted]
    exact h.index b
  · rw [hd.outstanding, h.outstanding, hd.inserted, hmem]
    tauto
  · rw [hkey]
    exact List.Pairwise.sublist hd.outstandingSublist h.ordered
  · obtain ⟨hout, hflag, hkind⟩ := h.waiting b (hd.waitingSublist.subset hb)
    rw [hflagged, hd.alarm]
    refine ⟨(hd.outstanding b).mpr ⟨hout, ?_⟩, hflag, hkind⟩
    rintro rfl
    exact hd.waiting hb
  · rw [hkey]
    exact List.Pairwise.sublist hd.waitingSublist h.waitingOrdered
  · exact hd.dispatched.nodup_iff.mpr (List.nodup_cons.mpr ⟨hnew, h.nodup⟩)
  · rw [hd.inserted]
    rw [hmem, hflagged] at hb
    obtain (rfl | hb) | hb := hb
    · exact hknown
    · exact h.known b (Or.inl hb)
    · exact h.known b (Or.inr hb)
  · rw [hflagged] at hb
    rw [hd.alarm]
    exact h.flagged b hb
  · rw [hd.count h]
    rw [hmem, hflagged, or_assoc] at hb
    split_ifs with hba
    · rfl
    · exact h.once b (hb.resolve_left hba)
  · rw [hmem, hflagged, or_assoc] at hb
    obtain ⟨hba, hb⟩ := not_or.mp hb
    rw [hd.count h, if_neg hba]
    exact h.never b hb
  · rw [hmem]
    obtain rfl | hb := hd.freed b hb
    · exact Or.inl rfl
    · exact Or.inr (h.freed b hb)

theorem Sound.free {m : Multiset ℕ} (h : Sound l) (ha : l.owned = a ::ₘ m) (hdispatched : a ∈ l.dispatched) :
    Sound { l with freed := l.freed ++ [a], owned := m } := by
  have hcount : ∀ b, m.count b + (l.freed ++ [a]).count b = l.owned.count b + l.freed.count b := by
    intro b
    rw [ha, List.count_append, Multiset.count_cons, List.count_singleton]
    by_cases hba : b = a
    · rw [if_pos hba, if_pos (beq_iff_eq.mpr hba.symm)]
      omega
    · rw [if_neg hba, if_neg (by simpa using Ne.symm hba)]
      omega
  refine ⟨h.index, h.outstanding, h.ordered, h.waiting, h.waitingOrdered, h.nodup, h.known, h.flagged, fun b hb => ?_,
    fun b hb => ?_, fun b hb => ?_⟩
  · exact (hcount b).trans (h.once b hb)
  · exact (hcount b).trans (h.never b hb)
  · obtain hb | hb := List.mem_append.mp hb
    · exact h.freed b hb
    · rw [List.mem_singleton.mp hb]
      exact hdispatched

/-- `Signal` takes the waiting alarms. -/
def signal (l : Ledger) : Ledger :=
  { l with
    waiting := []
    alarm := fun a => if a ∈ l.waiting then { l.alarm a with inWaitDispatch := true } else l.alarm a
    owned := (l.waiting : Multiset ℕ) + l.owned }

theorem alarm_signal (l : Ledger) (a : ℕ) : (l.signal.alarm a).kind = (l.alarm a).kind ∧
    (l.signal.alarm a).wakeupTimeUs = (l.alarm a).wakeupTimeUs ∧ (l.signal.alarm a).index = (l.alarm a).index := by
  unfold Ledger.signal
  simp only
  split_ifs
  · exact ⟨rfl, rfl, rfl⟩
  · exact ⟨rfl, rfl, rfl⟩

theorem key_signal (l : Ledger) : l.signal.key = l.key := by
  funext a
  unfold key
  rw [(alarm_signal l a).2.1, (alarm_signal l a).2.2]

theorem Sound.signal (h : Sound l) : Sound l.signal := by
  have hflagged : ∀ a, l.signal.flagged a = true ↔ a ∈ l.waiting ∨ l.flagged a = true := by
    intro a
    unfold Ledger.signal Ledger.flagged
    simp only
    split_ifs with ha <;> simp [ha]
  have hnew : ∀ a ∈ l.waiting, ¬ (a ∈ l.dispatched ∨ l.flagged a = true) := by
    rintro a ha (hd | hf)
    · exact ((h.outstanding a).mp (h.waiting a ha).1).2 hd
    · exact Bool.noConfusion ((h.waiting a ha).2.1.symm.trans hf)
  refine ⟨fun b => ?_, h.outstanding, ?_, nofun, List.Pairwise.nil, h.nodup, fun b hb => ?_, fun b hb => ?_,
    fun b hb => ?_, fun b hb => ?_, h.freed⟩
  · rw [(alarm_signal l b).2.2]
    exact h.index b
  · rw [key_signal]
    exact h.ordered
  · rw [hflagged] at hb
    obtain hb | hb | hb := hb
    · exact h.known b (Or.inl hb)
    · exact h.known_of_outstanding (h.waiting b hb).1
    · exact h.known b (Or.inr hb)
  · rw [(alarm_signal l b).1]
    obtain hb | hb := (hflagged b).mp hb
    · exact (h.waiting b hb).2.2
    · exact h.flagged b hb
  · change ((l.waiting : Multiset ℕ) + l.owned).count b + l.freed.count b = 1
    rw [Multiset.count_add, Multiset.coe_count, Nat.add_assoc]
    by_cases hw : b ∈ l.waiting
    · rw [List.count_eq_one_of_mem h.waitingOrdered.nodup hw, h.never b (hnew b hw)]
    · rw [List.count_eq_zero_of_not_mem hw, Nat.zero_add]
      refine h.once b (hb.imp_right fun hb => ?_)
      exact ((hflagged b).mp hb).resolve_left hw
  · change ((l.waiting : Multiset ℕ) + l.owned).count b + l.freed.count b = 0
    obtain ⟨hd, hf⟩ := not_or.mp hb
    rw [hflagged] at hf
    obtain ⟨hw, hf⟩ := not_or.mp hf
    rw [Multiset.count_add, Multiset.coe_count, Nat.add_assoc, List.count_eq_zero_of_not_mem hw, Nat.zero_add]
    exact h.never b (not_or.mpr ⟨hd, hf⟩)

def insert (l : Ledger) (kind : Kind) (wakeupTimeUs : ℤ) : Ledger :=
  let t := { l with
    alarm := Function.update l.alarm (l.inserted + 1) ⟨kind, wakeupTimeUs, (l.inserted + 1) % 2 ^ 32, false⟩
    inserted := l.inserted + 1 }
  { t with outstanding := OrderedSet.insert t.key (l.inserted + 1) l.outstanding }

def wait (l : Ledger) : Ledger := { l with waiting := OrderedSet.insert l.key l.inserted l.waiting }

theorem alarm_insert_of_le (kind : Kind) (wakeupTimeUs : ℤ) (ha : a ≤ l.inserted) :
    (l.insert kind wakeupTimeUs).alarm a = l.alarm a :=
  Function.update_of_ne (by omega) _ _

theorem key_insert_of_le (kind : Kind) (wakeupTimeUs : ℤ) (ha : a ≤ l.inserted) :
    (l.insert kind wakeupTimeUs).key a = l.key a := by
  unfold key
  rw [alarm_insert_of_le kind wakeupTimeUs ha]

theorem Sound.insert (h : Sound l) (hlt : l.inserted + 1 < 2 ^ 32) (kind : Kind) (wakeupTimeUs : ℤ) :
    Sound (l.insert kind wakeupTimeUs) := by
  have hnew : (l.insert kind wakeupTimeUs).alarm (l.inserted + 1) = ⟨kind, wakeupTimeUs, l.inserted + 1, false⟩ := by
    refine (Function.update_self _ _ _).trans ?_
    rw [Nat.mod_eq_of_lt hlt]
  have hold : ∀ b ∈ l.outstanding, b ≤ l.inserted := fun b hb => (h.known_of_outstanding hb).2
  have hindex : ∀ b, 0 < b → b ≤ l.inserted + 1 → ((l.insert kind wakeupTimeUs).alarm b).index = b := by
    intro b hb hb'
    obtain rfl | hlt := Nat.eq_or_lt_of_le hb'
    · rw [hnew]
    · rw [alarm_insert_of_le kind wakeupTimeUs (Nat.le_of_lt_succ hlt)]
      exact h.index b hb (Nat.le_of_lt_succ hlt)
  have hflagged : ∀ b, (l.insert kind wakeupTimeUs).flagged b = true → b ≤ l.inserted ∧ l.flagged b = true := by
    intro b hb
    have hne : b ≠ l.inserted + 1 := by
      rintro rfl
      unfold Ledger.flagged at hb
      rw [hnew] at hb
      cases hb
    have hsame : (l.insert kind wakeupTimeUs).alarm b = l.alarm b := Function.update_of_ne hne _ _
    unfold Ledger.flagged at hb ⊢
    rw [hsame] at hb
    exact ⟨(h.known b (Or.inr hb)).2, hb⟩
  have hflagged' : ∀ b, b ≤ l.inserted → (l.insert kind wakeupTimeUs).flagged b = l.flagged b := by
    intro b hb
    unfold Ledger.flagged
    rw [alarm_insert_of_le kind wakeupTimeUs hb]
  -- no key of an alarm that is outstanding is the new one
  have hmem : ∀ b, b ∈ (l.insert kind wakeupTimeUs).outstanding ↔ b = l.inserted + 1 ∨ b ∈ l.outstanding := by
    intro b
    refine mem_insert_of_new fun c hc heq => ?_
    have hc' := h.known_of_outstanding hc
    have hindices : ((l.insert kind wakeupTimeUs).alarm c).index =
        ((l.insert kind wakeupTimeUs).alarm (l.inserted + 1)).index := (Prod.ext_iff.mp (toLex_inj.mp heq)).2
    rw [hindex c hc'.1 (by omega), hindex _ (by omega) (le_refl _)] at hindices
    exact hindices
  refine ⟨hindex, fun b => ?_, insert_ordered (h.ordered.congr fun b hb => ?_), fun b hb => ?_,
    h.waitingOrdered.congr fun b hb => ?_, h.nodup, fun b hb => ?_, fun b hb => ?_, fun b hb => ?_, fun b hb => ?_, h.freed⟩
  · rw [hmem, h.outstanding]
    change _ ↔ (0 < b ∧ b ≤ l.inserted + 1) ∧ b ∉ l.dispatched
    constructor
    · rintro (rfl | ⟨hb, hb'⟩)
      · refine ⟨⟨by omega, le_refl _⟩, fun hd => ?_⟩
        have := (h.known _ (Or.inl hd)).2
        omega
      · exact ⟨⟨hb.1, by omega⟩, hb'⟩
    · rintro ⟨⟨hb, hb'⟩, hd⟩
      obtain rfl | hlt := Nat.eq_or_lt_of_le hb'
      · exact Or.inl rfl
      · exact Or.inr ⟨⟨hb, by omega⟩, hd⟩
  · exact key_insert_of_le kind wakeupTimeUs (hold b hb)
  · obtain ⟨hout, hflag, hkind⟩ := h.waiting b hb
    rw [hflagged' b (hold b hout), alarm_insert_of_le kind wakeupTimeUs (hold b hout)]
    exact ⟨(hmem b).mpr (Or.inr hout), hflag, hkind⟩
  · exact key_insert_of_le kind wakeupTimeUs (hold b (h.waiting b hb).1)
  · have hb' : 0 < b ∧ b ≤ l.inserted := h.known b (hb.imp_right fun hb => (hflagged b hb).2)
    exact ⟨hb'.1, Nat.le_succ_of_le hb'.2⟩
  · obtain ⟨hle, hb⟩ := hflagged b hb
    rw [alarm_insert_of_le kind wakeupTimeUs hle]
    exact h.flagged b hb
  · exact h.once b (hb.imp_right fun hb => (hflagged b hb).2)
  · refine h.never b fun hb' => hb (hb'.imp_right fun hf => ?_)
    rw [hflagged' b (h.known b (Or.inr hf)).2]
    exact hf

theorem Sound.wait (h : Sound l) (hout : l.inserted ∈ l.outstanding) (hflag : l.flagged l.inserted = false)
    (hkind : (l.alarm l.inserted).kind ≠ .function) : Sound l.wait := by
  refine ⟨h.index, h.outstanding, h.ordered, fun b hb => ?_, insert_ordered h.waitingOrdered, h.nodup, h.known, h.flagged,
    h.once, h.never, h.freed⟩
  obtain rfl | hb := eq_or_mem_of_mem_insert hb
  · exact ⟨hout, hflag, hkind⟩
  · exact h.waiting b hb

theorem Timely.mono (hl : Sound l) (h : Timely l) (hstarts : t.starts = l.starts)
    (hinserted : l.inserted ≤ t.inserted)
    (hwakeup : ∀ a ≤ l.inserted, (t.alarm a).wakeupTimeUs = (l.alarm a).wakeupTimeUs)
    (hkey : ∀ a ≤ l.inserted, t.key a = l.key a)
    (hout : ∀ b ∈ t.outstanding, b ≤ l.inserted → b ∈ l.outstanding) : Timely t := by
  have hknown : ∀ x ∈ l.starts, x.alarm ≤ l.inserted := fun x hx =>
    (hl.known x.alarm (Or.inl (List.mem_append_left _ (List.mem_map_of_mem hx)))).2
  refine ⟨fun x hx => ?_, fun x hx => ?_, fun x hx b hb hle => ?_, ?_⟩
  · rw [hstarts] at hx
    rw [hwakeup _ (hknown x hx)]
    exact h.onTime x hx
  · rw [hstarts] at hx
    exact (h.inserted x hx).trans hinserted
  · rw [hstarts] at hx
    have hb' := hle.trans (h.inserted x hx)
    rw [hkey _ (hknown x hx), hkey b hb']
    exact h.first x hx b (hout b hb hb') hle
  · rw [hstarts]
    refine List.Pairwise.imp_of_mem (fun {x y} hx hy hxy => ?_) h.order
    rw [hkey _ (hknown x hx), hkey _ (hknown y hy)]
    exact hxy

theorem Timely.run {rest : List ℕ} {call : ℕ} {nowUs : ℤ} (hl : Sound l) (h : Timely l)
    (halarm : t.alarm = l.alarm) (hinserted : t.inserted = l.inserted) (hfirst : l.outstanding = a :: rest)
    (hout : t.outstanding = rest) (hstarts : t.starts = l.starts ++ [⟨call, a, l.inserted, nowUs⟩])
    (hdue : (l.alarm a).wakeupTimeUs ≤ nowUs) : Timely t := by
  have hkey : t.key = l.key := by
    unfold key
    rw [halarm]
  have hordered := hl.ordered
  rw [hfirst] at hordered
  have ha : a ∈ l.outstanding := by
    rw [hfirst]
    exact List.mem_cons_self
  have hmem : ∀ x, x ∈ t.starts ↔ x ∈ l.starts ∨ x = ⟨call, a, l.inserted, nowUs⟩ := by
    intro x
    rw [hstarts, List.mem_append, List.mem_singleton]
  refine ⟨fun x hx => ?_, fun x hx => ?_, fun x hx b hb hle => ?_, ?_⟩
  · rw [halarm]
    obtain hx | rfl := (hmem x).mp hx
    · exact h.onTime x hx
    · exact hdue
  · rw [hinserted]
    obtain hx | rfl := (hmem x).mp hx
    · exact h.inserted x hx
    · exact le_refl _
  · rw [hout] at hb
    rw [hkey]
    obtain hx | rfl := (hmem x).mp hx
    · refine h.first x hx b ?_ hle
      rw [hfirst]
      exact List.mem_cons_of_mem a hb
    · exact (List.pairwise_cons.mp hordered).1 b hb
  · rw [hstarts, hkey]
    refine List.pairwise_append.mpr ⟨h.order, List.pairwise_singleton _ _, fun x hx y hy => ?_⟩
    rw [List.mem_singleton.mp hy]
    obtain hle | hlt := le_or_gt a x.inserted
    · exact Or.inl (h.first x hx a ha hle)
    · exact Or.inr hlt

end Ledger

end PageSpeed.Scheduler
