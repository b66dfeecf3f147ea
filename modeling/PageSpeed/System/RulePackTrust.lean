import PageSpeed.System.RulePackStore

/-!
A signed pack that is required is one whose signature was checked. What the
store holds is followed back to what the calls read and checked.
-/

namespace PageSpeed.RulePack

def SidecarRead (history : List Event) (text : GoogleString) : Prop :=
  ∃ canonical look, Event.looked canonical look ∈ history ∧ look.present = true ∧ look.regular = true ∧
    look.file = .read text

/-- `CheckPackSignature` gave `kVerified` for the bytes, with a sidecar that was read. -/
def Verified (lib : StoreLibraries) (history : List Event) (packBytes : GoogleString) (trust : PackTrust) : Prop :=
  ∃ publisher sidecar, Event.checked packBytes publisher sidecar trust .kVerified ∈ history ∧
    (checkPackSignature lib.toSignatureLibraries packBytes publisher sidecar trust).1 = .kVerified ∧
    SidecarRead history sidecar.text

def Trusted (lib : StoreLibraries) (history : List Event) : Prop :=
  ∀ later thread trust result event signatureEvent earlier pack,
    history = later ++ .returned thread trust result event signatureEvent :: earlier →
      trust.requireSigned = true → result.pack = some pack →
        ∃ trust', trust'.keys = trust.keys ∧ trust'.requireSigned = trust.requireSigned ∧
          Verified lib earlier pack.parsedFrom trust'

def CollisionFree (lib : StoreLibraries) (history : List Event) : Prop :=
  ∀ canonical canonical' pack pack', Event.loaded canonical pack ∈ history → Event.loaded canonical' pack' ∈ history →
    lib.sha256 pack.parsedFrom = lib.sha256 pack'.parsedFrom → pack.parsedFrom = pack'.parsedFrom

variable {lib : StoreLibraries} {engineVersion : GoogleString} {history history' : List Event} {w w' : World} {t : ℕ}

theorem SidecarRead.mono {text : GoogleString} (h : SidecarRead history text) (hsub : history ⊆ history') :
    SidecarRead history' text := by
  obtain ⟨canonical, look, hmem, hlook⟩ := h
  exact ⟨canonical, look, hsub hmem, hlook⟩

theorem Verified.mono {packBytes : GoogleString} {trust : PackTrust} (h : Verified lib history packBytes trust)
    (hsub : history ⊆ history') : Verified lib history' packBytes trust := by
  obtain ⟨publisher, sidecar, hmem, hcheck, hread⟩ := h
  exact ⟨publisher, sidecar, hsub hmem, hcheck, hread.mono hsub⟩

structure Taken (lib : StoreLibraries) (history : List Event) (canonical : GoogleString) (loaded : LoadedRulePack)
    (bytes : Option GoogleString) (sidecar : SidecarState) (sidecarSha : GoogleString) : Prop where
  pack : ∀ p, loaded.pack = some p → Event.loaded canonical p ∈ history ∧ bytes = some p.parsedFrom ∧
    loaded.sha256 = sha256Hex lib p.parsedFrom
  sidecar : sidecar.readOk = true → SidecarRead history sidecar.text
  sidecarSha : 124 ∉ sidecarSha

def Entry.Ok (lib : StoreLibraries) (history : List Event) (canonical : GoogleString) (entry : Entry) : Prop :=
  Taken lib history canonical entry.loaded entry.bytes entry.sidecar entry.sidecarSha

def Snapshot.Ok (lib : StoreLibraries) (history : List Event) (s : Snapshot) : Prop :=
  Taken lib history s.canonical s.loaded s.bytes s.sidecar s.sidecarSha

def Vouched (lib : StoreLibraries) (history : List Event) (key : GoogleString) : Prop :=
  ∃ s : Snapshot, s.Ok lib history ∧ s.verdictKey = key ∧ Verified lib history s.pack.parsedFrom s.trust

def Good (lib : StoreLibraries) (history : List Event) (trust : PackTrust) (l : LoadedRulePack) : Prop :=
  ∀ p, l.pack = some p → ∃ s : Snapshot, s.Ok lib history ∧ s.pack = p ∧ s.trust = trust ∧
    Vouched lib history s.verdictKey

def Pc.Ok (lib : StoreLibraries) (history : List Event) : Pc → Prop
  | .refreshing canonical _ _ work => work.Ok lib history canonical
  | .lookingUp s => s.Ok lib history
  | .checking s => s.Ok lib history
  | .reporting s verdict => s.Ok lib history ∧ (verdict.status = .kVerified → Vouched lib history s.verdictKey)
  | .accepting s verdict _ => s.Ok lib history ∧ (verdict.status = .kVerified → Vouched lib history s.verdictKey)
  | _ => True

structure Inv (lib : StoreLibraries) (w : World) : Prop where
  entries : ∀ canonical, (w.store.entries canonical).Ok lib w.history canonical
  threads : ∀ t, (w.pc t).Ok lib w.history
  verdicts : ∀ key verdict, (key, verdict) ∈ w.store.verdicts → verdict.status = .kVerified → Vouched lib w.history key
  accepted : ∀ canonical trust l, w.store.accepted (canonical, trust.fingerprint) = some l →
    trust.requireSigned = true → Good lib w.history trust l
  returned : ∀ later thread trust result event signatureEvent earlier,
    w.history = later ++ .returned thread trust result event signatureEvent :: earlier →
      trust.requireSigned = true → Good lib earlier trust result

section Monotone

variable {canonical : GoogleString} {loaded : LoadedRulePack} {bytes : Option GoogleString} {sidecar : SidecarState}
  {sidecarSha : GoogleString}

theorem Taken.mono (h : Taken lib history canonical loaded bytes sidecar sidecarSha) (hsub : history ⊆ history') :
    Taken lib history' canonical loaded bytes sidecar sidecarSha := by
  refine ⟨fun p hp => ?_, fun hread => (h.sidecar hread).mono hsub, h.sidecarSha⟩
  obtain ⟨hmem, hbytes⟩ := h.pack p hp
  exact ⟨hsub hmem, hbytes⟩

theorem Vouched.mono {key : GoogleString} (h : Vouched lib history key) (hsub : history ⊆ history') :
    Vouched lib history' key := by
  obtain ⟨s, hs, hkey, hverified⟩ := h
  exact ⟨s, Taken.mono hs hsub, hkey, hverified.mono hsub⟩

theorem Good.mono {trust : PackTrust} {l : LoadedRulePack} (h : Good lib history trust l) (hsub : history ⊆ history') :
    Good lib history' trust l := by
  intro p hp
  obtain ⟨s, hs, hpack, htrust, hvouched⟩ := h p hp
  exact ⟨s, Taken.mono hs hsub, hpack, htrust, hvouched.mono hsub⟩

theorem Pc.Ok.mono {pc : Pc} (h : pc.Ok lib history) (hsub : history ⊆ history') : pc.Ok lib history' := by
  cases pc with
  | refreshing canonical trust nowMs work => exact Taken.mono h hsub
  | lookingUp s => exact Taken.mono h hsub
  | checking s => exact Taken.mono h hsub
  | reporting s verdict => exact ⟨Taken.mono h.1 hsub, fun hv => (h.2 hv).mono hsub⟩
  | accepting s verdict first => exact ⟨Taken.mono h.1 hsub, fun hv => (h.2 hv).mono hsub⟩
  | idle => trivial
  | resolving path trust nowMs => trivial
  | entering canonical trust nowMs => trivial

end Monotone

section Files

variable {canonical path : GoogleString} {entry : Entry} {look : SidecarLook} {pack : PackLook}

theorem pipe_not_mem_hex (data : GoogleString) : 124 ∉ sha256Hex lib data :=
  fun hmem => absurd (lt_of_mem_hex hmem) (by decide)

theorem pipe_not_mem_state (look : SidecarLook) : 124 ∉ (look.state lib).2 := by
  have hmark : ∀ b : Bool, 124 ∉ ascii (if b then "!" else "-") := by decide
  unfold SidecarLook.state
  split
  · exact hmark look.present
  · dsimp only
    split
    · exact pipe_not_mem_hex _
    · exact hmark true

theorem read_of_state (h : (look.state lib).1.readOk = true) :
    look.present = true ∧ look.regular = true ∧ look.file = .read (look.state lib).1.text := by
  unfold SidecarLook.state at h ⊢
  split at h
  · exact absurd h Bool.false_ne_true
  · rename_i hfile
    push Not at hfile
    refine ⟨Bool.eq_true_of_not_eq_false hfile.1, Bool.eq_true_of_not_eq_false hfile.2, ?_⟩
    rw [if_neg (by push Not; exact hfile)]
    cases hread : look.file with
    | closed => simp [hread, readBounded] at h
    | bad buffer => simp [hread, readBounded] at h
    | read contents =>
      rw [hread] at h
      dsimp only [readBounded] at h ⊢
      split_ifs at h ⊢ with hlen
      · have hall : contents.length ≤ kMaxSidecarBytes + 1 := by
          have hlen := hlen.2
          rw [List.length_take] at hlen
          omega
        rw [List.take_of_length_le hall]

structure Entry.Kept (lib : StoreLibraries) (look : SidecarLook) (entry entry' : Entry) : Prop where
  loaded : entry'.loaded = entry.loaded
  bytes : entry'.bytes = entry.bytes
  sidecar : (entry'.sidecar, entry'.sidecarSha) = (entry.sidecar, entry.sidecarSha) ∨
    (entry'.sidecar, entry'.sidecarSha) = look.state lib

theorem Entry.kept_refreshSidecar (entry : Entry) (lib : StoreLibraries) (look : SidecarLook) (force : Bool) :
    entry.Kept lib look (entry.refreshSidecar lib look force) := by
  unfold Entry.refreshSidecar
  split_ifs
  · exact ⟨rfl, rfl, .inl rfl⟩
  · exact ⟨rfl, rfl, .inr rfl⟩

structure Entry.Parsed (lib : StoreLibraries) (look : SidecarLook) (serial : ℕ) (p : PackPtr) (entry : Entry) : Prop where
  pack : entry.loaded.pack = some p
  serial : p.serial = serial
  sha256 : entry.loaded.sha256 = sha256Hex lib p.parsedFrom
  bytes : entry.bytes = some p.parsedFrom
  sidecar : (entry.sidecar, entry.sidecarSha) = look.state lib

theorem Entry.refresh_cases (entry : Entry) (lib : StoreLibraries) (engineVersion canonical : GoogleString) (serial : ℕ) (pack : PackLook) (look : SidecarLook) :
    ((entry.refresh lib engineVersion canonical serial pack look).2 ≠ .kLoaded ∧
      entry.Kept lib look (entry.refresh lib engineVersion canonical serial pack look).1) ∨
    ((entry.refresh lib engineVersion canonical serial pack look).2 = .kLoaded ∧
      ∃ p, (entry.refresh lib engineVersion canonical serial pack look).1.Parsed lib look serial p) := by
  have hkept : ∀ (again : Bool) (entry' : Entry), entry'.loaded = entry.loaded → entry'.bytes = entry.bytes →
      (entry'.sidecar, entry'.sidecarSha) = (entry.sidecar, entry.sidecarSha) →
        entry.Kept lib look (if again then entry'.refreshSidecar lib look false else entry') := by
    intro again entry' hloaded hbytes hsidecar
    cases again with
    | false => exact ⟨hloaded, hbytes, .inl hsidecar⟩
    | true =>
      have hagain := entry'.kept_refreshSidecar lib look false
      exact ⟨hagain.loaded.trans hloaded, hagain.bytes.trans hbytes, hagain.sidecar.imp_left fun h => h.trans hsidecar⟩
  unfold Entry.refresh
  split
  · split
    · exact .inl ⟨nofun, rfl, rfl, .inl rfl⟩
    · exact .inl ⟨nofun, rfl, rfl, .inl rfl⟩
  · dsimp only
    split
    · exact .inl ⟨nofun, hkept _ _ rfl rfl rfl⟩
    · split
      · exact .inl ⟨nofun, hkept _ _ rfl rfl rfl⟩
      · split
        · exact .inl ⟨nofun, rfl, rfl, .inl rfl⟩
        · rename_i p _
          refine .inr ⟨rfl, ⟨serial, p, (readBounded kMaxPackFileBytes pack.file).2⟩, ?_⟩
          rw [Entry.refreshSidecar, if_neg (fun h => absurd h.1 nofun)]
          exact ⟨rfl, rfl, rfl, rfl, rfl⟩
theorem sidecarRead_of_state {sidecar : SidecarState} {sidecarSha : GoogleString}
    (h : (sidecar, sidecarSha) = look.state lib) (hlook : Event.looked path look ∈ history)
    (hread : sidecar.readOk = true) : SidecarRead history sidecar.text := by
  obtain rfl : sidecar = (look.state lib).1 := congrArg Prod.fst h
  obtain ⟨hpresent, hregular, hfile⟩ := read_of_state hread
  exact ⟨path, look, hlook, hpresent, hregular, hfile⟩

theorem pipe_not_mem_of_state {sidecar : SidecarState} {sidecarSha : GoogleString}
    (h : (sidecar, sidecarSha) = look.state lib) : 124 ∉ sidecarSha := by
  obtain rfl : sidecarSha = (look.state lib).2 := congrArg Prod.snd h
  exact pipe_not_mem_state look

theorem Entry.Kept.ok {entry' : Entry} (h : entry.Kept lib look entry') (hentry : entry.Ok lib history canonical)
    (hlook : Event.looked path look ∈ history) : entry'.Ok lib history canonical := by
  refine ⟨fun p hp => ?_, fun hread => ?_, ?_⟩
  · rw [h.loaded] at hp ⊢
    rw [h.bytes]
    exact hentry.pack p hp
  · obtain hsame | hfound := h.sidecar
    · have hsidecar : entry'.sidecar = entry.sidecar := congrArg Prod.fst hsame
      rw [hsidecar] at hread ⊢
      exact hentry.sidecar hread
    · exact sidecarRead_of_state hfound hlook hread
  · obtain hsame | hfound := h.sidecar
    · have hsha : entry'.sidecarSha = entry.sidecarSha := congrArg Prod.snd hsame
      rw [hsha]
      exact hentry.sidecarSha
    · exact pipe_not_mem_of_state hfound

theorem Entry.Parsed.ok {serial : ℕ} {p : PackPtr} (h : entry.Parsed lib look serial p)
    (hload : Event.loaded canonical p ∈ history) (hlook : Event.looked path look ∈ history) :
    entry.Ok lib history canonical := by
  refine ⟨fun q hq => ?_, sidecarRead_of_state h.sidecar hlook, pipe_not_mem_of_state h.sidecar⟩
  obtain rfl : p = q := Option.some.inj (h.pack.symm.trans hq)
  exact ⟨hload, h.bytes, h.sha256⟩

end Files

section Steps

theorem Inv.note (h : Inv lib w) (e : Event)
    (he : ∀ thread trust result event signatureEvent, e = .returned thread trust result event signatureEvent →
      trust.requireSigned = true → Good lib w.history trust result) : Inv lib (w.note e) := by
  have hsub : w.history ⊆ (w.note e).history := List.subset_cons_self e w.history
  refine ⟨fun canonical => (h.entries canonical).mono hsub, fun t => (h.threads t).mono hsub,
    fun key verdict hmem hv => (h.verdicts key verdict hmem hv).mono hsub,
    fun canonical trust l hl hrequired => (h.accepted canonical trust l hl hrequired).mono hsub, ?_⟩
  intro later thread trust result event signatureEvent earlier heq
  cases later with
  | nil =>
    obtain ⟨rfl, rfl⟩ := List.cons.inj heq
    exact he thread trust result event signatureEvent rfl
  | cons e' later => exact h.returned later thread trust result event signatureEvent earlier (List.cons.inj heq).2

theorem Inv.goto (h : Inv lib w) (t : ℕ) {pc : Pc} (hpc : pc.Ok lib w.history) : Inv lib (w.goto t pc) := by
  refine ⟨h.entries, fun t' => ?_, h.verdicts, h.accepted, h.returned⟩
  change (Function.update w.pc t pc t').Ok lib w.history
  by_cases heq : t' = t
  · subst heq
    rw [Function.update_self]
    exact hpc
  · rw [Function.update_of_ne heq]
    exact h.threads t'

theorem Inv.setAlias (h : Inv lib w) (path : GoogleString) (a : Alias) : Inv lib (w.setAlias path a) :=
  ⟨h.entries, h.threads, h.verdicts, h.accepted, h.returned⟩

theorem Inv.setReported (h : Inv lib w) (reported : List GoogleString) : Inv lib (w.setReported reported) :=
  ⟨h.entries, h.threads, h.verdicts, h.accepted, h.returned⟩

theorem Inv.setEntry (h : Inv lib w) {canonical : GoogleString} {entry : Entry}
    (hentry : entry.Ok lib w.history canonical) : Inv lib (w.setEntry canonical entry) := by
  refine ⟨fun canonical' => ?_, h.threads, h.verdicts, h.accepted, h.returned⟩
  change (Function.update w.store.entries canonical entry canonical').Ok lib w.history canonical'
  by_cases heq : canonical' = canonical
  · subst heq
    rw [Function.update_self]
    exact hentry
  · rw [Function.update_of_ne heq]
    exact h.entries canonical'

theorem Inv.setAccepted (h : Inv lib w) {slot : GoogleString × GoogleString} {l : LoadedRulePack}
    (hl : ∀ trust, trust.fingerprint = slot.2 → trust.requireSigned = true → Good lib w.history trust l) :
    Inv lib (w.setAccepted slot l) := by
  refine ⟨h.entries, h.threads, h.verdicts, fun canonical trust l' hl' hrequired => ?_, h.returned⟩
  change Function.update w.store.accepted slot (some l) (canonical, trust.fingerprint) = some l' at hl'
  by_cases heq : (canonical, trust.fingerprint) = slot
  · rw [heq, Function.update_self] at hl'
    obtain rfl := Option.some.inj hl'
    exact hl trust (congrArg Prod.snd heq) hrequired
  · rw [Function.update_of_ne heq] at hl'
    exact h.accepted canonical trust l' hl' hrequired

variable {verdict : Verdict} {s : Snapshot}

theorem Inv.insertVerdict (h : Inv lib w) {key : GoogleString}
    (hv : verdict.status = .kVerified → Vouched lib w.history key) : Inv lib (w.insertVerdict key verdict) := by
  refine ⟨h.entries, h.threads, fun key' verdict' hmem => ?_, h.accepted, h.returned⟩
  have hkept : ∀ e ∈ (if 256 < w.store.verdicts.length then [] else w.store.verdicts), e ∈ w.store.verdicts := by
    intro e he
    split_ifs at he
    · exact absurd he List.not_mem_nil
    · exact he
  unfold World.insertVerdict World.setVerdicts at hmem
  dsimp only at hmem
  revert hkept hmem
  generalize (if 256 < w.store.verdicts.length then [] else w.store.verdicts) = verdicts
  intro hmem hkept
  split at hmem
  · exact h.verdicts key' verdict' (hkept _ hmem)
  · obtain heq | hmem := List.mem_cons.mp hmem
    · obtain ⟨rfl, rfl⟩ := Prod.mk.inj heq
      exact hv
    · exact h.verdicts key' verdict' (hkept _ hmem)

theorem Inv.serve (h : Inv lib w) (t : ℕ) {canonical : GoogleString} (trust : PackTrust) (event : LoadEvent)
    {entry : Entry} (hentry : entry.Ok lib w.history canonical) : Inv lib (w.serve t canonical trust event entry) := by
  unfold World.serve
  split
  · rename_i hnone
    refine (h.note _ ?_).goto t trivial
    intro _ _ _ _ _ heq _ p hp
    cases heq
    rw [hnone] at hp
    cases hp
  · exact h.goto t hentry

theorem Inv.enter (h : Inv lib w) (t : ℕ) (canonical : GoogleString) (trust : PackTrust) (nowMs : ℤ) :
    Inv lib (w.enter t canonical trust nowMs) := by
  have hentry := h.entries canonical
  unfold World.enter
  dsimp only
  split
  · have hwork : ({ w.store.entries canonical with refreshing := true, checkedMs := nowMs } : Entry).Ok lib w.history
        canonical := hentry
    exact (h.setEntry hwork).goto t hwork
  · exact h.serve t trust .kNone hentry

theorem Inv.refreshed (h : Inv lib w) (t : ℕ) {canonical : GoogleString} (trust : PackTrust) (nowMs : ℤ) {work : Entry}
    (hwork : work.Ok lib w.history canonical) (pack : PackLook) (look : SidecarLook) :
    Inv lib (w.refreshed lib engineVersion t canonical trust nowMs work pack look) := by
  have hlooked := h.note (.looked canonical look) nofun
  unfold World.refreshed
  generalize hres : work.refresh lib engineVersion canonical w.serials pack look = res
  obtain ⟨work', event⟩ := res
  have hcases := work.refresh_cases lib engineVersion canonical w.serials pack look
  rw [hres] at hcases
  dsimp only at hcases ⊢
  generalize hcopy : ({ work' with
    checkedMs := (w.store.entries canonical).checkedMs
    refreshing := false
    lastEventMs := if event = .kNone then work'.lastEventMs else nowMs } : Entry) = copy
  obtain ⟨hevent, hkept⟩ | ⟨rfl, p, hparsed⟩ := hcases
  · have hnote : (w.note (.looked canonical look)).noteLoad canonical event copy = w.note (.looked canonical look) := by
      unfold World.noteLoad
      cases event with
      | kLoaded => exact absurd rfl hevent
      | kNone => rfl
      | kFailed => rfl
    have hok : copy.Ok lib (w.note (.looked canonical look)).history canonical := by
      subst hcopy
      exact hkept.ok (hwork.mono (List.subset_cons_self _ _)) List.mem_cons_self
    rw [hnote]
    exact (hlooked.setEntry hok).serve t trust event hok
  · have hnote : (w.note (.looked canonical look)).noteLoad canonical .kLoaded copy =
        { (w.note (.looked canonical look)).note (.loaded canonical p) with serials := w.serials + 1 } := by
      subst hcopy
      unfold World.noteLoad
      rw [hparsed.pack]
      rfl
    have hloaded := hlooked.note (.loaded canonical p) nofun
    have hcounted : Inv lib { (w.note (.looked canonical look)).note (.loaded canonical p) with
        serials := w.serials + 1 } :=
      ⟨hloaded.entries, hloaded.threads, hloaded.verdicts, hloaded.accepted, hloaded.returned⟩
    have hok : copy.Ok lib ((w.note (.looked canonical look)).note (.loaded canonical p)).history canonical := by
      subst hcopy
      exact hparsed.ok List.mem_cons_self (List.mem_cons_of_mem _ List.mem_cons_self)
    rw [hnote]
    exact (hcounted.setEntry hok).serve t trust .kLoaded hok

theorem Inv.lookUp (h : Inv lib w) (t : ℕ) (hs : s.Ok lib w.history) : Inv lib (w.lookUp t s) := by
  unfold World.lookUp
  split
  · rename_i verdict hfind
    exact h.goto t ⟨hs, h.verdicts _ verdict (Records.mem_of_find hfind)⟩
  · exact h.goto t hs

theorem readOk_of_verified {packBytes publisher : GoogleString} {sidecar : SidecarState} {trust : PackTrust}
    (h : (checkPackSignature lib.toSignatureLibraries packBytes publisher sidecar trust).1 = .kVerified) :
    sidecar.readOk = true := by
  unfold checkPackSignature at h
  split_ifs at h with _ hread
  exact Bool.eq_true_of_not_eq_false hread

theorem Inv.check (h : Inv lib w) (t : ℕ) (hs : s.Ok lib w.history) : Inv lib (w.check lib t s) := by
  have hbytes : s.bytes = some s.pack.parsedFrom := (hs.pack s.pack s.holds).2.1
  unfold World.check
  rw [hbytes]
  dsimp only
  generalize hverdict : checkPackSignature lib.toSignatureLibraries s.pack.parsedFrom s.pack.pack.publisher s.sidecar
    s.trust = verdict
  obtain ⟨status, keyId⟩ := verdict
  have hnoted := h.note (.checked s.pack.parsedFrom s.pack.pack.publisher s.sidecar s.trust status) nofun
  have hs' := Taken.mono hs (List.subset_cons_self (Event.checked s.pack.parsedFrom s.pack.pack.publisher s.sidecar
    s.trust status) w.history)
  have hvouched : status = .kVerified → Vouched lib (w.note (.checked s.pack.parsedFrom s.pack.pack.publisher s.sidecar
      s.trust status)).history s.verdictKey := by
    rintro rfl
    have hcheck := congrArg Prod.fst hverdict
    refine ⟨s, hs', rfl, s.pack.pack.publisher, s.sidecar, List.mem_cons_self, hcheck, ?_⟩
    exact hs'.sidecar (readOk_of_verified hcheck)
  exact (hnoted.insertVerdict hvouched).goto t ⟨hs', hvouched⟩

theorem Inv.report (h : Inv lib w) (t : ℕ) (hs : s.Ok lib w.history)
    (hv : verdict.status = .kVerified → Vouched lib w.history s.verdictKey) : Inv lib (w.report t s verdict) :=
  (h.setReported _).goto t ⟨hs, hv⟩

theorem Snapshot.named_pack (s : Snapshot) (verdict : Verdict) : (s.named verdict).pack = some s.pack := by
  unfold Snapshot.named
  split_ifs
  · exact s.holds
  · exact s.holds

theorem Inv.accept (h : Inv lib w) (t : ℕ) (first : Bool) (hs : s.Ok lib w.history)
    (hv : verdict.status = .kVerified → Vouched lib w.history s.verdictKey) :
    Inv lib (w.accept t s verdict first) := by
  unfold World.accept
  split
  · rename_i huse
    have hgood : ∀ l : LoadedRulePack, l.pack = some s.pack → s.trust.requireSigned = true →
        Good lib w.history s.trust l := by
      intro l hl hrequired p hp
      obtain rfl := Option.some.inj (hl.symm.trans hp)
      have hverified : verdict.status = .kVerified := by
        simpa [Snapshot.mayUse, hrequired] using huse
      exact ⟨s, hs, rfl, rfl, hv hverified⟩
    have hstored : Inv lib (w.storeSlot s (s.named verdict)) := by
      refine (h.setAccepted fun trust htrust hrequired => ?_).note _ nofun
      obtain rfl := fingerprint_injective htrust
      split
      · exact hgood _ (s.named_pack verdict) hrequired
      · cases hslot : w.store.accepted s.slot with
        | none => exact fun p hp => absurd hp nofun
        | some l => exact h.accepted s.canonical s.trust l hslot hrequired
    refine (hstored.note _ ?_).goto t trivial
    intro _ _ _ _ _ heq hrequired
    cases heq
    exact (hgood _ (s.named_pack verdict) hrequired).mono (List.subset_cons_self _ _)
  · refine (h.note _ ?_).goto t trivial
    intro _ _ _ _ _ heq hrequired
    cases heq
    cases hslot : w.store.accepted s.slot with
    | none => exact fun p hp => absurd hp nofun
    | some l => exact h.accepted s.canonical s.trust l hslot hrequired

theorem Inv.step (h : Inv lib w) {a : Action} (hstep : w.step lib engineVersion a = some w') : Inv lib w' := by
  cases a with
  | get t path trust nowMs =>
    cases hpc : w.pc t <;> simp only [World.step, hpc] at hstep <;> cases hstep
    unfold World.get
    dsimp only
    split
    · exact h.goto t trivial
    · exact h.goto t trivial
  | resolved t canonical =>
    cases hpc : w.pc t <;> simp only [World.step, hpc] at hstep <;> cases hstep
    exact (h.setAlias _ _).goto t trivial
  | refreshed t pack sidecar =>
    have hthread := h.threads t
    cases hpc : w.pc t <;> simp only [World.step, hpc] at hstep <;> cases hstep
    rw [hpc] at hthread
    exact h.refreshed t _ _ hthread pack sidecar
  | proceed t =>
    have hthread := h.threads t
    cases hpc : w.pc t <;> rw [hpc] at hthread <;> simp only [World.step, hpc] at hstep <;> cases hstep
    · exact h.enter t _ _ _
    · exact h.lookUp t hthread
    · exact h.check t hthread
    · exact h.report t hthread.1 hthread.2
    · exact h.accept t _ hthread.1 hthread.2

theorem inv_start : Inv lib World.start := by
  refine ⟨fun canonical => ⟨fun p hp => absurd hp nofun, fun hread => absurd hread nofun, List.not_mem_nil⟩,
    fun t => trivial, fun key verdict hmem => absurd hmem List.not_mem_nil, fun canonical trust l hl => absurd hl nofun, ?_⟩
  intro later thread trust result event signatureEvent earlier heq
  cases later <;> cases heq

theorem inv_run {as : List Action} (h : Machine.run (World.step lib engineVersion) World.start as = some w) :
    Inv lib w := by
  refine Machine.run_invariant (G := fun _ _ => True) ?_ inv_start (Machine.meets_true as) h
  intro w a w' _ hw hstep
  exact hw.step hstep

end Steps

theorem verdictKey_inj {s s' : Snapshot} (hs : s.Ok lib history) (hs' : s'.Ok lib history)
    (hfree : CollisionFree lib history) (h : s.verdictKey = s'.verdictKey) :
    s.pack.parsedFrom = s'.pack.parsedFrom ∧ s.trust = s'.trust := by
  obtain ⟨hload, -, hsha⟩ := hs.pack s.pack s.holds
  obtain ⟨hload', -, hsha'⟩ := hs'.pack s'.pack s'.holds
  have hpipe := Reads.until_letter (124 : UInt8)
  obtain ⟨heq, hrest⟩ := hpipe _ _ _ _ (hsha ▸ pipe_not_mem_hex s.pack.parsedFrom)
    (hsha' ▸ pipe_not_mem_hex s'.pack.parsedFrom) trivial trivial h
  obtain ⟨-, hfingerprint⟩ := hpipe _ _ _ _ hs.sidecarSha hs'.sidecarSha trivial trivial hrest
  rw [hsha, hsha'] at heq
  refine ⟨?_, fingerprint_injective hfingerprint⟩
  exact hfree _ _ _ _ hload hload' (Subtype.ext (bytesToHexString_injective heq))

theorem Good.verified {trust : PackTrust} {l : LoadedRulePack} {p : PackPtr} (h : Good lib history trust l)
    (hfree : CollisionFree lib history) (hp : l.pack = some p) : Verified lib history p.parsedFrom trust := by
  obtain ⟨s, hs, rfl, rfl, s', hs', hkey, hverified⟩ := h p hp
  obtain ⟨hbytes, htrust⟩ := verdictKey_inj hs' hs hfree hkey
  rw [← hbytes, ← htrust]
  exact hverified

theorem CollisionFree.mono (h : CollisionFree lib history') (hsub : history ⊆ history') : CollisionFree lib history :=
  fun canonical canonical' p p' hp hp' => h canonical canonical' p p' (hsub hp) (hsub hp')

theorem Inv.trusted (h : Inv lib w) (hfree : CollisionFree lib w.history) : Trusted lib w.history := by
  intro later thread trust result event signatureEvent earlier pack heq hrequired hpack
  refine ⟨trust, rfl, rfl, (h.returned _ _ _ _ _ _ _ heq hrequired).verified (hfree.mono ?_) hpack⟩
  rw [heq]
  exact fun e he => List.mem_append_right _ (List.mem_cons_of_mem _ he)

end PageSpeed.RulePack
