import PageSpeed.System.RulePackOrder

/-!
What an entry of the rule pack store remembers of its file, over any history of refreshes, and when a refresh loads
what the file holds.
-/

namespace PageSpeed.RulePack

def FileRead.ok (file : FileRead) : Bool := (readBounded kMaxPackFileBytes file).1

def FileRead.text (file : FileRead) : GoogleString := (readBounded kMaxPackFileBytes file).2

abbrev Memory := Option ((ℕ × ℤ) × FileRead)

def Memory.see (m : Memory) (look : PackLook) : Memory :=
  match look.stat, m with
  | .error _, _ => none
  | .ok stat, none => some (stat, look.file)
  | .ok stat, some (stat', file) =>
    if stat = stat' then some (stat', file)
    else if look.file.ok = true ∧ look.file.text = file.text then some (stat, file)
    else some (stat, look.file)

structure Steady (lib : StoreLibraries) (m : Memory) (look : PackLook) : Prop where
  same : ∀ stat file, m = some (stat, file) → look.stat = .ok stat → file.ok = true → look.file.ok = true →
    look.file.text = file.text
  apart : ∀ stat file, m = some (stat, file) → sha256Hex lib look.file.text = sha256Hex lib file.text →
    look.file.text = file.text

def Stuck (m : Memory) (look : PackLook) : Prop :=
  ∃ stat file, m = some (stat, file) ∧ file.ok = false ∧ (look.stat = .ok stat ∨ look.file.text = file.text)

variable (lib : StoreLibraries) (engineVersion path : GoogleString)

inductive Run : Entry → Memory → Prop
  | new : Run {} none
  | refresh {e : Entry} {m : Memory} (h : Run e m) (serial : ℕ) (look : PackLook) (sidecar : SidecarLook)
    (hsteady : Steady lib m look) : Run (e.refresh lib engineVersion path serial look sidecar).1 (m.see look)

structure Accepts (look : PackLook) (content : GoogleString) : Prop where
  stat : ∃ stat, look.stat = .ok stat
  file : look.file = .read content
  fits : content.length ≤ kMaxPackFileBytes
  pack : ∃ p, lib.loadPack content engineVersion path = .ok p

namespace Entry

variable {lib engineVersion path} {e e' : Entry} {m : Memory} {look : PackLook}

def withoutSidecar (e : Entry) : Entry :=
  { e with sigStatKnown := false, sigPresent := false, sigMtime := 0, sigSize := -1, sidecar := {}, sidecarSha := [] }

theorem withoutSidecar_refreshSidecar (lib : StoreLibraries) (look : SidecarLook) (force : Bool) (e : Entry) :
    (e.refreshSidecar lib look force).withoutSidecar = e.withoutSidecar := by
  rw [refreshSidecar]
  split_ifs
  · rfl
  · rfl

theorem withoutSidecar_ite (c : Bool) (lib : StoreLibraries) (look : SidecarLook) (force : Bool) (e : Entry) :
    (if c then e.refreshSidecar lib look force else e).withoutSidecar = e.withoutSidecar := by
  split_ifs
  · exact withoutSidecar_refreshSidecar lib look force e
  · rfl

structure Remembers (lib : StoreLibraries) (engineVersion path : GoogleString) (e : Entry) (m : Memory) : Prop where
  forgotten : m = none → e.hasStat = false ∧ e.sha256 = []
  reported : e.unreadableReported = true → m = none
  recorded : ∀ size mtime file, m = some ((size, mtime), file) → e.hasStat = true ∧ e.size = size ∧ e.mtime = mtime ∧
    e.sha256 = sha256Hex lib file.text
  loaded : ∀ stat file p, m = some (stat, file) → parse lib engineVersion path file.ok file.text = .ok p →
    e.loaded.sha256 = sha256Hex lib file.text

theorem Remembers.congr (h : Remembers lib engineVersion path e m) (heq : e'.withoutSidecar = e.withoutSidecar) :
    Remembers lib engineVersion path e' m := by
  have hstat : e'.hasStat = e.hasStat := (congrArg Entry.hasStat heq :)
  have hsha : e'.sha256 = e.sha256 := (congrArg Entry.sha256 heq :)
  have hreported : e'.unreadableReported = e.unreadableReported := (congrArg Entry.unreadableReported heq :)
  have hsize : e'.size = e.size := (congrArg Entry.size heq :)
  have hmtime : e'.mtime = e.mtime := (congrArg Entry.mtime heq :)
  have hloaded : e'.loaded = e.loaded := (congrArg Entry.loaded heq :)
  refine ⟨?_, ?_, ?_, ?_⟩
  · rw [hstat, hsha]
    exact h.forgotten
  · rw [hreported]
    exact h.reported
  · rw [hstat, hsha, hsize, hmtime]
    exact h.recorded
  · rw [hloaded]
    exact h.loaded

/-- What is kept of a pack: the parts of `loaded` and `bytes`. -/
def keeps (e : Entry) : Option PackPtr × GoogleString × Option GoogleString := (e.loaded.pack, e.loaded.sha256, e.bytes)

theorem keeps_congr (heq : e'.withoutSidecar = e.withoutSidecar) : e'.keeps = e.keeps := by
  have hloaded : e'.loaded = e.loaded := (congrArg Entry.loaded heq :)
  have hbytes : e'.bytes = e.bytes := (congrArg Entry.bytes heq :)
  rw [keeps, keeps, hloaded, hbytes]

def Unchanged (e : Entry) (size : ℕ) (mtime : ℤ) : Prop := e.hasStat = true ∧ e.mtime = mtime ∧ e.size = size

def seen (e : Entry) (size : ℕ) (mtime : ℤ) : Entry :=
  { e with unreadableReported := false, hasStat := true, mtime := mtime, size := size }

inductive Outcome (lib : StoreLibraries) (engineVersion path : GoogleString) (serial : ℕ) (look : PackLook)
    (e : Entry) : Entry → Prop
  | stillLost (message : GoogleString) (hstat : look.stat = .error message) (hreported : e.unreadableReported = true) :
      Outcome lib engineVersion path serial look e e
  | lost (message : GoogleString) (hstat : look.stat = .error message) :
      Outcome lib engineVersion path serial look e
        { e with
          unreadableReported := true, hasStat := false, sha256 := [], lastError := ascii "cannot be read: " ++ message }
  | unchanged (size : ℕ) (mtime : ℤ) (hstat : look.stat = .ok (size, mtime)) (hsame : e.Unchanged size mtime) :
      Outcome lib engineVersion path serial look e { e with unreadableReported := false }
  | touched (size : ℕ) (mtime : ℤ) (hstat : look.stat = .ok (size, mtime)) (hnew : ¬ e.Unchanged size mtime)
      (hok : look.file.ok = true) (hsha : sha256Hex lib look.file.text = e.sha256) :
      Outcome lib engineVersion path serial look e (e.seen size mtime)
  | refused (size : ℕ) (mtime : ℤ) (hstat : look.stat = .ok (size, mtime)) (hnew : ¬ e.Unchanged size mtime)
      (hchanged : ¬ (look.file.ok = true ∧ sha256Hex lib look.file.text = e.sha256)) (error : GoogleString)
      (hparse : parse lib engineVersion path look.file.ok look.file.text = .error error) :
      Outcome lib engineVersion path serial look e
        { e.seen size mtime with sha256 := sha256Hex lib look.file.text, lastError := error }
  | loaded (size : ℕ) (mtime : ℤ) (hstat : look.stat = .ok (size, mtime)) (hnew : ¬ e.Unchanged size mtime)
      (hchanged : ¬ (look.file.ok = true ∧ sha256Hex lib look.file.text = e.sha256)) (p : Pack)
      (hparse : parse lib engineVersion path look.file.ok look.file.text = .ok p) :
      Outcome lib engineVersion path serial look e
        { e.seen size mtime with
          sha256 := sha256Hex lib look.file.text
          loaded := { e.loaded with pack := some ⟨serial, p, look.file.text⟩, sha256 := sha256Hex lib look.file.text }
          lastError := [], bytes := some look.file.text }

theorem refresh_outcome (e : Entry) (lib : StoreLibraries) (engineVersion path : GoogleString) (serial : ℕ)
    (look : PackLook) (sidecar : SidecarLook) : ∃ e', Outcome lib engineVersion path serial look e e' ∧
      (e.refresh lib engineVersion path serial look sidecar).1.withoutSidecar = e'.withoutSidecar := by
  rw [refresh]
  cases hstat : look.stat with
  | error message =>
    dsimp only
    split_ifs with hreported
    · exact ⟨e, .stillLost message hstat hreported, rfl⟩
    · exact ⟨_, .lost message hstat, rfl⟩
  | ok stat =>
    obtain ⟨size, mtime⟩ := stat
    have hread : readBounded kMaxPackFileBytes look.file = (look.file.ok, look.file.text) := rfl
    dsimp only
    rw [hread]
    by_cases hsame : e.hasStat = true ∧ e.mtime = mtime ∧ e.size = size
    · rw [decide_eq_true hsame, if_pos rfl]
      exact ⟨_, .unchanged size mtime hstat hsame, withoutSidecar_ite _ lib sidecar false _⟩
    · rw [decide_eq_false hsame, if_neg Bool.false_ne_true]
      dsimp only
      by_cases hchanged : look.file.ok = true ∧ sha256Hex lib look.file.text = e.sha256
      · rw [if_pos hchanged]
        exact ⟨_, .touched size mtime hstat hsame hchanged.1 hchanged.2, withoutSidecar_ite _ lib sidecar false _⟩
      · rw [if_neg hchanged]
        cases hparse : parse lib engineVersion path look.file.ok look.file.text with
        | error error => exact ⟨_, .refused size mtime hstat hsame hchanged error hparse, rfl⟩
        | ok p =>
          exact ⟨_, .loaded size mtime hstat hsame hchanged p hparse, withoutSidecar_refreshSidecar lib sidecar true _⟩

theorem sha256Hex_ne_nil (lib : StoreLibraries) (data : GoogleString) : sha256Hex lib data ≠ [] := by
  rw [sha256Hex, bytesToHexString, Ne, List.flatMap_eq_nil_iff]
  intro hnil
  have hlength := (lib.sha256 data).property
  cases hdigest : (lib.sha256 data).val with
  | nil =>
    rw [hdigest] at hlength
    cases hlength
  | cons b digest =>
    have hbyte := hnil b (by rw [hdigest]; exact List.mem_cons_self)
    cases hbyte

theorem parse_ok {ok : Bool} {text : GoogleString} {p : Pack} (h : parse lib engineVersion path ok text = .ok p) :
    ok = true ∧ text.length ≤ kMaxPackFileBytes ∧ lib.loadPack text engineVersion path = .ok p := by
  rw [parse] at h
  split_ifs at h with hok hlong
  exact ⟨by simpa using hok, Nat.le_of_not_lt hlong, h⟩

theorem remembers_new : Remembers lib engineVersion path {} none :=
  ⟨fun _ => ⟨rfl, rfl⟩, nofun, nofun, nofun⟩

variable {size : ℕ} {mtime : ℤ}

theorem Remembers.of_unchanged (h : Remembers lib engineVersion path e m)
    (hsame : e.Unchanged size mtime) : ∃ file, m = some ((size, mtime), file) := by
  cases m with
  | none =>
    have hstat := (h.forgotten rfl).1
    rw [hsame.1] at hstat
    cases hstat
  | some recorded =>
    obtain ⟨⟨size', mtime'⟩, file⟩ := recorded
    obtain ⟨_, hsize, hmtime, _⟩ := h.recorded size' mtime' file rfl
    have hsizes : (size : ℤ) = size' := hsame.2.2.symm.trans hsize
    obtain rfl := Int.ofNat_inj.mp hsizes
    obtain rfl := hsame.2.1.symm.trans hmtime
    exact ⟨file, rfl⟩

theorem Remembers.unchanged_of (h : Remembers lib engineVersion path e m) {file : FileRead}
    (hm : m = some ((size, mtime), file)) : e.Unchanged size mtime := by
  obtain ⟨hstat, hsize, hmtime, _⟩ := h.recorded size mtime file hm
  exact ⟨hstat, hmtime, hsize⟩

theorem remembers_fresh {e : Entry} {file : FileRead} (hstat : e.hasStat = true)
    (hsize : e.size = size) (hmtime : e.mtime = mtime) (hreported : e.unreadableReported = false)
    (hsha : e.sha256 = sha256Hex lib file.text)
    (hloaded : ∀ p, parse lib engineVersion path file.ok file.text = .ok p →
      e.loaded.sha256 = sha256Hex lib file.text) :
    Remembers lib engineVersion path e (some ((size, mtime), file)) := by
  refine ⟨nofun, ?_, ?_, ?_⟩
  · rw [hreported]
    nofun
  · rintro size' mtime' file' heq
    cases heq
    exact ⟨hstat, hsize, hmtime, hsha⟩
  · rintro stat file' p heq hparse
    cases heq
    exact hloaded p hparse

theorem see_new (h : Remembers lib engineVersion path e m)
    (hstat : look.stat = .ok (size, mtime)) (hnew : ¬ e.Unchanged size mtime)
    (hchanged : ¬ (look.file.ok = true ∧ sha256Hex lib look.file.text = e.sha256)) :
    m.see look = some ((size, mtime), look.file) := by
  unfold Memory.see
  rw [hstat]
  cases m with
  | none => rfl
  | some recorded =>
    obtain ⟨⟨size', mtime'⟩, file⟩ := recorded
    have hne : (size, mtime) ≠ (size', mtime') := fun heq => hnew (h.unchanged_of (by rw [heq]))
    have htext : ¬ (look.file.ok = true ∧ look.file.text = file.text) := by
      rintro ⟨hok, heq⟩
      refine hchanged ⟨hok, ?_⟩
      rw [heq, (h.recorded size' mtime' file rfl).2.2.2]
    dsimp only
    rw [if_neg hne, if_neg htext]

theorem Remembers.refresh (h : Remembers lib engineVersion path e m) (serial : ℕ) (sidecar : SidecarLook)
    (hsteady : Steady lib m look) :
    Remembers lib engineVersion path (e.refresh lib engineVersion path serial look sidecar).1 (m.see look) := by
  obtain ⟨e', houtcome, heq⟩ := refresh_outcome e lib engineVersion path serial look sidecar
  refine Remembers.congr ?_ heq
  cases houtcome with
  | stillLost message hstat hreported =>
    have hm := h.reported hreported
    subst hm
    unfold Memory.see
    rw [hstat]
    exact h
  | lost message hstat =>
    unfold Memory.see
    rw [hstat]
    exact ⟨fun _ => ⟨rfl, rfl⟩, fun _ => rfl, nofun, nofun⟩
  | unchanged size mtime hstat hsame =>
    obtain ⟨file, rfl⟩ := h.of_unchanged hsame
    obtain ⟨_, hsize, hmtime, hsha⟩ := h.recorded size mtime file rfl
    have hsee : Memory.see (some ((size, mtime), file)) look = some ((size, mtime), file) := by
      unfold Memory.see
      rw [hstat]
      dsimp only
      rw [if_pos rfl]
    rw [hsee]
    exact remembers_fresh hsame.1 hsize hmtime rfl hsha fun p hparse => h.loaded _ file p rfl hparse
  | touched size mtime hstat hnew hok hsha =>
    cases m with
    | none =>
      rw [(h.forgotten rfl).2] at hsha
      exact absurd hsha (sha256Hex_ne_nil lib _)
    | some recorded =>
      obtain ⟨⟨size', mtime'⟩, file⟩ := recorded
      have hrecorded := (h.recorded size' mtime' file rfl).2.2.2
      have htext := hsteady.apart _ file rfl (hsha.trans hrecorded)
      have hne : (size, mtime) ≠ (size', mtime') := fun heq => hnew (h.unchanged_of (by rw [heq]))
      have hsee : Memory.see (some ((size', mtime'), file)) look = some ((size, mtime), file) := by
        unfold Memory.see
        rw [hstat]
        dsimp only
        rw [if_neg hne, if_pos ⟨hok, htext⟩]
      rw [hsee]
      exact remembers_fresh rfl rfl rfl rfl hrecorded fun p hparse => h.loaded _ file p rfl hparse
  | refused size mtime hstat hnew hchanged error hparse =>
    rw [see_new h hstat hnew hchanged]
    refine remembers_fresh rfl rfl rfl rfl rfl fun p hparse' => ?_
    rw [hparse] at hparse'
    cases hparse'
  | loaded size mtime hstat hnew hchanged p hparse =>
    rw [see_new h hstat hnew hchanged]
    exact remembers_fresh rfl rfl rfl rfl rfl fun _ _ => rfl

end Entry

theorem Run.remembers {lib : StoreLibraries} {engineVersion path : GoogleString} {e : Entry} {m : Memory}
    (h : Run lib engineVersion path e m) : e.Remembers lib engineVersion path m := by
  induction h with
  | new => exact Entry.remembers_new
  | refresh _ serial look sidecar hsteady ih => exact ih.refresh serial sidecar hsteady

section

variable {lib : StoreLibraries} {engineVersion path : GoogleString} {e : Entry} {m : Memory} {look : PackLook}
  {content : GoogleString}

theorem Accepts.read (h : Accepts lib engineVersion path look content) : look.file.ok = true ∧
    look.file.text = content ∧ ∃ p, Entry.parse lib engineVersion path look.file.ok look.file.text = .ok p := by
  have htext : look.file.text = content := by
    rw [h.file]
    exact List.take_of_length_le (Nat.le_succ_of_le h.fits)
  have hok : look.file.ok = true := by
    rw [h.file]
    rfl
  obtain ⟨p, hp⟩ := h.pack
  refine ⟨hok, htext, p, ?_⟩
  rw [Entry.parse, hok, htext, if_neg nofun, if_neg (Nat.not_lt.mpr h.fits), hp]

theorem accepts_of_parse {stat : ℕ × ℤ} {p : Pack} (hstat : look.stat = .ok stat)
    (h : Entry.parse lib engineVersion path look.file.ok look.file.text = .ok p) :
    ∃ content, Accepts lib engineVersion path look content := by
  obtain ⟨hok, hlong, hpack⟩ := Entry.parse_ok h
  cases hfile : look.file with
  | closed =>
    rw [hfile] at hok
    cases hok
  | bad buffer =>
    rw [hfile] at hok
    cases hok
  | read content =>
    have htext : look.file.text = content.take (kMaxPackFileBytes + 1) := by rw [hfile]; rfl
    rw [htext, List.length_take] at hlong
    have hfits : content.length ≤ kMaxPackFileBytes := by omega
    rw [htext, List.take_of_length_le (Nat.le_succ_of_le hfits)] at hpack
    exact ⟨content, ⟨stat, hstat⟩, hfile, hfits, p, hpack⟩

theorem sha256_of_accepts (h : e.Remembers lib engineVersion path m) (hsteady : Steady lib m look)
    (haccepts : Accepts lib engineVersion path look content) (serial : ℕ) (sidecar : SidecarLook) :
    (e.refresh lib engineVersion path serial look sidecar).1.loaded.sha256 = sha256Hex lib content ↔
      ¬ Stuck m look ∨ e.loaded.sha256 = sha256Hex lib content := by
  obtain ⟨e', houtcome, heq⟩ := Entry.refresh_outcome e lib engineVersion path serial look sidecar
  obtain ⟨hok, htext, p, hparse⟩ := haccepts.read
  obtain ⟨stat, hstat⟩ := haccepts.stat
  have hloaded : (e.refresh lib engineVersion path serial look sidecar).1.loaded = e'.loaded :=
    (congrArg Entry.loaded heq :)
  rw [hloaded]
  -- A text that is remembered as read has been loaded.
  have hknown : e'.loaded = e.loaded → (∃ stat file, m = some (stat, file) ∧ (look.stat = .ok stat ∨
      look.file.text = file.text)) →
      (e'.loaded.sha256 = sha256Hex lib content ↔ ¬ Stuck m look ∨ e.loaded.sha256 = sha256Hex lib content) := by
    rintro hsame ⟨stat, file, hm, heither⟩
    rw [hsame]
    cases hfile : file.ok with
    | false => exact ⟨Or.inr, fun hor => hor.resolve_left fun hnot => hnot ⟨stat, file, hm, hfile, heither⟩⟩
    | true =>
      have hfileText : look.file.text = file.text := heither.elim (fun hs => hsteady.same stat file hm hs hfile hok) id
      rw [hok, hfileText, ← hfile] at hparse
      have hsha := h.loaded stat file p hm hparse
      rw [← hfileText, htext] at hsha
      exact iff_of_true hsha (Or.inr hsha)
  cases houtcome with
  | stillLost message hlost _ =>
    rw [hstat] at hlost
    cases hlost
  | lost message hlost =>
    rw [hstat] at hlost
    cases hlost
  | unchanged size mtime hstat' hsame =>
    obtain ⟨file, hm⟩ := h.of_unchanged hsame
    exact hknown rfl ⟨_, file, hm, Or.inl hstat'⟩
  | touched size mtime hstat' hnew _ hsha =>
    cases hm : m with
    | none =>
      rw [(h.forgotten hm).2] at hsha
      exact absurd hsha (Entry.sha256Hex_ne_nil lib _)
    | some recorded =>
      obtain ⟨⟨size', mtime'⟩, file⟩ := recorded
      have htext' := hsteady.apart _ file hm (hsha.trans (h.recorded size' mtime' file hm).2.2.2)
      rw [← hm]
      exact hknown rfl ⟨_, file, hm, Or.inr htext'⟩
  | refused size mtime hstat' hnew hchanged error herror =>
    rw [hparse] at herror
    cases herror
  | loaded size mtime hstat' hnew hchanged p' hparse' =>
    refine iff_of_true (by rw [htext]) (Or.inl ?_)
    rintro ⟨⟨size', mtime'⟩, file, hm, hfile, hstat'' | htext'⟩
    · rw [hstat'] at hstat''
      cases hstat''
      exact hnew (h.unchanged_of hm)
    · refine hchanged ⟨hok, ?_⟩
      rw [htext', (h.recorded size' mtime' file hm).2.2.2]

theorem keeps_of_not_accepts (hnone : ∀ content, ¬ Accepts lib engineVersion path look content) (serial : ℕ)
    (sidecar : SidecarLook) : (e.refresh lib engineVersion path serial look sidecar).1.keeps = e.keeps := by
  obtain ⟨e', houtcome, heq⟩ := Entry.refresh_outcome e lib engineVersion path serial look sidecar
  rw [Entry.keeps_congr heq]
  cases houtcome with
  | loaded size mtime hstat hnew hchanged p hparse =>
    obtain ⟨content, haccepts⟩ := accepts_of_parse hstat hparse
    exact absurd haccepts (hnone content)
  | _ => rfl

/-- In any history of refreshes of a path, a refresh that finds a file it can read and a pack that `LoadPack` accepts
leaves the hash of that content, unless the version is remembered as one that could not be read; and any other refresh
keeps the pack that is loaded. -/
theorem refresh_follows (h : Run lib engineVersion path e m) (serial : ℕ) (sidecar : SidecarLook)
    (hsteady : Steady lib m look) :
    (∀ content, Accepts lib engineVersion path look content →
      ((e.refresh lib engineVersion path serial look sidecar).1.loaded.sha256 = sha256Hex lib content ↔
        ¬ Stuck m look ∨ e.loaded.sha256 = sha256Hex lib content)) ∧
      ((∀ content, ¬ Accepts lib engineVersion path look content) →
        (e.refresh lib engineVersion path serial look sidecar).1.keeps = e.keeps) :=
  ⟨fun _ haccepts => sha256_of_accepts h.remembers hsteady haccepts serial sidecar, fun hnone =>
    keeps_of_not_accepts hnone serial sidecar⟩

end

section Sample

def readLibraries : StoreLibraries :=
  { sampleLibraries with
    sha256 := fun text =>
      if text = [] then ⟨bytesOf "47DEQpj8HBSa+/TImW+5JCeuQeRkm5NMpJWZG3hSuFU=", by decide +kernel⟩
      else sampleLibraries.sha256 text }

def firstStat : ℕ × ℤ := (firstPack.length, 1)

def noSidecar : SidecarLook := ⟨false, false, none, none, .closed⟩

theorem length_firstPack : firstPack.length ≤ kMaxPackFileBytes := by decide +kernel

theorem accepts_first :
    Accepts readLibraries [] samplePath ⟨.ok firstStat, .read firstPack⟩ firstPack where
  stat := ⟨firstStat, rfl⟩
  file := rfl
  fits := length_firstPack
  pack := ⟨⟨publisher⟩, by simp only [readLibraries, sampleLibraries, true_or, if_true]⟩

/-- A pack that is there from the start. -/
theorem refresh_follows_first : (({} : Entry).refresh readLibraries [] samplePath 0 ⟨.ok firstStat, .read firstPack⟩
    noSidecar).1.loaded.sha256 = sha256Hex readLibraries firstPack :=
  ((refresh_follows (.new) 0 noSidecar ⟨nofun, nofun⟩).1 firstPack accepts_first).mpr (Or.inl nofun)

/-- A pack that cannot be opened at first is not loaded when it can, as its size and time are the same. -/
theorem unreadable_first : ∃ e m, Run readLibraries [] samplePath e m ∧
    Steady readLibraries m ⟨.ok firstStat, .read firstPack⟩ ∧
    Accepts readLibraries [] samplePath ⟨.ok firstStat, .read firstPack⟩ firstPack ∧
    (e.refresh readLibraries [] samplePath 1 ⟨.ok firstStat, .read firstPack⟩ noSidecar).1.loaded.sha256 ≠
      sha256Hex readLibraries firstPack := by
  have hsteady : Steady readLibraries none ⟨.ok firstStat, .closed⟩ := ⟨nofun, nofun⟩
  have hnew : Run readLibraries [] samplePath {} none := .new
  have hrun := hnew.refresh 0 ⟨.ok firstStat, .closed⟩ noSidecar hsteady
  have hsteady' : Steady readLibraries (some (firstStat, .closed)) ⟨.ok firstStat, .read firstPack⟩ := by
    refine ⟨?_, ?_⟩
    · rintro stat file heq _ hok
      cases heq
      cases hok
    · rintro stat file heq hsha
      cases heq
      have hdiffer : sha256Hex readLibraries firstPack ≠ sha256Hex readLibraries [] := by decide +kernel
      rw [accepts_first.read.2.1] at hsha
      exact absurd hsha hdiffer
  refine ⟨_, some (firstStat, .closed), hrun, hsteady', accepts_first, ?_⟩
  have hnone : ∀ content, ¬ Accepts readLibraries [] samplePath ⟨.ok firstStat, .closed⟩ content := fun _ haccepts => by
    cases haccepts.file
  have hempty := congrArg (fun kept => kept.2.1) (keeps_of_not_accepts (e := {}) hnone 0 noSidecar)
  rw [Ne, sha256_of_accepts hrun.remembers hsteady' accepts_first]
  rintro (hstuck | hsha)
  · have hstill : Stuck (some (firstStat, .closed)) ⟨.ok firstStat, .read firstPack⟩ :=
      ⟨firstStat, .closed, rfl, rfl, Or.inl rfl⟩
    exact hstuck hstill
  · exact Entry.sha256Hex_ne_nil readLibraries firstPack (hsha.symm.trans hempty)

end Sample

end PageSpeed.RulePack
