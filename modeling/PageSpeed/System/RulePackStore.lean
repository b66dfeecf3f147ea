import PageSpeed.System.PackSignature
import PageSpeed.Lib.Records
import PageSpeed.Lib.Machine

/-!
`RulePackStore::Get` of `pagespeed/system/rule_pack_store.cc`. A thread is where
its call stands between two sections of the lock. What a thread finds when it
looks at the files is up to the action.
-/

namespace PageSpeed.RulePack

def kPackRecheckIntervalSec : ℤ := 10

def kRecheckMs : ℤ := kPackRecheckIntervalSec * 1000

def kMaxPackFileBytes : ℕ := 1024 * 1024

def kMaxReported : ℕ := 4096

structure Pack where
  publisher : GoogleString
  deriving DecidableEq

structure StoreLibraries extends SignatureLibraries where
  sha256 : GoogleString → { digest : GoogleString // digest.length = 32 }
  loadPack (contents engineVersion path : GoogleString) : Except GoogleString Pack

structure PackPtr where
  serial : ℕ
  pack : Pack
  parsedFrom : GoogleString
  deriving DecidableEq

structure LoadedRulePack where
  pack : Option PackPtr := none
  sha256 : GoogleString := []
  keyId : GoogleString := []
  deriving DecidableEq

inductive LoadEvent where
  | kNone | kLoaded | kFailed
  deriving DecidableEq

inductive SignatureEvent where
  | kNone | kVerified | kRefusedUnsigned | kRefusedSignatureUnreadable | kRefusedPublisherMismatch | kRefusedUnknownKey
  | kRefusedBadSignature
  deriving DecidableEq

structure Entry where
  checkedMs : ℤ := -1
  refreshing : Bool := false
  hasStat : Bool := false
  unreadableReported : Bool := false
  mtime : ℤ := 0
  size : ℤ := -1
  sha256 : GoogleString := []
  lastEventMs : ℤ := -1
  lastError : GoogleString := []
  loaded : LoadedRulePack := {}
  bytes : Option GoogleString := none
  sigStatKnown : Bool := false
  sigPresent : Bool := false
  sigMtime : ℤ := 0
  sigSize : ℤ := -1
  sidecar : SidecarState := {}
  sidecarSha : GoogleString := []

structure Verdict where
  status : SignatureStatus
  keyId : GoogleString
  deriving DecidableEq

structure Alias where
  resolvedMs : ℤ := -1
  canonical : GoogleString := []

inductive FileRead where
  | closed
  | bad (buffer : GoogleString)
  | read (contents : GoogleString)
  deriving DecidableEq

structure PackLook where
  stat : Except GoogleString (ℕ × ℤ)
  file : FileRead

structure SidecarLook where
  present : Bool
  regular : Bool
  size : Option ℕ
  mtime : Option ℤ
  file : FileRead
  deriving DecidableEq

def readBounded (maxBytes : ℕ) : FileRead → Bool × GoogleString
  | .closed => (false, [])
  | .bad buffer => (false, buffer)
  | .read contents => (true, contents.take (maxBytes + 1))

def sha256Hex (lib : StoreLibraries) (data : GoogleString) : GoogleString := bytesToHexString (lib.sha256 data).val

/-- The state of a sidecar, and its `sidecar_sha`. -/
def SidecarLook.state (lib : StoreLibraries) (look : SidecarLook) : SidecarState × GoogleString :=
  if look.present = false ∨ look.regular = false then
    ({ present := look.present }, ascii (if look.present then "!" else "-"))
  else
    let (ok, text) := readBounded kMaxSidecarBytes look.file
    if ok = true ∧ text.length ≤ kMaxSidecarBytes then (⟨true, true, text⟩, sha256Hex lib text)
    else ({ present := true }, ascii "!")

def SidecarLook.mtimeTicks (look : SidecarLook) : ℤ :=
  if look.present && look.regular then look.mtime.getD 0 else 0

def SidecarLook.sizeBytes (look : SidecarLook) : ℤ :=
  if look.present && look.regular then (look.size.map Int.ofNat).getD (-1) else -1

namespace Entry

def refreshSidecar (lib : StoreLibraries) (look : SidecarLook) (force : Bool) (entry : Entry) : Entry :=
  if force = false ∧ entry.sigStatKnown = true ∧ entry.sigPresent = look.present ∧
      entry.sigMtime = look.mtimeTicks ∧ entry.sigSize = look.sizeBytes then entry
  else
    { entry with
      sigStatKnown := true
      sigPresent := look.present
      sigMtime := look.mtimeTicks
      sigSize := look.sizeBytes
      sidecar := (look.state lib).1
      sidecarSha := (look.state lib).2 }

def parse (lib : StoreLibraries) (engineVersion path : GoogleString) (readOk : Bool) (contents : GoogleString) :
    Except GoogleString Pack :=
  if readOk = false then .error (ascii "cannot be read")
  else if kMaxPackFileBytes < contents.length then .error (ascii "is larger than 1048576 bytes")
  else lib.loadPack contents engineVersion path

/-- `Refresh`, where the pack is made under the given serial number. -/
def refresh (lib : StoreLibraries) (engineVersion path : GoogleString) (serial : ℕ) (pack : PackLook)
    (sidecar : SidecarLook) (entry : Entry) : Entry × LoadEvent :=
  match pack.stat with
  | .error message =>
    if entry.unreadableReported then (entry, .kNone)
    else
      ({ entry with
        unreadableReported := true
        hasStat := false
        sha256 := []
        lastError := ascii "cannot be read: " ++ message }, .kFailed)
  | .ok (size, mtime) =>
    let packUnchanged := decide (entry.hasStat = true ∧ entry.mtime = mtime ∧ entry.size = size)
    let fileIsLoadedPack := decide (entry.sha256 = entry.loaded.sha256)
    let entry := { entry with unreadableReported := false }
    if packUnchanged then (if fileIsLoadedPack then entry.refreshSidecar lib sidecar false else entry, .kNone)
    else
      let entry := { entry with hasStat := true, mtime := mtime, size := size }
      let (readOk, contents) := readBounded kMaxPackFileBytes pack.file
      let sha := sha256Hex lib contents
      if readOk = true ∧ sha = entry.sha256 then
        (if fileIsLoadedPack then entry.refreshSidecar lib sidecar false else entry, .kNone)
      else
        match parse lib engineVersion path readOk contents with
        | .error e => ({ entry with sha256 := sha, lastError := e }, .kFailed)
        | .ok p =>
          let loaded := { entry.loaded with pack := some ⟨serial, p, contents⟩, sha256 := sha }
          let entry := { entry with sha256 := sha, loaded := loaded, lastError := [], bytes := some contents }
          (entry.refreshSidecar lib sidecar true, .kLoaded)

end Entry

structure Snapshot where
  canonical : GoogleString
  trust : PackTrust
  loaded : LoadedRulePack
  pack : PackPtr
  holds : loaded.pack = some pack
  bytes : Option GoogleString
  sidecar : SidecarState
  sidecarSha : GoogleString
  event : LoadEvent

inductive Pc where
  | idle
  | resolving (path : GoogleString) (trust : PackTrust) (nowMs : ℤ)
  | entering (canonical : GoogleString) (trust : PackTrust) (nowMs : ℤ)
  | refreshing (canonical : GoogleString) (trust : PackTrust) (nowMs : ℤ) (work : Entry)
  | lookingUp (snapshot : Snapshot)
  | checking (snapshot : Snapshot)
  | reporting (snapshot : Snapshot) (verdict : Verdict)
  | accepting (snapshot : Snapshot) (verdict : Verdict) (first : Bool)

structure RulePackStore where
  aliases : GoogleString → Alias
  entries : GoogleString → Entry
  verdicts : List (GoogleString × Verdict)
  reported : List GoogleString
  accepted : GoogleString × GoogleString → Option LoadedRulePack

inductive Event where
  | looked (canonical : GoogleString) (sidecar : SidecarLook)
  | loaded (canonical : GoogleString) (pack : PackPtr)
  | checked (packBytes publisher : GoogleString) (sidecar : SidecarState) (trust : PackTrust) (status : SignatureStatus)
  | stored (slot : GoogleString × GoogleString) (pack : PackPtr)
  | returned (thread : ℕ) (trust : PackTrust) (result : LoadedRulePack) (event : LoadEvent)
      (signatureEvent : SignatureEvent)
  deriving DecidableEq

structure World where
  store : RulePackStore
  pc : ℕ → Pc
  serials : ℕ
  history : List Event

inductive Action where
  | get (thread : ℕ) (path : GoogleString) (trust : PackTrust) (nowMs : ℤ)
  | resolved (thread : ℕ) (canonical : Option GoogleString)
  | refreshed (thread : ℕ) (pack : PackLook) (sidecar : SidecarLook)
  | proceed (thread : ℕ)

namespace Snapshot

variable (s : Snapshot)

def verdictKey : GoogleString := s.loaded.sha256 ++ [124] ++ (s.sidecarSha ++ [124] ++ s.trust.fingerprint)

def slot : GoogleString × GoogleString := (s.canonical, s.trust.fingerprint)

def signatureEvent (first : Bool) (status : SignatureStatus) : SignatureEvent :=
  if first = false then .kNone
  else
    match status with
    | .kVerified => .kVerified
    | .kUnsigned => if s.trust.requireSigned then .kRefusedUnsigned else .kNone
    | .kUnreadable => if s.trust.requireSigned then .kRefusedSignatureUnreadable else .kNone
    | .kPublisherMismatch => if s.trust.requireSigned then .kRefusedPublisherMismatch else .kNone
    | .kUnknownKey => if s.trust.requireSigned then .kRefusedUnknownKey else .kNone
    | .kBadSignature => if s.trust.requireSigned then .kRefusedBadSignature else .kNone

def mayUse (verdict : Verdict) : Bool := verdict.status == .kVerified || !s.trust.requireSigned

def named (verdict : Verdict) : LoadedRulePack :=
  if verdict.status = .kVerified then { s.loaded with keyId := verdict.keyId } else s.loaded

end Snapshot

namespace World

variable (lib : StoreLibraries) (engineVersion : GoogleString) (w : World) (t : ℕ)

def goto (pc : Pc) : World := { w with pc := Function.update w.pc t pc }

def note (event : Event) : World := { w with history := event :: w.history }

def setAlias (path : GoogleString) (a : Alias) : World :=
  { w with store := { w.store with aliases := Function.update w.store.aliases path a } }

def setEntry (canonical : GoogleString) (entry : Entry) : World :=
  { w with store := { w.store with entries := Function.update w.store.entries canonical entry } }

def setVerdicts (verdicts : List (GoogleString × Verdict)) : World :=
  { w with store := { w.store with verdicts := verdicts } }

def setReported (reported : List GoogleString) : World := { w with store := { w.store with reported := reported } }

def setAccepted (slot : GoogleString × GoogleString) (l : LoadedRulePack) : World :=
  { w with store := { w.store with accepted := Function.update w.store.accepted slot (some l) } }

def serve (canonical : GoogleString) (trust : PackTrust) (event : LoadEvent) (entry : Entry) : World :=
  match h : entry.loaded.pack with
  | none => (w.note (.returned t trust entry.loaded event .kNone)).goto t .idle
  | some pack =>
    w.goto t (.lookingUp ⟨canonical, trust, entry.loaded, pack, h, entry.bytes, entry.sidecar, entry.sidecarSha, event⟩)

def get (path : GoogleString) (trust : PackTrust) (nowMs : ℤ) : World :=
  let a := w.store.aliases path
  if a.resolvedMs < 0 ∨ kRecheckMs ≤ nowMs - a.resolvedMs then w.goto t (.resolving path trust nowMs)
  else w.goto t (.entering a.canonical trust nowMs)

def resolved (path : GoogleString) (trust : PackTrust) (nowMs : ℤ) (canonical : Option GoogleString) : World :=
  (w.setAlias path ⟨nowMs, canonical.getD path⟩).goto t (.entering (canonical.getD path) trust nowMs)

def enter (canonical : GoogleString) (trust : PackTrust) (nowMs : ℤ) : World :=
  let entry := w.store.entries canonical
  if entry.refreshing = false ∧ (entry.checkedMs < 0 ∨ kRecheckMs ≤ nowMs - entry.checkedMs) then
    let entry := { entry with refreshing := true, checkedMs := nowMs }
    (w.setEntry canonical entry).goto t (.refreshing canonical trust nowMs entry)
  else w.serve t canonical trust .kNone entry

def noteLoad (canonical : GoogleString) (event : LoadEvent) (entry : Entry) : World :=
  match event, entry.loaded.pack with
  | .kLoaded, some pack => { w.note (.loaded canonical pack) with serials := w.serials + 1 }
  | _, _ => w

/-- `Refresh`, and the section that puts the copy back. -/
def refreshed (canonical : GoogleString) (trust : PackTrust) (nowMs : ℤ) (work : Entry) (pack : PackLook)
    (sidecar : SidecarLook) : World :=
  let (work, event) := work.refresh lib engineVersion canonical w.serials pack sidecar
  let lastEventMs := if event = .kNone then work.lastEventMs else nowMs
  let work :=
    { work with
      checkedMs := (w.store.entries canonical).checkedMs
      refreshing := false
      lastEventMs := lastEventMs }
  let w := (w.note (.looked canonical sidecar)).noteLoad canonical event work
  (w.setEntry canonical work).serve t canonical trust event work

def lookUp (s : Snapshot) : World :=
  match Records.find s.verdictKey w.store.verdicts with
  | some verdict => w.goto t (.reporting s verdict)
  | none => w.goto t (.checking s)

/-- `emplace` leaves a verdict that is already there. -/
def insertVerdict (key : GoogleString) (verdict : Verdict) : World :=
  let verdicts := if 256 < w.store.verdicts.length then [] else w.store.verdicts
  w.setVerdicts (if (Records.find key verdicts).isSome then verdicts else (key, verdict) :: verdicts)

def check (s : Snapshot) : World :=
  match s.bytes with
  | none =>
    let verdict := ⟨.kUnsigned, []⟩
    (w.insertVerdict s.verdictKey verdict).goto t (.reporting s verdict)
  | some bytes =>
    let (status, keyId) := checkPackSignature lib.toSignatureLibraries bytes s.pack.pack.publisher s.sidecar s.trust
    let w := w.note (.checked bytes s.pack.pack.publisher s.sidecar s.trust status)
    (w.insertVerdict s.verdictKey ⟨status, keyId⟩).goto t (.reporting s ⟨status, keyId⟩)

def report (s : Snapshot) (verdict : Verdict) : World :=
  let reported := if kMaxReported ≤ w.store.reported.length then [] else w.store.reported
  let first := decide (s.verdictKey ∉ reported)
  (w.setReported (if first then s.verdictKey :: reported else reported)).goto t (.accepting s verdict first)

def storeSlot (s : Snapshot) (l : LoadedRulePack) : World :=
  let slot := (w.store.accepted s.slot).getD {}
  let kept := if slot.pack.map PackPtr.serial ≠ some s.pack.serial ∨ slot.keyId ≠ l.keyId then l else slot
  (w.setAccepted s.slot kept).note (.stored s.slot s.pack)

def answer (s : Snapshot) (verdict : Verdict) (first : Bool) (accepted : LoadedRulePack) : World :=
  (w.note (.returned t s.trust accepted s.event (s.signatureEvent first verdict.status))).goto t .idle

def accept (s : Snapshot) (verdict : Verdict) (first : Bool) : World :=
  if s.mayUse verdict then (w.storeSlot s (s.named verdict)).answer t s verdict first (s.named verdict)
  else w.answer t s verdict first ((w.store.accepted s.slot).getD {})

def step : Action → Option World
  | .get t path trust nowMs =>
    match w.pc t with
    | .idle => some (w.get t path trust nowMs)
    | _ => none
  | .resolved t canonical =>
    match w.pc t with
    | .resolving path trust nowMs => some (w.resolved t path trust nowMs canonical)
    | _ => none
  | .refreshed t pack sidecar =>
    match w.pc t with
    | .refreshing canonical trust nowMs work =>
      some (w.refreshed lib engineVersion t canonical trust nowMs work pack sidecar)
    | _ => none
  | .proceed t =>
    match w.pc t with
    | .entering canonical trust nowMs => some (w.enter t canonical trust nowMs)
    | .lookingUp s => some (w.lookUp t s)
    | .checking s => some (w.check lib t s)
    | .reporting s verdict => some (w.report t s verdict)
    | .accepting s verdict first => some (w.accept t s verdict first)
    | _ => none

def start : World := ⟨⟨fun _ => {}, fun _ => {}, [], [], fun _ => none⟩, fun _ => .idle, 0, []⟩

end World

end PageSpeed.RulePack
