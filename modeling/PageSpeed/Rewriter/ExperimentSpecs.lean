import PageSpeed.Base.Ascii
import PageSpeed.Base.StringUtil
import Mathlib.Data.Finset.Lattice.Fold

/-!
The experiments of `RewriteOptions`: how a spec is read, and the traffic that the accepted specs
take. Filters, options and origins are what the rest of `RewriteOptions` reads in their texts.
-/

namespace PageSpeed.Experiment

inductive RewriteLevel
  | kPassThrough | kOptimizeForBandwidth | kCoreFilters | kMobilizeFilters | kTestingCoreFilters | kAllFilters
  deriving DecidableEq

inductive DeviceType
  | kDesktop | kTablet | kMobile
  deriving DecidableEq

variable {Filter Opt Origin : Type*}

structure SpecReader (Filter Opt Origin : Type*) where
  /-- Whether the text is a number, and what is stored, also of a text that is none. -/
  stringToInt : GoogleString → Int32 → Bool × Int32
  addCommaSeparatedListToFilterSet : GoogleString → Finset Filter → Bool → Finset Filter
  addCommaSeparatedListToOptionSet : GoogleString → Finset Opt → Finset Opt
  parseAlternateOriginDomain : GoogleString → Option Origin

structure ExperimentSpec (Filter Opt Origin : Type*) where
  id : Int32
  gaId : GoogleString
  gaVariableSlot : Int32
  percent : Int32 := -1
  rewriteLevel : RewriteLevel := .kPassThrough
  enabledFilters : Finset Filter := ∅
  disabledFilters : Finset Filter := ∅
  filterOptions : Finset Opt := ∅
  matchesDeviceTypes : Option (Finset DeviceType) := none
  useDefault : Bool := false
  alternateOriginDomains : List Origin := []

def kExperimentNotSet : Int32 := -1
def kNoExperiment : Int32 := 0
def kDefaultExperimentSlot : Int32 := 1

def pieceAfterEquals (piece : GoogleString) : GoogleString := trimWhitespace ((piece.dropWhile (· ≠ 61)).drop 1)

def parseRewriteLevel (text : GoogleString) (out : RewriteLevel) : RewriteLevel :=
  if stringCaseEqual text (ascii "CoreFilters") then .kCoreFilters
  else if stringCaseEqual text (ascii "PassThrough") then .kPassThrough
  else if stringCaseEqual text (ascii "OptimizeForBandwidth") then .kOptimizeForBandwidth
  else if stringCaseEqual text (ascii "MobilizeFilters") then .kMobilizeFilters
  else if stringCaseEqual text (ascii "TestingCoreFilters") then .kTestingCoreFilters
  else if stringCaseEqual text (ascii "AllFilters") then .kAllFilters
  else out

def parseDeviceTypeBitSet (text : GoogleString) : Finset DeviceType :=
  (splitStringPieceToVector text (ascii ",") true).foldl (fun out device =>
    if device = ascii "desktop" then insert .kDesktop out
    else if device = ascii "mobile" then insert .kMobile out
    else if device = ascii "tablet" then insert .kTablet out
    else out) ∅

namespace ExperimentSpec

def setPiece (r : SpecReader Filter Opt Origin) (spec : ExperimentSpec Filter Opt Origin) (piece : GoogleString) :
    ExperimentSpec Filter Opt Origin :=
  let piece := trimWhitespace piece
  let value := pieceAfterEquals piece
  if stringCaseStartsWith piece (ascii "id") then
    if value = [] then spec
    else
      let (isInt, id) := r.stringToInt value spec.id
      { spec with id := if isInt then id else kExperimentNotSet }
  else if stringCaseEqual piece (ascii "default") then { spec with useDefault := true }
  else if stringCaseStartsWith piece (ascii "percent") then
    { spec with percent := (r.stringToInt value spec.percent).2 }
  else if stringCaseStartsWith piece (ascii "ga") then if value = [] then spec else { spec with gaId := value }
  else if stringCaseStartsWith piece (ascii "slot") then
    let slot := (r.stringToInt value spec.gaVariableSlot).2
    if slot < 1 ∨ 5 < slot then spec else { spec with gaVariableSlot := slot }
  else if stringCaseStartsWith piece (ascii "level") then
    { spec with rewriteLevel := parseRewriteLevel value spec.rewriteLevel }
  else if stringCaseStartsWith piece (ascii "enable") then
    if value = [] then spec
    else { spec with enabledFilters := r.addCommaSeparatedListToFilterSet value spec.enabledFilters true }
  else if stringCaseStartsWith piece (ascii "disable") then
    if value = [] then spec
    else { spec with disabledFilters := r.addCommaSeparatedListToFilterSet value spec.disabledFilters false }
  else if stringCaseStartsWith piece (ascii "options") then
    if value = [] then spec
    else { spec with filterOptions := r.addCommaSeparatedListToOptionSet value spec.filterOptions }
  else if stringCaseStartsWith piece (ascii "matches_device_type") then
    { spec with matchesDeviceTypes := some (parseDeviceTypeBitSet value) }
  else if stringCaseStartsWith piece (ascii "alternate_origin_domain=") then
    match r.parseAlternateOriginDomain value with
    | none => spec
    | some origin => { spec with alternateOriginDomains := spec.alternateOriginDomains ++ [origin] }
  else spec

def initializeSpec (r : SpecReader Filter Opt Origin) (spec : ExperimentSpec Filter Opt Origin) (text : GoogleString) :
    ExperimentSpec Filter Opt Origin :=
  (splitStringPieceToVector text (ascii ";") true).foldl (setPiece r) spec

def ofText (r : SpecReader Filter Opt Origin) (gaId : GoogleString) (experimentGaSlot : Int32) (text : GoogleString) :
    ExperimentSpec Filter Opt Origin :=
  initializeSpec r { id := kExperimentNotSet, gaId, gaVariableSlot := experimentGaSlot } text

def merge [DecidableEq Filter] [DecidableEq Opt] (self spec : ExperimentSpec Filter Opt Origin) :
    ExperimentSpec Filter Opt Origin :=
  { id := self.id
    gaId := spec.gaId
    gaVariableSlot := spec.gaVariableSlot
    percent := spec.percent
    rewriteLevel := spec.rewriteLevel
    enabledFilters := self.enabledFilters ∪ spec.enabledFilters
    disabledFilters := self.disabledFilters ∪ spec.disabledFilters
    filterOptions := self.filterOptions ∪ spec.filterOptions
    matchesDeviceTypes := spec.matchesDeviceTypes.or self.matchesDeviceTypes
    useDefault := spec.useDefault
    alternateOriginDomains :=
      if spec.alternateOriginDomains.isEmpty then self.alternateOriginDomains else spec.alternateOriginDomains }

def clone [DecidableEq Filter] [DecidableEq Opt] (spec : ExperimentSpec Filter Opt Origin) :
    ExperimentSpec Filter Opt Origin :=
  merge { id := spec.id, gaId := [], gaVariableSlot := kDefaultExperimentSlot } spec

end ExperimentSpec

structure RewriteOptions (Filter Opt Origin : Type*) where
  experimentId : Int32 := kExperimentNotSet
  experimentPercent : Int32 := 0
  experimentSpecs : List (ExperimentSpec Filter Opt Origin) := []

namespace RewriteOptions

def getExperimentSpec (o : RewriteOptions Filter Opt Origin) (id : Int32) : Option (ExperimentSpec Filter Opt Origin) :=
  o.experimentSpecs.find? fun spec => spec.id = id

def availableExperimentId (o : RewriteOptions Filter Opt Origin) (id : Int32) : Bool :=
  if id < 0 ∨ id = kExperimentNotSet ∨ id = kNoExperiment then false else (o.getExperimentSpec id).isNone

def insertExperimentSpecInVector (o : RewriteOptions Filter Opt Origin) (spec : ExperimentSpec Filter Opt Origin) :
    Bool × RewriteOptions Filter Opt Origin :=
  if !o.availableExperimentId spec.id ∨ spec.percent < 0 ∨ 100 < o.experimentPercent + spec.percent ∨
      26 < o.experimentSpecs.length + 1 then (false, o)
  else
    (true, { o with
      experimentSpecs := o.experimentSpecs ++ [spec]
      experimentPercent := o.experimentPercent + spec.percent })

def addExperimentSpec (r : SpecReader Filter Opt Origin) (o : RewriteOptions Filter Opt Origin) (gaId : GoogleString)
    (experimentGaSlot : Int32) (text : GoogleString) : Bool × RewriteOptions Filter Opt Origin :=
  o.insertExperimentSpecInVector (ExperimentSpec.ofText r gaId experimentGaSlot text)

def merge [DecidableEq Filter] [DecidableEq Opt] (o src : RewriteOptions Filter Opt Origin) :
    RewriteOptions Filter Opt Origin :=
  src.experimentSpecs.foldl (fun o spec => (o.insertExperimentSpecInVector spec.clone).2)
    { o with experimentId := src.experimentId }

/-! The traffic of the experiments. -/

def totalPercent : List (ExperimentSpec Filter Opt Origin) → ℤ
  | [] => 0
  | spec :: specs => spec.percent.toInt + totalPercent specs

theorem totalPercent_snoc (specs : List (ExperimentSpec Filter Opt Origin)) (spec : ExperimentSpec Filter Opt Origin) :
    totalPercent (specs ++ [spec]) = totalPercent specs + spec.percent.toInt := by
  induction specs with
  | nil => exact Int.add_comm _ _
  | cons first specs ih => rw [List.cons_append, totalPercent, ih, totalPercent, Int.add_assoc]

theorem totalPercent_nonneg {specs : List (ExperimentSpec Filter Opt Origin)}
    (h : ∀ spec ∈ specs, 0 ≤ spec.percent.toInt) : 0 ≤ totalPercent specs := by
  induction specs with
  | nil => exact Int.le_refl 0
  | cons spec specs ih =>
    rw [List.forall_mem_cons] at h
    exact Int.add_nonneg h.1 (ih h.2)

theorem percent_le_total {specs : List (ExperimentSpec Filter Opt Origin)}
    (h : ∀ spec ∈ specs, 0 ≤ spec.percent.toInt) {spec : ExperimentSpec Filter Opt Origin} (hspec : spec ∈ specs) :
    spec.percent.toInt ≤ totalPercent specs := by
  induction specs with
  | nil => cases hspec
  | cons first specs ih =>
    rw [List.forall_mem_cons] at h
    have hrest := totalPercent_nonneg h.2
    rw [totalPercent]
    obtain rfl | hspec := List.mem_cons.mp hspec
    · omega
    · have hle := ih h.2 hspec
      omega

structure Balanced (o : RewriteOptions Filter Opt Origin) : Prop where
  total : o.experimentPercent.toInt = totalPercent o.experimentSpecs
  le : o.experimentPercent.toInt ≤ 100
  nonneg : ∀ spec ∈ o.experimentSpecs, 0 ≤ spec.percent.toInt
  distinct : (o.experimentSpecs.map (·.id)).Nodup
  unreserved : ∀ spec ∈ o.experimentSpecs, 0 ≤ spec.id ∧ spec.id ≠ kExperimentNotSet ∧ spec.id ≠ kNoExperiment
  count : o.experimentSpecs.length ≤ 26

/-- The percents are added in an `int` only where the sum is one. -/
def Fits (o : RewriteOptions Filter Opt Origin) (spec : ExperimentSpec Filter Opt Origin) : Prop :=
  o.availableExperimentId spec.id = true → 0 ≤ spec.percent → o.experimentSpecs.length + 1 ≤ 26 →
    o.experimentPercent.toInt + spec.percent.toInt < 2 ^ 31

theorem available_iff (o : RewriteOptions Filter Opt Origin) (id : Int32) :
    o.availableExperimentId id = true ↔ (0 ≤ id ∧ id ≠ kExperimentNotSet ∧ id ≠ kNoExperiment) ∧
      ∀ spec ∈ o.experimentSpecs, spec.id ≠ id := by
  rw [availableExperimentId, getExperimentSpec]
  split_ifs with h
  · refine iff_of_false not_false fun ⟨⟨hle, hset, hno⟩, _⟩ => ?_
    obtain h | h | h := h
    · exact Int32.not_lt.mpr hle h
    · exact hset h
    · exact hno h
  · rw [not_or, not_or, Int32.not_lt] at h
    rw [Option.isNone_iff_eq_none, List.find?_eq_none]
    exact ⟨fun hnone => ⟨h, fun spec hspec heq => hnone spec hspec (decide_eq_true heq)⟩,
      fun hnone spec hspec heq => hnone.2 spec hspec (of_decide_eq_true heq)⟩

theorem insert_cases (o : RewriteOptions Filter Opt Origin) (spec : ExperimentSpec Filter Opt Origin) :
    o.insertExperimentSpecInVector spec = (false, o) ∨
      (o.availableExperimentId spec.id = true ∧ 0 ≤ spec.percent ∧ o.experimentPercent + spec.percent ≤ 100 ∧
        o.experimentSpecs.length + 1 ≤ 26) ∧
      o.insertExperimentSpecInVector spec = (true, { o with
        experimentSpecs := o.experimentSpecs ++ [spec]
        experimentPercent := o.experimentPercent + spec.percent }) := by
  rw [insertExperimentSpecInVector]
  split_ifs with h
  · exact Or.inl rfl
  · simp only [not_or, Bool.not_eq_true', Bool.not_eq_false, Int32.not_lt, Nat.not_lt] at h
    exact Or.inr ⟨h, rfl⟩

theorem Balanced.insert {o : RewriteOptions Filter Opt Origin} (h : Balanced o)
    {spec : ExperimentSpec Filter Opt Origin} (hfits : Fits o spec) :
    Balanced (o.insertExperimentSpecInVector spec).2 := by
  obtain hrefused | ⟨⟨havailable, hpercent, hle, hcount⟩, hkept⟩ := o.insert_cases spec
  · rw [hrefused]
    exact h
  · rw [hkept]
    have hsum : (o.experimentPercent + spec.percent).toInt = o.experimentPercent.toInt + spec.percent.toInt := by
      have hlt := hfits havailable hpercent hcount
      rw [Int32.le_iff_toInt_le] at hpercent
      have hnonneg := Int32.le_toInt o.experimentPercent
      rw [Int32.toInt_add, Int.bmod_def]
      have hzero : (0 : Int32).toInt = 0 := rfl
      split_ifs <;> omega
    rw [Int32.le_iff_toInt_le, hsum] at hle
    rw [Int32.le_iff_toInt_le] at hpercent
    obtain ⟨hunreserved, hnew⟩ := (available_iff o spec.id).mp havailable
    exact {
      total := by rw [hsum, h.total, totalPercent_snoc]
      le := by rw [hsum]; exact hle
      nonneg := by
        intro spec' hspec'
        obtain hspec' | hspec' := List.mem_append.mp hspec'
        · exact h.nonneg spec' hspec'
        · rw [List.mem_singleton.mp hspec']
          exact hpercent
      distinct := by
        rw [List.map_append, List.map_singleton, List.nodup_append]
        refine ⟨h.distinct, List.nodup_singleton _, fun id hid id' hid' => ?_⟩
        obtain ⟨spec', hspec', rfl⟩ := List.mem_map.mp hid
        rw [List.mem_singleton.mp hid']
        exact hnew spec' hspec'
      unreserved := by
        intro spec' hspec'
        obtain hspec' | hspec' := List.mem_append.mp hspec'
        · exact h.unreserved spec' hspec'
        · rw [List.mem_singleton.mp hspec']
          exact hunreserved
      count := by rw [List.length_append, List.length_singleton]; exact hcount }

theorem Balanced.fits {o : RewriteOptions Filter Opt Origin} (h : Balanced o) {spec : ExperimentSpec Filter Opt Origin}
    (hspec : spec.percent.toInt ≤ 100) : Fits o spec := by
  intro _ _ _
  have hle := h.le
  omega

theorem Balanced.merge [DecidableEq Filter] [DecidableEq Opt] {o src : RewriteOptions Filter Opt Origin}
    (h : Balanced o) (hsrc : Balanced src) : Balanced (o.merge src) := by
  have hsmall : ∀ spec ∈ src.experimentSpecs, spec.percent.toInt ≤ 100 := fun spec hspec =>
    Int.le_trans (percent_le_total hsrc.nonneg hspec) (hsrc.total ▸ hsrc.le)
  have hrun : ∀ (specs : List (ExperimentSpec Filter Opt Origin)) (o : RewriteOptions Filter Opt Origin),
      (∀ spec ∈ specs, spec.percent.toInt ≤ 100) → Balanced o →
      Balanced (specs.foldl (fun o spec => (o.insertExperimentSpecInVector spec.clone).2) o) := by
    intro specs
    induction specs with
    | nil => exact fun o _ ho => ho
    | cons spec specs ih =>
      intro o hspecs ho
      rw [List.forall_mem_cons] at hspecs
      exact ih _ hspecs.2 (ho.insert (@Balanced.fits _ _ _ _ ho spec.clone hspecs.1))
  exact hrun src.experimentSpecs _ hsmall { h with }

inductive Reached [DecidableEq Filter] [DecidableEq Opt] (r : SpecReader Filter Opt Origin)
    (allowed : RewriteOptions Filter Opt Origin → ExperimentSpec Filter Opt Origin → Prop) :
    RewriteOptions Filter Opt Origin → Prop
  | new : Reached r allowed {}
  | add (gaId : GoogleString) (experimentGaSlot : Int32) (text : GoogleString) {o : RewriteOptions Filter Opt Origin}
      (h : Reached r allowed o) (hallowed : allowed o (ExperimentSpec.ofText r gaId experimentGaSlot text)) :
      Reached r allowed (o.addExperimentSpec r gaId experimentGaSlot text).2
  | merge {o src : RewriteOptions Filter Opt Origin} (h : Reached r allowed o) (hsrc : Reached r allowed src) :
      Reached r allowed (o.merge src)

/-- As long as the sums are not above an `int`, the arms share the traffic. -/
theorem arms_share_traffic [DecidableEq Filter] [DecidableEq Opt] (r : SpecReader Filter Opt Origin)
    {o : RewriteOptions Filter Opt Origin} (h : Reached r Fits o) :
    Balanced o ∧ ∀ gaId experimentGaSlot text, (o.addExperimentSpec r gaId experimentGaSlot text).1 = false →
      (o.addExperimentSpec r gaId experimentGaSlot text).2 = o := by
  refine ⟨?_, fun gaId slot text hrefused => ?_⟩
  · induction h with
    | new =>
      have hle : (0 : ℤ) ≤ 100 := by decide
      exact ⟨rfl, hle, fun _ hspec => absurd hspec List.not_mem_nil, List.nodup_nil,
        fun _ hspec => absurd hspec List.not_mem_nil, Nat.zero_le _⟩
    | add gaId slot text h hfits ih => exact ih.insert hfits
    | merge h hsrc ih ihsrc => exact ih.merge ihsrc
  · rw [addExperimentSpec] at hrefused ⊢
    obtain h | ⟨-, hkept⟩ := o.insert_cases (ExperimentSpec.ofText r gaId slot text)
    · rw [h]
    · rw [hkept] at hrefused
      cases hrefused

/-- `absl::SimpleAtoi` stores the number that a text begins with, as far as it is an `int`. -/
def simpleAtoi (text : GoogleString) (_ : Int32) : Bool × Int32 :=
  let (negative, rest) := Decimal.signed (Decimal.trim text)
  let value : ℤ := Decimal.value (rest.takeWhile Decimal.isDigit)
  ((stringToInt text).isSome, Int32.ofInt (max (-2147483648) (min 2147483647 (if negative then -value else value))))

def plainReader : SpecReader Empty Empty Empty where
  stringToInt := simpleAtoi
  addCommaSeparatedListToFilterSet _ filters _ := filters
  addCommaSeparatedListToOptionSet _ options := options
  parseAlternateOriginDomain _ := none

theorem arms_share_traffic_of_two :
    Balanced ((RewriteOptions.addExperimentSpec plainReader
      (RewriteOptions.addExperimentSpec plainReader {} [] 1 (ascii "id=1; percent=60")).2 [] 1
        (ascii "id=2; percent=50")).2) :=
  (arms_share_traffic plainReader (.add [] 1 (ascii "id=2; percent=50")
    (.add [] 1 (ascii "id=1; percent=60") .new (by rw [Fits]; decide)) (by rw [Fits]; decide))).1

/-- A percent that takes the sum past the largest `int` is below every bound. -/
theorem arm_overflows :
    ¬ ∀ (r : SpecReader Empty Empty Empty) (o : RewriteOptions Empty Empty Empty),
      Reached r (fun _ _ => True) o → Balanced o := by
  intro h
  have hbalanced := h plainReader _ (.add [] 1 (ascii "id=2; percent=2147483647")
    (.add [] 1 (ascii "id=1; percent=1") .new trivial) trivial)
  exact absurd hbalanced.total (by decide)

end RewriteOptions

end PageSpeed.Experiment
