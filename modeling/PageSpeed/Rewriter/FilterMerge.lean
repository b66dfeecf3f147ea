import PageSpeed.Rewriter.Filters

/-!
Which filters an options object turns on, and what `RewriteOptions::Merge` does
to that: the three filter sets, the rewrite level, the three preserve options
and `forbid_all_disabled_filters`.
-/

namespace PageSpeed.RewriteOptions

structure OptionTemplateBase (T : Type) where
  value : T
  wasSet : Bool
  deriving DecidableEq

namespace OptionTemplateBase

variable {T : Type}

def set (_ : OptionTemplateBase T) (val : T) : OptionTemplateBase T := ⟨val, true⟩

def merge (o src : OptionTemplateBase T) : OptionTemplateBase T :=
  if src.wasSet || !o.wasSet then src else o

end OptionTemplateBase

structure FilterOptions where
  enabledFilters : Finset Filter
  disabledFilters : Finset Filter
  forbiddenFilters : Finset Filter
  level : OptionTemplateBase RewriteLevel
  cssPreserveUrls : OptionTemplateBase Bool
  jsPreserveUrls : OptionTemplateBase Bool
  imagePreserveUrls : OptionTemplateBase Bool
  forbidAllDisabledFilters : OptionTemplateBase Bool
  forbidAll_set : forbidAllDisabledFilters.value = true → forbidAllDisabledFilters.wasSet = true

inductive MergeOverride where
  | kNoAction | kDisablePreserve | kDisableFilter
  deriving DecidableEq

namespace FilterOptions

def checkLevelSpecificOption (o : FilterOptions) (rewriteLevel : RewriteLevel) (option : OptionTemplateBase Bool) :
    Bool :=
  if option.wasSet || decide (o.level.value ≠ rewriteLevel) then option.value else true

def checkBandwidthOption (o : FilterOptions) (option : OptionTemplateBase Bool) : Bool :=
  o.checkLevelSpecificOption .kOptimizeForBandwidth option

def checkMobilizeFiltersOption (o : FilterOptions) (option : OptionTemplateBase Bool) : Bool :=
  o.checkLevelSpecificOption .kMobilizeFilters option

def cssPreserves (o : FilterOptions) : Bool :=
  o.checkBandwidthOption o.cssPreserveUrls || o.checkMobilizeFiltersOption o.cssPreserveUrls

def jsPreserves (o : FilterOptions) : Bool := o.checkBandwidthOption o.jsPreserveUrls

def imagePreserves (o : FilterOptions) : Bool := o.checkBandwidthOption o.imagePreserveUrls

def levelEnables (properties : FilterProperties) : RewriteLevel → Bool
  | .kTestingCoreFilters => properties.levelTest || properties.levelCore
  | .kCoreFilters => properties.levelCore
  | .kOptimizeForBandwidth => properties.levelOptimizeForBandwidth
  | .kMobilizeFilters => properties.levelMobilize
  | .kAllFilters => !properties.levelDangerous
  | .kPassThrough => false

def enabled (o : FilterOptions) (filter : Filter) : Bool :=
  if filter ∈ o.disabledFilters ∨ filter ∈ o.forbiddenFilters then false
  else if filter ∈ o.enabledFilters then true
  else
    let properties := filterProperties filter
    if o.cssPreserves && properties.preserveCssUrls then false
    else if o.jsPreserves && properties.preserveJsUrls then false
    else if o.imagePreserves && properties.preserveImageUrls then false
    else levelEnables properties o.level.value

def forbidden (o : FilterOptions) (filter : Filter) : Bool :=
  decide (filter ∈ o.forbiddenFilters) ||
    (o.forbidAllDisabledFilters.value && decide (filter ∈ o.disabledFilters))

def computeMergeOverride (o : FilterOptions) (filter : Filter)
    (srcPreserveOption preserveOption : OptionTemplateBase Bool) (src : FilterOptions) : MergeOverride :=
  if src.enabled filter && preserveOption.value then .kDisablePreserve
  else if o.enabled filter && srcPreserveOption.value then .kDisableFilter
  else .kNoAction

/-- The filter sets of `o` after the sets of `src` are merged into them. -/
def mergeFilters (o src : FilterOptions) : FilterOptions :=
  let disabled :=
    if o.forbidAllDisabledFilters.value then o.disabledFilters else o.disabledFilters \ src.enabledFilters
  let disabled := disabled ∪ src.disabledFilters
  let forbidden := o.forbiddenFilters ∪ src.forbiddenFilters
  { o with
    enabledFilters := ((o.enabledFilters ∪ src.enabledFilters) \ disabled) \ forbidden
    disabledFilters := disabled
    forbiddenFilters := forbidden }

def mergeOptions (o src : FilterOptions) : FilterOptions :=
  { o with
    level := o.level.merge src.level
    cssPreserveUrls := o.cssPreserveUrls.merge src.cssPreserveUrls
    jsPreserveUrls := o.jsPreserveUrls.merge src.jsPreserveUrls
    imagePreserveUrls := o.imagePreserveUrls.merge src.imagePreserveUrls
    forbidAllDisabledFilters := o.forbidAllDisabledFilters.merge src.forbidAllDisabledFilters
    forbidAll_set := by
      rw [OptionTemplateBase.merge]
      split
      · exact src.forbidAll_set
      · exact o.forbidAll_set }

def setForbidAllDisabledFilters (o : FilterOptions) (x : Bool) : FilterOptions :=
  { o with
    forbidAllDisabledFilters := o.forbidAllDisabledFilters.set x
    forbidAll_set := fun _ => rfl }

def disableFilter (o : FilterOptions) (filter : Filter) : FilterOptions :=
  { o with
    enabledFilters := o.enabledFilters.erase filter
    disabledFilters := insert filter o.disabledFilters }

def applyPreserve (override : MergeOverride) (preserveOption : OptionTemplateBase Bool) : OptionTemplateBase Bool :=
  if override = .kDisablePreserve ∧ preserveOption.wasSet then preserveOption.set false else preserveOption

def applyDisable (override : MergeOverride) (filter : Filter) (o : FilterOptions) : FilterOptions :=
  if override = .kDisableFilter then o.disableFilter filter else o

def applyCssOverride (override : MergeOverride) (o : FilterOptions) : FilterOptions :=
  applyDisable override .kExtendCacheCss { o with cssPreserveUrls := applyPreserve override o.cssPreserveUrls }

def applyImagesOverride (override : MergeOverride) (o : FilterOptions) : FilterOptions :=
  applyDisable override .kExtendCacheImages { o with imagePreserveUrls := applyPreserve override o.imagePreserveUrls }

def applyScriptsOverride (override : MergeOverride) (o : FilterOptions) : FilterOptions :=
  applyDisable override .kExtendCacheScripts { o with jsPreserveUrls := applyPreserve override o.jsPreserveUrls }

def refuseFilter (enabledBeforeMerge : Finset Filter) (o : FilterOptions) (filter : Filter) : FilterOptions :=
  if filter ∉ enabledBeforeMerge ∧ o.enabled filter = true then o.disableFilter filter else o

def enabledSet (o : FilterOptions) : Finset Filter :=
  allFilters.foldl (fun set filter => if o.enabled filter then insert filter set else set) ∅

/-- The sets and the options of `Merge`, where a forbid of either side stays on. -/
def mergeLatching (o src : FilterOptions) : FilterOptions :=
  let newForbidAllDisabled := o.forbidAllDisabledFilters.value || src.forbidAllDisabledFilters.value
  let merged := (o.mergeFilters src).mergeOptions src
  if merged.forbidAllDisabledFilters.wasSet || src.forbidAllDisabledFilters.wasSet then
    merged.setForbidAllDisabledFilters newForbidAllDisabled
  else merged

/-- Everything of `Merge` before it refuses the filters that the merge would turn on. -/
def mergeAllowing (o src : FilterOptions) : FilterOptions :=
  let overrideCss := o.computeMergeOverride .kExtendCacheCss src.cssPreserveUrls o.cssPreserveUrls src
  let overrideImages := o.computeMergeOverride .kExtendCacheImages src.imagePreserveUrls o.imagePreserveUrls src
  let overrideScripts := o.computeMergeOverride .kExtendCacheScripts src.jsPreserveUrls o.jsPreserveUrls src
  applyScriptsOverride overrideScripts
    (applyImagesOverride overrideImages (applyCssOverride overrideCss (o.mergeLatching src)))

def merge (o src : FilterOptions) : FilterOptions :=
  let merged := o.mergeAllowing src
  if o.forbidAllDisabledFilters.value then allFilters.foldl (refuseFilter o.enabledSet) merged else merged

def mergeAll (o : FilterOptions) (srcs : List FilterOptions) : FilterOptions := srcs.foldl merge o

structure Stricter (o o' : FilterOptions) : Prop where
  forbidAll : o.forbidAllDisabledFilters.value = true → o'.forbidAllDisabledFilters.value = true
  disabled : o.forbidAllDisabledFilters.value = true → o.disabledFilters ⊆ o'.disabledFilters
  forbidden : o.forbiddenFilters ⊆ o'.forbiddenFilters

variable {o o' o'' src : FilterOptions} {f g : Filter}

theorem Stricter.refl (o : FilterOptions) : Stricter o o := ⟨id, fun _ => subset_rfl, subset_rfl⟩

theorem Stricter.trans (h : Stricter o o') (h' : Stricter o' o'') : Stricter o o'' where
  forbidAll hall := h'.forbidAll (h.forbidAll hall)
  disabled hall := (h.disabled hall).trans (h'.disabled (h.forbidAll hall))
  forbidden := h.forbidden.trans h'.forbidden

theorem forbidden_iff : o.forbidden f = true ↔
    f ∈ o.forbiddenFilters ∨ o.forbidAllDisabledFilters.value = true ∧ f ∈ o.disabledFilters := by
  simp [FilterOptions.forbidden]

theorem Stricter.forbids (h : Stricter o o') (hf : o.forbidden f = true) : o'.forbidden f = true := by
  rw [forbidden_iff] at hf ⊢
  rcases hf with hforbidden | ⟨hall, hdisabled⟩
  · exact Or.inl (h.forbidden hforbidden)
  · exact Or.inr ⟨h.forbidAll hall, h.disabled hall hdisabled⟩

theorem not_enabled_of_forbidden (hf : o.forbidden f = true) : o.enabled f = false := by
  rw [forbidden_iff] at hf
  refine if_pos ?_
  rcases hf with hforbidden | ⟨-, hdisabled⟩
  · exact Or.inr hforbidden
  · exact Or.inl hdisabled

theorem stricter_disableFilter : Stricter o (o.disableFilter f) :=
  ⟨id, fun _ => Finset.subset_insert _ _, subset_rfl⟩

theorem Stricter.applyDisable {override : MergeOverride} (h : Stricter o o') :
    Stricter o (applyDisable override f o') := by
  rw [FilterOptions.applyDisable]
  split
  · exact h.trans stricter_disableFilter
  · exact h

theorem Stricter.overrides {css images scripts : MergeOverride} (h : Stricter o o') :
    Stricter o (applyScriptsOverride scripts (applyImagesOverride images (applyCssOverride css o'))) := by
  have hcss : Stricter o (applyCssOverride css o') := .applyDisable ⟨h.forbidAll, h.disabled, h.forbidden⟩
  have himages : Stricter o (applyImagesOverride images (applyCssOverride css o')) :=
    .applyDisable ⟨hcss.forbidAll, hcss.disabled, hcss.forbidden⟩
  exact .applyDisable ⟨himages.forbidAll, himages.disabled, himages.forbidden⟩

variable {before : Finset Filter}

theorem Stricter.refuseFilters {filters : List Filter} (h : Stricter o o') :
    Stricter o (filters.foldl (refuseFilter before) o') := by
  refine List.foldlRecOn filters _ h fun p hp g _ => ?_
  rw [refuseFilter]
  split
  · exact hp.trans stricter_disableFilter
  · exact hp

theorem merge_wasSet {T : Type} (o src : OptionTemplateBase T) : (o.merge src).wasSet = (o.wasSet || src.wasSet) := by
  rw [OptionTemplateBase.merge]
  cases ho : o.wasSet <;> cases hs : src.wasSet <;> simp [ho, hs]

theorem forbidAll_latched
    (h : o.forbidAllDisabledFilters.value = true ∨ src.forbidAllDisabledFilters.value = true) :
    ((o.mergeFilters src).mergeOptions src).forbidAllDisabledFilters.wasSet = true := by
  refine (merge_wasSet _ _).trans ((Bool.or_eq_true _ _).mpr ?_)
  exact h.imp o.forbidAll_set src.forbidAll_set

theorem forbidAll_mergeLatching
    (h : o.forbidAllDisabledFilters.value = true ∨ src.forbidAllDisabledFilters.value = true) :
    (o.mergeLatching src).forbidAllDisabledFilters.value = true := by
  rw [mergeLatching, if_pos (by rw [forbidAll_latched h, Bool.true_or])]
  exact (Bool.or_eq_true _ _).mpr h

theorem disabled_mergeLatching : (o.mergeLatching src).disabledFilters = (o.mergeFilters src).disabledFilters := by
  rw [mergeLatching]
  split <;> rfl

theorem forbidden_mergeLatching : (o.mergeLatching src).forbiddenFilters = (o.mergeFilters src).forbiddenFilters := by
  rw [mergeLatching]
  split <;> rfl

theorem stricter_mergeLatching : Stricter o (o.mergeLatching src) where
  forbidAll hall := forbidAll_mergeLatching (Or.inl hall)
  disabled hall := by
    rw [disabled_mergeLatching]
    simp only [mergeFilters, if_pos hall]
    exact Finset.subset_union_left
  forbidden := by
    rw [forbidden_mergeLatching]
    exact Finset.subset_union_left

theorem stricter_mergeLatching_src : Stricter src (o.mergeLatching src) where
  forbidAll hall := forbidAll_mergeLatching (Or.inr hall)
  disabled _ := by
    rw [disabled_mergeLatching]
    exact Finset.subset_union_right
  forbidden := by
    rw [forbidden_mergeLatching]
    exact Finset.subset_union_right

theorem Stricter.merge (h : Stricter o' (o.mergeLatching src)) : Stricter o' (o.merge src) := by
  rw [FilterOptions.merge]
  split
  · exact h.overrides.refuseFilters
  · exact h.overrides

theorem stricter_mergeAll (o : FilterOptions) (srcs : List FilterOptions) : Stricter o (o.mergeAll srcs) :=
  List.foldlRecOn srcs _ (Stricter.refl o) fun _ h _ _ => h.trans stricter_mergeLatching.merge

theorem mem_enabledSet : f ∈ o.enabledSet ↔ o.enabled f = true := by
  have hfold : ∀ (filters : List Filter) (set : Finset Filter),
      f ∈ filters.foldl (fun set filter => if o.enabled filter then insert filter set else set) set ↔
        f ∈ set ∨ f ∈ filters ∧ o.enabled f = true := by
    intro filters
    induction filters with
    | nil => simp
    | cons g filters ih =>
      intro set
      rw [List.foldl_cons, ih]
      by_cases hg : o.enabled g = true
      · grind
      · grind
  rw [enabledSet, hfold]
  simp [mem_allFilters]

theorem enabled_of_disableFilter (h : (o.disableFilter g).enabled f = true) : f ≠ g ∧ o.enabled f = true := by
  by_cases hfg : f = g
  · subst hfg
    exact absurd h (by simp [enabled, disableFilter])
  · have hsame : (o.disableFilter g).enabled f = o.enabled f := by
      simp only [enabled, disableFilter, Finset.mem_insert, Finset.mem_erase, hfg, false_or, ne_eq, not_false_eq_true,
        true_and]
      rfl
    exact ⟨hfg, hsame ▸ h⟩

theorem enabled_of_refuseFilter (h : (refuseFilter before o g).enabled f = true) :
    o.enabled f = true ∧ (f = g → f ∈ before) := by
  by_cases hrefuse : g ∉ before ∧ o.enabled g = true
  · rw [refuseFilter, if_pos hrefuse] at h
    obtain ⟨hne, henabled⟩ := enabled_of_disableFilter h
    exact ⟨henabled, fun heq => absurd heq hne⟩
  · rw [refuseFilter, if_neg hrefuse] at h
    refine ⟨h, fun heq => ?_⟩
    subst heq
    by_contra hbefore
    exact hrefuse ⟨hbefore, h⟩

theorem enabled_of_refuseFilters {filters : List Filter}
    (h : (filters.foldl (refuseFilter before) o).enabled f = true) :
    o.enabled f = true ∧ (f ∈ filters → f ∈ before) := by
  induction filters generalizing o with
  | nil => exact ⟨h, nofun⟩
  | cons g filters ih =>
    obtain ⟨hrefused, hrest⟩ := ih h
    obtain ⟨henabled, hfirst⟩ := enabled_of_refuseFilter hrefused
    refine ⟨henabled, fun hmem => ?_⟩
    rcases List.mem_cons.mp hmem with heq | hmem
    · exact hfirst heq
    · exact hrest hmem

theorem enabled_of_merge (hall : o.forbidAllDisabledFilters.value = true) (h : (o.merge src).enabled f = true) :
    o.enabled f = true := by
  rw [merge, if_pos hall] at h
  exact mem_enabledSet.mp ((enabled_of_refuseFilters h).2 (mem_allFilters f))

theorem enabled_of_mergeAll {srcs : List FilterOptions} (hall : o.forbidAllDisabledFilters.value = true)
    (h : (o.mergeAll srcs).enabled f = true) : o.enabled f = true := by
  induction srcs generalizing o with
  | nil => exact h
  | cons src srcs ih =>
    exact enabled_of_merge hall (ih (stricter_mergeLatching.merge.forbidAll hall) h)

theorem mergeAll_append (o : FilterOptions) (before after : List FilterOptions) :
    o.mergeAll (before ++ after) = (o.mergeAll before).mergeAll after :=
  List.foldl_append

theorem forbid_is_permanent (d : FilterOptions) (before : List FilterOptions) (s : FilterOptions)
    (after : List FilterOptions) :
    (∀ f, (d.mergeAll before).forbidden f = true ∨ s.forbidden f = true →
      (d.mergeAll (before ++ s :: after)).forbidden f = true ∧
      (d.mergeAll (before ++ s :: after)).enabled f = false) ∧
    ((d.mergeAll before).forbidAllDisabledFilters.value = true →
      (d.mergeAll (before ++ s :: after)).forbidAllDisabledFilters.value = true ∧
      ∀ f, (d.mergeAll (before ++ s :: after)).enabled f = true → (d.mergeAll before).enabled f = true) := by
  rw [mergeAll_append]
  refine ⟨fun f hf => ?_, fun hall => ⟨(stricter_mergeAll _ _).forbidAll hall, fun f => enabled_of_mergeAll hall⟩⟩
  have hmerged : ((d.mergeAll before).merge s).forbidden f = true :=
    hf.elim stricter_mergeLatching.merge.forbids stricter_mergeLatching_src.merge.forbids
  have hforbidden : (((d.mergeAll before).merge s).mergeAll after).forbidden f = true :=
    (stricter_mergeAll _ after).forbids hmerged
  exact ⟨hforbidden, not_enabled_of_forbidden hforbidden⟩

def forbiddingHost : FilterOptions where
  enabledFilters := {.kRemoveQuotes}
  disabledFilters := {.kDebug}
  forbiddenFilters := {.kStripScripts}
  level := ⟨.kCoreFilters, true⟩
  cssPreserveUrls := ⟨true, true⟩
  jsPreserveUrls := ⟨false, false⟩
  imagePreserveUrls := ⟨false, false⟩
  forbidAllDisabledFilters := ⟨true, true⟩
  forbidAll_set := fun _ => rfl

def enablingDirectory : FilterOptions where
  enabledFilters := {.kDebug, .kStripScripts, .kExtendCacheCss}
  disabledFilters := ∅
  forbiddenFilters := ∅
  level := ⟨.kAllFilters, true⟩
  cssPreserveUrls := ⟨false, false⟩
  jsPreserveUrls := ⟨false, false⟩
  imagePreserveUrls := ⟨false, false⟩
  forbidAllDisabledFilters := ⟨false, true⟩
  forbidAll_set := nofun

theorem forbid_is_permanent_in_directory :
    (forbiddingHost.mergeAll [enablingDirectory, enablingDirectory]).forbidden .kDebug = true ∧
      (forbiddingHost.mergeAll [enablingDirectory, enablingDirectory]).enabled .kDebug = false ∧
      ∀ f, (forbiddingHost.mergeAll [enablingDirectory, enablingDirectory]).enabled f = true →
        (forbiddingHost.mergeAll []).enabled f = true := by
  have hforbid := forbid_is_permanent forbiddingHost [] enablingDirectory [enablingDirectory]
  have hdebug := hforbid.1 .kDebug (Or.inl (by decide))
  exact ⟨hdebug.1, hdebug.2, (hforbid.2 rfl).2⟩

end FilterOptions

end PageSpeed.RewriteOptions
