import Mathlib.Data.Finset.Basic

/-!
The filters of the rewriter and what the tables of `rewrite_options.cc` say
about each: the rewrite levels that turn it on and the preserve options that
turn it off.
-/

namespace PageSpeed.RewriteOptions

inductive Filter where
  | kAddBaseTag | kAddHead | kAddIds | kAddInstrumentation | kComputeStatistics | kCachePartialHtmlDeprecated
  | kCanonicalizeJavascriptLibraries | kCollapseWhitespace | kCombineCss | kCombineHeads | kCombineJavascript
  | kComputeCriticalCss | kComputeVisibleTextDeprecated | kConvertGifToPng | kConvertJpegToProgressive
  | kConvertJpegToWebp | kConvertMetaTags | kConvertPngToJpeg | kConvertToWebpAnimated
  | kConvertToWebpLossless | kConvertJpegToAvif | kConvertToAvifLossless | kConvertToAvifAnimated | kDebug
  | kDecodeRewrittenUrls | kDedupInlinedImages | kDeferIframeDeprecated | kDeferJavascript | kDelayImages
  | kDeterministicJs | kDisableJavascript | kDivStructureDeprecated | kElideAttributes
  | kExperimentCollectMobImageInfo | kExperimentHttp2 | kExplicitCloseTagsDeprecated | kExtendCacheCss
  | kExtendCacheImages | kExtendCachePdfs | kExtendCacheScripts | kFallbackRewriteCssUrls | kFixReflows
  | kFlattenCssImports | kFlushSubresourcesDeprecated | kHandleNoscriptRedirect | kHintPreloadSubresources
  | kHtmlWriterFilter | kIncludeJsSourceMaps | kInlineCss | kInlineGoogleFontCss | kInlineImages
  | kInlineImportToLink | kInlineJavascript | kInPlaceOptimizeForBrowser | kInsertAmpLink | kInsertDnsPrefetch
  | kInsertGA | kInsertImageDimensions | kInsertSpeculationRules | kJpegSubsampling | kLazyloadImages
  | kLeftTrimUrls | kLocalStorageCache | kMakeGoogleAnalyticsAsyncDeprecated | kMakeShowAdsAsync | kMobilize
  | kMobilizePrecomputeDeprecated | kMoveCssAboveScripts | kMoveCssToHead | kOutlineCss | kOutlineJavascript
  | kPedantic | kPrioritizeCriticalCss | kPrioritizeCriticalImages | kRecompressJpeg | kRecompressPng
  | kRecompressWebp | kRecompressAvif | kRemoveComments | kRemoveQuotes | kResizeImages | kResizeMobileImages
  | kResizeToRenderedImageDimensions | kResponsiveImages | kResponsiveImagesZoom | kRewriteCss
  | kRewriteDomains | kRewriteJavascriptExternal | kRewriteJavascriptInline | kRewriteStyleAttributes
  | kRewriteStyleAttributesWithUrl | kRulePacks | kSplitHtmlDeprecated | kSplitHtmlHelperDeprecated
  | kSpriteImages | kStripImageColorProfile | kStripImageMetaData | kStripScripts
  deriving DecidableEq

def allFilters : List Filter :=
  [.kAddBaseTag, .kAddHead, .kAddIds, .kAddInstrumentation, .kComputeStatistics, .kCachePartialHtmlDeprecated,
    .kCanonicalizeJavascriptLibraries, .kCollapseWhitespace, .kCombineCss, .kCombineHeads,
    .kCombineJavascript, .kComputeCriticalCss, .kComputeVisibleTextDeprecated, .kConvertGifToPng,
    .kConvertJpegToProgressive, .kConvertJpegToWebp, .kConvertMetaTags, .kConvertPngToJpeg,
    .kConvertToWebpAnimated, .kConvertToWebpLossless, .kConvertJpegToAvif, .kConvertToAvifLossless,
    .kConvertToAvifAnimated, .kDebug, .kDecodeRewrittenUrls, .kDedupInlinedImages, .kDeferIframeDeprecated,
    .kDeferJavascript, .kDelayImages, .kDeterministicJs, .kDisableJavascript, .kDivStructureDeprecated,
    .kElideAttributes, .kExperimentCollectMobImageInfo, .kExperimentHttp2, .kExplicitCloseTagsDeprecated,
    .kExtendCacheCss, .kExtendCacheImages, .kExtendCachePdfs, .kExtendCacheScripts, .kFallbackRewriteCssUrls,
    .kFixReflows, .kFlattenCssImports, .kFlushSubresourcesDeprecated, .kHandleNoscriptRedirect,
    .kHintPreloadSubresources, .kHtmlWriterFilter, .kIncludeJsSourceMaps, .kInlineCss, .kInlineGoogleFontCss,
    .kInlineImages, .kInlineImportToLink, .kInlineJavascript, .kInPlaceOptimizeForBrowser, .kInsertAmpLink,
    .kInsertDnsPrefetch, .kInsertGA, .kInsertImageDimensions, .kInsertSpeculationRules, .kJpegSubsampling,
    .kLazyloadImages, .kLeftTrimUrls, .kLocalStorageCache, .kMakeGoogleAnalyticsAsyncDeprecated,
    .kMakeShowAdsAsync, .kMobilize, .kMobilizePrecomputeDeprecated, .kMoveCssAboveScripts, .kMoveCssToHead,
    .kOutlineCss, .kOutlineJavascript, .kPedantic, .kPrioritizeCriticalCss, .kPrioritizeCriticalImages,
    .kRecompressJpeg, .kRecompressPng, .kRecompressWebp, .kRecompressAvif, .kRemoveComments, .kRemoveQuotes,
    .kResizeImages, .kResizeMobileImages, .kResizeToRenderedImageDimensions, .kResponsiveImages,
    .kResponsiveImagesZoom, .kRewriteCss, .kRewriteDomains, .kRewriteJavascriptExternal,
    .kRewriteJavascriptInline, .kRewriteStyleAttributes, .kRewriteStyleAttributesWithUrl, .kRulePacks,
    .kSplitHtmlDeprecated, .kSplitHtmlHelperDeprecated, .kSpriteImages, .kStripImageColorProfile,
    .kStripImageMetaData, .kStripScripts]

def kCoreFilterSet : List Filter :=
  [.kAddHead, .kCombineCss, .kCombineJavascript, .kConvertGifToPng, .kConvertJpegToProgressive,
    .kConvertJpegToWebp, .kConvertMetaTags, .kConvertPngToJpeg, .kConvertToWebpLossless, .kExtendCacheCss,
    .kExtendCacheImages, .kExtendCacheScripts, .kFallbackRewriteCssUrls, .kFlattenCssImports, .kInlineCss,
    .kInlineImages, .kInlineImportToLink, .kInlineJavascript, .kJpegSubsampling, .kRecompressJpeg,
    .kRecompressPng, .kRecompressWebp, .kResizeImages, .kRewriteCss, .kRewriteJavascriptExternal,
    .kRewriteJavascriptInline, .kRewriteStyleAttributesWithUrl, .kStripImageColorProfile, .kStripImageMetaData]

def kOptimizeForBandwidthFilterSet : List Filter :=
  [.kConvertGifToPng, .kConvertJpegToProgressive, .kConvertJpegToWebp, .kConvertPngToJpeg, .kJpegSubsampling,
    .kRecompressJpeg, .kRecompressPng, .kRecompressWebp, .kRewriteCss, .kRewriteJavascriptExternal,
    .kRewriteJavascriptInline, .kStripImageColorProfile, .kStripImageMetaData]

def kTestFilterSet : List Filter :=
  [.kConvertJpegToWebp, .kDebug, .kDeferJavascript, .kDelayImages, .kIncludeJsSourceMaps, .kInsertAmpLink,
    .kInsertGA, .kInsertImageDimensions, .kLazyloadImages, .kLeftTrimUrls, .kPrioritizeCriticalCss,
    .kResizeToRenderedImageDimensions, .kResponsiveImages, .kRewriteDomains, .kSpriteImages]

def kDangerousFilterSet : List Filter :=
  [.kCachePartialHtmlDeprecated, .kCanonicalizeJavascriptLibraries, .kComputeVisibleTextDeprecated,
    .kDeferIframeDeprecated, .kDeterministicJs, .kDisableJavascript, .kDivStructureDeprecated,
    .kExperimentCollectMobImageInfo, .kExplicitCloseTagsDeprecated, .kFixReflows,
    .kFlushSubresourcesDeprecated, .kLocalStorageCache, .kMakeGoogleAnalyticsAsyncDeprecated, .kMobilize,
    .kMobilizePrecomputeDeprecated, .kRulePacks, .kSplitHtmlDeprecated, .kSplitHtmlHelperDeprecated,
    .kStripScripts]

def kMobilizeFilterSet : List Filter :=
  [.kRewriteCss, .kRewriteDomains]

def kImagePreserveUrlDisabledFilters : List Filter :=
  [.kDelayImages, .kExtendCacheImages, .kInlineImages, .kLazyloadImages, .kResizeImages,
    .kResizeToRenderedImageDimensions, .kResponsiveImages, .kSpriteImages]

def kJsPreserveUrlDisabledFilters : List Filter :=
  [.kCanonicalizeJavascriptLibraries, .kCombineJavascript, .kDeferJavascript, .kExtendCacheScripts,
    .kInlineJavascript, .kOutlineJavascript]

def kCssPreserveUrlDisabledFilters : List Filter :=
  [.kCombineCss, .kExtendCacheCss, .kInlineCss, .kInlineGoogleFontCss, .kInlineImportToLink, .kLeftTrimUrls,
    .kOutlineCss]

inductive RewriteLevel where
  | kPassThrough | kOptimizeForBandwidth | kCoreFilters | kMobilizeFilters | kTestingCoreFilters | kAllFilters
  deriving DecidableEq

structure FilterProperties where
  levelCore : Bool
  levelOptimizeForBandwidth : Bool
  levelMobilize : Bool
  levelTest : Bool
  levelDangerous : Bool
  preserveImageUrls : Bool
  preserveJsUrls : Bool
  preserveCssUrls : Bool

def isInSet (filters : List Filter) (filter : Filter) : Bool := filters.contains filter

def filterProperties (filter : Filter) : FilterProperties where
  levelCore := isInSet kCoreFilterSet filter
  levelOptimizeForBandwidth := isInSet kOptimizeForBandwidthFilterSet filter
  levelMobilize := isInSet kMobilizeFilterSet filter
  levelTest := isInSet kTestFilterSet filter
  levelDangerous := isInSet kDangerousFilterSet filter
  preserveImageUrls := isInSet kImagePreserveUrlDisabledFilters filter
  preserveJsUrls := isInSet kJsPreserveUrlDisabledFilters filter
  preserveCssUrls := isInSet kCssPreserveUrlDisabledFilters filter

theorem mem_allFilters (f : Filter) : f ∈ allFilters := by
  cases f <;> decide

end PageSpeed.RewriteOptions
