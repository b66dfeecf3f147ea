import PageSpeed.Cache.WriteThroughCache
import PageSpeed.Cache.AsyncWriteBehindCache
import PageSpeed.Cache.BatcherInFlight
import PageSpeed.Thread.SequenceSerialization
import PageSpeed.SharedMem.BlockConservation
import PageSpeed.Cache.LRUBoundedMap
import PageSpeed.SharedMem.LockExclusion
import PageSpeed.Util.StealTiming
import PageSpeed.Util.MemLockSafety
import PageSpeed.Base.WildcardGroupAnswers
import PageSpeed.Thread.AlarmDispatch
import PageSpeed.Cache.PurgeEffect
import PageSpeed.WebBotAuth.SignerCounts
import PageSpeed.WebBotAuth.Verifier
import PageSpeed.WebBotAuth.KeyDirectoryWarmer
import PageSpeed.Rewriter.Authorization
import PageSpeed.Rewriter.ResourceNamer
import PageSpeed.Http.Sanitize
import PageSpeed.Http.DroppedLines
import PageSpeed.Http.CachingHistory
import PageSpeed.Rewriter.FilterMerge
import PageSpeed.Redis.CommandBound
import PageSpeed.Redis.DatabaseSafety
import PageSpeed.Http.RateGuarantees
import PageSpeed.System.CircuitRules
import PageSpeed.Base.WildcardExact
import PageSpeed.Base.SourceMapDecoder
import PageSpeed.Util.FilenameLayout
import PageSpeed.Cache.PurgeRoundTrip
import PageSpeed.System.RecorderOutcome
import PageSpeed.Rewriter.NamedLockGuarantees
import PageSpeed.Rewriter.CssStreaming
import PageSpeed.Cache.FallbackCache
import PageSpeed.Base.CircularBuffer
import PageSpeed.Html.HtmlEscape
import PageSpeed.Packs.EntityMeaning
import PageSpeed.Packs.AttributeValue
import PageSpeed.Packs.RemovedSummary
import PageSpeed.Packs.ResolveUrl
import PageSpeed.Packs.UrlNorm
import PageSpeed.Packs.LinkRewrite
import PageSpeed.Packs.TemplateJson
import PageSpeed.Packs.Utf8Validators
import PageSpeed.WebBotAuth.SfvRoundTrip
import PageSpeed.WebBotAuth.RslCapClaims
import PageSpeed.Html.Sections
import PageSpeed.Http.HeaderIntersection
import PageSpeed.Rewriter.CspReading
import PageSpeed.Iis.Dechunker
import PageSpeed.Rewriter.BeaconSupport
import PageSpeed.Rewriter.DomainSearch
import PageSpeed.Rewriter.ExperimentSpecs
import PageSpeed.Rewriter.SrcSet
import PageSpeed.System.PackFollowing
import PageSpeed.Base.VectorDeque
import PageSpeed.Base.WildcardGroupSignature
import PageSpeed.SharedMem.ReaderIsolation
