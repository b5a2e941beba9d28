import Newsintel.Core.Ids
import Newsintel.Workers.Loop
import Newsintel.Sources.Onboarding
import Newsintel.Sources.FetchJobs
import Newsintel.Sources.RobotsFile
import Newsintel.Acquisition.Registry
import Newsintel.Sources.Statistics
import Newsintel.Acquisition.FrontierSoundness
import Newsintel.Acquisition.FilterAgreement
import Newsintel.Acquisition.UrlIdentity
import Newsintel.Acquisition.BacklogCleanup
import Newsintel.Acquisition.ManualPublishers
import Newsintel.Acquisition.ExactlyOnce
import Newsintel.Acquisition.SerialObservation
import Newsintel.Acquisition.PollRequests
import Newsintel.Acquisition.SilencedPublishers
import Newsintel.Acquisition.ExclusiveLeases
import Newsintel.Acquisition.AdaptivePolling
import Newsintel.Acquisition.ItemIsolation
import Newsintel.Acquisition.StoredValidators
import Newsintel.Acquisition.PollAccounts
import Newsintel.Acquisition.PollCounters
import Newsintel.Acquisition.CatchUp
import Newsintel.Acquisition.ListingLinks
import Newsintel.Acquisition.LinkSets
import Newsintel.Acquisition.SitemapLocations
import Newsintel.Acquisition.FeedOrder
import Newsintel.Acquisition.FeedDates
import Newsintel.Acquisition.EndpointValidation
import Newsintel.Articles.AcceptedPages
import Newsintel.Articles.TerminalStates
import Newsintel.Articles.StageAgreement
import Newsintel.Articles.AttemptBound
import Newsintel.Articles.RetryBounds
import Newsintel.Articles.MergedDates
import Newsintel.Articles.LeaseColumns
import Newsintel.Articles.RecordedOutcome
import Newsintel.Articles.BatchIsolation
import Newsintel.ArticleStore.QueryService
import Newsintel.ArticleStore.Pipeline
import Newsintel.ArticleStore.Lineage
import Newsintel.ArticleStore.ClaimConstraint
import Newsintel.ArticleStore.EventConfidence
import Newsintel.ArticleStore.Redelivery
import Newsintel.ArticleStore.ServedVersion
import Newsintel.Extractors.JsonLdSelection
import Newsintel.Extractors.SkippedText
import Newsintel.Extractors.VisibleText
import Newsintel.Extractors.NestedBlocks
import Newsintel.Extractors.PhraseWords
import Newsintel.Extractors.ArticleBody
import Newsintel.Extractors.ParagraphPartition
import Newsintel.Outbox.Draining
import Newsintel.Outbox.PublicationOrder
import Newsintel.Http.FetchResults
import Newsintel.Events.Republication
import Newsintel.Events.SortFreeDecision
import Newsintel.Events.PageDates
import Newsintel.Intelligence.Sentences
import Newsintel.Sources.Slugs
