import Newsintel.Acquisition.Commands
import Newsintel.Lib.Visits

/-!
# Channel polls (application/acquisition/polling.py)

`ChannelPollService.poll` over a service that admits discoveries. The loops of
`_process_payload` are one loop with different items, keys and commands. An error ends
a loop; what the service has committed before stays.
-/

namespace Newsintel.Acquisition

open PyText Visits

/-- What the service takes from other libraries. -/
structure Externals where
  unicode : Unicode
  nameprep : Idna.Nameprep unicode
  /-- `str(HttpUrl(text))`, `none` where validation fails -/
  httpUrl : Text → Option Text
  parsers : Parsers

/-- Columns of `discovery_channels`, and the copy that a worker is handed. -/
structure DiscoveryChannel where
  id : Uuid
  publisherId : Uuid
  channelType : DiscoveryChannelType
  endpointUrl : Text
  strategyVersion : Text
  active : Bool
  nextPollAt : Option Timestamp
  pollMinSeconds : ℕ
  pollMaxSeconds : ℕ
  currentPollSeconds : ℕ
  etag : Option Text
  lastModified : Option Text
  lastPolledAt : Option Timestamp
  lastSuccessAt : Option Timestamp
  leaseOwner : Option Text
  leaseExpiresAt : Option Timestamp
  consecutiveFailures : ℕ
  createdAt : Timestamp
  updatedAt : Timestamp
  deriving DecidableEq

structure FetchRequest where
  url : Text
  etag : Option Text
  lastModified : Option Text
  deriving DecidableEq

structure FetchResult where
  finalUrl : Text
  statusCode : ℕ
  headers : List (Text × Text)
  body : Bytes
  retrievedAt : Timestamp
  deriving DecidableEq

def FetchResult.notModified (fetched : FetchResult) : Bool := fetched.statusCode = 304

/-! ### The admitting service -/

/-- Fields of `DiscoveryObservationResult` that a poll reads. -/
structure DiscoveryObservationResult where
  candidateCreated : Bool
  channelObservationCreated : Bool
  deriving DecidableEq, Repr

/-- `DiscoveryAdmission`, over the state of its database. -/
structure DiscoveryAdmission (σ : Type) where
  observeDiscovery :
    ObserveDiscoveryCommand → σ → Except PyError DiscoveryObservationResult × σ
  createChannel : CreateChannelCommand → σ → Except PyError Unit × σ

/-- `ChannelPollService.__init__`; `Settings` asks for a positive maximum. -/
structure ChannelPollService where
  recentArticleWindowHours : ℕ
  maxNewUrlsPerChannelPoll : ℕ
  maxNewUrls_pos : 0 < maxNewUrlsPerChannelPoll

/-! ### The loops of `_process_payload` -/

/-- `admitted` and `observations`. -/
structure PollCounts where
  admitted : ℕ
  observations : ℕ
  deriving DecidableEq, Repr

/-- What a loop reads of an item. -/
structure PolledItem where
  url : Text
  externalId : Option Text
  title : Option Text
  publishedAtRaw : Option Text
  deriving DecidableEq, Repr

def DiscoveredItem.polled (item : DiscoveredItem) : PolledItem where
  url := item.url
  externalId := item.externalId
  title := item.title
  publishedAtRaw := item.publishedAtRaw

/-- Line 307: `entry.publication_date_raw or entry.last_modified_raw`. -/
def SitemapEntry.polled (entry : SitemapEntry) : PolledItem where
  url := entry.location
  externalId := none
  title := entry.newsTitle
  publishedAtRaw := (entry.publicationDateRaw.filter (· ≠ [])).or entry.lastModifiedRaw

def HtmlArticleLink.polled (link : HtmlArticleLink) : PolledItem where
  url := link.url
  externalId := none
  title := link.title
  publishedAtRaw := none

def payloadSha256 (payload : Bytes) : Text := Sha256.hexdigest (payload.map UInt8.toNat)

/- The hash of a payload always passes its check. -/
theorem payloadSha256_hex (payload : Bytes) :
    Sha256Hex (stripWhitespace (payloadSha256 payload)) := by
  have hchars : ∀ c ∈ "0123456789abcdef".toList,
      isWhiteSpace c = false ∧ PyUrl.isHexDigit c = true := forall_mem_of_all (by decide)
  have hmem : ∀ c ∈ payloadSha256 payload, c ∈ "0123456789abcdef".toList :=
    fun c hc => Sha256.mem_hexdigest hc
  rw [stripWhitespace_eq_self fun c hc => (hchars c (hmem c hc)).1]
  exact ⟨Sha256.hexdigest_length _, List.all_eq_true.mpr fun c hc => (hchars c (hmem c hc)).2⟩

section loops

variable {σ : Type} (svc : ChannelPollService) (ext : Externals) (admission : DiscoveryAdmission σ)
  (channel : DiscoveryChannel) (fetched : FetchResult)

/-- The date of an item and the decision of the filter (lines 249-255). -/
def itemDecision (requirePublicationDate : Bool) (item : PolledItem) :
    Except PyError (Option Timestamp × ArticleUrlDecision) := do
  let publishedAt ← parseFeedDatetime ext.parsers item.publishedAtRaw
  let decision ← shouldAdmitArticleUrl ext.unicode item.url publishedAt fetched.retrievedAt
    svc.recentArticleWindowHours requirePublicationDate
  return (publishedAt, decision)

/-- The arguments of `ObserveDiscoveryCommand(...)` in the loops. -/
def observeArguments (publishedAt : Option Timestamp) (position : ℕ) (item : PolledItem) :
    ObserveDiscoveryArguments where
  channelId := channel.id
  url := item.url
  externalId := item.externalId
  title := item.title
  publishedAt
  publishedAtRaw := item.publishedAtRaw
  discoveredAt := some fetched.retrievedAt
  channelPosition := some position
  payloadSha256 := some (payloadSha256 fetched.body)

/-- The body of the loops before the call (lines 249-275); `none` is `continue`. -/
def observeCommand (requirePublicationDate : Bool) (position : ℕ) (item : PolledItem) :
    Except PyError (Option ObserveDiscoveryCommand) := do
  let (publishedAt, decision) ← itemDecision svc ext fetched requirePublicationDate item
  if !decision.accepted then return none
  return some (← ObserveDiscoveryCommand.build ext.httpUrl
    (observeArguments channel fetched publishedAt position item))

/-- Lines 262-280: the call and the counters. -/
def submitDiscovery (command : ObserveDiscoveryCommand) (n : PollCounts) (s : σ) :
    Except PyError PollCounts × σ :=
  match admission.observeDiscovery command s with
  | (.error e, s') => (.error e, s')
  | (.ok result, s') =>
    (.ok
      { admitted := n.admitted + result.candidateCreated.toNat
        observations := n.observations + result.channelObservationCreated.toNat }, s')

/-- `admitted >= self._max_new_urls_per_channel_poll`. -/
def capReached (n : PollCounts) : Bool := svc.maxNewUrlsPerChannelPoll ≤ n.admitted

/-- The loop over feed items (lines 243-281), which keeps `seen_urls`. -/
def pollFeed (items : List PolledItem) (s : σ) : Except PyError PollCounts × σ :=
  visit (capReached svc) (fun item => some item.url) (observeCommand svc ext channel fetched true)
    (submitDiscovery admission) 0 [] items ⟨0, 0⟩ s

/-- The loop over the entries of a url set (lines 304-334). -/
def pollUrlset (items : List PolledItem) (s : σ) : Except PyError PollCounts × σ :=
  visit (capReached svc) (fun _ => (none : Option Text))
    (observeCommand svc ext channel fetched true) (submitDiscovery admission) 0 [] items ⟨0, 0⟩ s

/-- The loop over the links of a listing page (lines 339-369). -/
def pollLinks (items : List PolledItem) (s : σ) : Except PyError PollCounts × σ :=
  visit (capReached svc) (fun _ => (none : Option Text))
    (observeCommand svc ext channel fetched false) (submitDiscovery admission) 0 [] items ⟨0, 0⟩ s

/-- Lines 291-299. -/
def createCommand (_position : ℕ) (entry : SitemapEntry) :
    Except PyError (Option CreateChannelCommand) :=
  (CreateChannelCommand.build ext.httpUrl
    { publisherId := channel.publisherId
      channelType := .sitemap
      endpointUrl := entry.location
      strategyVersion := channel.strategyVersion
      pollMinSeconds := channel.pollMinSeconds
      pollMaxSeconds := channel.pollMaxSeconds
      currentPollSeconds := channel.currentPollSeconds }).map some

/-- Lines 290-302: a conflict is passed over. -/
def submitChannel (command : CreateChannelCommand) (n : PollCounts) (s : σ) :
    Except PyError PollCounts × σ :=
  match admission.createChannel command s with
  | (.ok _, s') => (.ok { n with admitted := n.admitted + 1 }, s')
  | (.error .resourceConflictError, s') => (.ok n, s')
  | (.error e, s') => (.error e, s')

/-- The loop over the entries of a sitemap index (lines 288-302). -/
def pollIndex (entries : List SitemapEntry) (s : σ) : Except PyError PollCounts × σ :=
  visit (fun _ => false) (fun _ => (none : Option Text)) (createCommand ext channel)
    (submitChannel admission) 0 [] entries ⟨0, 0⟩ s

/-- A parsed payload. -/
inductive PolledDocument where
  | feed (items : List DiscoveredItem)
  | urlset (entries : List SitemapEntry)
  | index (entries : List SitemapEntry)
  | links (pageLinks : List HtmlArticleLink)
  deriving DecidableEq, Repr

def PolledDocument.discovered : PolledDocument → ℕ
  | .feed items => items.length
  | .urlset entries | .index entries => entries.length
  | .links pageLinks => pageLinks.length

/-- The parsers that `_process_payload` picks by the channel's type. -/
def parsePayload : Except PyError PolledDocument :=
  match channel.channelType with
  | .rss | .atom => (parseFeed ext.unicode ext.parsers fetched.body).map .feed
  | .sitemap | .newsSitemap =>
    (parseSitemap ext.unicode ext.parsers fetched.body).map fun document =>
      match document.documentType with
      | .index => .index document.entries
      | .urlSet => .urlset document.entries
  | .homepage | .category | .tag | .author | .archive | .internalLink | .search =>
    (discoverHtmlArticleLinks ext.unicode ext.nameprep ext.parsers fetched.body
      fetched.finalUrl).map .links
  | .api | .websub | .webhook => .error .valueError

/-- What `_process_payload` does with a parsed payload. -/
def processDocument (document : PolledDocument) (s : σ) : Except PyError PollCounts × σ :=
  match document with
  | .feed items => pollFeed svc ext admission channel fetched (items.map (·.polled)) s
  | .urlset entries => pollUrlset svc ext admission channel fetched (entries.map (·.polled)) s
  | .index entries => pollIndex ext admission channel entries s
  | .links pageLinks => pollLinks svc ext admission channel fetched (pageLinks.map (·.polled)) s

def processPayload (s : σ) : Except PyError (ℕ × PollCounts) × σ :=
  match parsePayload ext channel fetched with
  | .error e => (.error e, s)
  | .ok document =>
    let (r, s') := processDocument svc ext admission channel fetched document s
    (r.map fun n => (document.discovered, n), s')

end loops

theorem observeCommand_eq (svc : ChannelPollService) (ext : Externals) (channel : DiscoveryChannel)
    (fetched : FetchResult) (requirePublicationDate : Bool) (position : ℕ) (item : PolledItem) :
    observeCommand svc ext channel fetched requirePublicationDate position item =
      match itemDecision svc ext fetched requirePublicationDate item with
      | .error e => .error e
      | .ok d =>
        if d.2.accepted then
          (ObserveDiscoveryCommand.build ext.httpUrl
            (observeArguments channel fetched d.1 position item)).map some
        else .ok none := by
  unfold observeCommand
  cases itemDecision svc ext fetched requirePublicationDate item with
  | error e => rfl
  | ok d =>
    obtain ⟨publishedAt, decision⟩ := d
    cases h : decision.accepted <;> simp [bind, Except.bind, h, pure, Except.pure]
    cases ObserveDiscoveryCommand.build ext.httpUrl
      (observeArguments channel fetched publishedAt position item) <;> rfl

theorem observeCommand_ok {svc : ChannelPollService} {ext : Externals} {channel : DiscoveryChannel}
    {fetched : FetchResult} {requirePublicationDate : Bool} {position : ℕ} {item : PolledItem}
    {c : ObserveDiscoveryCommand}
    (h : observeCommand svc ext channel fetched requirePublicationDate position item =
      .ok (some c)) : ext.httpUrl item.url = some c.url ∧ c.channelId = channel.id := by
  rw [observeCommand_eq] at h
  cases hdecision : itemDecision svc ext fetched requirePublicationDate item with
  | error e =>
    rw [hdecision] at h
    cases h
  | ok d =>
    rw [hdecision] at h
    simp only at h
    split at h
    · cases hbuild : ObserveDiscoveryCommand.build ext.httpUrl
        (observeArguments channel fetched d.1 position item) with
      | error e =>
        rw [hbuild] at h
        cases h
      | ok command =>
        rw [hbuild] at h
        cases h
        exact ObserveDiscoveryCommand.build_ok hbuild
    · cases h

/-! ### Scheduling and completion -/

inductive PollRunStatus where
  | running | succeeded | notModified | failed
  deriving DecidableEq, Repr

def nextIntervalSeconds (channel : DiscoveryChannel) (status : PollRunStatus)
    (observationCount : ℕ) : ℕ :=
  let proposed :=
    if status = .failed then channel.currentPollSeconds * 2
    else if observationCount > 0 then channel.pollMinSeconds
    else if status = .notModified then (roundHalfEven (3 * channel.currentPollSeconds) 2).toNat
    else (roundHalfEven (5 * channel.currentPollSeconds) 4).toNat
  max channel.pollMinSeconds (min channel.pollMaxSeconds proposed)

/-- `PollCompletion`; `error` stands for the type and the message of the exception. -/
structure PollCompletion where
  runId : Uuid
  channelId : Uuid
  status : PollRunStatus
  completedAt : Timestamp
  nextPollAt : Timestamp
  currentPollSeconds : ℕ
  httpStatus : Option ℕ
  notModified : Bool
  discoveredCount : ℕ
  admittedCount : ℕ
  observationCount : ℕ
  responseBytes : ℕ
  etag : Option Text
  lastModified : Option Text
  error : Option PyError
  deriving DecidableEq

/-- `_finish` without counters and validators. -/
def finish (channel : DiscoveryChannel) (runId : Uuid) (status : PollRunStatus)
    (observationCount : ℕ) (completedAt : Timestamp) : PollCompletion :=
  let interval := nextIntervalSeconds channel status observationCount
  { runId
    channelId := channel.id
    status
    completedAt
    nextPollAt := completedAt + seconds interval
    currentPollSeconds := interval
    httpStatus := none
    notModified := false
    discoveredCount := 0
    admittedCount := 0
    observationCount
    responseBytes := 0
    etag := none
    lastModified := none
    error := none }

/-- `fetched.headers.get(name)`. -/
def FetchResult.header (fetched : FetchResult) (name : String) : Option Text :=
  fetched.headers.lookup name.toList

/-- `fetched.headers.get(name) or known`. -/
def headerOr (fetched : FetchResult) (name : String) (known : Option Text) : Option Text :=
  ((fetched.header name).filter (· ≠ [])).or known

/-- The request of a poll. -/
def pollRequest (channel : DiscoveryChannel) : FetchRequest where
  url := channel.endpointUrl
  etag := channel.etag
  lastModified := channel.lastModified

/-- Lines 172-199: the completion of a run that raised. -/
def failPoll (channel : DiscoveryChannel) (runId : Uuid) (completedAt : Timestamp) (e : PyError) :
    PollCompletion :=
  { finish channel runId .failed 0 completedAt with error := some e }

/-- `poll` after `start_run`: the completion it records, and the state of the service. -/
def poll {σ : Type} (svc : ChannelPollService) (ext : Externals) (admission : DiscoveryAdmission σ)
    (fetch : FetchRequest → Except PyError FetchResult) (channel : DiscoveryChannel) (runId : Uuid)
    (completedAt : Timestamp) (s : σ) : PollCompletion × σ :=
  match fetch (pollRequest channel) with
  | .error e => (failPoll channel runId completedAt e, s)
  | .ok fetched =>
    if fetched.notModified then
      ({ finish channel runId .notModified 0 completedAt with
          httpStatus := some fetched.statusCode
          notModified := true
          responseBytes := fetched.body.length
          etag := headerOr fetched "etag" channel.etag
          lastModified := headerOr fetched "last-modified" channel.lastModified }, s)
    else if fetched.statusCode < 200 || 300 ≤ fetched.statusCode then
      (failPoll channel runId completedAt .runtimeError, s)
    else
      match processPayload svc ext admission channel fetched s with
      | (.error e, s') => (failPoll channel runId completedAt e, s')
      | (.ok (discovered, n), s') =>
        ({ finish channel runId .succeeded n.observations completedAt with
            httpStatus := some fetched.statusCode
            discoveredCount := discovered
            admittedCount := n.admitted
            responseBytes := fetched.body.length
            etag := fetched.header "etag"
            lastModified := fetched.header "last-modified" }, s')

/-- The channel row after `SqlAlchemyPollingRepository.complete`. -/
def completeChannel (completion : PollCompletion) (row : DiscoveryChannel) : DiscoveryChannel :=
  let row :=
    { row with
      nextPollAt := some completion.nextPollAt
      currentPollSeconds := completion.currentPollSeconds
      lastPolledAt := some completion.completedAt
      leaseOwner := none
      leaseExpiresAt := none
      updatedAt := completion.completedAt }
  if completion.status = .succeeded || completion.status = .notModified then
    { row with
      lastSuccessAt := some completion.completedAt
      consecutiveFailures := 0
      etag := completion.etag.or row.etag
      lastModified := completion.lastModified.or row.lastModified }
  else { row with consecutiveFailures := row.consecutiveFailures + 1 }

/-! ### A sample feed -/

/-- An RSS feed of the links, each published on 2 January 2026. -/
def sampleXml (links : List String) : Bytes :=
  asciiBytes ("<rss><channel>".toList ++ links.flatMap (fun link =>
    "<item><link>".toList ++ link.toList ++
      "</link><pubDate>2026-01-02</pubDate></item>".toList) ++ "</channel></rss>".toList)

/-- An `item` of that feed. -/
def sampleItem (link : String) : Element :=
  .node "item".toList [] none
    [.node "link".toList [] (some link.toList) [],
      .node "pubDate".toList [] (some "2026-01-02".toList) []]

/-- What the libraries make of that feed, its links being relative or of https, and of its date. -/
def sampleExternals (links : List String) : Externals where
  unicode := asciiUnicode
  nameprep := Idna.asciiNameprep
  httpUrl url := if "https://".toList.isPrefixOf url then some url else none
  parsers :=
    { fromstring := fun xml =>
        if xml = sampleXml links then
          .ok (.node "rss".toList [] none [.node "channel".toList [] none (links.map sampleItem)])
        else .error .parseError
      htmlCallbacks := fun _ => []
      fromisoformat := fun raw =>
        if raw = "2026-01-02".toList then .ok { wall := 1767312000000000, utcoffset := none }
        else .error .valueError
      parsedateToDatetime := fun _ => .error .valueError }

/-- Its items. -/
def sampleFeed (links : List String) : PolledDocument :=
  .feed (links.map fun link =>
    { externalId := none
      url := link.toList
      title := none
      publishedAtRaw := some "2026-01-02".toList
      channelType := .rss })

def sampleChannel : DiscoveryChannel where
  id := 2
  publisherId := 1
  channelType := .rss
  endpointUrl := "https://example.com/rss".toList
  strategyVersion := "v1".toList
  active := true
  nextPollAt := none
  pollMinSeconds := 60
  pollMaxSeconds := 3600
  currentPollSeconds := 300
  etag := none
  lastModified := none
  lastPolledAt := none
  lastSuccessAt := none
  leaseOwner := none
  leaseExpiresAt := none
  consecutiveFailures := 0
  createdAt := 0
  updatedAt := 0

/-- A response on the same day. -/
def sampleResponse (links : List String) : FetchResult where
  finalUrl := "https://example.com/rss".toList
  statusCode := 200
  headers := [("etag".toList, "\"1\"".toList)]
  body := sampleXml links
  retrievedAt := 1767351600000000

def samplePollService (maxNewUrls : ℕ) (h : 0 < maxNewUrls) : ChannelPollService where
  recentArticleWindowHours := 48
  maxNewUrlsPerChannelPoll := maxNewUrls
  maxNewUrls_pos := h

end Newsintel.Acquisition
