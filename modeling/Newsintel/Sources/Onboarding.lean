import Newsintel.Acquisition.EndpointValidation
import Newsintel.Acquisition.Registry
import Newsintel.Sources.Endpoints
import Newsintel.Sources.Slugs
import Newsintel.Sources.Statistics

/-!
# Onboarding of a publisher (application/sources/service.py)

`discover_publisher` reads the homepage, collects endpoints, fetches each of them once, and adds
the publisher with a channel for each endpoint that has been validated. Only the homepage has to
answer.
-/

namespace Newsintel.Sources

open Acquisition PyText PyUrl FirstPerKey
open SourceDiscovery (validateEndpointPayload)
open ArticleStore (ArticleModel)

/-! ### Commands and answers -/

structure OnboardingCommand extends DiscoverPublisherCommand where
  websiteUrl : Text
  fetchFrequency : FetchFrequency
  manualEndpoints : List Text
  websiteUrl_length : 1 ≤ websiteUrl.length ∧ websiteUrl.length ≤ 2000
  manualEndpoints_length : manualEndpoints.length ≤ 20
  /-- `strip_manual_endpoints` -/
  manualEndpoints_stripped : ∀ t ∈ manualEndpoints, t ≠ [] ∧ strip t = t

structure DiscoveredChannelView where
  id : Uuid
  endpointUrl : Text
  channelType : DiscoveryChannelType
  source : Text
  itemCount : ℕ
  created : Bool
  deriving DecidableEq

/-- The payload of `publisher.source_discovered`. -/
structure SourceDiscovered where
  publisherId : Uuid
  homepageUrl : Text
  attemptedEndpointCount : ℕ
  validEndpointCount : ℕ
  fetchFrequency : FetchFrequency
  deriving DecidableEq

structure PublisherDiscoveryResult where
  publisher : PublisherSourceView
  channels : List DiscoveredChannelView
  attemptedEndpointCount : ℕ
  validEndpointCount : ℕ
  invalidEndpointCount : ℕ
  manualFallbackAvailable : Bool

/-- What a call meets: the clock, and the ids that `uuid7` draws for the publisher and for the
channels, by the place of their endpoints. -/
structure OnboardingTurn where
  now : Timestamp
  publisherId : Uuid
  channelIds : ℕ → Uuid

/-- A call that has committed. -/
structure Onboarded where
  result : PublisherDiscoveryResult
  row : PublisherRow
  event : SourceDiscovered
  db : Database

/-- The call with this number to `fetcher.fetch`. -/
abbrev Fetcher := ℕ → FetchRequest → Except PyError FetchResult

/-- `FetchRequest(url=url)`. -/
def plainRequest (url : Text) : FetchRequest := ⟨url, none, none⟩

/-- `200 <= status_code < 300`. -/
def answered2xx (fetched : FetchResult) : Bool :=
  decide (200 ≤ fetched.statusCode) && decide (fetched.statusCode < 300)

section definitions

variable (ext : Externals)

/-! ### Domains -/

def canonicalDomain (url : Text) : Except PyError Text := do
  let normalized ← normalizeHomepageUrl ext.unicode ext.nameprep url
  let parsed ← urlsplit ext.unicode normalized []
  let host := hostname ext.unicode parsed
  if host = [] then throw .valueError
  return ext.unicode.lower host

/-- `normalize_domain` of policies.py. -/
def normalizeDomain (value : Text) : Except PyError Text := do
  let candidate := strip value
  let parsed ← urlsplit ext.unicode
    (if contains "://".toList candidate then candidate else "https://".toList ++ candidate) []
  if hostname ext.unicode parsed = [] then throw .valueError
  let encoded ← Idna.encode ext.nameprep.prepare (hostname ext.unicode parsed)
  return rstripDots (ext.unicode.lower encoded)

/-! ### Endpoints -/

/-- The sitemaps of robots.txt; whatever goes wrong is logged only. -/
def robotSitemaps (robots : Except PyError FetchResult) (homepageUrl : Text) :
    List DiscoveredEndpoint :=
  match robots with
  | .error _ => []
  | .ok robots =>
    if answered2xx robots then
      ((discoverRobotSitemaps ext.unicode robots.body homepageUrl).toOption).getD []
    else []

/-- The endpoints of lines 104-143, before duplicates are dropped. -/
def candidateEndpoints (fetch : Fetcher) (command : OnboardingCommand) (homepage : FetchResult) :
    Except PyError (List DiscoveredEndpoint) := do
  let alternates ← discoverAlternateLinks ext.unicode ext.parsers homepage.body homepage.finalUrl
  let listings ← discoverListingEndpoints ext.unicode ext.nameprep ext.parsers homepage.body
    homepage.finalUrl 12
  let origin ← originForUrl ext.unicode ext.nameprep homepage.finalUrl
  let robots := fetch 1 (plainRequest (origin ++ "/robots.txt".toList))
  let common ← commonDiscoveryEndpoints ext.unicode ext.nameprep homepage.finalUrl
  return { url := homepage.finalUrl, source := "homepage".toList, hintedType := some .homepage } ::
    alternates ++ listings ++ robotSitemaps ext robots homepage.finalUrl ++ common ++
    command.manualEndpoints.map fun item =>
      { url := item, source := "manual_fallback".toList, hintedType := none }

/-- One pass of the loop in `_validate_endpoints`; every exception is caught. -/
def validateEndpoint (fetched : Except PyError FetchResult) (endpoint : DiscoveredEndpoint) :
    Option SourceDiscovery.ValidatedEndpoint :=
  match fetched with
  | .error _ => none
  | .ok fetched =>
    if answered2xx fetched then
      (validateEndpointPayload ext fetched.body fetched.finalUrl endpoint.source
        endpoint.hintedType).toOption
    else none

/-- `_validate_endpoints`, from the call with the number `call` on. -/
def validateEndpoints (fetch : Fetcher) :
    ℕ → List DiscoveredEndpoint → List SourceDiscovery.ValidatedEndpoint
  | _, [] => []
  | call, endpoint :: endpoints =>
    (validateEndpoint ext (fetch call (plainRequest endpoint.url)) endpoint).toList ++
      validateEndpoints fetch (call + 1) endpoints

/-! ### Channels -/

/-- The answer about an endpoint. -/
def channelView (endpoint : SourceDiscovery.ValidatedEndpoint) (id : Uuid) (created : Bool) :
    DiscoveredChannelView where
  id
  endpointUrl := endpoint.url
  channelType := endpoint.channelType
  source := endpoint.source
  itemCount := endpoint.itemCount
  created

/-- `_create_channel_if_absent`, with its answer. -/
def discoverChannel (publisherId : Uuid) (frequency : FetchFrequency) (now : Timestamp)
    (channelId : Uuid) (endpoint : SourceDiscovery.ValidatedEndpoint)
    (rows : List DiscoveryChannel) :
    Except PyError (DiscoveredChannelView × List DiscoveryChannel) := do
  let canonical ← canonicalizeUrl ext.unicode ext.nameprep keepAllPolicy endpoint.url
  match rows.find? fun r => r.publisherId = publisherId && r.endpointUrl = canonical.normalized with
  | some existing => return (channelView endpoint existing.id false, rows)
  | none =>
    if channelId ∈ rows.map (·.id) then throw .integrityError
    return (channelView endpoint channelId true, rows ++
      [discoveredChannel publisherId frequency now
        ⟨channelId, endpoint.url, endpoint.channelType⟩ canonical.normalized])

/-- The loop over the validated endpoints, the next one at this place. -/
def discoverChannels (publisherId : Uuid) (frequency : FetchFrequency) (turn : OnboardingTurn) :
    ℕ → List SourceDiscovery.ValidatedEndpoint → List DiscoveryChannel →
      Except PyError (List DiscoveredChannelView × List DiscoveryChannel)
  | _, [], rows => .ok ([], rows)
  | place, endpoint :: endpoints, rows => do
    let (view, rows) ← discoverChannel ext publisherId frequency turn.now (turn.channelIds place)
      endpoint rows
    let (views, rows) ← discoverChannels publisherId frequency turn (place + 1) endpoints rows
    return (view :: views, rows)

/-! ### The call -/

/-- The row of the publisher (lines 155-175). -/
def onboardedRow (turn : OnboardingTurn) (command : OnboardingCommand)
    (homepageUrl domain slug : Text) (validated : List SourceDiscovery.ValidatedEndpoint) :
    PublisherRow :=
  { newPublisher turn.publisherId command.publisherName slug domain turn.now with
    fetchFrequency := command.fetchFrequency
    homepageUrl := some homepageUrl
    discoveryStatus :=
      if validated = [] then "no_channels_found".toList else "ready".toList
    discoveryMessage :=
      if validated = [] then
        some ("No valid RSS, Atom, sitemap, homepage, or listing-page " ++
          "endpoint was discovered. Add a manual endpoint.").toList
      else none }

/-- What the transaction leaves, once the channels are there. -/
def committed (turn : OnboardingTurn) (command : OnboardingCommand) (homepageUrl : Text)
    (unique : List DiscoveredEndpoint) (validated : List SourceDiscovery.ValidatedEndpoint)
    (articles : List ArticleModel) (db : Database) (row : PublisherRow)
    (channels : List DiscoveredChannelView × List DiscoveryChannel) : Onboarded :=
  let db := { db with publishers := db.publishers ++ [row.toPublisherModel], channels := channels.2 }
  { result :=
      { publisher := publisherSourceView db articles row
        channels := channels.1
        attemptedEndpointCount := unique.length
        validEndpointCount := validated.length
        invalidEndpointCount := unique.length - validated.length
        manualFallbackAvailable := validated = [] }
    row
    event :=
      { publisherId := turn.publisherId
        homepageUrl
        attemptedEndpointCount := unique.length
        validEndpointCount := validated.length
        fetchFrequency := command.fetchFrequency }
    db }

/-- The transaction (lines 146-229). -/
def onboard (turn : OnboardingTurn) (command : OnboardingCommand) (homepageUrl domain : Text)
    (unique : List DiscoveredEndpoint) (validated : List SourceDiscovery.ValidatedEndpoint)
    (articles : List ArticleModel) (db : Database) : Except PyError Onboarded := do
  if (Table.get? (·.canonicalDomain) domain db.publishers).isSome then throw .valueError
  let slugs := db.publishers.map (·.slug)
  -- the search ends within this many suffixes
  match uniqueSlug (slugs.length + 1) slugs (slugify ext.unicode command.publisherName) with
  | none => throw .runtimeError
  | some slug =>
    -- the columns hold 200 and 253 characters
    if 200 < slug.length || 253 < domain.length then throw .runtimeError
    if (Table.get? (·.slug) slug db.publishers).isSome ||
      (Table.get? (·.id) turn.publisherId db.publishers).isSome then throw .integrityError
    let row := onboardedRow turn command homepageUrl domain slug validated
    let channels ← discoverChannels ext turn.publisherId command.fetchFrequency turn 0 validated
      db.channels
    return committed turn command homepageUrl unique validated articles db row channels

/-- The homepage is call 0, robots.txt call 1, and the endpoints follow. -/
def discoverPublisher (fetch : Fetcher) (turn : OnboardingTurn) (command : OnboardingCommand)
    (articles : List ArticleModel) (db : Database) : Except PyError Onboarded := do
  let homepageUrl ← normalizeHomepageUrl ext.unicode ext.nameprep command.websiteUrl
  let domain ← normalizeDomain ext (← canonicalDomain ext homepageUrl)
  let homepage ← fetch 0 (plainRequest homepageUrl)
  if !answered2xx homepage then throw .runtimeError
  let endpoints ← candidateEndpoints ext fetch command homepage
  let unique ← uniqueEndpoints ext.unicode ext.nameprep endpoints
  onboard ext turn command homepageUrl domain unique (validateEndpoints ext fetch 2 unique) articles
    db

end definitions

/-! ### What is stored -/

section channels

variable {ext : Externals} {publisherId : Uuid} {frequency : FetchFrequency} {turn : OnboardingTurn}
  {place : ℕ} {rows rows' : List DiscoveryChannel}
  {endpoint : SourceDiscovery.ValidatedEndpoint}
  {endpoints : List SourceDiscovery.ValidatedEndpoint} {view : DiscoveredChannelView}
  {views : List DiscoveredChannelView}

/-- The endpoint of a channel. -/
def channelForm (ext : Externals) (endpoint : SourceDiscovery.ValidatedEndpoint) : Option Text :=
  (canonicalizeUrl ext.unicode ext.nameprep keepAllPolicy endpoint.url).toOption.map (·.normalized)

/-- The row that is added for an endpoint with this canonical form. -/
def addedChannel (publisherId : Uuid) (frequency : FetchFrequency) (now : Timestamp)
    (channelId : Uuid) (endpoint : SourceDiscovery.ValidatedEndpoint) (endpointUrl : Text) :
    DiscoveryChannel :=
  discoveredChannel publisherId frequency now ⟨channelId, endpoint.url, endpoint.channelType⟩
    endpointUrl

/- An endpoint that the publisher has already keeps its channel; another one gets a channel. -/
theorem discoverChannel_cases {now : Timestamp} {channelId : Uuid}
    (h : discoverChannel ext publisherId frequency now channelId endpoint rows =
      .ok (view, rows')) :
    ∃ endpointUrl, channelForm ext endpoint = some endpointUrl ∧
      ((∃ r ∈ rows, r.publisherId = publisherId ∧ r.endpointUrl = endpointUrl ∧
          view = channelView endpoint r.id false ∧ rows' = rows) ∨
        ((∀ r ∈ rows, r.publisherId = publisherId → r.endpointUrl ≠ endpointUrl) ∧
          channelId ∉ rows.map (·.id) ∧ view = channelView endpoint channelId true ∧
          rows' = rows ++ [addedChannel publisherId frequency now channelId endpoint endpointUrl])) := by
  unfold discoverChannel at h
  obtain ⟨canonical, hcanonical, h⟩ := bind_ok h
  refine ⟨canonical.normalized, ?_, ?_⟩
  · rw [channelForm, hcanonical]
    rfl
  · cases hfind : rows.find? fun r =>
        r.publisherId = publisherId && r.endpointUrl = canonical.normalized with
    | some existing =>
      rw [hfind] at h
      cases h
      have hmatch := List.find?_some hfind
      rw [Bool.and_eq_true, decide_eq_true_eq, decide_eq_true_eq] at hmatch
      exact Or.inl ⟨existing, List.mem_of_find?_eq_some hfind, hmatch.1, hmatch.2, rfl, rfl⟩
    | none =>
      rw [hfind] at h
      simp only [bind, Except.bind, pure, Except.pure] at h
      split at h
      · cases h
      · rename_i hid
        cases h
        refine Or.inr ⟨?_, hid, rfl, rfl⟩
        intro r hr hpublisher hendpoint
        refine List.find?_eq_none.mp hfind r hr ?_
        rw [hpublisher, hendpoint, Bool.and_eq_true]
        exact ⟨decide_eq_true rfl, decide_eq_true rfl⟩

/-- The channels that the loop has added, with what it has answered. -/
structure ChannelsAdded (ext : Externals) (publisherId : Uuid)
    (endpoints : List SourceDiscovery.ValidatedEndpoint) (seen : List Text)
    (rows added : List DiscoveryChannel) (views : List DiscoveredChannelView) : Prop where
  /-- one answer for each endpoint -/
  answers : views.map (fun v => (v.endpointUrl, v.channelType, v.source, v.itemCount)) =
    endpoints.map fun e => (e.url, e.channelType, e.source, e.itemCount)
  /-- one channel for each canonical form, of the type of the first endpoint with it -/
  first : added.map (fun r => (r.endpointUrl, r.channelType)) =
    (firstPerKey (channelForm ext) seen endpoints).map fun p => (p.1, p.2.channelType)
  created : added.map (·.id) = (views.filter (·.created)).map (·.id)
  owner : ∀ r ∈ added, r.publisherId = publisherId ∧ r.active = true
  /-- an answer names the channel of its endpoint -/
  named : ∀ v ∈ views, ∃ r ∈ rows ++ added, r.id = v.id ∧ r.publisherId = publisherId ∧
    ∃ c, canonicalizeUrl ext.unicode ext.nameprep keepAllPolicy v.endpointUrl = .ok c ∧
      r.endpointUrl = c.normalized

theorem channelForm_some {endpointUrl : Text} (h : channelForm ext endpoint = some endpointUrl) :
    ∃ c, canonicalizeUrl ext.unicode ext.nameprep keepAllPolicy endpoint.url = .ok c ∧
      endpointUrl = c.normalized := by
  obtain ⟨c, hc, rfl⟩ := Option.map_eq_some_iff.mp h
  exact ⟨c, ok_of_toOption hc, rfl⟩

theorem discoverChannels_added {seen : List Text}
    (hseen : ∀ url, url ∈ seen ↔ ∃ r ∈ rows, r.publisherId = publisherId ∧ r.endpointUrl = url)
    (h : discoverChannels ext publisherId frequency turn place endpoints rows =
      .ok (views, rows')) :
    ∃ added, rows' = rows ++ added ∧
      ChannelsAdded ext publisherId endpoints seen rows added views := by
  induction endpoints generalizing place rows seen views with
  | nil =>
    cases h
    exact ⟨[], (List.append_nil _).symm, rfl, rfl, rfl, fun _ hr => absurd hr List.not_mem_nil,
      fun _ hv => absurd hv List.not_mem_nil⟩
  | cons endpoint endpoints ih =>
    rw [discoverChannels] at h
    obtain ⟨⟨view, rows₁⟩, hview, h⟩ := bind_ok h
    obtain ⟨⟨views₁, rows₂⟩, hviews, h⟩ := bind_ok h
    cases h
    obtain ⟨endpointUrl, hform, hdone⟩ := discoverChannel_cases hview
    obtain ⟨c, hc, hcanonical⟩ := channelForm_some hform
    obtain ⟨r, hr, hpublisher, hendpoint, rfl, rfl⟩ | ⟨hnew, _, rfl, rfl⟩ := hdone
    · -- The endpoint has a channel already.
      have hknown : endpointUrl ∈ seen := (hseen _).mpr ⟨r, hr, hpublisher, hendpoint⟩
      obtain ⟨added, rfl, hadded⟩ := ih hseen hviews
      refine ⟨added, rfl, ?_, ?_, ?_, hadded.owner, ?_⟩
      · exact congrArg _ hadded.answers
      · rw [firstPerKey_seen hform hknown]
        exact hadded.first
      · exact hadded.created
      · exact List.forall_mem_cons.mpr ⟨⟨r, List.mem_append_left _ hr, rfl, hpublisher, c, hc,
          hendpoint.trans hcanonical⟩, hadded.named⟩
    · have hunknown : endpointUrl ∉ seen := by
        intro hmem
        obtain ⟨r, hr, hpublisher, hendpoint⟩ := (hseen _).mp hmem
        exact hnew r hr hpublisher hendpoint
      generalize hrow : addedChannel publisherId frequency turn.now (turn.channelIds place) endpoint
        endpointUrl = row at hviews
      have hseen' : ∀ url, url ∈ endpointUrl :: seen ↔
          ∃ r ∈ rows ++ [row], r.publisherId = publisherId ∧ r.endpointUrl = url := by
        intro url
        rw [List.mem_cons, hseen]
        constructor
        · rintro (rfl | ⟨r, hr, hmatch⟩)
          · exact ⟨row, List.mem_append_right _ (List.mem_singleton_self _), hrow ▸ rfl, hrow ▸ rfl⟩
          · exact ⟨r, List.mem_append_left _ hr, hmatch⟩
        · rintro ⟨r, hr, hpublisher, hendpoint⟩
          obtain hr | hr := List.mem_append.mp hr
          · exact Or.inr ⟨r, hr, hpublisher, hendpoint⟩
          · obtain rfl := List.mem_singleton.mp hr
            exact Or.inl (hendpoint.symm.trans (hrow ▸ rfl))
      obtain ⟨added, rfl, hadded⟩ := ih hseen' hviews
      refine ⟨row :: added, List.append_assoc .., ?_, ?_, ?_, ?_, ?_⟩
      · exact congrArg _ hadded.answers
      · rw [firstPerKey_new hform hunknown, List.map_cons, List.map_cons, hadded.first, ← hrow]
        rfl
      · rw [List.map_cons, hadded.created, ← hrow]
        rfl
      · exact List.forall_mem_cons.mpr ⟨hrow ▸ ⟨rfl, rfl⟩, hadded.owner⟩
      · refine List.forall_mem_cons.mpr ⟨⟨row, ?_, hrow ▸ rfl, hrow ▸ rfl, c, hc, ?_⟩, ?_⟩
        · exact List.mem_append_right _ List.mem_cons_self
        · rw [← hrow]
          exact hcanonical
        · intro v hv
          obtain ⟨r, hr, hmatch⟩ := hadded.named v hv
          rw [List.append_assoc] at hr
          exact ⟨r, hr, hmatch⟩

/-- The endpoints with the ids that are drawn for them. -/
def drawn (turn : OnboardingTurn) :
    ℕ → List SourceDiscovery.ValidatedEndpoint → List Acquisition.ValidatedEndpoint
  | _, [] => []
  | place, e :: es => ⟨turn.channelIds place, e.url, e.channelType⟩ :: drawn turn (place + 1) es

/- The rows are those of the transaction without its answers. -/
theorem discoverChannels_rows
    (h : discoverChannels ext publisherId frequency turn place endpoints rows =
      .ok (views, rows')) :
    (drawn turn place endpoints).foldlM (createChannelIfAbsent ext publisherId frequency turn.now)
      rows = .ok rows' := by
  induction endpoints generalizing place rows views with
  | nil =>
    cases h
    rfl
  | cons endpoint endpoints ih =>
    rw [discoverChannels] at h
    obtain ⟨⟨view, rows₁⟩, hview, h⟩ := bind_ok h
    obtain ⟨⟨views₁, rows₂⟩, hviews, h⟩ := bind_ok h
    cases h
    have hstep : createChannelIfAbsent ext publisherId frequency turn.now rows
        ⟨turn.channelIds place, endpoint.url, endpoint.channelType⟩ = .ok rows₁ := by
      obtain ⟨endpointUrl, hform, hdone⟩ := discoverChannel_cases hview
      obtain ⟨c, hc, rfl⟩ := channelForm_some hform
      unfold createChannelIfAbsent
      simp only [hc, bind, Except.bind, pure, Except.pure]
      obtain ⟨r, hr, hpublisher, hendpoint, _, rfl⟩ | ⟨hnew, hid, _, rfl⟩ := hdone
      · rw [if_pos]
        refine List.any_eq_true.mpr ⟨r, hr, ?_⟩
        rw [hpublisher, hendpoint, Bool.and_eq_true]
        exact ⟨decide_eq_true rfl, decide_eq_true rfl⟩
      · rw [if_neg, if_neg hid]
        · rfl
        · intro hany
          obtain ⟨r, hr, hmatch⟩ := List.any_eq_true.mp hany
          rw [Bool.and_eq_true, decide_eq_true_eq, decide_eq_true_eq] at hmatch
          exact hnew r hr hmatch.1 hmatch.2
    rw [drawn, List.foldlM_cons, hstep]
    exact ih hviews

/- The loop goes through when the endpoints have a canonical form and the ids are new. -/
theorem discoverChannels_total (hforms : ∀ e ∈ endpoints, (channelForm ext e).isSome = true)
    (hids : ∀ k, place ≤ k → turn.channelIds k ∉ rows.map (·.id))
    (hdrawn : ∀ j k, place ≤ j → j < k → turn.channelIds j ≠ turn.channelIds k) :
    ∃ views rows', discoverChannels ext publisherId frequency turn place endpoints rows =
      .ok (views, rows') := by
  induction endpoints generalizing place rows with
  | nil => exact ⟨[], rows, rfl⟩
  | cons endpoint endpoints ih =>
    obtain ⟨hform, hforms⟩ := List.forall_mem_cons.mp hforms
    obtain ⟨endpointUrl, hform⟩ := Option.isSome_iff_exists.mp hform
    obtain ⟨c, hc, rfl⟩ := channelForm_some hform
    have hfirst : ∃ view rows₁, discoverChannel ext publisherId frequency turn.now
        (turn.channelIds place) endpoint rows = .ok (view, rows₁) ∧
          ∀ k, place + 1 ≤ k → turn.channelIds k ∉ rows₁.map (·.id) := by
      unfold discoverChannel
      rw [hc, ok_bind]
      cases hfind : rows.find? fun r =>
          r.publisherId = publisherId && r.endpointUrl = c.normalized with
      | some existing =>
        exact ⟨_, rows, rfl, fun k hk => hids k (by omega)⟩
      | none =>
        simp only [if_neg (hids place (Nat.le_refl _))]
        refine ⟨_, _, rfl, ?_⟩
        intro k hk hmem
        rw [List.map_append, List.map_singleton, List.mem_append] at hmem
        obtain hmem | hmem := hmem
        · exact hids k (by omega) hmem
        · exact hdrawn place k (Nat.le_refl _) hk (List.mem_singleton.mp hmem).symm
    obtain ⟨view, rows₁, hview, hids'⟩ := hfirst
    obtain ⟨views, rows', hviews⟩ := ih hforms hids' fun j k hj => hdrawn j k (by omega)
    refine ⟨view :: views, rows', ?_⟩
    rw [discoverChannels, hview, ok_bind]
    simp only [hviews, ok_bind]
    rfl

end channels

/-! ### What is answered -/

section answers

variable {ext : Externals} {fetch : Fetcher} {turn : OnboardingTurn} {command : OnboardingCommand}
  {articles : List ArticleModel} {db : Database} {o : Onboarded}

/- Each endpoint is judged by its own response. -/
theorem validateEndpoints_eq (ext : Externals) (fetch : Fetcher) (call : ℕ)
    (endpoints : List DiscoveredEndpoint) :
    validateEndpoints ext fetch call endpoints = (endpoints.zipIdx call).filterMap fun p =>
      validateEndpoint ext (fetch p.2 (plainRequest p.1.url)) p.1 := by
  induction endpoints generalizing call with
  | nil => rfl
  | cons endpoint endpoints ih =>
    rw [validateEndpoints, ih, List.zipIdx_cons, List.filterMap_cons]
    cases validateEndpoint ext (fetch call (plainRequest endpoint.url)) endpoint <;> rfl

theorem validateEndpoints_length (ext : Externals) (fetch : Fetcher) (call : ℕ)
    (endpoints : List DiscoveredEndpoint) :
    (validateEndpoints ext fetch call endpoints).length ≤ endpoints.length := by
  rw [validateEndpoints_eq]
  exact (List.length_filterMap_le ..).trans_eq List.length_zipIdx

/-- The first of each canonical form. -/
structure UniqueOf (u : Unicode) (nameprep : Idna.Nameprep u)
    (endpoints unique : List DiscoveredEndpoint) : Prop where
  distinct : (unique.map (·.url)).Nodup
  first : ∀ e ∈ unique, ∃ pre d post, endpoints = pre ++ d :: post ∧
    endpointForm u nameprep d = some e.url ∧ e.source = d.source ∧ e.hintedType = d.hintedType ∧
      ∀ p ∈ pre, endpointForm u nameprep p ≠ some e.url
  complete : ∀ d ∈ endpoints, ∀ form, endpointForm u nameprep d = some form →
    form ∈ unique.map (·.url)

theorem uniqueEndpoints_spec {u : Unicode} (nameprep : Idna.Nameprep u)
    (hprepare : ∀ label, RaisesValueErrors (nameprep.prepare label))
    (endpoints : List DiscoveredEndpoint) :
    ∃ unique, uniqueEndpoints u nameprep endpoints = .ok unique ∧
      UniqueOf u nameprep endpoints unique := by
  refine ⟨_, collectUnique_eq hprepare [] endpoints, ?_, ?_, ?_⟩
  · rw [List.map_map]
    exact nodup_keys _ [] endpoints
  · intro e he
    obtain ⟨p, hp, rfl⟩ := List.mem_map.mp he
    obtain ⟨pre, post, hendpoints, hform, _, hpre⟩ := mem_firstPerKey.mp hp
    exact ⟨pre, p.2, post, hendpoints, hform, rfl, rfl, hpre⟩
  · intro d hd form hform
    rw [List.map_map]
    exact mem_keys.mpr ⟨List.not_mem_nil, d, hd, hform⟩

/-- A committed call, of the endpoints that it has tried and of those that were valid. -/
structure Accounted (ext : Externals) (db : Database) (tried : List DiscoveredEndpoint)
    (validated : List SourceDiscovery.ValidatedEndpoint) (o : Onboarded) : Prop where
  attempted : o.result.attemptedEndpointCount = tried.length
  valid : o.result.validEndpointCount = validated.length
  invalid : o.result.validEndpointCount + o.result.invalidEndpointCount =
    o.result.attemptedEndpointCount
  /-- the fallback is offered, and the row says why, when nothing was valid -/
  fallback : o.result.manualFallbackAvailable = true ↔ o.result.channels = []
  message : o.row.discoveryMessage.isSome = o.result.manualFallbackAvailable
  /-- the event repeats the answer -/
  event : o.event.publisherId = o.row.id ∧ some o.event.homepageUrl = o.row.homepageUrl ∧
    o.event.attemptedEndpointCount = o.result.attemptedEndpointCount ∧
      o.event.validEndpointCount = o.result.validEndpointCount
  publishers : o.db.publishers = db.publishers ++ [o.row.toPublisherModel]
  new : o.row.id ∉ db.publishers.map (·.id) ∧ o.row.slug ∉ db.publishers.map (·.slug) ∧
    o.row.canonicalDomain ∉ db.publishers.map (·.canonicalDomain)
  channels : ∃ added, o.db.channels = db.channels ++ added ∧
    ChannelsAdded ext o.row.id validated [] db.channels added o.result.channels
  /-- the figures count the endpoints with a canonical form of their own -/
  feeds : o.result.publisher.rssFeedCount =
    (firstPerKey (channelForm ext) [] validated).countP fun p =>
      p.2.channelType = .rss || p.2.channelType = .atom
  sitemaps : o.result.publisher.sitemapCount =
    (firstPerKey (channelForm ext) [] validated).countP fun p =>
      p.2.channelType = .sitemap || p.2.channelType = .newsSitemap

/- Types that exclude each other are counted apart. -/
theorem countP_types {α : Type} {type : α → DiscoveryChannelType} {a b : DiscoveryChannelType}
    (hne : a ≠ b) (xs : List α) :
    (xs.countP fun x => type x = a) + (xs.countP fun x => type x = b) =
      xs.countP fun x => type x = a || type x = b := by
  induction xs with
  | nil => rfl
  | cons x xs ih =>
    rw [List.countP_cons, List.countP_cons, List.countP_cons, ← ih]
    by_cases ha : type x = a
    · have hb : type x ≠ b := fun hb => hne (ha.symm.trans hb)
      simp only [ha, hne, decide_true, decide_false, Bool.true_or, if_true, Bool.false_eq_true,
        if_false]
      omega
    · by_cases hb : type x = b
      · simp only [hb, hne.symm, decide_true, decide_false, Bool.false_or, if_true,
          Bool.false_eq_true, if_false]
        omega
      · simp only [ha, hb, decide_false, Bool.or_self, Bool.false_eq_true, if_false]
        omega

/- The channels of a new publisher are those that are added. -/
theorem countByType_added {publisherId : Uuid} {validated : List SourceDiscovery.ValidatedEndpoint}
    {rows added : List DiscoveryChannel} {views : List DiscoveredChannelView}
    (hnew : ∀ r ∈ rows, r.publisherId ≠ publisherId)
    (hadded : ChannelsAdded ext publisherId validated [] rows added views)
    (hdb : db.channels = rows ++ added) (channelType : DiscoveryChannelType) :
    countByType db publisherId channelType =
      (firstPerKey (channelForm ext) [] validated).countP fun p =>
        p.2.channelType = channelType := by
  have hrows : (rows.countP fun c =>
      c.publisherId = publisherId && c.active && c.channelType = channelType) = 0 := by
    refine List.countP_eq_zero.mpr fun r hr hmatch => hnew r hr ?_
    rw [Bool.and_eq_true, Bool.and_eq_true, decide_eq_true_eq] at hmatch
    exact hmatch.1.1
  have htypes : (added.countP fun c =>
      c.publisherId = publisherId && c.active && c.channelType = channelType) =
        (added.map fun r => (r.endpointUrl, r.channelType)).countP fun k => k.2 = channelType := by
    rw [List.countP_map]
    refine List.countP_congr fun r hr => ?_
    obtain ⟨hpublisher, hactive⟩ := hadded.owner r hr
    simp [hpublisher, hactive]
  rw [countByType, hdb, List.countP_append, hrows, Nat.zero_add, htypes, hadded.first,
    List.countP_map]
  rfl

/-- The publisher can be added under the slug. -/
structure Free (ext : Externals) (turn : OnboardingTurn) (command : OnboardingCommand)
    (domain : Text) (db : Database) (slug : Text) : Prop where
  unknown : (Table.get? (·.canonicalDomain) domain db.publishers).isSome = false
  search : uniqueSlug ((db.publishers.map (·.slug)).length + 1) (db.publishers.map (·.slug))
    (slugify ext.unicode command.publisherName) = some slug
  fits : (decide (200 < slug.length) || decide (253 < domain.length)) = false
  keys : ((Table.get? (·.slug) slug db.publishers).isSome ||
    (Table.get? (·.id) turn.publisherId db.publishers).isSome) = false

/- The transaction goes through when the publisher is free and its channels can be added. -/
theorem onboard_ok {homepageUrl domain : Text} {tried : List DiscoveredEndpoint}
    {validated : List SourceDiscovery.ValidatedEndpoint} :
    onboard ext turn command homepageUrl domain tried validated articles db = .ok o ↔
      ∃ slug channels, Free ext turn command domain db slug ∧
        discoverChannels ext turn.publisherId command.fetchFrequency turn 0 validated db.channels =
          .ok channels ∧
        o = committed turn command homepageUrl tried validated articles db
          (onboardedRow turn command homepageUrl domain slug validated) channels := by
  constructor
  · intro h
    unfold onboard at h
    simp only [bind, Except.bind, pure, Except.pure] at h
    split at h
    · cases h
    · rename_i hdomain
      split at h
      · cases h
      · rename_i slug hslug
        split at h
        · cases h
        · rename_i hfits
          split at h
          · cases h
          · rename_i hkeys
            split at h
            · cases h
            · rename_i channels hchannels
              cases h
              rw [Bool.not_eq_true] at hdomain hfits hkeys
              exact ⟨slug, channels, ⟨hdomain, hslug, hfits, hkeys⟩, hchannels, rfl⟩
  · rintro ⟨slug, channels, hfree, hchannels, rfl⟩
    unfold onboard
    simp only [hfree.unknown, hfree.search, hfree.fits, hfree.keys, Bool.false_eq_true, if_false,
      hchannels]
    rfl

theorem onboard_accounted {homepageUrl domain : Text} {tried : List DiscoveredEndpoint}
    {validated : List SourceDiscovery.ValidatedEndpoint}
    (howners : ∀ r ∈ db.channels, r.publisherId ∈ db.publishers.map (·.id))
    (hlength : validated.length ≤ tried.length)
    (h : onboard ext turn command homepageUrl domain tried validated articles db = .ok o) :
    Accounted ext db tried validated o := by
  obtain ⟨slug, ⟨views, rows⟩, hfree, hchannels, rfl⟩ := onboard_ok.mp h
  obtain ⟨hslugFree, hid⟩ := free_of_or (Bool.not_eq_true _ ▸ hfree.keys)
  have hid := free_of_isSome hid
  have hnew : ∀ r ∈ db.channels, r.publisherId ≠ turn.publisherId :=
    fun r hr he => hid (he ▸ howners r hr)
  have hnone : ∀ url, url ∈ ([] : List Text) ↔
      ∃ r ∈ db.channels, r.publisherId = turn.publisherId ∧ r.endpointUrl = url := by
    intro url
    refine iff_of_false List.not_mem_nil ?_
    rintro ⟨r, hr, hpublisher, _⟩
    exact hnew r hr hpublisher
  obtain ⟨added, rfl, hadded⟩ := discoverChannels_added hnone hchannels
  have hviews : views.length = validated.length := by
    have hanswers := congrArg List.length hadded.answers
    rwa [List.length_map, List.length_map] at hanswers
  have hempty : validated = [] ↔ views = [] := by
    rw [← List.length_eq_zero_iff, ← List.length_eq_zero_iff, hviews]
  refine ⟨rfl, rfl, Nat.add_sub_cancel' hlength, ?_, ?_, ⟨rfl, rfl, rfl, rfl⟩, rfl,
    ⟨hid, free_of_isSome hslugFree, free_of_isSome (Bool.not_eq_true _ ▸ hfree.unknown)⟩,
    ⟨added, rfl, hadded⟩, ?_, ?_⟩
  · show decide (validated = []) = true ↔ _
    rw [decide_eq_true_eq]
    exact hempty
  · show (if validated = [] then _ else none : Option Text).isSome = decide (validated = [])
    split <;> simp_all
  · refine (congrArg₂ (· + ·) (countByType_added hnew hadded rfl .rss)
      (countByType_added hnew hadded rfl .atom)).trans ?_
    exact countP_types (by decide) _
  · refine (congrArg₂ (· + ·) (countByType_added hnew hadded rfl .sitemap)
      (countByType_added hnew hadded rfl .newsSitemap)).trans ?_
    exact countP_types (by decide) _

def sampleCommand : OnboardingCommand where
  publisherName := "Wire".toList
  publisherName_stripped := by decide +kernel
  publisherName_length := by decide +kernel
  websiteUrl := "https://a.in".toList
  websiteUrl_length := by decide
  fetchFrequency := .hourly
  manualEndpoints := []
  manualEndpoints_length := by decide
  manualEndpoints_stripped := by decide

def sampleOnboarding : OnboardingTurn where
  now := 0
  publisherId := 1
  channelIds k := k + 2

/-- Calls with these numbers are answered, the first with an empty homepage and the others with
a feed of one story. -/
def sampleFetcher (answers : List ℕ) : Fetcher := fun call _ =>
  if call ∉ answers then .error .runtimeError
  else if call = 0 then
    .ok { sampleResponse [] with finalUrl := "https://a.in/".toList, body := [] }
  else .ok { sampleResponse ["https://a.in/1"] with finalUrl := "https://a.in/rss".toList }

def noRows : Database := ⟨[], [], [], [], []⟩

theorem sampleOnboarding_run :
    ∃ o, discoverPublisher (sampleExternals ["https://a.in/1"]) (sampleFetcher [0, 3])
        sampleOnboarding sampleCommand [] noRows = .ok o ∧
      o.result.channels.map (·.created) = [true] ∧ o.result.attemptedEndpointCount = 9 := by
  have hend : (discoverPublisher (sampleExternals ["https://a.in/1"]) (sampleFetcher [0, 3])
      sampleOnboarding sampleCommand [] noRows).toOption.any (fun o =>
        o.result.channels.map (·.created) = [true] && o.result.attemptedEndpointCount = 9) =
          true := by decide +kernel
  obtain ⟨o, ho, hrows⟩ := (Option.any_eq_true _ _).mp hend
  rw [Bool.and_eq_true, decide_eq_true_eq, decide_eq_true_eq] at hrows
  exact ⟨o, ok_of_toOption ho, hrows⟩

/- A call that commits has come through its requests to its transaction. -/
theorem discoverPublisher_ok {fetch : Fetcher}
    (h : discoverPublisher ext fetch turn command articles db = .ok o) :
    ∃ homepageUrl domain homepage endpoints tried,
      normalizeHomepageUrl ext.unicode ext.nameprep command.websiteUrl = .ok homepageUrl ∧
      fetch 0 (plainRequest homepageUrl) = .ok homepage ∧ answered2xx homepage = true ∧
      candidateEndpoints ext fetch command homepage = .ok endpoints ∧
      uniqueEndpoints ext.unicode ext.nameprep endpoints = .ok tried ∧
      onboard ext turn command homepageUrl domain tried (validateEndpoints ext fetch 2 tried) articles
        db = .ok o := by
  unfold discoverPublisher at h
  obtain ⟨homepageUrl, hurl, h⟩ := bind_ok h
  obtain ⟨host, _, h⟩ := bind_ok h
  obtain ⟨domain, _, h⟩ := bind_ok h
  obtain ⟨homepage, hhomepage, h⟩ := bind_ok h
  cases hanswered : answered2xx homepage with
  | false =>
    rw [hanswered] at h
    cases h
  | true =>
    rw [hanswered] at h
    obtain ⟨endpoints, hendpoints, h⟩ := bind_ok h
    obtain ⟨tried, htried, h⟩ := bind_ok h
    exact ⟨homepageUrl, domain, homepage, endpoints, tried, hurl, hhomepage, hanswered, hendpoints,
      htried, h⟩

/- What a committed onboarding has tried, stored and answered. -/
theorem discoverPublisher_accounted (ext : Externals)
    (hprepare : ∀ label, RaisesValueErrors (ext.nameprep.prepare label)) (fetch : Fetcher)
    (turn : OnboardingTurn) (command : OnboardingCommand) (articles : List ArticleModel)
    (db : Database) (howners : ∀ r ∈ db.channels, r.publisherId ∈ db.publishers.map (·.id))
    (o : Onboarded) (h : discoverPublisher ext fetch turn command articles db = .ok o) :
    ∃ homepageUrl homepage endpoints tried,
      normalizeHomepageUrl ext.unicode ext.nameprep command.websiteUrl = .ok homepageUrl ∧
      fetch 0 (plainRequest homepageUrl) = .ok homepage ∧ answered2xx homepage = true ∧
      candidateEndpoints ext fetch command homepage = .ok endpoints ∧
      UniqueOf ext.unicode ext.nameprep endpoints tried ∧
      Accounted ext db tried (validateEndpoints ext fetch 2 tried) o := by
  obtain ⟨homepageUrl, domain, homepage, endpoints, tried, hurl, hhomepage, hanswered, hendpoints,
    htried, honboard⟩ := discoverPublisher_ok h
  obtain ⟨unique, hunique, hspec⟩ := uniqueEndpoints_spec ext.nameprep hprepare endpoints
  obtain rfl := Except.ok.inj (htried.symm.trans hunique)
  exact ⟨homepageUrl, homepage, endpoints, tried, hurl, hhomepage, hanswered, hendpoints, hspec,
    onboard_accounted howners (validateEndpoints_length ext fetch 2 tried) honboard⟩

/- Of nine endpoints one has answered with a feed. -/
theorem sampleOnboarding_accounted :
    ∃ o tried validated, discoverPublisher (sampleExternals ["https://a.in/1"])
        (sampleFetcher [0, 3]) sampleOnboarding sampleCommand [] noRows = .ok o ∧
      o.result.channels.map (·.created) = [true] ∧ tried.length = 9 ∧
        Accounted (sampleExternals ["https://a.in/1"]) noRows tried validated o := by
  obtain ⟨o, ho, hchannels, hattempted⟩ := sampleOnboarding_run
  obtain ⟨_, _, _, tried, _, _, _, _, _, haccounted⟩ := discoverPublisher_accounted _
    asciiNameprep_raises _ _ _ _ _ (fun _ hr => absurd hr List.not_mem_nil) o ho
  exact ⟨o, tried, _, ho, hchannels, haccounted.attempted.symm.trans hattempted, haccounted⟩

/- A payload is valid under the URL that it came from. -/
theorem validateDocument_url {payload : Bytes} {endpointUrl source : Text}
    {valid : SourceDiscovery.ValidatedEndpoint}
    (h : SourceDiscovery.validateDocument ext payload endpointUrl source = .ok valid) :
    valid.url = endpointUrl := by
  unfold SourceDiscovery.validateDocument at h
  simp only at h
  split at h
  · rename_i hfeed
    cases h
    obtain ⟨items, _, hvalid⟩ := SourceDiscovery.validated_ok hfeed
    obtain ⟨first, _, rfl⟩ := Option.map_eq_some_iff.mp hvalid
    rfl
  · split at h
    · rename_i hsitemap
      cases h
      obtain ⟨sitemap, _, hvalid⟩ := SourceDiscovery.validated_ok hsitemap
      split at hvalid
      · cases hvalid
      · cases hvalid
        rfl
    · cases h
    · split at h <;> cases h

theorem validateEndpointPayload_url {payload : Bytes} {endpointUrl source : Text}
    {hintedType : Option DiscoveryChannelType} {valid : SourceDiscovery.ValidatedEndpoint}
    (h : validateEndpointPayload ext payload endpointUrl source hintedType = .ok valid) :
    valid.url = endpointUrl := by
  unfold validateEndpointPayload at h
  split at h
  · exact validateDocument_url h
  · split at h
    · cases h
    · rename_i hlinks
      cases h
      obtain ⟨links, _, hvalid⟩ := SourceDiscovery.validated_ok hlinks
      split at hvalid
      · cases hvalid
      · cases hvalid
        rfl
    · exact validateDocument_url h

/- The endpoint that was valid is that of the response. -/
theorem validateEndpoint_url {fetched : Except PyError FetchResult} {endpoint : DiscoveredEndpoint}
    {valid : SourceDiscovery.ValidatedEndpoint}
    (h : validateEndpoint ext fetched endpoint = some valid) :
    ∃ answer, fetched = .ok answer ∧ valid.url = answer.finalUrl := by
  cases fetched with
  | error e => cases h
  | ok answer =>
    refine ⟨answer, rfl, ?_⟩
    rw [validateEndpoint] at h
    split at h
    · exact validateEndpointPayload_url (ok_of_toOption h)
    · cases h

/- Whatever the other requests bring, the homepage decides whether a publisher is added, and its
row but for the status. -/
theorem discoverPublisher_isolated (ext : Externals)
    (hprepare : ∀ label, RaisesValueErrors (ext.nameprep.prepare label)) (fetch fetch' : Fetcher)
    (hhomepage : fetch 0 = fetch' 0)
    (hfinal : ∀ call request fetched, fetch' call request = .ok fetched →
      (canonicalizeUrl ext.unicode ext.nameprep keepAllPolicy fetched.finalUrl).isOk = true)
    (turn : OnboardingTurn) (command : OnboardingCommand) (articles : List ArticleModel)
    (db : Database) (hids : ∀ k, turn.channelIds k ∉ db.channels.map (·.id))
    (hdrawn : Function.Injective turn.channelIds) (o : Onboarded)
    (h : discoverPublisher ext fetch turn command articles db = .ok o) :
    ∃ o', discoverPublisher ext fetch' turn command articles db = .ok o' ∧
      { o'.row with
        discoveryStatus := o.row.discoveryStatus
        discoveryMessage := o.row.discoveryMessage } = o.row := by
  unfold discoverPublisher at h ⊢
  obtain ⟨homepageUrl, hurl, h⟩ := bind_ok h
  obtain ⟨host, hhost, h⟩ := bind_ok h
  obtain ⟨domain, hdomain, h⟩ := bind_ok h
  obtain ⟨homepage, hfetched, h⟩ := bind_ok h
  rw [hurl, ok_bind, hhost, ok_bind, hdomain, ok_bind, ← hhomepage, hfetched, ok_bind]
  cases hanswered : answered2xx homepage with
  | false =>
    rw [hanswered] at h
    cases h
  | true =>
    rw [hanswered] at h
    obtain ⟨endpoints, hendpoints, h⟩ := bind_ok h
    obtain ⟨tried, _, h⟩ := bind_ok h
    have hcandidates : ∃ endpoints', candidateEndpoints ext fetch' command homepage =
        .ok endpoints' := by
      unfold candidateEndpoints at hendpoints ⊢
      obtain ⟨alternates, halternates, hendpoints⟩ := bind_ok hendpoints
      obtain ⟨listings, hlistings, hendpoints⟩ := bind_ok hendpoints
      obtain ⟨origin, horigin, hendpoints⟩ := bind_ok hendpoints
      obtain ⟨common, hcommon, _⟩ := bind_ok hendpoints
      rw [halternates, ok_bind, hlistings, ok_bind, horigin, ok_bind]
      simp only [hcommon, ok_bind]
      exact ⟨_, rfl⟩
    obtain ⟨endpoints', hendpoints'⟩ := hcandidates
    obtain ⟨tried', htried', _⟩ := uniqueEndpoints_spec ext.nameprep hprepare
      endpoints'
    obtain ⟨slug, channels, hfree, _, rfl⟩ := onboard_ok.mp h
    have hforms : ∀ e ∈ validateEndpoints ext fetch' 2 tried',
        (channelForm ext e).isSome = true := by
      intro e he
      rw [validateEndpoints_eq] at he
      obtain ⟨p, _, hvalid⟩ := List.mem_filterMap.mp he
      obtain ⟨answer, hanswer, hurl⟩ := validateEndpoint_url hvalid
      have hcanonical := hfinal _ _ _ hanswer
      rw [← hurl] at hcanonical
      rw [channelForm]
      cases hform : canonicalizeUrl ext.unicode ext.nameprep keepAllPolicy e.url with
      | error e =>
        rw [hform] at hcanonical
        cases hcanonical
      | ok c => rfl
    have hchannels : ∃ views rows, discoverChannels ext turn.publisherId command.fetchFrequency turn
        0 (validateEndpoints ext fetch' 2 tried') db.channels = .ok (views, rows) :=
      discoverChannels_total hforms (fun k _ => hids k)
        (fun j k _ hlt he => (Nat.ne_of_lt hlt) (hdrawn he))
    obtain ⟨views, rows, hchannels⟩ := hchannels
    rw [hendpoints', Bool.not_true, if_neg Bool.false_ne_true, ok_bind, htried', ok_bind]
    exact ⟨_, onboard_ok.mpr ⟨slug, (views, rows), hfree, hchannels, rfl⟩, rfl⟩

/- The feed may be lost, and the publisher is added all the same. -/
theorem sampleOnboarding_isolated :
    ∃ o o', discoverPublisher (sampleExternals ["https://a.in/1"]) (sampleFetcher [0, 3])
        sampleOnboarding sampleCommand [] noRows = .ok o ∧
      discoverPublisher (sampleExternals ["https://a.in/1"]) (sampleFetcher [0])
        sampleOnboarding sampleCommand [] noRows = .ok o' ∧
      { o'.row with
        discoveryStatus := o.row.discoveryStatus
        discoveryMessage := o.row.discoveryMessage } = o.row := by
  obtain ⟨o, ho, _, _⟩ := sampleOnboarding_run
  have hcanonical : ∀ url ∈ ["https://a.in/".toList, "https://a.in/rss".toList],
      (canonicalizeUrl asciiUnicode Idna.asciiNameprep keepAllPolicy url).isOk = true := by
    decide +kernel
  obtain ⟨o', ho', hrow⟩ := discoverPublisher_isolated (sampleExternals ["https://a.in/1"])
    asciiNameprep_raises (sampleFetcher [0, 3]) (sampleFetcher [0]) rfl (by
      intro call request fetched hfetched
      unfold sampleFetcher at hfetched
      split at hfetched
      · cases hfetched
      · split at hfetched
        · cases hfetched
          exact hcanonical _ List.mem_cons_self
        · cases hfetched
          exact hcanonical _ (List.mem_cons_of_mem _ List.mem_cons_self))
    sampleOnboarding sampleCommand [] noRows (fun _ => List.not_mem_nil)
    (fun j k he => Nat.add_right_cancel he) o ho
  exact ⟨o, o', ho, ho', hrow⟩

/-! ### Into the registry -/

/- The call stores what the transaction without its answers stores. -/
theorem onboard_stores {homepageUrl domain : Text} {tried : List DiscoveredEndpoint}
    {validated : List SourceDiscovery.ValidatedEndpoint}
    (h : onboard ext turn command homepageUrl domain tried validated articles db = .ok o) :
    Acquisition.discoverPublisher ext turn.publisherId command.publisherName o.row.slug
      o.row.canonicalDomain command.fetchFrequency turn.now (drawn turn 0 validated) db =
        .ok o.db := by
  obtain ⟨slug, ⟨views, rows⟩, hfree, hchannels, rfl⟩ := onboard_ok.mp h
  have hrows := discoverChannels_rows hchannels
  have hdomain : (Table.get? (·.canonicalDomain) domain db.publishers).isSome = false :=
    hfree.unknown
  have hkeys : ((Table.get? (·.slug) slug db.publishers).isSome ||
    (Table.get? (·.id) turn.publisherId db.publishers).isSome) = false := hfree.keys
  unfold Acquisition.discoverPublisher
  simp only [committed, onboardedRow, newPublisher, hdomain, hkeys, hrows, Bool.false_eq_true,
    if_false]
  rfl

/- In every state that the channels reach, a call that commits is a step of theirs. -/
theorem discoverPublisher_registered (ext : Externals) (clock : Timestamp)
    (steps : List ChannelStep) (w : ChannelWorld)
    (hrun : Runs.exec (channelStep ext) (emptyWorld clock) steps = some w) (fetch : Fetcher)
    (turn : OnboardingTurn) (hnow : turn.now ≤ w.clock) (command : OnboardingCommand)
    (articles : List ArticleModel) (o : Onboarded)
    (h : discoverPublisher ext fetch turn command articles w.db = .ok o) :
    ∃ tried endpoints, endpoints = drawn turn 0 (validateEndpoints ext fetch 2 tried) ∧
      channelStep ext w (.act turn.now (.discoverPublisher turn.publisherId command.publisherName
        o.row.slug o.row.canonicalDomain command.fetchFrequency endpoints)) =
          some { w with db := o.db } ∧
      Registry ext { w with db := o.db } ∧
      Accounted ext w.db tried (validateEndpoints ext fetch 2 tried) o := by
  obtain ⟨homepageUrl, domain, homepage, endpoints, tried, _, _, _, _, _, honboard⟩ :=
    discoverPublisher_ok h
  have hregistry : Registry ext w :=
    Runs.invariant (registry_empty clock) (fun _ _ _ hw hstep => registry_step hw hstep) hrun
  have hstep : channelStep ext w (.act turn.now (.discoverPublisher turn.publisherId
      command.publisherName o.row.slug o.row.canonicalDomain command.fetchFrequency
      (drawn turn 0 (validateEndpoints ext fetch 2 tried)))) = some { w with db := o.db } := by
    rw [channelStep, if_pos hnow]
    simp only [act, onboard_stores honboard]
    rfl
  exact ⟨tried, _, rfl, hstep, registry_step hregistry hstep,
    onboard_accounted hregistry.owners (validateEndpoints_length ext fetch 2 tried) honboard⟩

/-- Another publisher has the name already. -/
def sameName : List ChannelStep :=
  [.act 0 (.createPublisher 9 "Wire".toList "wire".toList "b.in".toList), .tick 10]

theorem sampleOnboarding_registered :
    ∃ w o tried, Runs.exec (channelStep (sampleExternals ["https://a.in/1"])) (emptyWorld 0)
        sameName = some w ∧
      discoverPublisher (sampleExternals ["https://a.in/1"]) (sampleFetcher [0, 3])
        sampleOnboarding sampleCommand [] w.db = .ok o ∧
      o.row.slug = "wire-2".toList ∧
      Registry (sampleExternals ["https://a.in/1"]) { w with db := o.db } ∧
      Accounted (sampleExternals ["https://a.in/1"]) w.db tried
        (validateEndpoints (sampleExternals ["https://a.in/1"]) (sampleFetcher [0, 3]) 2 tried)
        o := by
  have hend : (Runs.exec (channelStep (sampleExternals ["https://a.in/1"])) (emptyWorld 0)
      sameName).any (fun w => 0 ≤ w.clock && (discoverPublisher (sampleExternals ["https://a.in/1"])
        (sampleFetcher [0, 3]) sampleOnboarding sampleCommand [] w.db).toOption.any
          fun o => o.row.slug = "wire-2".toList) = true := by decide +kernel
  obtain ⟨w, hw, hend⟩ := (Option.any_eq_true _ _).mp hend
  rw [Bool.and_eq_true, decide_eq_true_eq] at hend
  obtain ⟨o, ho, hslug⟩ := (Option.any_eq_true _ _).mp hend.2
  obtain ⟨tried, _, _, _, hregistry, haccounted⟩ := discoverPublisher_registered
    (sampleExternals ["https://a.in/1"]) 0 sameName w hw (sampleFetcher [0, 3]) sampleOnboarding
    hend.1 sampleCommand [] o (ok_of_toOption ho)
  exact ⟨w, o, tried, hw, ok_of_toOption ho, of_decide_eq_true hslug, hregistry, haccounted⟩

end answers

end Newsintel.Sources
