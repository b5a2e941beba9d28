import Newsintel.Acquisition.Polling
import Newsintel.Articles.CandidateRow

/-!
# The acquisition service (application/acquisition/service.py)

`observe_discovery`, `create_channel` and `create_publisher`, each one transaction on the
tables of acquisition_repositories.py. Other workers commit transactions of their own between
two calls; what they may do to the rows is that rows stay, with their keys.
-/

namespace Newsintel.Acquisition

open PyText Articles

/-! ### Frontier priority (domain/acquisition/frontier.py, policies.py) -/

structure FrontierPriorityInputs where
  freshnessProbability : ℚ
  channelHistoricalYield : ℚ
  expectedUpdateProbability : ℚ
  recallGapImpact : ℚ
  sourceQualityAndCoverageValue : ℚ
  eventSignificance : ℚ
  publicationVelocity : ℚ
  breakingNewsProbability : ℚ
  explorationValue : ℚ
  channelBoost : ℚ
  hostSaturationPenalty : ℚ
  retryPenalty : ℚ
  expectedCostPenalty : ℚ
  /-- `__post_init__` -/
  bounded : ∀ value ∈ [freshnessProbability, channelHistoricalYield, expectedUpdateProbability,
    recallGapImpact, sourceQualityAndCoverageValue, eventSignificance, publicationVelocity,
    breakingNewsProbability, explorationValue, hostSaturationPenalty, retryPenalty,
    expectedCostPenalty], 0 ≤ value ∧ value ≤ 1

/-- The score of `calculate_frontier_priority`, on the decimals of the source. -/
def calculateFrontierPriority (inputs : FrontierPriorityInputs) : ℚ :=
  let rawScore :=
    22 / 100 * inputs.freshnessProbability + 15 / 100 * inputs.channelHistoricalYield +
      12 / 100 * inputs.expectedUpdateProbability + 10 / 100 * inputs.recallGapImpact +
      10 / 100 * inputs.sourceQualityAndCoverageValue + 10 / 100 * inputs.eventSignificance +
      8 / 100 * inputs.publicationVelocity + 8 / 100 * inputs.breakingNewsProbability +
      5 / 100 * inputs.explorationValue + inputs.channelBoost - inputs.hostSaturationPenalty -
      inputs.retryPenalty - inputs.expectedCostPenalty
  max 0 (min 1 rawScore)

/-- `CHANNEL_BOOSTS.get(channel_type, 0.0)`. -/
def channelBoost : DiscoveryChannelType → ℚ
  | .newsSitemap | .websub | .webhook => 12 / 100
  | .api => 8 / 100
  | .rss | .atom => 6 / 100
  | .sitemap => 4 / 100
  | _ => 0

def bootstrapPriorityInputs (channelType : DiscoveryChannelType) : FrontierPriorityInputs where
  freshnessProbability := 1
  channelHistoricalYield := 1 / 2
  expectedUpdateProbability := 1 / 5
  recallGapImpact := 1 / 2
  sourceQualityAndCoverageValue := 1 / 2
  eventSignificance := 0
  publicationVelocity := 3 / 10
  breakingNewsProbability := 1 / 5
  explorationValue := 1 / 2
  channelBoost := channelBoost channelType
  hostSaturationPenalty := 0
  retryPenalty := 0
  expectedCostPenalty := 0
  bounded := by decide +kernel

/-! ### Tables -/

inductive FetchFrequency where
  | manual | every15Minutes | hourly | every6Hours | daily
  deriving DecidableEq, Repr

/-- Columns of `publishers`, but for the homepage and the notes on its discovery. -/
structure PublisherModel where
  id : Uuid
  name : Text
  slug : Text
  canonicalDomain : Text
  fetchFrequency : FetchFrequency
  lastFetchedAt : Option Timestamp
  active : Bool
  createdAt : Timestamp
  updatedAt : Timestamp
  deriving DecidableEq

/-- Columns of `url_discoveries`. -/
structure UrlDiscoveryModel where
  id : Uuid
  urlCandidateId : Uuid
  channelId : Uuid
  discoveredUrl : Text
  discoveredAt : Timestamp
  channelPosition : Option ℕ
  payloadHash : Option Bytes
  deriving DecidableEq

def candidateKey (r : UrlCandidateModel) : Uuid × Bytes := (r.id, r.urlFingerprint)

def discoveryKey (d : UrlDiscoveryModel) : Uuid × Uuid := (d.urlCandidateId, d.channelId)

/-- The events of the service, with their payloads. -/
inductive AcquisitionEvent where
  | publisherCreated (publisherId : Uuid) (slug canonicalDomain : Text)
  | channelCreated (channelId publisherId : Uuid) (channelType : DiscoveryChannelType)
      (endpointUrl : Text)
  | itemObserved (candidateId channelId publisherId : Uuid) (url normalizedUrl : Text)
      (externalId title : Option Text) (publishedAt : Option Timestamp)
      (publishedAtRaw : Option Text) (discoveredAt : Timestamp)
  | urlAdmitted (candidateId publisherId : Uuid) (normalizedUrl : Text) (priorityScore : ℚ)
      (publishedAt firstDiscoveredAt : Option Timestamp) (nextFetchAt : Timestamp)
  deriving DecidableEq

/-- The parts of `idempotency_key` between its colons. -/
def AcquisitionEvent.idempotencyKey : AcquisitionEvent → String × List Uuid
  | .publisherCreated publisher .. => ("publisher.created", [publisher])
  | .channelCreated channel .. => ("discovery.channel_created", [channel])
  | .itemObserved candidate channel .. => ("discovery.item_observed", [candidate, channel])
  | .urlAdmitted candidate .. => ("frontier.url_admitted", [candidate])

/-- The rows that the service reads and writes. -/
structure Database where
  publishers : List PublisherModel
  channels : List DiscoveryChannel
  candidates : List UrlCandidateModel
  discoveries : List UrlDiscoveryModel
  outbox : List AcquisitionEvent

namespace Database

/-- Ids and fingerprints of the candidates. -/
def candidateKeys (db : Database) : List (Uuid × Bytes) := db.candidates.map candidateKey

/-- `uq_url_discoveries_candidate_channel`. -/
def discoveryKeys (db : Database) : List (Uuid × Uuid) := db.discoveries.map discoveryKey

/-- The fingerprints of the candidates, each present. -/
def fingerprints (db : Database) : List (Option Bytes) :=
  db.candidates.map fun r => some r.urlFingerprint

/-- The channel has observed the URL with the fingerprint. -/
def Observed (db : Database) (fingerprint : Bytes) (channelId : Uuid) : Prop :=
  ∃ r ∈ db.candidates, r.urlFingerprint = fingerprint ∧
    ∃ d ∈ db.discoveries, d.urlCandidateId = r.id ∧ d.channelId = channelId

instance (db : Database) (fingerprint : Bytes) (channelId : Uuid) :
    Decidable (db.Observed fingerprint channelId) :=
  inferInstanceAs (Decidable (∃ r ∈ db.candidates, r.urlFingerprint = fingerprint ∧
    ∃ d ∈ db.discoveries, d.urlCandidateId = r.id ∧ d.channelId = channelId))

/-- No row is deleted, and none gets another key. -/
structure Keeps (db db' : Database) : Prop where
  candidates : db.candidateKeys ⊆ db'.candidateKeys
  discoveries : db.discoveryKeys ⊆ db'.discoveryKeys

variable {db db' db'' : Database} {fingerprint : Bytes} {channelId : Uuid}

theorem Keeps.refl (db : Database) : db.Keeps db :=
  ⟨List.Subset.refl _, List.Subset.refl _⟩

theorem Keeps.trans (h : db.Keeps db') (h' : db'.Keeps db'') : db.Keeps db'' :=
  ⟨List.Subset.trans h.candidates h'.candidates, List.Subset.trans h.discoveries h'.discoveries⟩

theorem observed_iff :
    db.Observed fingerprint channelId ↔
      ∃ id, (id, fingerprint) ∈ db.candidateKeys ∧ (id, channelId) ∈ db.discoveryKeys := by
  constructor
  · rintro ⟨r, hr, rfl, d, hd, hid, rfl⟩
    refine ⟨r.id, List.mem_map.mpr ⟨r, hr, rfl⟩, List.mem_map.mpr ⟨d, hd, ?_⟩⟩
    rw [discoveryKey, hid]
  · rintro ⟨id, hcandidate, hdiscovery⟩
    obtain ⟨r, hr, hkey⟩ := List.mem_map.mp hcandidate
    obtain ⟨d, hd, hkey'⟩ := List.mem_map.mp hdiscovery
    obtain ⟨rfl, rfl⟩ := (Prod.mk.injEq ..).mp hkey
    obtain ⟨hid, rfl⟩ := (Prod.mk.injEq ..).mp hkey'
    exact ⟨r, hr, rfl, d, hd, hid, rfl⟩

theorem mem_fingerprints :
    some fingerprint ∈ db.fingerprints ↔ ∃ id, (id, fingerprint) ∈ db.candidateKeys := by
  simp [fingerprints, candidateKeys, candidateKey]

theorem Keeps.fingerprints (h : db.Keeps db') : db.fingerprints ⊆ db'.fingerprints := by
  intro k hk
  obtain ⟨r, hr, rfl⟩ := List.mem_map.mp hk
  obtain ⟨id, hid⟩ := mem_fingerprints.mp hk
  exact mem_fingerprints.mpr ⟨id, h.candidates hid⟩

theorem Keeps.observed (h : db.Keeps db') (ho : db.Observed fingerprint channelId) :
    db'.Observed fingerprint channelId := by
  obtain ⟨id, hcandidate, hdiscovery⟩ := observed_iff.mp ho
  exact observed_iff.mpr ⟨id, h.candidates hcandidate, h.discoveries hdiscovery⟩

end Database

/-! ### Transactions -/

/-- What a call meets: what others commit before it, the clock, the ids that `uuid7`
draws, and an error of the database, if any. -/
structure Turn where
  others : Database → Database
  others_keep : ∀ db : Database, db.Keeps (others db)
  now : Timestamp
  candidateId : Uuid
  discoveryId : Uuid
  channelId : Uuid
  failure : Option PyError

/-- `bytes.fromhex` of hexadecimal digits. -/
def fromHex : Text → Bytes
  | a :: b :: t => UInt8.ofNat (16 * PyQuote.hexValue a + PyQuote.hexValue b) :: fromHex t
  | _ => []

/-- `uow.outbox.add`: `ON CONFLICT (idempotency_key) DO NOTHING`. -/
def addEvent (event : AcquisitionEvent) (outbox : List AcquisitionEvent) : List AcquisitionEvent :=
  (Table.insert (·.idempotencyKey) event outbox).getD outbox

/-- Lines 118-147: the candidate, whether it is new, and the table. -/
def admitCandidate (d : Discovery) (candidates : List UrlCandidateModel) :
    Except PyError (UrlCandidateModel × Bool × List UrlCandidateModel) :=
  match Table.get? (·.urlFingerprint) d.urlFingerprint candidates with
  | some row =>
    .ok (updateCandidateJobMetadata d row, false,
      Table.update (·.id) row.id (updateCandidateJobMetadata d) candidates)
  | none =>
    if d.id ∈ candidates.map (·.id) then .error .integrityError
    else .ok (admittedRow d, true, candidates ++ [admittedRow d])

/-- `add_discovery_if_absent`: whether the row is new, and the table. -/
def addDiscoveryIfAbsent (d : UrlDiscoveryModel) (discoveries : List UrlDiscoveryModel) :
    Except PyError (Bool × List UrlDiscoveryModel) :=
  if discoveryKey d ∈ discoveries.map discoveryKey then .ok (false, discoveries)
  else if d.id ∈ discoveries.map (·.id) then .error .integrityError
  else .ok (true, discoveries ++ [d])

/-- The events that `observe_discovery` adds. -/
def observationEvents (command : ObserveDiscoveryCommand) (channel : DiscoveryChannel)
    (candidate : UrlCandidateModel) (observedAt : Timestamp) (candidateCreated created : Bool) :
    List AcquisitionEvent :=
  (if created then
    [.itemObserved candidate.id channel.id channel.publisherId command.url candidate.normalizedUrl
      command.externalId command.title command.publishedAt command.publishedAtRaw observedAt]
  else []) ++
  (if candidateCreated then
    [.urlAdmitted candidate.id channel.publisherId candidate.normalizedUrl candidate.priorityScore
      candidate.publishedAt candidate.firstDiscoveredAt candidate.nextFetchAt]
  else [])

/-- What `observe_discovery` brings to the frontier (lines 124-134). -/
def discoveryOf (turn : Turn) (command : ObserveDiscoveryCommand) (channel : DiscoveryChannel)
    (canonical : CanonicalUrl) : Discovery where
  id := turn.candidateId
  publisherId := channel.publisherId
  normalizedUrl := canonical.normalized
  urlFingerprint := fromHex canonical.fingerprint
  priorityScore := calculateFrontierPriority (bootstrapPriorityInputs channel.channelType)
  publishedAt := command.publishedAt
  observedAt := command.discoveredAt.getD turn.now
  now := turn.now

/-- Lines 148-158. -/
def observationOf (turn : Turn) (command : ObserveDiscoveryCommand) (channel : DiscoveryChannel)
    (candidate : UrlCandidateModel) : UrlDiscoveryModel where
  id := turn.discoveryId
  urlCandidateId := candidate.id
  channelId := channel.id
  discoveredUrl := command.url
  discoveredAt := command.discoveredAt.getD turn.now
  channelPosition := command.channelPosition
  payloadHash := command.payloadSha256.map fromHex

/-- `uow.channels.get`, when the channel is active. -/
def activeChannel (channelId : Uuid) (db : Database) : Option DiscoveryChannel :=
  (Table.get? (·.id) channelId db.channels).filter (·.active)

def observeDiscovery (ext : Externals) (turn : Turn) (command : ObserveDiscoveryCommand)
    (db : Database) : Except PyError (DiscoveryObservationResult × Database) := do
  let canonical ← canonicalizeUrl ext.unicode ext.nameprep defaultPolicy command.url
  match activeChannel command.channelId db with
  | none => throw .lookupError
  | some channel =>
    let (candidate, candidateCreated, candidates) ←
      admitCandidate (discoveryOf turn command channel canonical) db.candidates
    let (created, discoveries) ←
      addDiscoveryIfAbsent (observationOf turn command channel candidate) db.discoveries
    let events := observationEvents command channel candidate
      (command.discoveredAt.getD turn.now) candidateCreated created
    return (⟨candidateCreated, created⟩,
      { db with candidates, discoveries, outbox := events.foldl (fun o e => addEvent e o) db.outbox })

/-- A row with the column defaults of `PublisherModel`. -/
def newPublisher (id : Uuid) (name slug canonicalDomain : Text) (now : Timestamp) :
    PublisherModel where
  id
  name
  slug
  canonicalDomain
  fetchFrequency := .hourly
  lastFetchedAt := none
  active := true
  createdAt := now
  updatedAt := now

/-- `create_publisher`, of a normalised domain. -/
def createPublisher (id : Uuid) (name slug canonicalDomain : Text) (now : Timestamp)
    (db : Database) : Except PyError Database :=
  if (Table.get? (·.slug) slug db.publishers).isSome then .error .resourceConflictError
  else if (Table.get? (·.canonicalDomain) canonicalDomain db.publishers).isSome ||
      (Table.get? (·.id) id db.publishers).isSome
  then .error .integrityError
  else .ok
    { db with
      publishers := db.publishers ++ [newPublisher id name slug canonicalDomain now]
      outbox := addEvent (.publisherCreated id slug canonicalDomain) db.outbox }

/-- The row that `create_channel` adds. -/
def createdChannel (turn : Turn) (command : CreateChannelCommand) (endpointUrl : Text) :
    DiscoveryChannel where
  id := turn.channelId
  publisherId := command.publisherId
  channelType := command.channelType
  endpointUrl
  strategyVersion := command.strategyVersion
  active := true
  nextPollAt := some turn.now
  pollMinSeconds := command.pollMinSeconds
  pollMaxSeconds := command.pollMaxSeconds
  currentPollSeconds := command.currentPollSeconds
  etag := none
  lastModified := none
  lastPolledAt := none
  lastSuccessAt := none
  leaseOwner := none
  leaseExpiresAt := none
  consecutiveFailures := 0
  createdAt := turn.now
  updatedAt := turn.now

def createChannel (ext : Externals) (turn : Turn) (command : CreateChannelCommand)
    (db : Database) : Except PyError (Unit × Database) := do
  let canonical ← canonicalizeUrl ext.unicode ext.nameprep keepAllPolicy command.endpointUrl
  let endpointUrl := canonical.normalized
  if command.publisherId ∉ db.publishers.map (·.id) then throw .lookupError
  if db.channels.any fun c => c.publisherId = command.publisherId && c.endpointUrl = endpointUrl
  then throw .resourceConflictError
  if turn.channelId ∈ db.channels.map (·.id) then throw .integrityError
  return ((),
    { db with
      channels := db.channels ++ [createdChannel turn command endpointUrl]
      outbox := addEvent
        (.channelCreated turn.channelId command.publisherId command.channelType endpointUrl)
        db.outbox })

/-- The database, and how many calls were made. -/
structure Service where
  db : Database
  calls : ℕ

/-- One call: what raises is rolled back. -/
def transact {α : Type} (turns : ℕ → Turn)
    (body : Turn → Database → Except PyError (α × Database)) (s : Service) :
    Except PyError α × Service :=
  let turn := turns s.calls
  let db := turn.others s.db
  match turn.failure with
  | some e => (.error e, ⟨db, s.calls + 1⟩)
  | none =>
    match body turn db with
    | .error e => (.error e, ⟨db, s.calls + 1⟩)
    | .ok (answer, db') => (.ok answer, ⟨db', s.calls + 1⟩)

def acquisitionService (ext : Externals) (turns : ℕ → Turn) : DiscoveryAdmission Service where
  observeDiscovery command := transact turns fun turn => observeDiscovery ext turn command
  createChannel command := transact turns fun turn => createChannel ext turn command

/-! ### What the calls do to the rows -/

section rows

variable {ext : Externals} {turn : Turn} {turns : ℕ → Turn} {db db' : Database}

/- A candidate of the fingerprint is updated; without one, a row with a new id is added. -/
theorem admitCandidate_cases {d : Discovery} {candidates candidates' : List UrlCandidateModel}
    {row : UrlCandidateModel} {created : Bool}
    (h : admitCandidate d candidates = .ok (row, created, candidates')) :
    (created = false ∧ ∃ found,
        Table.get? (·.urlFingerprint) d.urlFingerprint candidates = some found ∧
          row = updateCandidateJobMetadata d found ∧
            candidates' = Table.update (·.id) found.id (updateCandidateJobMetadata d) candidates) ∨
      (created = true ∧ d.urlFingerprint ∉ candidates.map (·.urlFingerprint) ∧
        d.id ∉ candidates.map (·.id) ∧ row = admittedRow d ∧
          candidates' = candidates ++ [admittedRow d]) := by
  unfold admitCandidate at h
  cases hfind : Table.get? (·.urlFingerprint) d.urlFingerprint candidates with
  | some found =>
    rw [hfind] at h
    cases h
    exact Or.inl ⟨rfl, found, rfl, rfl, rfl⟩
  | none =>
    rw [hfind] at h
    simp only at h
    split at h
    · cases h
    · rename_i hid
      cases h
      exact Or.inr ⟨rfl, Table.get?_none.mp hfind, hid, rfl, rfl⟩

theorem addDiscoveryIfAbsent_cases {d : UrlDiscoveryModel}
    {discoveries discoveries' : List UrlDiscoveryModel} {created : Bool}
    (h : addDiscoveryIfAbsent d discoveries = .ok (created, discoveries')) :
    (created = false ∧ discoveryKey d ∈ discoveries.map discoveryKey ∧
        discoveries' = discoveries) ∨
      (created = true ∧ discoveryKey d ∉ discoveries.map discoveryKey ∧
        d.id ∉ discoveries.map (·.id) ∧ discoveries' = discoveries ++ [d]) := by
  unfold addDiscoveryIfAbsent at h
  split at h
  · rename_i hmem
    cases h
    exact Or.inl ⟨rfl, hmem, rfl⟩
  · rename_i hmem
    split at h
    · cases h
    · rename_i hid
      cases h
      exact Or.inr ⟨rfl, hmem, hid, rfl⟩

/- The parts of an answered `observe_discovery`. -/
theorem observeDiscovery_parts {command : ObserveDiscoveryCommand}
    {answer : DiscoveryObservationResult}
    (h : observeDiscovery ext turn command db = .ok (answer, db')) :
    ∃ canonical channel candidate,
      canonicalizeUrl ext.unicode ext.nameprep defaultPolicy command.url = .ok canonical ∧
        activeChannel command.channelId db = some channel ∧
          admitCandidate (discoveryOf turn command channel canonical) db.candidates =
            .ok (candidate, answer.candidateCreated, db'.candidates) ∧
          addDiscoveryIfAbsent (observationOf turn command channel candidate) db.discoveries =
            .ok (answer.channelObservationCreated, db'.discoveries) ∧
          db'.channels = db.channels := by
  unfold observeDiscovery at h
  obtain ⟨canonical, hcanonical, h⟩ := bind_ok h
  cases hchannel : activeChannel command.channelId db with
  | none =>
    rw [hchannel] at h
    cases h
  | some channel =>
    rw [hchannel] at h
    obtain ⟨⟨candidate, candidateCreated, candidates⟩, hadmits, h⟩ := bind_ok h
    obtain ⟨⟨created, discoveries⟩, hadd, h⟩ := bind_ok h
    obtain ⟨rfl, rfl⟩ := (Prod.mk.injEq ..).mp (Except.ok.inj h)
    exact ⟨canonical, channel, candidate, hcanonical, rfl, hadmits, hadd, rfl⟩

/- What an answered `create_channel` adds. -/
theorem createChannel_rows {command : CreateChannelCommand}
    (h : createChannel ext turn command db = .ok ((), db')) :
    ∃ endpointUrl outbox, command.publisherId ∈ db.publishers.map (·.id) ∧
      turn.channelId ∉ db.channels.map (·.id) ∧
        db' = { db with
          channels := db.channels ++ [createdChannel turn command endpointUrl]
          outbox } := by
  unfold createChannel at h
  obtain ⟨canonical, -, h⟩ := bind_ok h
  simp only [bind, Except.bind, pure, Except.pure] at h
  split at h
  · cases h
  · rename_i hpublisher
    split at h
    · cases h
    · split at h
      · cases h
      · rename_i hid
        cases h
        exact ⟨canonical.normalized, _, not_not.mp hpublisher, hid, rfl⟩

theorem admitCandidate_ok {d : Discovery} {candidates candidates' : List UrlCandidateModel}
    {row : UrlCandidateModel} {created : Bool}
    (h : admitCandidate d candidates = .ok (row, created, candidates')) :
    candidates.map candidateKey ⊆ candidates'.map candidateKey ∧
      (row.id, d.urlFingerprint) ∈ candidates'.map candidateKey ∧
      (created = true → d.urlFingerprint ∉ candidates.map (·.urlFingerprint)) := by
  obtain ⟨rfl, found, hfind, rfl, rfl⟩ | ⟨rfl, hnone, -, rfl, rfl⟩ := admitCandidate_cases h
  · obtain ⟨hmem, hfingerprint⟩ := Table.get?_some hfind
    have hkeep : ∀ r, candidateKey (updateCandidateJobMetadata d r) = candidateKey r := fun _ => rfl
    rw [Table.map_update hkeep]
    refine ⟨List.Subset.refl _, ?_, fun hfalse => absurd hfalse Bool.false_ne_true⟩
    exact List.mem_map.mpr ⟨found, hmem, Prod.ext rfl hfingerprint⟩
  · rw [List.map_append]
    refine ⟨List.subset_append_left _ _, ?_, fun _ => hnone⟩
    exact List.mem_append_right _ (List.mem_singleton_self _)

theorem addDiscoveryIfAbsent_ok {d : UrlDiscoveryModel}
    {discoveries discoveries' : List UrlDiscoveryModel} {created : Bool}
    (h : addDiscoveryIfAbsent d discoveries = .ok (created, discoveries')) :
    discoveries.map discoveryKey ⊆ discoveries'.map discoveryKey ∧
      discoveryKey d ∈ discoveries'.map discoveryKey := by
  obtain ⟨-, hmem, rfl⟩ | ⟨-, -, -, rfl⟩ := addDiscoveryIfAbsent_cases h
  · exact ⟨List.Subset.refl _, hmem⟩
  · rw [List.map_append]
    exact ⟨List.subset_append_left _ _, List.mem_append_right _ (List.mem_singleton_self _)⟩

/-- What an answered `observe_discovery` leaves behind. -/
theorem observeDiscovery_ok {command : ObserveDiscoveryCommand}
    {answer : DiscoveryObservationResult}
    (h : observeDiscovery ext turn command db = .ok (answer, db')) :
    ∃ canonical, canonicalizeUrl ext.unicode ext.nameprep defaultPolicy command.url = .ok canonical ∧
      db.Keeps db' ∧ db'.Observed (fromHex canonical.fingerprint) command.channelId ∧
      (answer.candidateCreated = true → some (fromHex canonical.fingerprint) ∉ db.fingerprints) := by
  obtain ⟨canonical, channel, candidate, hcanonical, hchannel, hadmits, hadd, -⟩ :=
    observeDiscovery_parts h
  obtain ⟨hcandidates, hcandidate, hnew⟩ := admitCandidate_ok hadmits
  obtain ⟨hdiscoveries, hdiscovery⟩ := addDiscoveryIfAbsent_ok hadd
  have hid : channel.id = command.channelId := by
    obtain ⟨hget, -⟩ := Option.filter_eq_some_iff.mp hchannel
    exact (Table.get?_some hget).2
  refine ⟨canonical, hcanonical, ⟨hcandidates, hdiscoveries⟩, ?_, ?_⟩
  · exact Database.observed_iff.mpr ⟨candidate.id, hcandidate, hid ▸ hdiscovery⟩
  · intro hcreated hmem
    apply hnew hcreated
    simpa [Database.fingerprints, discoveryOf] using hmem

theorem createChannel_ok {command : CreateChannelCommand}
    (h : createChannel ext turn command db = .ok ((), db')) : db.Keeps db' := by
  obtain ⟨endpointUrl, outbox, -, -, rfl⟩ := createChannel_rows h
  exact ⟨List.Subset.refl _, List.Subset.refl _⟩

variable {α : Type} {body : Turn → Database → Except PyError (α × Database)} {s s' : Service}

/- An answered call is one transaction behind those of the others. -/
theorem transact_answered {a : α} (h : transact turns body s = (.ok a, s')) :
    body (turns s.calls) ((turns s.calls).others s.db) = .ok (a, s'.db) := by
  unfold transact at h
  simp only at h
  cases hfailure : (turns s.calls).failure with
  | some e =>
    rw [hfailure] at h
    cases h
  | none =>
    rw [hfailure] at h
    cases hrun : body (turns s.calls) ((turns s.calls).others s.db) with
    | error e =>
      rw [hrun] at h
      cases h
    | ok r =>
      rw [hrun] at h
      cases h
      rfl

/- A call that raises leaves what the others committed. -/
theorem transact_raised {e : PyError} (h : transact turns body s = (.error e, s')) :
    s'.db = (turns s.calls).others s.db := by
  unfold transact at h
  simp only at h
  cases hfailure : (turns s.calls).failure with
  | some e =>
    rw [hfailure] at h
    cases h
    rfl
  | none =>
    rw [hfailure] at h
    cases hrun : body (turns s.calls) ((turns s.calls).others s.db) with
    | error e =>
      rw [hrun] at h
      cases h
      rfl
    | ok r =>
      rw [hrun] at h
      cases h

theorem transact_keeps (hbody : ∀ turn db a db', body turn db = .ok (a, db') → db.Keeps db')
    (s : Service) : s.db.Keeps (transact turns body s).2.db := by
  have hothers := (turns s.calls).others_keep s.db
  rcases hrun : transact turns body s with ⟨r, t⟩
  cases r with
  | error e => exact transact_raised hrun ▸ hothers
  | ok a => exact hothers.trans (hbody _ _ _ _ (transact_answered hrun))

theorem transact_ok {a : α} (h : transact turns body s = (.ok a, s')) :
    ∃ db, s.db.Keeps db ∧ body (turns s.calls) db = .ok (a, s'.db) :=
  ⟨(turns s.calls).others s.db, (turns s.calls).others_keep s.db, transact_answered h⟩

end rows

end Newsintel.Acquisition
