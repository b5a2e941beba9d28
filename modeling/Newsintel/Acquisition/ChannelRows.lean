import Newsintel.Acquisition.DiscoveryService

/-!
# The `discovery_channels` row and the operations that write it

The row operations of polling_repository.py and of sources/service.py. A column that is
NULL makes a comparison neither true nor false, so a row without `next_poll_at` is
never due.
-/

namespace Newsintel.Acquisition

open PyText

/-! ### Leasing and scheduling (polling_repository.py:54-100) -/

/-- The `WHERE` clause of `lease_due_channels`. -/
def channelDue (now : Timestamp) (r : DiscoveryChannel) : Bool :=
  r.active && r.nextPollAt.any (· ≤ now) && r.leaseExpiresAt.all (· < now)

/-- Rows picked by the query: due, by `next_poll_at`, unlocked (`SKIP LOCKED`), at most
`limit`. -/
def channelSelect (now : Timestamp) (limit : ℕ) (locked : List Uuid)
    (rows : List DiscoveryChannel) : List DiscoveryChannel :=
  (((rows.filter (channelDue now)).insertionSort fun a b =>
    a.nextPollAt.getD 0 ≤ b.nextPollAt.getD 0).filter fun r => decide (r.id ∉ locked)).take limit

/-- A picked row, and the copy that is handed out. -/
def leaseChannelRow (workerId : Text) (now : Timestamp) (leaseSeconds : ℕ)
    (r : DiscoveryChannel) : DiscoveryChannel :=
  { r with
    leaseOwner := some workerId
    leaseExpiresAt := some (now + seconds leaseSeconds) }

/-- `lease_due_channels`: the copies, and the table. -/
def leaseDueChannels (workerId : Text) (now : Timestamp) (limit leaseSeconds : ℕ)
    (locked : List Uuid) (rows : List DiscoveryChannel) :
    List DiscoveryChannel × List DiscoveryChannel :=
  let picked := channelSelect now limit locked rows
  (picked.map (leaseChannelRow workerId now leaseSeconds),
    rows.map fun r => if r ∈ picked then leaseChannelRow workerId now leaseSeconds r else r)

/-- The assignments of `schedule_now` and of `create_fetch_job`. -/
def scheduleRow (now : Timestamp) (r : DiscoveryChannel) : DiscoveryChannel :=
  { r with nextPollAt := some now, updatedAt := now }

/-- `schedule_now`, on a row. -/
def scheduleNow (channelId : Uuid) (now : Timestamp) (r : DiscoveryChannel) : DiscoveryChannel :=
  if r.id = channelId && r.active then scheduleRow now r else r

/-! ### Publishers (sources/service.py) -/

def fetchTargetPublishers (publisherId : Option Uuid) (publishers : List PublisherModel) :
    List Uuid :=
  (publishers.filter fun p => p.active && publisherId.all (· = p.id)).map (·.id)

/-- `create_fetch_job`, of the rows of publishers and channels. -/
def createFetchJob (publisherId : Option Uuid) (now : Timestamp) (db : Database) :
    Except PyError Database :=
  let targets := fetchTargetPublishers publisherId db.publishers
  if targets = [] then .error .lookupError
  else .ok
    { db with
      channels := db.channels.map fun r =>
        if r.publisherId ∈ targets && r.active then scheduleRow now r else r
      publishers := db.publishers.map fun p =>
        if p.id ∈ targets then { p with lastFetchedAt := some now, updatedAt := now } else p }

/-- `_frequency_policy`: the interval of a frequency. -/
def frequencySeconds : FetchFrequency → ℕ
  | .manual => 3600
  | .every15Minutes => 900
  | .hourly => 3600
  | .every6Hours => 21600
  | .daily => 86400

/-- `_frequency_policy`: the first poll. -/
def firstPollAt (frequency : FetchFrequency) (now : Timestamp) : Option Timestamp :=
  if frequency = .manual then none else some now

/-- `ValidatedEndpoint`, with the id that `uuid7` draws for its channel. -/
structure ValidatedEndpoint where
  channelId : Uuid
  url : Text
  channelType : DiscoveryChannelType

/-- The row of `_create_channel_if_absent`. -/
def discoveredChannel (publisherId : Uuid) (frequency : FetchFrequency) (now : Timestamp)
    (endpoint : ValidatedEndpoint) (endpointUrl : Text) : DiscoveryChannel where
  id := endpoint.channelId
  publisherId
  channelType := endpoint.channelType
  endpointUrl
  strategyVersion := "homepage-source-discovery-v1".toList
  active := true
  nextPollAt := firstPollAt frequency now
  pollMinSeconds := frequencySeconds frequency
  pollMaxSeconds := frequencySeconds frequency
  currentPollSeconds := frequencySeconds frequency
  etag := none
  lastModified := none
  lastPolledAt := none
  lastSuccessAt := none
  leaseOwner := none
  leaseExpiresAt := none
  consecutiveFailures := 0
  createdAt := now
  updatedAt := now

def createChannelIfAbsent (ext : Externals) (publisherId : Uuid) (frequency : FetchFrequency)
    (now : Timestamp) (rows : List DiscoveryChannel) (endpoint : ValidatedEndpoint) :
    Except PyError (List DiscoveryChannel) := do
  let canonical ← canonicalizeUrl ext.unicode ext.nameprep keepAllPolicy endpoint.url
  if rows.any fun r => r.publisherId = publisherId && r.endpointUrl = canonical.normalized then
    return rows
  if endpoint.channelId ∈ rows.map (·.id) then throw .integrityError
  return rows ++ [discoveredChannel publisherId frequency now endpoint canonical.normalized]

/-- The transaction of `discover_publisher`. -/
def discoverPublisher (ext : Externals) (id : Uuid) (name slug canonicalDomain : Text)
    (frequency : FetchFrequency) (now : Timestamp) (endpoints : List ValidatedEndpoint)
    (db : Database) : Except PyError Database := do
  if (Table.get? (·.canonicalDomain) canonicalDomain db.publishers).isSome then throw .valueError
  if (Table.get? (·.slug) slug db.publishers).isSome ||
    (Table.get? (·.id) id db.publishers).isSome then throw .integrityError
  let channels ← endpoints.foldlM (createChannelIfAbsent ext id frequency now) db.channels
  let publisher :=
    { newPublisher id name slug canonicalDomain now with fetchFrequency := frequency }
  return { db with publishers := db.publishers ++ [publisher], channels }

end Newsintel.Acquisition
