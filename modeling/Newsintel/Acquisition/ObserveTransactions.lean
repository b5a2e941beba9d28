import Newsintel.Acquisition.DiscoveryService
import Newsintel.Articles.MergedDates
import Newsintel.Lib.ReadCommitted

/-!
# `observe_discovery`, statement by statement

The transaction of a call, with the rows that it has written and not committed. The unique
indexes are those of `url_candidates` on id and fingerprint, of `url_discoveries` on id and on
candidate and channel, and of the outbox on the idempotency key.
-/

namespace Newsintel.Acquisition

open PyText Articles ReadCommitted

/-- The answer of a call, with what it is about. -/
structure ObserveAnswer where
  candidateId : Uuid
  channelId : Uuid
  result : DiscoveryObservationResult
  deriving DecidableEq

/-- How far a call has come. -/
inductive ObserveStage where
  | begun
  | channelRead (channel : DiscoveryChannel)
  /-- by fingerprint -/
  | candidateRead (channel : DiscoveryChannel) (found : Option UrlCandidateModel)
  /-- again, by `session.get` -/
  | candidateLoaded (channel : DiscoveryChannel) (loaded : UrlCandidateModel)
  | admitted (channel : DiscoveryChannel) (candidate : UrlCandidateModel) (candidateCreated : Bool)
  /-- with the events that are left to add -/
  | observed (answer : ObserveAnswer) (events : List AcquisitionEvent)

/-- A call, and what it has written. -/
structure ObserveTransaction where
  turn : Turn
  command : ObserveDiscoveryCommand
  canonical : CanonicalUrl
  stage : ObserveStage
  /-- the candidate that was inserted -/
  inserted : Option UrlCandidateModel
  /-- the candidate that was updated, as it was loaded -/
  merged : Option (Discovery × UrlCandidateModel)
  discovery : Option UrlDiscoveryModel
  events : List AcquisitionEvent

/-- The database, and the answers of the calls that have committed. -/
structure FrontierTables where
  db : Database
  answers : List ObserveAnswer

namespace ObserveTransaction

/-- What the call brings to the frontier. -/
def brings (t : ObserveTransaction) (channel : DiscoveryChannel) : Discovery :=
  discoveryOf t.turn t.command channel t.canonical

/-- `uow.channels.get`, and lines 126-128. -/
def readChannel (db : Database) (t : ObserveTransaction) : Outcome ObserveTransaction :=
  match activeChannel t.command.channelId db with
  | none => .raises
  | some channel => .continues { t with stage := .channelRead channel }

/-- `get_by_fingerprint`. -/
def readCandidate (db : Database) (channel : DiscoveryChannel) (t : ObserveTransaction) :
    Outcome ObserveTransaction :=
  .continues
    { t with
      stage := .candidateRead channel
        (Table.get? (·.urlFingerprint) (t.brings channel).urlFingerprint db.candidates) }

/-- Rows that an index of `url_candidates` does not tell apart. -/
def sameKey (row r : UrlCandidateModel) : Bool :=
  r.id = row.id || r.urlFingerprint = row.urlFingerprint

/-- `add_candidate`, and its flush. -/
def insertCandidate (db : Database) (others : List ObserveTransaction)
    (channel : DiscoveryChannel) (t : ObserveTransaction) : Outcome ObserveTransaction :=
  let row := admittedRow (t.brings channel)
  if db.candidates.any (sameKey row) then .raises
  else if others.any fun o => o.inserted.any (sameKey row) then .waits
  else .continues { t with inserted := some row, stage := .admitted channel row true }

/-- The `session.get` of `update_candidate_job_metadata`. -/
def loadCandidate (db : Database) (channel : DiscoveryChannel) (found : UrlCandidateModel)
    (t : ObserveTransaction) : Outcome ObserveTransaction :=
  match Table.get? (·.id) found.id db.candidates with
  | none => .continues { t with stage := .admitted channel found false }
  | some loaded => .continues { t with stage := .candidateLoaded channel loaded }

/-- The flush of `update_candidate_job_metadata`, which locks the row. -/
def updateCandidate (others : List ObserveTransaction) (channel : DiscoveryChannel)
    (loaded : UrlCandidateModel) (t : ObserveTransaction) : Outcome ObserveTransaction :=
  if others.any fun o => o.merged.any (·.2.id = loaded.id) then .waits
  else .continues
    { t with
      merged := some (t.brings channel, loaded)
      stage := .admitted channel (updateCandidateJobMetadata (t.brings channel) loaded) false }

/-- `add_discovery_if_absent`: `ON CONFLICT DO NOTHING`. -/
def insertDiscovery (db : Database) (others : List ObserveTransaction)
    (channel : DiscoveryChannel) (candidate : UrlCandidateModel) (candidateCreated : Bool)
    (t : ObserveTransaction) : Outcome ObserveTransaction :=
  let d := observationOf t.turn t.command channel candidate
  if others.any fun o => o.discovery.any fun r => discoveryKey r = discoveryKey d || r.id = d.id
  then .waits
  else match addDiscoveryIfAbsent d db.discoveries with
    | .error _ => .raises
    | .ok (created, _) => .continues
      { t with
        discovery := if created then some d else t.discovery
        stage := .observed ⟨candidate.id, channel.id, ⟨candidateCreated, created⟩⟩
          (observationEvents t.command channel candidate
            (t.command.discoveredAt.getD t.turn.now) candidateCreated created) }

/-- `uow.outbox.add`: `ON CONFLICT DO NOTHING`. -/
def addNextEvent (db : Database) (others : List ObserveTransaction) (answer : ObserveAnswer)
    (event : AcquisitionEvent) (rest : List AcquisitionEvent) (t : ObserveTransaction) :
    Outcome ObserveTransaction :=
  if others.any fun o => o.events.any (·.idempotencyKey = event.idempotencyKey) then .waits
  else .continues
    { t with
      events :=
        if (db.outbox ++ t.events).any (·.idempotencyKey = event.idempotencyKey) then t.events
        else t.events ++ [event]
      stage := .observed answer rest }

/-- The next statement of a call. -/
def statement (f : FrontierTables) (others : List ObserveTransaction) (t : ObserveTransaction) :
    Outcome ObserveTransaction :=
  match t.stage with
  | .begun => t.readChannel f.db
  | .channelRead channel => t.readCandidate f.db channel
  | .candidateRead channel none => t.insertCandidate f.db others channel
  | .candidateRead channel (some found) => t.loadCandidate f.db channel found
  | .candidateLoaded channel loaded => t.updateCandidate others channel loaded
  | .admitted channel candidate candidateCreated =>
    t.insertDiscovery f.db others channel candidate candidateCreated
  | .observed answer (event :: rest) => t.addNextEvent f.db others answer event rest
  | .observed _ [] => .commits

/-- The update of a candidate, on a row. -/
def mergeRow (t : ObserveTransaction) (r : UrlCandidateModel) : UrlCandidateModel :=
  match t.merged with
  | none => r
  | some (d, loaded) => if r.id = loaded.id then mergeDiscovery d loaded r else r

/-- The answer, when all is written. -/
def answer (t : ObserveTransaction) : Option ObserveAnswer :=
  match t.stage with
  | .observed answer _ => some answer
  | _ => none

def commit (t : ObserveTransaction) (f : FrontierTables) : FrontierTables where
  db :=
    { f.db with
      candidates := f.db.candidates.map t.mergeRow ++ t.inserted.toList
      discoveries := f.db.discoveries ++ t.discovery.toList
      outbox := f.db.outbox ++ t.events }
  answers := f.answers ++ t.answer.toList

end ObserveTransaction

/-- A call of `observe_discovery`, once its URL has a canonical form. -/
def beginObservation (ext : Externals) (call : Turn × ObserveDiscoveryCommand) :
    Option ObserveTransaction :=
  (canonicalizeUrl ext.unicode ext.nameprep defaultPolicy call.2.url).toOption.map
    fun canonical =>
      { turn := call.1
        command := call.2
        canonical
        stage := .begun
        inserted := none
        merged := none
        discovery := none
        events := [] }

/-- Channels and publishers are administered by others. -/
def administer (tables : List PublisherModel × List DiscoveryChannel) (f : FrontierTables) :
    FrontierTables :=
  { f with db := { f.db with publishers := tables.1, channels := tables.2 } }

/-- All calls of `observe_discovery`. -/
def observeSystem (ext : Externals) :
    System FrontierTables ObserveTransaction (List PublisherModel × List DiscoveryChannel)
      (Turn × ObserveDiscoveryCommand) where
  opening := beginObservation ext
  other := administer
  statement := ObserveTransaction.statement
  commit := ObserveTransaction.commit

/-- Nothing has been observed. -/
def emptyTables (publishers : List PublisherModel) (channels : List DiscoveryChannel) :
    State FrontierTables ObserveTransaction where
  committed := ⟨⟨publishers, channels, [], [], []⟩, []⟩
  opened := []

end Newsintel.Acquisition
