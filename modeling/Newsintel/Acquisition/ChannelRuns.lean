import Newsintel.Acquisition.ChannelRows
import Newsintel.Lib.Runs

/-!
# Publishers, channels and poll workers

State: the clock, the tables, the copies that poll workers hold, and the deletions that have
executed their UPDATE but not committed. A poll holds its copy until it completes, which may
be long after its lease has expired. An operation carries the instant that it read from the
clock, which may have gone on since. Two lists record the requests to poll a channel.
-/

namespace Newsintel.Acquisition

open PyText

/-- A leased copy in the hands of a worker. -/
structure InFlightPoll where
  copy : DiscoveryChannel
  /-- the request of the poll has been sent -/
  fetching : Bool
  deriving DecidableEq

/-- `delete_publisher` between its UPDATE of the channels and its commit. -/
structure Deletion where
  publisherId : Uuid
  channelIds : List Uuid
  deletedAt : Timestamp

structure ChannelWorld where
  clock : Timestamp
  db : Database
  polls : List InFlightPoll
  deletions : List Deletion
  /-- channels with an accepted request that no poll has fetched after -/
  awaiting : List Uuid
  /-- channels with an accepted request since their last completed poll -/
  asked : List Uuid

def emptyWorld (clock : Timestamp) : ChannelWorld where
  clock
  db := ⟨[], [], [], [], []⟩
  polls := []
  deletions := []
  awaiting := []
  asked := []

inductive ChannelOp where
  | createPublisher (id : Uuid) (name slug canonicalDomain : Text)
  | discoverPublisher (id : Uuid) (name slug canonicalDomain : Text) (frequency : FetchFrequency)
      (endpoints : List ValidatedEndpoint)
  /-- by the API, or by the poll of a sitemap index -/
  | createChannel (turn : Turn) (command : CreateChannelCommand)
  | deletePublisher (publisherId : Uuid)
  | commitDeletion (place : ℕ)
  | createFetchJob (publisherId : Option Uuid)
  | scheduleNow (channelId : Uuid)
  | leaseDueChannels (workerId : Text) (limit leaseSeconds : ℕ) (locked : List Uuid)
  | fetch (place : ℕ)
  | complete (place : ℕ) (runId : Uuid) (status : PollRunStatus) (observationCount : ℕ)
      (etag lastModified : Option Text)

inductive ChannelStep where
  | tick (clock : Timestamp)
  /-- a transaction or a request, with the instant that it has read -/
  | act (now : Timestamp) (op : ChannelOp)

/-! ### Requests and deletions -/

/-- Active channels that `schedule_now` finds. -/
def scheduledChannels (channelId : Uuid) (db : Database) : List Uuid :=
  (db.channels.filter fun r => r.id = channelId && r.active).map (·.id)

/-- Active channels that `create_fetch_job` schedules. -/
def jobChannels (publisherId : Option Uuid) (db : Database) : List Uuid :=
  (db.channels.filter fun r =>
    r.publisherId ∈ fetchTargetPublishers publisherId db.publishers && r.active).map (·.id)

/-- An accepted request for the channels. -/
def ChannelWorld.request (w : ChannelWorld) (db : Database) (channelIds : List Uuid) :
    ChannelWorld :=
  { w with db, awaiting := w.awaiting ++ channelIds, asked := w.asked ++ channelIds }

/-- The UPDATE of `delete_publisher`: the rows committed by then. -/
def startDeletion (publisherId : Uuid) (now : Timestamp) (db : Database) : Deletion where
  publisherId
  channelIds := (db.channels.filter fun r => r.publisherId = publisherId).map (·.id)
  deletedAt := now

def Deletion.silence (d : Deletion) (r : DiscoveryChannel) : DiscoveryChannel :=
  if r.id ∈ d.channelIds then { r with active := false, updatedAt := d.deletedAt } else r

def Deletion.retire (d : Deletion) (p : PublisherModel) : PublisherModel :=
  if p.id = d.publisherId then { p with active := false, updatedAt := d.deletedAt } else p

/-- The commit of `delete_publisher`. -/
def Deletion.commit (d : Deletion) (db : Database) : Database :=
  { db with publishers := db.publishers.map d.retire, channels := db.channels.map d.silence }

/-- The completion that a poll of the copy records. -/
def pollCompletion (copy : DiscoveryChannel) (runId : Uuid) (status : PollRunStatus)
    (observationCount : ℕ) (etag lastModified : Option Text) (completedAt : Timestamp) :
    PollCompletion :=
  { finish copy runId status observationCount completedAt with etag, lastModified }

/-- `complete`, on a row. -/
def completeRow (completion : PollCompletion) (r : DiscoveryChannel) : DiscoveryChannel :=
  if r.id = completion.channelId then completeChannel completion r else r

/-! ### Steps -/

/-- One operation. `none`: it raises, or there is no such poll or deletion. -/
def act (ext : Externals) (now : Timestamp) (w : ChannelWorld) : ChannelOp → Option ChannelWorld
  | .createPublisher id name slug canonicalDomain =>
    (createPublisher id name slug canonicalDomain now w.db).toOption.map fun db => { w with db }
  | .discoverPublisher id name slug canonicalDomain frequency endpoints =>
    (discoverPublisher ext id name slug canonicalDomain frequency now endpoints w.db).toOption.map
      fun db => { w with db }
  | .createChannel turn command =>
    (createChannel ext { turn with now } command w.db).toOption.map fun answer =>
      { w with db := answer.2 }
  | .deletePublisher publisherId =>
    if publisherId ∈ w.db.publishers.map (·.id) then
      some { w with deletions := w.deletions ++ [startDeletion publisherId now w.db] }
    else none
  | .commitDeletion place =>
    w.deletions[place]?.map fun d =>
      { w with db := d.commit w.db, deletions := w.deletions.eraseIdx place }
  | .createFetchJob publisherId =>
    (createFetchJob publisherId now w.db).toOption.map fun db =>
      w.request db (jobChannels publisherId w.db)
  | .scheduleNow channelId =>
    some (w.request { w.db with channels := w.db.channels.map (scheduleNow channelId now) }
      (scheduledChannels channelId w.db))
  | .leaseDueChannels workerId limit leaseSeconds locked =>
    let (copies, channels) := leaseDueChannels workerId now limit leaseSeconds locked w.db.channels
    some
      { w with
        db := { w.db with channels }
        polls := w.polls ++ copies.map fun copy => ⟨copy, false⟩ }
  | .fetch place =>
    w.polls[place]?.map fun poll =>
      { w with
        polls := w.polls.set place { poll with fetching := true }
        awaiting := w.awaiting.filter (· ≠ poll.copy.id) }
  | .complete place runId status observationCount etag lastModified =>
    (w.polls[place]?.filter (·.fetching)).map fun poll =>
      let completion :=
        pollCompletion poll.copy runId status observationCount etag lastModified now
      { w with
        db := { w.db with channels := w.db.channels.map (completeRow completion) }
        polls := w.polls.eraseIdx place
        asked := w.asked.filter (· ≠ poll.copy.id) }

def channelStep (ext : Externals) (w : ChannelWorld) : ChannelStep → Option ChannelWorld
  | .tick clock => if w.clock ≤ clock then some { w with clock } else none
  | .act now op => if now ≤ w.clock then act ext now w op else none

/-! ### A sample publisher -/

def sampleSitemap : ValidatedEndpoint where
  channelId := 2
  url := "https://a.in/sitemap.xml".toList
  channelType := .sitemap

/-- The poll of the sitemap brings another one. -/
def sampleChild : CreateChannelCommand where
  publisherId := 1
  channelType := .sitemap
  endpointUrl := "https://a.in/sitemap-2.xml".toList
  strategyVersion := "homepage-source-discovery-v1".toList
  pollMinSeconds := 3600
  pollMaxSeconds := 3600
  currentPollSeconds := 3600
  strategyVersion_length := by decide
  pollMinSeconds_range := by decide
  pollMaxSeconds_range := by decide
  currentPollSeconds_range := by decide
  intervals := by decide

/-- The call that adds it. -/
def sampleTurn : Turn where
  others := id
  others_keep := fun db => .refl db
  now := 0
  candidateId := 0
  discoveryId := 0
  channelId := 3
  failure := none

end Newsintel.Acquisition
