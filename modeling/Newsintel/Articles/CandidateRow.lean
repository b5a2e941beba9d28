import Mathlib.Data.List.Sort
import Mathlib.Data.Rat.Defs
import Mathlib.Algebra.Order.Ring.Unbundled.Rat
import Newsintel.Basic
import Newsintel.Lib.Table

/-!
# The `url_candidates` row and the operations that write it

Row operations of `article_processing_repository.py`, of
`acquisition_repositories.py` (frontier admission) and of
`maintenance/cleanup_old_jobs.py`. Each is the assignment list of one method,
on a row that the method has found. `priority_components`,
`priority_policy_version` and the fetch-run table are not read by any of them.
-/

namespace Newsintel.Articles

/-- `UrlCandidateState` (processing.py:27-33). -/
inductive UrlCandidateState where
  | ready | leased | retry | processed | failed | rejected
  deriving DecidableEq, Repr

/-- `ArticleProcessingStage` (processing.py:36-53). -/
inductive ArticleProcessingStage where
  | discovered | admitted | queued | leased | fetching | fetched | extracting | extracted
  | partial_ | validated | persisting | persisted | enriching | completed | rejected
  | retryableFailure | permanentFailure
  deriving DecidableEq, Repr

/-- Columns of `UrlCandidateModel` (models.py:77-124). -/
structure UrlCandidateModel where
  id : Uuid
  publisherId : Uuid
  normalizedUrl : Text
  urlFingerprint : Bytes
  state : UrlCandidateState
  processingStage : ArticleProcessingStage
  priorityScore : ℚ
  nextFetchAt : Timestamp
  publishedAt : Option Timestamp
  firstDiscoveredAt : Option Timestamp
  leaseOwner : Option Text
  leaseExpiresAt : Option Timestamp
  currentWorker : Option Text
  attemptCount : ℕ
  articleId : Option Uuid
  lastFetchAt : Option Timestamp
  lastError : Option Text
  lastFailureCode : Option Text
  lastFailureMessage : Option Text
  contentType : Option Text
  processingStartedAt : Option Timestamp
  processingCompletedAt : Option Timestamp
  processingDurationMs : Option ℤ
  stageTimestamps : List (ArticleProcessingStage × Timestamp)
  createdAt : Timestamp
  updatedAt : Timestamp
  deriving DecidableEq

/-- `LeasedUrlCandidate` (processing.py:96-103): the copy a worker is handed. -/
structure LeasedUrlCandidate where
  id : Uuid
  publisherId : Uuid
  normalizedUrl : Text
  attemptCount : ℕ
  publishedAt : Option Timestamp
  firstDiscoveredAt : Option Timestamp
  deriving DecidableEq

namespace UrlCandidateState

/-- The states of `PENDING_CANDIDATE_STATES` (cleanup_old_jobs.py:25-29). -/
def pending : UrlCandidateState → Bool
  | ready | retry | leased => true
  | processed | failed | rejected => false

/-- States in which a candidate's processing is over. -/
def terminal (s : UrlCandidateState) : Bool := !s.pending

end UrlCandidateState

/-- `_mark_stage` (article_processing_repository.py:912-919). -/
def markStage (r : UrlCandidateModel) (stage : ArticleProcessingStage) (occurredAt : Timestamp) :
    UrlCandidateModel :=
  { r with stageTimestamps := Table.set stage occurredAt r.stageTimestamps }

/-- `_duration_ms` (article_processing_repository.py:922-923). -/
def durationMs (startedAt completedAt : Timestamp) : ℤ :=
  max 0 (roundHalfEven (completedAt - startedAt) 1000)

/-- `processing_duration_ms` is only written on rows whose start is known. -/
def writeDuration (r : UrlCandidateModel) (completedAt : Timestamp) : UrlCandidateModel :=
  match r.processingStartedAt with
  | none => r
  | some t => { r with processingDurationMs := some (durationMs t completedAt) }

/-! ### Leasing (article_processing_repository.py:64-129) -/

/-- The `WHERE` clause of `lease_due_candidates`; a NULL expiry compares to NULL. -/
def leaseDue (now : Timestamp) (r : UrlCandidateModel) : Bool :=
  ((r.state = .ready ∨ r.state = .retry) ∧ r.nextFetchAt ≤ now) ∨
    (r.state = .leased ∧ ∃ t ∈ r.leaseExpiresAt, t < now)

/-- `nullslast(desc(column))`. -/
def descNullsLast : Option Timestamp → Option Timestamp → Ordering
  | some a, some b => compare b a
  | some _, none => .lt
  | none, some _ => .gt
  | none, none => .eq

/-- The `ORDER BY` of `lease_due_candidates`. -/
def leaseOrder (a b : UrlCandidateModel) : Ordering :=
  (descNullsLast a.publishedAt b.publishedAt).then <|
    (descNullsLast a.firstDiscoveredAt b.firstDiscoveredAt).then <|
      (compare b.priorityScore a.priorityScore).then (compare a.nextFetchAt b.nextFetchAt)

/-- Rows picked by the query: due, in order, unlocked (`SKIP LOCKED`), at most `limit`. -/
def leaseSelect (now : Timestamp) (limit : ℕ) (locked : List Uuid) (rows : List UrlCandidateModel) :
    List UrlCandidateModel :=
  (((rows.filter (leaseDue now)).insertionSort fun a b => leaseOrder a b ≠ .gt).filter
    fun r => decide (r.id ∉ locked)).take limit

/-- Assignments of the lease loop to one picked row. -/
def leaseRow (workerId : Text) (now : Timestamp) (leaseSeconds : ℕ) (r : UrlCandidateModel) :
    UrlCandidateModel :=
  markStage
    { r with
      state := .leased
      processingStage := .leased
      leaseOwner := some workerId
      leaseExpiresAt := some (now + seconds leaseSeconds)
      currentWorker := some workerId
      attemptCount := r.attemptCount + 1
      processingStartedAt := some now
      processingCompletedAt := none
      processingDurationMs := none
      lastFailureCode := none
      lastFailureMessage := none
      updatedAt := now } .leased now

/-- The copy handed out for a row that has just been leased. -/
def leasedCopy (r : UrlCandidateModel) : LeasedUrlCandidate where
  id := r.id
  publisherId := r.publisherId
  normalizedUrl := r.normalizedUrl
  attemptCount := r.attemptCount
  publishedAt := r.publishedAt
  firstDiscoveredAt := r.firstDiscoveredAt

/-! ### Stage writes (article_processing_repository.py:131-196) -/

def startFetch (workerId : Text) (startedAt : Timestamp) (r : UrlCandidateModel) :
    UrlCandidateModel :=
  markStage
    { r with
      processingStage := .fetching
      currentWorker := some workerId
      processingStartedAt := some startedAt
      updatedAt := startedAt } .fetching startedAt

/-- Optional arguments of `update_processing_stage`. -/
structure StageDetails where
  workerId : Option Text
  contentType : Option Text
  failureCode : Option Text
  failureMessage : Option Text
  processingDurationMs : Option ℤ
  deriving DecidableEq

def updateProcessingStage (stage : ArticleProcessingStage) (occurredAt : Timestamp)
    (d : StageDetails) (r : UrlCandidateModel) : UrlCandidateModel :=
  markStage
    { r with
      processingStage := stage
      currentWorker := d.workerId.or r.currentWorker
      contentType := (d.contentType.map (List.take 160)).or r.contentType
      lastFailureCode := (d.failureCode.map (List.take 160)).or r.lastFailureCode
      lastFailureMessage := (d.failureMessage.map (List.take 2000)).or r.lastFailureMessage
      processingDurationMs := d.processingDurationMs.or r.processingDurationMs
      updatedAt := occurredAt } stage occurredAt

/-! ### Completions (article_processing_repository.py:198-248, 430-456, 605-676) -/

def rejectBeforeFetch (rejectedAt : Timestamp) (reason message : Text) (r : UrlCandidateModel) :
    UrlCandidateModel :=
  markStage
    { writeDuration
        { r with
          state := .rejected
          processingStage := .rejected
          leaseOwner := none
          leaseExpiresAt := none
          currentWorker := none
          lastFetchAt := some rejectedAt
          lastError := some (reason ++ ": ".toList ++ message)
          lastFailureCode := some (reason.take 160)
          lastFailureMessage := some (message.take 2000)
          processingCompletedAt := some rejectedAt } rejectedAt with
      updatedAt := rejectedAt } .rejected rejectedAt

/-- The candidate-row part of `complete_success`. -/
def completeSuccess (articleId : Uuid) (completedAt : Timestamp) (r : UrlCandidateModel) :
    UrlCandidateModel :=
  let written :=
    writeDuration
      { r with
        state := .processed
        processingStage := .completed
        articleId := some articleId
        leaseOwner := none
        leaseExpiresAt := none
        currentWorker := none
        lastFetchAt := some completedAt
        lastError := none
        lastFailureCode := none
        lastFailureMessage := none
        processingCompletedAt := some completedAt } completedAt
  markStage (markStage { written with updatedAt := completedAt } .persisted completedAt)
    .completed completedAt

/-- `failure_stage` of `complete_failure`. -/
def failureStage (terminal : Bool) : ArticleProcessingStage :=
  if terminal then .permanentFailure else .retryableFailure

/-- State written by `complete_failure`. -/
def failureState (terminal : Bool) : UrlCandidateState := if terminal then .failed else .retry

def completeFailure (completedAt : Timestamp) (errorType errorMessage : Text)
    (retryAt : Option Timestamp) (terminal : Bool) (r : UrlCandidateModel) : UrlCandidateModel :=
  markStage
    { writeDuration
        { r with
          state := failureState terminal
          processingStage := failureStage terminal
          nextFetchAt := retryAt.getD completedAt
          leaseOwner := none
          leaseExpiresAt := none
          currentWorker := none
          lastFetchAt := some completedAt
          lastError := some (errorType ++ ": ".toList ++ errorMessage)
          lastFailureCode := some (errorType.take 160)
          lastFailureMessage := some (errorMessage.take 2000)
          processingCompletedAt :=
            if terminal then some completedAt else r.processingCompletedAt } completedAt with
      updatedAt := completedAt } (failureStage terminal) completedAt

/-- `terminal` as `ArticleProcessor._record_failure` computes it (processing.py:511-515). -/
def recordsTerminal (maxAttempts : ℕ) (c : LeasedUrlCandidate) (nonRetryable : Bool) : Bool :=
  decide (maxAttempts ≤ c.attemptCount) || nonRetryable

/-! ### Cleanup (cleanup_old_jobs.py:44-136) -/

/-- Arguments of `cleanup_old_jobs(apply=True)`. `scope` is the publisher and
URL filter of the command line, `permanentFailure` the `--action`. -/
structure Cleanup where
  now : Timestamp
  olderThanHours : ℕ
  permanentFailure : Bool
  scope : UrlCandidateModel → Bool
  staleReason : Text

/-- `stale_candidate_filter`. -/
def staleCandidate (c : Cleanup) (r : UrlCandidateModel) : Bool :=
  r.state.pending &&
    decide ((r.publishedAt.or r.firstDiscoveredAt).getD r.createdAt < c.now - hours c.olderThanHours)
    && c.scope r

def cleanupRow (c : Cleanup) (r : UrlCandidateModel) : UrlCandidateModel :=
  { r with
    state := if c.permanentFailure then .failed else .rejected
    processingStage := if c.permanentFailure then .permanentFailure else .rejected
    leaseOwner := none
    leaseExpiresAt := none
    currentWorker := none
    lastFetchAt := some c.now
    lastError := some c.staleReason
    lastFailureCode := some "development_cleanup".toList
    lastFailureMessage := some c.staleReason
    processingCompletedAt := some c.now
    updatedAt := c.now }

/-! ### Admission (service.py:112-156, acquisition_repositories.py:196-232) -/

/-- What `observe_discovery` brings to the frontier. -/
structure Discovery where
  id : Uuid
  publisherId : Uuid
  normalizedUrl : Text
  urlFingerprint : Bytes
  priorityScore : ℚ
  publishedAt : Option Timestamp
  observedAt : Timestamp
  now : Timestamp

/-- The row `add_candidate` inserts; `processing_stage` takes its column default. -/
def admittedRow (d : Discovery) : UrlCandidateModel where
  id := d.id
  publisherId := d.publisherId
  normalizedUrl := d.normalizedUrl
  urlFingerprint := d.urlFingerprint
  state := .ready
  processingStage := .queued
  priorityScore := d.priorityScore
  nextFetchAt := d.observedAt
  publishedAt := d.publishedAt
  firstDiscoveredAt := some d.observedAt
  leaseOwner := none
  leaseExpiresAt := none
  currentWorker := none
  attemptCount := 0
  articleId := none
  lastFetchAt := none
  lastError := none
  lastFailureCode := none
  lastFailureMessage := none
  contentType := none
  processingStartedAt := none
  processingCompletedAt := none
  processingDurationMs := none
  stageTimestamps := []
  createdAt := d.now
  updatedAt := d.now

def updateCandidateJobMetadata (d : Discovery) (r : UrlCandidateModel) : UrlCandidateModel :=
  { r with
    firstDiscoveredAt :=
      some (match r.firstDiscoveredAt with
        | none => d.observedAt
        | some t => min t d.observedAt)
    publishedAt :=
      match d.publishedAt, r.publishedAt with
      | some new, some old => some (if old < new then new else old)
      | some new, none => some new
      | none, old => old
    updatedAt := d.now }

/-- A story that one channel observes. -/
def storyDiscovery : Discovery where
  id := 1
  publisherId := 2
  normalizedUrl := "https://a.in/news/b".toList
  urlFingerprint := []
  priorityScore := 0
  publishedAt := none
  observedAt := 0
  now := 0

end Newsintel.Articles
