import Newsintel.Acquisition.Polling
import Newsintel.ArticleStore.CompleteSuccess
import Newsintel.Lib.CallLog

/-!
# Processing one leased candidate (application/articles/processing.py)

`ArticleProcessor.process` with the exceptions its parts raise. Each repository, fetcher,
store and extractor call is made at most once in a run, `update_processing_stage` once for
each stage, so what such a call answers is one value. Log lines are left out.
-/

namespace Newsintel.Articles

open PyText Acquisition
open ArticleStore (ExtractedArticle ArticleProcessingResult)

/-! ### Exceptions -/

/-- An exception as the handlers see it: `type(exc).__name__`, `str(exc)`, and whether it
is an instance of the three classes that they test for. -/
structure PyException where
  errorType : Text
  message : Text
  osError : Bool
  sqlAlchemyError : Bool
  nonRetryable : Bool
  deriving DecidableEq

namespace PyException

/-- Caught by `except (OSError, SQLAlchemyError)`. -/
def outage (e : PyException) : Bool := e.osError || e.sqlAlchemyError

/-- One of the classes of processing.py:63-88, all subclasses of `RuntimeError`. -/
def ofProcessing (errorType : String) (nonRetryable : Bool) (message : Text) : PyException where
  errorType := errorType.toList
  message
  osError := false
  sqlAlchemyError := false
  nonRetryable

def articleProcessingError := ofProcessing "ArticleProcessingError" false
def insufficientArticleContentError := ofProcessing "InsufficientArticleContentError" false
def articleJobRejectedError := ofProcessing "ArticleJobRejectedError" false
def articleAccessBlockedError := ofProcessing "ArticleAccessBlockedError" true
def extractionQualityError := ofProcessing "ExtractionQualityError" true
def articleNotFoundError := ofProcessing "ArticleNotFoundError" true

/-- The `ValueError` of a step that raises no other class. -/
def valueError (message : Text) : PyException := ofProcessing "ValueError" false message

end PyException

/-! ### Settings and arguments -/

def nonRetryableHttpStatuses : List ℕ := [401, 402, 403, 451]

def permanentHttpStatuses : List ℕ := [400, 404, 410]

/-- `_FATAL_EXTRACTION_WARNINGS`, sorted. -/
def fatalExtractionWarnings : List Text :=
  ["low_extraction_quality", "missing_text_content", "possible_paywall_or_partial_content",
    "possible_subscription_boilerplate"].map String.toList

structure ArticleFetchRun where
  id : Uuid
  candidateId : Uuid
  workerId : Text
  traceId : Uuid
  startedAt : Timestamp
  deriving DecidableEq

/-- Fields of the artifact that the processor reads. -/
structure RawFetchArtifact where
  artifactUri : Text
  sha256 : Text
  byteSize : ℕ
  deriving DecidableEq

/-- What the extractor returns; `qualityScore` is the text of
`metadata.get("extraction_quality_score")`. -/
structure Extraction extends ExtractedArticle where
  qualityScore : Text
  deriving DecidableEq

def Extraction.wordCount (x : Extraction) : ℕ := (words x.textContent).length

/-- A copy that `lease_due_candidates` hands out. -/
def LeasedUrlCandidate.Leased (candidate : LeasedUrlCandidate) : Prop :=
  ∃ workerId now leaseSeconds r, candidate = leasedCopy (leaseRow workerId now leaseSeconds r)

/- The lease has counted the attempt that the copy is for. -/
theorem LeasedUrlCandidate.Leased.attempted {candidate : LeasedUrlCandidate}
    (h : candidate.Leased) : 1 ≤ candidate.attemptCount := by
  obtain ⟨workerId, now, leaseSeconds, r, rfl⟩ := h
  exact Nat.le_add_left 1 r.attemptCount

/-- What the parts of one run do. -/
structure Behaviour where
  startFetch : Except PyException ArticleFetchRun
  updateProcessingStage : ArticleProcessingStage → Except PyException Unit
  fetch : Except PyException FetchResult
  saveRawHtml : Except PyException RawFetchArtifact
  extract : Except PyException Extraction
  completeSuccess : Except PyException ArticleProcessingResult
  completeFailure : Except PyException Unit
  rejectBeforeFetch : Except PyException Unit
  /-- `datetime.now(UTC)` when the run starts, at a stage, and for either outcome -/
  startedAt : Timestamp
  stageAt : ArticleProcessingStage → Timestamp
  completedAt : Timestamp
  failedAt : Timestamp
  traceId : Uuid
  /-- `random.random()`, of which `random.uniform` is made -/
  random : ℚ

structure ArticleProcessor where
  storesRawHtml : Bool
  maxAttempts : ℕ
  retryBaseSeconds : ℤ
  retryMaxSeconds : ℤ
  retryJitterRatio : ℚ
  recentArticleWindowHours : ℕ

/-- The calls of a run with what they pass on from earlier steps. -/
inductive Call where
  | rejectBeforeFetch (workerId : Text) (traceId : Uuid) (rejectedAt : Timestamp)
      (reason message : Text)
  | startFetch (candidateId : Uuid) (workerId : Text) (traceId : Uuid) (startedAt : Timestamp)
  | updateProcessingStage (stage : ArticleProcessingStage) (occurredAt : Timestamp)
      (workerId : Text) (runId : Uuid) (contentType : Option Text)
  | fetch (request : FetchRequest)
  | saveRawHtml (candidateId : Uuid) (body : Bytes) (retrievedAt : Timestamp)
  | extract (html : Bytes) (baseUrl : Text)
  | completeSuccess (run : ArticleFetchRun) (fetched : FetchResult) (extracted : Extraction)
      (rawArtifact : Option RawFetchArtifact) (completedAt : Timestamp)
  | completeFailure (run : ArticleFetchRun) (completedAt : Timestamp)
      (errorType errorMessage : Text) (retryAt : Option Timestamp) (terminal : Bool)
  deriving DecidableEq

abbrev Processing (α : Type) := Logged Call PyException α

/-! ### Retry times -/

/-- `timedelta(seconds=q)`, to the nearest microsecond. -/
def fractionalSeconds (q : ℚ) : ℤ := roundHalfEven (q * 1000000).num (q * 1000000).den

/-- The delay of `retry_at_for_attempt` before jitter. -/
def retryDelay (attemptCount : ℕ) (baseSeconds maxSeconds : ℤ) : ℤ :=
  min maxSeconds (baseSeconds * 2 ^ min (attemptCount - 1) 10)

/-- `random.uniform(a, b)`. -/
def uniform (random a b : ℚ) : ℚ := a + (b - a) * random

def retryAtForAttempt (attemptCount : ℕ) (baseSeconds maxSeconds : ℤ) (jitterRatio random : ℚ)
    (now : Timestamp) : Except PyException Timestamp :=
  if attemptCount < 1 then .error (.valueError "attempt_count must be positive".toList)
  else
    let delay := retryDelay attemptCount baseSeconds maxSeconds
    if 0 < jitterRatio then
      let jitter := delay * min (max jitterRatio 0) 1
      .ok (now + fractionalSeconds (max 1 (delay + uniform random (-jitter) jitter)))
    else .ok (now + seconds delay)

/-! ### `ArticleProcessor.process` -/

section process

variable (p : ArticleProcessor) (env : Behaviour) (candidate : LeasedUrlCandidate)
  (workerId : Text)

/-- `_raise_for_unacceptable_extraction` (processing.py:594-604). -/
def raiseForUnacceptableExtraction (x : Extraction) : Except PyException Unit :=
  let fatalWarnings := fatalExtractionWarnings.filter (x.warnings.contains ·)
  if fatalWarnings = [] then .ok ()
  else
    let listed := ", ".toList.intercalate (fatalWarnings.map fun w => '\'' :: w ++ ['\''])
    .error (.extractionQualityError
      ("article extraction rejected: fatal_warnings=[".toList ++ listed ++
        "]; quality_score=".toList ++ x.qualityScore ++ "; word_count=".toList ++
          Nat.toDigits 10 x.wordCount))

/-- The status check of lines 342-353. -/
def raiseForStatus (statusCode : ℕ) : Except PyException Unit :=
  if statusCode < 200 || 300 ≤ statusCode then
    let status := Nat.toDigits 10 statusCode
    if statusCode ∈ nonRetryableHttpStatuses then
      .error (.articleAccessBlockedError ("article access blocked HTTP ".toList ++ status))
    else if statusCode ∈ permanentHttpStatuses then
      .error (.articleNotFoundError ("article returned permanent HTTP ".toList ++ status))
    else .error (.articleProcessingError ("article returned HTTP ".toList ++ status))
  else .ok ()

/-- One `update_processing_stage`. -/
def markProcessingStage (run : ArticleFetchRun) (stage : ArticleProcessingStage)
    (occurredAt : Timestamp) (contentType : Option Text) : Processing Unit :=
  .perform (.updateProcessingStage stage occurredAt workerId run.id contentType)
    (env.updateProcessingStage stage)

/-- The same with `occurred_at=datetime.now(UTC)` and no content type. -/
def markStageNow (run : ArticleFetchRun) (stage : ArticleProcessingStage) : Processing Unit :=
  markProcessingStage env workerId run stage (env.stageAt stage) none

/-- The snapshot of lines 354-369, where a store is configured. -/
def saveSnapshot (fetched : FetchResult) : Processing (Option RawFetchArtifact) :=
  if p.storesRawHtml then
    some <$> .perform (.saveRawHtml candidate.id fetched.body fetched.retrievedAt) env.saveRawHtml
  else pure none

/-- The text check of lines 379-380. -/
def raiseForMissingText (x : Extraction) : Except PyException Unit :=
  if x.textContent = [] then
    .error (.insufficientArticleContentError "article text could not be extracted".toList)
  else .ok ()

/-- Lines 370-413: extraction and its checks. -/
def extractArticle (run : ArticleFetchRun) (fetched : FetchResult) : Processing Extraction := do
  markStageNow env workerId run .extracting
  let extracted ← .perform (.extract fetched.body fetched.finalUrl) env.extract
  .lift (raiseForMissingText extracted)
  .lift (raiseForUnacceptableExtraction extracted)
  markStageNow env workerId run .extracted
  markStageNow env workerId run .validated
  return extracted

/-- The first guarded region (lines 317-413): fetch, snapshot, extraction. -/
def fetchAndExtract (run : ArticleFetchRun) :
    Processing (FetchResult × Option RawFetchArtifact × Extraction) := do
  markStageNow env workerId run .fetching
  let fetched ← .perform (.fetch ⟨candidate.normalizedUrl, none, none⟩) env.fetch
  markProcessingStage env workerId run .fetched fetched.retrievedAt
    (fetched.headers.lookup "content-type".toList)
  .lift (raiseForStatus fetched.statusCode)
  let rawArtifact ← saveSnapshot p env candidate fetched
  let extracted ← extractArticle env workerId run fetched
  return (fetched, rawArtifact, extracted)

/-- The second guarded region (lines 431-452). -/
def persist (run : ArticleFetchRun) (fetched : FetchResult)
    (rawArtifact : Option RawFetchArtifact) (extracted : Extraction) :
    Processing ArticleProcessingResult := do
  markStageNow env workerId run .persisting
  .perform (.completeSuccess run fetched extracted rawArtifact env.completedAt)
    env.completeSuccess

/-- `retry_at` of `_record_failure`. -/
def failureRetryAt (terminal : Bool) : Except PyException (Option Timestamp) :=
  if terminal then .ok none
  else some <$> retryAtForAttempt candidate.attemptCount p.retryBaseSeconds p.retryMaxSeconds
    p.retryJitterRatio env.random env.failedAt

def recordFailure (run : ArticleFetchRun) (exc : PyException) : Processing Unit := do
  let terminal := recordsTerminal p.maxAttempts candidate exc.nonRetryable
  let retryAt ← .lift (failureRetryAt p env candidate terminal)
  .perform (.completeFailure run env.failedAt exc.errorType (exc.message.take 2000) retryAt
    terminal) env.completeFailure

/-- `except Exception as exc: await self._record_failure(…); raise`. -/
def recordingFailure {α : Type} (run : ArticleFetchRun) (x : Processing α) : Processing α :=
  .guard x fun exc => do
    recordFailure p env candidate run exc
    throw exc

/-- `UrlRejectionReason.value`. -/
def rejectionText : UrlRejectionReason → Text
  | .tooOld => "too_old".toList
  | .futureDated => "future_dated".toList
  | .nonArticlePath => "non_article_path".toList
  | .excludedSection => "excluded_section".toList
  | .missingPublicationDate => "missing_publication_date".toList

/-- The pre-fetch filter (lines 277-283), which raises only where the URL does not split. -/
def prefetchFilter (u : Unicode) : Except PyException ArticleUrlDecision :=
  (shouldAdmitArticleUrl u candidate.normalizedUrl candidate.publishedAt env.startedAt
    p.recentArticleWindowHours false).mapError fun _ => .valueError []

/-- Lines 277-307. -/
def passFilter (u : Unicode) : Processing Unit := do
  let rejection ← .lift (prefetchFilter p env candidate u)
  if rejection.accepted then pure ()
  else
    let reason := (rejection.reason.map rejectionText).getD "prefetch_rejected".toList
    let message := "queued URL rejected before HTTP fetch: ".toList ++ reason
    .perform (.rejectBeforeFetch workerId env.traceId env.startedAt reason message)
      env.rejectBeforeFetch
    throw (.articleJobRejectedError message)

/-- The two guarded regions (lines 316-463), each with the `except` clause it has. -/
def attempt (run : ArticleFetchRun) : Processing ArticleProcessingResult := do
  let (fetched, rawArtifact, extracted) ←
    recordingFailure p env candidate run (fetchAndExtract p env candidate workerId run)
  recordingFailure p env candidate run (persist env workerId run fetched rawArtifact extracted)

def process (u : Unicode) : Processing ArticleProcessingResult := do
  passFilter p env candidate workerId u
  let run ← .perform (.startFetch candidate.id workerId env.traceId env.startedAt) env.startFetch
  attempt p env candidate workerId run

end process

/-! ### `ArticleWorker.run_once` -/

/-- A leased candidate, and what the parts do in its run. -/
structure Job where
  candidate : LeasedUrlCandidate
  env : Behaviour

section worker

variable (p : ArticleProcessor) (workerId : Text) (u : Unicode)

/-- The inner `run`: an exception that may come from the database is passed on. -/
def runJob (job : Job) : Except PyException Unit :=
  match (process p job.env job.candidate workerId u).result with
  | .ok _ => .ok ()
  | .error e => if e.outage then .error e else .ok ()

/-- `asyncio.gather` of tasks that end in this order: the first exception is raised. -/
def gather : List (Except PyException Unit) → Except PyException Unit
  | [] => .ok ()
  | .ok () :: rest => gather rest
  | .error e :: _ => .error e

/-- `run_once` on a leased batch whose runs end in the given order. -/
def runOnce (batch completions : List Job) : Except PyException ℕ := do
  gather (completions.map (runJob p workerId u))
  return batch.length

end worker

/-! ### One story -/

def leasedStory : LeasedUrlCandidate :=
  leasedCopy (leaseRow "a".toList 0 120 (admittedRow storyDiscovery))

def sampleProcessor : ArticleProcessor where
  storesRawHtml := false
  maxAttempts := 3
  retryBaseSeconds := 120
  retryMaxSeconds := 3600
  retryJitterRatio := 3 / 20
  recentArticleWindowHours := 48

/-- The fetcher is as given, and everything else answers. -/
def fetching (fetch : Except PyException FetchResult) : Behaviour where
  startFetch := .ok ⟨7, 1, "a".toList, 8, 0⟩
  updateProcessingStage := fun _ => .ok ()
  fetch
  saveRawHtml := .ok ⟨[], [], 0⟩
  extract := .ok
    { title := none
      byline := none
      publishedAt := none
      language := none
      canonicalUrl := none
      textContent := "Text.".toList
      contentSha256 := []
      extractionMethod := []
      warnings := []
      qualityScore := "0.8".toList }
  completeSuccess := .ok ⟨1, 3, 4, 5, true, true, true, 0⟩
  completeFailure := .ok ()
  rejectBeforeFetch := .ok ()
  startedAt := 0
  stageAt := fun _ => 1
  completedAt := 2
  failedAt := 2
  traceId := 8
  random := 1 / 2

/-- What the resolver raises for an unknown host name. -/
def gaierror : PyException where
  errorType := "gaierror".toList
  message := "[Errno -2] Name or service not known".toList
  osError := true
  sqlAlchemyError := false
  nonRetryable := false

end Newsintel.Articles
