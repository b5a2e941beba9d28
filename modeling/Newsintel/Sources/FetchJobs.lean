import Newsintel.Acquisition.BacklogCleanup
import Newsintel.Lib.Runs
import Newsintel.Sources.Statistics

/-!
# Fetch jobs (application/sources/service.py, maintenance/cleanup_old_jobs.py)

A job is created with the publishers that it schedules, its figures are counted anew for each
view, and nothing but the cleanup of old jobs completes it.
-/

namespace Newsintel.Sources

open PyText Acquisition
open ArticleStore (ArticleModel)
open Articles (staleCandidate cleanupRow)

/-! ### Rows -/

inductive FetchJobType where
  | publisher
  | all
  deriving DecidableEq, Repr

inductive FetchJobStatus where
  | scheduled
  | running
  | completed
  deriving DecidableEq, Repr

/-- `status.in_(PENDING_FETCH_JOB_STATUSES)`. -/
def FetchJobStatus.pending : FetchJobStatus → Bool
  | .scheduled | .running => true
  | .completed => false

/-- A row of `fetch_jobs`, with the `publisher_ids` of its metadata. Its counters are zero from
the start and nothing reads them. -/
structure FetchJobModel where
  id : Uuid
  publisherId : Option Uuid
  jobType : FetchJobType
  status : FetchJobStatus
  publishersTotal : ℕ
  publisherIds : List Uuid
  message : Text
  createdAt : Timestamp
  startedAt : Option Timestamp
  completedAt : Option Timestamp
  updatedAt : Timestamp
  deriving DecidableEq

/-- A `fetch.job_scheduled` of the outbox, with the key of its job. -/
structure JobScheduled where
  jobId : Uuid
  publisherId : Option Uuid
  publisherIds : List Uuid
  deriving DecidableEq

structure JobTables where
  db : Database
  fetchJobs : List FetchJobModel
  scheduled : List JobScheduled

/-! ### `create_fetch_job` and `get_fetch_job` -/

def scheduledMessage : Text :=
  ("Discovery channels scheduled. Poller and article worker " ++
    "will process asynchronously.").toList

/-- The row that is added. -/
def scheduledJob (id : Uuid) (publisherId : Option Uuid) (publisherIds : List Uuid)
    (now : Timestamp) : FetchJobModel where
  id
  publisherId
  jobType := if publisherId.isSome then .publisher else .all
  status := .scheduled
  publishersTotal := publisherIds.length
  publisherIds
  message := scheduledMessage
  createdAt := now
  startedAt := some now
  completedAt := none
  updatedAt := now

/-- `create_fetch_job`, with the id that `uuid7` draws. -/
def createFetchJob (id : Uuid) (publisherId : Option Uuid) (now : Timestamp) (t : JobTables) :
    Except PyError JobTables := do
  let db ← Acquisition.createFetchJob publisherId now t.db
  if id ∈ t.fetchJobs.map (·.id) then throw .integrityError
  let publisherIds := fetchTargetPublishers publisherId t.db.publishers
  return {
    db
    fetchJobs := t.fetchJobs ++ [scheduledJob id publisherId publisherIds now]
    scheduled := t.scheduled ++ [⟨id, publisherId, publisherIds⟩] }

structure FetchJobView where
  id : Uuid
  publisherId : Option Uuid
  jobType : FetchJobType
  status : FetchJobStatus
  publishersTotal : ℕ
  stats : JobStats
  message : Text
  createdAt : Timestamp
  startedAt : Option Timestamp
  completedAt : Option Timestamp
  updatedAt : Timestamp
  deriving DecidableEq

def fetchJobView (db : Database) (articles : List ArticleModel) (job : FetchJobModel) :
    FetchJobView where
  id := job.id
  publisherId := job.publisherId
  jobType := job.jobType
  status := job.status
  publishersTotal := job.publishersTotal
  stats := jobStats db articles job.publisherIds job.createdAt
  message := job.message
  createdAt := job.createdAt
  startedAt := job.startedAt
  completedAt := job.completedAt
  updatedAt := job.updatedAt

def getFetchJob (articles : List ArticleModel) (t : JobTables) (id : Uuid) : Option FetchJobView :=
  (Table.get? (·.id) id t.fetchJobs).map (fetchJobView t.db articles)

/-! ### `cleanup_old_jobs` -/

/-- The arguments of the command line. -/
structure CleanupArguments where
  publisherMatch : Text
  olderThanHours : ℕ
  permanentFailure : Bool
  invalidOnly : Bool
  apply : Bool

structure CleanupResult where
  publisherMatch : Text
  olderThanHours : ℕ
  cutoff : Timestamp
  applied : Bool
  permanentFailure : Bool
  invalidOnly : Bool
  staleCandidateCount : ℕ
  staleFetchJobCount : ℕ
  deriving DecidableEq

namespace CleanupArguments

variable (u : Unicode) (args : CleanupArguments) (now : Timestamp) (cutoffText : Text)
  (publishers : List PublisherModel)

def cutoff : Timestamp := now - hours args.olderThanHours

/-- The candidates' part. -/
def candidates : Articles.Cleanup :=
  Acquisition.cleanupOldJobs u publishers args.publisherMatch args.olderThanHours
    args.permanentFailure args.invalidOnly now cutoffText

/-- `stale_fetch_job_filter`; a job for all publishers has no publisher to match. -/
def staleFetchJob (job : FetchJobModel) : Bool :=
  job.publisherId.any (fun id => publishers.any fun publisher =>
    decide (publisher.id = id) && publisherScope u args.publisherMatch publisher) &&
    job.status.pending && decide (job.createdAt < args.cutoff now)

end CleanupArguments

def cleanedMessage : Text :=
  ("Development cleanup completed this stale fetch job without " ++
    "deleting publishers, channels, articles, versions, events, " ++ "or claims.").toList

def completeJob (now : Timestamp) (job : FetchJobModel) : FetchJobModel :=
  { job with
    status := .completed
    completedAt := some now
    updatedAt := now
    message := cleanedMessage }

section statements

variable (u : Unicode) (args : CleanupArguments) (now : Timestamp) (cutoffText : Text)

def staleCandidateCount (t : JobTables) : ℕ :=
  t.db.candidates.countP (staleCandidate (args.candidates u now cutoffText t.db.publishers))

def staleFetchJobCount (t : JobTables) : ℕ :=
  t.fetchJobs.countP (args.staleFetchJob u now t.db.publishers)

/-- `update(UrlCandidateModel)`. -/
def updateCandidates (t : JobTables) : JobTables :=
  let cleanup := args.candidates u now cutoffText t.db.publishers
  { t with
    db :=
      { t.db with
        candidates := Table.updateWhere (staleCandidate cleanup) (cleanupRow cleanup) t.db.candidates } }

/-- `update(FetchJobModel)`. -/
def updateFetchJobs (t : JobTables) : JobTables :=
  { t with
    fetchJobs :=
      Table.updateWhere (args.staleFetchJob u now t.db.publishers) (completeJob now) t.fetchJobs }

/-- `cleanup_old_jobs`, with the cutoff as `isoformat` writes it: two counts and, if it applies, two
updates. Each statement finds the tables as they are by then; `others k` is what other transactions
commit behind the statement number `k`. -/
def cleanupOldJobs (others : ℕ → JobTables → JobTables) (t : JobTables) :
    CleanupResult × JobTables :=
  let counted := others 0 t
  ({ publisherMatch := args.publisherMatch
     olderThanHours := args.olderThanHours
     cutoff := args.cutoff now
     applied := args.apply
     permanentFailure := args.permanentFailure
     invalidOnly := args.invalidOnly
     staleCandidateCount := staleCandidateCount u args now cutoffText t
     staleFetchJobCount := staleFetchJobCount u args now counted },
    if args.apply then
      updateFetchJobs u args now
        (others 2 (updateCandidates u args now cutoffText (others 1 counted)))
    else counted)

end statements

/-! ### What a cleanup changes -/

section cleanup

variable {u : Unicode} {args args' : CleanupArguments} {now now' : Timestamp}
  {cutoffText cutoffText' : Text} {publishers : List PublisherModel}
  {r : Articles.UrlCandidateModel} {job : FetchJobModel} {c : Articles.Cleanup}

theorem staleCandidate_pending (h : staleCandidate c r = true) : r.state.pending = true := by
  rw [staleCandidate, Bool.and_eq_true, Bool.and_eq_true] at h
  exact h.1.1

theorem cleanupRow_pending (c : Articles.Cleanup) (r : Articles.UrlCandidateModel) :
    (cleanupRow c r).state.pending = false := by
  show (if c.permanentFailure then Articles.UrlCandidateState.failed
    else .rejected).pending = false
  split_ifs <;> rfl

theorem cleanupRow_not_stale {c' : Articles.Cleanup} : staleCandidate c' (cleanupRow c r) = false := by
  rw [staleCandidate, cleanupRow_pending]
  rfl

theorem staleFetchJob_pending (h : args.staleFetchJob u now publishers job = true) :
    job.status.pending = true := by
  rw [CleanupArguments.staleFetchJob, Bool.and_eq_true, Bool.and_eq_true] at h
  exact h.1.2

theorem completeJob_not_stale :
    args.staleFetchJob u now publishers (completeJob now' job) = false := by
  cases hstale : args.staleFetchJob u now publishers (completeJob now' job) with
  | false => rfl
  | true => exact (staleFetchJob_pending hstale).symm

/-- A cleanup that looks for no more rows than another one: if that one looks for invalid URLs only,
so does this one. -/
structure Narrower (args' args : CleanupArguments) (now' now : Timestamp) : Prop where
  publisherMatch : args'.publisherMatch = args.publisherMatch
  invalidOnly : args.invalidOnly = true → args'.invalidOnly = true
  cutoff : args'.cutoff now' ≤ args.cutoff now

theorem staleCandidate_of_narrower (h : Narrower args' args now' now)
    (hstale : staleCandidate (args'.candidates u now' cutoffText' publishers) r = true) :
    staleCandidate (args.candidates u now cutoffText publishers) r = true := by
  obtain ⟨hmatch, hinvalid, hcutoff⟩ := h
  simp only [staleCandidate, CleanupArguments.candidates, Acquisition.cleanupOldJobs, candidateScope,
    Bool.and_eq_true, Bool.or_eq_true, Bool.not_eq_true', decide_eq_true_eq, hmatch] at hstale ⊢
  obtain ⟨⟨hpending, hage⟩, hpublisher, hscope⟩ := hstale
  refine ⟨⟨hpending, decide_eq_true (lt_of_lt_of_le hage hcutoff)⟩, hpublisher, ?_⟩
  obtain hall | hurl := hscope
  · left
    by_contra honly
    rw [hinvalid (Bool.not_eq_false _ ▸ honly)] at hall
    cases hall
  · exact Or.inr hurl

theorem staleFetchJob_of_narrower (h : Narrower args' args now' now)
    (hstale : args'.staleFetchJob u now' publishers job = true) :
    args.staleFetchJob u now publishers job = true := by
  obtain ⟨hmatch, -, hcutoff⟩ := h
  simp only [CleanupArguments.staleFetchJob, Bool.and_eq_true, decide_eq_true_eq, hmatch] at hstale ⊢
  exact ⟨hstale.1, lt_of_lt_of_le hstale.2 hcutoff⟩

theorem countP_eq_zero {α : Type} {p : α → Bool} {rows : List α} (h : ∀ r ∈ rows, p r = false) :
    rows.countP p = 0 :=
  List.countP_eq_zero.mpr fun r hr => by rw [h r hr]; exact Bool.false_ne_true

/-- One update has changed as many candidates as were stale, nothing else, and has left none that a
narrower cleanup looks for. -/
structure CandidatesCleaned (u : Unicode) (args : CleanupArguments) (now : Timestamp)
    (cutoffText : Text) (t t' : JobTables) : Prop where
  changed : Table.changed t.db.candidates t'.db.candidates =
    staleCandidateCount u args now cutoffText t
  ids : t'.db.candidates.map (·.id) = t.db.candidates.map (·.id)
  only : t' = { t with db := { t.db with candidates := t'.db.candidates } }
  left : ∀ args' now' cutoffText', Narrower args' args now' now →
    staleCandidateCount u args' now' cutoffText' t' = 0 ∧
      updateCandidates u args' now' cutoffText' t' = t'

/-- And the other one with the fetch jobs. -/
structure FetchJobsCleaned (u : Unicode) (args : CleanupArguments) (now : Timestamp)
    (t t' : JobTables) : Prop where
  changed : Table.changed t.fetchJobs t'.fetchJobs = staleFetchJobCount u args now t
  ids : t'.fetchJobs.map (·.id) = t.fetchJobs.map (·.id)
  only : t' = { t with fetchJobs := t'.fetchJobs }
  left : ∀ args' now', Narrower args' args now' now →
    staleFetchJobCount u args' now' t' = 0 ∧ updateFetchJobs u args' now' t' = t'

theorem updateCandidates_cleaned (t : JobTables) :
    CandidatesCleaned u args now cutoffText t (updateCandidates u args now cutoffText t) where
  changed := by
    refine Table.changed_updateWhere fun r hstale hsame => ?_
    have hpending := staleCandidate_pending hstale
    rw [← hsame, cleanupRow_pending] at hpending
    cases hpending
  ids := Table.map_updateWhere fun _ => rfl
  only := rfl
  left args' now' cutoffText' hnarrower := by
    have hfresh : ∀ r ∈ (updateCandidates u args now cutoffText t).db.candidates,
        staleCandidate (args'.candidates u now' cutoffText' t.db.publishers) r = false := by
      intro r hr
      obtain ⟨q, -, -, rfl⟩ | ⟨-, hkept⟩ := Table.mem_updateWhere hr
      · exact cleanupRow_not_stale
      · by_contra hstale
        rw [staleCandidate_of_narrower hnarrower (Bool.not_eq_false _ ▸ hstale)] at hkept
        cases hkept
    refine ⟨countP_eq_zero hfresh, ?_⟩
    conv_lhs => rw [updateCandidates]
    exact congrArg (fun candidates => ({ t with db := { t.db with candidates } } : JobTables))
      (Table.updateWhere_of_none hfresh)

theorem updateFetchJobs_cleaned (t : JobTables) :
    FetchJobsCleaned u args now t (updateFetchJobs u args now t) where
  changed := by
    refine Table.changed_updateWhere fun job hstale hsame => ?_
    have hpending := staleFetchJob_pending hstale
    rw [← hsame] at hpending
    cases hpending
  ids := Table.map_updateWhere fun _ => rfl
  only := rfl
  left args' now' hnarrower := by
    have hfresh : ∀ job ∈ (updateFetchJobs u args now t).fetchJobs,
        args'.staleFetchJob u now' t.db.publishers job = false := by
      intro job hjob
      obtain ⟨q, -, -, rfl⟩ | ⟨-, hkept⟩ := Table.mem_updateWhere hjob
      · exact completeJob_not_stale
      · by_contra hstale
        rw [staleFetchJob_of_narrower hnarrower (Bool.not_eq_false _ ▸ hstale)] at hkept
        cases hkept
    refine ⟨countP_eq_zero hfresh, ?_⟩
    conv_lhs => rw [updateFetchJobs]
    exact congrArg (fun fetchJobs => ({ t with fetchJobs } : JobTables))
      (Table.updateWhere_of_none hfresh)

/- A dry run changes nothing and reports what the applied cleanup reports. Each update of that one
changes what is stale by then, which is what was counted where no commit comes in between. -/
theorem cleanupOldJobs_exact (u : Unicode) (args : CleanupArguments) (now : Timestamp)
    (cutoffText : Text) (others : ℕ → JobTables → JobTables) (t : JobTables) :
    let dry := cleanupOldJobs u { args with apply := false } now cutoffText others t
    let applied := cleanupOldJobs u { args with apply := true } now cutoffText others t
    let found := others 1 (others 0 t)
    let cleaned := updateCandidates u args now cutoffText found
    dry.2 = others 0 t ∧ dry.1 = { applied.1 with applied := false } ∧
      applied.1.staleCandidateCount = staleCandidateCount u args now cutoffText t ∧
      applied.1.staleFetchJobCount = staleFetchJobCount u args now (others 0 t) ∧
      CandidatesCleaned u args now cutoffText found cleaned ∧
      FetchJobsCleaned u args now (others 2 cleaned) applied.2 ∧
      ((∀ k tables, others k tables = tables) →
        Table.changed t.db.candidates applied.2.db.candidates = applied.1.staleCandidateCount ∧
          Table.changed t.fetchJobs applied.2.fetchJobs = applied.1.staleFetchJobCount) := by
  refine ⟨rfl, rfl, rfl, rfl, updateCandidates_cleaned _, updateFetchJobs_cleaned _, ?_⟩
  intro hquiet
  rw [cleanupOldJobs, if_pos rfl, hquiet 2, hquiet 1, hquiet 0]
  exact ⟨(updateCandidates_cleaned t).changed, (updateFetchJobs_cleaned _).changed⟩

end cleanup

def samplePublishers : Database :=
  ⟨[newPublisher 1 "BBC News".toList "bbc-news".toList "bbc.co.uk".toList 0], [], [], [], []⟩

/-- A candidate and a fetch job that are both old. -/
def sampleBacklog : JobTables where
  db :=
    { samplePublishers with
      candidates := [Articles.admittedRow
        { id := 2
          publisherId := 1
          normalizedUrl := "https://www.bbc.co.uk/news/an-old-story".toList
          urlFingerprint := [1]
          priorityScore := 1
          publishedAt := none
          observedAt := 0
          now := 0 }] }
  fetchJobs := [scheduledJob 6 (some 1) [1] 0]
  scheduled := [⟨6, some 1, [1]⟩]

def sampleCleanup : CleanupArguments := ⟨"BBC".toList, 48, false, false, true⟩

/-- A worker rejects all candidates behind the counts. -/
def rejectMeanwhile (k : ℕ) (t : JobTables) : JobTables :=
  if k = 1 then
    { t with
      db := { t.db with candidates := t.db.candidates.map fun r => { r with state := .rejected } } }
  else t

/- Alone, the cleanup changes one candidate and one job, as it reports. Where the candidate is
rejected meanwhile, it reports one and changes none. -/
theorem sampleCleanup_exact :
    let alone := cleanupOldJobs asciiUnicode sampleCleanup (hours 72) [] (fun _ t => t) sampleBacklog
    let overtaken := cleanupOldJobs asciiUnicode sampleCleanup (hours 72) [] rejectMeanwhile
      sampleBacklog
    alone.1.staleCandidateCount = 1 ∧ alone.1.staleFetchJobCount = 1 ∧
      Table.changed sampleBacklog.db.candidates alone.2.db.candidates = 1 ∧
      Table.changed sampleBacklog.fetchJobs alone.2.fetchJobs = 1 ∧
      overtaken.1.staleCandidateCount = 1 ∧
      overtaken.2.db.candidates.map (·.lastFailureCode) = [none] := by
  obtain ⟨-, -, -, -, -, -, hquiet⟩ := cleanupOldJobs_exact asciiUnicode sampleCleanup (hours 72) []
    (fun _ t => t) sampleBacklog
  obtain ⟨hcandidates, hjobs⟩ := hquiet fun _ _ => rfl
  have hcounts : (cleanupOldJobs asciiUnicode sampleCleanup (hours 72) [] (fun _ t => t)
      sampleBacklog).1.staleCandidateCount = 1 ∧
        (cleanupOldJobs asciiUnicode sampleCleanup (hours 72) [] (fun _ t => t)
          sampleBacklog).1.staleFetchJobCount = 1 := by decide +kernel
  exact ⟨hcounts.1, hcounts.2, hcandidates.trans hcounts.1, hjobs.trans hcounts.2,
    by decide +kernel, by decide +kernel⟩

/-! ### Runs -/

/-- What changes the tables. The second update of a cleanup comes by itself, as other transactions
commit between its statements; nothing but it and `create_fetch_job` writes the jobs. -/
inductive JobLabel where
  | createFetchJob (id : Uuid) (publisherId : Option Uuid) (now : Timestamp)
  | updateFetchJobs (args : CleanupArguments) (now : Timestamp)
  | other (db : Database)

/-- A request that raises leaves the tables as they are, and is no step. -/
def jobStep (u : Unicode) (t : JobTables) : JobLabel → Option JobTables
  | .createFetchJob id publisherId now => (createFetchJob id publisherId now t).toOption
  | .updateFetchJobs args now => some (updateFetchJobs u args now t)
  | .other db => some { t with db }

/-- What holds of a job from its creation on. -/
structure JobSound (job : FetchJobModel) : Prop where
  total : job.publishersTotal = job.publisherIds.length
  targeted : job.publisherIds ≠ []
  kind : job.jobType = .all ↔ job.publisherId = none
  target : ∀ p ∈ job.publisherId, ∀ id ∈ job.publisherIds, id = p
  status : job.status = .scheduled ∧ job.completedAt = none ∨
    job.status = .completed ∧ job.publisherId ≠ none ∧ ∃ at' ∈ job.completedAt, job.createdAt < at'

/-- Each job has one event, with its publishers. -/
structure JobsAccounted (t : JobTables) : Prop where
  ids : (t.fetchJobs.map (·.id)).Nodup
  events : t.scheduled = t.fetchJobs.map fun job => ⟨job.id, job.publisherId, job.publisherIds⟩
  jobs : ∀ job ∈ t.fetchJobs, JobSound job

section runs

variable {u : Unicode} {t t' : JobTables} {label : JobLabel} {labels : List JobLabel} {id : Uuid}
  {publisherId : Option Uuid} {now : Timestamp} {args : CleanupArguments}

theorem jobSound_scheduled {publisherIds : List Uuid} (hne : publisherIds ≠ [])
    (htarget : ∀ p ∈ publisherId, ∀ id ∈ publisherIds, id = p) :
    JobSound (scheduledJob id publisherId publisherIds now) where
  total := rfl
  targeted := hne
  kind := by
    cases publisherId with
    | none => exact iff_of_true rfl rfl
    | some p => exact iff_of_false nofun nofun
  target := htarget
  status := Or.inl ⟨rfl, rfl⟩

/- A job that the cleanup finds has a publisher and is older than the cutoff. -/
theorem jobSound_completed {publishers : List PublisherModel} {job : FetchJobModel}
    (h : JobSound job) (hstale : args.staleFetchJob u now publishers job = true) :
    JobSound (completeJob now job) := by
  rw [CleanupArguments.staleFetchJob, Bool.and_eq_true, Bool.and_eq_true, decide_eq_true_eq] at hstale
  obtain ⟨⟨hpublisher, -⟩, hold⟩ := hstale
  refine ⟨h.total, h.targeted, h.kind, h.target, Or.inr ⟨rfl, ?_, now, rfl, ?_⟩⟩
  · intro hnone
    rw [show job.publisherId = none from hnone] at hpublisher
    cases hpublisher
  · have hhours : 0 ≤ hours args.olderThanHours := by
      unfold hours seconds
      omega
    have hcutoff : args.cutoff now ≤ now := sub_le_self now hhours
    exact lt_of_lt_of_le hold hcutoff

theorem createFetchJob_ok (h : createFetchJob id publisherId now t = .ok t') :
    fetchTargetPublishers publisherId t.db.publishers ≠ [] ∧ id ∉ t.fetchJobs.map (·.id) ∧
      t'.fetchJobs = t.fetchJobs ++ [scheduledJob id publisherId
        (fetchTargetPublishers publisherId t.db.publishers) now] ∧
      t'.scheduled = t.scheduled ++ [⟨id, publisherId,
        fetchTargetPublishers publisherId t.db.publishers⟩] := by
  unfold createFetchJob at h
  obtain ⟨db, hdb, h⟩ := bind_ok h
  split_ifs at h with hid
  · cases h
  · obtain rfl := Except.ok.inj h
    refine ⟨?_, hid, rfl, rfl⟩
    intro hnone
    rw [Acquisition.createFetchJob, if_pos hnone] at hdb
    cases hdb

theorem jobsAccounted_create (hacc : JobsAccounted t)
    (h : createFetchJob id publisherId now t = .ok t') : JobsAccounted t' := by
  obtain ⟨hne, hid, hjobs, hevents⟩ := createFetchJob_ok h
  refine ⟨?_, ?_, ?_⟩
  · rw [hjobs, List.map_append]
    exact hacc.ids.append (List.nodup_singleton _) (List.disjoint_singleton.mpr hid)
  · rw [hjobs, hevents, List.map_append, hacc.events]
    rfl
  · rw [hjobs]
    refine List.forall_mem_append.mpr ⟨hacc.jobs, List.forall_mem_singleton.mpr ?_⟩
    refine jobSound_scheduled hne fun p hp id hid => ?_
    obtain ⟨publisher, hpublisher, rfl⟩ := List.mem_map.mp hid
    have hfound := (List.mem_filter.mp hpublisher).2
    rw [hp, Bool.and_eq_true, Option.all_some, decide_eq_true_eq] at hfound
    exact hfound.2.symm

theorem jobsAccounted_cleanup (hacc : JobsAccounted t) :
    JobsAccounted (updateFetchJobs u args now t) := by
  refine ⟨?_, ?_, ?_⟩
  · rw [(updateFetchJobs_cleaned t).ids]
    exact hacc.ids
  · exact hacc.events.trans (Table.map_updateWhere (f := completeJob now) fun _ => rfl).symm
  · intro job hjob
    obtain ⟨q, hq, hstale, rfl⟩ | ⟨hmem, -⟩ := Table.mem_updateWhere hjob
    · exact jobSound_completed (hacc.jobs q hq) hstale
    · exact hacc.jobs job hmem

theorem jobsAccounted_step (hacc : JobsAccounted t) (h : jobStep u t label = some t') :
    JobsAccounted t' := by
  cases label with
  | createFetchJob id publisherId now =>
    exact jobsAccounted_create hacc (ok_of_toOption h)
  | updateFetchJobs args now =>
    obtain rfl := Option.some.inj h
    exact jobsAccounted_cleanup hacc
  | other db =>
    obtain rfl := Option.some.inj h
    exact ⟨hacc.ids, hacc.events, hacc.jobs⟩

/- The polled publishers that a view counts are among those of the job. -/
theorem publishersProcessed_le (db : Database) (articles : List ArticleModel)
    (publisherIds : List Uuid) (since : Timestamp) :
    (jobStats db articles publisherIds since).publishersProcessed ≤ publisherIds.length := by
  unfold jobStats
  dsimp only
  split_ifs
  · exact Nat.zero_le _
  · refine (List.subperm_of_subset (List.nodup_dedup _) fun id hid => ?_).length_le
    obtain ⟨channel, hchannel, rfl⟩ := List.mem_map.mp (List.mem_dedup.mp hid)
    have hcounted := (List.mem_filter.mp hchannel).2
    rw [Bool.and_eq_true, decide_eq_true_eq] at hcounted
    exact hcounted.1

/- In every run each job is announced once, a job for all publishers stays scheduled, one is
completed after its creation only, and no view counts more publishers than the job has. -/
theorem fetchJobs_run (u : Unicode) (db : Database) (labels : List JobLabel) (t : JobTables)
    (h : Runs.exec (jobStep u) ⟨db, [], []⟩ labels = some t) :
    JobsAccounted t ∧
      (∀ job ∈ t.fetchJobs, job.jobType = .all → job.status = .scheduled) ∧
      ∀ articles id view, getFetchJob articles t id = some view →
        view.id = id ∧ view.stats.publishersProcessed ≤ view.publishersTotal := by
  have hempty : JobsAccounted ⟨db, [], []⟩ := ⟨List.nodup_nil, rfl, List.forall_mem_nil _⟩
  have hacc : JobsAccounted t :=
    Runs.invariant hempty (fun _ _ _ hacc hstep => jobsAccounted_step hacc hstep) h
  refine ⟨hacc, ?_, ?_⟩
  · intro job hjob hall
    obtain ⟨hstatus, -⟩ | ⟨-, hpublisher, -⟩ := (hacc.jobs job hjob).status
    · exact hstatus
    · exact absurd ((hacc.jobs job hjob).kind.mp hall) hpublisher
  · intro articles id view hview
    obtain ⟨job, hfound, rfl⟩ := Option.map_eq_some_iff.mp hview
    obtain ⟨hjob, hid⟩ := Table.get?_some hfound
    refine ⟨hid, ?_⟩
    show (jobStats t.db articles job.publisherIds job.createdAt).publishersProcessed ≤
      job.publishersTotal
    rw [(hacc.jobs job hjob).total]
    exact publishersProcessed_le _ _ _ _

/-- Two jobs, one for all publishers, and a cleanup three days later. -/
def sampleJobs : List JobLabel :=
  [.createFetchJob 5 none 0, .createFetchJob 6 (some 1) 0,
    .updateFetchJobs sampleCleanup (hours 72)]

theorem sampleJobs_run : ∃ t, Runs.exec (jobStep asciiUnicode) ⟨samplePublishers, [], []⟩
    sampleJobs = some t ∧ t.fetchJobs.map (fun job => (job.jobType, job.status)) =
      [(.all, .scheduled), (.publisher, .completed)] :=
  ⟨_, rfl, by decide +kernel⟩

theorem sampleJobs_accounted : ∃ t, Runs.exec (jobStep asciiUnicode) ⟨samplePublishers, [], []⟩
    sampleJobs = some t ∧ JobsAccounted t := by
  obtain ⟨t, ht, -⟩ := sampleJobs_run
  exact ⟨t, ht, (fetchJobs_run asciiUnicode samplePublishers sampleJobs t ht).1⟩

end runs

end Newsintel.Sources
