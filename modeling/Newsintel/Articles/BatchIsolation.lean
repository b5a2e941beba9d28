import Newsintel.Articles.Processing

/-!
# When a failed candidate leaves the batch alone

`run_once` passes on whatever looks like a database outage. With a database that answers
every call, it raises exactly for a candidate whose fetch, snapshot or extraction raises
such an exception.
-/

namespace Newsintel.Articles

open PyText Acquisition Logged

section runs

variable {p : ArticleProcessor} {env : Behaviour} {candidate : LeasedUrlCandidate}
  {workerId : Text} {run : ArticleFetchRun} {u : Unicode}

/-- Every call to the repository returns. -/
structure Behaviour.DatabaseAnswers (env : Behaviour) : Prop where
  startFetch : env.startFetch.toBool = true
  updateProcessingStage : ∀ stage, env.updateProcessingStage stage = .ok ()
  completeSuccess : env.completeSuccess.toBool = true
  completeFailure : env.completeFailure = .ok ()
  rejectBeforeFetch : env.rejectBeforeFetch = .ok ()

/-- The fetcher raises an `OSError` or a `SQLAlchemyError`; or, after a successful
response, the artifact store does, or else the extractor. -/
def Behaviour.raisesOutage (p : ArticleProcessor) (env : Behaviour) : Bool :=
  match env.fetch with
  | .error e => e.outage
  | .ok fetched =>
    200 ≤ fetched.statusCode && fetched.statusCode < 300 &&
      match p.storesRawHtml, env.saveRawHtml, env.extract with
      | true, .error e, _ => e.outage
      | _, _, .error e => e.outage
      | _, _, .ok _ => false

/-- The candidate passes the filter and then meets such an exception. -/
def Job.meetsOutage (p : ArticleProcessor) (u : Unicode) (job : Job) : Bool :=
  (prefetchFilter p job.env job.candidate u).toOption.any (·.accepted) && job.env.raisesOutage p

/-- The run raises an exception that `run_once` passes on. -/
def Outage {α : Type} (t : Processing α) : Prop := ∃ e, t.result = .error e ∧ e.outage = true

theorem outage_of_ok {α : Type} {t : Processing α} {a : α} (h : t.result = .ok a) :
    ¬ Outage t := by
  rintro ⟨e, he, -⟩
  rw [h] at he
  cases he

theorem outage_of_error {α : Type} {t : Processing α} {e : PyException} (h : t.result = .error e) :
    Outage t ↔ e.outage = true := by
  constructor
  · rintro ⟨e', he, hout⟩
    rw [h] at he
    cases he
    exact hout
  · intro hout
    exact ⟨e, h, hout⟩

theorem raiseForStatus_eq (statusCode : ℕ) :
    (raiseForStatus statusCode = .ok () ∧ 200 ≤ statusCode ∧ statusCode < 300) ∨
      ∃ e, raiseForStatus statusCode = .error e ∧ e.outage = false ∧
        ¬ (200 ≤ statusCode ∧ statusCode < 300) := by
  unfold raiseForStatus
  split
  · rename_i hrange
    simp only [Bool.or_eq_true, decide_eq_true_eq] at hrange
    refine .inr ?_
    simp only
    split_ifs <;> exact ⟨_, rfl, rfl, by omega⟩
  · rename_i hrange
    simp only [Bool.or_eq_true, decide_eq_true_eq] at hrange
    exact .inl ⟨rfl, by omega, by omega⟩

theorem raiseForMissingText_error {x : Extraction} {e : PyException}
    (h : raiseForMissingText x = .error e) : e.outage = false := by
  unfold raiseForMissingText at h
  split at h
  · cases h
    rfl
  · cases h

theorem raiseForUnacceptableExtraction_error {x : Extraction} {e : PyException}
    (h : raiseForUnacceptableExtraction x = .error e) : e.outage = false := by
  unfold raiseForUnacceptableExtraction at h
  simp only at h
  split at h
  · cases h
  · cases h
    rfl

theorem outage_bind_ok {α β : Type} {x : Processing α} {f : α → Processing β} {a : α}
    (h : x.result = .ok a) : Outage (x >>= f) ↔ Outage (f a) := by
  rw [bind_of_ok h]
  exact Iff.rfl

theorem outage_bind_error {α β : Type} {x : Processing α} {f : α → Processing β} {e : PyException}
    (h : x.result = .error e) : Outage (x >>= f) ↔ e.outage = true :=
  outage_of_error (by rw [bind_of_error h])

/- The extractor's exceptions pass; the checks behind it raise the processor's own. -/
theorem extractArticle_outage (h : env.DatabaseAnswers) (fetched : FetchResult) :
    Outage (extractArticle env workerId run fetched) ↔
      ∃ e, env.extract = .error e ∧ e.outage = true := by
  have hmark : ∀ stage, (markStageNow env workerId run stage).result = .ok () :=
    h.updateProcessingStage
  unfold extractArticle
  rw [outage_bind_ok (hmark _)]
  cases hextract : env.extract with
  | error e =>
    rw [outage_bind_error rfl]
    simp
  | ok extracted =>
    rw [outage_bind_ok rfl]
    refine iff_of_false ?_ (by simp)
    intro hout
    cases htext : raiseForMissingText extracted with
    | error e =>
      rw [outage_bind_error htext, raiseForMissingText_error htext] at hout
      cases hout
    | ok _ =>
      rw [outage_bind_ok htext] at hout
      cases hwarnings : raiseForUnacceptableExtraction extracted with
      | error e =>
        rw [outage_bind_error hwarnings, raiseForUnacceptableExtraction_error hwarnings] at hout
        cases hout
      | ok _ =>
        rw [outage_bind_ok hwarnings, outage_bind_ok (hmark _), outage_bind_ok (hmark _)] at hout
        exact outage_of_ok rfl hout

theorem outage_bind_return {α β : Type} {x : Processing α} {f : α → β} :
    Outage (x >>= fun a => return f a) ↔ Outage x := by
  cases h : x.result with
  | ok a =>
    rw [outage_bind_ok h]
    exact iff_of_false (outage_of_ok rfl) (outage_of_ok h)
  | error e => rw [outage_bind_error h, outage_of_error h]

/- With a database that answers, the first region fails with an outage where a part does. -/
theorem fetchAndExtract_outage (h : env.DatabaseAnswers) :
    Outage (fetchAndExtract p env candidate workerId run) ↔ env.raisesOutage p = true := by
  have hmark : ∀ stage, (markStageNow env workerId run stage).result = .ok () :=
    h.updateProcessingStage
  unfold fetchAndExtract Behaviour.raisesOutage
  rw [outage_bind_ok (hmark _)]
  cases hfetch : env.fetch with
  | error e => exact outage_bind_error rfl
  | ok fetched =>
    rw [outage_bind_ok rfl, outage_bind_ok (h.updateProcessingStage .fetched)]
    rcases raiseForStatus_eq fetched.statusCode with ⟨hstatus, hlow, hhigh⟩ | ⟨e, hstatus, he, hrange⟩
    · rw [outage_bind_ok hstatus]
      simp only [hlow, hhigh, decide_true, Bool.true_and]
      have hextract := @extractArticle_outage env workerId run h fetched
      unfold saveSnapshot
      cases p.storesRawHtml with
      | false =>
        rw [if_neg Bool.false_ne_true, outage_bind_ok rfl, outage_bind_return, hextract]
        cases env.extract <;> simp
      | true =>
        rw [if_pos rfl]
        cases hsave : env.saveRawHtml with
        | error e => exact outage_bind_error rfl
        | ok artifact =>
          rw [outage_bind_ok rfl, outage_bind_return, hextract]
          cases env.extract <;> simp
    · rw [outage_bind_error hstatus, he]
      simp [hrange]

theorem failureRetryAt_ok (hleased : candidate.Leased) (terminal : Bool) :
    ∃ retryAt, failureRetryAt p env candidate terminal = .ok retryAt := by
  have hattempted := hleased.attempted
  unfold failureRetryAt retryAtForAttempt
  rw [if_neg (show ¬ candidate.attemptCount < 1 by omega)]
  split
  · exact ⟨none, rfl⟩
  · simp only
    split <;> exact ⟨some _, rfl⟩

/- Recording the failure returns, so the first exception is raised again. -/
theorem recordingFailure_outage {α : Type} {x : Processing α} (h : env.DatabaseAnswers)
    (hleased : candidate.Leased) : Outage (recordingFailure p env candidate run x) ↔ Outage x := by
  unfold recordingFailure
  cases hx : x.result with
  | ok a => rw [guard_of_ok hx]
  | error e =>
    obtain ⟨retryAt, hretry⟩ := @failureRetryAt_ok p env candidate hleased
      (recordsTerminal p.maxAttempts candidate e.nonRetryable)
    have hrecord : (recordFailure p env candidate run e).result = .ok () := by
      rw [recordFailure, bind_of_ok hretry]
      exact h.completeFailure
    rw [guard_of_error hx, bind_of_ok hrecord, outage_of_error hx]
    exact outage_of_error rfl

theorem persist_outage {fetched : FetchResult} {rawArtifact : Option RawFetchArtifact}
    {extracted : Extraction} (h : env.DatabaseAnswers) :
    ¬ Outage (persist env workerId run fetched rawArtifact extracted) := by
  have hsuccess := h.completeSuccess
  unfold persist
  rw [outage_bind_ok (h.updateProcessingStage .persisting)]
  cases hresult : env.completeSuccess with
  | error e =>
    rw [hresult] at hsuccess
    cases hsuccess
  | ok result => exact outage_of_ok rfl

theorem attempt_outage (h : env.DatabaseAnswers) (hleased : candidate.Leased) :
    Outage (attempt p env candidate workerId run) ↔ env.raisesOutage p = true := by
  have hfirst : Outage (recordingFailure p env candidate run
      (fetchAndExtract p env candidate workerId run)) ↔ env.raisesOutage p = true := by
    rw [recordingFailure_outage h hleased, fetchAndExtract_outage h]
  unfold attempt
  cases hrun : (recordingFailure p env candidate run
      (fetchAndExtract p env candidate workerId run)).result with
  | error e => rw [outage_bind_error hrun, ← hfirst, outage_of_error hrun]
  | ok prepared =>
    rw [outage_bind_ok hrun, recordingFailure_outage h hleased, ← hfirst]
    exact iff_of_false (persist_outage h) (outage_of_ok hrun)

theorem prefetchFilter_error {e : PyException}
    (h : prefetchFilter p env candidate u = .error e) : e.outage = false := by
  unfold prefetchFilter at h
  cases hadmits : shouldAdmitArticleUrl u candidate.normalizedUrl candidate.publishedAt
      env.startedAt p.recentArticleWindowHours false with
  | error _ =>
    rw [hadmits] at h
    cases h
    rfl
  | ok decision =>
    rw [hadmits] at h
    cases h

/- A candidate that the filter turns away is rejected in the database, and not as an outage. -/
theorem passFilter_cases (h : env.DatabaseAnswers) :
    (∃ e, (passFilter p env candidate workerId u).result = .error e ∧ e.outage = false ∧
      (prefetchFilter p env candidate u).toOption.any (·.accepted) = false) ∨
    (passFilter p env candidate workerId u).result = .ok () ∧
      (prefetchFilter p env candidate u).toOption.any (·.accepted) = true := by
  unfold passFilter
  cases hfilter : prefetchFilter p env candidate u with
  | error e => exact .inl ⟨e, by rw [bind_of_error rfl], prefetchFilter_error hfilter, rfl⟩
  | ok decision =>
    rw [bind_of_ok rfl]
    cases haccepted : decision.accepted with
    | true => exact .inr ⟨rfl, haccepted⟩
    | false =>
      refine .inl ⟨.articleJobRejectedError ("queued URL rejected before HTTP fetch: ".toList ++
        (decision.reason.map rejectionText).getD "prefetch_rejected".toList), ?_, rfl, haccepted⟩
      rw [if_neg Bool.false_ne_true, bind_of_ok h.rejectBeforeFetch]
      rfl

/- With a database that answers, a run fails with an outage exactly where a part of it
outside the database does. -/
theorem process_outage {job : Job} (h : job.env.DatabaseAnswers) (hleased : job.candidate.Leased) :
    Outage (process p job.env job.candidate workerId u) ↔ job.meetsOutage p u = true := by
  unfold process Job.meetsOutage
  rcases @passFilter_cases p job.env job.candidate workerId u h with
    ⟨e, hfilter, hown, hturned⟩ | ⟨hfilter, haccepted⟩
  · rw [outage_bind_error hfilter, hown, hturned, Bool.false_and]
  · have hstart := h.startFetch
    rw [outage_bind_ok hfilter, haccepted, Bool.true_and]
    cases hrun : job.env.startFetch with
    | error e =>
      rw [hrun] at hstart
      cases hstart
    | ok run =>
      rw [outage_bind_ok rfl]
      exact attempt_outage h hleased

end runs

/-! ### The batch -/

section batch

variable {p : ArticleProcessor} {workerId : Text} {u : Unicode}

/-- However its runs interleave, the worker goes through the batch and returns its size. -/
def IsolatesFailures (p : ArticleProcessor) (workerId : Text) (u : Unicode) (batch : List Job) :
    Prop :=
  ∀ completions, completions.Perm batch →
    runOnce p workerId u batch completions = .ok batch.length

theorem runJob_ok {job : Job} :
    runJob p workerId u job = .ok () ↔ ¬ Outage (process p job.env job.candidate workerId u) := by
  unfold runJob
  cases hresult : (process p job.env job.candidate workerId u).result with
  | ok a => exact iff_of_true rfl (outage_of_ok hresult)
  | error e =>
    rw [outage_of_error hresult]
    cases hout : e.outage <;> simp [hout]

theorem gather_ok {tasks : List (Except PyException Unit)} :
    gather tasks = .ok () ↔ ∀ t ∈ tasks, t = .ok () := by
  induction tasks with
  | nil => simp [gather]
  | cons t rest ih =>
    cases t with
    | error e => simp [gather]
    | ok _ => simpa [gather] using ih

theorem runOnce_ok {batch completions : List Job} (h : completions.Perm batch) :
    runOnce p workerId u batch completions = .ok batch.length ↔
      ∀ job ∈ batch, ¬ Outage (process p job.env job.candidate workerId u) := by
  have hgather : gather (completions.map (runJob p workerId u)) = .ok () ↔
      ∀ job ∈ batch, ¬ Outage (process p job.env job.candidate workerId u) := by
    rw [gather_ok, List.forall_mem_map]
    simp only [runJob_ok, h.mem_iff]
  rw [← hgather, runOnce]
  cases gather (completions.map (runJob p workerId u)) with
  | ok _ => exact iff_of_true rfl rfl
  | error e => exact iff_of_false (by rintro ⟨⟩) (by rintro ⟨⟩)

/- Exact condition for a batch whose database calls all return. -/
theorem isolatesFailures_iff {batch : List Job}
    (hdatabase : ∀ job ∈ batch, job.env.DatabaseAnswers)
    (hleased : ∀ job ∈ batch, job.candidate.Leased) :
    IsolatesFailures p workerId u batch ↔ ∀ job ∈ batch, job.meetsOutage p u = false := by
  have hmeets : ∀ job ∈ batch, (¬ Outage (process p job.env job.candidate workerId u) ↔
      job.meetsOutage p u = false) := by
    intro job hjob
    rw [process_outage (hdatabase job hjob) (hleased job hjob), Bool.not_eq_true]
  constructor
  · intro h job hjob
    exact (hmeets job hjob).mp ((runOnce_ok (.refl batch)).mp (h batch (.refl batch)) job hjob)
  · intro h completions hperm
    exact (runOnce_ok hperm).mpr fun job hjob => (hmeets job hjob).mpr (h job hjob)

end batch

/-- One leased story whose fetch goes as given. -/
def storyJob (fetch : Except PyException FetchResult) : Job := ⟨leasedStory, fetching fetch⟩

theorem fetching_databaseAnswers (fetch : Except PyException FetchResult) :
    (fetching fetch).DatabaseAnswers :=
  ⟨rfl, fun _ => rfl, rfl, rfl, rfl⟩

/-- A response timeout, which is no `OSError`. -/
def readTimeout : PyException where
  errorType := "ReadTimeout".toList
  message := []
  osError := false
  sqlAlchemyError := false
  nonRetryable := false

/-- A second story of the publisher. -/
def otherStory : LeasedUrlCandidate :=
  leasedCopy (leaseRow "a".toList 0 120
    (admittedRow { storyDiscovery with id := 3, normalizedUrl := "https://a.in/news/c".toList }))

/-- The response to its fetch. -/
def otherFetched : FetchResult where
  finalUrl := "https://a.in/news/c".toList
  statusCode := 200
  headers := []
  body := asciiBytes "<p>Text.</p>".toList
  retrievedAt := 1

/-- The first fetch of two goes as given, and the second one answers. -/
def twoJobs (fetch : Except PyException FetchResult) : List Job :=
  [storyJob fetch, ⟨otherStory, fetching (.ok otherFetched)⟩]

theorem twoJobs_databaseAnswers (fetch : Except PyException FetchResult) :
    ∀ job ∈ twoJobs fetch, job.env.DatabaseAnswers :=
  List.forall_mem_cons.mpr ⟨fetching_databaseAnswers _,
    List.forall_mem_singleton.mpr (fetching_databaseAnswers _)⟩

theorem twoJobs_leased (fetch : Except PyException FetchResult) :
    ∀ job ∈ twoJobs fetch, job.candidate.Leased :=
  List.forall_mem_cons.mpr ⟨⟨_, _, _, _, rfl⟩, List.forall_mem_singleton.mpr ⟨_, _, _, _, rfl⟩⟩

/- A fetch that times out leaves the other job of the batch alone. -/
theorem timedOutStory_isolated :
    IsolatesFailures sampleProcessor "a".toList asciiUnicode (twoJobs (.error readTimeout)) :=
  (isolatesFailures_iff (twoJobs_databaseAnswers _) (twoJobs_leased _)).mpr (by decide +kernel)

/- A host name that does not resolve ends the batch. -/
theorem unresolvedStory_not_isolated :
    ¬ ∀ (p : ArticleProcessor) (workerId : Text) (u : Unicode) (batch : List Job),
      (∀ job ∈ batch, job.env.DatabaseAnswers) → (∀ job ∈ batch, job.candidate.Leased) →
        IsolatesFailures p workerId u batch := by
  intro h
  have hisolates := h sampleProcessor "a".toList asciiUnicode (twoJobs (.error gaierror))
    (twoJobs_databaseAnswers _) (twoJobs_leased _) _ (.refl _)
  revert hisolates
  decide +kernel

end Newsintel.Articles
