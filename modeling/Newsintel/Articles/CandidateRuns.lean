import Newsintel.Lib.Runs
import Newsintel.Articles.CandidateRow

/-!
# The candidate frontier under any number of workers

State: the rows of `url_candidates` and every copy a worker was ever handed. A
worker acts on a row through its copy, at any later time, so a step by a worker
whose lease has expired or has been taken over is a step like any other. Each
repository method is one transaction, and one step at its commit: the row that it
finds is the row by then, also where the method has loaded it before. Time enters as
the instants the callers pass.
-/

namespace Newsintel.Articles
open Newsintel.Table

/-- A `LeasedUrlCandidate` in the hands of a worker. -/
structure Grant where
  workerId : Text
  candidate : LeasedUrlCandidate
  deriving DecidableEq

structure Frontier where
  rows : List UrlCandidateModel
  grants : List Grant

def emptyFrontier : Frontier := ⟨[], []⟩

/-- Stages that `ArticleProcessor.process` passes to `update_processing_stage`. -/
def workerStages : List ArticleProcessingStage :=
  [.fetching, .fetched, .extracting, .extracted, .validated, .persisting]

/-- One committed transaction on the frontier. -/
inductive Step where
  | observeDiscovery (d : Discovery)
  | leaseDueCandidates (workerId : Text) (now : Timestamp) (limit leaseSeconds : ℕ)
      (locked : List Uuid)
  | startFetch (g : Grant) (startedAt : Timestamp)
  | updateStage (g : Grant) (stage : ArticleProcessingStage) (occurredAt : Timestamp)
      (details : StageDetails)
  | completeSuccess (g : Grant) (articleId : Uuid) (completedAt : Timestamp)
  | recordFailure (g : Grant) (nonRetryable : Bool) (errorType errorMessage : Text)
      (retryAt completedAt : Timestamp)
  | rejectBeforeFetch (g : Grant) (reason message : Text) (rejectedAt : Timestamp)
  | cleanupOldJobs (c : Cleanup)

/-- The copies one `lease_due_candidates` call hands out. -/
def leaseGrants (workerId : Text) (now : Timestamp) (leaseSeconds : ℕ)
    (picked : List UrlCandidateModel) : List Grant :=
  picked.map fun r => ⟨workerId, leasedCopy (leaseRow workerId now leaseSeconds r)⟩

/-- `_record_failure`: the arguments `complete_failure` is called with. -/
def recordFailureRow (maxAttempts : ℕ) (g : Grant) (nonRetryable : Bool)
    (errorType errorMessage : Text) (retryAt completedAt : Timestamp) (r : UrlCandidateModel) :
    UrlCandidateModel :=
  let terminal := recordsTerminal maxAttempts g.candidate nonRetryable
  completeFailure completedAt errorType (errorMessage.take 2000)
    (if terminal then none else some retryAt) terminal r

/-- What the step does to a row it finds. -/
def rowAfter (maxAttempts : ℕ) (s : Frontier) (a : Step) (r : UrlCandidateModel) :
    UrlCandidateModel :=
  match a with
  | .observeDiscovery d =>
      if r.urlFingerprint = d.urlFingerprint then updateCandidateJobMetadata d r else r
  | .leaseDueCandidates w now limit secs locked =>
      if r ∈ leaseSelect now limit locked s.rows then leaseRow w now secs r else r
  | .startFetch g t => if r.id = g.candidate.id then startFetch g.workerId t r else r
  | .updateStage g stage t d =>
      if r.id = g.candidate.id then updateProcessingStage stage t d r else r
  | .completeSuccess g article t =>
      if r.id = g.candidate.id then completeSuccess article t r else r
  | .recordFailure g nonRetryable ty msg retryAt t =>
      if r.id = g.candidate.id then
        recordFailureRow maxAttempts g nonRetryable ty msg retryAt t r
      else r
  | .rejectBeforeFetch g reason message t =>
      if r.id = g.candidate.id then rejectBeforeFetch t reason message r else r
  | .cleanupOldJobs c => if staleCandidate c r then cleanupRow c r else r

/-- The grant a worker step acts through. -/
def Step.grant? : Step → Option Grant
  | .observeDiscovery _ | .leaseDueCandidates .. | .cleanupOldJobs _ => none
  | .startFetch g _ | .updateStage g .. | .completeSuccess g .. | .recordFailure g ..
  | .rejectBeforeFetch g .. => some g

/-- A worker step needs its copy; a stage write one of the worker's stages. -/
def Step.allowed (s : Frontier) (a : Step) : Bool :=
  (match a.grant? with
    | none => true
    | some g => decide (g ∈ s.grants)) &&
  (match a with
    | .updateStage _ stage _ _ => decide (stage ∈ workerStages)
    | _ => true)

/-- Rows and copies the step adds. -/
def addedRows (s : Frontier) : Step → List UrlCandidateModel
  | .observeDiscovery d =>
      if d.urlFingerprint ∈ s.rows.map (·.urlFingerprint) then [] else [admittedRow d]
  | _ => []

def addedGrants (s : Frontier) : Step → List Grant
  | .leaseDueCandidates w now limit secs locked =>
      leaseGrants w now secs (leaseSelect now limit locked s.rows)
  | _ => []

/-- One transaction. `none`: the caller holds no such copy, or the primary key of
the new row is taken and the transaction aborts. -/
def step (maxAttempts : ℕ) (s : Frontier) (a : Step) : Option Frontier :=
  if a.allowed s && (addedRows s a).all fun r => decide (r.id ∉ s.rows.map (·.id)) then
    some
      { rows := s.rows.map (rowAfter maxAttempts s a) ++ addedRows s a
        grants := s.grants ++ addedGrants s a }
  else none

variable {maxAttempts : ℕ} {s s' : Frontier} {a : Step}

theorem step_some (h : step maxAttempts s a = some s') :
    a.allowed s = true ∧ (∀ r ∈ addedRows s a, r.id ∉ s.rows.map (·.id)) ∧
      s'.rows = s.rows.map (rowAfter maxAttempts s a) ++ addedRows s a ∧
      s'.grants = s.grants ++ addedGrants s a := by
  unfold step at h
  split at h
  · rename_i hc
    rw [Bool.and_eq_true, List.all_eq_true] at hc
    cases h
    exact ⟨hc.1, fun r hr => by simpa using hc.2 r hr, rfl, rfl⟩
  · contradiction

theorem addedRows_eq {r : UrlCandidateModel} (hr : r ∈ addedRows s a) :
    ∃ d, a = .observeDiscovery d ∧ r = admittedRow d := by
  cases a with
  | observeDiscovery d =>
    simp only [addedRows] at hr
    split at hr
    · simp at hr
    · exact ⟨d, rfl, by simpa using hr⟩
  | _ => simp [addedRows] at hr

/-! ### What the row operations keep and write -/

@[simp] theorem markStage_id (r : UrlCandidateModel) (st : ArticleProcessingStage) (t : Timestamp) :
    (markStage r st t).id = r.id := rfl

@[simp] theorem markStage_state (r : UrlCandidateModel) (st : ArticleProcessingStage)
    (t : Timestamp) : (markStage r st t).state = r.state := rfl

@[simp] theorem markStage_stage (r : UrlCandidateModel) (st : ArticleProcessingStage)
    (t : Timestamp) : (markStage r st t).processingStage = r.processingStage := rfl

@[simp] theorem markStage_attempts (r : UrlCandidateModel) (st : ArticleProcessingStage)
    (t : Timestamp) : (markStage r st t).attemptCount = r.attemptCount := rfl

@[simp] theorem writeDuration_id (r : UrlCandidateModel) (t : Timestamp) :
    (writeDuration r t).id = r.id := by
  unfold writeDuration
  split <;> rfl

@[simp] theorem writeDuration_state (r : UrlCandidateModel) (t : Timestamp) :
    (writeDuration r t).state = r.state := by
  unfold writeDuration
  split <;> rfl

@[simp] theorem writeDuration_stage (r : UrlCandidateModel) (t : Timestamp) :
    (writeDuration r t).processingStage = r.processingStage := by
  unfold writeDuration
  split <;> rfl

@[simp] theorem writeDuration_attempts (r : UrlCandidateModel) (t : Timestamp) :
    (writeDuration r t).attemptCount = r.attemptCount := by
  unfold writeDuration
  split <;> rfl

theorem rowAfter_id (r : UrlCandidateModel) : (rowAfter maxAttempts s a r).id = r.id := by
  cases a <;> simp only [rowAfter] <;> split <;>
    simp [updateCandidateJobMetadata, leaseRow, startFetch, updateProcessingStage,
      completeSuccess, recordFailureRow, completeFailure, rejectBeforeFetch, cleanupRow]

/-- Copies of the row that the step hands out. -/
def pickCount (s : Frontier) (a : Step) (r : UrlCandidateModel) : ℕ :=
  match a with
  | .leaseDueCandidates _ now limit _ locked =>
      if r ∈ leaseSelect now limit locked s.rows then 1 else 0
  | _ => 0

/- Only the lease loop counts attempts. -/
theorem rowAfter_attempts (r : UrlCandidateModel) :
    (rowAfter maxAttempts s a r).attemptCount = r.attemptCount + pickCount s a r := by
  cases a <;> simp only [rowAfter, pickCount] <;> split <;>
    simp [updateCandidateJobMetadata, leaseRow, startFetch, updateProcessingStage,
      completeSuccess, recordFailureRow, completeFailure, rejectBeforeFetch, cleanupRow]

theorem leaseSelect_mem {now : Timestamp} {limit : ℕ} {locked : List Uuid}
    {rows : List UrlCandidateModel} {r : UrlCandidateModel}
    (h : r ∈ leaseSelect now limit locked rows) : r ∈ rows ∧ leaseDue now r = true := by
  have h1 := List.mem_of_mem_take h
  have h2 := List.mem_of_mem_filter h1
  rw [List.mem_insertionSort] at h2
  exact ⟨List.mem_of_mem_filter h2, List.of_mem_filter h2⟩

theorem leaseDue_state {now : Timestamp} {r : UrlCandidateModel} (h : leaseDue now r = true) :
    r.state.pending = true := by
  simp only [leaseDue, decide_eq_true_eq] at h
  rcases h with ⟨h | h, _⟩ | ⟨h, _⟩ <;> rw [h] <;> rfl

/-! ### Invariants of the reachable frontiers -/

/-- Copies of the candidate handed out so far. -/
def handedOut (s : Frontier) (id : Uuid) : ℕ := s.grants.countP fun g => g.candidate.id = id

/-- Ids are a key; every copy is of a stored row and carries an attempt number
not above the row's; the row counts its copies. -/
structure Coherent (s : Frontier) : Prop where
  ids : (s.rows.map (·.id)).Nodup
  known : ∀ g ∈ s.grants, g.candidate.id ∈ s.rows.map (·.id)
  older : ∀ g ∈ s.grants, ∀ r ∈ s.rows, r.id = g.candidate.id →
    g.candidate.attemptCount ≤ r.attemptCount
  counted : ∀ r ∈ s.rows, handedOut s r.id = r.attemptCount

theorem emptyFrontier_coherent : Coherent emptyFrontier where
  ids := List.nodup_nil
  known := by simp [emptyFrontier]
  older := by simp [emptyFrontier]
  counted := by simp [emptyFrontier]

theorem step_ids (h : step maxAttempts s a = some s') :
    s'.rows.map (·.id) = s.rows.map (·.id) ++ (addedRows s a).map (·.id) := by
  rw [(step_some h).2.2.1, List.map_append, List.map_map]
  congr 1
  apply List.map_congr_left
  intro r _
  exact rowAfter_id r

theorem leaseSelect_nodup {now : Timestamp} {limit : ℕ} {locked : List Uuid}
    {rows : List UrlCandidateModel} (h : (rows.map (·.id)).Nodup) :
    ((leaseSelect now limit locked rows).map (·.id)).Nodup := by
  have hsort : (((rows.filter (leaseDue now)).insertionSort fun a b => leaseOrder a b ≠ .gt).map
      (·.id)).Nodup :=
    ((List.perm_insertionSort _ _).map _).nodup_iff.mpr (h.sublist (List.filter_sublist.map _))
  exact hsort.sublist (((List.take_sublist _ _).trans List.filter_sublist).map _)

/- Among rows with distinct ids, the picked ones with the id of `r` are `r` or none. -/
theorem countP_picked {picked rows : List UrlCandidateModel} {r : UrlCandidateModel}
    (hids : (rows.map (·.id)).Nodup) (hpicked : (picked.map (·.id)).Nodup)
    (hsub : ∀ q ∈ picked, q ∈ rows) (hr : r ∈ rows) :
    picked.countP (fun q => q.id = r.id) = if r ∈ picked then 1 else 0 := by
  have hcount : picked.countP (fun q => q.id = r.id) = (picked.map (·.id)).count r.id := by
    rw [List.count, List.countP_map]
    apply List.countP_congr
    intro q _
    simp
  have hmem : r.id ∈ picked.map (·.id) ↔ r ∈ picked := by
    constructor
    · intro h
      obtain ⟨q, hq, he⟩ := List.mem_map.mp h
      rwa [← List.inj_on_of_nodup_map hids (hsub q hq) hr he]
    · exact List.mem_map_of_mem
  rw [hcount, hpicked.count, if_congr hmem rfl rfl]

theorem handedOut_step (hc : Coherent s) (h : step maxAttempts s a = some s')
    {r : UrlCandidateModel} (hr : r ∈ s.rows) :
    handedOut s' r.id = handedOut s r.id + pickCount s a r := by
  rw [handedOut, (step_some h).2.2.2, List.countP_append]
  cases a with
  | leaseDueCandidates w now limit secs locked =>
    simp only [addedGrants, leaseGrants, List.countP_map, handedOut, pickCount]
    congr 1
    exact countP_picked hc.ids (leaseSelect_nodup hc.ids) (fun q hq => (leaseSelect_mem hq).1) hr
  | _ => simp [addedGrants, handedOut, pickCount]

theorem addedGrants_row {g : Grant} (maxAttempts : ℕ) (hg : g ∈ addedGrants s a) :
    ∃ r ∈ s.rows, g.candidate.id = r.id ∧
      g.candidate.attemptCount = (rowAfter maxAttempts s a r).attemptCount := by
  cases a with
  | leaseDueCandidates w now limit secs locked =>
    simp only [addedGrants, leaseGrants, List.mem_map] at hg
    obtain ⟨r, hr, rfl⟩ := hg
    refine ⟨r, (leaseSelect_mem hr).1, rfl, ?_⟩
    simp only [rowAfter, if_pos hr]
    rfl
  | _ => simp [addedGrants] at hg

theorem step_coherent (hc : Coherent s) (h : step maxAttempts s a = some s') : Coherent s' := by
  obtain ⟨_, hnew, hrows, hgrants⟩ := step_some h
  have hids := step_ids h
  have hadded : ∀ r ∈ addedRows s a, handedOut s r.id = 0 := by
    intro r hr
    rw [handedOut, List.countP_eq_zero]
    intro g hg
    have hk := hc.known g hg
    simp only [decide_eq_true_eq]
    intro he
    exact hnew r hr (he ▸ hk)
  refine ⟨?_, ?_, ?_, ?_⟩
  · rw [hids, List.nodup_append]
    refine ⟨hc.ids, ?_, ?_⟩
    · cases a with
      | observeDiscovery d =>
        simp only [addedRows]
        split <;> simp
      | _ => simp [addedRows]
    · intro x hx y hy he
      obtain ⟨r, hr, rfl⟩ := List.mem_map.mp hy
      exact hnew r hr (he ▸ hx)
  · intro g hg
    rw [hids, List.mem_append]
    rw [hgrants, List.mem_append] at hg
    rcases hg with hg | hg
    · exact Or.inl (hc.known g hg)
    · obtain ⟨r, hr, he, _⟩ := addedGrants_row maxAttempts hg
      exact Or.inl (he ▸ List.mem_map_of_mem hr)
  · intro g hg r' hr' he
    rw [hgrants, List.mem_append] at hg
    rw [hrows, List.mem_append] at hr'
    have hgid : g.candidate.id ∈ s.rows.map (·.id) := by
      rcases hg with hg | hg
      · exact hc.known g hg
      · obtain ⟨q, hq, hqe, _⟩ := addedGrants_row maxAttempts hg
        exact hqe ▸ List.mem_map_of_mem hq
    rcases hr' with hr' | hr'
    · obtain ⟨r, hr, rfl⟩ := List.mem_map.mp hr'
      rw [rowAfter_id] at he
      rcases hg with hg | hg
      · have hle := hc.older g hg r hr he
        rw [rowAfter_attempts]
        omega
      · obtain ⟨q, hq, hqe, hqa⟩ := addedGrants_row maxAttempts hg
        have hqr : q = r := List.inj_on_of_nodup_map hc.ids hq hr (hqe.symm.trans he.symm)
        rw [hqa, hqr]
    · exact absurd (he ▸ hgid) (hnew r' hr')
  · intro r' hr'
    rw [hrows, List.mem_append] at hr'
    rcases hr' with hr' | hr'
    · obtain ⟨r, hr, rfl⟩ := List.mem_map.mp hr'
      rw [rowAfter_id, handedOut_step hc h hr, rowAfter_attempts, hc.counted r hr]
    · obtain ⟨d, rfl, rfl⟩ := addedRows_eq hr'
      have h0 := hadded _ hr'
      rw [handedOut, hgrants]
      simpa [addedGrants, handedOut, admittedRow] using h0

theorem reachable_coherent {as : List Step}
    (h : Runs.exec (step maxAttempts) emptyFrontier as = some s) : Coherent s :=
  Runs.invariant emptyFrontier_coherent (fun _ _ _ hm hn => step_coherent hm hn) h

/-! ### A run with a lost lease -/

/-- One admitted URL. -/
def sampleDiscovery : Discovery where
  id := 1
  publisherId := 7
  normalizedUrl := "https://example.com/news/2026/06/26/a-long-story-slug".toList
  urlFingerprint := [1]
  priorityScore := 1
  publishedAt := none
  observedAt := 0
  now := 0

/-- The copy of the `n`-th lease of the sample candidate. -/
def sampleGrant (workerId : Text) (n : ℕ) : Grant where
  workerId := workerId
  candidate :=
    { id := 1
      publisherId := 7
      normalizedUrl := sampleDiscovery.normalizedUrl
      attemptCount := n
      publishedAt := none
      firstDiscoveredAt := some 0 }

/-- Worker `a` leases the row and loses the lease to `b`, which completes it. -/
def overtakenRun : List Step :=
  [.observeDiscovery sampleDiscovery,
    .leaseDueCandidates "a".toList (seconds 1) 20 120 [],
    .startFetch (sampleGrant "a".toList 1) (seconds 2),
    .leaseDueCandidates "b".toList (seconds 200) 20 120 [],
    .startFetch (sampleGrant "b".toList 2) (seconds 201),
    .completeSuccess (sampleGrant "b".toList 2) 50 (seconds 203)]

end Newsintel.Articles
