import Newsintel.Articles.CandidateRuns
import Newsintel.Articles.FlushedCandidate
import Newsintel.ArticleStore.Integrity

/-!
# The frontier and the store in one database

A worker's transaction loads its candidate without a lock and flushes later the columns that it
has changed. In between, other transactions commit: leases, observations, the cleanup, and
`complete_success` of another worker, which writes the store as well. A worker acts through the
copies that it was handed, at any later time.
-/

namespace Newsintel.ArticleStore

open Newsintel.Articles PyText

structure Pipeline where
  store : Store
  grants : List Grant
  /-- what the open transactions of workers and observers have loaded -/
  loaded : List UrlCandidateModel

def emptyPipeline : Pipeline := ⟨newStore [], [], []⟩

def Pipeline.db (p : Pipeline) : Db := p.store.db

def Pipeline.frontier (p : Pipeline) : Frontier := ⟨p.db.candidates, p.grants⟩

def Store.setCandidates (s : Store) (candidates : List UrlCandidateModel) : Store :=
  { s with db := { s.db with candidates } }

/-- All but `complete_success`, which is the store's. -/
def ofFrontier : Articles.Step → Bool
  | .completeSuccess .. => false
  | _ => true

/-- The transactions with `session.get`; a lease locks its rows, the cleanup is one UPDATE. -/
def loadsCandidate : Articles.Step → Bool
  | .observeDiscovery _ | .startFetch .. | .updateStage .. | .recordFailure ..
  | .rejectBeforeFetch .. => true
  | .leaseDueCandidates .. | .completeSuccess .. | .cleanupOldJobs _ => false

inductive PipelineStep where
  /-- a transaction that nothing comes in between -/
  | frontier (maxAttempts : ℕ) (a : Articles.Step)
  | load (candidateId : Uuid)
  /-- the flush of what a transaction has assigned to the candidate that it has loaded -/
  | flush (maxAttempts : ℕ) (a : Articles.Step) (candidate : UrlCandidateModel)
  /-- `complete_success` for the copy of a worker -/
  | begin (call : SuccessCall)
  | read (i : ℕ)
  | commit (i : ℕ)

/-- The rows after the flush. -/
def flushed (maxAttempts : ℕ) (a : Articles.Step) (candidate : UrlCandidateModel)
    (rows : List UrlCandidateModel) : List UrlCandidateModel :=
  rows.map fun row =>
    if row.id = candidate.id then
      flushRow candidate (rowAfter maxAttempts ⟨rows, []⟩ a candidate) row
    else row

/-- The writes of a call, with the columns of the candidate that its flush names. -/
def flushedWrites (call : SuccessCall) (s : Snapshots) (w : Writes) : Writes :=
  { w with
    updateCandidate := fun row =>
      match Table.get? UrlCandidateModel.id call.candidate.id s.candidateAt.candidates with
      | none => row
      | some candidateRow =>
        if row.id = candidateRow.id then flushRow candidateRow (w.updateCandidate candidateRow) row
        else row }

def commitFlushed (u : Unicode) (decideEvent : DecideEvent) (call : SuccessCall) (s : Snapshots)
    (db : Db) : Db :=
  match completeSuccessWrites u decideEvent call s with
  | .error _ => db
  | .ok w =>
    match db.commit (flushedWrites call s w) with
    | .error _ => db
    | .ok db' => db'

/-- One step. `none`: the worker holds no such copy, or there is no such transaction. -/
def pipelineStep (u : Unicode) (decideEvent : DecideEvent) (p : Pipeline) :
    PipelineStep → Option Pipeline
  | .frontier maxAttempts a =>
    if ofFrontier a then
      (Articles.step maxAttempts p.frontier a).map fun f =>
        { p with store := p.store.setCandidates f.rows, grants := f.grants }
    else none
  | .load candidateId =>
    (Table.get? UrlCandidateModel.id candidateId p.db.candidates).map fun row =>
      { p with loaded := row :: p.loaded }
  | .flush maxAttempts a candidate =>
    if candidate ∈ p.loaded ∧ loadsCandidate a = true ∧ a.allowed p.frontier = true then
      some
        { p with
          store := p.store.setCandidates (flushed maxAttempts a candidate p.db.candidates)
          loaded := p.loaded.erase candidate }
    else none
  | .begin call =>
    if call.candidate ∈ p.grants.map (·.candidate) then
      (step u decideEvent p.store (.begin call)).map fun store => { p with store }
    else none
  | .read i => (step u decideEvent p.store (.read i)).map fun store => { p with store }
  | .commit i =>
    p.store.inFlight[i]?.bind fun t => (snapshots? t.reads).map fun snaps =>
      { p with
        store :=
          { db := commitFlushed u decideEvent t.call snaps p.db
            inFlight := p.store.inFlight.eraseIdx i } }

section steps

variable {u : Unicode} {decideEvent : DecideEvent} {p p' : Pipeline} {maxAttempts : ℕ}
  {a : Articles.Step} {r loaded : UrlCandidateModel}

/-! ### What the frontier leaves alone -/

/-- No article is given to the candidate, and it does not become processed. -/
structure Keeps (r r' : UrlCandidateModel) : Prop where
  id : r'.id = r.id
  publisherId : r'.publisherId = r.publisherId
  urlFingerprint : r'.urlFingerprint = r.urlFingerprint
  articleId : r'.articleId = r.articleId
  processed : r'.state = .processed → r.state = .processed

theorem Keeps.refl (r : UrlCandidateModel) : Keeps r r := ⟨rfl, rfl, rfl, rfl, fun h => h⟩

theorem writeDuration_keeps (r : UrlCandidateModel) (t : Timestamp) :
    Keeps r (writeDuration r t) := by
  unfold writeDuration
  split <;> exact ⟨rfl, rfl, rfl, rfl, fun h => h⟩

/- The end of the completions: the duration, and the stage. -/
theorem Keeps.completed {r r' : UrlCandidateModel} (h : Keeps r r') (t : Timestamp)
    (stage : ArticleProcessingStage) :
    Keeps r (markStage { writeDuration r' t with updatedAt := t } stage t) := by
  have hduration := writeDuration_keeps r' t
  exact ⟨hduration.id.trans h.id, hduration.publisherId.trans h.publisherId,
    hduration.urlFingerprint.trans h.urlFingerprint, hduration.articleId.trans h.articleId,
    fun hstate => h.processed (hduration.processed hstate)⟩

theorem completeFailure_keeps (completedAt : Timestamp) (errorType errorMessage : Text)
    (retryAt : Option Timestamp) (terminal : Bool) (r : UrlCandidateModel) :
    Keeps r (completeFailure completedAt errorType errorMessage retryAt terminal r) := by
  unfold completeFailure
  apply Keeps.completed
  refine ⟨rfl, rfl, rfl, rfl, ?_⟩
  intro hstate
  cases terminal <;> cases hstate

theorem rejectBeforeFetch_keeps (rejectedAt : Timestamp) (reason message : Text)
    (r : UrlCandidateModel) : Keeps r (rejectBeforeFetch rejectedAt reason message r) := by
  unfold rejectBeforeFetch
  apply Keeps.completed
  refine ⟨rfl, rfl, rfl, rfl, ?_⟩
  intro hstate
  cases hstate

theorem cleanupRow_keeps (c : Cleanup) (r : UrlCandidateModel) : Keeps r (cleanupRow c r) := by
  refine ⟨rfl, rfl, rfl, rfl, ?_⟩
  intro hstate
  simp only [cleanupRow] at hstate
  split at hstate <;> cases hstate

theorem rowAfter_keeps (ha : ofFrontier a = true) (s : Frontier) (r : UrlCandidateModel) :
    Keeps r (rowAfter maxAttempts s a r) := by
  cases a with
  | observeDiscovery d =>
    rw [rowAfter]
    split
    · exact ⟨rfl, rfl, rfl, rfl, id⟩
    · exact Keeps.refl r
  | leaseDueCandidates workerId now limit leaseSeconds locked =>
    rw [rowAfter]
    split
    · exact ⟨rfl, rfl, rfl, rfl, fun h => by cases h⟩
    · exact Keeps.refl r
  | startFetch g startedAt =>
    rw [rowAfter]
    split
    · exact ⟨rfl, rfl, rfl, rfl, id⟩
    · exact Keeps.refl r
  | updateStage g stage occurredAt details =>
    rw [rowAfter]
    split
    · exact ⟨rfl, rfl, rfl, rfl, id⟩
    · exact Keeps.refl r
  | completeSuccess g articleId completedAt => cases ha
  | recordFailure g nonRetryable errorType errorMessage retryAt completedAt =>
    rw [rowAfter]
    split
    · exact completeFailure_keeps _ _ _ _ _ r
    · exact Keeps.refl r
  | rejectBeforeFetch g reason message rejectedAt =>
    rw [rowAfter]
    split
    · exact rejectBeforeFetch_keeps _ _ _ r
    · exact Keeps.refl r
  | cleanupOldJobs c =>
    rw [rowAfter]
    split
    · exact cleanupRow_keeps c r
    · exact Keeps.refl r

theorem setColumn_of_eq {α : Type} [DecidableEq α] {read new current : α} (h : new = read) :
    setColumn read new current = current := if_pos h

/- A flush writes no column that the transaction has left as it was loaded. -/
theorem flushRow_keeps {assigned : UrlCandidateModel} (h : Keeps loaded assigned)
    (row : UrlCandidateModel) : Keeps row (flushRow loaded assigned row) where
  id := setColumn_of_eq h.id
  publisherId := setColumn_of_eq h.publisherId
  urlFingerprint := setColumn_of_eq h.urlFingerprint
  articleId := setColumn_of_eq h.articleId
  processed := by
    intro hstate
    rw [flushRow] at hstate
    simp only [setColumn] at hstate
    split at hstate
    · exact hstate
    · rename_i hchanged
      exact absurd (hstate.trans (h.processed hstate).symm) hchanged

theorem loadsCandidate_ofFrontier (h : loadsCandidate a = true) : ofFrontier a = true := by
  cases a <;> first | rfl | cases h

/-! ### Steps -/

/-- What a step writes to the candidates, and which copies it hands out. -/
structure FrontierWrites (p p' : Pipeline) (f : UrlCandidateModel → UrlCandidateModel)
    (admitted : Option Discovery) : Prop where
  store : p'.store = p.store.setCandidates
    (p.db.candidates.map f ++ (admitted.map admittedRow).toList)
  keeps : ∀ r, Keeps r (f r)
  newId : ∀ d, admitted = some d → d.id ∉ p.db.candidates.map (·.id)
  newFingerprint : ∀ d, admitted = some d →
    d.urlFingerprint ∉ p.db.candidates.map (·.urlFingerprint)
  grants : ∀ g ∈ p'.grants, g ∈ p.grants ∨
    ∃ r ∈ p.db.candidates, r.id = g.candidate.id ∧ r.publisherId = g.candidate.publisherId

/- The rows that an observation adds. -/
theorem addedRows_admitted (s : Frontier) (a : Articles.Step) :
    ∃ admitted : Option Discovery, addedRows s a = (admitted.map admittedRow).toList ∧
      ∀ d, admitted = some d → d.urlFingerprint ∉ s.rows.map (·.urlFingerprint) := by
  cases a with
  | observeDiscovery d =>
    rw [addedRows]
    split
    · exact ⟨none, rfl, fun d hd => by cases hd⟩
    · rename_i hnew
      exact ⟨some d, rfl, fun d' hd => Option.some.inj hd ▸ hnew⟩
  | _ => exact ⟨none, rfl, fun d hd => by cases hd⟩

theorem addedGrants_copies {s : Frontier} {g : Grant} (hg : g ∈ addedGrants s a) :
    ∃ r ∈ s.rows, r.id = g.candidate.id ∧ r.publisherId = g.candidate.publisherId := by
  cases a with
  | leaseDueCandidates workerId now limit leaseSeconds locked =>
    obtain ⟨r, hr, rfl⟩ := List.mem_map.mp hg
    exact ⟨r, (leaseSelect_mem hr).1, rfl, rfl⟩
  | _ => cases hg

theorem frontier_writes (h : pipelineStep u decideEvent p (.frontier maxAttempts a) = some p') :
    ∃ f admitted, FrontierWrites p p' f admitted := by
  rw [pipelineStep] at h
  split at h
  · rename_i ha
    obtain ⟨s, hs, rfl⟩ := Option.map_eq_some_iff.mp h
    obtain ⟨_, hnew, hrows, hgrants⟩ := step_some hs
    obtain ⟨admitted, hadded, hfingerprint⟩ := addedRows_admitted p.frontier a
    refine ⟨rowAfter maxAttempts p.frontier a, admitted, ?_, rowAfter_keeps ha _, ?_,
      hfingerprint, ?_⟩
    · rw [hrows, hadded]
      rfl
    · rintro d rfl
      exact hnew (admittedRow d) (hadded ▸ List.mem_singleton_self _)
    · intro g hg
      have hg : g ∈ s.grants := hg
      rw [hgrants] at hg
      exact (List.mem_append.mp hg).imp_right addedGrants_copies
  · cases h

theorem flush_writes
    (h : pipelineStep u decideEvent p (.flush maxAttempts a loaded) = some p') :
    ∃ f, FrontierWrites p p' f none := by
  rw [pipelineStep] at h
  split at h
  · rename_i hc
    obtain ⟨_, ha, _⟩ := hc
    cases h
    refine ⟨fun row => if row.id = loaded.id then
        flushRow loaded (rowAfter maxAttempts ⟨p.db.candidates, []⟩ a loaded) row else row,
      congrArg p.store.setCandidates (List.append_nil _).symm, ?_, ?_, ?_, fun g hg => Or.inl hg⟩
    · intro r
      split
      · exact flushRow_keeps (rowAfter_keeps (loadsCandidate_ofFrontier ha) _ loaded) r
      · exact Keeps.refl r
    · intro d hd
      cases hd
    · intro d hd
      cases hd
  · cases h

/-! ### The store alone -/

/- Constraints do not look at candidates, so the call commits or not as without the flush. -/
theorem commitFlushed_store (call : SuccessCall) (s : Snapshots) (db : Db) :
    commitFlushed u decideEvent call s db =
      { commitCall u decideEvent call s db with
        candidates := (commitFlushed u decideEvent call s db).candidates } := by
  unfold commitFlushed commitCall
  cases completeSuccessWrites u decideEvent call s with
  | error e => rfl
  | ok w =>
    simp only
    have hholds : ∀ c : UniqueConstraint,
        c.holds (db.apply (flushedWrites call s w)) = c.holds (db.apply w) :=
      fun c => c.holds_setCandidates (db.apply w) _
    cases hc : db.commit w with
    | ok db' =>
      obtain ⟨rfl, hall⟩ := commit_ok hc
      rw [commit_of_holds fun c => (hholds c).trans (hall c)]
      rfl
    | error c =>
      cases hc' : db.commit (flushedWrites call s w) with
      | error c' => rfl
      | ok db' =>
        obtain ⟨rfl, hall⟩ := commit_ok hc'
        rw [commit_of_holds fun c => (hholds c).symm.trans (hall c)] at hc
        cases hc

/- Each step is one of the store, but for the candidates. -/
theorem pipelineStep_refines {a : PipelineStep} (h : pipelineStep u decideEvent p a = some p') :
    ∃ steps, Runs.exec (step u decideEvent) p.store steps = some p'.store := by
  cases a with
  | frontier maxAttempts a =>
    obtain ⟨f, admitted, hwrites⟩ := frontier_writes h
    exact ⟨[.frontier _], congrArg some hwrites.store.symm⟩
  | load candidateId =>
    obtain ⟨row, _, rfl⟩ := Option.map_eq_some_iff.mp h
    exact ⟨[], rfl⟩
  | flush maxAttempts a loaded =>
    obtain ⟨f, hwrites⟩ := flush_writes h
    exact ⟨[.frontier _], congrArg some hwrites.store.symm⟩
  | begin call =>
    rw [pipelineStep] at h
    split at h
    · obtain ⟨store, hstore, rfl⟩ := Option.map_eq_some_iff.mp h
      exact ⟨[.begin call], Runs.exec_cons_some.mpr ⟨store, hstore, rfl⟩⟩
    · cases h
  | read i =>
    obtain ⟨store, hstore, rfl⟩ := Option.map_eq_some_iff.mp h
    exact ⟨[.read i], Runs.exec_cons_some.mpr ⟨store, hstore, rfl⟩⟩
  | commit i =>
    obtain ⟨t, ht, hcommit⟩ := Option.bind_eq_some_iff.mp h
    obtain ⟨snaps, hsnaps, rfl⟩ := Option.map_eq_some_iff.mp hcommit
    have hstore : step u decideEvent p.store (.commit i) = some
        { db := commitCall u decideEvent t.call snaps p.db
          inFlight := p.store.inFlight.eraseIdx i } :=
      Option.bind_eq_some_iff.mpr ⟨t, ht, Option.map_eq_some_iff.mpr ⟨snaps, hsnaps, rfl⟩⟩
    refine ⟨[.commit i, .frontier (commitFlushed u decideEvent t.call snaps p.db).candidates],
      Runs.exec_cons_some.mpr ⟨_, hstore, ?_⟩⟩
    rw [commitFlushed_store]
    rfl

theorem pipeline_refines {steps : List PipelineStep}
    (h : Runs.exec (pipelineStep u decideEvent) p steps = some p') :
    ∃ storeSteps, Runs.exec (step u decideEvent) p.store storeSteps = some p'.store := by
  induction steps generalizing p with
  | nil =>
    cases h
    exact ⟨[], rfl⟩
  | cons a steps ih =>
    obtain ⟨m, hm, hrest⟩ := Runs.exec_cons_some.mp h
    obtain ⟨first, hfirst⟩ := pipelineStep_refines hm
    obtain ⟨rest, hrest⟩ := ih hrest
    exact ⟨first ++ rest, Runs.exec_append_some.mpr ⟨m.store, hfirst, hrest⟩⟩

end steps

end Newsintel.ArticleStore
