import Newsintel.Articles.CandidateRuns
import Newsintel.Articles.LeaseColumns

/-!
# State and processing stage

Leasing reads `state`, the status endpoint counts `processing_stage`. A lease, a
completion and a cleanup write both columns. `start_fetch` and
`update_processing_stage` load the row without a lock and flush the stage of
whatever it has become by then, so the columns stay in agreement exactly along the
runs in which each flush of a new stage finds its row leased.
-/

namespace Newsintel.Articles

open ArticleStore (setColumn)
open UnlockedWrites

/-- Stages that go with a state; the mapping of migration 0008 with the stages a
worker passes through while it holds the lease. -/
def stagesOf : UrlCandidateState → List ArticleProcessingStage
  | .ready => [.queued]
  | .leased => .leased :: workerStages
  | .retry => [.retryableFailure]
  | .processed => [.completed]
  | .failed => [.permanentFailure]
  | .rejected => [.rejected]

def Agrees (r : UrlCandidateModel) : Prop := r.processingStage ∈ stagesOf r.state

instance (r : UrlCandidateModel) : Decidable (Agrees r) :=
  inferInstanceAs (Decidable (_ ∈ _))

/-- The stage that goes with the state of a completion. -/
def Completion.stage : Completion → ArticleProcessingStage
  | .success .. => .completed
  | .failure _ _ _ _ terminal => failureStage terminal
  | .rejected .. => .rejected

/-- `update_processing_stage` is called with a stage of the worker. -/
def CandidateOp.called : CandidateOp → Bool
  | .updateProcessingStage stage _ _ => decide (stage ∈ workerStages)
  | _ => true

/-- An operation as its callers start it, at any time. -/
abbrev CalledOp := {op : CandidateOp // op.called = true}

def writeCalled (op : CalledOp) : UrlCandidateModel → UrlCandidateModel → UrlCandidateModel :=
  writeCandidate op.1

/-- The stage that is assigned without a state. -/
def CandidateOp.stageWrite? : CandidateOp → Option ArticleProcessingStage
  | .startFetch .. => some .fetching
  | .updateProcessingStage stage _ _ => some stage
  | _ => none

/-- At the flush of a stage write the row is leased, unless it was loaded with that stage
already and the UPDATE leaves the column out. -/
def WritesLeased (s : SharedRow CalledOp UrlCandidateModel) : Event CalledOp → Prop
  | .load _ => True
  | .flush place => ∀ t ∈ s.reading[place]?, ∀ stage ∈ t.op.1.stageWrite?,
      s.committed.state = .leased ∨ t.loaded.processingStage = stage

instance (s : SharedRow CalledOp UrlCandidateModel) (e : Event CalledOp) :
    Decidable (WritesLeased s e) :=
  match e with
  | .load _ => isTrue trivial
  | .flush place => inferInstanceAs (Decidable (∀ t ∈ s.reading[place]?,
      ∀ stage ∈ t.op.1.stageWrite?,
        s.committed.state = .leased ∨ t.loaded.processingStage = stage))

variable {r loaded assigned current : UrlCandidateModel} {op : CandidateOp}
  {state state' : UrlCandidateState} {stage : ArticleProcessingStage}

/-! ### The two columns -/

/-- The columns that must agree. -/
def stageColumns (r : UrlCandidateModel) : UrlCandidateState × ArticleProcessingStage :=
  (r.state, r.processingStage)

theorem agrees_iff (h : stageColumns r = (state, stage)) : Agrees r ↔ stage ∈ stagesOf state := by
  obtain ⟨rfl, rfl⟩ := (Prod.mk.injEq ..).mp h
  exact Iff.rfl

theorem flushRow_stageColumns : stageColumns (flushRow loaded assigned current) =
    (setColumn loaded.state assigned.state current.state,
      setColumn loaded.processingStage assigned.processingStage current.processingStage) := rfl

/- A stage goes with one state only. -/
theorem stagesOf_inj (h : stage ∈ stagesOf state) (h' : stage ∈ stagesOf state') :
    state = state' := by
  cases state <;> cases state' <;> first | rfl | (simp [stagesOf, workerStages] at h h'; grind)

theorem workerStage_agrees (hs : stage ∈ workerStages) : stage ∈ stagesOf state ↔ state = .leased := by
  have hleased : stage ∈ stagesOf .leased := List.mem_cons_of_mem _ hs
  constructor
  · intro h
    exact stagesOf_inj h hleased
  · rintro rfl
    exact hleased

/-! ### What each operation does to them -/

theorem Completion.assign_stageColumns (c : Completion) (r : UrlCandidateModel) :
    stageColumns (c.assign r) = (c.state, c.stage) := by
  cases c <;>
    simp only [Completion.assign, completeSuccess, completeFailure, rejectBeforeFetch,
      stageColumns, markStage, writeDuration] <;>
    cases r.processingStartedAt <;> rfl

theorem Completion.stagesOf_state (c : Completion) : stagesOf c.state = [c.stage] := by
  cases c with
  | failure _ _ _ _ terminal => cases terminal <;> rfl
  | _ => rfl

/- A completion of a row whose columns agree writes both of them, or neither. -/
theorem complete_agrees (c : Completion) (hloaded : Agrees loaded) (hcurrent : Agrees current) :
    Agrees (writeCandidate (.complete c) loaded current) := by
  obtain ⟨hstate, hstage⟩ := (Prod.mk.injEq ..).mp (c.assign_stageColumns loaded)
  have hcolumns : stageColumns (writeCandidate (.complete c) loaded current) =
      (setColumn loaded.state c.state current.state,
        setColumn loaded.processingStage c.stage current.processingStage) := by
    rw [writeCandidate, flushRow_stageColumns, hstate, hstage]
  have hown : c.stage ∈ stagesOf c.state := c.stagesOf_state ▸ List.mem_singleton_self _
  rw [agrees_iff hcolumns]
  by_cases hsame : c.state = loaded.state
  · have hstage : c.stage = loaded.processingStage := by
      have hmem : loaded.processingStage ∈ stagesOf c.state := hsame ▸ hloaded
      rw [c.stagesOf_state] at hmem
      exact (List.mem_singleton.mp hmem).symm
    rw [setColumn, setColumn, if_pos hsame, if_pos hstage]
    exact hcurrent
  · have hstage : c.stage ≠ loaded.processingStage :=
      fun heq => hsame (stagesOf_inj hown (heq ▸ hloaded))
    rw [setColumn, setColumn, if_neg hsame, if_neg hstage]
    exact hown

theorem cleanupRow_agrees (c : Cleanup) (r : UrlCandidateModel) : Agrees (cleanupRow c r) := by
  have hcolumns : stageColumns (cleanupRow c r) =
      (if c.permanentFailure then .failed else .rejected,
        if c.permanentFailure then .permanentFailure else .rejected) := rfl
  rw [agrees_iff hcolumns]
  cases c.permanentFailure <;> decide

theorem admittedRow_agrees (d : Discovery) : Agrees (admittedRow d) := List.mem_singleton_self _

theorem leaseRow_agrees (workerId : Text) (now : Timestamp) (leaseSeconds : ℕ)
    (r : UrlCandidateModel) : Agrees (leaseRow workerId now leaseSeconds r) := List.mem_cons_self

/- Operations other than the two stage writes keep the columns in agreement. -/
theorem writeCandidate_agrees (hop : op.stageWrite? = none) (hloaded : Agrees loaded)
    (hcurrent : Agrees current) : Agrees (writeCandidate op loaded current) := by
  cases op with
  | observeDiscovery d =>
    have hcolumns : stageColumns (writeCandidate (.observeDiscovery d) loaded current) =
        stageColumns current := by
      rw [writeCandidate, flushRow_stageColumns]
      exact Prod.ext (if_pos rfl) (if_pos rfl)
    exact (agrees_iff hcolumns).mpr hcurrent
  | leaseDueCandidates workerId now leaseSeconds =>
    rw [writeCandidate]
    split
    · exact leaseRow_agrees workerId now leaseSeconds current
    · exact hcurrent
  | startFetch workerId startedAt => cases hop
  | updateProcessingStage stage occurredAt details => cases hop
  | complete c => exact complete_agrees c hloaded hcurrent
  | cleanupOldJobs c =>
    rw [writeCandidate]
    split
    · exact cleanupRow_agrees c current
    · exact hcurrent

/- A stage write leaves the state alone. -/
theorem stageWrite_columns (hop : op.stageWrite? = some stage) :
    stageColumns (writeCandidate op loaded current) =
      (current.state, setColumn loaded.processingStage stage current.processingStage) := by
  cases op with
  | startFetch workerId startedAt =>
    cases hop
    rw [writeCandidate, flushRow_stageColumns]
    exact Prod.ext (if_pos rfl) rfl
  | updateProcessingStage stage' occurredAt details =>
    cases hop
    rw [writeCandidate, flushRow_stageColumns]
    exact Prod.ext (if_pos rfl) rfl
  | observeDiscovery | leaseDueCandidates | complete | cleanupOldJobs => cases hop

theorem called_stageWrite (hcalled : op.called = true) (hop : op.stageWrite? = some stage) :
    stage ∈ workerStages := by
  cases op with
  | startFetch workerId startedAt =>
    cases hop
    decide
  | updateProcessingStage stage' occurredAt details =>
    cases hop
    exact of_decide_eq_true hcalled
  | observeDiscovery | leaseDueCandidates | complete | cleanupOldJobs => cases hop

theorem stageWrite_agrees_iff (hcalled : op.called = true) (hop : op.stageWrite? = some stage)
    (hcurrent : Agrees current) : Agrees (writeCandidate op loaded current) ↔
      current.state = .leased ∨ loaded.processingStage = stage := by
  rw [agrees_iff (stageWrite_columns hop), setColumn]
  split
  · rename_i hsame
    exact iff_of_true hcurrent (Or.inr hsame.symm)
  · rename_i hnew
    rw [workerStage_agrees (called_stageWrite hcalled hop)]
    exact ⟨Or.inl, fun h => h.resolve_right fun heq => hnew heq.symm⟩

/-! ### Runs -/

section runs

variable {d : Discovery} {s s' t : SharedRow CalledOp UrlCandidateModel} {e : Event CalledOp}
  {events : List (Event CalledOp)}

/-- Every transaction has loaded columns that agree. -/
def LoadsAgree (s : SharedRow CalledOp UrlCandidateModel) : Prop :=
  ∀ t ∈ s.reading, Agrees t.loaded

theorem step_loadsAgree (hloads : LoadsAgree s) (hs : Agrees s.committed)
    (h : rowStep writeCalled s e = some s') : LoadsAgree s' := by
  cases e with
  | load op =>
    cases h
    intro t ht
    rcases List.mem_append.mp ht with ht | ht
    · exact hloads t ht
    · rw [List.mem_singleton.mp ht]
      exact hs
  | flush place =>
    obtain ⟨t, -, rfl⟩ := Option.map_eq_some_iff.mp h
    intro t' ht'
    exact hloads t' (List.mem_of_mem_eraseIdx ht')

theorem step_agrees_iff (hloads : LoadsAgree s) (hs : Agrees s.committed)
    (h : rowStep writeCalled s e = some s') : Agrees s'.committed ↔ WritesLeased s e := by
  cases e with
  | load op =>
    cases h
    exact iff_of_true hs trivial
  | flush place =>
    obtain ⟨t, ht, rfl⟩ := Option.map_eq_some_iff.mp h
    simp only [WritesLeased, ht, Option.mem_def, Option.some.injEq, forall_eq']
    show Agrees (writeCandidate t.op.1 t.loaded s.committed) ↔ _
    cases hop : t.op.1.stageWrite? with
    | none =>
      refine iff_of_true ?_ fun _ hnone => by cases hnone
      exact writeCandidate_agrees hop (hloads t (List.mem_of_getElem? ht)) hs
    | some stage =>
      rw [stageWrite_agrees_iff t.op.2 hop hs]
      simp

/- Along every run of a row, the columns agree in every state exactly if every new stage of
`start_fetch` and `update_processing_stage` is flushed to a leased row. -/
theorem stagesAgree_iff_writesLeased (d : Discovery) (events : List (Event CalledOp))
    (t : SharedRow CalledOp UrlCandidateModel)
    (h : Runs.exec (rowStep writeCalled) (untouched (admittedRow d)) events = some t) :
    Runs.Throughout (rowStep writeCalled) (fun s => Agrees s.committed) (untouched (admittedRow d))
        events ↔
      Runs.Every (rowStep writeCalled) WritesLeased (untouched (admittedRow d)) events := by
  have hstart : LoadsAgree (untouched (admittedRow d)) := by
    intro t ht
    cases ht
  exact Runs.throughout_iff_every hstart (admittedRow_agrees d)
    (fun _ _ _ hloads hm _ hstep => step_loadsAgree hloads hm hstep)
    (fun _ _ _ hloads hm hstep => step_agrees_iff hloads hm hstep) h

end runs

/-! ### A late stage write -/

def called (op : CandidateOp) (h : op.called = true) : Event CalledOp := .load ⟨op, h⟩

/-- Worker `a` leases the row, loses the lease to `b`, and stores a stage of its own while `b`
holds the row; `b` completes it. -/
def overtakenWrites : List (Event CalledOp) :=
  [called (.leaseDueCandidates "a".toList (seconds 1) 120) rfl, .flush 0,
    called (.startFetch "a".toList (seconds 2)) rfl,
    called (.leaseDueCandidates "b".toList (seconds 200) 120) rfl, .flush 1, .flush 0,
    called (.complete (.success 50 (seconds 203))) rfl, .flush 0]

/-- The fetch of the overtaken worker returns after the row is processed. -/
def lateStageWrite : List (Event CalledOp) :=
  [called (.updateProcessingStage .fetched (seconds 204)
      ⟨some "a".toList, some "text/html".toList, none, none, none⟩) rfl, .flush 0]

theorem overtakenWrites_agree :
    Runs.Throughout (rowStep writeCalled) (fun s => Agrees s.committed)
      (untouched (admittedRow storyDiscovery)) overtakenWrites :=
  (stagesAgree_iff_writesLeased storyDiscovery overtakenWrites _ rfl).mpr
    (Runs.every_of_decide (by decide))

theorem lateStageWrite_disagrees :
    ¬ ∀ (d : Discovery) (events : List (Event CalledOp))
      (t : SharedRow CalledOp UrlCandidateModel),
      Runs.exec (rowStep writeCalled) (untouched (admittedRow d)) events = some t →
        Runs.Throughout (rowStep writeCalled) (fun s => Agrees s.committed)
          (untouched (admittedRow d)) events := by
  intro h
  have hagree := h storyDiscovery (overtakenWrites ++ lateStageWrite) _ rfl _ []
    _ (List.append_nil _).symm rfl
  revert hagree
  decide

end Newsintel.Articles
