import Newsintel.ArticleStore.CompleteSuccess
import Newsintel.Lib.UnlockedWrites

/-!
# Confidence of an event that several articles are linked to

`_update_existing_event_from_assignment` raises `assignment_status` and
`last_material_change_at` of an event row that it has loaded without a lock.
-/

namespace Newsintel.ArticleStore

open UnlockedWrites

/-- The row of one event. -/
abbrev EventRow (eventId : Uuid) := { row : EventModel // row.id = eventId }

/-- What a `complete_success` that links its article brings to the event. -/
structure ArticleLink where
  state : EventAssignmentState
  observedAt : Timestamp
  completedAt : Timestamp

variable {eventId : Uuid}

/-- The event's row after the flush of a transaction that links an article to it. -/
def linkArticle (link : ArticleLink) (loaded current : EventRow eventId) : EventRow eventId where
  val := updateExistingEvent loaded link.state link.observedAt link.completedAt current
  property := by
    unfold updateExistingEvent
    split <;> exact current.2

/- This is the update that `complete_success` makes to an event it has decided for. -/
theorem chooseEvent_updateEvent {call : SuccessCall} {decision : EventAssignmentDecision}
    {eventAt : Db} {loaded : EventRow eventId} (hselected : decision.selectedEventId = some eventId)
    (hloaded : Table.get? EventModel.id eventId eventAt.events = some loaded.1)
    (current : EventRow eventId) :
    (chooseEvent call decision eventAt).updateEvent current =
      linkArticle ⟨decision.state, call.fetched.retrievedAt, call.completedAt⟩ loaded current := by
  simp only [chooseEvent, hselected, Option.bind_some, hloaded]
  rfl

theorem linkArticle_val (link : ArticleLink) (loaded current : EventRow eventId) :
    (linkArticle link loaded current).val =
      { current.val with
        lastMaterialChangeAt := setColumn loaded.val.lastMaterialChangeAt
          (max loaded.val.lastMaterialChangeAt link.observedAt) current.val.lastMaterialChangeAt
        updatedAt := setColumn loaded.val.updatedAt link.completedAt current.val.updatedAt
        assignmentStatus := setColumn loaded.val.assignmentStatus
          (strongerAssignmentStatus loaded.val.assignmentStatus link.state)
          current.val.assignmentStatus } :=
  if_pos (current.2.trans loaded.2.symm)

/-- `assignment_status` in the order of its ranking. -/
def statusColumn : GrowingColumn (@linkArticle eventId) ℕ where
  value := fun row => row.val.assignmentStatus.rank
  offer := fun link => link.state.rank
  value_write := by
    intro link loaded current
    rw [linkArticle_val]
    by_cases hrank : loaded.val.assignmentStatus.rank < link.state.rank
    · have hchanged : link.state ≠ loaded.val.assignmentStatus := by
        intro h
        rw [h] at hrank
        exact absurd hrank (lt_irrefl _)
      simp only [strongerAssignmentStatus, setColumn, if_pos hrank, if_neg hchanged,
        if_neg (not_le.mpr hrank)]
    · simp only [strongerAssignmentStatus, setColumn, if_neg hrank, if_pos, not_lt.mp hrank]

/-- `last_material_change_at` in the order of time. -/
def materialChangeColumn : GrowingColumn (@linkArticle eventId) Timestamp where
  value := fun row => row.val.lastMaterialChangeAt
  offer := fun link => link.observedAt
  value_write := by
    intro link loaded current
    rw [linkArticle_val]
    simp only [setColumn, max_eq_left_iff]
    split
    · rfl
    · rename_i hlater
      rw [max_eq_right (not_le.mp hlater).le]

section runs

variable {row : EventRow eventId} {s t : SharedRow ArticleLink (EventRow eventId)}
  {e : Event ArticleLink} {events : List (Event ArticleLink)}

/-- The maximum of the first value and of the observation times linked so far. -/
def latestChange (row : EventRow eventId) (merged : List ArticleLink) : Timestamp :=
  (merged.map (·.observedAt)).foldl max row.val.lastMaterialChangeAt

/-- No event lowers `assignment_status` or `last_material_change_at`. -/
def Rises (s : SharedRow ArticleLink (EventRow eventId)) (e : Event ArticleLink) : Prop :=
  ∀ s', rowStep linkArticle s e = some s' →
    s.committed.val.assignmentStatus.rank ≤ s'.committed.val.assignmentStatus.rank ∧
      s.committed.val.lastMaterialChangeAt ≤ s'.committed.val.lastMaterialChangeAt

/-- Neither column regresses, and the time of the last change is the latest one. -/
def ConfidenceHolds (row : EventRow eventId) (events : List (Event ArticleLink)) : Prop :=
  Runs.Every (rowStep linkArticle) Rises (untouched row) events ∧
    Runs.Throughout (rowStep linkArticle)
      (fun s => s.committed.val.lastMaterialChangeAt = latestChange row s.merged)
      (untouched row) events

/-- No flush puts a weaker status in the place of a stronger one, or a time in the place
of a later one, that was committed after the transaction had loaded the row. -/
def KeepsConfidence (s : SharedRow ArticleLink (EventRow eventId)) : Event ArticleLink → Prop
  | .load _ => True
  | .flush place => ∀ t ∈ s.reading[place]?,
      (t.op.state.rank ≤ t.loaded.val.assignmentStatus.rank ∨
        s.committed.val.assignmentStatus.rank ≤ t.op.state.rank) ∧
      (t.op.observedAt ≤ t.loaded.val.lastMaterialChangeAt ∨
        s.committed.val.lastMaterialChangeAt ≤ t.op.observedAt)

theorem keepsConfidence_iff :
    KeepsConfidence s e ↔ statusColumn.Fresh s e ∧ materialChangeColumn.Fresh s e := by
  cases e with
  | load link => exact iff_of_true trivial ⟨trivial, trivial⟩
  | flush place => exact forall₂_and

theorem rises_iff {s' : SharedRow ArticleLink (EventRow eventId)}
    (h : rowStep linkArticle s e = some s') :
    Rises s e ↔ statusColumn.Fresh s e ∧ materialChangeColumn.Fresh s e := by
  rw [← statusColumn.grows_iff_fresh h, ← materialChangeColumn.grows_iff_fresh h]
  constructor
  · intro hrises
    exact hrises s' h
  · intro hgrows s'' h'
    cases h.symm.trans h'
    exact hgrows

theorem latestChange_iff (h : Runs.exec (rowStep linkArticle) (untouched row) events = some t) :
    Runs.Throughout (rowStep linkArticle)
        (fun s => s.committed.val.lastMaterialChangeAt = latestChange row s.merged)
        (untouched row) events ↔
      Runs.Every (rowStep linkArticle) materialChangeColumn.Fresh (untouched row) events := by
  refine materialChangeColumn.throughout_best_iff (latestChange row) rfl ?_ h
  intro links link
  simp only [latestChange, List.map_append, List.foldl_append]
  rfl

/- Exact condition for a run of interleaved links to keep the event's confidence. -/
theorem confidenceHolds_iff (h : Runs.exec (rowStep linkArticle) (untouched row) events = some t) :
    ConfidenceHolds row events ↔
      Runs.Every (rowStep linkArticle) KeepsConfidence (untouched row) events := by
  have hrises : Runs.Every (rowStep linkArticle) Rises (untouched row) events ↔
      Runs.Every (rowStep linkArticle)
        (fun s e => statusColumn.Fresh s e ∧ materialChangeColumn.Fresh s e)
        (untouched row) events :=
    Runs.every_congr h fun _ _ _ hstep => rises_iff hstep
  have hkeeps : Runs.Every (rowStep linkArticle) KeepsConfidence (untouched row) events ↔
      Runs.Every (rowStep linkArticle)
        (fun s e => statusColumn.Fresh s e ∧ materialChangeColumn.Fresh s e)
        (untouched row) events :=
    Runs.every_congr h fun _ _ _ _ => keepsConfidence_iff
  rw [ConfidenceHolds, hrises, hkeeps, latestChange_iff h, Runs.every_and]
  constructor
  · intro hboth
    exact hboth.1
  · intro hfresh
    exact ⟨hfresh, hfresh.2⟩

end runs

/-! ### Two articles -/

def sampleEvent : EventRow 1 := ⟨newProvisionalEvent 1 "Story".toList 100, rfl⟩

/-- Two articles are linked after each other. -/
def serialLinks : List (Event ArticleLink) :=
  [.load ⟨.candidate, 200, 210⟩, .flush 0, .load ⟨.confirmed, 150, 220⟩, .flush 0]

/-- The second transaction loads the event before the first one's flush. -/
def racingLinks : List (Event ArticleLink) :=
  [.load ⟨.confirmed, 150, 220⟩, .load ⟨.candidate, 200, 230⟩, .flush 0, .flush 0]

theorem serialLinks_confidence :
    ∃ t, Runs.exec (rowStep linkArticle) (untouched sampleEvent) serialLinks = some t ∧
      (ConfidenceHolds sampleEvent serialLinks ↔
        Runs.Every (rowStep linkArticle) KeepsConfidence (untouched sampleEvent) serialLinks) :=
  ⟨_, rfl, confidenceHolds_iff rfl⟩

/- A confirmed event becomes a candidate again. -/
theorem racingLinks_regress :
    ¬ ∀ (eventId : Uuid) (row : EventRow eventId) (events : List (Event ArticleLink))
      (t : SharedRow ArticleLink (EventRow eventId)),
      Runs.exec (rowStep linkArticle) (untouched row) events = some t →
        ConfidenceHolds row events := by
  intro h
  obtain ⟨hrises, -⟩ := h 1 sampleEvent racingLinks _ rfl
  have hlast := hrises (racingLinks.take 3) (.flush 0) [] _ rfl rfl _ rfl
  revert hlast
  decide

end Newsintel.ArticleStore
