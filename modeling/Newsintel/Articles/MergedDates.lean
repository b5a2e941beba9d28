import Mathlib.Data.List.MinMax
import Mathlib.Order.OrderDual
import Newsintel.Articles.FlushedCandidate
import Newsintel.Lib.UnlockedWrites

/-!
# The dates of a candidate that several channels observe

`update_candidate_job_metadata` lowers `first_discovered_at` and raises `published_at` on a
row that other transactions may have written since it was loaded.
-/

namespace Newsintel.Articles

open ArticleStore (setColumn)
open UnlockedWrites

local instance : Preorder Timestamp := Int.instLinearOrder.toPreorder

local instance : LinearOrder (WithBot Timestamp) :=
  @WithBot.linearOrder Timestamp Int.instLinearOrder

local instance : LinearOrder (WithTop Timestamp) :=
  @WithTop.linearOrder Timestamp Int.instLinearOrder

/-- One flush of `update_candidate_job_metadata`. -/
def mergeDiscovery (d : Discovery) (loaded current : UrlCandidateModel) : UrlCandidateModel :=
  flushRow loaded (updateCandidateJobMetadata d loaded) current

/-- A date column, with NULL below every date. -/
def nullFirst : Option Timestamp → WithBot Timestamp
  | none => ⊥
  | some t => t

/-- A date column, with NULL above every date. -/
def nullLast : Option Timestamp → WithTop Timestamp
  | none => ⊤
  | some t => t

/-- `published_at` only rises. -/
def publishedColumn : GrowingColumn mergeDiscovery (WithBot Timestamp) where
  value := fun r => nullFirst r.publishedAt
  offer := fun d => nullFirst d.publishedAt
  value_write := by
    intro d loaded current
    simp only [mergeDiscovery, flushRow, updateCandidateJobMetadata]
    cases d.publishedAt with
    | none => simp [setColumn, nullFirst]
    | some new =>
      cases loaded.publishedAt with
      | none => simp [setColumn, nullFirst]
      | some old =>
        by_cases hnew : old < new
        · simp [setColumn, nullFirst, hnew, hnew.ne', not_le.mpr hnew]
        · simp [setColumn, nullFirst, hnew, not_lt.mp hnew]

/-- `first_discovered_at` only falls. -/
def firstDiscoveredColumn : GrowingColumn mergeDiscovery (WithTop Timestamp)ᵒᵈ where
  value := fun r => OrderDual.toDual (nullLast r.firstDiscoveredAt)
  offer := fun d => OrderDual.toDual (d.observedAt : WithTop Timestamp)
  value_write := by
    intro d loaded current
    simp only [mergeDiscovery, flushRow, updateCandidateJobMetadata]
    cases loaded.firstDiscoveredAt with
    | none => simp [setColumn, nullLast]
    | some old =>
      by_cases hnew : d.observedAt < old
      · simp [setColumn, nullLast, hnew.ne, not_le.mpr hnew, min_eq_right hnew.le]
      · simp [setColumn, nullLast, not_lt.mp hnew]

section runs

variable {row : UrlCandidateModel} {s t : SharedRow Discovery UrlCandidateModel}
  {e : Event Discovery} {events : List (Event Discovery)}

/-- The minimum of the first value and of every observed one. -/
def earliestDiscovery (row : UrlCandidateModel) (merged : List Discovery) : WithTop Timestamp :=
  (row.firstDiscoveredAt.toList ++ merged.map (·.observedAt)).minimum

/-- The maximum of the first value and of every observed one that is not null. -/
def latestPublication (row : UrlCandidateModel) (merged : List Discovery) : WithBot Timestamp :=
  (row.publishedAt.toList ++ merged.filterMap (·.publishedAt)).maximum

/-- No observation is lost. -/
def DatesMerged (row : UrlCandidateModel) (s : SharedRow Discovery UrlCandidateModel) : Prop :=
  nullLast s.committed.firstDiscoveredAt = earliestDiscovery row s.merged ∧
    nullFirst s.committed.publishedAt = latestPublication row s.merged

/-- No flush puts a date in the place of a later `published_at`, or of an earlier
`first_discovered_at`, that was committed after the transaction had loaded the row. -/
def KeepsDates (s : SharedRow Discovery UrlCandidateModel) : Event Discovery → Prop
  | .load _ => True
  | .flush place => ∀ t ∈ s.reading[place]?,
      (nullLast t.loaded.firstDiscoveredAt ≤ t.op.observedAt ∨
        t.op.observedAt ≤ nullLast s.committed.firstDiscoveredAt) ∧
      (nullFirst t.op.publishedAt ≤ nullFirst t.loaded.publishedAt ∨
        nullFirst s.committed.publishedAt ≤ nullFirst t.op.publishedAt)

theorem keepsDates_iff :
    KeepsDates s e ↔ firstDiscoveredColumn.Fresh s e ∧ publishedColumn.Fresh s e := by
  cases e with
  | load d => exact iff_of_true trivial ⟨trivial, trivial⟩
  | flush place => exact forall₂_and

theorem earliestDiscovery_iff
    (h : Runs.exec (rowStep mergeDiscovery) (untouched row) events = some t) :
    Runs.Throughout (rowStep mergeDiscovery)
        (fun s => nullLast s.committed.firstDiscoveredAt = earliestDiscovery row s.merged)
        (untouched row) events ↔
      Runs.Every (rowStep mergeDiscovery) firstDiscoveredColumn.Fresh (untouched row) events := by
  refine firstDiscoveredColumn.throughout_best_iff
    (fun ops => OrderDual.toDual (earliestDiscovery row ops)) ?_ ?_ h
  · show earliestDiscovery row [] = nullLast row.firstDiscoveredAt
    unfold earliestDiscovery
    cases row.firstDiscoveredAt <;> rfl
  · intro ops d
    show earliestDiscovery row (ops ++ [d]) = min (earliestDiscovery row ops) d.observedAt
    rw [earliestDiscovery, List.map_append, ← List.append_assoc]
    exact List.minimum_concat d.observedAt _

theorem latestPublication_iff
    (h : Runs.exec (rowStep mergeDiscovery) (untouched row) events = some t) :
    Runs.Throughout (rowStep mergeDiscovery)
        (fun s => nullFirst s.committed.publishedAt = latestPublication row s.merged)
        (untouched row) events ↔
      Runs.Every (rowStep mergeDiscovery) publishedColumn.Fresh (untouched row) events := by
  refine publishedColumn.throughout_best_iff (latestPublication row) ?_ ?_ h
  · show latestPublication row [] = nullFirst row.publishedAt
    unfold latestPublication
    cases row.publishedAt <;> rfl
  · intro ops d
    show latestPublication row (ops ++ [d]) =
      max (latestPublication row ops) (nullFirst d.publishedAt)
    rw [latestPublication, List.filterMap_append, ← List.append_assoc]
    cases hd : d.publishedAt with
    | none => simp [hd, nullFirst, latestPublication]
    | some v =>
      simp only [List.filterMap_cons, hd, List.filterMap_nil]
      exact List.maximum_concat v _

/- Exact condition for a run of interleaved observations to lose none. -/
theorem datesMerged_iff (h : Runs.exec (rowStep mergeDiscovery) (untouched row) events = some t) :
    Runs.Throughout (rowStep mergeDiscovery) (DatesMerged row) (untouched row) events ↔
      Runs.Every (rowStep mergeDiscovery) KeepsDates (untouched row) events := by
  have hkeeps : Runs.Every (rowStep mergeDiscovery) KeepsDates (untouched row) events ↔
      Runs.Every (rowStep mergeDiscovery)
        (fun s e => firstDiscoveredColumn.Fresh s e ∧ publishedColumn.Fresh s e)
        (untouched row) events :=
    Runs.every_congr h fun _ _ _ _ => keepsDates_iff
  rw [hkeeps, Runs.every_and, ← earliestDiscovery_iff h, ← latestPublication_iff h]
  exact Runs.throughout_and

end runs

/-! ### Two channels -/

/-- What a channel brings that dates its item `published`. -/
def datedDiscovery (published observed : Timestamp) : Discovery :=
  { storyDiscovery with publishedAt := some published, observedAt := observed }

def observedStory : UrlCandidateModel := admittedRow (datedDiscovery 10 100)

/-- Two channels observe the story after each other. -/
def serialObservations : List (Event Discovery) :=
  [.load (datedDiscovery 30 300), .flush 0, .load (datedDiscovery 20 200), .flush 0]

/-- The second loads the story before the first one's flush. -/
def racingObservations : List (Event Discovery) :=
  [.load (datedDiscovery 30 300), .load (datedDiscovery 20 200), .flush 0, .flush 0]

theorem serialObservations_merged :
    ∃ t, Runs.exec (rowStep mergeDiscovery) (untouched observedStory) serialObservations = some t ∧
      (Runs.Throughout (rowStep mergeDiscovery) (DatesMerged observedStory) (untouched observedStory)
          serialObservations ↔
        Runs.Every (rowStep mergeDiscovery) KeepsDates (untouched observedStory)
          serialObservations) :=
  ⟨_, rfl, datesMerged_iff rfl⟩

/- The later publication date is lost. -/
theorem racingObservations_lost :
    ¬ ∀ (row : UrlCandidateModel) (events : List (Event Discovery))
      (t : SharedRow Discovery UrlCandidateModel),
      Runs.exec (rowStep mergeDiscovery) (untouched row) events = some t → DatesMerged row t := by
  intro h
  obtain ⟨-, hpublished⟩ := h observedStory racingObservations _ rfl
  revert hpublished
  decide

end Newsintel.Articles
