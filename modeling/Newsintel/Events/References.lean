import Newsintel.ArticleStore.CompleteSuccess
import Newsintel.Events.FeatureBounds

/-!
# References from the store (article_processing_repository.py:761-854)

`_load_recent_event_references` and `_decide_event` on a database: what `complete_success` takes
its decision from.
-/

namespace Newsintel.Events

open PyText
open Acquisition (Datetime toUtc minTimestamp maxTimestamp)
open ArticleStore (Db EventModel ArticleModel ArticleVersionModel)

/-- A row of the join of events, articles and versions. -/
structure JoinedRow where
  event : EventModel
  article : ArticleModel
  version : ArticleVersionModel

def joinedRows (db : Db) : List JoinedRow :=
  db.events.flatMap fun event =>
    (db.articles.filter (·.eventId = event.id)).flatMap fun article =>
      (db.versionsOf article.id).map fun version => ⟨event, article, version⟩

/-- The rows of the query, the newest versions first. The start of the window is taken to be a
`datetime`. -/
def recentRows (db : Db) (observedAt : Timestamp) : List JoinedRow :=
  (Ranking.ranked (·.version.createdAt) ((joinedRows db).filter fun row =>
    row.event.lifecycleStatus = "active".toList &&
      observedAt - hours (14 * 24) ≤ row.event.firstDetectedAt)).take 500

/-- A value of the dict `grouped`. -/
structure GroupedItem where
  title : Text
  firstDetectedAt : Timestamp
  latestObservedAt : Timestamp
  texts : List Text

/-- The item of an event, after one more row. -/
def GroupedItem.add (row : JoinedRow) (item : GroupedItem) : GroupedItem :=
  { item with
    latestObservedAt := max item.latestObservedAt row.article.firstObservedAt
    texts :=
      if item.texts.length < 3 then
        item.texts ++ [row.article.title ++ '\n' :: row.version.textContent.take 1500]
      else item.texts }

def newItem (row : JoinedRow) : GroupedItem :=
  ⟨row.event.title, row.event.firstDetectedAt, row.article.firstObservedAt, []⟩

/-- The loop over the rows; the events keep the order of their first rows. -/
def groupRows (rows : List JoinedRow) : List (Uuid × GroupedItem) :=
  rows.foldl (fun grouped row =>
    let item := ((grouped.lookup row.event.id).getD (newItem row)).add row
    Table.set row.event.id item grouped) []

/-- A column of type `timestamptz`, as it is loaded. -/
def aware (t : Timestamp) : Datetime := ⟨t, some 0⟩

def GroupedItem.reference (eventId : Uuid) (item : GroupedItem) : EventReference where
  eventId := eventId
  title := item.title
  text := ['\n'].intercalate item.texts
  firstDetectedAt := aware item.firstDetectedAt
  latestObservedAt := some (aware item.latestObservedAt)

def loadRecentEventReferences (db : Db) (observedAt : Timestamp) : List EventReference :=
  (groupRows (recentRows db observedAt)).map fun group => group.2.reference group.1

/-- The incoming article of a call. -/
def incomingProfile (p : ArticleStore.ArticleEventProfile) : ArticleEventProfile where
  title := p.title
  text := p.text
  publishedAt := p.publishedAt.map aware
  observedAt := some (aware p.observedAt)

/-- `published_at or observed_at`. -/
def eventTime (p : ArticleStore.ArticleEventProfile) : Timestamp := p.publishedAt.getD p.observedAt

/-- `_decide_event`, up to the decision. -/
def decideEvent (u : Unicode) (db : Db) (p : ArticleStore.ArticleEventProfile) :
    Except MatchingError EventAssignmentDecision :=
  (buildEventCandidates u (incomingProfile p) (loadRecentEventReferences db (eventTime p)) 20).map
    (decideEventAssignment defaultAssignmentPolicy)

/-- What `complete_success` uses of a decision. -/
def EventAssignmentDecision.record (d : EventAssignmentDecision) :
    ArticleStore.EventAssignmentDecision where
  state := d.state
  selectedEventId := d.selectedEventId
  selectedScore := d.selectedScore
  selectedFeatures :=
    ((d.candidates.find? fun c => d.selectedEventId = some c.eventId).map
      eventCandidateFeatures).getD []
  provisionalFeatures := provisionalEventFeatures d.candidates

/-- The choice of an event that `complete_success` makes. The lookup raises when a time is out of
the range of `datetime`, which `InRange` excludes where results use it; this function is total and
answers with a provisional decision there. -/
def decideForStore (u : Unicode) : ArticleStore.DecideEvent := fun db p =>
  match decideEvent u db p with
  | .ok d => d.record
  | .error _ => ⟨.provisional, none, none, [], []⟩

/-! ### Times in range -/

/-- A `datetime` in UTC. -/
def InRange (t : Timestamp) : Prop := minTimestamp ≤ t ∧ t ≤ maxTimestamp

instance (t : Timestamp) : Decidable (InRange t) := inferInstanceAs (Decidable (_ ∧ _))

variable {t : Timestamp} {rows : List JoinedRow} {db : Db}

theorem toUtc_aware (h : InRange t) : toUtc (aware t) = .ok t := by
  have hoffset : t - 0 = t := sub_zero t
  rw [toUtc, aware]
  simp only [hoffset]
  exact if_pos h

theorem representable_aware (h : InRange t) : Representable (some (aware t)) := by
  rintro d ⟨⟩
  exact ⟨t, toUtc_aware h⟩

theorem eventTime_eq (p : ArticleStore.ArticleEventProfile) :
    (incomingProfile p).publishedAt.or (incomingProfile p).observedAt =
      some (aware (eventTime p)) := by
  rw [incomingProfile, eventTime]
  cases p.publishedAt <;> rfl

/-- The times of a group exist. -/
def GroupedItem.InRange (item : GroupedItem) : Prop :=
  Events.InRange item.firstDetectedAt ∧ Events.InRange item.latestObservedAt

/-- The times of a row exist. -/
def JoinedRow.InRange (row : JoinedRow) : Prop :=
  Events.InRange row.event.firstDetectedAt ∧ Events.InRange row.article.firstObservedAt

theorem GroupedItem.add_inRange {row : JoinedRow} {item : GroupedItem} (hrow : row.InRange)
    (h : item.InRange) : (item.add row).InRange := by
  refine ⟨h.1, ?_⟩
  show Events.InRange (max item.latestObservedAt row.article.firstObservedAt)
  obtain hmax | hmax := max_choice item.latestObservedAt row.article.firstObservedAt
  · rw [hmax]
    exact h.2
  · rw [hmax]
    exact hrow.2

/- A group is as far in range as its rows. -/
theorem groupRows_inRange (h : ∀ row ∈ rows, row.InRange) :
    ∀ group ∈ groupRows rows, group.2.InRange := by
  induction rows using List.reverseRecOn with
  | nil => exact List.forall_mem_nil _
  | append_singleton rows row ih =>
    rw [List.forall_mem_append, List.forall_mem_singleton] at h
    obtain ⟨hrows, hrow⟩ := h
    have hgroups := ih hrows
    have hitem : (((groupRows rows).lookup row.event.id).getD (newItem row)).InRange := by
      cases hlookup : (groupRows rows).lookup row.event.id with
      | none => exact hrow
      | some item => exact hgroups _ (Table.mem_of_lookup hlookup)
    intro group hgroup
    rw [groupRows, List.foldl_append] at hgroup
    obtain rfl | hgroup := Table.mem_set hgroup
    · exact GroupedItem.add_inRange hrow hitem
    · exact hgroups group hgroup

theorem mem_joinedRows {row : JoinedRow} (h : row ∈ joinedRows db) :
    row.event ∈ db.events ∧ row.article ∈ db.articles := by
  obtain ⟨event, hevent, hrow⟩ := List.mem_flatMap.mp h
  obtain ⟨article, harticle, hrow⟩ := List.mem_flatMap.mp hrow
  obtain ⟨version, _, rfl⟩ := List.mem_map.mp hrow
  exact ⟨hevent, (List.mem_filter.mp harticle).1⟩

end Newsintel.Events
