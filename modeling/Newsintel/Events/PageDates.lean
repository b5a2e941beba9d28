import Newsintel.Acquisition.FeedDates
import Newsintel.Events.Republication
import Newsintel.Extractors.ExtractArticle

/-!
# Dates of pages (article_processing_repository.py:761-813)

A date that `_parse_datetime` returns becomes the `published_at` of an article. The event lookup
subtracts the window of 14 days from it as it stands, the driver sends what is left to the database
in UTC, and the date itself is converted to UTC for every reference.
-/

namespace Newsintel.Events

open PyText
open Acquisition (Datetime Parsers toUtc minTimestamp maxTimestamp)
open ArticleStore (Db)
open Extractors (parseDatetime assumeUtc)

/-! ### The lookup with an aware date -/

/-- `observed_at - timedelta(days=lookback_days)`, within the years 1 to 9999. -/
def windowStart (observedAt : Datetime) : Except MatchingError Datetime :=
  let wall := observedAt.wall - hours (14 * 24)
  if InRange wall then .ok { observedAt with wall } else .error .overflowError

/-- The parameter of `first_detected_at >= window_start`: the driver encodes an aware datetime
by its instant in UTC. -/
def windowParameter (observedAt : Datetime) : Except MatchingError Timestamp := do
  inUtc (← windowStart observedAt)

/-- The rows of the query from the start of the window, the newest versions first. -/
def rowsSince (db : Db) (start : Timestamp) : List JoinedRow :=
  (Ranking.ranked (·.version.createdAt) ((joinedRows db).filter fun row =>
    row.event.lifecycleStatus = "active".toList && start ≤ row.event.firstDetectedAt)).take 500

def referencesSince (db : Db) (start : Timestamp) : List EventReference :=
  (groupRows (rowsSince db start)).map fun group => group.2.reference group.1

/-- `_decide_event` on dates with any offset. -/
def decideEventAt (u : Unicode) (db : Db) (title text : Text) (publishedAt : Option Datetime)
    (observedAt : Datetime) : Except MatchingError EventAssignmentDecision := do
  let start ← windowParameter (publishedAt.getD observedAt)
  let candidates ← buildEventCandidates u ⟨title, text, publishedAt, some observedAt⟩
    (referencesSince db start) 20
  return decideEventAssignment defaultAssignmentPolicy candidates

variable {u : Unicode} {db : Db} {d : Datetime} {t : Timestamp}

theorem windowStart_ok_iff {start : Datetime} :
    windowStart d = .ok start ↔
      InRange (d.wall - hours (14 * 24)) ∧ start = { d with wall := d.wall - hours (14 * 24) } := by
  simp only [windowStart]
  split
  · rename_i hrange
    simp only [hrange, true_and, Except.ok.injEq]
    exact eq_comm
  · rename_i hrange
    simp only [hrange, false_and, reduceCtorEq]

theorem windowStart_instant :
    ({ d with wall := d.wall - hours (14 * 24) } : Datetime).instant =
      d.instant - hours (14 * 24) := by
  simp only [Datetime.instant]
  exact sub_right_comm _ _ _

theorem inUtc_aware_iff {offset : ℤ} (hoffset : d.utcoffset = some offset) :
    inUtc d = .ok t ↔ InRange d.instant ∧ t = d.instant := by
  have htoUtc : toUtc d = .ok t ↔ InRange d.instant ∧ t = d.instant := by
    rw [Acquisition.toUtc_ok_iff, Datetime.HasUtc, hoffset]
    simp only [reduceCtorEq, false_or]
    rfl
  rw [← htoUtc, inUtc]
  cases toUtc d with
  | ok t => simp
  | error e => simp

/- The window must start within the calendar, on the clock of the date and in UTC. -/
theorem windowParameter_ok_iff {offset : ℤ} (hoffset : d.utcoffset = some offset) :
    windowParameter d = .ok t ↔ InRange (d.wall - hours (14 * 24)) ∧
      InRange (d.instant - hours (14 * 24)) ∧ t = d.instant - hours (14 * 24) := by
  have hstart : ({ d with wall := d.wall - hours (14 * 24) } : Datetime).utcoffset = some offset :=
    hoffset
  rw [← windowStart_instant]
  constructor
  · intro h
    obtain ⟨start, hwindow, h⟩ := bind_ok h
    obtain ⟨hwall, rfl⟩ := windowStart_ok_iff.mp hwindow
    exact ⟨hwall, (inUtc_aware_iff hstart).mp h⟩
  · rintro ⟨hwall, hinstant⟩
    rw [windowParameter, windowStart_ok_iff.mpr ⟨hwall, rfl⟩, ok_bind]
    exact (inUtc_aware_iff hstart).mpr hinstant

theorem bind_pure_map {ε α β : Type} (x : Except ε α) (f : α → β) :
    (x >>= fun a => pure (f a)) = x.map f := by
  cases x <;> rfl

/- On dates in UTC it is the lookup of the store. -/
theorem decideEventAt_aware (p : ArticleStore.ArticleEventProfile)
    (hwindow : InRange (eventTime p - hours (14 * 24))) :
    decideEventAt u db p.title p.text (p.publishedAt.map aware) (aware p.observedAt) =
      decideEvent u db p := by
  have htime : (p.publishedAt.map aware).getD (aware p.observedAt) = aware (eventTime p) := by
    rw [eventTime]
    cases p.publishedAt <;> rfl
  have hinstant : (aware (eventTime p)).instant = eventTime p := sub_zero (eventTime p)
  have hstart : windowParameter (aware (eventTime p)) = .ok (eventTime p - hours (14 * 24)) := by
    rw [windowParameter_ok_iff rfl, hinstant]
    exact ⟨hwindow, hwindow, rfl⟩
  rw [decideEventAt, htime, hstart, ok_bind, bind_pure_map]
  rfl

/-! ### What a candidate needs -/

theorem temporalCompatibility_ok {left right : Datetime} {q : ℚ}
    (h : temporalCompatibility (some left) (some right) = .ok q) : ∃ t, toUtc left = .ok t := by
  simp only [temporalCompatibility] at h
  obtain ⟨t, ht, _⟩ := bind_ok h
  cases hleft : toUtc left with
  | ok t => exact ⟨t, rfl⟩
  | error e =>
    rw [inUtc, hleft] at ht
    cases ht

/- A candidate has a temporal feature, so the incoming time has an instant in UTC. -/
theorem representable_of_candidate {incoming : ArticleEventProfile} {reference : EventReference}
    {c : EventCandidate} (hincoming : incoming.publishedAt.or incoming.observedAt = some d)
    (h : candidateForReference u incoming reference = .ok c) : ∃ t, toUtc d = .ok t := by
  rw [candidateForReference] at h
  obtain ⟨f, hf, _⟩ := bind_ok h
  rw [featuresForReference] at hf
  obtain ⟨_, _, hf⟩ := bind_ok hf
  obtain ⟨_, _, hf⟩ := bind_ok hf
  obtain ⟨_, _, hf⟩ := bind_ok hf
  obtain ⟨_, _, hf⟩ := bind_ok hf
  obtain ⟨_, _, hf⟩ := bind_ok hf
  obtain ⟨temporal, htemporal, _⟩ := bind_ok hf
  have hexisting : reference.profile.observedAt.or (some reference.firstDetectedAt) =
      some (reference.latestObservedAt.getD reference.firstDetectedAt) := rfl
  rw [hincoming, hexisting] at htemporal
  exact temporalCompatibility_ok htemporal

theorem candidate_of_candidates {incoming : ArticleEventProfile}
    {references : List EventReference} {all : List EventCandidate}
    (h : candidatesForReferences u incoming references = .ok all) :
    ∀ reference ∈ references, ∃ c, candidateForReference u incoming reference = .ok c := by
  induction references generalizing all with
  | nil => exact List.forall_mem_nil _
  | cons reference references ih =>
    rw [candidatesForReferences] at h
    obtain ⟨c, hc, h⟩ := bind_ok h
    obtain ⟨cs, hcs, _⟩ := bind_ok h
    exact List.forall_mem_cons.mpr ⟨⟨c, hc⟩, ih hcs⟩

/-! ### References in the window -/

/-- An active event with an article was detected since the start of the window. -/
def HasRecent (db : Db) (start : Timestamp) : Prop :=
  ∃ row ∈ joinedRows db, row.event.lifecycleStatus = "active".toList ∧
    start ≤ row.event.firstDetectedAt

theorem mem_rowsSince {row : JoinedRow} (h : row ∈ rowsSince db t) : row ∈ joinedRows db :=
  (List.mem_filter.mp (Ranking.mem_ranked.mp (List.mem_of_mem_take h))).1

theorem rowsSince_ne_nil_iff : rowsSince db t ≠ [] ↔ HasRecent db t := by
  have htake : ∀ rows : List JoinedRow, rows.take 500 ≠ [] ↔ ∃ row, row ∈ rows := by
    intro rows
    cases rows with
    | nil => simp
    | cons row rows => simp
  rw [rowsSince, htake, HasRecent]
  simp only [Ranking.mem_ranked, List.mem_filter, Bool.and_eq_true, decide_eq_true_eq]

theorem set_ne_nil {k : Uuid} {item : GroupedItem} {grouped : List (Uuid × GroupedItem)} :
    Table.set k item grouped ≠ [] := by
  rw [Table.set]
  split
  · rename_i hmem
    intro hnil
    rw [List.map_eq_nil_iff] at hnil
    rw [hnil] at hmem
    cases hmem
  · exact List.append_ne_nil_of_right_ne_nil _ (List.cons_ne_nil _ _)

theorem groupRows_ne_nil {rows : List JoinedRow} (h : rows ≠ []) : groupRows rows ≠ [] := by
  obtain ⟨before, row, rfl⟩ := List.eq_nil_or_concat rows |>.resolve_left h
  rw [groupRows, List.concat_eq_append, List.foldl_append]
  exact set_ne_nil

/- The times of the references are those of the store. -/
theorem representable_since (hevents : ∀ event ∈ db.events, InRange event.firstDetectedAt)
    (harticles : ∀ article ∈ db.articles, InRange article.firstObservedAt) :
    ∀ reference ∈ referencesSince db t, Representable (some reference.firstDetectedAt) ∧
      Representable reference.latestObservedAt := by
  have hrows : ∀ row ∈ rowsSince db t, row.InRange := by
    intro row hrow
    obtain ⟨hevent, harticle⟩ := mem_joinedRows (mem_rowsSince hrow)
    exact ⟨hevents _ hevent, harticles _ harticle⟩
  intro reference hreference
  obtain ⟨group, hgroup, rfl⟩ := List.mem_map.mp hreference
  obtain ⟨hdetected, hobserved⟩ := groupRows_inRange hrows group hgroup
  exact ⟨representable_aware hdetected, representable_aware hobserved⟩

/-! ### When the lookup completes -/

/- Every date of a page is aware. -/
theorem parseDatetime_aware {parsers : Parsers} {value : Option Text}
    (h : parseDatetime parsers value = .ok (some d)) : ∃ parsed, d = assumeUtc parsed := by
  unfold parseDatetime at h
  split at h
  · cases h
  · split at h
    · cases h
      exact ⟨_, rfl⟩
    · split at h
      · split at h
        · cases h
          exact ⟨_, rfl⟩
        · split at h <;> cases h
      · cases h

theorem toUtc_aware_iff (parsed : Datetime) :
    (∃ t, toUtc (assumeUtc parsed) = .ok t) ↔ InRange (assumeUtc parsed).instant := by
  constructor
  · rintro ⟨t, ht⟩
    obtain ⟨hnone | hrange, _⟩ := Acquisition.toUtc_ok_iff.mp ht
    · cases hnone
    · exact hrange
  · intro hrange
    exact ⟨_, Acquisition.toUtc_of_hasUtc (Or.inr hrange)⟩

/- The window must start in the year 1 or later, on the clock of the date and in UTC, and with an
event in it the date itself must lie within the years 1 to 9999 in UTC. -/
theorem pageDate_decided_iff (u : Unicode) (parsers : Parsers) (value : Option Text)
    (d : Datetime) (hparsed : parseDatetime parsers value = .ok (some d)) (db : Db)
    (hevents : ∀ event ∈ db.events, InRange event.firstDetectedAt)
    (harticles : ∀ article ∈ db.articles, InRange article.firstObservedAt)
    (title text : Text) (observedAt : Datetime) :
    (∃ decision, decideEventAt u db title text (some d) observedAt = .ok decision) ↔
      InRange (d.wall - hours (14 * 24)) ∧ InRange (d.instant - hours (14 * 24)) ∧
        (HasRecent db (d.instant - hours (14 * 24)) → InRange d.instant) := by
  obtain ⟨parsed, rfl⟩ := parseDatetime_aware hparsed
  rw [← toUtc_aware_iff, ← rowsSince_ne_nil_iff]
  constructor
  · rintro ⟨decision, hdecision⟩
    rw [decideEventAt] at hdecision
    obtain ⟨start, hstart, hdecision⟩ := bind_ok hdecision
    obtain ⟨hwall, hwindow, rfl⟩ := (windowParameter_ok_iff rfl).mp hstart
    refine ⟨hwall, hwindow, fun hrows => ?_⟩
    obtain ⟨group, hgroup⟩ := List.exists_mem_of_ne_nil _ (groupRows_ne_nil hrows)
    obtain ⟨candidates, hcandidates, _⟩ := bind_ok hdecision
    rw [buildEventCandidates, ← bind_pure_map] at hcandidates
    obtain ⟨all, hall, _⟩ := bind_ok hcandidates
    obtain ⟨c, hc⟩ := candidate_of_candidates hall _ (List.mem_map_of_mem hgroup)
    exact representable_of_candidate rfl hc
  · rintro ⟨hwall, hwindow, hinstant⟩
    have htimes : ∀ reference ∈ referencesSince db ((assumeUtc parsed).instant - hours (14 * 24)),
        TimesRepresentable ⟨title, text, some (assumeUtc parsed), some observedAt⟩ reference := by
      intro reference hreference
      obtain ⟨hdetected, hobserved⟩ := representable_since hevents harticles reference hreference
      refine ⟨?_, hdetected, hobserved⟩
      rintro d ⟨⟩
      apply hinstant
      rintro hnil
      rw [referencesSince, hnil] at hreference
      cases hreference
    obtain ⟨all, hall⟩ := candidatesForReferences_ok u htimes
    rw [decideEventAt, Option.getD_some,
      (windowParameter_ok_iff rfl).mpr ⟨hwall, hwindow, rfl⟩]
    simp only [ok_bind, buildEventCandidates, hall]
    exact ⟨_, rfl⟩

/-! ### Two dates of pages -/

/-- `fromisoformat` on a date of 2026, and on a placeholder. -/
def twoDates : Parsers where
  fromstring := fun _ => .error .valueError
  htmlCallbacks := fun _ => []
  fromisoformat := fun text =>
    if text = "2026-06-26T14:30:00+05:30".toList then .ok launchTime
    else if text = "0001-01-01".toList then .ok ⟨minTimestamp, none⟩
    else .error .valueError
  parsedateToDatetime := fun _ => .error .valueError

theorem launchTime_decided : ∃ decision,
    decideEventAt asciiUnicode (copyStore launchCopy) launchCopy.title launchCopy.text
      (some launchTime) (aware launchCopy.observedAt) = .ok decision :=
  (pageDate_decided_iff asciiUnicode twoDates (some "2026-06-26T14:30:00+05:30".toList) launchTime
    (by decide) (copyStore launchCopy) (by decide) (by decide) launchCopy.title launchCopy.text
    (aware launchCopy.observedAt)).mpr ⟨by decide, by decide, fun _ => by decide⟩

/- The window of the first day of the calendar starts before it. -/
theorem placeholder_not_decided :
    ¬ ∀ (u : Unicode) (parsers : Parsers) (value : Option Text) (d : Datetime),
      parseDatetime parsers value = .ok (some d) →
        ∀ db : Db, (∀ event ∈ db.events, InRange event.firstDetectedAt) →
          (∀ article ∈ db.articles, InRange article.firstObservedAt) →
            ∀ (title text : Text) (observedAt : Datetime),
              ∃ decision, decideEventAt u db title text (some d) observedAt = .ok decision := by
  intro h
  obtain ⟨decision, hdecision⟩ := h asciiUnicode twoDates (some "0001-01-01".toList)
    (assumeUtc ⟨minTimestamp, none⟩) (by decide) (ArticleStore.newDb [])
    (List.forall_mem_nil _) (List.forall_mem_nil _) [] [] (aware 0)
  have hstart : windowParameter (assumeUtc ⟨minTimestamp, none⟩) = .error .overflowError := by
    decide
  rw [decideEventAt, Option.getD_some, hstart] at hdecision
  cases hdecision

end Newsintel.Events
