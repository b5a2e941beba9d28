import Mathlib.Algebra.GroupWithZero.Nat
import Mathlib.Data.List.Dedup
import Mathlib.Data.List.Perm.Subperm
import Newsintel.Acquisition.ChannelRows
import Newsintel.Acquisition.FrontierSoundness
import Newsintel.ArticleStore.Tables

/-!
# The figures of a publisher and of a fetch job (application/sources/service.py)

The views count rows of the frontier, each count with a statement of its own. The model takes the
counts of one moment, so it says nothing of commits that fall between the statements of a view. In
every state that the frontier reaches they agree with what the outbox has published.
-/

namespace Newsintel.Sources

open Acquisition Articles ReadCommitted
open ArticleStore (ArticleModel)

/-! ### Views -/

/-- A row of `publishers` with the notes on its discovery. -/
structure PublisherRow extends PublisherModel where
  homepageUrl : Option Text
  discoveryStatus : Text
  discoveryMessage : Option Text

structure PublisherSourceView where
  id : Uuid
  name : Text
  slug : Text
  canonicalDomain : Text
  homepageUrl : Option Text
  fetchFrequency : FetchFrequency
  discoveryStatus : Text
  discoveryMessage : Option Text
  rssFeedCount : ℕ
  sitemapCount : ℕ
  lastFetchedAt : Option Timestamp
  articlesDiscovered : ℕ
  articlesExtracted : ℕ
  duplicatesSkipped : ℕ
  failedArticles : ℕ
  currentStatus : Text
  createdAt : Timestamp
  updatedAt : Timestamp
  deriving DecidableEq

/-- `url_discoveries JOIN url_candidates`. -/
def candidateDiscoveries (db : Database) : List (UrlDiscoveryModel × UrlCandidateModel) :=
  db.discoveries.flatMap fun d =>
    (db.candidates.filter fun r => r.id = d.urlCandidateId).map fun r => (d, r)

/-- `_publisher_discovered_count`. -/
def publisherDiscoveredCount (db : Database) (publisherId : Uuid) : ℕ :=
  db.candidates.countP (·.publisherId = publisherId)

/-- `_publisher_observation_count`. -/
def publisherObservationCount (db : Database) (publisherId : Uuid) : ℕ :=
  (candidateDiscoveries db).countP (·.2.publisherId = publisherId)

/-- `count_by_type.get(channel_type, 0)`. -/
def countByType (db : Database) (publisherId : Uuid) (channelType : DiscoveryChannelType) : ℕ :=
  db.channels.countP fun c =>
    c.publisherId = publisherId && c.active && c.channelType = channelType

/-- `state.in_(["failed", "rejected"])`. -/
def hasFailed (r : UrlCandidateModel) : Bool := r.state = .failed || r.state = .rejected

/-- `_publisher_source_view`, of one moment. -/
def publisherSourceView (db : Database) (articles : List ArticleModel)
    (publisher : PublisherRow) : PublisherSourceView where
  id := publisher.id
  name := publisher.name
  slug := publisher.slug
  canonicalDomain := publisher.canonicalDomain
  homepageUrl := publisher.homepageUrl
  fetchFrequency := publisher.fetchFrequency
  discoveryStatus := publisher.discoveryStatus
  discoveryMessage := publisher.discoveryMessage
  rssFeedCount := countByType db publisher.id .rss + countByType db publisher.id .atom
  sitemapCount := countByType db publisher.id .sitemap + countByType db publisher.id .newsSitemap
  lastFetchedAt := publisher.lastFetchedAt
  articlesDiscovered := publisherDiscoveredCount db publisher.id
  articlesExtracted := articles.countP (·.publisherId = publisher.id)
  -- a difference of naturals is `max(0, ...)`
  duplicatesSkipped :=
    publisherObservationCount db publisher.id - publisherDiscoveredCount db publisher.id
  failedArticles := db.candidates.countP fun r => r.publisherId = publisher.id && hasFailed r
  currentStatus := if publisher.active then "active".toList else "disabled".toList
  createdAt := publisher.createdAt
  updatedAt := publisher.updatedAt

/-- The counters of `_job_stats`. -/
structure JobStats where
  publishersProcessed : ℕ
  urlsDiscovered : ℕ
  articlesQueued : ℕ
  articlesExtracted : ℕ
  duplicatesSkipped : ℕ
  failedArticles : ℕ
  deriving DecidableEq

/-- `count(distinct ...)`. -/
def countDistinct (ids : List Uuid) : ℕ := ids.dedup.length

/-- `_job_stats`, of one moment. -/
def jobStats (db : Database) (articles : List ArticleModel) (publisherIds : List Uuid)
    (since : Timestamp) : JobStats :=
  let urlsDiscovered := countDistinct
    ((db.candidates.filter fun r => r.publisherId ∈ publisherIds && since ≤ r.createdAt).map (·.id))
  let observations := (candidateDiscoveries db).countP fun p =>
    p.2.publisherId ∈ publisherIds && since ≤ p.1.discoveredAt
  if publisherIds = [] then ⟨0, 0, 0, 0, 0, 0⟩
  else
    { publishersProcessed := countDistinct
        ((db.channels.filter fun c =>
          c.publisherId ∈ publisherIds && c.lastPolledAt.any (since ≤ ·)).map (·.publisherId))
      urlsDiscovered
      articlesQueued := urlsDiscovered
      articlesExtracted := articles.countP fun a =>
        a.publisherId ∈ publisherIds && since ≤ a.firstObservedAt
      duplicatesSkipped := observations - urlsDiscovered
      failedArticles := db.candidates.countP fun r =>
        r.publisherId ∈ publisherIds && hasFailed r && r.lastFetchAt.any (since ≤ ·) }

/-! ### Counts of the rows and counts of the events -/

/-- A `frontier.url_admitted` of the publisher. -/
def admittedFor (publisherId : Uuid) : AcquisitionEvent → Bool
  | .urlAdmitted _ publisher .. => publisher = publisherId
  | _ => false

/-- The candidate with the id belongs to the publisher. -/
def belongsTo (db : Database) (publisherId candidateId : Uuid) : Bool :=
  db.candidates.any fun r => r.id = candidateId && r.publisherId = publisherId

/-- A `discovery.item_observed` of a candidate of the publisher. -/
def observedFor (db : Database) (publisherId : Uuid) : AcquisitionEvent → Bool
  | .itemObserved candidate .. => belongsTo db publisherId candidate
  | _ => false

section counts

variable {ext : Externals} {f : FrontierTables} {db : Database} {publisherId : Uuid}

theorem belongsTo_of_mem (hids : (db.candidates.map (·.id)).Nodup) {r : UrlCandidateModel}
    (hr : r ∈ db.candidates) : belongsTo db publisherId r.id = decide (r.publisherId = publisherId) := by
  rw [Bool.eq_iff_iff, belongsTo, List.any_eq_true, decide_eq_true_eq]
  constructor
  · rintro ⟨q, hq, hmatch⟩
    rw [Bool.and_eq_true, decide_eq_true_eq, decide_eq_true_eq] at hmatch
    rw [← List.inj_on_of_nodup_map hids hq hr hmatch.1]
    exact hmatch.2
  · intro hpublisher
    refine ⟨r, hr, ?_⟩
    rw [hpublisher, Bool.and_eq_true]
    exact ⟨decide_eq_true rfl, decide_eq_true rfl⟩

/- The candidates of a publisher, and the events that have announced them. -/
theorem discoveredCount_eq_admitted (hsound : FrontierSound ext f.db) (honce : ExactlyOnce f)
    (publisherId : Uuid) :
    publisherDiscoveredCount f.db publisherId = f.db.outbox.countP (admittedFor publisherId) := by
  have hrows : publisherDiscoveredCount f.db publisherId =
      (f.db.candidates.map (·.id)).countP (belongsTo f.db publisherId) := by
    rw [List.countP_map, publisherDiscoveredCount]
    refine List.countP_congr fun r hr => ?_
    rw [Function.comp_apply, belongsTo_of_mem honce.candidates hr]
  rw [hrows, ← honce.admittedEvents, List.countP_filterMap]
  refine List.countP_congr fun e he => ?_
  cases e with
  | urlAdmitted candidate publisher normalizedUrl priorityScore _ _ _ =>
    obtain ⟨r, hr, rfl, rfl, _⟩ := hsound.events _ he
    show belongsTo f.db publisherId r.id = true ↔ _
    rw [belongsTo_of_mem honce.candidates hr]
    rfl
  | _ => rfl

/- The join finds one candidate for each discovery. -/
theorem observationCount_eq (hids : (db.candidates.map (·.id)).Nodup)
    (hrefers : ∀ d ∈ db.discoveries, d.urlCandidateId ∈ db.candidates.map (·.id)) :
    publisherObservationCount db publisherId =
      db.discoveries.countP fun d => belongsTo db publisherId d.urlCandidateId := by
  have hone : ∀ d ∈ db.discoveries,
      ((db.candidates.filter fun r => r.id = d.urlCandidateId).map fun r => (d, r)).countP
        (·.2.publisherId = publisherId) =
      [d].countP fun d => belongsTo db publisherId d.urlCandidateId := by
    intro d hd
    obtain ⟨r, hr, hid⟩ := List.mem_map.mp (hrefers d hd)
    rw [Table.filter_key hids, Table.get?_of_mem hids hr hid, Option.toList_some, List.map_singleton,
      List.countP_singleton, List.countP_singleton, ← hid, belongsTo_of_mem hids hr]
  unfold publisherObservationCount candidateDiscoveries
  generalize db.discoveries = discoveries at hone
  induction discoveries with
  | nil => rfl
  | cons d ds ih =>
    obtain ⟨hd, hds⟩ := List.forall_mem_cons.mp hone
    rw [List.flatMap_cons, List.countP_append, hd, ih hds, ← List.countP_append,
      List.singleton_append]

/- The observations of a publisher's candidates, and the events that have announced them. -/
theorem observationCount_eq_observed (hsound : FrontierSound ext f.db) (honce : ExactlyOnce f)
    (publisherId : Uuid) :
    publisherObservationCount f.db publisherId =
      f.db.outbox.countP (observedFor f.db publisherId) := by
  have hkeys : (f.db.discoveries.countP fun d => belongsTo f.db publisherId d.urlCandidateId) =
      (f.db.discoveries.map discoveryKey).countP fun k => belongsTo f.db publisherId k.1 := by
    rw [List.countP_map]
    rfl
  rw [observationCount_eq honce.candidates hsound.refers, hkeys, ← honce.observedEvents,
    List.countP_filterMap]
  refine List.countP_congr fun e _ => ?_
  cases e <;> rfl

/- Each candidate of a publisher has been observed. -/
theorem discoveredCount_le (hsound : FrontierSound ext f.db) (honce : ExactlyOnce f)
    (publisherId : Uuid) :
    publisherDiscoveredCount f.db publisherId ≤ publisherObservationCount f.db publisherId := by
  rw [observationCount_eq honce.candidates hsound.refers, publisherDiscoveredCount,
    List.countP_eq_length_filter, List.countP_eq_length_filter,
    ← List.length_map (f := fun r : UrlCandidateModel => r.id),
    ← List.length_map (f := fun d : UrlDiscoveryModel => d.urlCandidateId)]
  refine (List.Nodup.subperm ?_ ?_).length_le
  · exact honce.candidates.sublist (List.filter_sublist.map _)
  · intro id hid
    obtain ⟨r, hr, rfl⟩ := List.mem_map.mp hid
    obtain ⟨hr, hpublisher⟩ := List.mem_filter.mp hr
    obtain ⟨d, hd, hcandidate, _⟩ := (hsound.candidates r hr).discovered
    refine List.mem_map.mpr ⟨d, List.mem_filter.mpr ⟨hd, ?_⟩, hcandidate⟩
    rw [hcandidate, belongsTo_of_mem honce.candidates hr]
    exact hpublisher

/-! ### Sums over publishers -/

theorem countP_mem {α κ : Type} [DecidableEq κ] (key : α → κ) (rows : List α) {ks : List κ}
    (hd : ks.Nodup) :
    rows.countP (fun r => key r ∈ ks) = (ks.map fun k => rows.countP fun r => key r = k).sum := by
  induction ks with
  | nil => simp
  | cons k ks ih =>
    obtain ⟨hk, hd⟩ := List.nodup_cons.mp hd
    rw [List.map_cons, List.sum_cons, ← ih hd]
    clear ih
    induction rows with
    | nil => rfl
    | cons r rows ihr =>
      rw [List.countP_cons, List.countP_cons, List.countP_cons, ihr]
      by_cases hr : key r = k
      · simp [hr, hk]
        omega
      · simp [hr]
        omega

theorem sum_sub {α : Type} {a b : α → ℕ} (h : ∀ x, b x ≤ a x) (xs : List α) :
    (xs.map a).sum - (xs.map b).sum = (xs.map fun x => a x - b x).sum ∧
      (xs.map b).sum ≤ (xs.map a).sum := by
  induction xs with
  | nil => exact ⟨rfl, Nat.le_refl 0⟩
  | cons x xs ih =>
    have hx := h x
    simp only [List.map_cons, List.sum_cons]
    omega

end counts

section runs

variable {ext : Externals} {publishers : List PublisherModel} {channels : List DiscoveryChannel}
  {labels : List (Label FrontierEvent (Turn × ObserveDiscoveryCommand))}
  {s : State FrontierTables ObserveTransaction}

/- The figures of a publisher are the events that consumers have been sent. -/
theorem publisherSourceView_accounts (articles : List ArticleModel) (publisher : PublisherRow)
    (h : Runs.exec (sessionStep (frontierSystem ext)) (emptyTables publishers channels) labels =
      some s) :
    (publisherSourceView s.committed.db articles publisher).articlesDiscovered =
        s.committed.db.outbox.countP (admittedFor publisher.id) ∧
      (publisherSourceView s.committed.db articles publisher).articlesDiscovered +
          (publisherSourceView s.committed.db articles publisher).duplicatesSkipped =
        s.committed.db.outbox.countP (observedFor s.committed.db publisher.id) := by
  have hkept := frontierKept_run h
  have hle := discoveredCount_le hkept.sound hkept.exactlyOnce publisher.id
  refine ⟨discoveredCount_eq_admitted hkept.sound hkept.exactlyOnce publisher.id, ?_⟩
  rw [← observationCount_eq_observed hkept.sound hkept.exactlyOnce publisher.id]
  simp only [publisherSourceView]
  omega

/-- The publisher of the sample channels. -/
def samplePublisher : PublisherRow where
  id := 1
  name := "A".toList
  slug := "a".toList
  canonicalDomain := "a.in".toList
  fetchFrequency := .hourly
  lastFetchedAt := none
  active := true
  createdAt := 0
  updatedAt := 0
  homepageUrl := none
  discoveryStatus := "ready".toList
  discoveryMessage := none

theorem leasedStory_accounts :
    ∃ s, Runs.exec (sessionStep (frontierSystem (sampleExternals [])))
        (emptyTables [] [sampleChannel, { sampleChannel with id := 3 }]) leasedStory = some s ∧
      (publisherSourceView s.committed.db [] samplePublisher).articlesDiscovered =
          s.committed.db.outbox.countP (admittedFor 1) ∧
        (publisherSourceView s.committed.db [] samplePublisher).articlesDiscovered +
            (publisherSourceView s.committed.db [] samplePublisher).duplicatesSkipped =
          s.committed.db.outbox.countP (observedFor s.committed.db 1) := by
  obtain ⟨s, hs, _⟩ := leasedStory_run
  exact ⟨s, hs, publisherSourceView_accounts [] samplePublisher hs⟩

/- A job over some publishers reports the sums of their figures, when it is older than all that
has been observed. -/
theorem jobStats_totals (articles : List ArticleModel) {rows : List PublisherRow} (since : Timestamp)
    (h : Runs.exec (sessionStep (frontierSystem ext)) (emptyTables publishers channels) labels =
      some s)
    (hrows : rows ≠ []) (hids : (rows.map (·.id)).Nodup)
    (hcandidates : ∀ r ∈ s.committed.db.candidates, since ≤ r.createdAt)
    (hdiscoveries : ∀ d ∈ s.committed.db.discoveries, since ≤ d.discoveredAt) :
    (jobStats s.committed.db articles (rows.map (·.id)) since).urlsDiscovered =
        (rows.map fun p => (publisherSourceView s.committed.db articles p).articlesDiscovered).sum ∧
      (jobStats s.committed.db articles (rows.map (·.id)) since).duplicatesSkipped =
        (rows.map fun p => (publisherSourceView s.committed.db articles p).duplicatesSkipped).sum := by
  have hkept := frontierKept_run h
  have hne : rows.map (·.id) ≠ [] := by simpa using hrows
  have hurls : countDistinct ((s.committed.db.candidates.filter fun r =>
      r.publisherId ∈ rows.map (·.id) && since ≤ r.createdAt).map (·.id)) =
        (rows.map fun p => publisherDiscoveredCount s.committed.db p.id).sum := by
    have hnodup : ((s.committed.db.candidates.filter fun r =>
        r.publisherId ∈ rows.map (·.id) && since ≤ r.createdAt).map (·.id)).Nodup :=
      hkept.exactlyOnce.candidates.sublist (List.filter_sublist.map _)
    have hall : (s.committed.db.candidates.countP fun r =>
        r.publisherId ∈ rows.map (·.id) && since ≤ r.createdAt) =
          s.committed.db.candidates.countP fun r => r.publisherId ∈ rows.map (·.id) := by
      refine List.countP_congr fun r hr => ?_
      rw [Bool.and_eq_true, decide_eq_true_eq, decide_eq_true_eq]
      exact and_iff_left (hcandidates r hr)
    rw [countDistinct, List.dedup_eq_self.mpr hnodup, List.length_map, ← List.countP_eq_length_filter, hall,
      countP_mem _ _ hids, List.map_map]
    rfl
  have hobservations : ((candidateDiscoveries s.committed.db).countP fun p =>
      p.2.publisherId ∈ rows.map (·.id) && since ≤ p.1.discoveredAt) =
        (rows.map fun p => publisherObservationCount s.committed.db p.id).sum := by
    have hall : ((candidateDiscoveries s.committed.db).countP fun p =>
        p.2.publisherId ∈ rows.map (·.id) && since ≤ p.1.discoveredAt) =
          (candidateDiscoveries s.committed.db).countP fun p =>
            p.2.publisherId ∈ rows.map (·.id) := by
      refine List.countP_congr fun p hp => ?_
      obtain ⟨d, hd, hp⟩ := List.mem_flatMap.mp hp
      obtain ⟨r, _, rfl⟩ := List.mem_map.mp hp
      rw [Bool.and_eq_true, decide_eq_true_eq, decide_eq_true_eq]
      exact and_iff_left (hdiscoveries d hd)
    rw [hall, countP_mem (fun p : UrlDiscoveryModel × UrlCandidateModel => p.2.publisherId) _ hids,
      List.map_map]
    rfl
  obtain ⟨hsub, _⟩ := sum_sub (fun p : PublisherRow =>
    discoveredCount_le hkept.sound hkept.exactlyOnce p.id) rows
  constructor
  · rw [jobStats, if_neg hne]
    exact hurls
  · rw [jobStats, if_neg hne]
    show _ - _ = _
    rw [hurls, hobservations, hsub]
    rfl

theorem leasedStory_totals :
    ∃ s, Runs.exec (sessionStep (frontierSystem (sampleExternals [])))
        (emptyTables [] [sampleChannel, { sampleChannel with id := 3 }]) leasedStory = some s ∧
      (jobStats s.committed.db [] [1] 0).urlsDiscovered =
          (publisherSourceView s.committed.db [] samplePublisher).articlesDiscovered + 0 ∧
        (jobStats s.committed.db [] [1] 0).duplicatesSkipped =
          (publisherSourceView s.committed.db [] samplePublisher).duplicatesSkipped + 0 := by
  obtain ⟨s, hs, hcandidates, hdiscoveries⟩ := leasedStory_run
  have hrows : [samplePublisher] ≠ [] := List.cons_ne_nil _ _
  refine ⟨s, hs, jobStats_totals [] 0 hs hrows (List.nodup_singleton _) ?_ ?_⟩
  · intro r hr
    have hmem := List.mem_map_of_mem (f := fun r => (r.state, r.createdAt)) hr
    rw [hcandidates, List.mem_singleton, Prod.mk.injEq] at hmem
    exact le_of_eq hmem.2.symm
  · intro d hd
    have hmem := List.mem_map_of_mem (f := fun d => d.discoveredAt) hd
    rw [hdiscoveries] at hmem
    have hall : ∀ discoveredAt ∈ [(0 : Timestamp), 1], 0 ≤ discoveredAt := by decide
    exact hall _ hmem

/- While the frontier goes on, the counters of a job do not go back. -/
theorem jobStats_progress {s' : State FrontierTables ObserveTransaction}
    (articles : List ArticleModel) (publisherIds : List Uuid) (since : Timestamp)
    (h : Runs.exec (sessionStep (frontierSystem ext)) s labels = some s') :
    (jobStats s.committed.db articles publisherIds since).urlsDiscovered ≤
        (jobStats s'.committed.db articles publisherIds since).urlsDiscovered ∧
      (jobStats s.committed.db articles publisherIds since).articlesQueued ≤
        (jobStats s'.committed.db articles publisherIds since).articlesQueued := by
  have hgrows := frontier_grows_run h
  have hdistinct : ∀ ids ids' : List Uuid, ids ⊆ ids' → countDistinct ids ≤ countDistinct ids' := by
    intro ids ids' hsub
    refine (List.subperm_of_subset (List.nodup_dedup ids) ?_).length_le
    intro id hid
    exact List.mem_dedup.mpr (hsub (List.mem_dedup.mp hid))
  have hurls : countDistinct ((s.committed.db.candidates.filter fun r =>
      r.publisherId ∈ publisherIds && since ≤ r.createdAt).map (·.id)) ≤
        countDistinct ((s'.committed.db.candidates.filter fun r =>
          r.publisherId ∈ publisherIds && since ≤ r.createdAt).map (·.id)) := by
    refine hdistinct _ _ fun id hid => ?_
    obtain ⟨r, hr, rfl⟩ := List.mem_map.mp hid
    obtain ⟨hr, hcounted⟩ := List.mem_filter.mp hr
    obtain ⟨q, hq, hqid, hpublisher, _, _, _, hcreated⟩ := hgrows.candidate (known_of_mem hr)
    refine List.mem_map.mpr ⟨q, List.mem_filter.mpr ⟨hq, ?_⟩, hqid⟩
    rw [hpublisher, hcreated]
    exact hcounted
  unfold jobStats
  split
  · exact ⟨Nat.le_refl _, Nat.le_refl _⟩
  · exact ⟨hurls, hurls⟩

theorem leasedStory_progress :
    ∃ s s' : State FrontierTables ObserveTransaction,
      s = emptyTables [] [sampleChannel, { sampleChannel with id := 3 }] ∧
      Runs.exec (sessionStep (frontierSystem (sampleExternals []))) s leasedStory = some s' ∧
        (jobStats s.committed.db [] [1] 0).urlsDiscovered ≤
            (jobStats s'.committed.db [] [1] 0).urlsDiscovered ∧
          (jobStats s.committed.db [] [1] 0).articlesQueued ≤
            (jobStats s'.committed.db [] [1] 0).articlesQueued := by
  obtain ⟨s', hs', _, _⟩ := leasedStory_run
  exact ⟨_, s', rfl, hs', jobStats_progress [] [1] 0 hs'⟩

end runs

end Newsintel.Sources
