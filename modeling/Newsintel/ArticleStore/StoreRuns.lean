import Newsintel.Lib.Runs
import Newsintel.ArticleStore.CompleteSuccess

/-!
# Interleaved `complete_success` transactions

State: the committed database and the transactions in flight, each with the
databases its reads have seen so far. A transaction begins, reads six times, and
commits or aborts; any number of them interleave, and other repositories may
rewrite `url_candidates` in between. Committed rows are never deleted, so what a
transaction has read is still there when it commits.
-/

namespace Newsintel.ArticleStore

open Newsintel.Articles PyText

/-- A transaction in flight. -/
structure Txn where
  call : SuccessCall
  reads : List Db

structure Store where
  db : Db
  inFlight : List Txn

/-- No transaction in flight, and candidates only. -/
def newStore (candidates : List UrlCandidateModel) : Store := ⟨newDb candidates, []⟩

inductive Step where
  | begin (call : SuccessCall)
  | read (i : ℕ)
  | commit (i : ℕ)
  /-- a transaction of another repository on `url_candidates` -/
  | frontier (candidates : List UrlCandidateModel)

/-- The snapshots of a transaction that has made all its reads. -/
def snapshots? : List Db → Option Snapshots
  | [a, b, c, d, e, f] => some ⟨a, b, c, d, e, f⟩
  | _ => none

/-- The database after the transaction has ended; an error leaves it as it is. -/
def commitCall (u : Unicode) (decideEvent : DecideEvent) (call : SuccessCall) (s : Snapshots)
    (db : Db) : Db :=
  match completeSuccessWrites u decideEvent call s with
  | .error _ => db
  | .ok w =>
    match db.commit w with
    | .error _ => db
    | .ok db' => db'

/-- One step. `none`: there is no such transaction, or it is not at that point. -/
def step (u : Unicode) (decideEvent : DecideEvent) (s : Store) : Step → Option Store
  | .begin call => some { s with inFlight := s.inFlight ++ [⟨call, []⟩] }
  | .read i =>
    s.inFlight[i]?.map fun t =>
      { s with inFlight := s.inFlight.set i { t with reads := t.reads ++ [s.db] } }
  | .commit i =>
    s.inFlight[i]?.bind fun t => (snapshots? t.reads).map fun snaps =>
      { db := commitCall u decideEvent t.call snaps s.db
        inFlight := s.inFlight.eraseIdx i }
  | .frontier candidates => some { s with db := { s.db with candidates } }

/-! ### Growth -/

/-- The rows of `d` are rows of `db`, articles up to their updated columns. -/
structure Within (d db : Db) : Prop where
  events : d.eventIds ⊆ db.eventIds
  articles : d.articleIds ⊆ db.articleIds
  versions : d.versions ⊆ db.versions

theorem Within.refl (db : Db) : Within db db :=
  ⟨List.Subset.refl _, List.Subset.refl _, List.Subset.refl _⟩

theorem Within.trans {a b c : Db} (h : Within a b) (h' : Within b c) : Within a c :=
  ⟨List.Subset.trans h.events h'.events, List.Subset.trans h.articles h'.articles,
    List.Subset.trans h.versions h'.versions⟩

/-! ### The writes of a call -/

variable {u : Unicode} {decideEvent : DecideEvent} {call : SuccessCall} {s : Snapshots}
  {w : Writes} {db db' : Db}

theorem commit_ok (h : db.commit w = .ok db') :
    db' = db.apply w ∧ ∀ c : UniqueConstraint, c.holds db' = true := by
  unfold Db.commit at h
  split at h
  · contradiction
  · rename_i hnone
    obtain rfl := Except.ok.inj h
    refine ⟨rfl, ?_⟩
    intro c
    have hc := List.find?_eq_none.mp hnone c (mem_uniqueConstraints c)
    simpa using hc

theorem commit_of_holds (h : ∀ c : UniqueConstraint, c.holds (db.apply w) = true) :
    db.commit w = .ok (db.apply w) := by
  have hnone : uniqueConstraints.find? (fun c => !c.holds (db.apply w)) = none := by
    rw [List.find?_eq_none]
    intro c _
    rw [h c]
    exact Bool.false_ne_true
  rw [Db.commit, hnone]

/-! The article part leaves the versions and claims, the version part the articles. -/

@[simp] theorem applyArticle_versions : (db.applyArticle w).versions = db.versions := by
  unfold Db.applyArticle
  cases w.newArticle <;> rfl

@[simp] theorem applyVersion_articles : (db.applyVersion w).articles = db.articles := by
  unfold Db.applyVersion
  cases w.newVersion <;> rfl

@[simp] theorem applyVersion_events : (db.applyVersion w).events = db.events := by
  unfold Db.applyVersion
  cases w.newVersion <;> rfl

theorem articles_apply : (db.apply w).articles = (db.applyArticle w).articles :=
  applyVersion_articles

theorem versions_apply : (db.apply w).versions = (db.applyVersion w).versions := by
  unfold Db.apply Db.applyVersion
  cases w.newVersion with
  | none => exact applyArticle_versions
  | some n => exact congrArg (· ++ [n.version]) applyArticle_versions

/-- What a call writes for its article, found by its fingerprint or new. -/
def ArticlePart (decideEvent : DecideEvent) (call : SuccessCall) (s : Snapshots)
    (fingerprint : Bytes) (w : Writes) : Prop :=
  let found := Table.get? ArticleModel.normalizedUrlHash fingerprint s.articleAt.articles
  let choice := chooseEvent call (decideEvent s.referencesAt call.profile) s.eventAt
  (found = none ∧ w.newArticle = some (newArticleWrites call fingerprint choice) ∧
      w.result.articleId = call.ids.article ∧ w.result.eventId = choice.eventId) ∨
    ∃ a, found = some a ∧ w.newArticle = none ∧ w.updateArticle = updateKnownArticle call a ∧
      w.result.articleId = a.id ∧ w.result.eventId = a.eventId

/-- What it writes for its content, stored already or new. -/
def ContentPart (u : Unicode) (call : SuccessCall) (s : Snapshots) (w : Writes) : Prop :=
  let stored := existingVersion s.versionAt w.result.articleId call.extracted.contentSha256
  (stored = none ∧ w.newVersion = some (newVersionWrites u call w.result.articleId s.numberAt) ∧
      w.result.versionId = call.ids.version) ∨
    ∃ v, stored = some v ∧ w.newVersion = none ∧ w.result.versionId = v.id

/-- The update of the candidate row. -/
def candidateUpdate (call : SuccessCall) (article : Uuid) (row : UrlCandidateModel) :
    UrlCandidateModel :=
  if row.id = call.candidate.id then completeSuccess article call.completedAt row else row

/- Everything that a call writes. -/
theorem completeSuccessWrites_cases (h : completeSuccessWrites u decideEvent call s = .ok w) :
    ∃ row, Table.get? UrlCandidateModel.id call.candidate.id s.candidateAt.candidates = some row ∧
      w.updateCandidate = candidateUpdate call w.result.articleId ∧
      ArticlePart decideEvent call s row.urlFingerprint w ∧ ContentPart u call s w := by
  unfold completeSuccessWrites at h
  split at h
  · contradiction
  · rename_i row hrow
    refine ⟨row, hrow, ?_⟩
    obtain rfl := Except.ok.inj h
    refine ⟨rfl, ?_, ?_⟩
    · unfold ArticlePart
      cases Table.get? ArticleModel.normalizedUrlHash row.urlFingerprint s.articleAt.articles with
      | none => exact Or.inl ⟨rfl, rfl, rfl, rfl⟩
      | some a => exact Or.inr ⟨a, rfl, rfl, rfl, rfl, rfl⟩
    · unfold ContentPart
      simp only
      cases existingVersion s.versionAt _ call.extracted.contentSha256 with
      | none => exact Or.inl ⟨rfl, rfl, rfl⟩
      | some v => exact Or.inr ⟨v, rfl, rfl, rfl⟩

theorem existingVersion_some {v : ArticleVersionModel} {article : Uuid} {contentSha256 : Text}
    (h : existingVersion db article contentSha256 = some v) :
    v ∈ db.versions ∧ v.articleId = article ∧ v.contentSha256 = contentSha256 := by
  have hp := List.find?_some h
  simp only [decide_eq_true_eq] at hp
  exact ⟨List.mem_of_find?_eq_some h, hp⟩

/-- The version part for an article: an existing version, or a new one. -/
def VersionPart (u : Unicode) (call : SuccessCall) (s : Snapshots) (article : Uuid)
    (w : Writes) : Prop :=
  (w.newVersion = none ∧ ∃ v ∈ s.versionAt.versions, v.articleId = article) ∨
    w.newVersion = some (newVersionWrites u call article s.numberAt)

/-- What a call writes: a new article, or new columns of a known one, and the
version part for it. -/
theorem completeSuccessWrites_ok (h : completeSuccessWrites u decideEvent call s = .ok w) :
    (∃ fingerprint, w.newArticle = some (newArticleWrites call fingerprint
        (chooseEvent call (decideEvent s.referencesAt call.profile) s.eventAt)) ∧
      VersionPart u call s call.ids.article w) ∨
    ∃ a ∈ s.articleAt.articles, w.newArticle = none ∧
      w.updateArticle = updateKnownArticle call a ∧ VersionPart u call s a.id w := by
  obtain ⟨row, _, _, harticle, hcontent⟩ := completeSuccessWrites_cases h
  have hpart : VersionPart u call s w.result.articleId w := by
    obtain ⟨_, hnew, _⟩ | ⟨v, hstored, hnone, _⟩ := hcontent
    · exact Or.inr hnew
    · obtain ⟨hv, hva, _⟩ := existingVersion_some hstored
      exact Or.inl ⟨hnone, v, hv, hva⟩
  obtain ⟨_, hnew, hid, _⟩ | ⟨a, hfound, hnone, hupdate, hid, _⟩ := harticle
  · exact Or.inl ⟨row.urlFingerprint, hnew, hid ▸ hpart⟩
  · exact Or.inr ⟨a, (Table.get?_some hfound).1, hnone, hupdate, hid ▸ hpart⟩

/- The chosen event is new, or a row of the database it was read from. -/
theorem chooseEvent_cases (decision : EventAssignmentDecision) (d : Db) :
    (∃ e, (chooseEvent call decision d).newEvent = some e ∧
        e.id = (chooseEvent call decision d).eventId) ∨
      ((chooseEvent call decision d).newEvent = none ∧
        (chooseEvent call decision d).eventId ∈ d.eventIds) := by
  unfold chooseEvent
  cases hd : decision.selectedEventId.bind fun id => Table.get? EventModel.id id d.events with
  | none => exact Or.inl ⟨_, rfl, rfl⟩
  | some event =>
    obtain ⟨id, -, hget⟩ := Option.bind_eq_some_iff.mp hd
    exact Or.inr ⟨rfl, List.mem_map_of_mem (Table.get?_some hget).1⟩

theorem updateExistingEvent_id (event : EventModel) (state : EventAssignmentState)
    (observedAt updatedAt : Timestamp) (row : EventModel) :
    (updateExistingEvent event state observedAt updatedAt row).id = row.id := by
  unfold updateExistingEvent
  split <;> rfl

theorem chooseEvent_updateEvent_id (decision : EventAssignmentDecision) (d : Db)
    (row : EventModel) : ((chooseEvent call decision d).updateEvent row).id = row.id := by
  unfold chooseEvent
  cases decision.selectedEventId.bind fun id => Table.get? EventModel.id id d.events with
  | none => rfl
  | some event => exact updateExistingEvent_id _ _ _ _ _

/-- Updating a known article keeps its key columns. -/
theorem updateKnownArticle_keys (a row : ArticleModel) :
    (updateKnownArticle call a row).id = row.id ∧
      (updateKnownArticle call a row).eventId = row.eventId := by
  unfold updateKnownArticle
  split <;> exact ⟨rfl, rfl⟩

theorem updateKnownArticle_ids {a : ArticleModel} {rows : List ArticleModel} :
    (rows.map (updateKnownArticle call a)).map (·.id) = rows.map (·.id) := by
  rw [List.map_map]
  exact List.map_congr_left fun row _ => (updateKnownArticle_keys a row).1

/-! ### A sample store -/

/-- The candidate that the sample calls are about. -/
def sampleCandidate : UrlCandidateModel :=
  admittedRow
    { id := 1
      publisherId := 7
      normalizedUrl := "https://example.com/news/2026/06/26/a-long-story-slug".toList
      urlFingerprint := [1]
      priorityScore := 1
      publishedAt := none
      observedAt := 0
      now := 0 }

/-- A call that stores a text under the content hash, its ids counted from `n`. -/
def sampleCall (n : ℕ) (contentSha256 text : Text) : SuccessCall where
  candidate := leasedCopy sampleCandidate
  traceId := n
  fetched := ⟨sampleCandidate.normalizedUrl, sampleCandidate.normalizedUrl, seconds n⟩
  extracted :=
    { title := some "A long story".toList
      byline := none
      publishedAt := none
      language := some "en".toList
      canonicalUrl := none
      textContent := text
      contentSha256
      extractionMethod := "visible_text".toList
      warnings := [] }
  completedAt := seconds (n + 1)
  ids :=
    { event := n
      article := n + 1
      assignment := n + 2
      version := n + 3
      claim := fun i => n + 100 + 3 * i
      evidenceLink := fun i => n + 101 + 3 * i
      verification := fun i => n + 102 + 3 * i
      outbox := fun i => n + 4 + i }

/-- No reference is similar enough. -/
def noMatch : DecideEvent := fun _ _ => ⟨.provisional, none, none, [], []⟩

/-- All reads of the transaction at the index, then its commit. -/
def readsAndCommit (i : ℕ) : List Step := List.replicate 6 (.read i) ++ [.commit i]

end Newsintel.ArticleStore
