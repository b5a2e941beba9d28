import Newsintel.Articles.CandidateRow
import Newsintel.Intelligence.Claims

/-!
# The article store

Rows of the tables that `complete_success` writes (infrastructure/db/models.py),
their unique constraints, and a committed database as the lists of its rows. The
slug of an event is its id in hexadecimal behind `event-`, so the primary key of
`events` stands for both of its constraints. Constant columns and the JSON columns
`metadata`, `confidence_factors` and `reasoning_trace` are left out.
-/

namespace Newsintel.ArticleStore

open Newsintel.Articles Newsintel.Intelligence

/-- `EventAssignmentState` (domain/events/assignment.py:7-10). -/
inductive EventAssignmentState where
  | provisional
  | candidate
  | confirmed
  deriving DecidableEq, Repr

structure EventModel where
  id : Uuid
  title : Text
  lifecycleStatus : Text
  assignmentStatus : EventAssignmentState
  firstDetectedAt : Timestamp
  lastMaterialChangeAt : Timestamp
  createdAt : Timestamp
  updatedAt : Timestamp
  deriving DecidableEq

structure ArticleModel where
  id : Uuid
  publisherId : Uuid
  eventId : Uuid
  canonicalUrl : Text
  normalizedUrlHash : Bytes
  title : Text
  language : Option Text
  publishedAt : Option Timestamp
  firstObservedAt : Timestamp
  createdAt : Timestamp
  updatedAt : Timestamp
  deriving DecidableEq

structure EventAssignmentModel where
  id : Uuid
  articleId : Uuid
  eventId : Uuid
  state : EventAssignmentState
  score : Option ℚ
  candidateFeatures : List (Text × ℚ)
  isCurrent : Bool
  assignedAt : Timestamp
  deriving DecidableEq

structure ArticleVersionModel where
  id : Uuid
  articleId : Uuid
  versionNumber : ℕ
  sourceUrl : Text
  finalUrl : Text
  title : Text
  byline : Option Text
  language : Option Text
  publishedAt : Option Timestamp
  retrievedAt : Timestamp
  contentSha256 : Text
  textContent : Text
  extractionMethod : Text
  extractionWarnings : List Text
  createdAt : Timestamp
  deriving DecidableEq

structure ArticleClaimModel where
  id : Uuid
  articleId : Uuid
  articleVersionId : Uuid
  claimText : Text
  claimSha256 : Text
  sentenceIndex : ℕ
  extractionFeatures : ClaimFeatures
  createdAt : Timestamp
  deriving DecidableEq

structure ClaimEvidenceLinkModel where
  id : Uuid
  claimId : Uuid
  evidenceArticleId : Option Uuid
  evidenceArticleVersionId : Option Uuid
  sourceUrl : Text
  sourceType : Text
  relationship : Text
  retrievedAt : Timestamp
  createdAt : Timestamp
  deriving DecidableEq

structure ClaimVerificationModel where
  id : Uuid
  claimId : Uuid
  label : ClaimVerificationLabel
  createdAt : Timestamp
  deriving DecidableEq

/-! ### Outbox -/

/-- The events of `complete_success` with their payloads. -/
inductive IntegrationEvent where
  | provisionalCreated (eventId articleId candidateId : Uuid) (features : List (Text × ℚ))
  | articleLinked (eventId articleId candidateId : Uuid) (state : EventAssignmentState)
      (score : Option ℚ) (features : List (Text × ℚ))
  | articleIngested (articleId eventId candidateId : Uuid) (canonicalUrl : Text)
      (state : EventAssignmentState) (score : Option ℚ)
  | versionCreated (articleId versionId candidateId : Uuid)
      (contentSha256 extractionMethod : Text) (warnings : List Text)
  | claimsExtracted (articleId versionId : Uuid) (claimCount : ℕ) (claimIds : List Uuid)
  deriving DecidableEq

namespace IntegrationEvent

def eventType : IntegrationEvent → String
  | provisionalCreated .. => "event.provisional_created"
  | articleLinked .. => "event.article_linked"
  | articleIngested .. => "article.ingested"
  | versionCreated .. => "article.version_created"
  | claimsExtracted .. => "article.claims_extracted"

/-- `payload["article_id"]`. -/
def articleId : IntegrationEvent → Uuid
  | provisionalCreated _ a _ _ | articleLinked _ a _ _ _ _ | articleIngested a _ _ _ _ _
  | versionCreated a _ _ _ _ _ | claimsExtracted a _ _ _ => a

/-- `payload["event_id"]`. -/
def eventId? : IntegrationEvent → Option Uuid
  | provisionalCreated e _ _ _ | articleLinked e _ _ _ _ _ | articleIngested _ e _ _ _ _ => some e
  | versionCreated .. | claimsExtracted .. => none

/-- `payload["version_id"]`. -/
def versionId? : IntegrationEvent → Option Uuid
  | versionCreated _ v _ _ _ _ | claimsExtracted _ v _ _ => some v
  | provisionalCreated .. | articleLinked .. | articleIngested .. => none

/-- The parts of `idempotency_key` between its colons: the event type, and ids of
fixed width. -/
def idempotencyKey : IntegrationEvent → String × List Uuid
  | e@(provisionalCreated ev _ _ _) => (e.eventType, [ev])
  | e@(articleLinked ev a _ _ _ _) => (e.eventType, [ev, a])
  | e@(articleIngested a _ _ _ _ _) => (e.eventType, [a])
  | e@(versionCreated _ v _ _ _ _) => (e.eventType, [v])
  | e@(claimsExtracted _ v _ _) => (e.eventType, [v])

/-- `article.ingested` of the article. -/
def ingests (article : Uuid) : IntegrationEvent → Bool
  | articleIngested a _ _ _ _ _ => a = article
  | _ => false

/-- `event.provisional_created` or `event.article_linked` for the article. -/
def announces (article : Uuid) : IntegrationEvent → Bool
  | provisionalCreated _ a _ _ | articleLinked _ a _ _ _ _ => a = article
  | _ => false

/-- `article.version_created` of the version. -/
def creates (version : Uuid) : IntegrationEvent → Bool
  | versionCreated _ v _ _ _ _ => v = version
  | _ => false

/-- `article.claims_extracted` of the version. -/
def extracts (version : Uuid) : IntegrationEvent → Bool
  | claimsExtracted _ v _ _ => v = version
  | _ => false

/-- `payload["claim_ids"]`. -/
def claimIds : IntegrationEvent → List Uuid
  | claimsExtracted _ _ _ ids => ids
  | _ => []

end IntegrationEvent

structure OutboxEventModel where
  id : Uuid
  event : IntegrationEvent
  correlationId : Uuid
  deriving DecidableEq

/-- `_add_outbox`: `ON CONFLICT (idempotency_key) DO NOTHING`. -/
def addOutbox (outbox : List OutboxEventModel) (o : OutboxEventModel) : List OutboxEventModel :=
  if o.event.idempotencyKey ∈ outbox.map (·.event.idempotencyKey) then outbox else outbox ++ [o]

theorem addOutbox_new {outbox : List OutboxEventModel} {o : OutboxEventModel}
    (h : ∀ p ∈ outbox, p.event.idempotencyKey ≠ o.event.idempotencyKey) :
    addOutbox outbox o = outbox ++ [o] := by
  unfold addOutbox
  rw [if_neg]
  simpa using h

namespace IntegrationEvent

variable {e : IntegrationEvent} {event article version candidate : Uuid}

theorem eventType_eq_of_key {e' : IntegrationEvent} (h : e.idempotencyKey = e'.idempotencyKey) :
    e.eventType = e'.eventType := by
  have h1 := congrArg Prod.fst h
  cases e <;> cases e' <;> exact h1

/- An event with the key of another one has the ids that the key consists of. -/
theorem eventId?_of_key {features : List (Text × ℚ)}
    (h : e.idempotencyKey = (provisionalCreated event article candidate features).idempotencyKey) :
    e.eventId? = some event := by
  cases e with
  | provisionalCreated ev a c f =>
    simp only [idempotencyKey, Prod.mk.injEq, List.cons.injEq, and_true] at h
    rw [eventId?, h.2]
  | _ =>
    have ht := eventType_eq_of_key h
    simp only [eventType, String.reduceEq] at ht

theorem articleId_of_linkedKey {state : EventAssignmentState} {score : Option ℚ}
    {features : List (Text × ℚ)}
    (h : e.idempotencyKey =
      (articleLinked event article candidate state score features).idempotencyKey) :
    e.articleId = article := by
  cases e with
  | articleLinked ev a c st sc f =>
    simp only [idempotencyKey, Prod.mk.injEq, List.cons.injEq, and_true] at h
    exact h.2.2
  | _ =>
    have ht := eventType_eq_of_key h
    simp only [eventType, String.reduceEq] at ht

theorem articleId_of_ingestedKey {url : Text} {state : EventAssignmentState} {score : Option ℚ}
    (h : e.idempotencyKey =
      (articleIngested article event candidate url state score).idempotencyKey) :
    e.articleId = article := by
  cases e with
  | articleIngested a ev c url st sc =>
    simp only [idempotencyKey, Prod.mk.injEq, List.cons.injEq, and_true] at h
    exact h.2
  | _ =>
    have ht := eventType_eq_of_key h
    simp only [eventType, String.reduceEq] at ht

theorem versionId?_of_createdKey {sha method : Text} {warnings : List Text}
    (h : e.idempotencyKey =
      (versionCreated article version candidate sha method warnings).idempotencyKey) :
    e.versionId? = some version := by
  cases e with
  | versionCreated a v c s m w =>
    simp only [idempotencyKey, Prod.mk.injEq, List.cons.injEq, and_true] at h
    rw [versionId?, h.2]
  | _ =>
    have ht := eventType_eq_of_key h
    simp only [eventType, String.reduceEq] at ht

theorem versionId?_of_extractedKey {count : ℕ} {ids : List Uuid}
    (h : e.idempotencyKey = (claimsExtracted article version count ids).idempotencyKey) :
    e.versionId? = some version := by
  cases e with
  | claimsExtracted a v n i =>
    simp only [idempotencyKey, Prod.mk.injEq, List.cons.injEq, and_true] at h
    rw [versionId?, h.2]
  | _ =>
    have ht := eventType_eq_of_key h
    simp only [eventType, String.reduceEq] at ht

/- What is counted for an article or a version names it. -/
theorem articleId_of_ingests (h : e.ingests article = true) : e.articleId = article := by
  cases e with
  | articleIngested => simpa [ingests, articleId] using h
  | _ => contradiction

theorem articleId_of_announces (h : e.announces article = true) : e.articleId = article := by
  cases e with
  | provisionalCreated | articleLinked => simpa [announces, articleId] using h
  | _ => contradiction

theorem versionId?_of_creates (h : e.creates version = true) : e.versionId? = some version := by
  cases e with
  | versionCreated => simpa [creates, versionId?] using h
  | _ => contradiction

theorem versionId?_of_extracts (h : e.extracts version = true) :
    e.versionId? = some version := by
  cases e with
  | claimsExtracted => simpa [extracts, versionId?] using h
  | _ => contradiction

end IntegrationEvent

/-! ### Database -/

/-- The committed rows. -/
structure Db where
  candidates : List UrlCandidateModel
  events : List EventModel
  articles : List ArticleModel
  assignments : List EventAssignmentModel
  versions : List ArticleVersionModel
  claims : List ArticleClaimModel
  evidenceLinks : List ClaimEvidenceLinkModel
  verifications : List ClaimVerificationModel
  outbox : List OutboxEventModel

/-- A database with candidates only. -/
def newDb (candidates : List UrlCandidateModel) : Db where
  candidates := candidates
  events := []
  articles := []
  assignments := []
  versions := []
  claims := []
  evidenceLinks := []
  verifications := []
  outbox := []

namespace Db

def eventIds (db : Db) : List Uuid := db.events.map (·.id)
def articleIds (db : Db) : List Uuid := db.articles.map (·.id)
def claimIds (db : Db) : List Uuid := db.claims.map (·.id)

/-- Rows of `article_versions` with `article_id = article`. -/
def versionsOf (db : Db) (article : Uuid) : List ArticleVersionModel :=
  db.versions.filter (·.articleId = article)

end Db

/-- A unique constraint of the store, in the order `complete_success` flushes rows
that can violate it. -/
inductive UniqueConstraint where
  | pkEvents
  | pkArticles
  | uqArticlesNormalizedUrlHash
  | pkEventAssignments
  | pkArticleVersions
  | uqArticleVersionsArticleNumber
  | uqArticleVersionsContent
  | pkArticleClaims
  | articleVersionClaim
  | pkClaimEvidenceLinks
  | claimEvidenceRelationship
  | pkClaimVerifications
  | pkOutboxEvents
  deriving DecidableEq, Repr

/-- The rows satisfy the constraint. -/
def UniqueConstraint.holds (db : Db) : UniqueConstraint → Bool
  | pkEvents => (db.events.map (·.id)).Nodup
  | pkArticles => (db.articles.map (·.id)).Nodup
  | uqArticlesNormalizedUrlHash => (db.articles.map (·.normalizedUrlHash)).Nodup
  | pkEventAssignments => (db.assignments.map (·.id)).Nodup
  | pkArticleVersions => (db.versions.map (·.id)).Nodup
  | uqArticleVersionsArticleNumber =>
    (db.versions.map fun v => (v.articleId, v.versionNumber)).Nodup
  | uqArticleVersionsContent => (db.versions.map fun v => (v.articleId, v.contentSha256)).Nodup
  | pkArticleClaims => (db.claims.map (·.id)).Nodup
  | articleVersionClaim => (db.claims.map fun c => (c.articleVersionId, c.claimSha256)).Nodup
  | pkClaimEvidenceLinks => (db.evidenceLinks.map (·.id)).Nodup
  | claimEvidenceRelationship =>
    (db.evidenceLinks.map fun l =>
      (l.claimId, l.evidenceArticleVersionId, l.relationship)).Nodup
  | pkClaimVerifications => (db.verifications.map (·.id)).Nodup
  | pkOutboxEvents => (db.outbox.map (·.id)).Nodup

theorem UniqueConstraint.holds_setCandidates (c : UniqueConstraint) (db : Db)
    (candidates : List UrlCandidateModel) : c.holds { db with candidates } = c.holds db := by
  cases c <;> rfl

/-- All constraints, in flush order. -/
def uniqueConstraints : List UniqueConstraint :=
  [.pkEvents, .pkArticles, .uqArticlesNormalizedUrlHash, .pkEventAssignments, .pkArticleVersions,
    .uqArticleVersionsArticleNumber, .uqArticleVersionsContent, .pkArticleClaims,
    .articleVersionClaim, .pkClaimEvidenceLinks, .claimEvidenceRelationship,
    .pkClaimVerifications, .pkOutboxEvents]

theorem mem_uniqueConstraints (c : UniqueConstraint) : c ∈ uniqueConstraints := by
  cases c <;> decide

end Newsintel.ArticleStore
