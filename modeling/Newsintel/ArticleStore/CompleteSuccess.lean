import Newsintel.ArticleStore.Tables

/-!
# `complete_success` (article_processing_repository.py:273-603)

One transaction under READ COMMITTED: each of its six reads sees the database
committed at that moment, and all writes become visible together. What the
transaction writes is computed from the reads; committing applies it to the
database of that moment and checks the unique constraints. The choice of an event
(`build_event_candidates` and `decide_event_assignment`) is a function of the
references read and of the incoming article.
-/

namespace Newsintel.ArticleStore

open Newsintel.Articles Newsintel.Intelligence PyText

/-- Fields of `FetchResult` that the transaction reads. -/
structure FetchResult where
  requestedUrl : Text
  finalUrl : Text
  retrievedAt : Timestamp
  deriving DecidableEq

/-- Fields of `ExtractedArticle` that the transaction reads. -/
structure ExtractedArticle where
  title : Option Text
  byline : Option Text
  publishedAt : Option Timestamp
  language : Option Text
  canonicalUrl : Option Text
  textContent : Text
  contentSha256 : Text
  extractionMethod : Text
  warnings : List Text
  deriving DecidableEq

structure ArticleEventProfile where
  title : Text
  text : Text
  publishedAt : Option Timestamp
  observedAt : Timestamp
  deriving DecidableEq

/-- `EventAssignmentDecision` with the features of the selected candidate and those
of `provisional_event_features`. -/
structure EventAssignmentDecision where
  state : EventAssignmentState
  selectedEventId : Option Uuid
  selectedScore : Option ℚ
  selectedFeatures : List (Text × ℚ)
  provisionalFeatures : List (Text × ℚ)
  deriving DecidableEq

/-- The values `uuid7` returns during one call, by the row they identify. -/
structure FreshIds where
  event : Uuid
  article : Uuid
  assignment : Uuid
  version : Uuid
  claim : ℕ → Uuid
  evidenceLink : ℕ → Uuid
  verification : ℕ → Uuid
  outbox : ℕ → Uuid

/-- Arguments of one call. -/
structure SuccessCall where
  candidate : LeasedUrlCandidate
  traceId : Uuid
  fetched : FetchResult
  extracted : ExtractedArticle
  completedAt : Timestamp
  ids : FreshIds

structure ArticleProcessingResult where
  candidateId : Uuid
  articleId : Uuid
  eventId : Uuid
  versionId : Uuid
  createdArticle : Bool
  createdEvent : Bool
  createdVersion : Bool
  claimCount : ℕ
  deriving DecidableEq

/-! ### Writes -/

/-- Rows of a new article: its event if that is new too, the update of an existing
event, and two outbox events. -/
structure NewArticle where
  newEvent : Option EventModel
  updateEvent : EventModel → EventModel
  article : ArticleModel
  assignment : EventAssignmentModel
  announced : OutboxEventModel
  ingested : OutboxEventModel

/-- Rows of a new version. -/
structure NewVersion where
  version : ArticleVersionModel
  claims : List ArticleClaimModel
  evidenceLinks : List ClaimEvidenceLinkModel
  verifications : List ClaimVerificationModel
  created : OutboxEventModel
  extracted : OutboxEventModel

/-- What a transaction writes. `updateArticle` is the identity for a new article. -/
structure Writes where
  newArticle : Option NewArticle
  updateArticle : ArticleModel → ArticleModel
  newVersion : Option NewVersion
  updateCandidate : UrlCandidateModel → UrlCandidateModel
  result : ArticleProcessingResult

namespace Db

def insertArticle (db : Db) (n : NewArticle) : Db :=
  { db with
    events := db.events.map n.updateEvent ++ n.newEvent.toList
    articles := db.articles ++ [n.article]
    assignments := db.assignments ++ [n.assignment]
    outbox := addOutbox (addOutbox db.outbox n.announced) n.ingested }

def insertVersion (db : Db) (n : NewVersion) : Db :=
  { db with
    versions := db.versions ++ [n.version]
    claims := db.claims ++ n.claims
    evidenceLinks := db.evidenceLinks ++ n.evidenceLinks
    verifications := db.verifications ++ n.verifications
    outbox := addOutbox (addOutbox db.outbox n.created) n.extracted }

/-- The article part of a transaction. -/
def applyArticle (db : Db) (w : Writes) : Db :=
  match w.newArticle with
  | some n => db.insertArticle n
  | none => { db with articles := db.articles.map w.updateArticle }

/-- The version part. -/
def applyVersion (db : Db) (w : Writes) : Db :=
  match w.newVersion with
  | some n => db.insertVersion n
  | none => db

/-- All writes of a transaction. -/
def apply (db : Db) (w : Writes) : Db :=
  { (db.applyArticle w).applyVersion w with
    candidates := db.candidates.map w.updateCandidate }

/-- The transaction commits, or the first violated constraint aborts it. -/
def commit (db : Db) (w : Writes) : Except UniqueConstraint Db :=
  match uniqueConstraints.find? fun c => !c.holds (db.apply w) with
  | some c => .error c
  | none => .ok (db.apply w)

end Db

/-! ### Parts of the transaction -/

def fallbackTitle (extractedTitle : Option Text) (finalUrl : Text) : Text :=
  match extractedTitle with
  | some (c :: title) => (c :: title).take 1000
  | _ => finalUrl.take 1000

/-- `extracted.canonical_url or fetched.final_url`. -/
def canonicalOr (canonicalUrl : Option Text) (finalUrl : Text) : Text :=
  match canonicalUrl with
  | some (c :: url) => c :: url
  | _ => finalUrl

/-- An attribute assignment as the unit of work flushes it: a column is in the
UPDATE only if its new value differs from the value read. -/
def setColumn {α : Type} [DecidableEq α] (read new current : α) : α :=
  if new = read then current else new

/-- `ranking` of `_stronger_assignment_status`. -/
def EventAssignmentState.rank : EventAssignmentState → ℕ
  | provisional => 0
  | candidate => 1
  | confirmed => 2

def strongerAssignmentStatus (existing incoming : EventAssignmentState) : EventAssignmentState :=
  if existing.rank < incoming.rank then incoming else existing

/-- `_update_existing_event_from_assignment`, on the row at flush time. -/
def updateExistingEvent (event : EventModel) (state : EventAssignmentState)
    (observedAt updatedAt : Timestamp) (row : EventModel) : EventModel :=
  if row.id = event.id then
    { row with
      lastMaterialChangeAt := setColumn event.lastMaterialChangeAt
        (max event.lastMaterialChangeAt observedAt) row.lastMaterialChangeAt
      updatedAt := setColumn event.updatedAt updatedAt row.updatedAt
      assignmentStatus := setColumn event.assignmentStatus
        (strongerAssignmentStatus event.assignmentStatus state) row.assignmentStatus }
  else row

def newProvisionalEvent (id : Uuid) (title : Text) (detectedAt : Timestamp) : EventModel where
  id := id
  title := title
  lifecycleStatus := "active".toList
  assignmentStatus := .provisional
  firstDetectedAt := detectedAt
  lastMaterialChangeAt := detectedAt
  createdAt := detectedAt
  updatedAt := detectedAt

/-- The title of the article. -/
def SuccessCall.title (call : SuccessCall) : Text :=
  fallbackTitle call.extracted.title call.fetched.finalUrl

def SuccessCall.canonicalUrl (call : SuccessCall) : Text :=
  canonicalOr call.extracted.canonicalUrl call.fetched.finalUrl

/-- The event part of a new article (lines 299-332): the event it is linked to and
the state, score and features of the assignment. -/
structure EventChoice where
  eventId : Uuid
  newEvent : Option EventModel
  updateEvent : EventModel → EventModel
  state : EventAssignmentState
  score : Option ℚ
  features : List (Text × ℚ)

def chooseEvent (call : SuccessCall) (decision : EventAssignmentDecision) (eventAt : Db) :
    EventChoice :=
  let event := decision.selectedEventId.bind fun id => Table.get? EventModel.id id eventAt.events
  match event with
  | none =>
    { eventId := call.ids.event
      newEvent := some (newProvisionalEvent call.ids.event call.title call.fetched.retrievedAt)
      updateEvent := id
      state := .provisional
      score := none
      features := decision.provisionalFeatures }
  | some event =>
    { eventId := event.id
      newEvent := none
      updateEvent :=
        updateExistingEvent event decision.state call.fetched.retrievedAt call.completedAt
      state := decision.state
      score := decision.selectedScore
      features := decision.selectedFeatures }

/-- Lines 334-362 and the first two outbox events (lines 458-515). -/
def newArticleWrites (call : SuccessCall) (fingerprint : Bytes) (choice : EventChoice) :
    NewArticle where
  newEvent := choice.newEvent
  updateEvent := choice.updateEvent
  article :=
    { id := call.ids.article
      publisherId := call.candidate.publisherId
      eventId := choice.eventId
      canonicalUrl := call.canonicalUrl
      normalizedUrlHash := fingerprint
      title := call.title
      language := call.extracted.language
      publishedAt := call.extracted.publishedAt
      firstObservedAt := call.fetched.retrievedAt
      createdAt := call.completedAt
      updatedAt := call.completedAt }
  assignment :=
    { id := call.ids.assignment
      articleId := call.ids.article
      eventId := choice.eventId
      state := choice.state
      score := choice.score
      candidateFeatures := choice.features
      isCurrent := true
      assignedAt := call.completedAt }
  announced :=
    { id := call.ids.outbox 0
      event :=
        if choice.newEvent.isSome then
          .provisionalCreated choice.eventId call.ids.article call.candidate.id choice.features
        else
          .articleLinked choice.eventId call.ids.article call.candidate.id choice.state
            choice.score choice.features
      correlationId := call.traceId }
  ingested :=
    { id := call.ids.outbox 1
      event := .articleIngested call.ids.article choice.eventId call.candidate.id
        call.canonicalUrl choice.state choice.score
      correlationId := call.traceId }

/-- Lines 364-368: the columns of a known article, on the row at flush time. -/
def updateKnownArticle (call : SuccessCall) (article : ArticleModel) (row : ArticleModel) :
    ArticleModel :=
  if row.id = article.id then
    { row with
      canonicalUrl := setColumn article.canonicalUrl call.canonicalUrl row.canonicalUrl
      title := setColumn article.title call.title row.title
      language := setColumn article.language
        (match call.extracted.language with
          | some (c :: l) => some (c :: l)
          | _ => article.language) row.language
      publishedAt := setColumn article.publishedAt
        (call.extracted.publishedAt.or article.publishedAt) row.publishedAt
      updatedAt := setColumn article.updatedAt call.completedAt row.updatedAt }
  else row

/-- `_persist_claims_for_version` (lines 685-758): the claim rows. -/
def claimRows (u : Unicode) (ids : FreshIds) (version : ArticleVersionModel)
    (createdAt : Timestamp) : List ArticleClaimModel :=
  (extractClaims u version.textContent).zipIdx.map fun (claim, i) =>
    { id := ids.claim i
      articleId := version.articleId
      articleVersionId := version.id
      claimText := claim.text
      claimSha256 := claimSha256 u claim.text
      sentenceIndex := claim.sentenceIndex
      extractionFeatures := claim.features
      createdAt := createdAt }

/-- The origin link of each claim row. -/
def evidenceLinkRows (ids : FreshIds) (version : ArticleVersionModel) (createdAt : Timestamp)
    (claims : List ArticleClaimModel) : List ClaimEvidenceLinkModel :=
  claims.zipIdx.map fun (claim, i) =>
    { id := ids.evidenceLink i
      claimId := claim.id
      evidenceArticleId := some version.articleId
      evidenceArticleVersionId := some version.id
      sourceUrl := version.finalUrl
      sourceType := "originating_article".toList
      relationship := "origin".toList
      retrievedAt := version.retrievedAt
      createdAt := createdAt }

/-- The bootstrap verification of each claim row. -/
def verificationRows (ids : FreshIds) (createdAt : Timestamp)
    (claims : List ArticleClaimModel) : List ClaimVerificationModel :=
  claims.zipIdx.map fun (claim, i) =>
    { id := ids.verification i
      claimId := claim.id
      label := .notCheckable
      createdAt := createdAt }

/-- `select(func.max(version_number)) or 0`, plus one (lines 381-389). -/
def nextVersionNumber (db : Db) (article : Uuid) : ℕ :=
  ((db.versionsOf article).map (·.versionNumber)).foldl max 0 + 1

/-- Lines 380-425 and the last two outbox events (lines 516-560). -/
def newVersionWrites (u : Unicode) (call : SuccessCall) (article : Uuid) (numberAt : Db) :
    NewVersion :=
  let version : ArticleVersionModel :=
    { id := call.ids.version
      articleId := article
      versionNumber := nextVersionNumber numberAt article
      sourceUrl := call.fetched.requestedUrl
      finalUrl := call.fetched.finalUrl
      title := call.title
      byline := call.extracted.byline
      language := call.extracted.language
      publishedAt := call.extracted.publishedAt
      retrievedAt := call.fetched.retrievedAt
      contentSha256 := call.extracted.contentSha256
      textContent := call.extracted.textContent
      extractionMethod := call.extracted.extractionMethod
      extractionWarnings := call.extracted.warnings
      createdAt := call.completedAt }
  let claims := claimRows u call.ids version call.completedAt
  { version
    claims
    evidenceLinks := evidenceLinkRows call.ids version call.completedAt claims
    verifications := verificationRows call.ids call.completedAt claims
    created :=
      { id := call.ids.outbox 2
        event := .versionCreated article call.ids.version call.candidate.id
          call.extracted.contentSha256 call.extracted.extractionMethod call.extracted.warnings
        correlationId := call.traceId }
    extracted :=
      { id := call.ids.outbox 3
        event := .claimsExtracted article call.ids.version claims.length (claims.map (·.id))
        correlationId := call.traceId } }

/-! ### The transaction -/

/-- The databases seen by the reads, in their order. -/
structure Snapshots where
  candidateAt : Db
  articleAt : Db
  referencesAt : Db
  eventAt : Db
  versionAt : Db
  numberAt : Db

/-- The choice of an event from the references in a database. -/
abbrev DecideEvent := Db → ArticleEventProfile → EventAssignmentDecision

def SuccessCall.profile (call : SuccessCall) : ArticleEventProfile where
  title := call.title
  text := call.extracted.textContent
  publishedAt := call.extracted.publishedAt
  observedAt := call.fetched.retrievedAt

/-- `existing_version` (lines 370-375). -/
def existingVersion (db : Db) (article : Uuid) (contentSha256 : Text) :
    Option ArticleVersionModel :=
  db.versions.find? fun v => v.articleId = article ∧ v.contentSha256 = contentSha256

/-- The writes of `complete_success`; `LookupError` without the candidate row. -/
def completeSuccessWrites (u : Unicode) (decideEvent : DecideEvent) (call : SuccessCall)
    (s : Snapshots) : Except PyError Writes :=
  match Table.get? UrlCandidateModel.id call.candidate.id s.candidateAt.candidates with
  | none => .error .lookupError
  | some candidateRow =>
    let known := Table.get? ArticleModel.normalizedUrlHash candidateRow.urlFingerprint
      s.articleAt.articles
    let choice := chooseEvent call (decideEvent s.referencesAt call.profile) s.eventAt
    let articleId := (known.map (·.id)).getD call.ids.article
    let existing := existingVersion s.versionAt articleId call.extracted.contentSha256
    let newVersion :=
      match existing with
      | some _ => none
      | none => some (newVersionWrites u call articleId s.numberAt)
    .ok
      { newArticle :=
          match known with
          | some _ => none
          | none => some (newArticleWrites call candidateRow.urlFingerprint choice)
        updateArticle := (known.map (updateKnownArticle call)).getD id
        newVersion
        updateCandidate := fun row =>
          if row.id = call.candidate.id then completeSuccess articleId call.completedAt row
          else row
        result :=
          { candidateId := call.candidate.id
            articleId
            eventId := (known.map (·.eventId)).getD choice.eventId
            versionId := (existing.map (·.id)).getD call.ids.version
            createdArticle := known.isNone
            createdEvent := known.isNone && choice.newEvent.isSome
            createdVersion := existing.isNone
            claimCount := (newVersion.map (·.claims.length)).getD 0 } }

end Newsintel.ArticleStore
