import Newsintel.ArticleStore.CompleteSuccess

/-!
# What a flush writes to `url_candidates`

The repositories load a candidate with `session.get`, which takes no lock, assign to its
attributes, and flush. The UPDATE names the columns whose value is not the loaded one; the
others keep what the row holds by then.
-/

namespace Newsintel.Articles

open ArticleStore (setColumn)

/-- The row after the flush of what was assigned to a loaded candidate. -/
def flushRow (loaded assigned current : UrlCandidateModel) : UrlCandidateModel where
  id := setColumn loaded.id assigned.id current.id
  publisherId := setColumn loaded.publisherId assigned.publisherId current.publisherId
  normalizedUrl := setColumn loaded.normalizedUrl assigned.normalizedUrl current.normalizedUrl
  urlFingerprint := setColumn loaded.urlFingerprint assigned.urlFingerprint current.urlFingerprint
  state := setColumn loaded.state assigned.state current.state
  processingStage :=
    setColumn loaded.processingStage assigned.processingStage current.processingStage
  priorityScore := setColumn loaded.priorityScore assigned.priorityScore current.priorityScore
  nextFetchAt := setColumn loaded.nextFetchAt assigned.nextFetchAt current.nextFetchAt
  publishedAt := setColumn loaded.publishedAt assigned.publishedAt current.publishedAt
  firstDiscoveredAt :=
    setColumn loaded.firstDiscoveredAt assigned.firstDiscoveredAt current.firstDiscoveredAt
  leaseOwner := setColumn loaded.leaseOwner assigned.leaseOwner current.leaseOwner
  leaseExpiresAt := setColumn loaded.leaseExpiresAt assigned.leaseExpiresAt current.leaseExpiresAt
  currentWorker := setColumn loaded.currentWorker assigned.currentWorker current.currentWorker
  attemptCount := setColumn loaded.attemptCount assigned.attemptCount current.attemptCount
  articleId := setColumn loaded.articleId assigned.articleId current.articleId
  lastFetchAt := setColumn loaded.lastFetchAt assigned.lastFetchAt current.lastFetchAt
  lastError := setColumn loaded.lastError assigned.lastError current.lastError
  lastFailureCode :=
    setColumn loaded.lastFailureCode assigned.lastFailureCode current.lastFailureCode
  lastFailureMessage :=
    setColumn loaded.lastFailureMessage assigned.lastFailureMessage current.lastFailureMessage
  contentType := setColumn loaded.contentType assigned.contentType current.contentType
  processingStartedAt :=
    setColumn loaded.processingStartedAt assigned.processingStartedAt current.processingStartedAt
  processingCompletedAt :=
    setColumn loaded.processingCompletedAt assigned.processingCompletedAt
      current.processingCompletedAt
  processingDurationMs :=
    setColumn loaded.processingDurationMs assigned.processingDurationMs
      current.processingDurationMs
  stageTimestamps :=
    setColumn loaded.stageTimestamps assigned.stageTimestamps current.stageTimestamps
  createdAt := setColumn loaded.createdAt assigned.createdAt current.createdAt
  updatedAt := setColumn loaded.updatedAt assigned.updatedAt current.updatedAt

theorem setColumn_self {α : Type} [DecidableEq α] (loaded assigned : α) :
    setColumn loaded assigned loaded = assigned := by
  unfold setColumn
  split
  · rename_i h
    exact h.symm
  · rfl

/- On a row that nobody has written since, the flush writes what was assigned. -/
theorem flushRow_self (loaded assigned : UrlCandidateModel) :
    flushRow loaded assigned loaded = assigned := by
  simp only [flushRow, setColumn_self]

end Newsintel.Articles
