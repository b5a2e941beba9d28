import Mathlib.Data.Prod.Lex
import Newsintel.ArticleStore.ServedVersion
import Newsintel.Lib.OrderBy
import Newsintel.Lib.Table

/-!
# What readers are answered (application/articles/query_service.py)

A call of `ArticleQueryService` makes one statement after the other. Commits fall between them, so
each statement sees a database of its own: `reads k` is that of the statement number `k`. The
views leave out what the tables leave out: what is read of JSON columns but the claim features,
the columns that `complete_success` writes constants to (the versions of extractor and
methodology, the similarity, independence and confidence scores), and the slug of an event, which
is its id.
-/

namespace Newsintel.ArticleStore

open Newsintel.Articles Newsintel.Intelligence OrderBy PyText

/-! ### Views (application/articles/dto.py) -/

structure ArticleVersionView where
  id : Uuid
  versionNumber : ℕ
  sourceUrl : Text
  finalUrl : Text
  title : Text
  byline : Option Text
  language : Option Text
  publishedAt : Option Timestamp
  retrievedAt : Timestamp
  contentSha256 : Text
  extractionMethod : Text
  extractionWarnings : List Text
  textContent : Text
  createdAt : Timestamp

structure ArticleSummaryView where
  id : Uuid
  eventId : Uuid
  publisherId : Uuid
  canonicalUrl : Text
  title : Text
  language : Option Text
  publishedAt : Option Timestamp
  firstObservedAt : Timestamp
  latestVersionId : Option Uuid
  latestVersionNumber : Option ℕ
  latestExtractionMethod : Option Text
  latestExtractionWarnings : List Text

structure ArticleDetailView where
  id : Uuid
  eventId : Uuid
  publisherId : Uuid
  canonicalUrl : Text
  title : Text
  language : Option Text
  publishedAt : Option Timestamp
  firstObservedAt : Timestamp
  createdAt : Timestamp
  updatedAt : Timestamp
  latestVersion : Option ArticleVersionView

structure EventDetailView where
  id : Uuid
  title : Text
  lifecycleStatus : Text
  assignmentStatus : EventAssignmentState
  firstDetectedAt : Timestamp
  lastMaterialChangeAt : Timestamp
  createdAt : Timestamp
  updatedAt : Timestamp
  articles : List ArticleSummaryView

structure ClaimEvidenceLinkView where
  id : Uuid
  sourceUrl : Text
  sourceType : Text
  relationship : Text
  retrievedAt : Timestamp

structure ClaimVerificationView where
  id : Uuid
  label : ClaimVerificationLabel
  createdAt : Timestamp

structure ArticleClaimView where
  id : Uuid
  articleId : Uuid
  articleVersionId : Uuid
  claimText : Text
  claimSha256 : Text
  sentenceIndex : ℕ
  extractionFeatures : ClaimFeatures
  createdAt : Timestamp
  evidenceLinks : List ClaimEvidenceLinkView
  latestVerification : Option ClaimVerificationView

/-! ### The service -/

section service

variable (sql : Sorting)

/-- `_version_view`. -/
def versionView (version : ArticleVersionModel) : ArticleVersionView where
  id := version.id
  versionNumber := version.versionNumber
  sourceUrl := version.sourceUrl
  finalUrl := version.finalUrl
  title := version.title
  byline := version.byline
  language := version.language
  publishedAt := version.publishedAt
  retrievedAt := version.retrievedAt
  contentSha256 := version.contentSha256
  extractionMethod := version.extractionMethod
  extractionWarnings := version.extractionWarnings
  textContent := version.textContent
  createdAt := version.createdAt

/-- `_latest_version`. -/
def latestVersionOf (db : Db) (articleId : Uuid) : Option ArticleVersionModel :=
  (sql.orderByDesc (·.versionNumber) (db.versionsOf articleId)).head?

/-- `_summary_for_article`. -/
def summaryForArticle (db : Db) (article : ArticleModel) : ArticleSummaryView :=
  let latest := latestVersionOf sql db article.id
  { id := article.id
    eventId := article.eventId
    publisherId := article.publisherId
    canonicalUrl := article.canonicalUrl
    title := article.title
    language := article.language
    publishedAt := article.publishedAt
    firstObservedAt := article.firstObservedAt
    latestVersionId := latest.map (·.id)
    latestVersionNumber := latest.map (·.versionNumber)
    latestExtractionMethod := latest.map (·.extractionMethod)
    latestExtractionWarnings := (latest.map (·.extractionWarnings)).getD [] }

/-- The summaries of rows, each with a statement, the first one with this number. -/
def summaries (reads : ℕ → Db) (statement : ℕ) (articles : List ArticleModel) :
    List ArticleSummaryView :=
  (articles.zipIdx statement).map fun p => summaryForArticle sql (reads p.2) p.1

def listArticles (reads : ℕ → Db) (limit : ℕ) : List ArticleSummaryView :=
  summaries sql reads 1
    ((sql.orderByDesc (·.firstObservedAt) (reads 0).articles).take limit)

/-- The answer of `get_article`. -/
def articleDetail (db : Db) (article : ArticleModel) : ArticleDetailView where
  id := article.id
  eventId := article.eventId
  publisherId := article.publisherId
  canonicalUrl := article.canonicalUrl
  title := article.title
  language := article.language
  publishedAt := article.publishedAt
  firstObservedAt := article.firstObservedAt
  createdAt := article.createdAt
  updatedAt := article.updatedAt
  latestVersion := (latestVersionOf sql db article.id).map versionView

def getArticle (reads : ℕ → Db) (articleId : Uuid) : Option ArticleDetailView :=
  (Table.get? (·.id) articleId (reads 0).articles).map (articleDetail sql (reads 1))

/-- The answer of `get_event`. -/
def eventDetail (reads : ℕ → Db) (event : EventModel) : EventDetailView where
  id := event.id
  title := event.title
  lifecycleStatus := event.lifecycleStatus
  assignmentStatus := event.assignmentStatus
  firstDetectedAt := event.firstDetectedAt
  lastMaterialChangeAt := event.lastMaterialChangeAt
  createdAt := event.createdAt
  updatedAt := event.updatedAt
  articles := summaries sql reads 2 (sql.orderByDesc (·.firstObservedAt)
    ((reads 1).articles.filter (·.eventId = event.id)))

def getEvent (reads : ℕ → Db) (eventId : Uuid) : Option EventDetailView :=
  (Table.get? (·.id) eventId (reads 0).events).map (eventDetail sql reads)

/-- `_claim_view`: the links in one statement, the verification in the next one. -/
def claimView (linksAt verificationAt : Db) (claim : ArticleClaimModel) : ArticleClaimView where
  id := claim.id
  articleId := claim.articleId
  articleVersionId := claim.articleVersionId
  claimText := claim.claimText
  claimSha256 := claim.claimSha256
  sentenceIndex := claim.sentenceIndex
  extractionFeatures := claim.extractionFeatures
  createdAt := claim.createdAt
  evidenceLinks :=
    (sql.orderBy (·.retrievedAt) (linksAt.evidenceLinks.filter (·.claimId = claim.id))).map
      fun link =>
        { id := link.id
          sourceUrl := link.sourceUrl
          sourceType := link.sourceType
          relationship := link.relationship
          retrievedAt := link.retrievedAt }
  latestVerification :=
    (sql.orderByDesc (·.createdAt)
        (verificationAt.verifications.filter (·.claimId = claim.id))).head?.map
      fun verification =>
        { id := verification.id
          label := verification.label
          createdAt := verification.createdAt }

/-- The answer of `get_article_claims`. -/
def articleClaims (reads : ℕ → Db) (articleId : Uuid) : List ArticleClaimView :=
  ((sql.orderBy (fun c => toLex (c.createdAt, c.sentenceIndex))
    ((reads 1).claims.filter (·.articleId = articleId))).zipIdx).map fun p =>
      claimView sql (reads (2 + 2 * p.2)) (reads (3 + 2 * p.2)) p.1

def getArticleClaims (reads : ℕ → Db) (articleId : Uuid) : Option (List ArticleClaimView) :=
  (Table.get? (·.id) articleId (reads 0).articles).map fun _ => articleClaims sql reads articleId

end service

/-! ### What commits leave to readers -/

/-- Rows stay, and with them the columns that lead from one to another. -/
structure Grows (db db' : Db) : Prop where
  article : ∀ a ∈ db.articles, ∃ a' ∈ db'.articles, a'.id = a.id ∧ a'.publisherId = a.publisherId ∧
    a'.eventId = a.eventId ∧ a'.firstObservedAt = a.firstObservedAt ∧ a'.createdAt = a.createdAt
  event : ∀ e ∈ db.events, ∃ e' ∈ db'.events, e'.id = e.id ∧ e'.title = e.title ∧
    e'.firstDetectedAt = e.firstDetectedAt ∧ e'.createdAt = e.createdAt
  versions : db.versions ⊆ db'.versions
  claims : db.claims ⊆ db'.claims
  evidenceLinks : db.evidenceLinks ⊆ db'.evidenceLinks
  verifications : db.verifications ⊆ db'.verifications

theorem Grows.refl (db : Db) : Grows db db where
  article a ha := ⟨a, ha, rfl, rfl, rfl, rfl, rfl⟩
  event e he := ⟨e, he, rfl, rfl, rfl, rfl⟩
  versions := List.Subset.refl _
  claims := List.Subset.refl _
  evidenceLinks := List.Subset.refl _
  verifications := List.Subset.refl _

theorem Grows.trans {a b c : Db} (h : Grows a b) (h' : Grows b c) : Grows a c where
  article r hr := by
    obtain ⟨s, hs, hid, hpublisher, hevent, hobserved, hcreated⟩ := h.article r hr
    obtain ⟨t, ht, hid', hpublisher', hevent', hobserved', hcreated'⟩ := h'.article s hs
    exact ⟨t, ht, hid'.trans hid, hpublisher'.trans hpublisher, hevent'.trans hevent,
      hobserved'.trans hobserved, hcreated'.trans hcreated⟩
  event r hr := by
    obtain ⟨s, hs, hid, htitle, hdetected, hcreated⟩ := h.event r hr
    obtain ⟨t, ht, hid', htitle', hdetected', hcreated'⟩ := h'.event s hs
    exact ⟨t, ht, hid'.trans hid, htitle'.trans htitle, hdetected'.trans hdetected,
      hcreated'.trans hcreated⟩
  versions := List.Subset.trans h.versions h'.versions
  claims := List.Subset.trans h.claims h'.claims
  evidenceLinks := List.Subset.trans h.evidenceLinks h'.evidenceLinks
  verifications := List.Subset.trans h.verifications h'.verifications

section commits

variable {u : Unicode} {decideEvent : DecideEvent} {call : SuccessCall} {s : Snapshots}
  {w : Writes} {db : Db}

theorem updateKnownArticle_fixed (a row : ArticleModel) :
    (updateKnownArticle call a row).id = row.id ∧
      (updateKnownArticle call a row).publisherId = row.publisherId ∧
      (updateKnownArticle call a row).eventId = row.eventId ∧
      (updateKnownArticle call a row).firstObservedAt = row.firstObservedAt ∧
      (updateKnownArticle call a row).createdAt = row.createdAt := by
  unfold updateKnownArticle
  split <;> exact ⟨rfl, rfl, rfl, rfl, rfl⟩

theorem chooseEvent_fixed (decision : EventAssignmentDecision) (d : Db) (row : EventModel) :
    ((chooseEvent call decision d).updateEvent row).id = row.id ∧
      ((chooseEvent call decision d).updateEvent row).title = row.title ∧
      ((chooseEvent call decision d).updateEvent row).firstDetectedAt = row.firstDetectedAt ∧
      ((chooseEvent call decision d).updateEvent row).createdAt = row.createdAt := by
  unfold chooseEvent
  cases decision.selectedEventId.bind fun id => Table.get? EventModel.id id d.events with
  | none => exact ⟨rfl, rfl, rfl, rfl⟩
  | some event =>
    simp only
    unfold updateExistingEvent
    split <;> exact ⟨rfl, rfl, rfl, rfl⟩

theorem grows_applyArticle (hw : completeSuccessWrites u decideEvent call s = .ok w) :
    Grows db (db.applyArticle w) := by
  obtain ⟨fingerprint, hnew, _⟩ | ⟨a, _, hnone, hupdate, _⟩ := completeSuccessWrites_ok hw
  · rw [Db.applyArticle, hnew]
    refine { Grows.refl db with article := ?_, event := ?_ }
    · intro row hrow
      exact ⟨row, List.mem_append_left _ hrow, rfl, rfl, rfl, rfl, rfl⟩
    · intro row hrow
      exact ⟨_, List.mem_append_left _ (List.mem_map_of_mem hrow), chooseEvent_fixed _ _ row⟩
  · rw [Db.applyArticle, hnone]
    refine { Grows.refl db with article := ?_ }
    intro row hrow
    refine ⟨_, List.mem_map_of_mem hrow, ?_⟩
    rw [hupdate]
    exact updateKnownArticle_fixed a row

theorem grows_applyVersion : Grows db (db.applyVersion w) := by
  unfold Db.applyVersion
  cases w.newVersion with
  | none => exact Grows.refl db
  | some n =>
    exact { Grows.refl db with
      versions := List.subset_append_left _ _
      claims := List.subset_append_left _ _
      evidenceLinks := List.subset_append_left _ _
      verifications := List.subset_append_left _ _ }

theorem grows_commitCall : Grows db (commitCall u decideEvent call s db) := by
  unfold commitCall
  cases hw : completeSuccessWrites u decideEvent call s with
  | error e => exact Grows.refl db
  | ok w =>
    simp only
    cases hc : db.commit w with
    | error c => exact Grows.refl db
    | ok db' =>
      obtain ⟨rfl, _⟩ := commit_ok hc
      have happly : Grows db ((db.applyArticle w).applyVersion w) :=
        (grows_applyArticle hw).trans grows_applyVersion
      exact { happly with }

theorem grows_step {st st' : Store} {a : Step} (h : step u decideEvent st a = some st') :
    Grows st.db st'.db := by
  cases a with
  | begin call =>
    obtain rfl := Option.some.inj h
    exact Grows.refl _
  | read i =>
    obtain ⟨t, _, rfl⟩ := Option.map_eq_some_iff.mp h
    exact Grows.refl _
  | commit i =>
    obtain ⟨t, _, hcommit⟩ := Option.bind_eq_some_iff.mp h
    obtain ⟨snaps, _, rfl⟩ := Option.map_eq_some_iff.mp hcommit
    exact grows_commitCall
  | frontier candidates =>
    obtain rfl := Option.some.inj h
    exact { Grows.refl st.db with }

end commits

/-! ### Readers between commits -/

/-- The databases that a reader sees, statement by statement: those of one run. -/
def Moments (u : Unicode) (decideEvent : DecideEvent) (candidates : List UrlCandidateModel)
    (reads : ℕ → Db) : Prop :=
  ∃ stores : ℕ → Store, (∀ k, (stores k).db = reads k) ∧
    (∃ steps, Runs.exec (step u decideEvent) (newStore candidates) steps = some (stores 0)) ∧
    ∀ k, ∃ steps, Runs.exec (step u decideEvent) (stores k) steps = some (stores (k + 1))

section moments

variable {u : Unicode} {decideEvent : DecideEvent} {candidates : List UrlCandidateModel}
  {reads : ℕ → Db}

theorem Moments.consistent (h : Moments u decideEvent candidates reads) (k : ℕ) :
    Consistent (reads k) := by
  obtain ⟨stores, hdb, ⟨first, hfirst⟩, hnext⟩ := h
  have hinv : StoreInvariant (stores k) := by
    induction k with
    | zero =>
      exact Runs.invariant (storeInvariant_newStore candidates)
        (fun m a n hm hn => step_invariant hm hn) hfirst
    | succ k ih =>
      obtain ⟨steps, hsteps⟩ := hnext k
      exact Runs.invariant ih (fun m a n hm hn => step_invariant hm hn) hsteps
  exact hdb k ▸ hinv.consistent

theorem Moments.grows (h : Moments u decideEvent candidates reads) {j k : ℕ} (hle : j ≤ k) :
    Grows (reads j) (reads k) := by
  obtain ⟨stores, hdb, _, hnext⟩ := h
  rw [← hdb j, ← hdb k]
  induction hle with
  | refl => exact Grows.refl _
  | @step k hle ih =>
    obtain ⟨steps, hsteps⟩ := hnext k
    have hlast : Grows (stores k).db (stores (k + 1)).db :=
      Runs.relates_of_every (I := fun _ => True) (R := fun m n : Store => Grows m.db n.db)
        (C := fun _ _ => True) trivial (fun m => Grows.refl m.db)
        (fun _ _ _ hmn hnk => hmn.trans hnk)
        (fun _ _ _ _ _ hn => ⟨trivial, grows_step hn⟩) (fun _ _ _ _ _ _ => trivial) hsteps
    exact ih.trans hlast

end moments

/-! ### Single answers -/

section answers

variable {sql : Sorting} {db : Db} {reads : ℕ → Db}

theorem mem_versionsOf {v : ArticleVersionModel} {articleId : Uuid} :
    v ∈ db.versionsOf articleId ↔ v ∈ db.versions ∧ v.articleId = articleId := by
  rw [Db.versionsOf, List.mem_filter, decide_eq_true_eq]

/- An article is served with its highest number. -/
theorem latestVersionOf_some (sql : Sorting) (h : Consistent db) {articleId : Uuid}
    (harticle : articleId ∈ db.articleIds) :
    ∃ v, latestVersionOf sql db articleId = some v ∧ v ∈ db.versionsOf articleId ∧
      ∀ w ∈ db.versionsOf articleId, w.versionNumber ≤ v.versionNumber := by
  obtain ⟨a, ha, rfl⟩ := List.mem_map.mp harticle
  have hsome : (latestVersionOf sql db a.id).isSome = true :=
    Sorting.head?_isSome.mpr (h.versioned a ha)
  obtain ⟨v, hv⟩ := Option.isSome_iff_exists.mp hsome
  exact ⟨v, hv, Sorting.head?_orderByDesc hv⟩

/- However the database sorts, it is the version that the last stored content has. -/
theorem latestVersionOf_eq (h : Consistent db) {articleId : Uuid}
    (harticle : articleId ∈ db.articleIds) :
    latestVersionOf sql db articleId = latestVersion db articleId := by
  obtain ⟨v, hv, hmem, hhigh⟩ := latestVersionOf_some sql h harticle
  rw [hv, latestVersion]
  refine (Ranking.head?_ranked hmem ?_).symm
  intro w hw hne
  refine lt_of_le_of_ne (hhigh w hw) fun hsame => hne ?_
  obtain ⟨hmem, ha⟩ := mem_versionsOf.mp hmem
  obtain ⟨hw, hwa⟩ := mem_versionsOf.mp hw
  refine List.inj_on_of_nodup_map (of_decide_eq_true (h.unique .uqArticleVersionsArticleNumber)) hw
    hmem ?_
  rw [Prod.mk.injEq]
  exact ⟨hwa.trans ha.symm, hsame⟩

theorem summaries_length (statement : ℕ) (articles : List ArticleModel) :
    (summaries sql reads statement articles).length = articles.length := by
  rw [summaries, List.length_map, List.length_zipIdx]

theorem summaries_map {α : Type} (f : ArticleSummaryView → α) (g : ArticleModel → α)
    (hfg : ∀ d a, f (summaryForArticle sql d a) = g a) (statement : ℕ)
    (articles : List ArticleModel) :
    (summaries sql reads statement articles).map f = articles.map g := by
  rw [summaries, List.map_map]
  induction articles generalizing statement with
  | nil => rfl
  | cons a articles ih =>
    rw [List.zipIdx_cons, List.map_cons, List.map_cons, ih]
    exact congrArg (· :: _) (hfg _ _)

/- Which statement a summary comes from. -/
theorem mem_summaries {summary : ArticleSummaryView} {statement : ℕ}
    {articles : List ArticleModel} (h : summary ∈ summaries sql reads statement articles) :
    ∃ a ∈ articles, ∃ k, statement ≤ k ∧ k < statement + articles.length ∧
      summary = summaryForArticle sql (reads k) a := by
  obtain ⟨⟨a, k⟩, hp, rfl⟩ := List.mem_map.mp h
  obtain ⟨hlow, hhigh, ha⟩ := List.mem_zipIdx hp
  exact ⟨a, ha ▸ List.getElem_mem _, k, hlow, hhigh, rfl⟩

/-- The newest articles, and each with a version. -/
structure ListsNewest (db : Db) (limit : ℕ) (answer : List ArticleSummaryView) : Prop where
  length : answer.length = min limit db.articles.length
  distinct : (answer.map (·.id)).Nodup
  stored : ∀ summary ∈ answer, ∃ a ∈ db.articles, summary.id = a.id ∧
    summary.eventId = a.eventId ∧ summary.publisherId = a.publisherId ∧
    summary.canonicalUrl = a.canonicalUrl ∧ summary.title = a.title ∧
    summary.language = a.language ∧ summary.publishedAt = a.publishedAt ∧
    summary.firstObservedAt = a.firstObservedAt
  ordered : (answer.map (·.firstObservedAt)).Pairwise (· ≥ ·)
  newest : ∀ a ∈ db.articles, a.id ∉ answer.map (·.id) →
    ∀ summary ∈ answer, a.firstObservedAt ≤ summary.firstObservedAt
  served : ∀ summary ∈ answer, summary.latestVersionId.isSome = true

variable {u : Unicode} {decideEvent : DecideEvent} {candidates : List UrlCandidateModel}

/- A summary of a row that is there has a version. -/
theorem Moments.served (sql : Sorting) (h : Moments u decideEvent candidates reads) {k : ℕ} {a : ArticleModel}
    {j : ℕ} (hle : j ≤ k) (ha : a ∈ (reads j).articles) :
    ∃ v, latestVersionOf sql (reads k) a.id = some v ∧ v ∈ (reads k).versionsOf a.id ∧
      ∀ w ∈ (reads k).versionsOf a.id, w.versionNumber ≤ v.versionNumber := by
  obtain ⟨a', ha', hid, _⟩ := (h.grows hle).article a ha
  exact latestVersionOf_some sql (h.consistent k) (hid ▸ List.mem_map_of_mem ha')

end answers

/- Lists, whatever commits in between. -/
theorem listArticles_newest {sql : Sorting} {u : Unicode} {decideEvent : DecideEvent}
    {candidates : List UrlCandidateModel} {reads : ℕ → Db}
    (h : Moments u decideEvent candidates reads) (limit : ℕ) :
    ListsNewest (reads 0) limit (listArticles sql reads limit) := by
  have hids := of_decide_eq_true ((h.consistent 0).unique .pkArticles)
  have hlistedIds : (listArticles sql reads limit).map (·.id) =
      ((sql.orderByDesc (·.firstObservedAt) (reads 0).articles).take limit).map (·.id) :=
    summaries_map (·.id) (·.id) (fun _ _ => rfl) _ _
  have hrow : ∀ summary ∈ listArticles sql reads limit, ∃ a ∈ (sql.orderByDesc (·.firstObservedAt)
      (reads 0).articles).take limit, ∃ k, summary = summaryForArticle sql (reads k) a := by
    intro summary hsummary
    obtain ⟨a, ha, k, _, _, hk⟩ := mem_summaries hsummary
    exact ⟨a, ha, k, hk⟩
  constructor
  case length =>
    rw [listArticles, summaries_length, Sorting.length_take]
  case distinct =>
    rw [hlistedIds]
    have hall := (sql.orderByDesc_perm (·.firstObservedAt) (reads 0).articles).map (·.id)
    exact (hall.nodup_iff.mpr hids).sublist ((List.take_sublist _ _).map _)
  case stored =>
    intro summary hsummary
    obtain ⟨a, ha, k, rfl⟩ := hrow summary hsummary
    exact ⟨a, Sorting.mem_of_mem_take ha, rfl, rfl, rfl, rfl, rfl, rfl, rfl, rfl⟩
  case ordered =>
    have hobserved : (listArticles sql reads limit).map (·.firstObservedAt) =
        ((sql.orderByDesc (·.firstObservedAt) (reads 0).articles).take limit).map
          (·.firstObservedAt) :=
      summaries_map (·.firstObservedAt) (·.firstObservedAt) (fun _ _ => rfl) _ _
    have hsorted : ((sql.orderByDesc (·.firstObservedAt) (reads 0).articles).map
        (·.firstObservedAt)).Pairwise (· ≥ ·) :=
      List.pairwise_map.mpr (sql.orderByDesc_sorted (·.firstObservedAt) (reads 0).articles)
    rw [hobserved]
    exact hsorted.sublist ((List.take_sublist _ _).map _)
  case newest =>
    intro a ha hout summary hsummary
    rw [hlistedIds] at hout
    obtain ⟨b, hb, k, rfl⟩ := hrow summary hsummary
    exact Sorting.le_of_not_mem_take hb ha fun hmem => hout (List.mem_map_of_mem hmem)
  case served =>
    intro summary hsummary
    obtain ⟨a, ha, k, rfl⟩ := hrow summary hsummary
    obtain ⟨v, hv, _⟩ := h.served sql (Nat.zero_le k) (Sorting.mem_of_mem_take ha)
    rw [summaryForArticle, hv]
    rfl

/- The first statements see one state of a run, the others a later one. -/
theorem moments_of_runs {u : Unicode} {decideEvent : DecideEvent}
    {candidates : List UrlCandidateModel} {pre post : List Step} {st st' : Store}
    (hpre : Runs.exec (step u decideEvent) (newStore candidates) pre = some st)
    (hpost : Runs.exec (step u decideEvent) st post = some st') (n : ℕ) :
    Moments u decideEvent candidates fun k => if k ≤ n then st.db else st'.db := by
  refine ⟨fun k => if k ≤ n then st else st', ?_, ⟨pre, hpre⟩, ?_⟩
  · intro k
    exact apply_ite Store.db _ _ _
  · intro k
    simp only
    by_cases hk : k + 1 ≤ n
    · rw [if_pos hk, if_pos (by omega)]
      exact ⟨[], rfl⟩
    · rw [if_neg hk]
      by_cases hlast : k ≤ n
      · rw [if_pos hlast]
        exact ⟨post, hpost⟩
      · rw [if_neg hlast]
        exact ⟨[], rfl⟩

/-- A second candidate, and a call about it. -/
def otherCandidate : UrlCandidateModel :=
  { sampleCandidate with
    id := 2
    normalizedUrl := "https://example.com/news/2026/06/27/another-long-story".toList
    urlFingerprint := [2] }

def otherCall : SuccessCall :=
  { sampleCall 2000 "c".toList "Another one.".toList with
    candidate := leasedCopy otherCandidate
    fetched := ⟨otherCandidate.normalizedUrl, otherCandidate.normalizedUrl, seconds 2000⟩ }

/-- An article for each candidate, and then a second content of the first one. -/
def twoArticles : List Step :=
  .begin (sampleCall 1000 "a".toList "First.".toList) :: readsAndCommit 0 ++
    .begin otherCall :: readsAndCommit 0

def secondContent : List Step :=
  .begin (sampleCall 3000 "b".toList "Second.".toList) :: readsAndCommit 0

/- The newer article comes first, and alone with a limit of one. The content of the older one is
replaced before the third statement, which finds the new version. -/
theorem twoArticles_newest : ∃ st st' : Store,
    ListsNewest st.db 1 (listArticles stable (fun k => if k ≤ 1 then st.db else st'.db) 1) ∧
      (listArticles stable (fun k => if k ≤ 1 then st.db else st'.db) 1).map (·.id) = [2001] ∧
      ListsNewest st.db 2 (listArticles stable (fun k => if k ≤ 1 then st.db else st'.db) 2) ∧
      (listArticles stable (fun k => if k ≤ 1 then st.db else st'.db) 2).map
        (fun summary => (summary.id, summary.latestVersionNumber)) =
          [(2001, some 1), (1001, some 2)] := by
  have hrun : (Runs.exec (step asciiUnicode noMatch) (newStore [sampleCandidate, otherCandidate])
      twoArticles).any (fun st => (Runs.exec (step asciiUnicode noMatch) st secondContent).any
        fun st' =>
          (listArticles stable (fun k => if k ≤ 1 then st.db else st'.db) 1).map (·.id) = [2001] &&
            (listArticles stable (fun k => if k ≤ 1 then st.db else st'.db) 2).map
              (fun summary => (summary.id, summary.latestVersionNumber)) =
                [(2001, some 1), (1001, some 2)]) = true := by decide +kernel
  obtain ⟨st, hst, hlater⟩ := (Option.any_eq_true _ _).mp hrun
  obtain ⟨st', hst', hlists⟩ := (Option.any_eq_true _ _).mp hlater
  rw [Bool.and_eq_true, decide_eq_true_eq, decide_eq_true_eq] at hlists
  have hmoments := moments_of_runs hst hst' 1
  exact ⟨st, st', listArticles_newest hmoments 1, hlists.1, listArticles_newest hmoments 2,
    hlists.2⟩

/- At rest, every article is listed under one event. -/
theorem getEvent_partition {sql : Sorting} {u : Unicode} {decideEvent : DecideEvent}
    {candidates : List UrlCandidateModel} {steps : List Step} {st : Store}
    (h : Runs.exec (step u decideEvent) (newStore candidates) steps = some st) :
    (st.db.eventIds.flatMap fun eventId =>
      ((getEvent sql (fun _ => st.db) eventId).map fun event =>
        event.articles.map (·.id)).getD []).Perm st.db.articleIds := by
  have hdb : Consistent st.db := (Runs.invariant (storeInvariant_newStore candidates)
    (fun m a n hm hn => step_invariant hm hn) h).consistent
  have hevents := of_decide_eq_true (hdb.unique .pkEvents)
  have harticles := of_decide_eq_true (hdb.unique .pkArticles)
  have hlisted : ∀ eventId ∈ st.db.eventIds,
      (((getEvent sql (fun _ => st.db) eventId).map fun event =>
        event.articles.map (·.id)).getD []).Perm
          ((st.db.articles.filter (·.eventId = eventId)).map (·.id)) := by
    intro eventId hid
    obtain ⟨event, he, rfl⟩ := List.mem_map.mp hid
    rw [getEvent, Table.get?_of_mem hevents he rfl, Option.map_some, Option.map_some,
      Option.getD_some, eventDetail, summaries_map (·.id) (·.id) fun _ _ => rfl]
    exact (sql.orderByDesc_perm _ _).map _
  refine (List.Perm.flatMap_left _ hlisted).trans ?_
  refine (List.perm_ext_iff_of_nodup ?_ harticles).mpr ?_
  · refine List.nodup_flatMap.mpr ⟨fun eventId _ => harticles.sublist (List.filter_sublist.map _), ?_⟩
    refine hevents.imp ?_
    intro e e' hne id hid hid'
    obtain ⟨a, ha, rfl⟩ := List.mem_map.mp hid
    obtain ⟨a', ha', hsame⟩ := List.mem_map.mp hid'
    obtain ⟨ha, hae⟩ := List.mem_filter.mp ha
    obtain ⟨ha', hae'⟩ := List.mem_filter.mp ha'
    obtain rfl := List.inj_on_of_nodup_map harticles ha ha' hsame.symm
    exact hne ((of_decide_eq_true hae).symm.trans (of_decide_eq_true hae'))
  · intro id
    constructor
    · intro hid
      obtain ⟨eventId, _, hid⟩ := List.mem_flatMap.mp hid
      obtain ⟨a, ha, rfl⟩ := List.mem_map.mp hid
      exact List.mem_map_of_mem (List.mem_filter.mp ha).1
    · intro hid
      obtain ⟨a, ha, rfl⟩ := List.mem_map.mp hid
      refine List.mem_flatMap.mpr ⟨a.eventId, hdb.articleEvent a ha, ?_⟩
      exact List.mem_map_of_mem (List.mem_filter.mpr ⟨ha, decide_eq_true rfl⟩)

/- Two articles under two events. -/
theorem twoArticles_partition : ∃ st,
    Runs.exec (step asciiUnicode noMatch) (newStore [sampleCandidate, otherCandidate])
        twoArticles = some st ∧
      st.db.eventIds = [1000, 2000] ∧ st.db.articleIds = [1001, 2001] ∧
      (st.db.eventIds.flatMap fun eventId =>
        ((getEvent stable (fun _ => st.db) eventId).map fun event =>
          event.articles.map (·.id)).getD []).Perm st.db.articleIds := by
  have hruns : (Runs.exec (step asciiUnicode noMatch) (newStore [sampleCandidate, otherCandidate])
      twoArticles).any (fun st => st.db.eventIds = [1000, 2000] &&
        st.db.articleIds = [1001, 2001]) = true := by decide +kernel
  obtain ⟨st, hst, hids⟩ := (Option.any_eq_true _ _).mp hruns
  rw [Bool.and_eq_true, decide_eq_true_eq, decide_eq_true_eq] at hids
  exact ⟨st, hst, hids.1, hids.2, getEvent_partition hst⟩

/-! ### One call after the other -/

/-- The ids of a listed article are followed from the statement `now` on. -/
structure LeadsOn (sql : Sorting) (reads : ℕ → Db) (now : ℕ) (summary : ArticleSummaryView) :
    Prop where
  /-- its details, with a version that is not older -/
  article : ∃ detail listed version,
    getArticle sql (fun k => reads (now + k)) summary.id = some detail ∧
      detail.id = summary.id ∧ detail.eventId = summary.eventId ∧
      detail.publisherId = summary.publisherId ∧
      detail.firstObservedAt = summary.firstObservedAt ∧
      summary.latestVersionNumber = some listed ∧ detail.latestVersion = some version ∧
      listed ≤ version.versionNumber
  /-- its event, with the article among those of the event -/
  event : ∃ event, getEvent sql (fun k => reads (now + k)) summary.eventId = some event ∧
    event.id = summary.eventId ∧ summary.id ∈ event.articles.map (·.id) ∧
    ∀ other ∈ event.articles, other.eventId = event.id ∧ other.latestVersionId.isSome = true
  /-- its claims, each with its origin and a verification -/
  claims : ∃ claims, getArticleClaims sql (fun k => reads (now + k)) summary.id = some claims ∧
    ∀ claim ∈ claims, claim.articleId = summary.id ∧
      (∃ link ∈ claim.evidenceLinks, link.relationship = "origin".toList) ∧
      claim.latestVerification.isSome = true

section following

variable {sql : Sorting} {u : Unicode} {decideEvent : DecideEvent}
  {candidates : List UrlCandidateModel} {reads : ℕ → Db}

/- A row that a statement has seen is found by every later one. -/
theorem Moments.get? (h : Moments u decideEvent candidates reads) {j k : ℕ} (hle : j ≤ k)
    {a : ArticleModel} (ha : a ∈ (reads j).articles) :
    ∃ a', Table.get? (·.id) a.id (reads k).articles = some a' ∧ a'.id = a.id ∧
      a'.publisherId = a.publisherId ∧ a'.eventId = a.eventId ∧
      a'.firstObservedAt = a.firstObservedAt := by
  obtain ⟨a', ha', hid, hpublisher, hevent, hobserved, _⟩ := (h.grows hle).article a ha
  have hids := of_decide_eq_true ((h.consistent k).unique .pkArticles)
  exact ⟨a', Table.get?_of_mem hids ha' hid, hid, hpublisher, hevent, hobserved⟩

theorem Moments.get?_event (h : Moments u decideEvent candidates reads) {j k : ℕ} (hle : j ≤ k)
    {a : ArticleModel} (ha : a ∈ (reads j).articles) :
    ∃ e, Table.get? (·.id) a.eventId (reads k).events = some e ∧ e.id = a.eventId := by
  obtain ⟨a', ha', _, _, hevent, _⟩ := (h.grows hle).article a ha
  have hmem := (h.consistent k).articleEvent a' ha'
  rw [hevent] at hmem
  obtain ⟨e, he, hid⟩ := List.mem_map.mp hmem
  have hids := of_decide_eq_true ((h.consistent k).unique .pkEvents)
  exact ⟨e, Table.get?_of_mem hids he hid, hid⟩

/- A claim has its origin and a verification in every statement from its own on. -/
theorem Moments.claimView (h : Moments u decideEvent candidates reads) {j k l : ℕ} (hjk : j ≤ k)
    (hjl : j ≤ l) {claim : ArticleClaimModel} (hclaim : claim ∈ (reads j).claims) :
    (∃ link ∈ (claimView sql (reads k) (reads l) claim).evidenceLinks,
        link.relationship = "origin".toList) ∧
      (claimView sql (reads k) (reads l) claim).latestVerification.isSome = true := by
  constructor
  · have hone := (h.consistent k).oneOrigin claim ((h.grows hjk).claims hclaim)
    obtain ⟨link, hlink, hmatch⟩ := List.countP_pos_iff.mp (hone ▸ Nat.one_pos)
    rw [Bool.and_eq_true, decide_eq_true_eq, decide_eq_true_eq] at hmatch
    refine ⟨_, List.mem_map_of_mem (Sorting.mem_orderBy.mpr (List.mem_filter.mpr
      ⟨hlink, decide_eq_true hmatch.1⟩)), hmatch.2⟩
  · have hone := (h.consistent l).oneNotCheckable claim ((h.grows hjl).claims hclaim)
    obtain ⟨verification, hverification, hmatch⟩ := List.countP_pos_iff.mp (hone ▸ Nat.one_pos)
    rw [Bool.and_eq_true, decide_eq_true_eq] at hmatch
    rw [ArticleStore.claimView, Option.isSome_map]
    refine Sorting.head?_isSome.mpr (List.ne_nil_of_mem (List.mem_filter.mpr
      ⟨hverification, decide_eq_true hmatch.1⟩))

end following

/- What a list names is there for every call after it, and not older. -/
theorem listArticles_leadsOn {sql : Sorting} {u : Unicode} {decideEvent : DecideEvent}
    {candidates : List UrlCandidateModel} {reads : ℕ → Db}
    (h : Moments u decideEvent candidates reads) (limit : ℕ) :
    ∀ summary ∈ listArticles sql reads limit, ∀ now, limit < now →
      LeadsOn sql reads now summary := by
  intro summary hsummary now hnow
  obtain ⟨a, ha, k, _, hk, rfl⟩ := mem_summaries hsummary
  have hlimit : k ≤ now := by
    have hlength := List.length_take_le limit (sql.orderByDesc (·.firstObservedAt)
      (reads 0).articles)
    omega
  have ha : a ∈ (reads 0).articles := Sorting.mem_of_mem_take ha
  constructor
  case article =>
    obtain ⟨a', hget, hid, hpublisher, hevent, hobserved⟩ := h.get? (Nat.zero_le (now + 0)) ha
    obtain ⟨v, hv, hmem, _⟩ := h.served sql (Nat.zero_le k) ha
    obtain ⟨w, hw, _, hhigh⟩ := h.served sql (Nat.zero_le (now + 1)) ha
    refine ⟨articleDetail sql (reads (now + 1)) a', v.versionNumber, versionView w,
      congrArg (Option.map _) hget, hid, hevent, hpublisher, hobserved, ?_, ?_, ?_⟩
    · rw [summaryForArticle, hv]
      rfl
    · rw [articleDetail, hid, hw]
      rfl
    · refine hhigh v ?_
      obtain ⟨hmem, harticle⟩ := mem_versionsOf.mp hmem
      exact mem_versionsOf.mpr ⟨(h.grows (by omega)).versions hmem, harticle⟩
  case event =>
    obtain ⟨e, hget, hid⟩ := h.get?_event (Nat.zero_le (now + 0)) ha
    refine ⟨eventDetail sql (fun k => reads (now + k)) e, congrArg (Option.map _) hget, hid, ?_, ?_⟩
    · obtain ⟨a', ha', hida, _, heventa, _⟩ := (h.grows (Nat.zero_le (now + 1))).article a ha
      rw [eventDetail, summaries_map (·.id) (·.id) fun _ _ => rfl]
      refine List.mem_map.mpr ⟨a', Sorting.mem_orderByDesc.mpr (List.mem_filter.mpr ⟨ha', ?_⟩), hida⟩
      rw [decide_eq_true_eq, hid]
      exact heventa
    · intro other hother
      have hother : other ∈ summaries sql (fun k => reads (now + k)) 2 _ := hother
      obtain ⟨b, hb, j, hj, _, rfl⟩ := mem_summaries hother
      obtain ⟨hb, hbe⟩ := List.mem_filter.mp (Sorting.mem_orderByDesc.mp hb)
      obtain ⟨w, hw, _⟩ := h.served sql (show now + 1 ≤ now + j by omega) hb
      refine ⟨of_decide_eq_true hbe, ?_⟩
      rw [summaryForArticle, hw]
      rfl
  case claims =>
    obtain ⟨a', hget, _⟩ := h.get? (Nat.zero_le (now + 0)) ha
    refine ⟨articleClaims sql (fun k => reads (now + k)) a.id, congrArg (Option.map _) hget, ?_⟩
    intro claim hclaim
    obtain ⟨⟨row, place⟩, hrow, rfl⟩ := List.mem_map.mp hclaim
    obtain ⟨_, _, hrow⟩ := List.mem_zipIdx hrow
    have hrow := List.mem_filter.mp (Sorting.mem_orderBy.mp (hrow ▸ List.getElem_mem _))
    exact ⟨of_decide_eq_true hrow.2,
      h.claimView (show now + 1 ≤ now + (2 + 2 * place) by omega) (by omega) hrow.1⟩

/- The first content is stored, and replaced before the third statement. -/
theorem replacedOnce_moments : ∃ st st' : Store,
    Moments asciiUnicode noMatch [sampleCandidate] (fun k => if k ≤ 1 then st.db else st'.db) ∧
      st.db.articles.map (·.id) = [1001] ∧
      st.db.versions.map (·.versionNumber) = [1] ∧ st'.db.versions.map (·.versionNumber) = [1, 2] := by
  have hpre : (Runs.exec (step asciiUnicode noMatch) (newStore [sampleCandidate])
      (replacedOnce.take 8)).any (fun st => st.db.articles.map (·.id) = [1001] &&
        st.db.versions.map (·.versionNumber) = [1]) = true := by decide +kernel
  have hrun : (Runs.exec (step asciiUnicode noMatch) (newStore [sampleCandidate])
      replacedOnce).any (fun st => st.db.versions.map (·.versionNumber) = [1, 2]) = true := by
    decide +kernel
  obtain ⟨st, hst, hrows⟩ := (Option.any_eq_true _ _).mp hpre
  obtain ⟨st', hst', hlater⟩ := (Option.any_eq_true _ _).mp hrun
  rw [← List.take_append_drop 8 replacedOnce] at hst'
  obtain ⟨middle, hmiddle, hpost⟩ := Runs.exec_append_some.mp hst'
  obtain rfl := Option.some.inj (hst.symm.trans hmiddle)
  rw [Bool.and_eq_true, decide_eq_true_eq, decide_eq_true_eq] at hrows
  exact ⟨st, st', moments_of_runs hst hpost 1, hrows.1, hrows.2, of_decide_eq_true hlater⟩

theorem replacedOnce_leadsOn : ∃ reads summary,
    summary ∈ listArticles stable reads 1 ∧ summary.id = 1001 ∧ LeadsOn stable reads 2 summary := by
  obtain ⟨st, st', hmoments, hids, _, _⟩ := replacedOnce_moments
  have hlength : (listArticles stable (fun k => if k ≤ 1 then st.db else st'.db) 1).length = 1 := by
    have hone := congrArg List.length hids
    rw [List.length_map] at hone
    rw [listArticles, summaries_length, Sorting.length_take]
    show min 1 st.db.articles.length = 1
    rw [hone]
    rfl
  obtain ⟨summary, hsummary⟩ := List.exists_mem_of_length_pos (hlength ▸ Nat.one_pos)
  refine ⟨_, summary, hsummary, ?_, listArticles_leadsOn hmoments 1 summary hsummary 2 (by decide)⟩
  obtain ⟨a, ha, k, _, _, rfl⟩ := mem_summaries hsummary
  have hmem : a.id ∈ st.db.articles.map (·.id) :=
    List.mem_map_of_mem (Sorting.mem_of_mem_take ha)
  rw [hids] at hmem
  exact List.mem_singleton.mp hmem

end Newsintel.ArticleStore
