import Newsintel.ArticleStore.StoreRuns

/-!
# Redelivered articles

A call of `complete_success` that finds what an earlier call for its candidate has stored. It
updates the columns of the article and adds no row.
-/

namespace Newsintel.ArticleStore

open Newsintel.Articles Newsintel.Intelligence PyText

/-- Nothing is committed while the transaction reads. -/
def still (db : Db) : Snapshots := ⟨db, db, db, db, db, db⟩

/-- The call commits on the database, writes `w` and leaves `db'`. -/
def Commits (u : Unicode) (decideEvent : DecideEvent) (call : SuccessCall) (db : Db) (w : Writes)
    (db' : Db) : Prop :=
  completeSuccessWrites u decideEvent call (still db) = .ok w ∧ db.commit w = .ok db'

/-- No row is added, and events are left alone. -/
structure SameRows (db db' : Db) : Prop where
  events : db'.events = db.events
  articles : db'.articleIds = db.articleIds
  assignments : db'.assignments = db.assignments
  versions : db'.versions = db.versions
  claims : db'.claims = db.claims
  evidenceLinks : db'.evidenceLinks = db.evidenceLinks
  verifications : db'.verifications = db.verifications
  outbox : db'.outbox = db.outbox

/-- The database has the article and the version of the result, for the fingerprint and the
content of the call. -/
structure Delivered (call : SuccessCall) (result : ArticleProcessingResult) (db : Db) : Prop where
  candidate : ∃ row a, Table.get? UrlCandidateModel.id call.candidate.id db.candidates = some row ∧
    Table.get? ArticleModel.normalizedUrlHash row.urlFingerprint db.articles = some a ∧
    a.id = result.articleId ∧ a.eventId = result.eventId
  version : ∃ v, existingVersion db result.articleId call.extracted.contentSha256 = some v ∧
    v.id = result.versionId

variable {u : Unicode} {decideEvent : DecideEvent} {call second : SuccessCall} {w : Writes}
  {db db' : Db}

/-! ### What a commit leaves behind -/

theorem candidateUpdate_keys (call : SuccessCall) (article : Uuid) (row : UrlCandidateModel) :
    (candidateUpdate call article row).id = row.id ∧
      (candidateUpdate call article row).urlFingerprint = row.urlFingerprint := by
  unfold candidateUpdate
  split
  · unfold completeSuccess writeDuration
    cases row.processingStartedAt <;> exact ⟨rfl, rfl⟩
  · exact ⟨rfl, rfl⟩

theorem updateKnownArticle_hash (a row : ArticleModel) :
    (updateKnownArticle call a row).normalizedUrlHash = row.normalizedUrlHash := by
  unfold updateKnownArticle
  split <;> rfl

/- A committed call has delivered its article. -/
theorem delivered_of_commits (h : Commits u decideEvent call db w db') :
    Delivered call w.result db' := by
  obtain ⟨hw, hcommit⟩ := h
  obtain ⟨rfl, _⟩ := commit_ok hcommit
  obtain ⟨row, hrow, hcandidate, harticle, hcontent⟩ := completeSuccessWrites_cases hw
  constructor
  case candidate =>
    have hfound : Table.get? UrlCandidateModel.id call.candidate.id (db.apply w).candidates =
        some (candidateUpdate call w.result.articleId row) := by
      show Table.get? _ _ (db.candidates.map w.updateCandidate) = _
      rw [hcandidate, Table.get?_map fun r => (candidateUpdate_keys call _ r).1]
      exact congrArg (Option.map _) hrow
    obtain ⟨hnone, hnew, hid, hevent⟩ | ⟨a, hsome, hnone, hupdate, hid, hevent⟩ := harticle
    · have hadded : Table.get? ArticleModel.normalizedUrlHash row.urlFingerprint
          (db.apply w).articles = some (newArticleWrites call row.urlFingerprint
            (chooseEvent call (decideEvent db call.profile) db)).article := by
        rw [articles_apply, Db.applyArticle, hnew]
        exact Table.get?_append_new hnone rfl
      rw [← (candidateUpdate_keys call w.result.articleId row).2] at hadded
      exact ⟨_, _, hfound, hadded, hid.symm, hevent.symm⟩
    · refine ⟨_, updateKnownArticle call a a, hfound, ?_, ?_, ?_⟩
      · rw [(candidateUpdate_keys call _ row).2, articles_apply, Db.applyArticle, hnone, hupdate]
        show Table.get? _ _ (db.articles.map (updateKnownArticle call a)) = _
        rw [Table.get?_map fun r => updateKnownArticle_hash a r]
        exact congrArg (Option.map _) hsome
      · rw [(updateKnownArticle_keys a a).1, hid]
      · rw [(updateKnownArticle_keys a a).2, hevent]
  case version =>
    rw [existingVersion, versions_apply, Db.applyVersion]
    obtain ⟨hnone, hnew, hid⟩ | ⟨v, hsome, hnone, hid⟩ := hcontent
    · refine ⟨(newVersionWrites u call w.result.articleId db).version, ?_, hid.symm⟩
      rw [hnew]
      show List.find? _ (db.versions ++ [_]) = _
      have hnone : db.versions.find? (fun v => v.articleId = w.result.articleId ∧
        v.contentSha256 = call.extracted.contentSha256) = none := hnone
      rw [List.find?_append, hnone, Option.none_or, List.find?_singleton]
      simp only [newVersionWrites, and_self, decide_true, if_true]
      rfl
    · rw [hnone]
      exact ⟨v, hsome, hid.symm⟩

/-! ### A call for what is there -/

/-- The writes for a known article whose content is stored. -/
def redeliveryWrites (call : SuccessCall) (a : ArticleModel) (result : ArticleProcessingResult) :
    Writes where
  newArticle := none
  updateArticle := updateKnownArticle call a
  newVersion := none
  updateCandidate := candidateUpdate call result.articleId
  result :=
    { candidateId := call.candidate.id
      articleId := result.articleId
      eventId := result.eventId
      versionId := result.versionId
      createdArticle := false
      createdEvent := false
      createdVersion := false
      claimCount := 0 }

theorem redelivery_sameRows (a : ArticleModel) (result : ArticleProcessingResult) :
    SameRows db (db.apply (redeliveryWrites call a result)) where
  events := rfl
  articles := updateKnownArticle_ids
  assignments := rfl
  versions := rfl
  claims := rfl
  evidenceLinks := rfl
  verifications := rfl
  outbox := rfl

/- No key changes. -/
theorem redelivery_holds (a : ArticleModel) (result : ArticleProcessingResult)
    (c : UniqueConstraint) :
    c.holds (db.apply (redeliveryWrites call a result)) = c.holds db := by
  have hhashes : (db.articles.map (updateKnownArticle call a)).map (·.normalizedUrlHash) =
      db.articles.map (·.normalizedUrlHash) := by
    rw [List.map_map]
    exact List.map_congr_left fun row _ => updateKnownArticle_hash a row
  cases c with
  | pkArticles =>
    show decide ((db.articles.map (updateKnownArticle call a)).map (·.id)).Nodup = _
    rw [updateKnownArticle_ids]
    rfl
  | uqArticlesNormalizedUrlHash =>
    show decide ((db.articles.map (updateKnownArticle call a)).map (·.normalizedUrlHash)).Nodup = _
    rw [hhashes]
    rfl
  | _ => rfl

theorem completeSuccessWrites_delivered {result : ArticleProcessingResult}
    (h : Delivered call result db) :
    ∃ a, completeSuccessWrites u decideEvent call (still db) =
      .ok (redeliveryWrites call a result) := by
  obtain ⟨⟨row, a, hrow, hfound, hid, hevent⟩, v, hv, hvid⟩ := h
  refine ⟨a, ?_⟩
  unfold completeSuccessWrites still
  simp only [hrow, hfound, hid, hevent, hv, hvid, Option.map_some, Option.getD_some,
    Option.isNone_some, Bool.false_and, Option.map_none, Option.getD_none]
  rfl

/-- A second call for the candidate with the same extracted article commits, answers with the
ids of the first one, and adds no row. -/
theorem redelivery_idempotent (u : Unicode) (decideEvent : DecideEvent)
    (first second : SuccessCall) (db db' : Db) (w : Writes)
    (hfirst : Commits u decideEvent first db w db')
    (hcandidate : second.candidate.id = first.candidate.id)
    (hextracted : second.extracted = first.extracted) :
    ∃ w' db'', Commits u decideEvent second db' w' db'' ∧ SameRows db' db'' ∧
      w'.result.articleId = w.result.articleId ∧ w'.result.eventId = w.result.eventId ∧
      w'.result.versionId = w.result.versionId ∧ w'.result.createdArticle = false ∧
      w'.result.createdEvent = false ∧ w'.result.createdVersion = false := by
  have hdelivered : Delivered second w.result db' := by
    obtain ⟨hrow, hversion⟩ := delivered_of_commits hfirst
    exact ⟨hcandidate ▸ hrow, hextracted ▸ hversion⟩
  obtain ⟨a, hwrites⟩ : ∃ a, completeSuccessWrites u decideEvent second (still db') =
      .ok (redeliveryWrites second a w.result) := completeSuccessWrites_delivered hdelivered
  obtain ⟨rfl, hunique⟩ := commit_ok hfirst.2
  refine ⟨_, _, ⟨hwrites, commit_of_holds ?_⟩, redelivery_sameRows a w.result, rfl, rfl, rfl, rfl,
    rfl, rfl⟩
  intro c
  rw [redelivery_holds]
  exact hunique c

/-- A call that stores a text, and the same text an hour later. -/
def firstDelivery : SuccessCall := sampleCall 1000 "a".toList "A first text.".toList

def secondDelivery : SuccessCall := sampleCall 4600 "a".toList "A first text.".toList

theorem secondDelivery_idempotent : ∃ w db' w' db'',
    Commits asciiUnicode noMatch firstDelivery (newDb [sampleCandidate]) w db' ∧
      Commits asciiUnicode noMatch secondDelivery db' w' db'' ∧ SameRows db' db'' ∧
      w'.result.versionId = w.result.versionId ∧ w'.result.createdVersion = false := by
  have hcommits : ((completeSuccessWrites asciiUnicode noMatch firstDelivery
      (still (newDb [sampleCandidate]))).toOption.bind fun w =>
        ((newDb [sampleCandidate]).commit w).toOption).isSome = true := by decide +kernel
  obtain ⟨db', hdb'⟩ := Option.isSome_iff_exists.mp hcommits
  obtain ⟨w, hw, hcommit⟩ := Option.bind_eq_some_iff.mp hdb'
  have hfirst : Commits asciiUnicode noMatch firstDelivery (newDb [sampleCandidate]) w db' :=
    ⟨ok_of_toOption hw, ok_of_toOption hcommit⟩
  obtain ⟨w', db'', hsecond, hsame, _, _, hversion, _, _, hcreated⟩ :=
    redelivery_idempotent asciiUnicode noMatch firstDelivery secondDelivery _ db' w hfirst rfl rfl
  exact ⟨w, db', w', db'', hfirst, hsecond, hsame, hversion, hcreated⟩

end Newsintel.ArticleStore
