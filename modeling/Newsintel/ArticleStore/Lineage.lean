import Newsintel.ArticleStore.Pipeline
import Newsintel.ArticleStore.QueryService

/-!
# Where an article comes from

Over any interleaving of the transactions on the frontier with those of the store, articles and
the candidates with an `article_id` are the same in number and belong together: by the
fingerprint, by the publisher, and in the events that consumers read. A processed candidate is
one of them, and its article is served.
-/

namespace Newsintel.ArticleStore

open Newsintel.Articles OrderBy PyText

/-- `payload["candidate_id"]`. -/
def IntegrationEvent.candidateId? : IntegrationEvent → Option Uuid
  | .provisionalCreated _ _ c _ | .articleLinked _ _ c _ _ _ | .articleIngested _ _ c _ _ _
  | .versionCreated _ _ c _ _ _ => some c
  | .claimsExtracted .. => none

/-- The event names the candidate, which all but `article.claims_extracted` do. -/
def NamesCandidate (e : IntegrationEvent) (candidateId : Uuid) : Prop :=
  e.candidateId? = some candidateId ∨ e.eventType = "article.claims_extracted"

/-- The columns of a candidate that nothing writes again. -/
def candidateKeys (r : UrlCandidateModel) : Uuid × Uuid × Bytes :=
  (r.id, r.publisherId, r.urlFingerprint)

/-- Those of an article. -/
def articleKeys (a : ArticleModel) : Uuid × Uuid × Bytes :=
  (a.id, a.publisherId, a.normalizedUrlHash)

/-- The article is of the candidate: its URL, its publisher. -/
def ComesFrom (a : ArticleModel) (r : UrlCandidateModel) : Prop :=
  (articleKeys a).2 = (candidateKeys r).2

structure Lineage (db : Db) : Prop where
  ids : (db.candidates.map (·.id)).Nodup
  fingerprints : (db.candidates.map (·.urlFingerprint)).Nodup
  linked : ∀ r ∈ db.candidates, ∀ id, r.articleId = some id →
    ∃ a ∈ db.articles, a.id = id ∧ ComesFrom a r
  origin : ∀ a ∈ db.articles, ∃ r ∈ db.candidates, r.articleId = some a.id ∧ ComesFrom a r
  processed : ∀ r ∈ db.candidates, r.state = .processed → r.articleId.isSome = true
  /-- an event is about the article of a candidate, and names that one -/
  events : ∀ o ∈ db.outbox, ∃ r ∈ db.candidates,
    r.articleId = some o.event.articleId ∧ NamesCandidate o.event r.id

/-- What stays of the candidates and the articles. -/
structure Follows (d db : Db) : Prop where
  candidates : ∀ r ∈ d.candidates, ∃ r' ∈ db.candidates, candidateKeys r' = candidateKeys r ∧
    ∀ id, r.articleId = some id → r'.articleId = some id
  articles : ∀ a ∈ d.articles, ∃ a' ∈ db.articles, articleKeys a' = articleKeys a

theorem Follows.refl (db : Db) : Follows db db where
  candidates r hr := ⟨r, hr, rfl, fun _ h => h⟩
  articles a ha := ⟨a, ha, rfl⟩

theorem Follows.trans {a b c : Db} (h : Follows a b) (h' : Follows b c) : Follows a c where
  candidates r hr := by
    obtain ⟨s, hs, hkeys, harticle⟩ := h.candidates r hr
    obtain ⟨t, ht, hkeys', harticle'⟩ := h'.candidates s hs
    exact ⟨t, ht, hkeys'.trans hkeys, fun id hid => harticle' id (harticle id hid)⟩
  articles r hr := by
    obtain ⟨s, hs, hkeys⟩ := h.articles r hr
    obtain ⟨t, ht, hkeys'⟩ := h'.articles s hs
    exact ⟨t, ht, hkeys'.trans hkeys⟩

section lineage

variable {u : Unicode} {decideEvent : DecideEvent} {db db' : Db} {r row : UrlCandidateModel}

theorem candidateKeys_eq (h : candidateKeys r = candidateKeys row) :
    r.id = row.id ∧ r.publisherId = row.publisherId ∧ r.urlFingerprint = row.urlFingerprint := by
  simpa only [candidateKeys, Prod.mk.injEq] using h

/-! ### Writes of the frontier -/

theorem Keeps.keys (h : Keeps r row) : candidateKeys row = candidateKeys r := by
  rw [candidateKeys, h.id, h.publisherId, h.urlFingerprint]
  rfl

theorem Lineage.rewrite (h : Lineage db) {f : UrlCandidateModel → UrlCandidateModel}
    (hf : ∀ r, Keeps r (f r)) : Lineage { db with candidates := db.candidates.map f } where
  ids := by
    rw [Table.map_rewrite (g := (·.id)) fun r => (hf r).id]
    exact h.ids
  fingerprints := by
    rw [Table.map_rewrite (g := (·.urlFingerprint)) fun r => (hf r).urlFingerprint]
    exact h.fingerprints
  linked r' hr' id hid := by
    obtain ⟨r, hr, rfl⟩ := List.mem_map.mp hr'
    rw [(hf r).articleId] at hid
    obtain ⟨a, ha, haid, hcomes⟩ := h.linked r hr id hid
    exact ⟨a, ha, haid, hcomes.trans (congrArg Prod.snd (hf r).keys.symm)⟩
  origin a ha := by
    obtain ⟨r, hr, hid, hcomes⟩ := h.origin a ha
    exact ⟨f r, List.mem_map_of_mem hr, (hf r).articleId.trans hid,
      hcomes.trans (congrArg Prod.snd (hf r).keys.symm)⟩
  processed r' hr' hstate := by
    obtain ⟨r, hr, rfl⟩ := List.mem_map.mp hr'
    rw [(hf r).articleId]
    exact h.processed r hr ((hf r).processed hstate)
  events o ho := by
    obtain ⟨r, hr, harticle, hnames⟩ := h.events o ho
    exact ⟨f r, List.mem_map_of_mem hr, (hf r).articleId.trans harticle, (hf r).id ▸ hnames⟩

theorem Lineage.admit (h : Lineage db) {d : Discovery} (hid : d.id ∉ db.candidates.map (·.id))
    (hfingerprint : d.urlFingerprint ∉ db.candidates.map (·.urlFingerprint)) :
    Lineage { db with candidates := db.candidates ++ [admittedRow d] } where
  ids := Table.nodup_concat h.ids hid
  fingerprints := Table.nodup_concat h.fingerprints hfingerprint
  linked r hr id hrid := by
    obtain hr | hr := List.mem_append.mp hr
    · exact h.linked r hr id hrid
    · rw [List.mem_singleton.mp hr] at hrid
      cases hrid
  origin a ha := by
    obtain ⟨r, hr, hrest⟩ := h.origin a ha
    exact ⟨r, List.mem_append_left _ hr, hrest⟩
  processed r hr hstate := by
    obtain hr | hr := List.mem_append.mp hr
    · exact h.processed r hr hstate
    · rw [List.mem_singleton.mp hr] at hstate
      cases hstate
  events o ho := by
    obtain ⟨r, hr, hrest⟩ := h.events o ho
    exact ⟨r, List.mem_append_left _ hr, hrest⟩

/- The candidates after a step of the frontier. -/
theorem FrontierWrites.lineage {p p' : Pipeline} {f : UrlCandidateModel → UrlCandidateModel}
    {admitted : Option Discovery} (hw : FrontierWrites p p' f admitted) (h : Lineage p.db) :
    Lineage p'.db ∧ Follows p.db p'.db := by
  have hdb : p'.db = { p.db with
      candidates := p.db.candidates.map f ++ (admitted.map admittedRow).toList } :=
    congrArg Store.db hw.store
  rw [hdb]
  constructor
  · have hrewritten : Lineage { p.db with candidates := p.db.candidates.map f } :=
      h.rewrite hw.keeps
    cases admitted with
    | none =>
      rw [Option.map_none, Option.toList_none, List.append_nil]
      exact hrewritten
    | some d =>
      refine hrewritten.admit ?_ ?_
      · rw [Table.map_rewrite (g := (·.id)) fun r => (hw.keeps r).id]
        exact hw.newId d rfl
      · rw [Table.map_rewrite (g := (·.urlFingerprint)) fun r => (hw.keeps r).urlFingerprint]
        exact hw.newFingerprint d rfl
  · constructor
    · intro r hr
      exact ⟨f r, List.mem_append_left _ (List.mem_map_of_mem hr), (hw.keeps r).keys,
        fun id hid => (hw.keeps r).articleId.trans hid⟩
    · intro a ha
      exact ⟨a, ha, rfl⟩

/-! ### The commit of `complete_success` -/

section commit

variable {call : SuccessCall} {s : Snapshots} {w : Writes}

/- The article of the call, even if the row has been written since it was read. -/
theorem flushRow_success {article : Uuid} {completedAt : Timestamp}
    (h : ∀ id, row.articleId = some id → r.articleId = some id) :
    (flushRow row (completeSuccess article completedAt row) r).articleId = some article := by
  have harticle : (completeSuccess article completedAt row).articleId = some article := by
    simp only [completeSuccess, markStage, writeDuration]
    split <;> rfl
  rw [flushRow]
  simp only [setColumn, harticle]
  split
  · rename_i hsame
    exact h article hsame.symm
  · rfl

theorem completeSuccess_keys (article : Uuid) (completedAt : Timestamp) (r : UrlCandidateModel) :
    candidateKeys (completeSuccess article completedAt r) = candidateKeys r := by
  simp only [completeSuccess, markStage, writeDuration]
  split <;> rfl

theorem flushRow_keys {assigned : UrlCandidateModel}
    (h : candidateKeys assigned = candidateKeys row) (r : UrlCandidateModel) :
    candidateKeys (flushRow row assigned r) = candidateKeys r := by
  obtain ⟨hid, hpublisher, hfingerprint⟩ := candidateKeys_eq h
  simp only [candidateKeys, flushRow, setColumn_of_eq hid, setColumn_of_eq hpublisher,
    setColumn_of_eq hfingerprint]

/-- What a commit comes to for the candidate of its call. -/
structure Published (db db' : Db) (r : UrlCandidateModel) (article : Uuid) : Prop where
  kept : ∀ a ∈ db.articles, ∃ a' ∈ db'.articles, articleKeys a' = articleKeys a
  stored : ∃ a ∈ db'.articles, a.id = article ∧ ComesFrom a r
  others : ∀ a' ∈ db'.articles, (∃ a ∈ db.articles, articleKeys a' = articleKeys a) ∨
    a'.id = article ∧ ComesFrom a' r
  /-- an article that the candidate has already is the one of the call -/
  same : ∀ id, r.articleId = some id → id = article

theorem updateKnownArticle_articleKeys (a row : ArticleModel) :
    articleKeys (updateKnownArticle call a row) = articleKeys row := by
  unfold updateKnownArticle
  split <;> rfl

/- Either the candidate has no article and gets a new one, or the article is its own. -/
theorem published_apply (h : Lineage db) (harticles : Follows s.articleAt db)
    (hr : r ∈ db.candidates) (hfingerprint : r.urlFingerprint = row.urlFingerprint)
    (hpublisher : r.publisherId = call.candidate.publisherId)
    (hpart : ArticlePart decideEvent call s row.urlFingerprint w)
    (hhashes : ((db.apply w).articles.map (·.normalizedUrlHash)).Nodup) :
    Published db (db.apply w) r w.result.articleId := by
  rw [articles_apply] at hhashes
  have hall : (db.apply w).articles = (db.applyArticle w).articles := articles_apply
  obtain ⟨_, hnew, hid, _⟩ | ⟨a, hfound, hnone, hupdate, hid, _⟩ := hpart
  · have hrows : (db.applyArticle w).articles = db.articles ++ [(newArticleWrites call
        row.urlFingerprint (chooseEvent call (decideEvent s.referencesAt call.profile)
          s.eventAt)).article] := by
      rw [Db.applyArticle, hnew]
      rfl
    rw [hrows] at hhashes
    have hcomes : ComesFrom (newArticleWrites call row.urlFingerprint (chooseEvent call
        (decideEvent s.referencesAt call.profile) s.eventAt)).article r :=
      Prod.ext hpublisher.symm hfingerprint.symm
    constructor
    · intro a ha
      rw [hall, hrows]
      exact ⟨a, List.mem_append_left _ ha, rfl⟩
    · rw [hall, hrows]
      exact ⟨_, List.mem_append_right _ (List.mem_singleton_self _), hid.symm, hcomes⟩
    · intro a' ha'
      rw [hall, hrows] at ha'
      obtain ha' | ha' := List.mem_append.mp ha'
      · exact Or.inl ⟨a', ha', rfl⟩
      · rw [List.mem_singleton.mp ha']
        exact Or.inr ⟨hid.symm, hcomes⟩
    · intro id hrid
      -- an article of the URL would stand beside the new one
      obtain ⟨a, ha, _, hcomesFrom⟩ := h.linked r hr id hrid
      have hhash : a.normalizedUrlHash = row.urlFingerprint :=
        (congrArg Prod.snd hcomesFrom).trans hfingerprint
      rw [List.map_append, List.nodup_append] at hhashes
      exact absurd hhash (hhashes.2.2 _ (List.mem_map_of_mem ha) _ (List.mem_singleton_self _))
  · obtain ⟨ha, hhash⟩ := Table.get?_some hfound
    obtain ⟨a', ha', hkeys⟩ := harticles.articles a ha
    have hid' : a'.id = a.id := congrArg Prod.fst hkeys
    have hhash' : a'.normalizedUrlHash = a.normalizedUrlHash :=
      congrArg (fun k => k.2.2) hkeys
    obtain ⟨r', hr', hrid, hcomes⟩ := h.origin a' ha'
    have hsame : r' = r := by
      refine List.inj_on_of_nodup_map h.fingerprints hr' hr ?_
      exact (congrArg Prod.snd hcomes).symm.trans (hhash'.trans (hhash.trans hfingerprint.symm))
    rw [hsame] at hrid hcomes
    have hrows : (db.applyArticle w).articles = db.articles.map (updateKnownArticle call a) := by
      rw [Db.applyArticle, hnone, hupdate]
    constructor
    · intro b hb
      rw [hall, hrows]
      exact ⟨_, List.mem_map_of_mem hb, updateKnownArticle_articleKeys a b⟩
    · rw [hall, hrows]
      have hupdated : articleKeys (updateKnownArticle call a a') = articleKeys a' :=
        updateKnownArticle_articleKeys a a'
      refine ⟨_, List.mem_map_of_mem ha', ?_, (congrArg Prod.snd hupdated).trans hcomes⟩
      exact (congrArg Prod.fst hupdated).trans (hid'.trans hid.symm)
    · intro b hb
      rw [hall, hrows] at hb
      obtain ⟨c, hc, rfl⟩ := List.mem_map.mp hb
      exact Or.inl ⟨c, hc, updateKnownArticle_articleKeys a c⟩
    · intro id hid''
      rw [hrid] at hid''
      rw [← Option.some.inj hid'', hid', hid]

theorem mem_addOutbox {outbox : List OutboxEventModel} {o e : OutboxEventModel}
    (h : o ∈ addOutbox outbox e) : o ∈ outbox ∨ o = e := by
  unfold addOutbox at h
  split at h
  · exact Or.inl h
  · exact (List.mem_append.mp h).imp_right List.mem_singleton.mp

/- The events of a commit name its candidate and its article. -/
theorem outbox_apply (hpart : ArticlePart decideEvent call s row.urlFingerprint w)
    (hcontent : ContentPart u call s w) {o : OutboxEventModel} (ho : o ∈ (db.apply w).outbox) :
    o ∈ db.outbox ∨ o.event.articleId = w.result.articleId ∧
      NamesCandidate o.event call.candidate.id := by
  have harticle : ∀ o ∈ (db.applyArticle w).outbox, o ∈ db.outbox ∨
      o.event.articleId = w.result.articleId ∧ NamesCandidate o.event call.candidate.id := by
    intro o ho
    rw [Db.applyArticle] at ho
    obtain ⟨_, hnew, hid, _⟩ | ⟨_, _, hnone, _, _, _⟩ := hpart
    · rw [hnew] at ho
      obtain ho | rfl := mem_addOutbox ho
      · obtain ho | rfl := mem_addOutbox ho
        · exact Or.inl ho
        · right
          rw [hid]
          simp only [newArticleWrites]
          split
          · exact ⟨rfl, Or.inl rfl⟩
          · exact ⟨rfl, Or.inl rfl⟩
      · exact Or.inr ⟨hid.symm, Or.inl rfl⟩
    · rw [hnone] at ho
      exact Or.inl ho
  have ho : o ∈ ((db.applyArticle w).applyVersion w).outbox := ho
  rw [Db.applyVersion] at ho
  obtain ⟨_, hnew, _⟩ | ⟨_, _, hnone, _⟩ := hcontent
  · rw [hnew] at ho
    obtain ho | rfl := mem_addOutbox ho
    · obtain ho | rfl := mem_addOutbox ho
      · exact harticle o ho
      · exact Or.inr ⟨rfl, Or.inl rfl⟩
    · exact Or.inr ⟨rfl, Or.inr rfl⟩
  · rw [hnone] at ho
    exact harticle o ho

/- The candidate `r` gets its article, and its events name it. -/
theorem Lineage.publish (h : Lineage db) {f : UrlCandidateModel → UrlCandidateModel}
    {article : Uuid} (hr : r ∈ db.candidates) (hrows : db'.candidates = db.candidates.map f)
    (hkeys : ∀ q, candidateKeys (f q) = candidateKeys q)
    (hown : (f r).articleId = some article) (hothers : ∀ q ∈ db.candidates, q = r ∨ f q = q)
    (hpublished : Published db db' r article)
    (hevents : ∀ o ∈ db'.outbox, o ∈ db.outbox ∨
      o.event.articleId = article ∧ NamesCandidate o.event r.id) :
    Lineage db' ∧ Follows db db' := by
  have hsame : ∀ q ∈ db.candidates, ∀ id, q.articleId = some id → (f q).articleId = some id := by
    intro q hq id hid
    obtain rfl | hunchanged := hothers q hq
    · rw [hown, hpublished.same id hid]
    · rw [hunchanged]
      exact hid
  have hcomes : ∀ {a q}, ComesFrom a q → ComesFrom a (f q) :=
    fun hcomes => hcomes.trans (congrArg Prod.snd (hkeys _).symm)
  constructor
  · constructor
    case ids =>
      rw [hrows, Table.map_rewrite (g := (·.id)) fun q => congrArg Prod.fst (hkeys q)]
      exact h.ids
    case fingerprints =>
      rw [hrows, Table.map_rewrite (g := (·.urlFingerprint))
        fun q => congrArg (fun k => k.2.2) (hkeys q)]
      exact h.fingerprints
    case linked =>
      intro q' hq' id hid
      rw [hrows] at hq'
      obtain ⟨q, hq, rfl⟩ := List.mem_map.mp hq'
      obtain rfl | hunchanged := hothers q hq
      · obtain ⟨a, ha, haid, hfrom⟩ := hpublished.stored
        exact ⟨a, ha, haid.trans (Option.some.inj (hown.symm.trans hid)), hcomes hfrom⟩
      · rw [hunchanged] at hid ⊢
        obtain ⟨a, ha, haid, hfrom⟩ := h.linked q hq id hid
        obtain ⟨a', ha', hakeys⟩ := hpublished.kept a ha
        exact ⟨a', ha', (congrArg Prod.fst hakeys).trans haid, (congrArg Prod.snd hakeys).trans hfrom⟩
    case origin =>
      intro a' ha'
      rw [hrows]
      obtain ⟨a, ha, hakeys⟩ | ⟨haid, hfrom⟩ := hpublished.others a' ha'
      · obtain ⟨q, hq, hid, hfrom⟩ := h.origin a ha
        refine ⟨f q, List.mem_map_of_mem hq, ?_, (congrArg Prod.snd hakeys).trans (hcomes hfrom)⟩
        rw [hsame q hq a.id hid]
        exact congrArg (fun k => some k.1) hakeys.symm
      · exact ⟨f r, List.mem_map_of_mem hr, hown.trans (congrArg some haid.symm), hcomes hfrom⟩
    case processed =>
      intro q' hq' hstate
      rw [hrows] at hq'
      obtain ⟨q, hq, rfl⟩ := List.mem_map.mp hq'
      obtain rfl | hunchanged := hothers q hq
      · rw [hown]
        rfl
      · rw [hunchanged] at hstate ⊢
        exact h.processed q hq hstate
    case events =>
      intro o ho
      rw [hrows]
      have hid : ∀ q, (f q).id = q.id := fun q => congrArg Prod.fst (hkeys q)
      obtain ho | ⟨harticle, hnames⟩ := hevents o ho
      · obtain ⟨q, hq, hqarticle, hnames⟩ := h.events o ho
        exact ⟨f q, List.mem_map_of_mem hq, hsame q hq _ hqarticle, (hid q).symm ▸ hnames⟩
      · exact ⟨f r, List.mem_map_of_mem hr, hown.trans (congrArg some harticle.symm),
          (hid r).symm ▸ hnames⟩
  · constructor
    · intro q hq
      rw [hrows]
      exact ⟨f q, List.mem_map_of_mem hq, hkeys q, hsame q hq⟩
    · exact hpublished.kept

/-- The copy of a worker is of a stored candidate. -/
def Copies (db : Db) (candidate : LeasedUrlCandidate) : Prop :=
  ∃ r ∈ db.candidates, r.id = candidate.id ∧ r.publisherId = candidate.publisherId

theorem commit_lineage (h : Lineage db) (hcandidates : Follows s.candidateAt db)
    (harticles : Follows s.articleAt db) (hcall : Copies db call.candidate)
    (hw : completeSuccessWrites u decideEvent call s = .ok w)
    (hc : db.commit (flushedWrites call s w) = .ok db') : Lineage db' ∧ Follows db db' := by
  obtain ⟨row, hrow, hupdate, hpart, hcontent⟩ := completeSuccessWrites_cases hw
  obtain ⟨hmem, hrowId⟩ := Table.get?_some hrow
  -- the candidate as it is now
  obtain ⟨r, hr, hkeys, hkept⟩ := hcandidates.candidates row hmem
  obtain ⟨hid, _, hfingerprint⟩ := candidateKeys_eq hkeys
  obtain ⟨rfl, hall⟩ := commit_ok hc
  have hpublisher : r.publisherId = call.candidate.publisherId := by
    obtain ⟨r', hr', hid', hpublisher⟩ := hcall
    rwa [List.inj_on_of_nodup_map h.ids hr hr' (hid.trans (hrowId.trans hid'.symm))]
  let f : UrlCandidateModel → UrlCandidateModel := fun q =>
    if q.id = row.id then flushRow row (completeSuccess w.result.articleId call.completedAt row) q
    else q
  have hf : ∀ q, (flushedWrites call s w).updateCandidate q = f q := by
    intro q
    simp only [flushedWrites, hrow, hupdate, candidateUpdate, hrowId, if_true, f]
  have hpublished : Published db (db.apply w) r w.result.articleId :=
    published_apply h harticles hr hfingerprint hpublisher hpart
      (of_decide_eq_true (hall .uqArticlesNormalizedUrlHash))
  refine h.publish (f := f) hr (List.map_congr_left fun q _ => hf q) ?_ ?_ ?_
    ⟨hpublished.kept, hpublished.stored, hpublished.others, hpublished.same⟩ ?_
  · intro q
    simp only [f]
    split
    · exact flushRow_keys (completeSuccess_keys _ _ row) q
    · rfl
  · simp only [f, if_pos hid]
    exact flushRow_success hkept
  · intro q hq
    by_cases hqid : q.id = row.id
    · exact Or.inl (List.inj_on_of_nodup_map h.ids hq hr (hqid.trans hid.symm))
    · exact Or.inr (if_neg hqid)
  · intro o ho
    have ho : o ∈ (db.apply w).outbox := ho
    obtain ho | ⟨harticle, hnames⟩ := outbox_apply hpart hcontent ho
    · exact Or.inl ho
    · exact Or.inr ⟨harticle, hid.trans hrowId ▸ hnames⟩

theorem commitFlushed_lineage (h : Lineage db) (hcandidates : Follows s.candidateAt db)
    (harticles : Follows s.articleAt db) (hcall : Copies db call.candidate) :
    Lineage (commitFlushed u decideEvent call s db) ∧
      Follows db (commitFlushed u decideEvent call s db) := by
  unfold commitFlushed
  cases hw : completeSuccessWrites u decideEvent call s with
  | error e => exact ⟨h, Follows.refl db⟩
  | ok w =>
    simp only
    cases hc : db.commit (flushedWrites call s w) with
    | error c => exact ⟨h, Follows.refl db⟩
    | ok db' => exact commit_lineage h hcandidates harticles hcall hw hc

end commit

/-! ### Runs -/

/-- The database, and what workers and transactions in flight know of it. -/
structure PipelineInvariant (p : Pipeline) : Prop where
  lineage : Lineage p.db
  granted : ∀ g ∈ p.grants, Copies p.db g.candidate
  called : ∀ t ∈ p.store.inFlight, Copies p.db t.call.candidate
  seen : ∀ t ∈ p.store.inFlight, ∀ d ∈ t.reads, Follows d p.db

variable {p p' : Pipeline}

theorem Copies.follows {candidate : LeasedUrlCandidate} (h : Copies db candidate)
    (hfollows : Follows db db') : Copies db' candidate := by
  obtain ⟨r, hr, hid, hpublisher⟩ := h
  obtain ⟨r', hr', hkeys, _⟩ := hfollows.candidates r hr
  obtain ⟨hid', hpublisher', _⟩ := candidateKeys_eq hkeys
  exact ⟨r', hr', hid'.trans hid, hpublisher'.trans hpublisher⟩

theorem FrontierWrites.invariant {f : UrlCandidateModel → UrlCandidateModel}
    {admitted : Option Discovery} (hw : FrontierWrites p p' f admitted)
    (h : PipelineInvariant p) : PipelineInvariant p' ∧ Follows p.db p'.db := by
  obtain ⟨hlineage, hfollows⟩ := hw.lineage h.lineage
  have hinFlight : p'.store.inFlight = p.store.inFlight := by
    rw [hw.store]
    rfl
  refine ⟨⟨hlineage, ?_, ?_, ?_⟩, hfollows⟩
  · intro g hg
    obtain hg | hg := hw.grants g hg
    · exact (h.granted g hg).follows hfollows
    · exact Copies.follows hg hfollows
  · rw [hinFlight]
    exact fun t ht => (h.called t ht).follows hfollows
  · rw [hinFlight]
    exact fun t ht d hd => (h.seen t ht d hd).trans hfollows

theorem snapshots?_reads {s : Snapshots} {reads : List Db} (h : snapshots? reads = some s) :
    s.candidateAt ∈ reads ∧ s.articleAt ∈ reads := by
  unfold snapshots? at h
  split at h
  · obtain rfl := Option.some.inj h
    exact ⟨by simp, by simp⟩
  · cases h

theorem pipelineStep_invariant {a : PipelineStep} (h : PipelineInvariant p)
    (hstep : pipelineStep u decideEvent p a = some p') :
    PipelineInvariant p' ∧ Follows p.db p'.db := by
  cases a with
  | frontier maxAttempts a =>
    obtain ⟨f, admitted, hwrites⟩ := frontier_writes hstep
    exact hwrites.invariant h
  | load candidateId =>
    obtain ⟨row, _, rfl⟩ := Option.map_eq_some_iff.mp hstep
    exact ⟨⟨h.lineage, h.granted, h.called, h.seen⟩, Follows.refl p.db⟩
  | flush maxAttempts a loaded =>
    obtain ⟨f, hwrites⟩ := flush_writes hstep
    exact hwrites.invariant h
  | begin call =>
    rw [pipelineStep] at hstep
    split at hstep
    · rename_i hgrant
      obtain ⟨g, hg, hcopy⟩ := List.mem_map.mp hgrant
      cases hstep
      refine ⟨⟨h.lineage, h.granted, ?_, ?_⟩, Follows.refl p.db⟩
      · intro t ht
        obtain ht | ht := List.mem_append.mp ht
        · exact h.called t ht
        · rw [List.mem_singleton.mp ht]
          exact hcopy ▸ h.granted g hg
      · intro t ht d hd
        obtain ht | ht := List.mem_append.mp ht
        · exact h.seen t ht d hd
        · rw [List.mem_singleton.mp ht] at hd
          cases hd
    · cases hstep
  | read i =>
    obtain ⟨store, hstore, rfl⟩ := Option.map_eq_some_iff.mp hstep
    obtain ⟨t, ht, rfl⟩ := Option.map_eq_some_iff.mp hstore
    have ht := List.mem_of_getElem? ht
    refine ⟨⟨h.lineage, h.granted, ?_, ?_⟩, Follows.refl p.db⟩
    · intro t' ht'
      obtain ht' | rfl := List.mem_or_eq_of_mem_set ht'
      · exact h.called t' ht'
      · exact h.called t ht
    · intro t' ht' d hd
      obtain ht' | rfl := List.mem_or_eq_of_mem_set ht'
      · exact h.seen t' ht' d hd
      · obtain hd | hd := List.mem_append.mp hd
        · exact h.seen t ht d hd
        · rw [List.mem_singleton.mp hd]
          exact Follows.refl p.db
  | commit i =>
    obtain ⟨t, ht, hcommit⟩ := Option.bind_eq_some_iff.mp hstep
    obtain ⟨snaps, hsnaps, rfl⟩ := Option.map_eq_some_iff.mp hcommit
    have ht := List.mem_of_getElem? ht
    obtain ⟨hcandidate, harticle⟩ := snapshots?_reads hsnaps
    obtain ⟨hlineage, hfollows⟩ : Lineage (commitFlushed u decideEvent t.call snaps p.db) ∧
        Follows p.db (commitFlushed u decideEvent t.call snaps p.db) :=
      commitFlushed_lineage h.lineage (h.seen t ht _ hcandidate) (h.seen t ht _ harticle)
        (h.called t ht)
    refine ⟨⟨hlineage, ?_, ?_, ?_⟩, hfollows⟩
    · exact fun g hg => (h.granted g hg).follows hfollows
    · exact fun t' ht' => (h.called t' (List.mem_of_mem_eraseIdx ht')).follows hfollows
    · exact fun t' ht' d hd => (h.seen t' (List.mem_of_mem_eraseIdx ht') d hd).trans hfollows

theorem pipelineInvariant_empty : PipelineInvariant emptyPipeline where
  lineage :=
    { ids := List.nodup_nil
      fingerprints := List.nodup_nil
      linked := fun _ hr => absurd hr List.not_mem_nil
      origin := fun _ ha => absurd ha List.not_mem_nil
      processed := fun _ hr => absurd hr List.not_mem_nil
      events := fun _ ho => absurd ho List.not_mem_nil }
  granted _ hg := absurd hg List.not_mem_nil
  called _ ht := absurd ht List.not_mem_nil
  seen _ ht := absurd ht List.not_mem_nil

theorem pipeline_invariant {steps : List PipelineStep}
    (h : Runs.exec (pipelineStep u decideEvent) emptyPipeline steps = some p) :
    PipelineInvariant p :=
  Runs.invariant pipelineInvariant_empty
    (fun _ _ _ hm hn => (pipelineStep_invariant hm hn).1) h

theorem pipeline_follows {steps : List PipelineStep} (hp : PipelineInvariant p)
    (h : Runs.exec (pipelineStep u decideEvent) p steps = some p') : Follows p.db p'.db :=
  Runs.relates_of_every (R := fun m n : Pipeline => Follows m.db n.db) (C := fun _ _ => True) hp
    (fun m => Follows.refl m.db) (fun _ _ _ hmn hnk => hmn.trans hnk)
    (fun _ _ _ hm _ hn => pipelineStep_invariant hm hn) (fun _ _ _ _ _ _ => trivial) h

theorem pipeline_consistent {steps : List PipelineStep}
    (h : Runs.exec (pipelineStep u decideEvent) emptyPipeline steps = some p) :
    Consistent p.db := by
  obtain ⟨storeSteps, hstore⟩ := pipeline_refines h
  exact (Runs.invariant (storeInvariant_newStore [])
    (fun m a n hm hn => step_invariant hm hn) hstore).consistent

/- No two candidates share an article. -/
theorem Lineage.oneToOne (h : Lineage db) (hids : db.articleIds.Nodup) :
    (db.candidates.filterMap (·.articleId)).Perm db.articleIds := by
  refine (List.perm_ext_iff_of_nodup ?_ hids).mpr ?_
  · refine List.pairwise_filterMap.mpr (List.Pairwise.imp_of_mem ?_ (List.pairwise_map.mp h.fingerprints))
    rintro r q hr hq hne id hrid _ hqid rfl
    obtain ⟨a, ha, haid, hfrom⟩ := h.linked r hr id hrid
    obtain ⟨b, hb, hbid, hfrom'⟩ := h.linked q hq id hqid
    obtain rfl := List.inj_on_of_nodup_map hids ha hb (haid.trans hbid.symm)
    exact hne (congrArg Prod.snd (hfrom.symm.trans hfrom'))
  · intro id
    rw [List.mem_filterMap]
    constructor
    · rintro ⟨r, hr, hrid⟩
      obtain ⟨a, ha, rfl, _⟩ := h.linked r hr id hrid
      exact List.mem_map_of_mem ha
    · intro hid
      obtain ⟨a, ha, rfl⟩ := List.mem_map.mp hid
      obtain ⟨r, hr, hrid, _⟩ := h.origin a ha
      exact ⟨r, hr, hrid⟩

end lineage

/-- The lease of `a` expires and `b` stores the article, after a transaction of `a` has loaded the
candidate. -/
def overtakenWorker : List PipelineStep :=
  [.frontier 3 (.observeDiscovery sampleDiscovery),
    .frontier 3 (.leaseDueCandidates "a".toList (seconds 1) 20 120 []),
    .frontier 3 (.leaseDueCandidates "b".toList (seconds 200) 20 120 []), .load 1,
    .begin
      { sampleCall 1000 "a".toList "The company announced 5 new plants in India on Monday.".toList with
        candidate := (sampleGrant "b".toList 2).candidate },
    .read 0, .read 0, .read 0, .read 0, .read 0, .read 0, .commit 0]

/-- The failure that `a` records at last. -/
def lateFailure : PipelineStep :=
  .flush 3 (.recordFailure (sampleGrant "a".toList 1) true "FetchError".toList [] 0 (seconds 300))
    (leaseRow "b".toList (seconds 200) 120
      (leaseRow "a".toList (seconds 1) 120 (admittedRow sampleDiscovery)))

/- The article of a processed candidate is served, whatever is committed from then on: before the
first statement of a reader, and between the two. -/
theorem processed_served (sql : Sorting) (u : Unicode) (decideEvent : DecideEvent)
    (steps before between : List PipelineStep) (p p₁ p₂ : Pipeline)
    (h : Runs.exec (pipelineStep u decideEvent) emptyPipeline steps = some p)
    (h₁ : Runs.exec (pipelineStep u decideEvent) p before = some p₁)
    (h₂ : Runs.exec (pipelineStep u decideEvent) p₁ between = some p₂) :
    ∀ r ∈ p.db.candidates, r.state = .processed → ∃ article detail,
      r.articleId = some article ∧
      (∃ r₁ ∈ p₁.db.candidates, r₁.id = r.id ∧ r₁.articleId = some article) ∧
      (∃ r₂ ∈ p₂.db.candidates, r₂.id = r.id ∧ r₂.articleId = some article) ∧
      getArticle sql (fun k => if k ≤ 0 then p₁.db else p₂.db) article = some detail ∧
      detail.id = article ∧ detail.publisherId = r.publisherId ∧
      detail.latestVersion.isSome = true := by
  intro r hr hstate
  have hinvariant := pipeline_invariant h
  obtain ⟨article, harticle⟩ :=
    Option.isSome_iff_exists.mp (hinvariant.lineage.processed r hr hstate)
  -- the candidate keeps its article up to both statements
  have hfirst := Runs.exec_append_some.mpr ⟨p, h, h₁⟩
  have hinvariant₁ := pipeline_invariant hfirst
  obtain ⟨r₁, hr₁, hkeys₁, hkept₁⟩ := (pipeline_follows hinvariant h₁).candidates r hr
  obtain ⟨r₂, hr₂, hkeys₂, hkept₂⟩ := (pipeline_follows hinvariant₁ h₂).candidates r₁ hr₁
  have harticle₁ := hkept₁ article harticle
  obtain ⟨a, ha, rfl, hfrom⟩ := hinvariant₁.lineage.linked r₁ hr₁ article harticle₁
  obtain ⟨storeSteps, hstore⟩ := pipeline_refines hfirst
  obtain ⟨laterSteps, hlater⟩ := pipeline_refines h₂
  have hmoments : Moments u decideEvent [] fun k => if k ≤ 0 then p₁.db else p₂.db :=
    moments_of_runs hstore hlater 0
  obtain ⟨a', hget, hid, hpublisher, _⟩ := hmoments.get? (le_refl 0) ha
  obtain ⟨v, hv, _⟩ := hmoments.served sql (Nat.zero_le 1) ha
  obtain ⟨hid₁, hpublisher₁, _⟩ := candidateKeys_eq hkeys₁
  obtain ⟨hid₂, _, _⟩ := candidateKeys_eq hkeys₂
  refine ⟨a.id, _, harticle, ⟨r₁, hr₁, hid₁, harticle₁⟩,
    ⟨r₂, hr₂, hid₂.trans hid₁, hkept₂ a.id harticle₁⟩, congrArg (Option.map _) hget, hid,
    hpublisher.trans ((congrArg Prod.fst hfrom).trans hpublisher₁), ?_⟩
  rw [articleDetail, hid, hv]
  rfl

/-- The publisher's next story. -/
def laterDiscovery : Discovery :=
  { sampleDiscovery with
    id := 2
    normalizedUrl := "https://example.com/news/2026/06/27/another-long-story".toList
    urlFingerprint := [2] }

/- The failure is recorded before the first statement, and a story is admitted before the second
one. The article is served still. -/
theorem lateFailure_served :
    ∃ (p p₁ p₂ : Pipeline) (article : Uuid) (detail : ArticleDetailView),
      p.db.candidates.map (·.state) = [.processed] ∧ p₁.db.candidates.map (·.state) = [.failed] ∧
      p₂.db.candidates.map (·.state) = [.failed, .ready] ∧
      getArticle stable (fun k => if k ≤ 0 then p₁.db else p₂.db) article = some detail ∧
      detail.latestVersion.isSome = true := by
  have hend : (Runs.exec (pipelineStep asciiUnicode noMatch) emptyPipeline overtakenWorker).any
      (fun p => p.db.candidates.map (·.state) = [.processed] &&
        (Runs.exec (pipelineStep asciiUnicode noMatch) p [lateFailure]).any fun p₁ =>
          p₁.db.candidates.map (·.state) = [.failed] &&
            (Runs.exec (pipelineStep asciiUnicode noMatch) p₁
              [.frontier 3 (.observeDiscovery laterDiscovery)]).any fun p₂ =>
                p₂.db.candidates.map (·.state) = [.failed, .ready]) = true := by decide +kernel
  obtain ⟨p, hp, hstates⟩ := (Option.any_eq_true _ _).mp hend
  rw [Bool.and_eq_true, decide_eq_true_eq] at hstates
  obtain ⟨p₁, hp₁, hstates₁⟩ := (Option.any_eq_true _ _).mp hstates.2
  rw [Bool.and_eq_true, decide_eq_true_eq] at hstates₁
  obtain ⟨p₂, hp₂, hstates₂⟩ := (Option.any_eq_true _ _).mp hstates₁.2
  obtain ⟨r, hr, hstate⟩ := List.map_eq_singleton_iff.mp hstates.1
  obtain ⟨article, detail, _, _, _, hget, _, _, hserved⟩ := processed_served stable asciiUnicode
    noMatch overtakenWorker _ _ p p₁ p₂ hp hp₁ hp₂ r (hr ▸ List.mem_singleton_self r) hstate
  exact ⟨p, p₁, p₂, article, detail, hstates.1, hstates₁.1, of_decide_eq_true hstates₂, hget,
    hserved⟩

end Newsintel.ArticleStore
