import Newsintel.ArticleStore.CompleteSuccess
import Newsintel.ArticleStore.Invariant

/-!
# The writes of a transaction keep the store sound

One lemma for each part of `complete_success` that writes rows: a new article with
its event, assignment and two outbox events, new columns of a known article, and a new
version with its claims, links, verifications and two outbox events. What makes them
fit is that their ids are new to the database.
-/

namespace Newsintel.ArticleStore

open Newsintel.Articles Newsintel.Intelligence PyText

variable {db : Db}

/-! ### A new article -/

section newArticle

variable {call : SuccessCall} {fingerprint : Bytes} {choice : EventChoice} {id : Uuid}

/-- The chosen event is new to the database, or one of its rows. -/
structure ChoiceFits (choice : EventChoice) (db : Db) : Prop where
  keepsIds : ∀ row, (choice.updateEvent row).id = row.id
  event : (∃ e, choice.newEvent = some e ∧ e.id = choice.eventId ∧ e.id ∉ db.eventIds) ∨
    (choice.newEvent = none ∧ choice.eventId ∈ db.eventIds)

@[simp] theorem announced_articleId :
    (newArticleWrites call fingerprint choice).announced.event.articleId = call.ids.article := by
  simp only [newArticleWrites]
  split <;> rfl

@[simp] theorem announced_eventId? :
    (newArticleWrites call fingerprint choice).announced.event.eventId? = some choice.eventId := by
  simp only [newArticleWrites]
  split <;> rfl

@[simp] theorem announced_versionId? :
    (newArticleWrites call fingerprint choice).announced.event.versionId? = none := by
  simp only [newArticleWrites]
  split <;> rfl

@[simp] theorem announced_announces :
    (newArticleWrites call fingerprint choice).announced.event.announces id =
      decide (call.ids.article = id) := by
  simp only [newArticleWrites]
  split <;> rfl

@[simp] theorem announced_ingests :
    (newArticleWrites call fingerprint choice).announced.event.ingests id = false := by
  simp only [newArticleWrites]
  split <;> rfl

@[simp] theorem announced_creates :
    (newArticleWrites call fingerprint choice).announced.event.creates id = false := by
  simp only [newArticleWrites]
  split <;> rfl

@[simp] theorem announced_extracts :
    (newArticleWrites call fingerprint choice).announced.event.extracts id = false := by
  simp only [newArticleWrites]
  split <;> rfl

@[simp] theorem ingested_ingests :
    (newArticleWrites call fingerprint choice).ingested.event.ingests id =
      decide (call.ids.article = id) := rfl

@[simp] theorem ingested_announces :
    (newArticleWrites call fingerprint choice).ingested.event.announces id = false := rfl

@[simp] theorem ingested_creates :
    (newArticleWrites call fingerprint choice).ingested.event.creates id = false := rfl

@[simp] theorem ingested_extracts :
    (newArticleWrites call fingerprint choice).ingested.event.extracts id = false := rfl

theorem announced_key_new (h : Linked db) (hfresh : call.ids.article ∉ db.articleIds)
    (hchoice : ChoiceFits choice db) :
    ∀ p ∈ db.outbox, p.event.idempotencyKey ≠
      (newArticleWrites call fingerprint choice).announced.event.idempotencyKey := by
  intro p hp he
  rcases hchoice.event with ⟨e, hnew, heid, hev⟩ | ⟨hnone, -⟩
  · simp only [newArticleWrites, hnew, Option.isSome_some, if_true] at he
    rw [heid] at hev
    exact hev (h.outboxEvent p hp _ (IntegrationEvent.eventId?_of_key he))
  · simp only [newArticleWrites, hnone, Option.isSome_none, Bool.false_eq_true, if_false] at he
    have ha := IntegrationEvent.articleId_of_linkedKey he
    exact hfresh (ha ▸ h.outboxArticle p hp)

theorem ingested_key_new (h : Linked db) (hfresh : call.ids.article ∉ db.articleIds) :
    ∀ p ∈ db.outbox ++ [(newArticleWrites call fingerprint choice).announced],
      p.event.idempotencyKey ≠
        (newArticleWrites call fingerprint choice).ingested.event.idempotencyKey := by
  intro p hp he
  rcases List.mem_append.mp hp with hp | hp
  · have ha := IntegrationEvent.articleId_of_ingestedKey he
    exact hfresh (ha ▸ h.outboxArticle p hp)
  · obtain rfl := List.mem_singleton.mp hp
    have ht := IntegrationEvent.eventType_eq_of_key he
    simp only [newArticleWrites] at ht
    split at ht <;> simp [IntegrationEvent.eventType] at ht

/- Both outbox events are stored: no earlier one has their keys. -/
theorem insertArticle_outbox (fingerprint : Bytes) (h : Linked db)
    (hfresh : call.ids.article ∉ db.articleIds) (hchoice : ChoiceFits choice db) :
    (db.insertArticle (newArticleWrites call fingerprint choice)).outbox =
      db.outbox ++ [(newArticleWrites call fingerprint choice).announced] ++
        [(newArticleWrites call fingerprint choice).ingested] := by
  simp only [Db.insertArticle]
  rw [addOutbox_new (announced_key_new h hfresh hchoice),
    addOutbox_new (ingested_key_new h hfresh)]

theorem insertArticle_articleIds :
    (db.insertArticle (newArticleWrites call fingerprint choice)).articleIds =
      db.articleIds ++ [call.ids.article] := by
  simp [Db.insertArticle, Db.articleIds, newArticleWrites]

theorem insertArticle_eventIds (hkeep : ∀ row, (choice.updateEvent row).id = row.id) :
    (db.insertArticle (newArticleWrites call fingerprint choice)).eventIds =
      db.eventIds ++ choice.newEvent.toList.map (·.id) := by
  simp only [Db.insertArticle, Db.eventIds, List.map_append, List.map_map]
  congr 1
  apply List.map_congr_left
  intro row _
  exact hkeep row

theorem choice_mem (hchoice : ChoiceFits choice db) :
    choice.eventId ∈
      (db.insertArticle (newArticleWrites call fingerprint choice)).eventIds := by
  rw [insertArticle_eventIds hchoice.keepsIds]
  rcases hchoice.event with ⟨e, hnew, heid, -⟩ | ⟨-, hev⟩
  · simp [hnew, heid]
  · exact List.mem_append_left _ hev

theorem Linked.insertArticle (h : Linked db) (hfresh : call.ids.article ∉ db.articleIds)
    (hchoice : ChoiceFits choice db) :
    Linked (db.insertArticle (newArticleWrites call fingerprint choice)) where
  assignment e he := by
    rw [insertArticle_articleIds]
    rcases List.mem_append.mp he with he | he
    · exact List.mem_append_left _ (h.assignment e he)
    · obtain rfl := List.mem_singleton.mp he
      exact List.mem_append_right _ (List.mem_singleton.mpr rfl)
  version v hv := by
    rw [insertArticle_articleIds]
    exact List.mem_append_left _ (h.version v hv)
  claim := h.claim
  link := h.link
  verification := h.verification
  outboxArticle o ho := by
    rw [insertArticle_outbox fingerprint h hfresh hchoice, List.append_assoc] at ho
    rw [insertArticle_articleIds]
    rcases List.mem_append.mp ho with ho | ho
    · exact List.mem_append_left _ (h.outboxArticle o ho)
    · apply List.mem_append_right
      simp only [List.singleton_append, List.mem_cons, List.not_mem_nil, or_false] at ho
      rcases ho with rfl | rfl
      · simp
      · exact List.mem_singleton.mpr rfl
  outboxEvent o ho e he := by
    rw [insertArticle_outbox fingerprint h hfresh hchoice, List.append_assoc] at ho
    rcases List.mem_append.mp ho with ho | ho
    · rw [insertArticle_eventIds hchoice.keepsIds]
      exact List.mem_append_left _ (h.outboxEvent o ho e he)
    · simp only [List.singleton_append, List.mem_cons, List.not_mem_nil, or_false] at ho
      rcases ho with rfl | rfl
      · rw [announced_eventId?, Option.some.injEq] at he
        exact he ▸ choice_mem hchoice
      · obtain rfl := Option.some.inj he
        exact choice_mem hchoice
  outboxVersion o ho v hv := by
    rw [insertArticle_outbox fingerprint h hfresh hchoice, List.append_assoc] at ho
    rcases List.mem_append.mp ho with ho | ho
    · exact h.outboxVersion o ho v hv
    · simp only [List.singleton_append, List.mem_cons, List.not_mem_nil, or_false] at ho
      rcases ho with rfl | rfl
      · rw [announced_versionId?] at hv
        contradiction
      · contradiction

/- Nothing in the database is counted for an article that is not there. -/
theorem Linked.countP_ingests (h : Linked db) (hid : id ∉ db.articleIds) :
    db.outbox.countP (·.event.ingests id) = 0 := by
  rw [List.countP_eq_zero]
  intro o ho hi
  exact hid (IntegrationEvent.articleId_of_ingests hi ▸ h.outboxArticle o ho)

theorem Linked.countP_announces (h : Linked db) (hid : id ∉ db.articleIds) :
    db.outbox.countP (·.event.announces id) = 0 := by
  rw [List.countP_eq_zero]
  intro o ho hi
  exact hid (IntegrationEvent.articleId_of_announces hi ▸ h.outboxArticle o ho)

theorem Linked.countP_assignments (h : Linked db) (hid : id ∉ db.articleIds) :
    db.assignments.countP (fun e => e.articleId = id && e.isCurrent) = 0 := by
  rw [List.countP_eq_zero]
  intro e he hp
  simp only [Bool.and_eq_true, decide_eq_true_eq] at hp
  exact hid (hp.1 ▸ h.assignment e he)

theorem Sound.insertArticle (fingerprint : Bytes) (h : Sound db)
    (hfresh : call.ids.article ∉ db.articleIds) (hchoice : ChoiceFits choice db) :
    Sound (db.insertArticle (newArticleWrites call fingerprint choice)) := by
  have hold : ∀ a ∈ db.articles, call.ids.article ≠ a.id := by
    intro a ha he
    exact hfresh (he ▸ List.mem_map_of_mem ha)
  -- an article of the result is an old one, or the new one
  have hrows : ∀ a, a ∈ (db.insertArticle (newArticleWrites call fingerprint choice)).articles →
      a ∈ db.articles ∨ a.id = call.ids.article ∧ a.eventId = choice.eventId := by
    intro a ha
    rcases List.mem_append.mp ha with ha | ha
    · exact Or.inl ha
    · obtain rfl := List.mem_singleton.mp ha
      exact Or.inr ⟨rfl, rfl⟩
  have hout := insertArticle_outbox fingerprint h.toLinked hfresh hchoice
  constructor
  case toLinked => exact h.toLinked.insertArticle hfresh hchoice
  case oneAssignment =>
    intro a ha
    simp only [Db.insertArticle, List.countP_append, List.countP_singleton]
    rcases hrows a ha with ha | ⟨hid, -⟩
    · simp [newArticleWrites, h.oneAssignment a ha, hold a ha]
    · rw [hid, h.countP_assignments hfresh]
      simp [newArticleWrites]
  case assignedEvent =>
    intro a ha e he hea
    rcases List.mem_append.mp he with he | he <;> rcases hrows a ha with ha | ⟨hid, hev⟩
    · exact h.assignedEvent a ha e he hea
    · exact absurd (hid ▸ hea ▸ h.assignment e he) hfresh
    · obtain rfl := List.mem_singleton.mp he
      exact absurd hea (hold a ha)
    · obtain rfl := List.mem_singleton.mp he
      exact hev.symm
  case articleEvent =>
    intro a ha
    rcases hrows a ha with ha | ⟨-, hev⟩
    · rw [insertArticle_eventIds hchoice.keepsIds]
      exact List.mem_append_left _ (h.articleEvent a ha)
    · exact hev ▸ choice_mem hchoice
  case numbered => exact h.numbered
  case oneIngested =>
    intro a ha
    rw [hout]
    simp only [List.countP_append, List.countP_singleton, announced_ingests, ingested_ingests]
    rcases hrows a ha with ha | ⟨hid, -⟩
    · simp [h.oneIngested a ha, hold a ha]
    · simp [hid, h.countP_ingests hfresh]
  case oneAnnounced =>
    intro a ha
    rw [hout]
    simp only [List.countP_append, List.countP_singleton, announced_announces,
      ingested_announces]
    rcases hrows a ha with ha | ⟨hid, -⟩
    · simp [h.oneAnnounced a ha, hold a ha]
    · simp [hid, h.countP_announces hfresh]
  case oneCreated =>
    intro v hv
    simp [hout, h.oneCreated v hv]
  case oneExtracted =>
    intro v hv
    simp [hout, h.oneExtracted v hv]
  case extractedIds =>
    intro v hv o ho hx
    rw [hout, List.append_assoc] at ho
    rcases List.mem_append.mp ho with ho | ho
    · exact h.extractedIds v hv o ho hx
    · simp only [List.singleton_append, List.mem_cons, List.not_mem_nil, or_false] at ho
      rcases ho with rfl | rfl
      · rw [announced_extracts] at hx
        contradiction
      · contradiction
  case oneOrigin => exact h.oneOrigin
  case oneNotCheckable => exact h.oneNotCheckable

end newArticle

/-! ### New columns of a known article -/

/- An update that keeps ids and events keeps everything. -/
theorem Sound.mapArticles (h : Sound db) {f : ArticleModel → ArticleModel}
    (hid : ∀ a, (f a).id = a.id) (hevent : ∀ a, (f a).eventId = a.eventId) :
    Sound { db with articles := db.articles.map f } := by
  have hids : ({ db with articles := db.articles.map f } : Db).articleIds = db.articleIds := by
    simp only [Db.articleIds, List.map_map]
    exact List.map_congr_left fun a _ => hid a
  constructor
  case toLinked =>
    constructor
    case assignment => rw [hids]; exact h.assignment
    case version => rw [hids]; exact h.version
    case claim => exact h.claim
    case link => exact h.link
    case verification => exact h.verification
    case outboxArticle => rw [hids]; exact h.outboxArticle
    case outboxEvent => exact h.outboxEvent
    case outboxVersion => exact h.outboxVersion
  case oneAssignment =>
    intro b hb
    obtain ⟨a, ha, rfl⟩ := List.mem_map.mp hb
    rw [hid]
    exact h.oneAssignment a ha
  case assignedEvent =>
    intro b hb e he hea
    obtain ⟨a, ha, rfl⟩ := List.mem_map.mp hb
    rw [hid] at hea
    rw [hevent]
    exact h.assignedEvent a ha e he hea
  case articleEvent =>
    intro b hb
    obtain ⟨a, ha, rfl⟩ := List.mem_map.mp hb
    rw [hevent]
    exact h.articleEvent a ha
  case oneIngested =>
    intro b hb
    obtain ⟨a, ha, rfl⟩ := List.mem_map.mp hb
    rw [hid]
    exact h.oneIngested a ha
  case oneAnnounced =>
    intro b hb
    obtain ⟨a, ha, rfl⟩ := List.mem_map.mp hb
    rw [hid]
    exact h.oneAnnounced a ha
  case numbered => exact h.numbered
  case oneCreated => exact h.oneCreated
  case oneExtracted => exact h.oneExtracted
  case extractedIds => exact h.extractedIds
  case oneOrigin => exact h.oneOrigin
  case oneNotCheckable => exact h.oneNotCheckable

/-! ### A new version -/

section newVersion

variable {u : Unicode} {call : SuccessCall} {article id : Uuid} {numberAt : Db}

theorem newVersion_claim {c : ArticleClaimModel}
    (hc : c ∈ (newVersionWrites u call article numberAt).claims) :
    c.articleVersionId = call.ids.version ∧ c.articleId = article := by
  obtain ⟨p, -, rfl⟩ := List.mem_map.mp hc
  exact ⟨rfl, rfl⟩

/- The claim ids of the links and of the verifications are those of the claims, in
their order. -/
theorem evidenceLinkRows_claimIds {ids : FreshIds} {version : ArticleVersionModel}
    {createdAt : Timestamp} {claims : List ArticleClaimModel} :
    (evidenceLinkRows ids version createdAt claims).map (·.claimId) = claims.map (·.id) := by
  conv_rhs => rw [← List.zipIdx_map_fst 0 claims, List.map_map]
  rw [evidenceLinkRows, List.map_map]
  rfl

theorem verificationRows_claimIds {ids : FreshIds} {createdAt : Timestamp}
    {claims : List ArticleClaimModel} :
    (verificationRows ids createdAt claims).map (·.claimId) = claims.map (·.id) := by
  conv_rhs => rw [← List.zipIdx_map_fst 0 claims, List.map_map]
  rw [verificationRows, List.map_map]
  rfl

theorem newVersion_linkClaims :
    (newVersionWrites u call article numberAt).evidenceLinks.map (·.claimId) =
      (newVersionWrites u call article numberAt).claims.map (·.id) :=
  evidenceLinkRows_claimIds

theorem newVersion_verificationClaims :
    (newVersionWrites u call article numberAt).verifications.map (·.claimId) =
      (newVersionWrites u call article numberAt).claims.map (·.id) :=
  verificationRows_claimIds

theorem newVersion_countLinks :
    (newVersionWrites u call article numberAt).evidenceLinks.countP
        (fun l => l.claimId = id && l.relationship = "origin".toList) =
      ((newVersionWrites u call article numberAt).claims.map (·.id)).count id := by
  rw [← newVersion_linkClaims, List.count, List.countP_map]
  apply List.countP_congr
  intro l hl
  obtain ⟨p, -, rfl⟩ := List.mem_map.mp hl
  simp

theorem newVersion_countVerifications :
    (newVersionWrites u call article numberAt).verifications.countP
        (fun v => v.claimId = id && v.label = .notCheckable) =
      ((newVersionWrites u call article numberAt).claims.map (·.id)).count id := by
  rw [← newVersion_verificationClaims, List.count, List.countP_map]
  apply List.countP_congr
  intro v hv
  obtain ⟨p, -, rfl⟩ := List.mem_map.mp hv
  simp

@[simp] theorem created_creates :
    (newVersionWrites u call article numberAt).created.event.creates id =
      decide (call.ids.version = id) := rfl

@[simp] theorem created_extracts :
    (newVersionWrites u call article numberAt).created.event.extracts id = false := rfl

@[simp] theorem extracted_creates :
    (newVersionWrites u call article numberAt).extracted.event.creates id = false := rfl

@[simp] theorem extracted_extracts :
    (newVersionWrites u call article numberAt).extracted.event.extracts id =
      decide (call.ids.version = id) := rfl

theorem created_key_new (h : Linked db) (hfresh : call.ids.version ∉ db.versions.map (·.id)) :
    ∀ p ∈ db.outbox, p.event.idempotencyKey ≠
      (newVersionWrites u call article numberAt).created.event.idempotencyKey := by
  intro p hp he
  exact hfresh (h.outboxVersion p hp _ (IntegrationEvent.versionId?_of_createdKey he))

theorem extracted_key_new (h : Linked db) (hfresh : call.ids.version ∉ db.versions.map (·.id)) :
    ∀ p ∈ db.outbox ++ [(newVersionWrites u call article numberAt).created],
      p.event.idempotencyKey ≠
        (newVersionWrites u call article numberAt).extracted.event.idempotencyKey := by
  intro p hp he
  rcases List.mem_append.mp hp with hp | hp
  · exact hfresh (h.outboxVersion p hp _ (IntegrationEvent.versionId?_of_extractedKey he))
  · obtain rfl := List.mem_singleton.mp hp
    have ht := IntegrationEvent.eventType_eq_of_key he
    simp [newVersionWrites, IntegrationEvent.eventType] at ht

theorem insertVersion_outbox (u : Unicode) (article : Uuid) (numberAt : Db) (h : Linked db)
    (hfresh : call.ids.version ∉ db.versions.map (·.id)) :
    (db.insertVersion (newVersionWrites u call article numberAt)).outbox =
      db.outbox ++ [(newVersionWrites u call article numberAt).created] ++
        [(newVersionWrites u call article numberAt).extracted] := by
  simp only [Db.insertVersion]
  rw [addOutbox_new (created_key_new h hfresh), addOutbox_new (extracted_key_new h hfresh)]

theorem Linked.insertVersion (h : Linked db) (hfresh : call.ids.version ∉ db.versions.map (·.id))
    (harticle : article ∈ db.articleIds) :
    Linked (db.insertVersion (newVersionWrites u call article numberAt)) where
  assignment := h.assignment
  version v hv := by
    rcases List.mem_append.mp hv with hv | hv
    · exact h.version v hv
    · obtain rfl := List.mem_singleton.mp hv
      exact harticle
  claim c hc := by
    rcases List.mem_append.mp hc with hc | hc
    · obtain ⟨v, hv, hp⟩ := h.claim c hc
      exact ⟨v, List.mem_append_left _ hv, hp⟩
    · obtain ⟨hcv, hca⟩ := newVersion_claim hc
      exact ⟨_, List.mem_append_right _ (List.mem_singleton.mpr rfl), hcv.symm, hca.symm⟩
  link l hl := by
    simp only [Db.insertVersion, Db.claimIds, List.map_append]
    rcases List.mem_append.mp hl with hl | hl
    · exact List.mem_append_left _ (h.link l hl)
    · rw [← newVersion_linkClaims]
      exact List.mem_append_right _ (List.mem_map_of_mem hl)
  verification v hv := by
    simp only [Db.insertVersion, Db.claimIds, List.map_append]
    rcases List.mem_append.mp hv with hv | hv
    · exact List.mem_append_left _ (h.verification v hv)
    · rw [← newVersion_verificationClaims]
      exact List.mem_append_right _ (List.mem_map_of_mem hv)
  outboxArticle o ho := by
    rw [insertVersion_outbox u article numberAt h hfresh, List.append_assoc] at ho
    rcases List.mem_append.mp ho with ho | ho
    · exact h.outboxArticle o ho
    · simp only [List.singleton_append, List.mem_cons, List.not_mem_nil, or_false] at ho
      rcases ho with rfl | rfl <;> exact harticle
  outboxEvent o ho e he := by
    rw [insertVersion_outbox u article numberAt h hfresh, List.append_assoc] at ho
    rcases List.mem_append.mp ho with ho | ho
    · exact h.outboxEvent o ho e he
    · simp only [List.singleton_append, List.mem_cons, List.not_mem_nil, or_false] at ho
      rcases ho with rfl | rfl <;> contradiction
  outboxVersion o ho v hv := by
    rw [insertVersion_outbox u article numberAt h hfresh, List.append_assoc] at ho
    simp only [Db.insertVersion, List.map_append]
    rcases List.mem_append.mp ho with ho | ho
    · exact List.mem_append_left _ (h.outboxVersion o ho v hv)
    · simp only [List.singleton_append, List.mem_cons, List.not_mem_nil, or_false] at ho
      apply List.mem_append_right
      rcases ho with rfl | rfl <;>
      · obtain rfl := Option.some.inj hv
        exact List.mem_singleton.mpr rfl

/- Nothing in the database is counted for a version that is not there. -/
theorem Linked.countP_creates (h : Linked db) (hid : id ∉ db.versions.map (·.id)) :
    db.outbox.countP (·.event.creates id) = 0 := by
  rw [List.countP_eq_zero]
  intro o ho hc
  exact hid (h.outboxVersion o ho id (IntegrationEvent.versionId?_of_creates hc))

theorem Linked.countP_extracts (h : Linked db) (hid : id ∉ db.versions.map (·.id)) :
    db.outbox.countP (·.event.extracts id) = 0 := by
  rw [List.countP_eq_zero]
  intro o ho hx
  exact hid (h.outboxVersion o ho id (IntegrationEvent.versionId?_of_extracts hx))

/- The claims of a version after the insertion: those of an old version are the old
ones, those of the new one are the new ones. -/
theorem insertVersion_claimsOf_old (hid : id ≠ call.ids.version) :
    ((db.insertVersion (newVersionWrites u call article numberAt)).claims.filter
      (·.articleVersionId = id)) = db.claims.filter (·.articleVersionId = id) := by
  simp only [Db.insertVersion, List.filter_append, List.append_right_eq_self,
    List.filter_eq_nil_iff]
  intro c hc
  simp [(newVersion_claim hc).1, hid.symm]

theorem insertVersion_claimsOf_new (h : Linked db)
    (hfresh : call.ids.version ∉ db.versions.map (·.id)) :
    ((db.insertVersion (newVersionWrites u call article numberAt)).claims.filter
      (·.articleVersionId = call.ids.version)) =
        (newVersionWrites u call article numberAt).claims := by
  have hold : db.claims.filter (·.articleVersionId = call.ids.version) = [] := by
    rw [List.filter_eq_nil_iff]
    intro c hc hp
    obtain ⟨v, hv, hvid, -⟩ := h.claim c hc
    simp only [decide_eq_true_eq] at hp
    exact hfresh (hp ▸ hvid ▸ List.mem_map_of_mem hv)
  simp only [Db.insertVersion, List.filter_append, hold, List.nil_append, List.filter_eq_self]
  intro c hc
  exact decide_eq_true (newVersion_claim hc).1

theorem insertVersion_numbers (hn : ∀ n,
      ((db.versionsOf article).map (·.versionNumber)).Perm (List.range' 1 n) →
      nextVersionNumber numberAt article = n + 1)
    (h : ∃ n, ((db.versionsOf id).map (·.versionNumber)).Perm (List.range' 1 n)) :
    ∃ n, (((db.insertVersion (newVersionWrites u call article numberAt)).versionsOf id).map
      (·.versionNumber)).Perm (List.range' 1 n) := by
  obtain ⟨n, hp⟩ := h
  by_cases hid : article = id
  · subst hid
    refine ⟨n + 1, ?_⟩
    have hrow : (db.insertVersion (newVersionWrites u call article numberAt)).versionsOf article =
        db.versionsOf article ++ [(newVersionWrites u call article numberAt).version] := by
      simp [Db.insertVersion, Db.versionsOf, newVersionWrites]
    have hnext : (newVersionWrites u call article numberAt).version.versionNumber = 1 + n := by
      rw [Nat.add_comm]
      exact hn n hp
    rw [hrow, List.map_append, List.range'_1_concat, List.map_singleton, hnext]
    exact hp.append_right _
  · refine ⟨n, ?_⟩
    have hrow : (db.insertVersion (newVersionWrites u call article numberAt)).versionsOf id =
        db.versionsOf id := by
      simp [Db.insertVersion, Db.versionsOf, newVersionWrites, hid]
    rw [hrow]
    exact hp

theorem Sound.insertVersion (h : Sound db) (hfresh : call.ids.version ∉ db.versions.map (·.id))
    (harticle : article ∈ db.articleIds)
    (hclaims : (db.claimIds ++
      (newVersionWrites u call article numberAt).claims.map (·.id)).Nodup)
    (hn : ∀ n, ((db.versionsOf article).map (·.versionNumber)).Perm (List.range' 1 n) →
      nextVersionNumber numberAt article = n + 1) :
    Sound (db.insertVersion (newVersionWrites u call article numberAt)) := by
  have hold : ∀ v ∈ db.versions, call.ids.version ≠ v.id := by
    intro v hv he
    exact hfresh (he ▸ List.mem_map_of_mem hv)
  have hrows : ∀ v,
      v ∈ (db.insertVersion (newVersionWrites u call article numberAt)).versions →
        v ∈ db.versions ∨ v.id = call.ids.version := by
    intro v hv
    rcases List.mem_append.mp hv with hv | hv
    · exact Or.inl hv
    · obtain rfl := List.mem_singleton.mp hv
      exact Or.inr rfl
  have hout := insertVersion_outbox u article numberAt h.toLinked hfresh
  obtain ⟨-, hnew, hdisj⟩ := List.nodup_append.mp hclaims
  constructor
  case toLinked => exact h.toLinked.insertVersion hfresh harticle
  case oneAssignment => exact h.oneAssignment
  case assignedEvent => exact h.assignedEvent
  case articleEvent => exact h.articleEvent
  case numbered => exact fun id => insertVersion_numbers hn (h.numbered id)
  case oneIngested =>
    intro a ha
    rw [hout]
    simp only [List.countP_append, List.countP_singleton]
    exact h.oneIngested a ha
  case oneAnnounced =>
    intro a ha
    rw [hout]
    simp only [List.countP_append, List.countP_singleton]
    exact h.oneAnnounced a ha
  case oneCreated =>
    intro v hv
    rw [hout]
    simp only [List.countP_append, List.countP_singleton, created_creates, extracted_creates]
    rcases hrows v hv with hv | hid
    · simp [h.oneCreated v hv, hold v hv]
    · simp [hid, h.countP_creates hfresh]
  case oneExtracted =>
    intro v hv
    rw [hout]
    simp only [List.countP_append, List.countP_singleton, created_extracts, extracted_extracts]
    rcases hrows v hv with hv | hid
    · simp [h.oneExtracted v hv, hold v hv]
    · simp [hid, h.countP_extracts hfresh]
  case extractedIds =>
    intro v hv o ho hx
    rw [hout, List.append_assoc] at ho
    rcases List.mem_append.mp ho with ho | ho
    · have hvid := h.outboxVersion o ho _ (IntegrationEvent.versionId?_of_extracts hx)
      have hne : v.id ≠ call.ids.version := fun he => hfresh (he ▸ hvid)
      rw [insertVersion_claimsOf_old hne]
      rcases hrows v hv with hv | hid
      · exact h.extractedIds v hv o ho hx
      · exact absurd hid hne
    · simp only [List.singleton_append, List.mem_cons, List.not_mem_nil, or_false] at ho
      rcases ho with rfl | rfl
      · contradiction
      · obtain hid : call.ids.version = v.id := of_decide_eq_true hx
        rw [← hid, insertVersion_claimsOf_new h.toLinked hfresh]
        rfl
  case oneOrigin =>
    intro c hc
    simp only [Db.insertVersion, List.countP_append, newVersion_countLinks]
    rcases List.mem_append.mp hc with hc | hc
    · rw [h.oneOrigin c hc, List.count_eq_zero.mpr]
      intro hmem
      exact hdisj _ (List.mem_map_of_mem hc) _ hmem rfl
    · have hmem := List.mem_map_of_mem (f := ArticleClaimModel.id) hc
      rw [List.count_eq_one_of_mem hnew hmem, List.countP_eq_zero.mpr]
      intro l hl hp
      simp only [Bool.and_eq_true, decide_eq_true_eq] at hp
      exact hdisj _ (h.link l hl) _ hmem hp.1
  case oneNotCheckable =>
    intro c hc
    simp only [Db.insertVersion, List.countP_append, newVersion_countVerifications]
    rcases List.mem_append.mp hc with hc | hc
    · rw [h.oneNotCheckable c hc, List.count_eq_zero.mpr]
      intro hmem
      exact hdisj _ (List.mem_map_of_mem hc) _ hmem rfl
    · have hmem := List.mem_map_of_mem (f := ArticleClaimModel.id) hc
      rw [List.count_eq_one_of_mem hnew hmem, List.countP_eq_zero.mpr]
      intro v hv hp
      simp only [Bool.and_eq_true, decide_eq_true_eq] at hp
      exact hdisj _ (h.verification v hv) _ hmem hp.1

end newVersion

end Newsintel.ArticleStore
