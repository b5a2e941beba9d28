import Mathlib.Data.List.Range
import Newsintel.ArticleStore.Tables

/-!
# The invariant of the article store

What the committed rows of an article look like (`ArticleIntegrity`), and the
invariant it follows from: rows refer to rows that exist (`Linked`), each row has the
rows inserted together with it exactly once (`Sound`), every article has a version and
the unique constraints hold (`Consistent`).
-/

namespace Newsintel.ArticleStore

open Newsintel.Articles Newsintel.Intelligence PyText

/-- The rows of one article. -/
structure ArticleIntegrity (db : Db) (a : ArticleModel) : Prop where
  oneAssignment : db.assignments.countP (fun e => e.articleId = a.id && e.isCurrent) = 1
  assignedEvent : ∀ e ∈ db.assignments, e.articleId = a.id → e.isCurrent = true →
    e.eventId = a.eventId ∧ a.eventId ∈ db.eventIds
  numbered : ∃ n, 1 ≤ n ∧
    ((db.versionsOf a.id).map (·.versionNumber)).Perm (List.range' 1 n)
  contents : ((db.versionsOf a.id).map (·.contentSha256)).Nodup
  claimVersion : ∀ c ∈ db.claims,
    c.articleId = a.id ↔ ∃ v ∈ db.versionsOf a.id, v.id = c.articleVersionId
  oneOrigin : ∀ c ∈ db.claims, c.articleId = a.id →
    db.evidenceLinks.countP
      (fun l => l.claimId = c.id && l.relationship = "origin".toList) = 1
  oneNotCheckable : ∀ c ∈ db.claims, c.articleId = a.id →
    db.verifications.countP (fun v => v.claimId = c.id && v.label = .notCheckable) = 1
  oneIngested : db.outbox.countP (·.event.ingests a.id) = 1
  oneAnnounced : db.outbox.countP (·.event.announces a.id) = 1
  oneCreated : ∀ v ∈ db.versionsOf a.id, db.outbox.countP (·.event.creates v.id) = 1
  oneExtracted : ∀ v ∈ db.versionsOf a.id, db.outbox.countP (·.event.extracts v.id) = 1
  extractedIds : ∀ v ∈ db.versionsOf a.id, ∀ o ∈ db.outbox, o.event.extracts v.id = true →
    o.event.claimIds = (db.claims.filter (·.articleVersionId = v.id)).map (·.id)

/-! ### Invariant -/

/-- Rows refer to rows that exist. -/
structure Linked (db : Db) : Prop where
  assignment : ∀ e ∈ db.assignments, e.articleId ∈ db.articleIds
  version : ∀ v ∈ db.versions, v.articleId ∈ db.articleIds
  claim : ∀ c ∈ db.claims, ∃ v ∈ db.versions, v.id = c.articleVersionId ∧
    v.articleId = c.articleId
  link : ∀ l ∈ db.evidenceLinks, l.claimId ∈ db.claimIds
  verification : ∀ v ∈ db.verifications, v.claimId ∈ db.claimIds
  outboxArticle : ∀ o ∈ db.outbox, o.event.articleId ∈ db.articleIds
  outboxEvent : ∀ o ∈ db.outbox, ∀ e, o.event.eventId? = some e → e ∈ db.eventIds
  outboxVersion : ∀ o ∈ db.outbox, ∀ v, o.event.versionId? = some v →
    v ∈ db.versions.map (·.id)

/-- Each row has the rows inserted together with it, once. -/
structure Sound (db : Db) : Prop extends Linked db where
  oneAssignment : ∀ a ∈ db.articles,
    db.assignments.countP (fun e => e.articleId = a.id && e.isCurrent) = 1
  assignedEvent : ∀ a ∈ db.articles, ∀ e ∈ db.assignments, e.articleId = a.id →
    e.eventId = a.eventId
  articleEvent : ∀ a ∈ db.articles, a.eventId ∈ db.eventIds
  numbered : ∀ id, ∃ n, ((db.versionsOf id).map (·.versionNumber)).Perm (List.range' 1 n)
  oneIngested : ∀ a ∈ db.articles, db.outbox.countP (·.event.ingests a.id) = 1
  oneAnnounced : ∀ a ∈ db.articles, db.outbox.countP (·.event.announces a.id) = 1
  oneCreated : ∀ v ∈ db.versions, db.outbox.countP (·.event.creates v.id) = 1
  oneExtracted : ∀ v ∈ db.versions, db.outbox.countP (·.event.extracts v.id) = 1
  extractedIds : ∀ v ∈ db.versions, ∀ o ∈ db.outbox, o.event.extracts v.id = true →
    o.event.claimIds = (db.claims.filter (·.articleVersionId = v.id)).map (·.id)
  oneOrigin : ∀ c ∈ db.claims, db.evidenceLinks.countP
    (fun l => l.claimId = c.id && l.relationship = "origin".toList) = 1
  oneNotCheckable : ∀ c ∈ db.claims, db.verifications.countP
    (fun v => v.claimId = c.id && v.label = .notCheckable) = 1

/-- The invariant of a committed database. -/
structure Consistent (db : Db) : Prop extends Sound db where
  versioned : ∀ a ∈ db.articles, db.versionsOf a.id ≠ []
  unique : ∀ c : UniqueConstraint, c.holds db = true

variable {db : Db}

theorem Consistent.articleIntegrity (h : Consistent db) {a : ArticleModel}
    (ha : a ∈ db.articles) : ArticleIntegrity db a where
  oneAssignment := h.oneAssignment a ha
  assignedEvent e he hea _ := ⟨h.assignedEvent a ha e he hea, h.articleEvent a ha⟩
  numbered := by
    obtain ⟨n, hn⟩ := h.numbered a.id
    refine ⟨n, ?_, hn⟩
    have hlen := hn.length_eq
    rw [List.length_map, List.length_range'] at hlen
    have hpos := List.length_pos_iff.mpr (h.versioned a ha)
    omega
  contents := by
    have hu := of_decide_eq_true (h.unique .uqArticleVersionsContent)
    have hrows : (db.versionsOf a.id).Nodup := List.Nodup.filter _ (List.Nodup.of_map _ hu)
    apply List.Nodup.map_on _ hrows
    intro v hv w hw he
    obtain ⟨hv, hva⟩ := List.mem_filter.mp hv
    obtain ⟨hw, hwa⟩ := List.mem_filter.mp hw
    apply List.inj_on_of_nodup_map hu hv hw
    rw [Prod.mk.injEq]
    exact ⟨(of_decide_eq_true hva).trans (of_decide_eq_true hwa).symm, he⟩
  claimVersion c hc := by
    obtain ⟨v, hv, hvid, hva⟩ := h.claim c hc
    constructor
    · intro hca
      exact ⟨v, List.mem_filter.mpr ⟨hv, decide_eq_true (hva.trans hca)⟩, hvid⟩
    · rintro ⟨w, hw, hwid⟩
      obtain ⟨hw, hwa⟩ := List.mem_filter.mp hw
      have hids := of_decide_eq_true (h.unique .pkArticleVersions)
      have hvw : v = w := List.inj_on_of_nodup_map hids hv hw (hvid.trans hwid.symm)
      rw [← hva, hvw]
      exact of_decide_eq_true hwa
  oneOrigin c hc _ := h.oneOrigin c hc
  oneNotCheckable c hc _ := h.oneNotCheckable c hc
  oneIngested := h.oneIngested a ha
  oneAnnounced := h.oneAnnounced a ha
  oneCreated v hv := h.oneCreated v (List.mem_filter.mp hv).1
  oneExtracted v hv := h.oneExtracted v (List.mem_filter.mp hv).1
  extractedIds v hv := h.extractedIds v (List.mem_filter.mp hv).1

/- No part of the invariant looks at the candidates. -/
theorem Consistent.setCandidates (h : Consistent db) (candidates : List UrlCandidateModel) :
    Consistent { db with candidates } :=
  { h with unique := fun c => (c.holds_setCandidates db candidates).trans (h.unique c) }

theorem consistent_newDb (candidates : List UrlCandidateModel) :
    Consistent (newDb candidates) := by
  constructor
  · constructor
    · constructor <;> simp [newDb]
    all_goals simp [newDb, Db.versionsOf]
  · simp [newDb]
  · intro c
    cases c <;> rfl

end Newsintel.ArticleStore
