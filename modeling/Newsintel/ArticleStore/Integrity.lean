import Mathlib.Data.List.Perm.Subperm
import Newsintel.ArticleStore.Inserts
import Newsintel.ArticleStore.StoreRuns

/-!
# Integrity of the article store

The invariant holds in every database that interleaved `complete_success`
transactions can reach. Ids are new because the primary keys of the result hold.
`version_number` comes from a maximum that may be stale at the commit; the constraint
on `(article_id, version_number)` then leaves only the next number.
-/

namespace Newsintel.ArticleStore

open Newsintel.Articles Newsintel.Intelligence PyText

variable {u : Unicode} {decideEvent : DecideEvent} {call : SuccessCall} {s : Snapshots}
  {w : Writes} {d db db' : Db} {article : Uuid}

/-! ### Version numbers -/

theorem foldl_max_range' (n : ℕ) : (List.range' 1 n).foldl max 0 = n := by
  induction n with
  | zero => rfl
  | succ n ih =>
    rw [List.range'_1_concat, List.foldl_append, ih, List.foldl_cons, List.foldl_nil]
    omega

theorem nextVersionNumber_eq {n : ℕ}
    (h : ((d.versionsOf article).map (·.versionNumber)).Perm (List.range' 1 n)) :
    nextVersionNumber d article = n + 1 := by
  unfold nextVersionNumber
  rw [h.foldl_eq, foldl_max_range']

/- A version number computed from an earlier database is the next one of the current
database, or the commit violates the constraint on numbers. -/
theorem nextVersionNumber_of_unique (hd : Consistent d) (hin : d.versions ⊆ db.versions)
    (hunique : ((db.versions.map fun v => (v.articleId, v.versionNumber)) ++
      [(article, nextVersionNumber d article)]).Nodup) {n : ℕ}
    (hn : ((db.versionsOf article).map (·.versionNumber)).Perm (List.range' 1 n)) :
    nextVersionNumber d article = n + 1 := by
  obtain ⟨k, hk⟩ := hd.numbered article
  have hnext := nextVersionNumber_eq hk
  have hle : k ≤ n := by
    have hids := of_decide_eq_true (hd.unique .pkArticleVersions)
    have hnodup : (d.versionsOf article).Nodup := List.Nodup.filter _ (List.Nodup.of_map _ hids)
    have hsub : d.versionsOf article ⊆ db.versionsOf article := by
      intro v hv
      obtain ⟨hv, hp⟩ := List.mem_filter.mp hv
      exact List.mem_filter.mpr ⟨hin hv, hp⟩
    have hlen := (List.subperm_of_subset hnodup hsub).length_le
    have hk' := hk.length_eq
    have hn' := hn.length_eq
    simp only [List.length_map, List.length_range'] at hk' hn'
    omega
  have hge : n ≤ k := by
    by_contra hlt
    have hmem : k + 1 ∈ List.range' 1 n := by
      rw [List.mem_range'_1]
      omega
    obtain ⟨v, hv, hvn⟩ := List.mem_map.mp (hn.mem_iff.mpr hmem)
    obtain ⟨hv, hva⟩ := List.mem_filter.mp hv
    obtain ⟨-, -, hdisj⟩ := List.nodup_append.mp hunique
    refine hdisj _ (List.mem_map_of_mem hv) _ (List.mem_singleton.mpr rfl) ?_
    rw [Prod.mk.injEq]
    exact ⟨of_decide_eq_true hva, hvn.trans hnext.symm⟩
  omega

/-! ### A commit -/

/-- A database that a transaction has read. -/
structure Seen (d db : Db) : Prop where
  consistent : Consistent d
  within : Within d db

/-- All reads of a transaction. -/
structure Snapshots.Seen (s : Snapshots) (db : Db) : Prop where
  eventAt : ArticleStore.Seen s.eventAt db
  articleAt : ArticleStore.Seen s.articleAt db
  versionAt : ArticleStore.Seen s.versionAt db
  numberAt : ArticleStore.Seen s.numberAt db

theorem mem_applyVersion {v : ArticleVersionModel} (hv : v ∈ db.versions) :
    v ∈ (db.applyVersion w).versions := by
  unfold Db.applyVersion
  cases w.newVersion with
  | none => exact hv
  | some n => exact List.mem_append_left _ hv

theorem versionsOf_ne_nil {v : ArticleVersionModel} (hv : v ∈ db.versions)
    (ha : v.articleId = article) : db.versionsOf article ≠ [] :=
  List.ne_nil_of_mem (List.mem_filter.mpr ⟨hv, decide_eq_true ha⟩)

/- The version part of a sound database whose article has the next number. -/
theorem Sound.applyVersion (h : Sound db) (hpart : VersionPart u call s article w)
    (harticle : article ∈ db.articleIds)
    (hnumber : ((db.versions.map fun v => (v.articleId, v.versionNumber)) ++
        [(article, nextVersionNumber s.numberAt article)]).Nodup →
      ∀ n, ((db.versionsOf article).map (·.versionNumber)).Perm (List.range' 1 n) →
        nextVersionNumber s.numberAt article = n + 1)
    (hunique : ∀ c : UniqueConstraint, c.holds (db.applyVersion w) = true) :
    Sound (db.applyVersion w) := by
  rcases hpart with ⟨hnone, -⟩ | hsome
  · rw [Db.applyVersion, hnone]
    exact h
  · rw [Db.applyVersion, hsome] at hunique ⊢
    have hids := of_decide_eq_true (hunique .pkArticleVersions)
    have hclaims := of_decide_eq_true (hunique .pkArticleClaims)
    have hnumbers := of_decide_eq_true (hunique .uqArticleVersionsArticleNumber)
    simp only [Db.insertVersion, List.map_append, List.map_singleton] at hids hclaims hnumbers
    refine h.insertVersion ?_ harticle hclaims (hnumber hnumbers)
    intro hmem
    exact (List.nodup_append.mp hids).2.2 _ hmem _ (List.mem_singleton.mpr rfl) rfl

/- The article of the call has a version afterwards. -/
theorem VersionPart.versioned (hpart : VersionPart u call s article w)
    (hseen : ∀ v ∈ s.versionAt.versions, v ∈ db.versions) :
    (db.applyVersion w).versionsOf article ≠ [] := by
  rcases hpart with ⟨-, v, hv, hva⟩ | hsome
  · exact versionsOf_ne_nil (mem_applyVersion (hseen v hv)) hva
  · rw [Db.applyVersion, hsome]
    exact versionsOf_ne_nil (List.mem_append_right _ (List.mem_singleton.mpr rfl)) rfl

section commit

variable (hdb : Consistent db) (hs : s.Seen db)
  (hunique : ∀ c : UniqueConstraint, c.holds ((db.applyArticle w).applyVersion w) = true)
include hdb hs hunique

/- The writes for a new article: its id is new to the database, so no version read
before the commit is one of it, and its first version gets the number 1. -/
theorem consistent_newArticle {fingerprint : Bytes} {choice : EventChoice}
    (hnew : w.newArticle = some (newArticleWrites call fingerprint choice))
    (hkeep : ∀ row, (choice.updateEvent row).id = row.id)
    (hevent : (∃ e, choice.newEvent = some e ∧ e.id = choice.eventId) ∨
      (choice.newEvent = none ∧ choice.eventId ∈ s.eventAt.eventIds))
    (hpart : VersionPart u call s call.ids.article w) :
    Consistent ((db.applyArticle w).applyVersion w) := by
  have hmid : db.applyArticle w = db.insertArticle (newArticleWrites call fingerprint choice) := by
    rw [Db.applyArticle, hnew]
  rw [hmid] at hunique ⊢
  have hfresh : call.ids.article ∉ db.articleIds := by
    have hids := of_decide_eq_true (hunique .pkArticles)
    rw [applyVersion_articles] at hids
    have happ : (db.articleIds ++ [call.ids.article]).Nodup := insertArticle_articleIds ▸ hids
    intro hmem
    exact (List.nodup_append.mp happ).2.2 _ hmem _ (List.mem_singleton.mpr rfl) rfl
  have hchoice : ChoiceFits choice db := by
    refine ⟨hkeep, ?_⟩
    rcases hevent with ⟨e, he, heid⟩ | ⟨hnone, hmem⟩
    · refine Or.inl ⟨e, he, heid, ?_⟩
      have hids := of_decide_eq_true (hunique .pkEvents)
      rw [applyVersion_events] at hids
      have happ : (db.eventIds ++ choice.newEvent.toList.map (·.id)).Nodup :=
        insertArticle_eventIds hkeep ▸ hids
      rw [he] at happ
      intro hmem
      exact (List.nodup_append.mp happ).2.2 _ hmem _ (List.mem_singleton.mpr rfl) rfl
    · exact Or.inr ⟨hnone, hs.eventAt.within.events hmem⟩
  have hnone : ∀ d, Seen d db → ∀ v ∈ d.versions, v.articleId ≠ call.ids.article := by
    intro d hd v hv he
    exact hfresh (he ▸ hd.within.articles (hd.consistent.version v hv))
  have hempty : ∀ d, Seen d db → d.versionsOf call.ids.article = [] := by
    intro d hd
    rw [Db.versionsOf, List.filter_eq_nil_iff]
    intro v hv hp
    exact hnone d hd v hv (of_decide_eq_true hp)
  have hsound := hdb.toSound.insertArticle fingerprint hfresh hchoice
  constructor
  case toSound =>
    refine hsound.applyVersion hpart ?_ ?_ hunique
    · rw [insertArticle_articleIds]
      exact List.mem_append_right _ (List.mem_singleton.mpr rfl)
    · intro _ n hn
      have hdbEmpty := hempty db ⟨hdb, Within.refl db⟩
      have hzero : n = 0 := by
        have hlen := hn.length_eq
        change ((db.versionsOf call.ids.article).map (·.versionNumber)).length = _ at hlen
        rw [hdbEmpty, List.length_range'] at hlen
        exact hlen.symm
      rw [nextVersionNumber, hempty _ hs.numberAt, hzero]
      rfl
  case versioned =>
    intro a ha
    rw [applyVersion_articles] at ha
    rcases List.mem_append.mp ha with ha | ha
    · obtain ⟨v, hv⟩ := List.exists_mem_of_ne_nil _ (hdb.versioned a ha)
      obtain ⟨hv, hva⟩ := List.mem_filter.mp hv
      exact versionsOf_ne_nil (mem_applyVersion hv) (of_decide_eq_true hva)
    · obtain rfl := List.mem_singleton.mp ha
      exact hpart.versioned fun v hv => hs.versionAt.within.versions hv
  case unique => exact hunique

/- The writes for an article that is known. -/
theorem consistent_knownArticle {a : ArticleModel} (ha : a ∈ s.articleAt.articles)
    (hnone : w.newArticle = none) (hupdate : w.updateArticle = updateKnownArticle call a)
    (hpart : VersionPart u call s a.id w) :
    Consistent ((db.applyArticle w).applyVersion w) := by
  have hmid : db.applyArticle w =
      { db with articles := db.articles.map (updateKnownArticle call a) } := by
    rw [Db.applyArticle, hnone, hupdate]
  have hids : (db.applyArticle w).articleIds = db.articleIds := by
    rw [hmid]
    exact updateKnownArticle_ids
  have hsound : Sound (db.applyArticle w) := by
    rw [hmid]
    exact hdb.toSound.mapArticles (fun row => (updateKnownArticle_keys a row).1)
      fun row => (updateKnownArticle_keys a row).2
  constructor
  case toSound =>
    refine hsound.applyVersion hpart ?_ ?_ hunique
    · rw [hids]
      exact hs.articleAt.within.articles (List.mem_map_of_mem ha)
    · intro hnumbers n hn
      refine nextVersionNumber_of_unique hs.numberAt.consistent ?_ hnumbers hn
      rw [applyArticle_versions]
      exact hs.numberAt.within.versions
  case versioned =>
    intro b hb
    rw [applyVersion_articles, hmid] at hb
    obtain ⟨row, hrow, rfl⟩ := List.mem_map.mp hb
    rw [(updateKnownArticle_keys a row).1]
    obtain ⟨v, hv⟩ := List.exists_mem_of_ne_nil _ (hdb.versioned row hrow)
    obtain ⟨hv, hva⟩ := List.mem_filter.mp hv
    rw [← applyArticle_versions (w := w)] at hv
    exact versionsOf_ne_nil (mem_applyVersion hv) (of_decide_eq_true hva)
  case unique => exact hunique

end commit

/- A commit only adds rows, or writes columns that are no keys. -/
theorem within_apply (hw : completeSuccessWrites u decideEvent call s = .ok w) :
    Within db (db.apply w) := by
  have hversions : db.versions ⊆ (db.apply w).versions := by
    intro v hv
    rw [← applyArticle_versions (w := w)] at hv
    exact mem_applyVersion hv
  have hevents : (db.apply w).eventIds = (db.applyArticle w).eventIds := by
    simp only [Db.apply, Db.eventIds, applyVersion_events]
  have harticles : (db.apply w).articleIds = (db.applyArticle w).articleIds := by
    simp only [Db.apply, Db.articleIds, applyVersion_articles]
  refine ⟨hevents ▸ ?_, harticles ▸ ?_, hversions⟩
  · rcases completeSuccessWrites_ok hw with ⟨fingerprint, hnew, -⟩ | ⟨a, -, hnone, -, -⟩
    · simp only [Db.applyArticle, hnew]
      rw [insertArticle_eventIds (chooseEvent_updateEvent_id _ _)]
      exact List.subset_append_left _ _
    · simp only [Db.applyArticle, hnone]
      exact List.Subset.refl _
  · rcases completeSuccessWrites_ok hw with ⟨fingerprint, hnew, -⟩ | ⟨a, -, hnone, hupdate, -⟩
    · simp only [Db.applyArticle, hnew]
      rw [insertArticle_articleIds]
      exact List.subset_append_left _ _
    · simp only [Db.applyArticle, hnone, hupdate, Db.articleIds, updateKnownArticle_ids]
      exact List.Subset.refl _

theorem commitCall_seen (u : Unicode) (decideEvent : DecideEvent) (call : SuccessCall)
    (hdb : Consistent db) (hs : s.Seen db) :
    Seen db (commitCall u decideEvent call s db) ∧
      Consistent (commitCall u decideEvent call s db) := by
  unfold commitCall
  cases hw : completeSuccessWrites u decideEvent call s with
  | error e => exact ⟨⟨hdb, Within.refl db⟩, hdb⟩
  | ok w =>
    simp only
    cases hc : db.commit w with
    | error c => exact ⟨⟨hdb, Within.refl db⟩, hdb⟩
    | ok db' =>
      obtain ⟨rfl, hall⟩ := commit_ok hc
      refine ⟨⟨hdb, within_apply hw⟩, ?_⟩
      have hunique : ∀ c : UniqueConstraint,
          c.holds ((db.applyArticle w).applyVersion w) = true :=
        fun c => (c.holds_setCandidates _ _).symm.trans (hall c)
      apply Consistent.setCandidates
      rcases completeSuccessWrites_ok hw with
        ⟨fingerprint, hnew, hpart⟩ | ⟨a, ha, hnone, hupdate, hpart⟩
      · exact consistent_newArticle hdb hs hunique hnew
          (chooseEvent_updateEvent_id _ _) (chooseEvent_cases _ _) hpart
      · exact consistent_knownArticle hdb hs hunique ha hnone hupdate hpart

/-! ### Runs -/

/-- The committed database is consistent, and so was every database a transaction in
flight has read. -/
structure StoreInvariant (st : Store) : Prop where
  consistent : Consistent st.db
  seen : ∀ t ∈ st.inFlight, ∀ d ∈ t.reads, Seen d st.db

theorem snapshots?_seen {reads : List Db} (h : snapshots? reads = some s)
    (hreads : ∀ d ∈ reads, Seen d db) : s.Seen db := by
  unfold snapshots? at h
  split at h
  · obtain rfl := Option.some.inj h
    constructor <;> exact hreads _ (by simp)
  · contradiction

theorem Seen.trans (h : Seen d db) (h' : Within db db') : Seen d db' :=
  ⟨h.consistent, h.within.trans h'⟩

theorem step_invariant {st st' : Store} {a : Step} (h : StoreInvariant st)
    (hstep : step u decideEvent st a = some st') : StoreInvariant st' := by
  cases a with
  | begin call =>
    obtain rfl := Option.some.inj hstep
    refine ⟨h.consistent, ?_⟩
    intro t ht d hd
    rcases List.mem_append.mp ht with ht | ht
    · exact h.seen t ht d hd
    · obtain rfl := List.mem_singleton.mp ht
      contradiction
  | read i =>
    obtain ⟨t, ht, rfl⟩ := Option.map_eq_some_iff.mp hstep
    refine ⟨h.consistent, ?_⟩
    intro t' ht' d hd
    rcases List.mem_or_eq_of_mem_set ht' with ht' | rfl
    · exact h.seen t' ht' d hd
    · rcases List.mem_append.mp hd with hd | hd
      · exact h.seen t (List.mem_of_getElem? ht) d hd
      · obtain rfl := List.mem_singleton.mp hd
        exact ⟨h.consistent, Within.refl _⟩
  | commit i =>
    obtain ⟨t, ht, hcommit⟩ := Option.bind_eq_some_iff.mp hstep
    obtain ⟨snaps, hsnaps, rfl⟩ := Option.map_eq_some_iff.mp hcommit
    have hs := snapshots?_seen hsnaps (h.seen t (List.mem_of_getElem? ht))
    obtain ⟨hin, hcons⟩ := commitCall_seen u decideEvent t.call h.consistent hs
    refine ⟨hcons, ?_⟩
    intro t' ht' d hd
    exact (h.seen t' (List.mem_of_mem_eraseIdx ht') d hd).trans hin.within
  | frontier candidates =>
    obtain rfl := Option.some.inj hstep
    refine ⟨h.consistent.setCandidates candidates, ?_⟩
    intro t ht d hd
    exact (h.seen t ht d hd).trans
      ⟨List.Subset.refl _, List.Subset.refl _, List.Subset.refl _⟩

theorem storeInvariant_newStore (candidates : List UrlCandidateModel) :
    StoreInvariant (newStore candidates) :=
  ⟨consistent_newDb candidates, by simp [newStore]⟩

/-- The rows of every article agree, in every database that interleaved transactions
can reach. -/
theorem integrity_reachable {candidates : List UrlCandidateModel} {steps : List Step}
    {st : Store} (h : Runs.exec (step u decideEvent) (newStore candidates) steps = some st) :
    ∀ a ∈ st.db.articles, ArticleIntegrity st.db a := by
  intro a ha
  have hinv := Runs.invariant (storeInvariant_newStore candidates)
    (fun m a n hm hn => step_invariant hm hn) h
  exact hinv.consistent.articleIntegrity ha

/-- A first version is stored; then two transactions compute number 2 for different
texts, and the second one aborts. -/
def racingRun : List Step :=
  .begin (sampleCall 1000 "a".toList
      "The company announced 5 new plants in India on Monday.".toList) ::
    readsAndCommit 0 ++
    [.begin (sampleCall 2000 "b".toList
      "The company announced 6 new plants in India on Monday.".toList),
    .begin (sampleCall 3000 "c".toList
      "The company announced 7 new plants in India on Monday.".toList)] ++
    List.replicate 6 (.read 0) ++ readsAndCommit 1 ++ [.commit 0]

theorem racingRun_integrity : ∃ st,
    Runs.exec (step asciiUnicode noMatch) (newStore [sampleCandidate]) racingRun = some st ∧
      st.db.versions.map (·.versionNumber) = [1, 2] ∧
      ∀ a ∈ st.db.articles, ArticleIntegrity st.db a := by
  have hlast : (Runs.exec (step asciiUnicode noMatch) (newStore [sampleCandidate])
      racingRun).map (fun st => st.db.versions.map (·.versionNumber)) = some [1, 2] := by
    decide +kernel
  obtain ⟨st, hst, hnumbers⟩ := Option.map_eq_some_iff.mp hlast
  exact ⟨st, hst, hnumbers, integrity_reachable hst⟩

end Newsintel.ArticleStore
