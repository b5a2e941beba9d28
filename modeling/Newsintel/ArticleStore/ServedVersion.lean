import Newsintel.ArticleStore.Integrity
import Newsintel.Lib.Ranking

/-!
# The version that readers are served

`complete_success` stores a content of an article once; `ArticleQueryService` serves the version
with the highest number. A content that comes back after another one gets no new number, so the
one in between is served. An article has one candidate, that of its fingerprint.
-/

namespace Newsintel.ArticleStore

open Newsintel.Articles PyText

/-- `_latest_version`: `ORDER BY version_number DESC LIMIT 1`. -/
def latestVersion (db : Db) (article : Uuid) : Option ArticleVersionModel :=
  (Ranking.ranked (·.versionNumber) (db.versionsOf article)).head?

/-- The version has the content that was extracted. -/
def Serves (v : ArticleVersionModel) (extracted : ExtractedArticle) : Prop :=
  v.contentSha256 = extracted.contentSha256 ∧ v.textContent = extracted.textContent

/-- The store, with the article and the content of each committed call, the last call first. -/
structure FetchedStore where
  store : Store
  fetched : List (Uuid × ExtractedArticle)

/-- The call that the step commits. -/
def committedCall (u : Unicode) (decideEvent : DecideEvent) (s : Store) :
    Step → Option (Uuid × ExtractedArticle)
  | .commit i =>
    s.inFlight[i]?.bind fun t => (snapshots? t.reads).bind fun snaps =>
      (completeSuccessWrites u decideEvent t.call snaps).toOption.bind fun w =>
        (s.db.commit w).toOption.map fun _ => (w.result.articleId, t.call.extracted)
  | _ => none

def fetchStep (u : Unicode) (decideEvent : DecideEvent) (s : FetchedStore) (label : Step) :
    Option FetchedStore :=
  (step u decideEvent s.store label).map fun store =>
    ⟨store, (committedCall u decideEvent s.store label).toList ++ s.fetched⟩

/-- Nothing has been fetched. -/
def newFetchedStore (candidates : List UrlCandidateModel) : FetchedStore := ⟨newStore candidates, []⟩

/-- Every article is served with the content of its last call. -/
def ServesLastFetched (s : FetchedStore) : Prop :=
  ∀ article extracted, s.fetched.lookup article = some extracted →
    ∃ v ∈ latestVersion s.store.db article, Serves v extracted

/-- The content is new to the article, or is the one served already. -/
def NewOrServed (db : Db) (article : Uuid) (extracted : ExtractedArticle) : Prop :=
  (∀ v ∈ db.versionsOf article, v.contentSha256 ≠ extracted.contentSha256) ∨
    ∃ v ∈ latestVersion db article, Serves v extracted

/-- No call brings back a content that another one has replaced. -/
def BringsNothingBack (u : Unicode) (decideEvent : DecideEvent) (s : FetchedStore) (label : Step) :
    Prop :=
  ∀ c ∈ committedCall u decideEvent s.store label, NewOrServed s.store.db c.1 c.2

variable {u : Unicode} {decideEvent : DecideEvent} {call : SuccessCall} {s : Snapshots}
  {w : Writes} {db db' : Db} {article : Uuid}

/-! ### One commit -/

theorem versionsOf_apply_new {n : NewVersion} (hnew : w.newVersion = some n) :
    (db.apply w).versionsOf article =
      db.versionsOf article ++ [n.version].filter (·.articleId = article) := by
  rw [Db.versionsOf, versions_apply, Db.applyVersion, hnew]
  exact List.filter_append _ _

theorem versionsOf_apply_stored (hnone : w.newVersion = none) :
    (db.apply w).versionsOf article = db.versionsOf article := by
  rw [Db.versionsOf, versions_apply, Db.applyVersion, hnone]
  rfl

/- A new version gets a number above those of the article. -/
theorem versionNumber_lt (hdb : Consistent db) (hs : s.Seen db)
    (hnew : w.newVersion = some (newVersionWrites u call article s.numberAt))
    (hunique : ∀ c : UniqueConstraint, c.holds (db.apply w) = true) :
    ∀ v ∈ db.versionsOf article, v.versionNumber < nextVersionNumber s.numberAt article := by
  obtain ⟨n, hn⟩ := hdb.numbered article
  have hnumbers : ((db.versions.map fun v => (v.articleId, v.versionNumber)) ++
      [(article, nextVersionNumber s.numberAt article)]).Nodup := by
    have hpairs := of_decide_eq_true (hunique .uqArticleVersionsArticleNumber)
    rw [versions_apply, Db.applyVersion, hnew] at hpairs
    simp only [Db.insertVersion, List.map_append, List.map_singleton] at hpairs
    exact hpairs
  have hnext := nextVersionNumber_of_unique hs.numberAt.consistent hs.numberAt.within.versions
    hnumbers hn
  intro v hv
  have hmem : v.versionNumber ∈ List.range' 1 n := hn.mem_iff.mp (List.mem_map_of_mem hv)
  rw [List.mem_range'_1] at hmem
  omega

/- The commit serves its content exactly when the content was new, or served before. -/
theorem serves_iff (hdb : Consistent db) (hs : s.Seen db)
    (hw : completeSuccessWrites u decideEvent call s = .ok w)
    (hunique : ∀ c : UniqueConstraint, c.holds (db.apply w) = true) :
    (∃ v ∈ latestVersion (db.apply w) w.result.articleId, Serves v call.extracted) ↔
      NewOrServed db w.result.articleId call.extracted := by
  obtain ⟨_, _, _, _, hcontent⟩ := completeSuccessWrites_cases hw
  obtain ⟨_, hnew, _⟩ | ⟨v, hstored, hnone, _⟩ := hcontent
  · have hrows : (db.apply w).versionsOf w.result.articleId = _ := versionsOf_apply_new hnew
    have hversion : [(newVersionWrites u call w.result.articleId s.numberAt).version].filter
        (·.articleId = w.result.articleId) =
          [(newVersionWrites u call w.result.articleId s.numberAt).version] :=
      List.filter_cons_of_pos (decide_eq_true rfl)
    rw [hversion] at hrows
    refine iff_of_true ⟨(newVersionWrites u call w.result.articleId s.numberAt).version, ?_, rfl,
      rfl⟩ (Or.inl ?_)
    · rw [Option.mem_def, latestVersion, hrows]
      apply Ranking.head?_ranked
      · exact List.mem_append_right _ (List.mem_singleton_self _)
      · intro v hv hne
        obtain hv | hv := List.mem_append.mp hv
        · exact versionNumber_lt hdb hs hnew hunique v hv
        · exact absurd (List.mem_singleton.mp hv) hne
    · intro v hv hsame
      have hcontents := of_decide_eq_true (hunique .uqArticleVersionsContent)
      rw [versions_apply, Db.applyVersion, hnew] at hcontents
      simp only [Db.insertVersion, List.map_append, List.map_singleton] at hcontents
      obtain ⟨hv, harticle⟩ := List.mem_filter.mp hv
      refine (List.nodup_append.mp hcontents).2.2 _ (List.mem_map_of_mem hv) _
        (List.mem_singleton_self _) ?_
      rw [Prod.mk.injEq]
      exact ⟨of_decide_eq_true harticle, hsame⟩
  · rw [latestVersion, versionsOf_apply_stored hnone]
    obtain ⟨hv, harticle, hsame⟩ := existingVersion_some hstored
    constructor
    · exact Or.inr
    · intro hor
      refine hor.resolve_left fun hfresh => hfresh v ?_ hsame
      exact List.mem_filter.mpr ⟨hs.versionAt.within.versions hv, decide_eq_true harticle⟩

/- Other articles are served as before. -/
theorem latestVersion_other (hw : completeSuccessWrites u decideEvent call s = .ok w)
    (hother : article ≠ w.result.articleId) :
    latestVersion (db.apply w) article = latestVersion db article := by
  obtain ⟨_, _, _, _, hcontent⟩ := completeSuccessWrites_cases hw
  obtain ⟨_, hnew, _⟩ | ⟨_, _, hnone, _⟩ := hcontent
  · rw [latestVersion, versionsOf_apply_new hnew, List.filter_cons_of_neg, List.filter_nil,
      List.append_nil, latestVersion]
    exact fun hsame => hother (of_decide_eq_true hsame).symm
  · rw [latestVersion, versionsOf_apply_stored hnone, latestVersion]

/-! ### Runs -/

/- Everything that a step does to the versions and to the calls. -/
theorem fetchStep_cases {st st' : FetchedStore} {label : Step}
    (h : fetchStep u decideEvent st label = some st') :
    (committedCall u decideEvent st.store label = none ∧ st'.fetched = st.fetched ∧
        st'.store.db.versions = st.store.db.versions) ∨
      ∃ t snaps w, t ∈ st.store.inFlight ∧ snapshots? t.reads = some snaps ∧
        completeSuccessWrites u decideEvent t.call snaps = .ok w ∧
        st.store.db.commit w = .ok st'.store.db ∧
        committedCall u decideEvent st.store label = some (w.result.articleId, t.call.extracted) ∧
        st'.fetched = (w.result.articleId, t.call.extracted) :: st.fetched := by
  obtain ⟨store, hstep, rfl⟩ := Option.map_eq_some_iff.mp h
  cases label with
  | begin call =>
    obtain rfl := Option.some.inj hstep
    exact Or.inl ⟨rfl, rfl, rfl⟩
  | read i =>
    obtain ⟨t, _, rfl⟩ := Option.map_eq_some_iff.mp hstep
    exact Or.inl ⟨rfl, rfl, rfl⟩
  | frontier candidates =>
    obtain rfl := Option.some.inj hstep
    exact Or.inl ⟨rfl, rfl, rfl⟩
  | commit i =>
    obtain ⟨t, ht, hcommit⟩ := Option.bind_eq_some_iff.mp hstep
    obtain ⟨snaps, hsnaps, rfl⟩ := Option.map_eq_some_iff.mp hcommit
    have hcall : committedCall u decideEvent st.store (.commit i) =
        (completeSuccessWrites u decideEvent t.call snaps).toOption.bind fun w =>
          (st.store.db.commit w).toOption.map fun _ => (w.result.articleId, t.call.extracted) := by
      simp only [committedCall, ht, hsnaps, Option.bind_some]
    rw [hcall]
    cases hw : completeSuccessWrites u decideEvent t.call snaps with
    | error e =>
      refine Or.inl ⟨rfl, rfl, ?_⟩
      simp only [commitCall, hw]
    | ok w =>
      have hok : (Except.ok w : Except PyError Writes).toOption = some w := rfl
      rw [hok, Option.bind_some]
      cases hc : st.store.db.commit w with
      | error c =>
        refine Or.inl ⟨rfl, rfl, ?_⟩
        simp only [commitCall, hw, hc]
      | ok db' =>
        refine Or.inr ⟨t, snaps, w, List.mem_of_getElem? ht, hsnaps, hw, ?_, rfl, rfl⟩
        simp only [commitCall, hw, hc]

theorem latestVersion_congr (h : db'.versions = db.versions) :
    latestVersion db' article = latestVersion db article := by
  rw [latestVersion, latestVersion, Db.versionsOf, Db.versionsOf, h]

/- A step keeps every article served with its last content exactly if it brings nothing back. -/
theorem servesLastFetched_iff {st st' : FetchedStore} {label : Step}
    (hinv : StoreInvariant st.store) (hserves : ServesLastFetched st)
    (h : fetchStep u decideEvent st label = some st') :
    ServesLastFetched st' ↔ BringsNothingBack u decideEvent st label := by
  obtain ⟨hnone, hfetched, hversions⟩ | ⟨t, snaps, w, ht, hsnaps, hw, hc, hcall, hfetched⟩ :=
    fetchStep_cases h
  · refine iff_of_true ?_ ?_
    · intro article extracted hlast
      rw [latestVersion_congr hversions]
      exact hserves article extracted (hfetched ▸ hlast)
    · intro c hmem
      rw [hnone] at hmem
      cases hmem
  · obtain ⟨hdb', hunique⟩ := commit_ok hc
    have hunique : ∀ c : UniqueConstraint, c.holds (st.store.db.apply w) = true := hdb' ▸ hunique
    have hs := snapshots?_seen hsnaps (hinv.seen t ht)
    have hcommitted : BringsNothingBack u decideEvent st label ↔
        NewOrServed st.store.db w.result.articleId t.call.extracted := by
      rw [BringsNothingBack, hcall]
      constructor
      · intro hall
        exact hall _ rfl
      · rintro hone c hc
        cases hc
        exact hone
    rw [hcommitted, ← serves_iff hinv.consistent hs hw hunique, ← hdb']
    constructor
    · intro hall
      apply hall
      rw [hfetched]
      exact List.lookup_cons_self
    · intro hlast article extracted hlookup
      rw [hfetched] at hlookup
      by_cases hsame : article = w.result.articleId
      · rw [hsame, List.lookup_cons_self] at hlookup
        cases hlookup
        exact hsame ▸ hlast
      · rw [List.lookup_cons, beq_false_of_ne hsame] at hlookup
        rw [hdb', latestVersion_other hw hsame]
        exact hserves article extracted hlookup

theorem fetchStep_store {st st' : FetchedStore} {label : Step}
    (h : fetchStep u decideEvent st label = some st') :
    step u decideEvent st.store label = some st'.store := by
  obtain ⟨store, hstep, rfl⟩ := Option.map_eq_some_iff.mp h
  exact hstep

/- Exact condition, over every run of interleaved calls. -/
theorem servesLastFetched_iff_bringsNothingBack {candidates : List UrlCandidateModel}
    {steps : List Step} {st : FetchedStore}
    (h : Runs.exec (fetchStep u decideEvent) (newFetchedStore candidates) steps = some st) :
    Runs.Throughout (fetchStep u decideEvent) ServesLastFetched (newFetchedStore candidates)
        steps ↔
      Runs.Every (fetchStep u decideEvent) (BringsNothingBack u decideEvent)
        (newFetchedStore candidates) steps := by
  apply Runs.throughout_iff_every (I := fun m => StoreInvariant m.store) _ _ _ _ h
  · exact storeInvariant_newStore candidates
  · intro article extracted hlast
    cases hlast
  · intro m label n hm _ _ hn
    exact step_invariant hm (fetchStep_store hn)
  · intro m label n hm hserves hn
    exact servesLastFetched_iff hm hserves hn

/-! ### A content that comes back -/

/-- One call after the other, each with the hash and the text of a content. -/
def serialCalls (contents : List (Text × Text)) : List Step :=
  contents.zipIdx.flatMap fun c =>
    .begin (sampleCall (1000 * (c.2 + 1)) c.1.1 c.1.2) :: readsAndCommit 0

/-- The second content is delivered twice. -/
def replacedOnce : List Step :=
  serialCalls [("a".toList, "First.".toList), ("b".toList, "Second.".toList),
    ("b".toList, "Second.".toList)]

/-- The first content comes back after the second one. -/
def broughtBack : List Step :=
  serialCalls [("a".toList, "First.".toList), ("b".toList, "Second.".toList),
    ("a".toList, "First.".toList)]

instance (v : ArticleVersionModel) (extracted : ExtractedArticle) :
    Decidable (Serves v extracted) := inferInstanceAs (Decidable (_ ∧ _))

instance (db : Db) (article : Uuid) (extracted : ExtractedArticle) :
    Decidable (NewOrServed db article extracted) := inferInstanceAs (Decidable (_ ∨ _))

instance (s : FetchedStore) (label : Step) :
    Decidable (BringsNothingBack u decideEvent s label) :=
  inferInstanceAs (Decidable (∀ c ∈ committedCall u decideEvent s.store label, _))

theorem replacedOnce_served : ∃ st,
    Runs.exec (fetchStep asciiUnicode noMatch) (newFetchedStore [sampleCandidate]) replacedOnce =
        some st ∧
      (Runs.Throughout (fetchStep asciiUnicode noMatch) ServesLastFetched
          (newFetchedStore [sampleCandidate]) replacedOnce ↔
        Runs.Every (fetchStep asciiUnicode noMatch) (BringsNothingBack asciiUnicode noMatch)
          (newFetchedStore [sampleCandidate]) replacedOnce) ∧
      Runs.Every (fetchStep asciiUnicode noMatch) (BringsNothingBack asciiUnicode noMatch)
        (newFetchedStore [sampleCandidate]) replacedOnce := by
  have hruns : (Runs.exec (fetchStep asciiUnicode noMatch) (newFetchedStore [sampleCandidate])
      replacedOnce).isSome = true := by decide +kernel
  obtain ⟨st, hst⟩ := Option.isSome_iff_exists.mp hruns
  exact ⟨st, hst, servesLastFetched_iff_bringsNothingBack hst,
    Runs.every_of_decide (by decide +kernel)⟩

/- The second content is served although the first one was fetched last. -/
theorem broughtBack_not_served : ¬ ∀ (u : Unicode) (decideEvent : DecideEvent)
    (candidates : List UrlCandidateModel) (steps : List Step) (st : FetchedStore),
    Runs.exec (fetchStep u decideEvent) (newFetchedStore candidates) steps = some st →
      ServesLastFetched st := by
  intro h
  have hlast : (Runs.exec (fetchStep asciiUnicode noMatch) (newFetchedStore [sampleCandidate])
      broughtBack).map (fun st => (st.fetched.map fun c => (c.1, c.2.contentSha256),
        (latestVersion st.store.db 1001).map (·.contentSha256))) =
      some ([(1001, "a".toList), (1001, "b".toList), (1001, "a".toList)], some "b".toList) := by
    decide +kernel
  obtain ⟨st, hst, hpair⟩ := Option.map_eq_some_iff.mp hlast
  obtain ⟨hfetched, hserved⟩ := Prod.mk.inj hpair
  obtain ⟨c, rest, hcalls, hc, _⟩ := List.map_eq_cons_iff.mp hfetched
  obtain ⟨v, hv, hversion⟩ := Option.map_eq_some_iff.mp hserved
  obtain ⟨harticle, hsha⟩ := Prod.mk.inj hc
  obtain ⟨v', hv', hserves, _⟩ := h asciiUnicode noMatch _ _ st hst 1001 c.2 (by
    rw [hcalls, List.lookup_cons, ← harticle, beq_self_eq_true])
  obtain rfl := Option.some.inj (hv.symm.trans hv')
  rw [hversion, hsha] at hserves
  exact absurd hserves (by decide)

end Newsintel.ArticleStore
