import Newsintel.ArticleStore.Integrity

/-!
# The constraint on claim hashes

`article_claims` is unique in `(article_version_id, claim_sha256)`. The hash is taken
of the lower-cased sentence, the loop of `extract_claims` keeps every candidate
sentence it meets, so two candidates that differ at most in case violate it. The
version id is new, so nothing else can.
-/

namespace Newsintel.ArticleStore

open Newsintel.Articles Newsintel.Intelligence PyText

variable {u : Unicode} {decideEvent : DecideEvent} {text : Text}

/-- The constraint that ends the transaction at the index when it commits now. -/
def abortedBy (u : Unicode) (decideEvent : DecideEvent) (st : Store) (i : ℕ) :
    Option UniqueConstraint :=
  st.inFlight[i]?.bind fun t => (snapshots? t.reads).bind fun s =>
    match completeSuccessWrites u decideEvent t.call s with
    | .error _ => none
    | .ok w =>
      match st.db.commit w with
      | .error c => some c
      | .ok _ => none

/-- Persisting the claims of a text never collides: their hashes are distinct, and no
transaction that stores the text, in any reachable store, aborts on the constraint. -/
def ClaimsStorable (u : Unicode) (text : Text) : Prop :=
  ((extractClaims u text).map fun c => claimSha256 u c.text).Nodup ∧
    ∀ decideEvent candidates steps st i t,
      Runs.exec (step u decideEvent) (newStore candidates) steps = some st →
        st.inFlight[i]? = some t → t.call.extracted.textContent = text →
          abortedBy u decideEvent st i ≠ some .articleVersionClaim

/-! ### Why nothing else violates the constraint -/

variable {call : SuccessCall} {s : Snapshots} {w : Writes} {db : Db}

theorem completeSuccessWrites_version (h : completeSuccessWrites u decideEvent call s = .ok w) :
    ∃ article, VersionPart u call s article w := by
  rcases completeSuccessWrites_ok h with ⟨-, -, hpart⟩ | ⟨a, -, -, -, hpart⟩
  · exact ⟨_, hpart⟩
  · exact ⟨_, hpart⟩

/- The constraint on version ids is checked before the one on claims. -/
theorem commit_claim_error (h : db.commit w = .error .articleVersionClaim) :
    UniqueConstraint.articleVersionClaim.holds (db.apply w) = false ∧
      UniqueConstraint.pkArticleVersions.holds (db.apply w) = true := by
  unfold Db.commit at h
  split at h
  · rename_i c hfind
    obtain rfl := Except.error.inj h
    rw [List.find?_eq_some_iff_getElem] at hfind
    obtain ⟨hviolated, i, hi, hci, hbefore⟩ := hfind
    have hpos : ∀ i (hi : i < uniqueConstraints.length),
        uniqueConstraints[i] = .articleVersionClaim → 4 < i := by decide
    have hversion : (!!UniqueConstraint.pkArticleVersions.holds (db.apply w)) = true :=
      hbefore 4 (hpos i hi hci)
    exact ⟨by simpa using hviolated, by simpa using hversion⟩
  · contradiction

theorem claimRows_keys {ids : FreshIds} {version : ArticleVersionModel} {createdAt : Timestamp} :
    ((claimRows u ids version createdAt).map fun c => (c.articleVersionId, c.claimSha256)) =
      ((extractClaims u version.textContent).map fun c => claimSha256 u c.text).map
        (Prod.mk version.id) := by
  conv_rhs => rw [← List.zipIdx_map_fst 0 (extractClaims u version.textContent)]
  simp only [claimRows, List.map_map]
  rfl

/- The old rows satisfy the constraint, the new ones have a version of their own. -/
theorem claims_unique (hdb : Consistent db)
    (hw : completeSuccessWrites u decideEvent call s = .ok w)
    (hhashes : ((extractClaims u call.extracted.textContent).map
      fun c => claimSha256 u c.text).Nodup)
    (hversions : UniqueConstraint.pkArticleVersions.holds (db.apply w) = true) :
    UniqueConstraint.articleVersionClaim.holds (db.apply w) = true := by
  obtain ⟨article, hpart⟩ := completeSuccessWrites_version hw
  have hold := of_decide_eq_true (hdb.unique .articleVersionClaim)
  have hids := of_decide_eq_true hversions
  have hclaims : (db.applyArticle w).claims = db.claims := by
    unfold Db.applyArticle
    cases w.newArticle <;> rfl
  apply decide_eq_true
  rcases hpart with ⟨hnone, -⟩ | hsome
  · simp only [Db.apply, Db.applyVersion, hnone, hclaims]
    exact hold
  · simp only [Db.apply, Db.applyVersion, hsome, Db.insertVersion, hclaims, List.map_append,
      applyArticle_versions] at hids ⊢
    rw [List.nodup_append]
    refine ⟨hold, ?_, ?_⟩
    · simp only [newVersionWrites, claimRows_keys]
      exact hhashes.map (Prod.mk_right_injective _)
    · rintro _ hc _ hn rfl
      obtain ⟨c, hc, hkey⟩ := List.mem_map.mp hc
      obtain ⟨n, hn, hnkey⟩ := List.mem_map.mp hn
      obtain ⟨v, hv, hvid, -⟩ := hdb.claim c hc
      have hcv := (Prod.mk.injEq ..).mp (hkey.trans hnkey.symm) |>.1
      have hnew : v.id = call.ids.version := by
        rw [hvid, hcv]
        exact (newVersion_claim hn).1
      exact (List.nodup_append.mp hids).2.2 _ (List.mem_map_of_mem hv) _
        (List.mem_singleton.mpr hnew) rfl

/-! ### Exact condition -/

/-- The sentences stay apart when lower-cased, and so do their hashes. -/
structure ClaimsApart (u : Unicode) (text : Text) : Prop where
  sentences : ((claimSentences u text).map u.lower).Nodup
  hashes : Set.InjOn Sha256.ofText {t | t ∈ (claimSentences u text).map u.lower}

theorem claimsApart_iff : ClaimsApart u text ↔
    ((extractClaims u text).map fun c => claimSha256 u c.text).Nodup := by
  rw [claim_hashes]
  constructor
  · intro h
    exact List.Nodup.map_on (fun s hs t ht he => h.hashes hs ht he) h.sentences
  · intro h
    exact ⟨List.Nodup.of_map _ h, fun s hs t ht he => List.inj_on_of_nodup_map h hs ht he⟩

/-- The claims of a text can be stored exactly if its claim sentences stay apart. -/
theorem claimsStorable_iff_apart (u : Unicode) (text : Text) :
    ClaimsStorable u text ↔ ClaimsApart u text := by
  rw [claimsApart_iff]
  constructor
  · exact fun h => h.1
  · intro hhashes
    refine ⟨hhashes, ?_⟩
    rintro decideEvent candidates steps st i t hst ht rfl hab
    have hinv := Runs.invariant (storeInvariant_newStore candidates)
      (fun m a n hm hn => step_invariant hm hn) hst
    unfold abortedBy at hab
    obtain ⟨t', ht', hab⟩ := Option.bind_eq_some_iff.mp hab
    obtain rfl := Option.some.inj (ht.symm.trans ht')
    obtain ⟨snaps, -, hab⟩ := Option.bind_eq_some_iff.mp hab
    split at hab
    · contradiction
    · rename_i w hw
      split at hab
      · rename_i c hc
        obtain rfl := Option.some.inj hab
        obtain ⟨hviolated, hversions⟩ := commit_claim_error hc
        rw [claims_unique hinv.consistent hw hhashes hversions] at hviolated
        contradiction
      · contradiction

/-- Two sentences that are equal. -/
def repeatedText : Text :=
  ("The company announced 5 new plants in India on Monday. " ++
    "The company announced 5 new plants in India on Monday.").toList

/- The hashes collide, and the transaction aborts on the constraint. -/
theorem repeatedText_not_storable :
    ¬ (∀ u text, ClaimsStorable u text) ∧
      (Runs.exec (step asciiUnicode noMatch) (newStore [sampleCandidate])
        (.begin (sampleCall 1000 "a".toList repeatedText) :: List.replicate 6 (.read 0))).bind
          (fun st => abortedBy asciiUnicode noMatch st 0) = some .articleVersionClaim := by
  constructor
  · intro h
    have hdup : ¬ ((extractClaims asciiUnicode repeatedText).map
        fun c => claimSha256 asciiUnicode c.text).Nodup := by decide +kernel
    exact hdup (h asciiUnicode repeatedText).1
  · decide +kernel

end Newsintel.ArticleStore
