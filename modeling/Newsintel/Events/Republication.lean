import Mathlib.Tactic.Ring
import Newsintel.Events.References
import Newsintel.Events.Overlaps

/-!
# Republished content

An article that comes with the title and the text of the only article of an event. The reference
of the event repeats the title and has the beginning of the text only, so their overlaps decide.
-/

namespace Newsintel.Events

open PyText
open ArticleStore (Db EventModel)

/-- The recent references are one event, with one article that has the title and the text, and
was observed at the time. -/
def StoredOnly (db : Db) (p : ArticleStore.ArticleEventProfile) (event : EventModel)
    (observedAt : Timestamp) : Prop :=
  ∃ article version, recentRows db (eventTime p) = [⟨event, article, version⟩] ∧
    event.title = p.title ∧ article.title = p.title ∧ version.textContent = p.text ∧
    article.firstObservedAt = observedAt

/-- `_decide_event` selects the event. -/
def Rejoins (u : Unicode) (db : Db) (p : ArticleStore.ArticleEventProfile) (event : EventModel) :
    Prop :=
  (decideForStore u db p).selectedEventId = some event.id

/-- How far the time of the article is from the other one. -/
def daysApart (p : ArticleStore.ArticleEventProfile) (observedAt : Timestamp) : ℚ :=
  |eventTime p - observedAt| / seconds 86400

/-- What is read of the incoming article. -/
def incomingText (title text : Text) : Text := title ++ '\n' :: text

/-- What is read of the reference. -/
def referenceText (title text : Text) : Text := title ++ '\n' :: (title ++ '\n' :: text.take 1500)

/-- The overlaps of the two texts are large enough, for times that are some days apart. -/
def Recognizable (u : Unicode) (title text : Text) (days : ℚ) : Prop :=
  let incoming := incomingText title text
  let reference := referenceText title text
  62 / 100 ≤
    63 / 400 * share (tokens u incoming).toFinset (tokens u reference).toFinset +
    117 / 400 * share (shingles 3 (tokens u incoming)) (shingles 3 (tokens u reference)) +
    (if tokens u title = [] then 0 else 7 / 100) +
    (if (tokens u title).length < 2 then 0 else 3 / 100) +
    15 / 100 * overlapShare (1 / 2) 0 (entities u incoming) (entities u reference) +
    15 / 100 * overlapShare (1 / 2) 0 (identifiers u incoming) (identifiers u reference) +
    5 / 100 * overlapShare (1 / 2) (2 / 10) (locations u incoming) (locations u reference) +
    7 / 100 * compatibilityOfDays days + 3 / 200

variable {u : Unicode} {db : Db} {p : ArticleStore.ArticleEventProfile} {event : EventModel}
  {observedAt : Timestamp} {title text : Text}

/-! ### The only candidate -/

/-- The reference of the event. -/
def storedReference (p : ArticleStore.ArticleEventProfile) (event : EventModel)
    (observedAt : Timestamp) : EventReference where
  eventId := event.id
  title := p.title
  text := p.title ++ '\n' :: p.text.take 1500
  firstDetectedAt := aware event.firstDetectedAt
  latestObservedAt := some (aware observedAt)

theorem references_of_stored (h : StoredOnly db p event observedAt) :
    loadRecentEventReferences db (eventTime p) = [storedReference p event observedAt] := by
  obtain ⟨article, version, hrows, hevent, harticle, hversion, hobserved⟩ := h
  have hgroups : groupRows [⟨event, article, version⟩] =
      [(event.id, (newItem ⟨event, article, version⟩).add ⟨event, article, version⟩)] := rfl
  rw [loadRecentEventReferences, hrows, hgroups, List.map_singleton, GroupedItem.reference,
    GroupedItem.add, newItem]
  simp only [hevent, harticle, hversion, hobserved, max_self]
  rw [if_pos (by decide), List.nil_append, List.intercalate_singleton]
  rfl

/-- The features of the candidate, for times that are some days apart. -/
def sharedFeatures (u : Unicode) (title text : Text) (days : ℚ) : EventFeatures :=
  let incoming := incomingText title text
  let reference := referenceText title text
  let sharedShingles :=
    share (shingles 3 (tokens u incoming)) (shingles 3 (tokens u reference))
  { semanticSimilarity :=
      45 / 100 * share (tokens u incoming).toFinset (tokens u reference).toFinset +
        55 / 100 * sharedShingles
    titleSimilarity :=
      7 / 10 * share (tokens u title).toFinset (tokens u title).toFinset +
        3 / 10 * share (shingles 2 (tokens u title)) (shingles 2 (tokens u title))
    entityOverlap := overlapShare (1 / 2) 0 (entities u incoming) (entities u reference)
    identifierOverlap :=
      overlapShare (1 / 2) 0 (identifiers u incoming) (identifiers u reference)
    claimOverlap := sharedShingles
    temporalCompatibility := compatibilityOfDays days
    geographicCompatibility :=
      overlapShare (1 / 2) (2 / 10) (locations u incoming) (locations u reference)
    eventTypeCompatibility := 1 / 2 }

theorem recognizable_iff {days : ℚ} :
    Recognizable u title text days ↔ 62 / 100 ≤ (sharedFeatures u title text days).score := by
  have htokens : share (tokens u title).toFinset (tokens u title).toFinset =
      if tokens u title = [] then 0 else 1 := by
    rw [share_self]
    simp only [List.toFinset_eq_empty_iff]
  have hshingles : share (shingles 2 (tokens u title)) (shingles 2 (tokens u title)) =
      if (tokens u title).length < 2 then 0 else 1 := by
    rw [share_self]
    simp only [shingles_eq_empty two_pos]
  rw [Recognizable, EventFeatures.score, sharedFeatures, htokens, hshingles, ← sub_nonneg,
    ← sub_nonneg (b := (62 / 100 : ℚ))]
  apply iff_of_eq
  congr 1
  split <;> split <;> ring

theorem inUtc_aware {t : Timestamp} (h : InRange t) : inUtc (aware t) = .ok t := by
  rw [inUtc, toUtc_aware h]

/- The features are computed as they are written above. -/
theorem featuresForReference_stored (htime : InRange (eventTime p))
    (hobserved : InRange observedAt) :
    featuresForReference u (incomingProfile p) (storedReference p event observedAt) =
      .ok (sharedFeatures u p.title p.text (daysApart p observedAt)) := by
  have htemporal : temporalCompatibility
      ((incomingProfile p).publishedAt.or (incomingProfile p).observedAt)
      ((storedReference p event observedAt).profile.observedAt.or
        (some (storedReference p event observedAt).firstDetectedAt)) =
      .ok (compatibilityOfDays (daysApart p observedAt)) := by
    rw [eventTime_eq]
    show temporalCompatibility (some (aware (eventTime p))) (some (aware observedAt)) = _
    rw [temporalCompatibility, inUtc_aware htime, inUtc_aware hobserved]
    rfl
  rw [featuresForReference, htemporal]
  simp only [weightedSimilarity_eq, overlapOrUnknown_eq, jaccard_eq, geographicCompatibility_eq]
  rfl

/- One candidate is selected if its score reaches the threshold. -/
theorem rejoins_iff (hstored : StoredOnly db p event observedAt) (htime : InRange (eventTime p))
    (hobserved : InRange observedAt) (hdetected : InRange event.firstDetectedAt) :
    Rejoins u db p event ↔
      Recognizable u p.title p.text (daysApart p observedAt) := by
  have htimes : TimesRepresentable (incomingProfile p) (storedReference p event observedAt) := by
    refine ⟨?_, representable_aware hdetected, representable_aware hobserved⟩
    rw [eventTime_eq]
    exact representable_aware htime
  obtain ⟨features, hfeatures, hrange⟩ := featuresForReference_ok u htimes
  rw [featuresForReference_stored htime hobserved, Except.ok.injEq] at hfeatures
  have hcandidate : candidateForReference u (incomingProfile p)
      (storedReference p event observedAt) = .ok ⟨event.id, features, hrange⟩ := by
    rw [candidateForReference, featuresForReference_stored htime hobserved, hfeatures]
    exact dif_pos hrange
  have hdecision : decideEvent u db p = .ok (decideEventAssignment defaultAssignmentPolicy
      [⟨event.id, features, hrange⟩]) := by
    rw [decideEvent, references_of_stored hstored, buildEventCandidates, candidatesForReferences,
      hcandidate]
    rfl
  rw [recognizable_iff, hfeatures, Rejoins, decideForStore, hdecision]
  show (decideEventAssignment defaultAssignmentPolicy
    [⟨event.id, features, hrange⟩]).selectedEventId = some event.id ↔ _
  by_cases hlow : features.score < 62 / 100
  · have hnone : decideEventAssignment defaultAssignmentPolicy [⟨event.id, features, hrange⟩] =
        ⟨.provisional, none, none, [⟨event.id, features, hrange⟩]⟩ := if_pos hlow
    rw [hnone]
    exact iff_of_false (Option.some_ne_none event.id).symm (not_le.mpr hlow)
  · have hsome : (decideEventAssignment defaultAssignmentPolicy
        [⟨event.id, features, hrange⟩]).selectedEventId = some event.id := by
      rw [decideEventAssignment]
      show (if features.score < 62 / 100 then _ else _ :
        EventAssignmentDecision).selectedEventId = _
      rw [if_neg hlow]
    exact iff_of_true hsome (not_lt.mp hlow)

/-! ### Which texts are recognized -/

/- Without tokens, the other features are not enough. -/
theorem not_recognizable_of_no_tokens {days : ℚ} (h : tokens u (incomingText title text) = []) :
    ¬ Recognizable u title text days := by
  have hempty (right : Finset Text) : share ∅ right = 0 := by
    rw [share, Finset.empty_inter, Finset.card_empty, Nat.cast_zero, zero_div]
  have htitle : (if tokens u title = [] then (0 : ℚ) else 7 / 100) ≤ 7 / 100 := by
    split_ifs <;> norm_num
  have hphrase : (if (tokens u title).length < 2 then (0 : ℚ) else 3 / 100) ≤ 3 / 100 := by
    split_ifs <;> norm_num
  have hhalf : (0 : ℚ) ≤ 1 / 2 ∧ (1 / 2 : ℚ) ≤ 1 := by norm_num
  have hfifth : (0 : ℚ) ≤ 2 / 10 ∧ (2 / 10 : ℚ) ≤ 1 := by norm_num
  have hnone : (0 : ℚ) ≤ 0 ∧ (0 : ℚ) ≤ 1 := by norm_num
  have hentities := (overlapShare_mem hhalf hnone (entities u (incomingText title text))
    (entities u (referenceText title text))).2
  have hidentifiers := (overlapShare_mem hhalf hnone (identifiers u (incomingText title text))
    (identifiers u (referenceText title text))).2
  have hlocations := (overlapShare_mem hhalf hfifth (locations u (incomingText title text))
    (locations u (referenceText title text))).2
  have htimes := (compatibilityOfDays_mem days).2
  have hshingles : shingles 3 [] = ∅ := rfl
  rw [Recognizable, h, List.toFinset_nil, hshingles, hempty, hempty]
  linarith

/- Many shingles hardly miss those that the repeated title adds. -/
theorem fraction_le {n k : ℕ} (hn : 4 ≤ n) : (4 : ℚ) / (4 + k) ≤ n / (n + k : ℕ) := by
  have hn' : (4 : ℚ) ≤ n := Nat.ofNat_le_cast.mpr hn
  have hk : (0 : ℚ) ≤ k := Nat.cast_nonneg k
  have hle : (4 : ℚ) * k ≤ n * k := mul_le_mul_of_nonneg_right hn' hk
  rw [Nat.cast_add, div_le_div_iff₀ (by linarith) (by linarith)]
  linarith

/- Tokens, most shingles, and what is known of identifiers and locations are enough. -/
theorem recognizable_of_short (hlower : LowersLines u) {days : ℚ} (hdays : days ≤ 1)
    (hshort : text.length ≤ 1500)
    (hshingles : 4 ≤ (shingles 3 (tokens u (incomingText title text))).card) :
    Recognizable u title text days := by
  have hne : shingles 3 (tokens u (incomingText title text)) ≠ ∅ := by
    intro h
    rw [h, Finset.card_empty] at hshingles
    omega
  have hincoming : tokens u (incomingText title text) = tokens u title ++ tokens u text :=
    tokens_lines hlower
  have hreference : tokens u (referenceText title text) =
      tokens u title ++ (tokens u title ++ tokens u text) := by
    rw [referenceText, List.take_of_length_le hshort, tokens_lines hlower, tokens_lines hlower]
  have htokens : share (tokens u (incomingText title text)).toFinset
      (tokens u (referenceText title text)).toFinset = 1 := by
    have hsome : (tokens u title ++ tokens u text).toFinset ≠ ∅ := by
      rw [Ne, List.toFinset_eq_empty_iff, ← hincoming]
      intro h
      exact hne (h ▸ rfl)
    have hsame : (tokens u title ++ (tokens u title ++ tokens u text)).toFinset =
        (tokens u title ++ tokens u text).toFinset := by
      rw [List.toFinset_append, List.toFinset_append, Finset.union_left_idem]
    rw [hincoming, hreference, hsame, share_self, if_neg hsome]
  have hshared := le_share
    (shingles_subset three_pos (List.suffix_append (tokens u title) _).isInfix)
    (card_shingles_repeat_le three_pos (tokens u title) (tokens u text))
    (hincoming ▸ hne)
  rw [← hreference, ← hincoming] at hshared
  have hidentifiers : 1 / 2 ≤ overlapShare (1 / 2) 0 (identifiers u (incomingText title text))
      (identifiers u (referenceText title text)) := by
    rw [incomingText, referenceText, List.take_of_length_le hshort, identifiers_lines,
      identifiers_lines, identifiers_lines, Finset.union_left_idem, overlapShare_self]
    split_ifs <;> norm_num
  have hlocations : 1 / 2 ≤ overlapShare (1 / 2) (2 / 10)
      (locations u (incomingText title text)) (locations u (referenceText title text)) := by
    rw [incomingText, referenceText, List.take_of_length_le hshort, locations_lines hlower,
      locations_lines hlower, locations_lines hlower, Finset.union_left_idem, overlapShare_self]
    split_ifs <;> norm_num
  have hentities := (overlapShare_mem (by norm_num) (by norm_num)
    (entities u (incomingText title text)) (entities u (referenceText title text)) :
      0 ≤ overlapShare (1 / 2) 0 _ _ ∧ _).1
  have hdays : compatibilityOfDays days = 1 := if_pos hdays
  have hshared := (fraction_le hshingles).trans hshared
  rw [Recognizable, htokens, hdays]
  -- the shorter the title, the fewer shingles it adds, but the less it counts itself
  obtain hzero | hone | htwo : (tokens u title).length = 0 ∨ (tokens u title).length = 1 ∨
      2 ≤ (tokens u title).length := by omega
  · have hnil := List.length_eq_zero_iff.mp hzero
    rw [hzero] at hshared
    rw [if_pos hnil, if_pos (by omega)]
    norm_num at hshared
    linarith
  · have hnil : tokens u title ≠ [] := List.length_pos_iff.mp (by omega)
    rw [hone] at hshared
    rw [if_neg hnil, if_pos (by omega)]
    norm_num at hshared
    linarith
  · have hnil : tokens u title ≠ [] := List.length_pos_iff.mp (by omega)
    rw [min_eq_left (by omega)] at hshared
    rw [if_neg hnil, if_neg (by omega)]
    norm_num at hshared
    linarith

/- Whether the article rejoins the event: exactly when the two texts overlap enough, never if
they have no tokens, and whenever the reference has the whole text and enough of it. -/
theorem republished_rejoins (u : Unicode) (hlower : LowersLines u) (db : Db)
    (p : ArticleStore.ArticleEventProfile) (event : EventModel) (observedAt : Timestamp)
    (hstored : StoredOnly db p event observedAt) (htime : InRange (eventTime p))
    (hobserved : InRange observedAt) (hdetected : InRange event.firstDetectedAt) :
    (Rejoins u db p event ↔ Recognizable u p.title p.text (daysApart p observedAt)) ∧
      (tokens u (incomingText p.title p.text) = [] → ¬ Rejoins u db p event) ∧
      (p.text.length ≤ 1500 → daysApart p observedAt ≤ 1 →
        4 ≤ (shingles 3 (tokens u (incomingText p.title p.text))).card →
          Rejoins u db p event) := by
  have hiff := rejoins_iff (u := u) hstored htime hobserved hdetected
  refine ⟨hiff, ?_, ?_⟩
  · intro hnone
    rw [hiff]
    exact not_recognizable_of_no_tokens hnone
  · intro hshort hdays hshingles
    rw [hiff]
    exact recognizable_of_short hlower hdays hshort hshingles

/-! ### Two articles that come again -/

/-- An article in English. -/
def launchCopy : ArticleStore.ArticleEventProfile where
  title := "ISRO launches new satellite".toList
  text := "The satellite left Sriharikota on Friday.".toList
  publishedAt := none
  observedAt := seconds 1782464400

/-- An article in Hindi. -/
def hindiCopy : ArticleStore.ArticleEventProfile where
  title := "इसरो का उपग्रह".toList
  text := "उपग्रह का प्रक्षेपण हुआ।".toList
  publishedAt := none
  observedAt := seconds 1782464400

def copyEvent (p : ArticleStore.ArticleEventProfile) : EventModel :=
  ArticleStore.newProvisionalEvent 1 p.title p.observedAt

def copyArticle (p : ArticleStore.ArticleEventProfile) : ArticleStore.ArticleModel where
  id := 2
  publisherId := 3
  eventId := 1
  canonicalUrl := []
  normalizedUrlHash := []
  title := p.title
  language := none
  publishedAt := none
  firstObservedAt := p.observedAt
  createdAt := p.observedAt
  updatedAt := p.observedAt

def copyVersion (p : ArticleStore.ArticleEventProfile) : ArticleStore.ArticleVersionModel where
  id := 4
  articleId := 2
  versionNumber := 1
  sourceUrl := []
  finalUrl := []
  title := p.title
  byline := none
  language := none
  publishedAt := none
  retrievedAt := p.observedAt
  contentSha256 := []
  textContent := p.text
  extractionMethod := []
  extractionWarnings := []
  createdAt := p.observedAt

/-- A store that has the article already. -/
def copyStore (p : ArticleStore.ArticleEventProfile) : Db :=
  { ArticleStore.newDb [] with
    events := [copyEvent p], articles := [copyArticle p], versions := [copyVersion p] }

theorem eventTime_observed (hpublished : p.publishedAt = none) : eventTime p = p.observedAt := by
  rw [eventTime, hpublished, Option.getD_none]

theorem daysApart_observed (hpublished : p.publishedAt = none) : daysApart p p.observedAt = 0 := by
  rw [daysApart, eventTime_observed hpublished, sub_self, abs_zero, Int.cast_zero, zero_div]

theorem copy_storedOnly (hpublished : p.publishedAt = none) :
    StoredOnly (copyStore p) p (copyEvent p) p.observedAt := by
  refine ⟨copyArticle p, copyVersion p, ?_, rfl, rfl, rfl, rfl⟩
  have hjoined : joinedRows (copyStore p) = [⟨copyEvent p, copyArticle p, copyVersion p⟩] := rfl
  have hrecent : p.observedAt - hours (14 * 24) ≤ (copyEvent p).firstDetectedAt :=
    sub_le_self _ (by decide)
  have hactive : (copyEvent p).lifecycleStatus = "active".toList := rfl
  rw [recentRows, hjoined, eventTime_observed hpublished, List.filter_cons_of_pos]
  · rfl
  · rw [Bool.and_eq_true, decide_eq_true_eq, decide_eq_true_eq]
    exact ⟨hactive, hrecent⟩

theorem lowersLines_ascii : LowersLines asciiUnicode := fun _ _ => List.map_append

/- The same title and text at the same time, without one Latin letter: no event is selected. -/
theorem hindi_not_rejoined : ¬ ∀ (u : Unicode) (db : Db) (p : ArticleStore.ArticleEventProfile)
    (event : EventModel), LowersLines u → p.text ≠ [] → InRange p.observedAt →
      InRange event.firstDetectedAt → p.publishedAt = none →
        StoredOnly db p event p.observedAt → Rejoins u db p event := by
  intro hclaim
  have hrejoins := hclaim asciiUnicode (copyStore hindiCopy) hindiCopy (copyEvent hindiCopy)
    lowersLines_ascii (by decide) (by decide) (by decide) rfl (copy_storedOnly rfl)
  rw [rejoins_iff (copy_storedOnly rfl) (by decide) (by decide) (by decide)] at hrejoins
  exact not_recognizable_of_no_tokens (by decide) hrejoins

theorem launch_rejoins :
    Rejoins asciiUnicode (copyStore launchCopy) launchCopy (copyEvent launchCopy) := by
  have hdays : daysApart launchCopy launchCopy.observedAt ≤ 1 := by
    rw [daysApart_observed rfl]
    exact zero_le_one
  exact (republished_rejoins asciiUnicode lowersLines_ascii (copyStore launchCopy) launchCopy
    (copyEvent launchCopy) launchCopy.observedAt (copy_storedOnly rfl) (by decide) (by decide)
    (by decide)).2.2 (by decide) hdays (by decide)

end Newsintel.Events
