import Newsintel.Events.Overlaps

/-!
# Matching never aborts

Each feature is a share of a nonempty set, a mean of such shares, or a step of a staircase, so the
range check of a candidate passes.
-/

namespace Newsintel.Events

open PyText
open Acquisition (Datetime toUtc)

/-- The feature is computed, and lies between 0 and 1. -/
def InUnit (x : Except MatchingError ℚ) : Prop := ∃ q, x = .ok q ∧ 0 ≤ q ∧ q ≤ 1

/-- The instant of the time exists in UTC, if there is a time. -/
def Representable (time : Option Datetime) : Prop := ∀ d ∈ time, ∃ t, toUtc d = .ok t

variable {q : ℚ}

theorem inUnit_ok (h : 0 ≤ q ∧ q ≤ 1) : InUnit (.ok q) := ⟨q, rfl, h⟩

theorem jaccard_inUnit (left right : Finset Text) : InUnit (jaccard left right) := by
  rw [jaccard_eq]
  exact inUnit_ok (share_mem left right)

theorem overlapOrUnknown_inUnit (left right : Finset Text) :
    InUnit (overlapOrUnknown left right) := by
  rw [overlapOrUnknown_eq]
  exact inUnit_ok (overlapShare_mem (by norm_num) (by norm_num) left right)

theorem geographicCompatibility_inUnit (left right : Finset Text) :
    InUnit (geographicCompatibility left right) := by
  rw [geographicCompatibility_eq]
  exact inUnit_ok (overlapShare_mem (by norm_num) (by norm_num) left right)

/- A weighted mean of shares is a share. -/
theorem weightedSimilarity_inUnit {tokenWeight shingleWeight : ℚ} (htoken : 0 ≤ tokenWeight)
    (hshingle : 0 ≤ shingleWeight) (hsum : tokenWeight + shingleWeight = 1)
    (leftTokens rightTokens leftShingles rightShingles : Finset Text) :
    InUnit (weightedSimilarity tokenWeight shingleWeight leftTokens rightTokens leftShingles
      rightShingles) := by
  obtain ⟨hs0, hs1⟩ := share_mem leftTokens rightTokens
  obtain ⟨ht0, ht1⟩ := share_mem leftShingles rightShingles
  have hs' := mul_le_mul_of_nonneg_left hs1 htoken
  have ht' := mul_le_mul_of_nonneg_left ht1 hshingle
  rw [weightedSimilarity_eq]
  apply inUnit_ok
  constructor
  · exact add_nonneg (mul_nonneg htoken hs0) (mul_nonneg hshingle ht0)
  · linarith

theorem compatibilityOfDays_mem (days : ℚ) :
    0 ≤ compatibilityOfDays days ∧ compatibilityOfDays days ≤ 1 := by
  unfold compatibilityOfDays
  split_ifs <;> norm_num

theorem temporalCompatibility_inUnit {left right : Option Datetime} (hleft : Representable left)
    (hright : Representable right) : InUnit (temporalCompatibility left right) := by
  unfold temporalCompatibility
  split
  · rename_i left right
    obtain ⟨s, hs⟩ := hleft left rfl
    obtain ⟨t, ht⟩ := hright right rfl
    obtain ⟨h0, h1⟩ := compatibilityOfDays_mem (|s - t| / seconds 86400)
    simp only [inUtc, hs, ht]
    exact inUnit_ok ⟨h0, h1⟩
  · exact inUnit_ok (by norm_num)

/-! ### All features -/

section features

variable (u : Unicode) (incoming : ArticleEventProfile) (reference : EventReference)

/-- The two times that are compared. -/
structure TimesRepresentable : Prop where
  incoming : Representable (incoming.publishedAt.or incoming.observedAt)
  firstDetected : Representable (some reference.firstDetectedAt)
  latestObserved : Representable reference.latestObservedAt

variable {incoming reference}

theorem featuresForReference_ok (h : TimesRepresentable incoming reference) :
    ∃ f, featuresForReference u incoming reference = .ok f ∧
      ∀ value ∈ f.values, 0 ≤ value ∧ value ≤ 1 := by
  have hexisting : Representable
      (reference.profile.observedAt.or (some reference.firstDetectedAt)) := by
    rw [EventReference.profile, Option.some_or]
    cases hlatest : reference.latestObservedAt with
    | none => exact h.firstDetected
    | some latest => exact hlatest ▸ h.latestObserved
  obtain ⟨semantic, hsemantic, hsemantic'⟩ := weightedSimilarity_inUnit (by norm_num)
    (by norm_num) (by norm_num : (45 / 100 : ℚ) + 55 / 100 = 1) (incoming.contentTokens u)
    (reference.profile.contentTokens u) (incoming.contentShingles u)
    (reference.profile.contentShingles u)
  obtain ⟨title, htitle, htitle'⟩ := weightedSimilarity_inUnit (by norm_num) (by norm_num)
    (by norm_num : (7 / 10 : ℚ) + 3 / 10 = 1) (incoming.titleTokens u)
    (reference.profile.titleTokens u) (incoming.titleShingles u)
    (reference.profile.titleShingles u)
  obtain ⟨entity, hentity, hentity'⟩ := overlapOrUnknown_inUnit (incoming.entities u)
    (reference.profile.entities u)
  obtain ⟨identifier, hidentifier, hidentifier'⟩ := overlapOrUnknown_inUnit
    (incoming.identifiers u) (reference.profile.identifiers u)
  obtain ⟨claim, hclaim, hclaim'⟩ := jaccard_inUnit (incoming.contentShingles u)
    (reference.profile.contentShingles u)
  obtain ⟨temporal, htemporal, htemporal'⟩ := temporalCompatibility_inUnit h.incoming hexisting
  obtain ⟨geographic, hgeographic, hgeographic'⟩ := geographicCompatibility_inUnit
    (incoming.locations u) (reference.profile.locations u)
  refine ⟨⟨semantic, title, entity, identifier, claim, temporal, geographic, 1 / 2⟩, ?_, ?_⟩
  · rw [featuresForReference, hsemantic, htitle, hentity, hidentifier, hclaim, htemporal,
      hgeographic]
    rfl
  · simp only [EventFeatures.values, List.forall_mem_cons]
    exact ⟨hsemantic', htitle', hentity', hidentifier', hclaim', htemporal', hgeographic',
      ⟨by norm_num, by norm_num⟩, List.forall_mem_nil _⟩

/- The features are in range, so the check of `EventCandidate` passes. -/
theorem candidateForReference_ok (h : TimesRepresentable incoming reference) :
    ∃ c, candidateForReference u incoming reference = .ok c := by
  obtain ⟨f, hf, hrange⟩ := featuresForReference_ok u h
  have hcreate : EventCandidate.create reference.eventId f =
      .ok ⟨reference.eventId, f, hrange⟩ := dif_pos hrange
  refine ⟨⟨reference.eventId, f, hrange⟩, ?_⟩
  rw [candidateForReference, hf]
  exact hcreate

theorem candidatesForReferences_ok {references : List EventReference}
    (h : ∀ reference ∈ references, TimesRepresentable incoming reference) :
    ∃ all, candidatesForReferences u incoming references = .ok all := by
  induction references with
  | nil => exact ⟨[], rfl⟩
  | cons reference references ih =>
    rw [List.forall_mem_cons] at h
    obtain ⟨c, hc⟩ := candidateForReference_ok u h.1
    obtain ⟨cs, hcs⟩ := ih h.2
    refine ⟨c :: cs, ?_⟩
    rw [candidatesForReferences, hc, hcs]
    rfl

/- No division by zero, no failed range check, and a score between 0 and 1. -/
theorem candidateForReference_inRange (incoming : ArticleEventProfile)
    (reference : EventReference) (h : TimesRepresentable incoming reference) :
    ∃ c, candidateForReference u incoming reference = .ok c ∧
      (∀ value ∈ c.features.values, 0 ≤ value ∧ value ≤ 1) ∧ 0 ≤ c.score ∧ c.score ≤ 1 := by
  obtain ⟨c, hc⟩ := candidateForReference_ok u h
  exact ⟨c, hc, c.inRange, c.score_mem⟩

end features

/-! ### A launch, reported twice -/

/-- 26 June 2026, 09:00, with the offset of India. -/
def launchTime : Datetime := ⟨seconds 1782484200, some (seconds 19800)⟩

def launchArticle : ArticleEventProfile where
  title := "ISRO launches new satellite from Sriharikota".toList
  text := "ISRO launched a satellite from Sriharikota, India.".toList
  publishedAt := some launchTime
  observedAt := none

/-- A reference whose times are naive. -/
def launchReference : EventReference where
  eventId := 1
  title := "ISRO launches satellite from Sriharikota".toList
  text := "ISRO launches satellite from Sriharikota".toList
  firstDetectedAt := ⟨seconds 1782460800, none⟩
  latestObservedAt := none

theorem launch_times (eventId : Uuid) (title text : Text) : TimesRepresentable launchArticle
    { launchReference with eventId, title, text } := by
  refine ⟨?_, ?_, ?_⟩
  · rintro d ⟨⟩
    exact ⟨seconds 1782464400, rfl⟩
  · rintro d ⟨⟩
    exact ⟨seconds 1782460800, rfl⟩
  · rintro d ⟨⟩

theorem launch_inRange : ∃ c,
    candidateForReference asciiUnicode launchArticle launchReference = .ok c ∧
      (∀ value ∈ c.features.values, 0 ≤ value ∧ value ≤ 1) ∧ 0 ≤ c.score ∧ c.score ≤ 1 :=
  candidateForReference_inRange asciiUnicode launchArticle launchReference (launch_times _ _ _)

end Newsintel.Events
