import Mathlib.Algebra.Order.Ring.Rat
import Mathlib.Tactic.Linarith
import Newsintel.ArticleStore.Tables
import Newsintel.Lib.Ranking

/-!
# Event assignment (domain/events/assignment.py)

Candidates with eight features between 0 and 1, and the decision for one of them. Features and
scores are exact fractions.
-/

namespace Newsintel.Events

open ArticleStore

/-- The exceptions that matching an article with its references could raise. -/
inductive MatchingError where
  | zeroDivisionError
  /-- event candidate features must be between 0 and 1 -/
  | valueError
  | overflowError
  deriving DecidableEq, Repr

structure EventFeatures where
  semanticSimilarity : ℚ
  titleSimilarity : ℚ
  entityOverlap : ℚ
  identifierOverlap : ℚ
  claimOverlap : ℚ
  temporalCompatibility : ℚ
  geographicCompatibility : ℚ
  eventTypeCompatibility : ℚ
  deriving DecidableEq

namespace EventFeatures

def values (f : EventFeatures) : List ℚ :=
  [f.semanticSimilarity, f.titleSimilarity, f.entityOverlap, f.identifierOverlap, f.claimOverlap,
    f.temporalCompatibility, f.geographicCompatibility, f.eventTypeCompatibility]

def score (f : EventFeatures) : ℚ :=
  35 / 100 * f.semanticSimilarity + 10 / 100 * f.titleSimilarity + 15 / 100 * f.entityOverlap +
    15 / 100 * f.identifierOverlap + 10 / 100 * f.claimOverlap +
    7 / 100 * f.temporalCompatibility + 5 / 100 * f.geographicCompatibility +
    3 / 100 * f.eventTypeCompatibility

end EventFeatures

/-- A candidate, past the check of `__post_init__`. -/
structure EventCandidate where
  eventId : Uuid
  features : EventFeatures
  inRange : ∀ value ∈ features.values, 0 ≤ value ∧ value ≤ 1

namespace EventCandidate

/-- `EventCandidate(...)`. -/
def create (eventId : Uuid) (features : EventFeatures) : Except MatchingError EventCandidate :=
  if h : ∀ value ∈ features.values, 0 ≤ value ∧ value ≤ 1 then .ok ⟨eventId, features, h⟩
  else .error .valueError

def score (c : EventCandidate) : ℚ := c.features.score

theorem score_mem (c : EventCandidate) : 0 ≤ c.score ∧ c.score ≤ 1 := by
  have h := c.inRange
  simp only [EventFeatures.values, List.forall_mem_cons] at h
  obtain ⟨h1, h2, h3, h4, h5, h6, h7, h8, _⟩ := h
  rw [score, EventFeatures.score]
  constructor <;> linarith

end EventCandidate

structure EventAssignmentDecision where
  state : EventAssignmentState
  selectedEventId : Option Uuid
  selectedScore : Option ℚ
  candidates : List EventCandidate

/-- The keyword arguments of `decide_event_assignment`. -/
structure AssignmentPolicy where
  confirmedThreshold : ℚ
  candidateThreshold : ℚ
  ambiguityMargin : ℚ

def defaultAssignmentPolicy : AssignmentPolicy := ⟨78 / 100, 62 / 100, 5 / 100⟩

/-- `len(ranked) > 1 and best.score - ranked[1].score < ambiguity_margin`. -/
def ambiguous (policy : AssignmentPolicy) (best : EventCandidate) :
    List EventCandidate → Bool
  | [] => false
  | second :: _ => best.score - second.score < policy.ambiguityMargin

def decideEventAssignment (policy : AssignmentPolicy) (candidates : List EventCandidate) :
    EventAssignmentDecision :=
  match Ranking.ranked EventCandidate.score candidates with
  | [] => ⟨.provisional, none, none, []⟩
  | best :: rest =>
    if best.score < policy.candidateThreshold then ⟨.provisional, none, none, best :: rest⟩
    else
      { state :=
          if policy.confirmedThreshold ≤ best.score && !ambiguous policy best rest then .confirmed
          else .candidate
        selectedEventId := some best.eventId
        selectedScore := some best.score
        candidates := best :: rest }

end Newsintel.Events
