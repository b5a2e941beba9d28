import Mathlib.Data.Finset.Card
import Newsintel.Acquisition.Collectors
import Newsintel.Events.Assignment
import Newsintel.Intelligence.Claims

/-!
# Event matching (domain/events/matching.py)

Tokens, shingles, entities, identifiers and locations of an article and of the references, and the
candidates that are made of their overlaps.
-/

namespace Newsintel.Events

open PyText Regex
open Acquisition (Datetime toUtc)
open Intelligence (isUpper isNameChar)

/-! ### Patterns -/

/-- `[a-z0-9]`. -/
def isTokenStart (c : Char) : Bool := ('a' ≤ c && c ≤ 'z') || ('0' ≤ c && c ≤ '9')

/-- `[a-z0-9.+_-]`. -/
def isTokenChar (c : Char) : Bool := isTokenStart c || ".+_-".toList.contains c

def tokenPattern : Pattern := .seq (.char isTokenStart) (.star (.char isTokenChar))

def capitalizedPhrasePattern (u : Unicode) : Pattern :=
  let name :=
    Pattern.alt (.seq (.char isUpper) (plus (.char isNameChar)))
      (.seq (exactly (.char isUpper) 2) (.star (.char isUpper)))
  seqs [boundary u, name, atMost (.seq (plus space) name) 4]

def identifierPattern (u : Unicode) : Pattern :=
  let letters := Pattern.seq (exactly (.char isUpper) 2) (atMost (.char isUpper) 6)
  seqs
    [boundary u,
      alts
        [seqs [literal "CVE-", exactly (digit u) 4, literal "-", exactly (digit u) 4,
            atMost (digit u) 3],
          seqs [letters, literal "-", plus (digit u)],
          letters,
          seqs [plus (digit u), optional (.seq (literal ".") (plus (digit u))),
            optional (literal "%")]],
      boundary u]

/-- `\b...\b` around a term. -/
def termPattern (u : Unicode) (term : String) : Pattern :=
  seqs [boundary u, literal term, boundary u]

def locationTerms : List String :=
  ["afghanistan", "africa", "america", "australia", "bangalore", "beijing", "bengaluru", "bihar",
    "brazil", "britain", "canada", "china", "delhi", "europe", "france", "gaza", "germany",
    "gujarat", "india", "iran", "israel", "japan", "karnataka", "kerala", "kolkata", "london",
    "maharashtra", "mumbai", "new york", "pakistan", "paris", "punjab", "russia", "tel aviv",
    "tokyo", "uk", "ukraine", "united kingdom", "united states", "us", "usa", "washington"]

def stopwords : List Text :=
  ["about", "after", "again", "against", "also", "amid", "among", "and", "are", "around", "as",
    "at", "be", "been", "before", "being", "between", "but", "by", "can", "could", "during", "for",
    "from", "had", "has", "have", "he", "her", "his", "how", "in", "into", "is", "it", "its",
    "may", "more", "new", "not", "of", "on", "or", "over", "said", "says", "she", "that", "the",
    "their", "they", "this", "to", "up", "was", "were", "what", "when", "which", "while", "who",
    "will", "with"].map String.toList

/-! ### What is taken from a text -/

section texts

variable (u : Unicode)

def tokens (text : Text) : List Text :=
  (findall tokenPattern (u.lower text)).filter fun token =>
    3 ≤ token.length && !stopwords.contains token

/-- The runs of `size` tokens that follow each other. -/
def windows (size : ℕ) : List Text → List (List Text)
  | [] => []
  | token :: rest =>
    if (token :: rest).length < size then [] else (token :: rest).take size :: windows size rest

def shingles (size : ℕ) (tokens : List Text) : Finset Text :=
  ((windows size tokens).map join).toFinset

/-- The words that `_entities` does not take for entities. -/
def ignoredEntities : List Text :=
  ["The", "A", "An", "In", "On", "At", "By", "After", "Before", "This"].map String.toList

def entities (text : Text) : Finset Text :=
  ((((findall (capitalizedPhrasePattern u) text).map fun m => join (words m)).filter fun entity =>
    !ignoredEntities.contains entity && 3 ≤ entity.length &&
      !((words entity).head?.any ignoredEntities.contains && (words entity).length = 1)).map
    u.lower).toFinset

def identifiers (text : Text) : Finset Text :=
  (((findall (identifierPattern u) text).filter fun value =>
    !(["The", "This", "After", "Before"].map String.toList).contains value).map u.lower).toFinset

def locations (text : Text) : Finset Text :=
  ((locationTerms.filter fun term => search (termPattern u term) (u.lower text)).map
    String.toList).toFinset

end texts

structure ArticleEventProfile where
  title : Text
  text : Text
  publishedAt : Option Datetime
  observedAt : Option Datetime

namespace ArticleEventProfile

variable (u : Unicode) (p : ArticleEventProfile)

/-- The title, a line of its own, and the text. -/
def content : Text := p.title ++ '\n' :: p.text

def titleTokens : Finset Text := (tokens u p.title).toFinset
def contentTokens : Finset Text := (tokens u p.content).toFinset
def titleShingles : Finset Text := shingles 2 (tokens u p.title)
def contentShingles : Finset Text := shingles 3 (tokens u p.content)
def entities : Finset Text := Events.entities u p.content
def identifiers : Finset Text := Events.identifiers u p.content
def locations : Finset Text := Events.locations u p.content

end ArticleEventProfile

structure EventReference where
  eventId : Uuid
  title : Text
  text : Text
  firstDetectedAt : Datetime
  latestObservedAt : Option Datetime

def EventReference.profile (r : EventReference) : ArticleEventProfile where
  title := r.title
  text := r.text
  publishedAt := none
  observedAt := some (r.latestObservedAt.getD r.firstDetectedAt)

/-! ### Features -/

/-- `a / b`. -/
def divide (a b : ℕ) : Except MatchingError ℚ :=
  if b = 0 then .error .zeroDivisionError else .ok (a / b)

def jaccard (left right : Finset Text) : Except MatchingError ℚ :=
  if left = ∅ ∨ right = ∅ then .ok 0 else divide (left ∩ right).card (left ∪ right).card

def weightedSimilarity (tokenWeight shingleWeight : ℚ)
    (leftTokens rightTokens leftShingles rightShingles : Finset Text) : Except MatchingError ℚ := do
  let ofTokens ← jaccard leftTokens rightTokens
  let ofShingles ← jaccard leftShingles rightShingles
  return tokenWeight * ofTokens + shingleWeight * ofShingles

def overlapOrUnknown (left right : Finset Text) : Except MatchingError ℚ :=
  if left = ∅ ∧ right = ∅ then .ok (1 / 2)
  else if left = ∅ ∨ right = ∅ then .ok 0
  else divide (left ∩ right).card (min left.card right.card)

def geographicCompatibility (left right : Finset Text) : Except MatchingError ℚ :=
  if left = ∅ ∧ right = ∅ then .ok (1 / 2)
  else if left = ∅ ∨ right = ∅ then .ok (2 / 10)
  else overlapOrUnknown left right

/-- The steps of `_temporal_compatibility`. -/
def compatibilityOfDays (days : ℚ) : ℚ :=
  if days ≤ 1 then 1
  else if days ≤ 3 then 85 / 100
  else if days ≤ 7 then 65 / 100
  else if days ≤ 14 then 4 / 10
  else if days ≤ 30 then 2 / 10
  else 5 / 100

/-- `d.astimezone(UTC)` or `d.replace(tzinfo=UTC)`. -/
def inUtc (d : Datetime) : Except MatchingError Timestamp :=
  match toUtc d with
  | .ok t => .ok t
  | .error _ => .error .overflowError

def temporalCompatibility : Option Datetime → Option Datetime → Except MatchingError ℚ
  | some left, some right => do
    let leftUtc ← inUtc left
    let rightUtc ← inUtc right
    return compatibilityOfDays (|leftUtc - rightUtc| / seconds 86400)
  | _, _ => .ok (1 / 2)

/-! ### Candidates -/

section candidates

variable (u : Unicode) (incoming : ArticleEventProfile)

/-- The features of `_candidate_for_reference`. -/
def featuresForReference (reference : EventReference) : Except MatchingError EventFeatures := do
  let existing := reference.profile
  let semanticSimilarity ← weightedSimilarity (45 / 100) (55 / 100) (incoming.contentTokens u)
    (existing.contentTokens u) (incoming.contentShingles u) (existing.contentShingles u)
  let titleSimilarity ← weightedSimilarity (7 / 10) (3 / 10) (incoming.titleTokens u)
    (existing.titleTokens u) (incoming.titleShingles u) (existing.titleShingles u)
  let entityOverlap ← overlapOrUnknown (incoming.entities u) (existing.entities u)
  let identifierOverlap ← overlapOrUnknown (incoming.identifiers u) (existing.identifiers u)
  let claimOverlap ← jaccard (incoming.contentShingles u) (existing.contentShingles u)
  let temporalCompatibility ← temporalCompatibility
    (incoming.publishedAt.or incoming.observedAt)
    (existing.observedAt.or (some reference.firstDetectedAt))
  let geographicCompatibility ← geographicCompatibility (incoming.locations u)
    (existing.locations u)
  return { semanticSimilarity, titleSimilarity, entityOverlap, identifierOverlap, claimOverlap,
           temporalCompatibility, geographicCompatibility, eventTypeCompatibility := 1 / 2 }

def candidateForReference (reference : EventReference) : Except MatchingError EventCandidate := do
  let features ← featuresForReference u incoming reference
  EventCandidate.create reference.eventId features

/-- The candidates of all references, in their order. -/
def candidatesForReferences : List EventReference → Except MatchingError (List EventCandidate)
  | [] => .ok []
  | reference :: rest => do
    let candidate ← candidateForReference u incoming reference
    let candidates ← candidatesForReferences rest
    return candidate :: candidates

def buildEventCandidates (references : List EventReference) (limit : ℕ) :
    Except MatchingError (List EventCandidate) :=
  (candidatesForReferences u incoming references).map fun candidates =>
    (Ranking.ranked EventCandidate.score candidates).take limit

end candidates

/-! ### Recorded features -/

/-- `round(q, 6)`. -/
def round6 (q : ℚ) : ℚ := roundHalfEven (q.num * 1000000) q.den / 1000000

def eventCandidateFeatures (c : EventCandidate) : List (Text × ℚ) :=
  [("semantic_similarity", c.features.semanticSimilarity),
    ("title_similarity", c.features.titleSimilarity),
    ("entity_overlap", c.features.entityOverlap),
    ("identifier_overlap", c.features.identifierOverlap),
    ("claim_overlap", c.features.claimOverlap),
    ("temporal_compatibility", c.features.temporalCompatibility),
    ("geographic_compatibility", c.features.geographicCompatibility),
    ("event_type_compatibility", c.features.eventTypeCompatibility),
    ("score", c.score)].map fun feature => (feature.1.toList, round6 feature.2)

def provisionalEventFeatures : List EventCandidate → List (Text × ℚ)
  | [] => [("candidate_count".toList, 0)]
  | best :: rest =>
    [("candidate_count".toList, ((best :: rest).length : ℚ)),
      ("best_rejected_score".toList, round6 best.score),
      ("best_rejected_semantic_similarity".toList, round6 best.features.semanticSimilarity),
      ("best_rejected_title_similarity".toList, round6 best.features.titleSimilarity)]

end Newsintel.Events
