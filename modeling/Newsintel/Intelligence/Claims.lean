import Mathlib.Data.Rat.Defs
import Mathlib.Algebra.Order.Ring.Rat
import Newsintel.Lib.Regex
import Newsintel.Lib.Sha256

/-!
# Claim extraction (domain/intelligence/claims.py)

Sentence splitting, the features of a sentence and the loop that keeps the first
`max_claims` candidates. The score, a float rounded to six decimals in the source,
is kept as the exact fraction it rounds from.
-/

namespace Newsintel.Intelligence

open PyText Regex

inductive ClaimVerificationLabel where
  | supported
  | disputed
  | misleading
  | unsupported
  | contradicted
  | notCheckable
  deriving DecidableEq, Repr

/-! ### Patterns (lines 20-34) -/

def isUpper (c : Char) : Bool := 'A' ≤ c && c ≤ 'Z'

/-- `[A-Za-z0-9&.+-]`. -/
def isNameChar (c : Char) : Bool :=
  isUpper c || ('a' ≤ c && c ≤ 'z') || ('0' ≤ c && c ≤ '9') || "&.+-".toList.contains c

def sentenceBoundaryPattern : Pattern :=
  seqs
    [.between fun before _ => (before.map ".!?".toList.contains).getD false,
      plus space,
      .between fun _ after =>
        (after.map fun c => isUpper c || ('0' ≤ c && c ≤ '9') || "\"'".toList.contains c).getD
          false]

def numberPattern (u : Unicode) : Pattern :=
  seqs
    [boundary u, plus (digit u), .star (.seq (oneOf ".,") (plus (digit u))),
      optional (alts (literal "%" ::
        ["bn", "billion", "mn", "million", "crore", "lakh"].map literalI)),
      boundary u]

def datePattern (u : Unicode) : Pattern :=
  alts
    [seqs
      [boundary u,
        alts (["jan", "feb", "mar", "apr", "may", "jun", "jul", "aug", "sep", "sept", "oct",
          "nov", "dec"].map literalI),
        .star letterI, optional (oneOf "."), plus space, digit u, optional (digit u)],
      seqs [boundary u, exactly (digit u) 4, boundary u],
      seqs
        [boundary u,
          alts (["today", "yesterday", "tomorrow", "monday", "tuesday", "wednesday", "thursday",
            "friday", "saturday", "sunday"].map literalI),
          boundary u]]

def capitalizedPattern (u : Unicode) : Pattern :=
  let name := Pattern.seq (.char isUpper) (plus (.char isNameChar))
  seqs
    [boundary u,
      .alt name (.seq (exactly (.char isUpper) 2) (.star (.char isUpper))),
      atMost (.seq (plus space) name) 4]

def reportingOrActionVerbs : List String :=
  ["accused", "announced", "approved", "blocked", "charged", "claimed", "confirmed", "declared",
    "denied", "disclosed", "filed", "found", "launched", "ordered", "published", "reported",
    "released", "said", "signed", "sued", "warned"]

def speculationMarkers : List String :=
  ["could", "may", "might", "possibly", "rumor", "rumour", "speculation", "unconfirmed"]

def lowValuePrefixes : List Text :=
  ["advertisement", "also read", "click here", "follow us", "read more", "subscribe"].map
    String.toList

/-! ### Sentences and their features -/

/-- `_normalize_text` (lines 171-172). -/
def normalizeText (text : Text) : Text := strip (collapse text)

theorem normalizeText_eq (text : Text) : normalizeText text = join (words text) :=
  strip_collapse text

/-- `split_sentences` (lines 102-111). -/
def splitSentences (text : Text) : List Text :=
  if normalizeText text = [] then []
  else ((split sentenceBoundaryPattern (normalizeText text)).map normalizeText).filter (· ≠ [])

structure ClaimFeatures where
  wordCount : ℕ
  hasNumber : Bool
  hasDate : Bool
  entities : List Text
  entityCount : ℕ
  reportingOrActionTerms : List Text
  speculationTerms : List Text
  signalCount : ℕ
  score : ℚ
  isClaimCandidate : Bool
  deriving DecidableEq, Repr

/-- The terms that occur as whole words, sorted. -/
def termsIn (u : Unicode) (terms : List String) (lowered : Text) : List Text :=
  sortTexts ((terms.filter fun term =>
    search (seqs [boundary u, literal term, boundary u]) lowered).map String.toList)

/-- The capitalised phrases of a sentence, without repetition. -/
def entitiesOf (u : Unicode) (normalized : Text) : List Text :=
  ((findall (capitalizedPattern u) normalized).map normalizeText).dedup.filter fun entity =>
    entity ≠ [] &&
      !(["the", "this", "after", "before"].map String.toList).contains (u.lower entity)

/-- `claim_features` (lines 114-164). -/
def claimFeatures (u : Unicode) (sentence : Text) : ClaimFeatures :=
  let normalized := normalizeText sentence
  let lowered := u.lower normalized
  let reporting := termsIn u reportingOrActionVerbs lowered
  let speculation := termsIn u speculationMarkers lowered
  let entities := entitiesOf u normalized
  let hasNumber := search (numberPattern u) normalized
  let hasDate := search (datePattern u) normalized
  let startsLowValue := lowValuePrefixes.any fun p => p.isPrefixOf lowered
  let wordCount := (words normalized).length
  let signalCount :=
    [!reporting.isEmpty, !entities.isEmpty, hasNumber, hasDate].count true
  let score : ℚ := min 1 (signalCount / 4 + (min wordCount 40 : ℕ) / 160)
  { wordCount
    hasNumber
    hasDate
    entities := sortTexts entities
    entityCount := entities.length
    reportingOrActionTerms := reporting
    speculationTerms := speculation
    signalCount
    score := if speculation ≠ [] then max 0 (score - 1 / 5) else score
    isClaimCandidate := 8 ≤ wordCount && wordCount ≤ 80 && !startsLowValue &&
      normalized.getLast? ≠ some '?' && 2 ≤ signalCount }

/-! ### The extraction loop -/

structure ExtractedClaim where
  text : Text
  sentenceIndex : ℕ
  features : ClaimFeatures
  deriving DecidableEq, Repr

/-- `claim_sha256` of a text (lines 167-168). -/
def claimSha256 (u : Unicode) (text : Text) : Text :=
  Sha256.ofText (u.lower (normalizeText text))

/-- The loop of `extract_claims` (lines 85-99) from a sentence on. -/
def extractFrom (u : Unicode) (maxClaims : ℕ) :
    ℕ → List ExtractedClaim → List Text → List ExtractedClaim
  | _, claims, [] => claims
  | index, claims, sentence :: rest =>
    let features := claimFeatures u sentence
    let claims :=
      if features.isClaimCandidate then
        claims ++ [{ text := sentence, sentenceIndex := index, features }]
      else claims
    if maxClaims ≤ claims.length then claims else extractFrom u maxClaims (index + 1) claims rest

/-- `extract_claims`, `max_claims` being 25 by default. -/
def extractClaims (u : Unicode) (text : Text) : List ExtractedClaim :=
  extractFrom u 25 0 [] (splitSentences text)

/-! ### The sentences that become claims -/

/-- The candidate sentences of a text, as many as `extract_claims` keeps. -/
def claimSentences (u : Unicode) (text : Text) : List Text :=
  ((splitSentences text).filter fun s => (claimFeatures u s).isClaimCandidate).take 25

variable {u : Unicode} {text : Text}

/-- The claim of a sentence and its index. -/
def claimOf (u : Unicode) (s : Text × ℕ) : ExtractedClaim where
  text := s.1
  sentenceIndex := s.2
  features := claimFeatures u s.1

/- The loop stops at `max_claims`, so it appends as many candidates as are left. -/
theorem extractFrom_eq {maxClaims index : ℕ} {claims : List ExtractedClaim}
    {sentences : List Text} (h : claims.length < maxClaims) :
    extractFrom u maxClaims index claims sentences =
      claims ++ (((sentences.zipIdx index).filter fun s =>
        (claimFeatures u s.1).isClaimCandidate).take (maxClaims - claims.length)).map
          (claimOf u) := by
  induction sentences generalizing index claims with
  | nil => simp [extractFrom]
  | cons sentence rest ih =>
    rw [extractFrom, List.zipIdx_cons]
    cases hc : (claimFeatures u sentence).isClaimCandidate with
    | false =>
      simp only [Bool.false_eq_true, if_false, if_neg (Nat.not_le.mpr h)]
      rw [ih h, List.filter_cons_of_neg (by simp [hc])]
    | true =>
      obtain ⟨k, hk⟩ : ∃ k, maxClaims - claims.length = k + 1 :=
        Nat.exists_eq_add_one.mpr (by omega)
      rw [List.filter_cons_of_pos (by simp [hc]), hk, List.take_succ_cons]
      simp only [if_true, List.length_append, List.length_singleton]
      split
      · have hzero : k = 0 := by omega
        simp [hzero, claimOf]
      · have hlen : maxClaims - (claims.length + 1) = k := by omega
        rw [ih (by simp only [List.length_append, List.length_singleton]; omega)]
        simp [hlen, claimOf]

theorem extractFrom_texts {maxClaims index : ℕ} {claims : List ExtractedClaim}
    {sentences : List Text} (h : claims.length < maxClaims) :
    (extractFrom u maxClaims index claims sentences).map (·.text) =
      claims.map (·.text) ++
        (sentences.filter fun s => (claimFeatures u s).isClaimCandidate).take
          (maxClaims - claims.length) := by
  have htexts : (sentences.filter fun s => (claimFeatures u s).isClaimCandidate) =
      ((sentences.zipIdx index).filter fun s => (claimFeatures u s.1).isClaimCandidate).map
        Prod.fst := by
    conv_lhs => rw [← List.zipIdx_map_fst index sentences, List.filter_map]
    rfl
  rw [extractFrom_eq h, List.map_append, List.map_map, htexts, List.map_take]
  rfl

theorem extractClaims_texts : (extractClaims u text).map (·.text) = claimSentences u text := by
  rw [extractClaims, extractFrom_texts (by simp)]
  rfl

theorem normalizeText_idem (text : Text) : normalizeText (normalizeText text) = normalizeText text := by
  simp only [normalizeText_eq, words_join_words]

theorem normalizeText_sentence {s : Text} (h : s ∈ splitSentences text) : normalizeText s = s := by
  unfold splitSentences at h
  split at h
  · contradiction
  · obtain ⟨h, -⟩ := List.mem_filter.mp h
    obtain ⟨t, -, rfl⟩ := List.mem_map.mp h
    exact normalizeText_idem t

/- Sentences are normalised, so the hash is that of the lower-cased sentence. -/
theorem claim_hashes :
    ((extractClaims u text).map fun c => claimSha256 u c.text) =
      ((claimSentences u text).map u.lower).map Sha256.ofText := by
  rw [← extractClaims_texts, List.map_map, List.map_map]
  apply List.map_congr_left
  intro c hc
  have htext : c.text ∈ claimSentences u text := extractClaims_texts ▸ List.mem_map_of_mem hc
  have hsentence := (List.mem_filter.mp (List.mem_of_mem_take htext)).1
  simp only [claimSha256, Function.comp_apply, normalizeText_sentence hsentence]

end Newsintel.Intelligence
