import Mathlib.Algebra.Order.Ring.Rat
import Newsintel.Acquisition.Collectors
import Newsintel.Extractors.JsonLd
import Newsintel.Extractors.Paragraphs
import Newsintel.Lib.PyLines
import Newsintel.Lib.Sha256
import Newsintel.Sources.Endpoints

/-!
# `extract_article_html` (adapters/extractors/article_html.py)

A page is read by `_ArticleHTMLParser`, and its parts are chosen from JSON-LD, from `meta` and from
the visible text. The JSON parser and the optional extractor are parameters; scores are exact
fractions. Of the metadata only the score is kept.
-/

namespace Newsintel.Extractors

open PyText PyUrl
open Acquisition (Parsers Datetime replaceZulu)

/-- Libraries of the extractor. -/
structure ExtractorLibraries where
  parsers : Parsers
  /-- `json.loads` -/
  loads : Text → Except JsonError Json
  /-- `trafilatura.extract`, `none` where it is not installed, raises or returns no text -/
  trafilatura : Bytes → Text → Option Text
  /-- the characters that stand for lone surrogates, which `json.loads` makes of unpaired escapes
  and no `Char` is -/
  surrogate : Char → Bool
  surrogate_not_space : ∀ c, surrogate c = true → isSpace c = false

/-! ### Policies -/

/-- `_PUBLISHER_POLICIES`. -/
def publisherPolicies : List ExtractionPolicy :=
  [{ name := "techcrunch".toList
     domainSuffixes := ["techcrunch.com".toList]
     lowValuePhrases := ["strictlyvc", "founder summit", "join 1,000+ founders",
       "tickets are going fast"].map String.toList
     skipAttributeTokens := ["event", "events", "promo", "sponsor"].map String.toList
     skipAttributePhrases := []
     paywallOrPartialPhrases := [] },
    { name := "the_hindu".toList
      domainSuffixes := ["thehindu.com", "www.thehindu.com"].map String.toList
      lowValuePhrases := ["account subscription benefits", "active subscription",
        "premium stories", "subscribed with another email"].map String.toList
      skipAttributeTokens := ["subscription", "paywall", "premium"].map String.toList
      skipAttributePhrases := []
      paywallOrPartialPhrases := ["you don't have any active subscription",
        "premium stories"].map String.toList },
    { name := "indian_express".toList
      domainSuffixes := ["indianexpress.com", "www.indianexpress.com"].map String.toList
      lowValuePhrases := ["subscribe to continue", "premium article"].map String.toList
      skipAttributeTokens := ["premium", "subscription", "paywall"].map String.toList
      skipAttributePhrases := []
      paywallOrPartialPhrases := [] },
    { name := "ndtv".toList
      domainSuffixes := ["ndtv.com", "www.ndtv.com"].map String.toList
      lowValuePhrases := []
      skipAttributeTokens := ["also", "related", "video"].map String.toList
      skipAttributePhrases := ["also read", "related stories"].map String.toList
      paywallOrPartialPhrases := [] }]

/-- `t.removeprefix("www.")`. -/
def removeWww (t : Text) : Text := if "www.".toList.isPrefixOf t then t.drop 4 else t

def policyForUrl (u : Unicode) (url : Text) : Except PyError (Option ExtractionPolicy) := do
  let parsed ← urlsplit u url []
  let host := removeWww (u.lower (hostname u parsed))
  return publisherPolicies.find? fun policy => policy.domainSuffixes.any fun suffix =>
    host = removeWww suffix || ('.' :: removeWww suffix).isSuffixOf host

/-! ### Texts and dates -/

def normalizeMultiline (value : Text) : Text :=
  joinParagraphs (((splitlines value).map normalizeText).filter (· ≠ []))

/-- The first normalised text that is not empty. -/
def firstPresent (values : List (Option Text)) : Option Text :=
  values.findSome? fun value => (value.map normalizeText).filter (· ≠ [])

def firstMeta (metaValues : List (Text × List Text)) (keys : List String) : Option Text :=
  keys.findSome? fun key => firstPresent (((metaValues.lookup key.toList).getD []).map some)

/-- `parsed if parsed.tzinfo else parsed.replace(tzinfo=UTC)`. -/
def assumeUtc (parsed : Datetime) : Datetime :=
  { parsed with utcoffset := some (parsed.utcoffset.getD 0) }

/-- `_parse_datetime`; of the classes of `PyError`, an `IndexError` is a `LookupError`. -/
def parseDatetime (parsers : Parsers) (value : Option Text) : Except PyError (Option Datetime) :=
  match normalizeText (value.getD []) with
  | [] => .ok none
  | normalized =>
    match parsers.fromisoformat (replaceZulu normalized) with
    | .ok parsed => .ok (some (assumeUtc parsed))
    | .error e =>
      if e.isValueError then
        match parsers.parsedateToDatetime normalized with
        | .ok parsed => .ok (some (assumeUtc parsed))
        | .error e =>
          if e.isValueError || [.typeError, .lookupError, .overflowError].contains e then .ok none
          else .error e
      else .error e

def firstDatetime (parsers : Parsers) : List (Option Text) → Except PyError (Option Datetime)
  | [] => .ok none
  | value :: values => do
    match ← parseDatetime parsers value with
    | some parsed => return some parsed
    | none => firstDatetime parsers values

def normalizeLanguage (value : Option Text) : Option Text :=
  match normalizeText (value.getD []) with
  | [] => none
  | normalized =>
    some (((normalized.map fun c => if c = '_' then '-' else c).takeWhile (· ≠ ',')).take 35)

/-! ### Quality -/

def wordCount (text : Text) : ℕ := (words text).length

/-- `round(q, 4)`. -/
def round4 (q : ℚ) : ℚ := roundHalfEven (q.num * 10000) q.den / 10000

/-- `_extraction_quality_score`, on exact fractions. -/
def extractionQualityScore (textContent : Text) (acceptedBlockCount rejectedBlockCount : ℕ)
    (jsonLdArticleDetected : Bool) : ℚ :=
  if wordCount textContent = 0 then 0
  else
    let total := acceptedBlockCount + rejectedBlockCount
    let share : ℚ := if total = 0 then 10 / 100
      else 25 / 100 * ((acceptedBlockCount : ℚ) / (total : ℚ))
    let score : ℚ := min (35 / 100) ((wordCount textContent : ℚ) / 1000) +
      min (25 / 100) ((acceptedBlockCount : ℚ) / 10) +
      (if jsonLdArticleDetected then 15 / 100 else 0) + share
    round4 (max 0 (min 1 score))

def shouldUseOptionalExtraction (currentText : Text) (currentQualityScore : ℚ)
    (optionalText : Text) : Bool :=
  wordCount currentText = 0 ||
    (currentQualityScore < 55 / 100 && wordCount currentText ≤ wordCount optionalText) ||
      roundHalfEven (27 * wordCount currentText) 20 ≤ wordCount optionalText

/-- `_extract_with_trafilatura`, when it has at least 50 words. -/
def extractWithTrafilatura (libs : ExtractorLibraries) (html : Bytes) (baseUrl : Text) :
    Option Text :=
  ((libs.trafilatura html baseUrl).map normalizeMultiline).filter (50 ≤ wordCount ·)

/-! ### The text of a page -/

inductive ExtractionMethod where
  | jsonLdArticleBody
  | visibleTextBlocks
  | trafilaturaFallback
  deriving DecidableEq, Repr

/-- The variables that lines 411-440 set. -/
structure ExtractedText where
  textContent : Text
  extractionMethod : ExtractionMethod
  acceptedBlockCount : ℕ
  rejectedBlockCount : ℕ
  rejectedBoilerplateCount : ℕ
  rejectedShortCount : ℕ
  deriving DecidableEq, Repr

/-- `_extraction_quality_score` of a text with its counts. -/
def ExtractedText.score (x : ExtractedText) (jsonLdArticleDetected : Bool) : ℚ :=
  extractionQualityScore x.textContent x.acceptedBlockCount x.rejectedBlockCount
    jsonLdArticleDetected

/-- `len([block for block in text.split("\n\n") if block])`. -/
def countParagraphs (text : Text) : ℕ := ((splitBlank text).filter (· ≠ [])).length

/-- Lines 411-417. -/
def bodyText (jsonLdBody : Text) : ExtractedText where
  textContent := normalizeMultiline jsonLdBody
  extractionMethod := .jsonLdArticleBody
  acceptedBlockCount := countParagraphs (normalizeMultiline jsonLdBody)
  rejectedBlockCount := 0
  rejectedBoilerplateCount := 0
  rejectedShortCount := 0

/-- Lines 419-424. -/
def visibleText (paragraphs : ParagraphExtractionResult) : ExtractedText where
  textContent := paragraphs.text
  extractionMethod := .visibleTextBlocks
  acceptedBlockCount := paragraphs.acceptedBlockCount
  rejectedBlockCount := paragraphs.rejectedBlockCount
  rejectedBoilerplateCount := paragraphs.rejectedBoilerplateCount
  rejectedShortCount := paragraphs.rejectedShortCount

/-- Lines 418-440. -/
def visibleOrOptional (paragraphs : ParagraphExtractionResult) (jsonLdArticleDetected : Bool)
    (optional : Option Text) : ExtractedText :=
  let visible := visibleText paragraphs
  match optional with
  | none => visible
  | some text =>
    if shouldUseOptionalExtraction visible.textContent (visible.score jsonLdArticleDetected) text
    then
      { visible with
        textContent := text
        extractionMethod := .trafilaturaFallback
        acceptedBlockCount := countParagraphs text }
    else visible

/-- `json_ld_body` (line 355). -/
def jsonLdBody (article : Option JsonObject) : Option Text :=
  article.bind (stringMember "articleBody")

/-- Lines 411-440. -/
def extractText (article : Option JsonObject) (paragraphs : ParagraphExtractionResult)
    (optional : Option Text) : ExtractedText :=
  match jsonLdBody article with
  | some body =>
    if 200 ≤ body.length then bodyText body
    else visibleOrOptional paragraphs article.isSome optional
  | none => visibleOrOptional paragraphs article.isSome optional

/-! ### The article -/

/-- The fields that the warnings are read from. -/
structure ArticleParts where
  title : Option Text
  byline : Option Text
  publishedAt : Option Datetime
  modifiedAt : Option Datetime
  language : Option Text
  canonicalUrl : Option Text
  extracted : ExtractedText
  extractionQualityScore : ℚ
  deriving DecidableEq, Repr

/-- `_PAYWALL_OR_ACCOUNT_PHRASES`. -/
def paywallOrAccountPhrases : List Text :=
  ["active subscription", "already a subscriber", "continue reading with", "for subscribers",
    "login with that one", "metered access", "premium stories", "subscribe to continue",
    "subscribe now", "subscriber only", "subscription required"].map String.toList

def paywallOrPartialPhrases : Option ExtractionPolicy → List Text
  | none => paywallOrAccountPhrases
  | some policy => paywallOrAccountPhrases ++ policy.paywallOrPartialPhrases

def matchingPhrases (u : Unicode) (value : Text) (phrases : List Text) : List Text :=
  phrases.filter (contains · (u.lower value))

def looksPartialOrPaywalled (wordCount : ℕ) (rawIndicators textIndicators : List Text) : Bool :=
  if textIndicators ≠ [] then true else rawIndicators ≠ [] && wordCount < 300

inductive ExtractionWarning where
  | missingTitle
  | missingTextContent
  | shortTextContent
  | missingPublishedAt
  | missingCanonicalUrl
  | boilerplateRemoved
  | possibleSubscriptionBoilerplate
  | possiblePaywallOrPartialContent
  | lowExtractionQuality
  deriving DecidableEq, Repr

def ExtractionWarning.text : ExtractionWarning → Text
  | .missingTitle => "missing_title".toList
  | .missingTextContent => "missing_text_content".toList
  | .shortTextContent => "short_text_content".toList
  | .missingPublishedAt => "missing_published_at".toList
  | .missingCanonicalUrl => "missing_canonical_url".toList
  | .boilerplateRemoved => "boilerplate_removed".toList
  | .possibleSubscriptionBoilerplate => "possible_subscription_boilerplate".toList
  | .possiblePaywallOrPartialContent => "possible_paywall_or_partial_content".toList
  | .lowExtractionQuality => "low_extraction_quality".toList

/-- Lines 449-480. -/
def extractionWarnings (u : Unicode) (policy : Option ExtractionPolicy) (decoded : Text)
    (article : ArticleParts) : List ExtractionWarning :=
  let text := article.extracted.textContent
  let paywallIndicators := matchingPhrases u decoded (paywallOrPartialPhrases policy)
  let textPaywallIndicators := matchingPhrases u text (paywallOrPartialPhrases policy)
  (if article.title.isNone then [.missingTitle] else []) ++
  (if text = [] then [.missingTextContent]
    else if wordCount text < 50 then [.shortTextContent] else []) ++
  (if article.publishedAt.isNone then [.missingPublishedAt] else []) ++
  (if article.canonicalUrl.isNone then [.missingCanonicalUrl] else []) ++
  (if article.extracted.rejectedBoilerplateCount ≠ 0 then [.boilerplateRemoved] else []) ++
  (if textPaywallIndicators ≠ [] then [.possibleSubscriptionBoilerplate] else []) ++
  (if looksPartialOrPaywalled (wordCount text) paywallIndicators textPaywallIndicators then
    [.possiblePaywallOrPartialContent] else []) ++
  (if text ≠ [] ∧ article.extractionQualityScore < 45 / 100 then [.lowExtractionQuality] else [])

structure ExtractedArticle extends ArticleParts where
  contentSha256 : Text
  warnings : List ExtractionWarning
  deriving DecidableEq, Repr

/-- The parser after a page, and the JSON-LD article. -/
structure ReadPage where
  policy : Option ExtractionPolicy
  parser : ArticleHtmlParser
  article : Option JsonObject

section page

variable (u : Unicode) (libs : ExtractorLibraries) (html : Bytes) (baseUrl : Text)

/-- Lines 347-354. -/
def readPage : Except PyError ReadPage := do
  let policy ← policyForUrl u baseUrl
  let parser ← feed u baseUrl policy newParser (libs.parsers.htmlCallbacks html)
  let objects ← iterJsonLdObjects libs.loads parser.jsonLdScripts
  return ⟨policy, parser, selectArticleJsonLd u objects⟩

/-- Lines 373-385. -/
def pagePublishedAt (page : ReadPage) : Except PyError (Option Datetime) :=
  firstDatetime libs.parsers
    [page.article.bind (stringMember "datePublished"),
      firstMeta page.parser.metaValues ["article:published_time", "datepublished", "date",
        "dc.date", "pubdate", "sailthru.date", "parsely-pub-date"]]

/-- Lines 386-395. -/
def pageModifiedAt (page : ReadPage) : Except PyError (Option Datetime) :=
  firstDatetime libs.parsers
    [page.article.bind (stringMember "dateModified"),
      firstMeta page.parser.metaValues ["article:modified_time", "datemodified", "lastmod",
        "parsely-post-date"]]

/-- Lines 408-440. -/
def pageText (page : ReadPage) : ExtractedText :=
  extractText page.article (extractParagraphText u page.policy page.parser.blocks)
    (extractWithTrafilatura libs html baseUrl)

/-- Lines 357-447. -/
def pageParts (page : ReadPage) (publishedAt modifiedAt : Option Datetime) : ArticleParts :=
  let metaValues := page.parser.metaValues
  let extracted := pageText u libs html baseUrl page
  { title := firstPresent [page.article.bind (stringMember "headline"),
      firstMeta metaValues ["og:title", "twitter:title", "parsely-title", "dc.title", "title"],
      some (normalizeText (join page.parser.titleParts))]
    byline := firstPresent [(page.article.bind (·.lookup "author".toList)).bind authorValue,
      firstMeta metaValues ["author", "article:author", "parsely-author", "byl"]]
    publishedAt
    modifiedAt
    language := normalizeLanguage (firstPresent [page.article.bind (stringMember "inLanguage"),
      page.parser.htmlLanguage, firstMeta metaValues ["og:locale", "language", "content-language"]])
    canonicalUrl := firstPresent [page.parser.links.lookup "canonical".toList,
      firstMeta metaValues ["og:url", "twitter:url"]]
    extracted
    extractionQualityScore := extracted.score page.article.isSome }

/-- `sha256(text.encode("utf-8")).hexdigest()`; a lone surrogate is not encoded. -/
def contentSha256 (text : Text) : Except PyError Text :=
  if text.any libs.surrogate then .error .unicodeError else .ok (Sha256.ofText text)

def extractArticleHtml : Except PyError ExtractedArticle := do
  let page ← readPage u libs html baseUrl
  let publishedAt ← pagePublishedAt libs page
  let modifiedAt ← pageModifiedAt libs page
  let parts := pageParts u libs html baseUrl page publishedAt modifiedAt
  let digest ← contentSha256 libs parts.extracted.textContent
  return { parts with
    contentSha256 := digest
    warnings := extractionWarnings u page.policy (Sources.decodeHtml html) parts }

end page

end Newsintel.Extractors
