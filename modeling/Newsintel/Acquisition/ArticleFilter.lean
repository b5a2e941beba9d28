import Newsintel.Lib.PyUrl
import Newsintel.Lib.Regex

/-!
# The admission filter (domain/acquisition/article_filter.py)

`should_admit_article_url` on instants in UTC. Splitting the URL is the only step
that can raise.
-/

namespace Newsintel.Acquisition

open PyText PyUrl

def excludedSegments : List Text :=
  ["about", "archive", "archives", "author", "authors", "category", "contact", "gallery",
    "live-tv", "multimedia", "newsletter", "photos", "podcast", "privacy", "search", "sitemap",
    "tag", "tags", "terms", "topic", "topics", "video", "videos", "web-stories"].map String.toList

/-! ### Patterns -/

section patterns

open Regex

/-- `(?:0?[1-9]|1[0-2])`. -/
def monthPattern : Pattern :=
  .alt (.seq (optional (literal "0")) (oneOf "123456789")) (.seq (literal "1") (oneOf "012"))

/-- `(?:0?[1-9]|[12]\d|3[01])`. -/
def dayPattern (u : Unicode) : Pattern :=
  alts [.seq (optional (literal "0")) (oneOf "123456789"), .seq (oneOf "12") (digit u),
    .seq (literal "3") (oneOf "01")]

/-- `20\d{2}`. -/
def yearPattern (u : Unicode) : Pattern := .seq (literal "20") (exactly (digit u) 2)

def datePathPattern (u : Unicode) : Pattern :=
  seqs [literal "/",
    .alt (seqs [yearPattern u, oneOf "/_-", monthPattern, oneOf "/_-", dayPattern u])
      (seqs [dayPattern u, oneOf "/_-", monthPattern, oneOf "/_-", yearPattern u]),
    literal "/"]

def articleHintPattern : Pattern :=
  alts (["/news/", "/article/", "/articles/", "/story/", "/stories/", "/world/", "/business/",
    "/technology/", "/tech/", "/science/", "/politics/", "/sports/", "/health/", "/india/",
    "/opinion/", "/analysis/", "/markets/", "/economy/"].map literal)

/-- `[a-z0-9]+`. -/
def slugWord : Pattern := plus (oneOf "abcdefghijklmnopqrstuvwxyz0123456789")

def articleSlugPattern : Pattern :=
  let more := .seq (literal "-") slugWord
  seqs [slugWord, exactly more 3, .star more]

end patterns

/-! ### Decisions -/

inductive UrlRejectionReason where
  | tooOld | futureDated | nonArticlePath | excludedSection | missingPublicationDate
  deriving DecidableEq, Repr

structure ArticleUrlDecision where
  accepted : Bool
  reason : Option UrlRejectionReason
  publishedAt : Option Timestamp
  deriving DecidableEq, Repr

/-- `t.strip("/")`. -/
def stripSlashes (t : Text) : Text :=
  ((t.dropWhile (· = '/')).reverse.dropWhile (· = '/')).reverse

/-- `[segment for segment in path.split("/") if segment]`. -/
def pathSegments (path : Text) : List Text := (path.splitOn '/').filter (· ≠ [])

def hasExcludedSegment (u : Unicode) (url : Text) : Except PyError Bool := do
  let parsed ← urlsplit u url []
  return (pathSegments parsed.path).any fun segment => excludedSegments.contains (u.lower segment)

/-- The suffixes of `looks_like_article_url`. -/
def fileSuffixes : List Text :=
  [".xml", ".rss", ".json", ".jpg", ".jpeg", ".png", ".webp", ".mp4"].map String.toList

def looksLikeArticleUrl (u : Unicode) (url : Text) : Except PyError Bool := do
  let parsed ← urlsplit u url []
  let path := stripSlashes (u.lower parsed.path)
  let segments := pathSegments path
  let slashed := '/' :: path ++ ['/']
  if path = [] then return false
  if fileSuffixes.any (·.isSuffixOf path) then return false
  if segments = [] then return false
  if ← hasExcludedSegment u url then return false
  return Regex.search articleSlugPattern (segments.getLastD []) ||
    Regex.search (datePathPattern u) slashed ||
    (Regex.search articleHintPattern slashed && 2 ≤ segments.length)

def shouldAdmitArticleUrl (u : Unicode) (url : Text) (publishedAt : Option Timestamp)
    (observedAt : Timestamp) (recentWindowHours : ℕ) (requirePublicationDate : Bool) :
    Except PyError ArticleUrlDecision := do
  let reject (reason : UrlRejectionReason) : ArticleUrlDecision :=
    { accepted := false, reason := some reason, publishedAt }
  if requirePublicationDate && publishedAt.isNone then return reject .missingPublicationDate
  if publishedAt.any (observedAt + hours 2 < ·) then return reject .futureDated
  if publishedAt.any (· < observedAt - hours recentWindowHours) then return reject .tooOld
  if ← hasExcludedSegment u url then return reject .excludedSection
  if !(← looksLikeArticleUrl u url) then return reject .nonArticlePath
  return { accepted := true, reason := none, publishedAt }

end Newsintel.Acquisition
