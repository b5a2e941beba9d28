import Newsintel.Acquisition.ArticleFilter
import Newsintel.Acquisition.Canonicalization
import Newsintel.Extractors.ArticleHtmlParser

/-!
# Reading channel payloads (adapters/collectors)

Feeds, sitemaps and listing pages as trees of XML elements and as callbacks of
`HTMLParser`; the dates of feed items. The XML parser, the HTML tokenizer and the two
date parsers of the standard library are the data of `Parsers`.
-/

namespace Newsintel.Acquisition

open PyText PyUrl

/-! ### Library parsers -/

inductive Element where
  | node (tag : Text) (attrib : List (Text × Text)) (text : Option Text) (children : List Element)

/-- `datetime`: the wall clock in microseconds since 1970, and `utcoffset()`. -/
structure Datetime where
  wall : ℤ
  utcoffset : Option ℤ
  deriving DecidableEq, Repr

structure Parsers where
  /-- `defusedxml.ElementTree.fromstring` -/
  fromstring : Bytes → Except PyError Element
  /-- the callbacks of `HTMLParser` on the decoded page -/
  htmlCallbacks : Bytes → List Extractors.Callback
  /-- `datetime.fromisoformat` -/
  fromisoformat : Text → Except PyError Datetime
  /-- `email.utils.parsedate_to_datetime` -/
  parsedateToDatetime : Text → Except PyError Datetime

namespace Element

def tag : Element → Text
  | node tag _ _ _ => tag

def attrib : Element → List (Text × Text)
  | node _ attrib _ _ => attrib

def text : Element → Option Text
  | node _ _ text _ => text

def children : Element → List Element
  | node _ _ _ children => children

mutual

/-- `element.iter()`. -/
def iter : Element → List Element
  | node tag attrib text children => node tag attrib text children :: iterAll children

def iterAll : List Element → List Element
  | [] => []
  | e :: es => iter e ++ iterAll es

end

theorem iter_eq (e : Element) : e.iter = e :: iterAll e.children := by
  cases e
  rfl

theorem iterAll_eq (es : List Element) : iterAll es = es.flatMap iter := by
  induction es with
  | nil => rfl
  | cons e es ih =>
    rw [List.flatMap_cons, ← ih]
    rfl

end Element

def localName (u : Unicode) (tag : Text) : Text := u.lower (afterLast '}' tag)

/-- `str(element.text).strip()` when that is not empty. -/
def strippedText (e : Element) : Option Text := (e.text.map strip).filter (· ≠ [])

/-! ### Dates (feeds.py:93-106) -/

/-- `datetime.min` and `datetime.max` in UTC. -/
def minTimestamp : Timestamp := -62135596800000000
def maxTimestamp : Timestamp := 253402300799999999

/-- Lines 103-106: `parsed.replace(tzinfo=UTC)` or `parsed.astimezone(UTC)`. -/
def toUtc (parsed : Datetime) : Except PyError Timestamp :=
  match parsed.utcoffset with
  | none => .ok parsed.wall
  | some offset =>
    let t := parsed.wall - offset
    if minTimestamp ≤ t ∧ t ≤ maxTimestamp then .ok t else .error .overflowError

/-- `raw.replace("Z", "+00:00")`. -/
def replaceZulu (raw : Text) : Text :=
  raw.flatMap fun c => if c = 'Z' then "+00:00".toList else [c]

def parseFeedDatetime (parsers : Parsers) (raw : Option Text) :
    Except PyError (Option Timestamp) :=
  match raw with
  | none => .ok none
  | some [] => .ok none
  | some raw =>
    match parsers.fromisoformat (replaceZulu raw) with
    | .ok parsed => (toUtc parsed).map some
    | .error e =>
      if e.isValueError then
        match parsers.parsedateToDatetime raw with
        | .ok parsed => (toUtc parsed).map some
        | .error e => if e = .typeError || e.isValueError then .ok none else .error e
      else .error e

/-! ### Feeds (feeds.py:16-90) -/

inductive DiscoveryChannelType where
  | rss | atom | sitemap | newsSitemap | homepage | category | tag | author | archive
  | internalLink | search | api | websub | webhook
  deriving DecidableEq, Repr

structure DiscoveredItem where
  externalId : Option Text
  url : Text
  title : Option Text
  publishedAtRaw : Option Text
  channelType : DiscoveryChannelType
  deriving DecidableEq, Repr

def childText (u : Unicode) (element : Element) (names : List String) : Option Text :=
  element.children.findSome? fun child =>
    if (names.map String.toList).contains (localName u child.tag) then strippedText child else none

def atomLink (u : Unicode) : Option Text → List Element → Option Text
  | fallback, [] => fallback
  | fallback, child :: rest =>
    if localName u child.tag ≠ "link".toList then atomLink u fallback rest
    else
      match (child.attrib.lookup "href".toList).getD [] with
      | [] => atomLink u fallback rest
      | href =>
        if (child.attrib.lookup "rel".toList).getD "alternate".toList = "alternate".toList then
          some href
        else atomLink u (fallback.or (some href)) rest

def parseFeed (u : Unicode) (parsers : Parsers) (xml : Bytes) :
    Except PyError (List DiscoveredItem) := do
  let root ← parsers.fromstring xml
  let rootName := localName u root.tag
  if rootName = "rss".toList || rootName = "rdf".toList then
    return (root.iter.filter fun e => localName u e.tag = "item".toList).filterMap fun item =>
      (childText u item ["link"]).map fun url =>
        { externalId := childText u item ["guid", "id"]
          url
          title := childText u item ["title"]
          publishedAtRaw := childText u item ["pubdate", "published", "updated", "date"]
          channelType := .rss }
  if rootName = "feed".toList then
    return (root.children.filter fun e => localName u e.tag = "entry".toList).filterMap
      fun entry => (atomLink u none entry.children).map fun url =>
        { externalId := childText u entry ["id"]
          url
          title := childText u entry ["title"]
          publishedAtRaw := childText u entry ["published", "updated"]
          channelType := .atom }
  throw .valueError

/-! ### Sitemaps (sitemaps.py) -/

inductive SitemapDocumentType where
  | urlSet | index
  deriving DecidableEq, Repr

structure SitemapEntry where
  location : Text
  lastModifiedRaw : Option Text
  publicationDateRaw : Option Text
  newsTitle : Option Text
  deriving DecidableEq, Repr

structure SitemapDocument where
  documentType : SitemapDocumentType
  entries : List SitemapEntry
  deriving DecidableEq, Repr

def firstDescendantText (u : Unicode) (element : Element) (name : String) : Option Text :=
  element.iter.findSome? fun e =>
    if localName u e.tag = name.toList then strippedText e else none

/-- The entries of the children with the name. -/
def sitemapEntries (u : Unicode) (root : Element) (childName : String) : List SitemapEntry :=
  (root.children.filter fun e => localName u e.tag = childName.toList).filterMap fun element =>
    (firstDescendantText u element "loc").map fun location =>
      { location
        lastModifiedRaw := firstDescendantText u element "lastmod"
        publicationDateRaw := firstDescendantText u element "publication_date"
        newsTitle := firstDescendantText u element "title" }

def parseSitemap (u : Unicode) (parsers : Parsers) (xml : Bytes) :
    Except PyError SitemapDocument := do
  let root ← parsers.fromstring xml
  let rootName := localName u root.tag
  if rootName = "urlset".toList then
    return { documentType := .urlSet, entries := sitemapEntries u root "url" }
  if rootName = "sitemapindex".toList then
    return { documentType := .index, entries := sitemapEntries u root "sitemap" }
  throw .valueError

/-! ### Listing pages (source_discovery.py:77-163) -/

structure HtmlArticleLink where
  url : Text
  title : Option Text
  deriving DecidableEq, Repr

/-- `_AnchorLinkParser`; the stacks are written top first. -/
structure AnchorLinkParser where
  links : List HtmlArticleLink
  hrefStack : List Text
  textStack : List (List Text)

/-- `_normalize_text` of source_discovery.py. -/
def normalizeLinkText (value : Text) : Text := strip (join (words value))

def AnchorLinkParser.handle (u : Unicode) (baseUrl : Text) (st : AnchorLinkParser) :
    Extractors.Callback → Except PyError AnchorLinkParser
  | .starttag tag attrs =>
    let href := Extractors.attr (Extractors.attrMap u attrs) "href"
    if u.lower tag ≠ ['a'] || href = [] then .ok st
    else (urljoin u baseUrl href).map fun target =>
      { st with hrefStack := target :: st.hrefStack, textStack := [] :: st.textStack }
  | .data data =>
    match st.textStack with
    | [] => .ok st
    | parts :: rest => .ok { st with textStack := (parts ++ [data]) :: rest }
  | .endtag tag =>
    match st.hrefStack with
    | [] => .ok st
    | href :: hrefs =>
      if u.lower tag ≠ ['a'] then .ok st
      else
        let title := normalizeLinkText (join (st.textStack.headD []))
        .ok
          { links :=
              if href = [] then st.links
              else st.links ++ [{ url := href, title := some title |>.filter (· ≠ []) }]
            hrefStack := hrefs
            textStack := st.textStack.drop 1 }

/-- `CanonicalizationPolicy(drop_parameters=frozenset())`. -/
def keepAllPolicy : CanonicalizationPolicy := { dropParameters := [] }

def normalizeHomepageUrl (u : Unicode) (nameprep : Idna.Nameprep u) (url : Text) :
    Except PyError Text :=
  let candidate := strip url
  let candidate :=
    if contains "://".toList candidate then candidate else "https://".toList ++ candidate
  (canonicalizeUrl u nameprep keepAllPolicy candidate).map (·.normalized)

def originForUrl (u : Unicode) (nameprep : Idna.Nameprep u) (url : Text) : Except PyError Text := do
  let normalized ← normalizeHomepageUrl u nameprep url
  let parsed ← urlsplit u normalized []
  return urlunsplit { parsed with path := [], query := [], fragment := [] }

/-- The body of the `try` in `discover_html_article_links`; `none` is `continue`. -/
def articleLinkUrl (u : Unicode) (nameprep : Idna.Nameprep u) (pageOrigin url : Text) :
    Except PyError (Option Text) := do
  if (← originForUrl u nameprep url) ≠ pageOrigin then return none
  if !(← looksLikeArticleUrl u url) then return none
  return some (← canonicalizeUrl u nameprep defaultPolicy url).normalized

/-- The loop of `discover_html_article_links`. -/
def collectArticleLinks (u : Unicode) (nameprep : Idna.Nameprep u) (pageOrigin : Text) :
    List Text → List HtmlArticleLink → Except PyError (List HtmlArticleLink)
  | _, [] => .ok []
  | seen, link :: links =>
    match articleLinkUrl u nameprep pageOrigin link.url with
    | .error e =>
      if e.isValueError then collectArticleLinks u nameprep pageOrigin seen links else .error e
    | .ok none => collectArticleLinks u nameprep pageOrigin seen links
    | .ok (some normalized) =>
      if seen.contains normalized then collectArticleLinks u nameprep pageOrigin seen links
      else (collectArticleLinks u nameprep pageOrigin (normalized :: seen) links).map
        ({ url := normalized, title := link.title } :: ·)

/-- `discover_html_article_links(html, page_url=page_url)`. -/
def discoverHtmlArticleLinks (u : Unicode) (nameprep : Idna.Nameprep u) (parsers : Parsers)
    (html : Bytes) (pageUrl : Text) : Except PyError (List HtmlArticleLink) := do
  let parser ← (parsers.htmlCallbacks html).foldlM (AnchorLinkParser.handle u pageUrl)
    { links := [], hrefStack := [], textStack := [] }
  let pageOrigin ← originForUrl u nameprep pageUrl
  collectArticleLinks u nameprep pageOrigin [] parser.links

end Newsintel.Acquisition
