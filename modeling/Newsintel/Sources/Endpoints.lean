import Newsintel.Acquisition.ListingLinks
import Newsintel.Lib.Decoding
import Newsintel.Lib.FirstPerKey
import Newsintel.Lib.PyLines

/-!
# Endpoints of a publisher (adapters/collectors/source_discovery.py)

The endpoints that onboarding looks for: alternate links and listing pages of the homepage, the
sitemaps of robots.txt and the common paths. Duplicates are dropped by their canonical form.
-/

namespace Newsintel.Sources

open Acquisition PyText PyUrl FirstPerKey
open Extractors (Callback attr attrMap)

structure DiscoveredEndpoint where
  url : Text
  source : Text
  hintedType : Option DiscoveryChannelType
  deriving DecidableEq

/-- `COMMON_DISCOVERY_PATHS`. -/
def commonDiscoveryPaths : List Text :=
  ["/sitemap.xml", "/sitemap_index.xml", "/news-sitemap.xml", "/sitemap-news.xml", "/feed", "/rss",
    "/rss.xml", "/feed.xml"].map String.toList

/-- `_LISTING_HINT_SEGMENTS`. -/
def listingHintSegments : List Text :=
  ["ai", "artificial-intelligence", "business", "climate", "economy", "health", "healthcare",
    "india", "markets", "news", "politics", "science", "space", "sport", "sports", "tech",
    "technology", "world"].map String.toList

/-- `_LISTING_EXCLUDED_SEGMENTS`. -/
def listingExcludedSegments : List Text :=
  ["about", "account", "advertise", "author", "contact", "login", "privacy", "search", "signin",
    "subscribe", "tag", "terms", "video"].map String.toList

/-- `_decode_html`. Every byte has a character in ISO-8859-1, so its last line is not reached. -/
def decodeHtml (payload : Bytes) : Text :=
  let bytes := payload.map UInt8.toNat
  match Utf8.decodeStrict bytes with
  | some t => t
  | none => (Windows1252.decodeStrict bytes).getD (bytes.map Char.ofNat)

section definitions

variable (u : Unicode) (nameprep : Idna.Nameprep u)

/-! ### Alternate links -/

/-- The type that a link announces. -/
def alternateType (linkType : Text) : Option DiscoveryChannelType :=
  if linkType = "application/rss+xml".toList ∨ linkType = "application/rdf+xml".toList then
    some .rss
  else if linkType = "application/atom+xml".toList then some .atom
  else none

/-- `_AlternateLinkParser.handle_starttag`: the endpoint that a callback adds. -/
def alternateLink (baseUrl : Text) : Callback → Except PyError (Option DiscoveredEndpoint)
  | .starttag tag attrs =>
    let values := attrMap u attrs
    let href := attr values "href"
    if u.lower tag ≠ "link".toList then .ok none
    else if href = [] || !contains "alternate".toList (u.lower (attr values "rel")) then .ok none
    else
      match alternateType (u.lower (attr values "type")) with
      | none => .ok none
      | some hinted => (urljoin u baseUrl href).map fun url =>
        some { url, source := "html_alternate".toList, hintedType := some hinted }
  | .endtag _ | .data _ => .ok none

def discoverAlternateLinks (parsers : Parsers) (html : Bytes) (homepageUrl : Text) :
    Except PyError (List DiscoveredEndpoint) :=
  ((parsers.htmlCallbacks html).mapM (alternateLink u homepageUrl)).map List.reduceOption

/-! ### robots.txt -/

/-- The URL of a `Sitemap` line. -/
def sitemapValue (rawLine : Text) : Option Text :=
  let line := strip rawLine
  if line = [] || line.head? = some '#' then none
  else
    match partition ':' line with
    | (_, none) => none
    | (key, some value) =>
      if u.lower (strip key) = "sitemap".toList && strip value ≠ [] then some (strip value) else none

def discoverRobotSitemaps (robotsTxt : Bytes) (homepageUrl : Text) :
    Except PyError (List DiscoveredEndpoint) :=
  ((splitlines (decodeHtml robotsTxt)).filterMap (sitemapValue u)).mapM fun sitemapUrl =>
    (urljoin u homepageUrl sitemapUrl).map fun url =>
      { url, source := "robots_txt".toList, hintedType := some .sitemap }

/-! ### Common paths -/

def commonDiscoveryEndpoints (homepageUrl : Text) : Except PyError (List DiscoveredEndpoint) := do
  let origin ← originForUrl u nameprep homepageUrl
  commonDiscoveryPaths.mapM fun path =>
    (urljoin u origin path).map fun url =>
      { url
        source := "common_path".toList
        hintedType := some (if contains "sitemap".toList path then .sitemap else .rss) }

/-! ### Listing pages -/

def looksLikeListingPage (url : Text) : Except PyError Bool := do
  if ← looksLikeArticleUrl u url then return false
  let parsed ← urlsplit u url []
  let path := stripSlashes (u.lower parsed.path)
  let segments := pathSegments path
  if path = [] then return false
  if segments = [] || 3 < segments.length then return false
  if segments.any listingExcludedSegments.contains then return false
  return segments.any listingHintSegments.contains

/-- The body of the `try` in `discover_listing_endpoints`; `none` is `continue`. -/
def listingLinkUrl (pageOrigin url : Text) : Except PyError (Option Text) := do
  if (← originForUrl u nameprep url) ≠ pageOrigin then return none
  if !(← looksLikeListingPage u url) then return none
  return some (← canonicalizeUrl u nameprep keepAllPolicy url).normalized

/-- An endpoint of `discover_listing_endpoints`. -/
def listingEndpoint (normalized : Text) : DiscoveredEndpoint where
  url := normalized
  source := "homepage_listing_link".toList
  hintedType := some .category

/-- The loop of `discover_listing_endpoints`, with room for `room` more endpoints. -/
def collectListings (pageOrigin : Text) :
    ℕ → List Text → List HtmlArticleLink → Except PyError (List DiscoveredEndpoint)
  | _, _, [] => .ok []
  | 0, _, _ => .ok []
  | room + 1, seen, link :: links =>
    match listingLinkUrl u nameprep pageOrigin link.url with
    | .error e =>
      if e.isValueError then collectListings pageOrigin (room + 1) seen links else .error e
    | .ok none => collectListings pageOrigin (room + 1) seen links
    | .ok (some normalized) =>
      if seen.contains normalized then collectListings pageOrigin (room + 1) seen links
      else (collectListings pageOrigin room (normalized :: seen) links).map
        (listingEndpoint normalized :: ·)

def discoverListingEndpoints (parsers : Parsers) (html : Bytes) (homepageUrl : Text)
    (maxEndpoints : ℕ) : Except PyError (List DiscoveredEndpoint) := do
  let parser ← (parsers.htmlCallbacks html).foldlM (AnchorLinkParser.handle u homepageUrl)
    { links := [], hrefStack := [], textStack := [] }
  let pageOrigin ← originForUrl u nameprep homepageUrl
  collectListings u nameprep pageOrigin maxEndpoints [] parser.links

/-! ### Duplicates -/

/-- The loop of `unique_endpoints`. -/
def collectUnique : List Text → List DiscoveredEndpoint → Except PyError (List DiscoveredEndpoint)
  | _, [] => .ok []
  | seen, endpoint :: endpoints =>
    match canonicalizeUrl u nameprep keepAllPolicy endpoint.url with
    | .error e => if e.isValueError then collectUnique seen endpoints else .error e
    | .ok canonical =>
      if seen.contains canonical.normalized then collectUnique seen endpoints
      else (collectUnique (canonical.normalized :: seen) endpoints).map
        ({ endpoint with url := canonical.normalized } :: ·)

def uniqueEndpoints (endpoints : List DiscoveredEndpoint) :
    Except PyError (List DiscoveredEndpoint) := collectUnique u nameprep [] endpoints

/-- The canonical form of a listing page of the origin. -/
def listingForm (pageOrigin : Text) (link : HtmlArticleLink) : Option Text :=
  (listingLinkUrl u nameprep pageOrigin link.url).toOption.join

/-- The canonical form of an endpoint. -/
def endpointForm (endpoint : DiscoveredEndpoint) : Option Text :=
  (canonicalizeUrl u nameprep keepAllPolicy endpoint.url).toOption.map (·.normalized)

end definitions

/-! ### What the loops keep -/

section loops

variable {u : Unicode} {nameprep : Idna.Nameprep u} {pageOrigin : Text}

theorem raises_looksLikeListingPage (url : Text) : RaisesValueErrors (looksLikeListingPage u url) := by
  rw [looksLikeListingPage]
  refine raises_bind raises_looksLikeArticleUrl fun article _ => ?_
  split
  · exact raises_ok _
  · refine raises_bind raises_urlsplit fun parsed _ => ?_
    simp only
    split
    · exact raises_ok _
    · split
      · exact raises_ok _
      · split <;> exact raises_ok _

theorem raises_listingLinkUrl (hprepare : ∀ label, RaisesValueErrors (nameprep.prepare label))
    (url : Text) : RaisesValueErrors (listingLinkUrl u nameprep pageOrigin url) := by
  rw [listingLinkUrl]
  refine raises_bind (raises_originForUrl hprepare) fun origin _ => ?_
  split
  · exact raises_ok _
  · refine raises_bind (raises_looksLikeListingPage url) fun looks _ => ?_
    split
    · exact raises_ok _
    · exact raises_bind (raises_canonicalizeUrl hprepare) fun canonical _ => raises_ok _

/- The bounded loop takes the front of what an unbounded one would keep. -/
theorem collectListings_eq (hprepare : ∀ label, RaisesValueErrors (nameprep.prepare label))
    (room : ℕ) (seen : List Text) (links : List HtmlArticleLink) :
    collectListings u nameprep pageOrigin room seen links =
      .ok (((firstPerKey (listingForm u nameprep pageOrigin) seen links).take room).map
        fun p => listingEndpoint p.1) := by
  induction links generalizing room seen with
  | nil =>
    rw [firstPerKey, List.take_nil]
    cases room <;> rfl
  | cons link links ih =>
    cases room with
    | zero => rfl
    | succ room =>
      rw [collectListings]
      cases hlink : listingLinkUrl u nameprep pageOrigin link.url with
      | error e =>
        have hform : listingForm u nameprep pageOrigin link = none := by
          rw [listingForm, hlink]
          rfl
        simp only [raises_listingLinkUrl hprepare link.url e hlink, if_true]
        rw [ih, firstPerKey_none hform]
      | ok form =>
        have hform : listingForm u nameprep pageOrigin link = form := by
          rw [listingForm, hlink]
          rfl
        cases form with
        | none => rw [ih, firstPerKey_none hform]
        | some normalized =>
          simp only
          by_cases hseen : normalized ∈ seen
          · rw [if_pos (List.contains_iff_mem.mpr hseen), ih, firstPerKey_seen hform hseen]
          · rw [if_neg fun h => hseen (List.contains_iff_mem.mp h), ih,
              firstPerKey_new hform hseen, List.take_succ_cons, List.map_cons]
            rfl

theorem collectUnique_eq (hprepare : ∀ label, RaisesValueErrors (nameprep.prepare label))
    (seen : List Text) (endpoints : List DiscoveredEndpoint) :
    collectUnique u nameprep seen endpoints =
      .ok ((firstPerKey (endpointForm u nameprep) seen endpoints).map
        fun p => { p.2 with url := p.1 }) := by
  induction endpoints generalizing seen with
  | nil => rfl
  | cons endpoint endpoints ih =>
    rw [collectUnique]
    cases hcanonical : canonicalizeUrl u nameprep keepAllPolicy endpoint.url with
    | error e =>
      have hform : endpointForm u nameprep endpoint = none := by
        rw [endpointForm, hcanonical]
        rfl
      simp only [raises_canonicalizeUrl hprepare e hcanonical, if_true]
      rw [ih, firstPerKey_none hform]
    | ok canonical =>
      have hform : endpointForm u nameprep endpoint = some canonical.normalized := by
        rw [endpointForm, hcanonical]
        rfl
      simp only
      by_cases hseen : canonical.normalized ∈ seen
      · rw [if_pos (List.contains_iff_mem.mpr hseen), ih, firstPerKey_seen hform hseen]
      · rw [if_neg fun h => hseen (List.contains_iff_mem.mp h), ih, firstPerKey_new hform hseen]
        rfl

end loops

/-! ### The listing pages of a homepage -/

section listings

variable {u : Unicode} {nameprep : Idna.Nameprep u} {pageOrigin : Text}

/-- The link leads to a listing page of the origin, with this canonical form. -/
structure ListingLink (u : Unicode) (nameprep : Idna.Nameprep u) (pageOrigin : Text)
    (link : HtmlArticleLink) (form : Text) : Prop where
  origin : originForUrl u nameprep link.url = .ok pageOrigin
  listing : looksLikeListingPage u link.url = .ok true
  canonical : ∃ c, canonicalizeUrl u nameprep keepAllPolicy link.url = .ok c ∧ c.normalized = form

/-- The listing pages that the links lead to. -/
structure ListingsOf (u : Unicode) (nameprep : Idna.Nameprep u) (pageOrigin : Text)
    (links : List HtmlArticleLink) (forms : List Text) : Prop where
  distinct : forms.Nodup
  listed : ∀ form, form ∈ forms ↔ ∃ link ∈ links, ListingLink u nameprep pageOrigin link form
  /-- in the order of the page -/
  ordered : forms.Sublist (links.filterMap (listingForm u nameprep pageOrigin))

theorem listingForm_eq_some {link : HtmlArticleLink} {form : Text} :
    listingForm u nameprep pageOrigin link = some form ↔
      ListingLink u nameprep pageOrigin link form := by
  have hform : listingForm u nameprep pageOrigin link = some form ↔
      listingLinkUrl u nameprep pageOrigin link.url = .ok (some form) := by
    rw [listingForm]
    cases listingLinkUrl u nameprep pageOrigin link.url with
    | error e => exact iff_of_false nofun nofun
    | ok value =>
      rw [Except.ok.injEq]
      exact Iff.rfl
  rw [hform]
  constructor
  · intro h
    rw [listingLinkUrl] at h
    obtain ⟨origin, horigin, h⟩ := bind_ok h
    split at h
    · cases h
    · rename_i hsame
      obtain ⟨looks, hlooks, h⟩ := bind_ok h
      split at h
      · cases h
      · rename_i hlisting
        obtain ⟨c, hc, h⟩ := bind_ok h
        cases h
        rw [Decidable.not_not.mp hsame] at horigin
        rw [Bool.not_eq_true, Bool.not_eq_false'] at hlisting
        exact ⟨horigin, hlisting ▸ hlooks, c, hc, rfl⟩
  · rintro ⟨horigin, hlisting, c, hc, rfl⟩
    rw [listingLinkUrl, horigin, ok_bind, if_neg (not_not_intro rfl), hlisting, ok_bind, Bool.not_true,
      if_neg Bool.false_ne_true, hc]
    rfl

/- Whatever the links are, the endpoints are the front of the listing pages, as far as the limit
goes. -/
theorem discoverListingEndpoints_front (u : Unicode) (nameprep : Idna.Nameprep u)
    (hprepare : ∀ label, RaisesValueErrors (nameprep.prepare label)) (parsers : Parsers)
    (html : Bytes) (homepageUrl pageOrigin : Text) (parser : AnchorLinkParser)
    (hparser : (parsers.htmlCallbacks html).foldlM (AnchorLinkParser.handle u homepageUrl)
      { links := [], hrefStack := [], textStack := [] } = .ok parser)
    (horigin : originForUrl u nameprep homepageUrl = .ok pageOrigin) :
    ∃ forms, ListingsOf u nameprep pageOrigin parser.links forms ∧ ∀ maxEndpoints,
      discoverListingEndpoints u nameprep parsers html homepageUrl maxEndpoints =
        .ok ((forms.take maxEndpoints).map listingEndpoint) := by
  refine ⟨_, ⟨nodup_keys (listingForm u nameprep pageOrigin) [] parser.links, ?_,
    keys_sublist _ _ _⟩, ?_⟩
  · intro form
    rw [mem_keys, and_iff_right List.not_mem_nil]
    simp only [listingForm_eq_some]
  · intro maxEndpoints
    rw [discoverListingEndpoints, hparser, ok_bind, horigin, ok_bind, collectListings_eq hprepare,
      ← List.map_take, List.map_map]
    rfl

def sampleMenu : List String := ["/topics/space", "/about/news", "/topics/space", "/world"]

/- Two pages are listed once each, with room for one as with room for all. -/
theorem sampleMenu_front :
    ∃ forms : List Text, forms.length = 2 ∧
      discoverListingEndpoints asciiUnicode Idna.asciiNameprep (listingParsers sampleMenu)
        (listingPage sampleMenu) "https://a.in".toList 1 =
          .ok ((forms.take 1).map listingEndpoint) ∧
      discoverListingEndpoints asciiUnicode Idna.asciiNameprep (listingParsers sampleMenu)
        (listingPage sampleMenu) "https://a.in".toList 12 =
          .ok ((forms.take 12).map listingEndpoint) := by
  have hparsed : (((listingParsers sampleMenu).htmlCallbacks (listingPage sampleMenu)).foldlM
      (AnchorLinkParser.handle asciiUnicode "https://a.in".toList)
      { links := [], hrefStack := [], textStack := [] }).toOption.isSome = true := by
    decide +kernel
  obtain ⟨parser, hparser⟩ := Option.isSome_iff_exists.mp hparsed
  obtain ⟨forms, _, hfront⟩ := discoverListingEndpoints_front asciiUnicode Idna.asciiNameprep
    asciiNameprep_raises (listingParsers sampleMenu) (listingPage sampleMenu) "https://a.in".toList
    "https://a.in".toList parser (ok_of_toOption hparser) (by decide +kernel)
  have hall : (discoverListingEndpoints asciiUnicode Idna.asciiNameprep (listingParsers sampleMenu)
      (listingPage sampleMenu) "https://a.in".toList 12).toOption.map (·.length) = some 2 := by
    decide +kernel
  rw [hfront] at hall
  have hlength : ((forms.take 12).map listingEndpoint).length = 2 := Option.some.inj hall
  rw [List.length_map, List.length_take] at hlength
  exact ⟨forms, by omega, hfront 1, hfront 12⟩

end listings

end Newsintel.Sources
