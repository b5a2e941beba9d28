import Newsintel.Lib.PyUrl
import Newsintel.Lib.Table

/-!
# The article HTML parser (adapters/extractors/article_html.py)

`_ArticleHTMLParser` as a state and its three callbacks. The stacks are written
top first. Only `urljoin` on a `link` element can raise.
-/

namespace Newsintel.Extractors

open PyText

def skipTags : List Text :=
  ["script", "style", "noscript", "svg", "canvas", "iframe", "nav", "header", "footer", "aside",
    "form", "button", "select", "textarea"].map String.toList

def blockTags : List Text :=
  ["p", "li", "blockquote", "h1", "h2", "h3", "h4", "h5", "h6"].map String.toList

/-- `_SKIP_ATTRIBUTE_TOKENS`. -/
def skipAttributeTokenSet : List Text :=
  ["ad", "ads", "advert", "advertisement", "banner", "comments", "consent", "cookie", "footer",
    "gallery", "header", "login", "modal", "newsletter", "paywall", "promo", "promoted",
    "recommend", "related", "share", "signin", "social", "sponsor", "sponsored", "subscription",
    "video"].map String.toList

/-- `_SKIP_ATTRIBUTE_PHRASES`. -/
def skipAttributePhraseList : List Text :=
  ["more from", "paid post", "read more", "related content", "share this", "sign in",
    "subscribe"].map String.toList

/-- `_ExtractionPolicy` (lines 131-138). -/
structure ExtractionPolicy where
  name : Text
  domainSuffixes : List Text
  lowValuePhrases : List Text
  skipAttributeTokens : List Text
  skipAttributePhrases : List Text
  paywallOrPartialPhrases : List Text
  deriving DecidableEq, Repr

def skipAttributeTokens : Option ExtractionPolicy → List Text
  | none => skipAttributeTokenSet
  | some policy => skipAttributeTokenSet ++ policy.skipAttributeTokens

def skipAttributePhrases : Option ExtractionPolicy → List Text
  | none => skipAttributePhraseList
  | some policy => skipAttributePhraseList ++ policy.skipAttributePhrases

/-- `_normalize_text` of a string (lines 531-534). -/
def normalizeText (value : Text) : Text := if value = [] then [] else strip (collapse value)

theorem normalizeText_eq (value : Text) : normalizeText value = join (words value) := by
  unfold normalizeText
  split
  · rename_i h
    rw [h, words_nil, join_nil]
  · exact strip_collapse value

theorem words_normalizeText (t : Text) : words (normalizeText t) = words t := by
  rw [normalizeText_eq, words_join_words]

theorem normalizeText_normalizeText (t : Text) :
    normalizeText (normalizeText t) = normalizeText t := by
  rw [normalizeText_eq (normalizeText t), words_normalizeText, ← normalizeText_eq]

theorem normalizeText_eq_nil_iff {t : Text} : normalizeText t = [] ↔ words t = [] := by
  rw [normalizeText_eq]
  exact join_eq_nil fun _ => ne_nil_of_mem_words

/-! ### Attributes -/

abbrev Attrs := List (Text × Option Text)
abbrev AttrMap := List (Text × Text)

/-- `attr_map` (lines 245-248): lower-cased keys, the last value of a key. -/
def attrMap (u : Unicode) (attrs : Attrs) : AttrMap :=
  attrs.foldl (fun d a => Table.set (u.lower a.1) (strip (a.2.getD [])) d) []

/-- `attr_map.get(key)`, `""` when absent. -/
def attr (m : AttrMap) (key : String) : Text := (m.lookup key.toList).getD []

/-- `a or b or ...`: the first non-empty text. -/
def firstNonEmpty (ts : List Text) : Text := (ts.find? (· ≠ [])).getD []

/-- Keys read by `_should_skip_by_attributes`. -/
def relevantKeys : List Text :=
  ["aria-label", "class", "data-component", "data-testid", "data-type", "id", "role"].map
    String.toList

/-- `[a-z0-9]`. -/
def isTokenChar (c : Char) : Bool := ('a' ≤ c && c ≤ 'z') || ('0' ≤ c && c ≤ '9')

/-- `_ATTRIBUTE_TOKEN_PATTERN.findall(joined.replace("-", " "))`. -/
def attributeTokens (joined : Text) : List Text :=
  ((joined.map fun c => if c = '-' then ' ' else c).splitOnP (!isTokenChar ·)).filter (· ≠ [])

/-- `_should_skip_by_attributes` (lines 693-721). -/
def shouldSkipByAttributes (u : Unicode) (policy : Option ExtractionPolicy) (tagName : Text)
    (m : AttrMap) : Bool :=
  if (["article", "main", "body", "html"].map String.toList).contains tagName then false
  else
    let relevantValues := (m.filter fun a => relevantKeys.contains a.1).map Prod.snd
    if relevantValues = [] then false
    else
      let joined := u.lower (join relevantValues)
      (attributeTokens joined).any (skipAttributeTokens policy).contains ||
        (skipAttributePhrases policy).any (contains · joined)

/-- Classification of a start tag as skipped (line 282). -/
def skipped (u : Unicode) (policy : Option ExtractionPolicy) (tag : Text) (attrs : Attrs) : Bool :=
  skipTags.contains (u.lower tag) ||
    shouldSkipByAttributes u policy (u.lower tag) (attrMap u attrs)

/-! ### The parser -/

structure TextBlock where
  tag : Text
  pieces : List Text
  deriving DecidableEq, Repr

/-- `_ArticleHTMLParser` (lines 219-237); `metaValues` is `meta`. -/
structure ArticleHtmlParser where
  titleParts : List Text
  blocks : List Text
  metaValues : List (Text × List Text)
  links : List (Text × Text)
  jsonLdScripts : List Text
  htmlLanguage : Option Text
  skipDepth : ℤ
  skipStack : List Text
  inTitle : Bool
  captureJsonLd : Bool
  scriptParts : List Text
  blockStack : List TextBlock
  deriving DecidableEq, Repr

/-- `__init__`. -/
def newParser : ArticleHtmlParser where
  titleParts := []
  blocks := []
  metaValues := []
  links := []
  jsonLdScripts := []
  htmlLanguage := none
  skipDepth := 0
  skipStack := []
  inTitle := false
  captureJsonLd := false
  scriptParts := []
  blockStack := []

/-- Lines 250-253. -/
def recordLanguage (tagName : Text) (m : AttrMap) (language : Option Text) : Option Text :=
  let value := firstNonEmpty [attr m "lang", attr m "xml:lang"]
  if tagName = "html".toList && value ≠ [] then some value else language

/-- Lines 258-267. -/
def recordMeta (u : Unicode) (tagName : Text) (m : AttrMap) (known : List (Text × List Text)) :
    List (Text × List Text) :=
  let content := attr m "content"
  let key := firstNonEmpty [attr m "property", attr m "name", attr m "itemprop",
    attr m "http-equiv"]
  if tagName = "meta".toList && key ≠ [] && content ≠ [] then
    Table.set (u.lower key) ((known.lookup (u.lower key)).getD [] ++ [content]) known
  else known

/-- Lines 269-274. -/
def recordLinks (u : Unicode) (baseUrl tagName : Text) (m : AttrMap)
    (links : List (Text × Text)) : Except PyError (List (Text × Text)) :=
  if tagName = "link".toList && attr m "href" ≠ [] then
    (words (u.lower (attr m "rel"))).foldlM (fun links relation => do
      let target ← PyUrl.urljoin u baseUrl (attr m "href")
      return Table.set relation target links) links
  else .ok links

/-- Lines 276-280. -/
def opensJsonLd (u : Unicode) (tagName : Text) (m : AttrMap) : Bool :=
  tagName = "script".toList && contains "ld+json".toList (u.lower (attr m "type"))

/-- The part of `handle_starttag` before the skip decision (lines 250-280). -/
def recordHead (u : Unicode) (baseUrl tagName : Text) (m : AttrMap) (st : ArticleHtmlParser) :
    Except PyError ArticleHtmlParser := do
  let links ← recordLinks u baseUrl tagName m st.links
  return { st with
    htmlLanguage := recordLanguage tagName m st.htmlLanguage
    inTitle := st.inTitle || tagName = "title".toList
    metaValues := recordMeta u tagName m st.metaValues
    links := links
    captureJsonLd := st.captureJsonLd || opensJsonLd u tagName m
    scriptParts := if opensJsonLd u tagName m then [] else st.scriptParts }

/-- The skip decision and the block stack (lines 282-292). -/
def openElement (skip : Bool) (tagName : Text) (st : ArticleHtmlParser) : ArticleHtmlParser :=
  let opens := !skip && st.skipDepth = 0 && blockTags.contains tagName
  { st with
    skipDepth := if skip then st.skipDepth + 1 else st.skipDepth
    skipStack := if skip then tagName :: st.skipStack else st.skipStack
    blockStack :=
      if opens then { tag := tagName, pieces := [] } :: st.blockStack else st.blockStack }

/-- `handle_starttag` (lines 239-292). -/
def handleStarttag (u : Unicode) (baseUrl : Text) (policy : Option ExtractionPolicy) (tag : Text)
    (attrs : Attrs) (st : ArticleHtmlParser) : Except PyError ArticleHtmlParser := do
  let st ← recordHead u baseUrl (u.lower tag) (attrMap u attrs) st
  return openElement (skipped u policy tag attrs) (u.lower tag) st

/-- Lines 297-305: the end of a title and of a captured script. -/
def closeHead (tagName : Text) (st : ArticleHtmlParser) : ArticleHtmlParser :=
  let ends := tagName = "script".toList && st.captureJsonLd
  let script := strip st.scriptParts.flatten
  { st with
    inTitle := st.inTitle && tagName ≠ "title".toList
    jsonLdScripts := if ends && script ≠ [] then st.jsonLdScripts ++ [script] else st.jsonLdScripts
    captureJsonLd := st.captureJsonLd && !ends
    scriptParts := if ends then [] else st.scriptParts }

/-- The pops of lines 308-312: down to the innermost entry with the name. -/
def popSkipped (tagName : Text) : List Text → ℤ → List Text × ℤ
  | [], depth => ([], depth)
  | t :: rest, depth =>
    if t = tagName then (rest, depth - 1) else popSkipped tagName rest (depth - 1)

/-- `block_stack.pop(index)` at the innermost block with the name (lines 316-326). -/
def popBlock (tagName : Text) : List TextBlock → Option (TextBlock × List TextBlock)
  | [] => none
  | b :: rest =>
    if b.tag = tagName then some (b, rest)
    else (popBlock tagName rest).map fun r => (r.1, b :: r.2)

/-- `block_stack[-1].pieces.append(data)`, if a block is open. -/
def appendPiece (data : Text) : List TextBlock → List TextBlock
  | [] => []
  | b :: rest => { b with pieces := b.pieces ++ [data] } :: rest

/-- Lines 315-331. -/
def closeBlock (tagName : Text) (st : ArticleHtmlParser) : ArticleHtmlParser :=
  match popBlock tagName st.blockStack with
  | none => st
  | some (block, rest) =>
    let text := normalizeText (join block.pieces)
    { st with
      blocks := if text = [] then st.blocks else st.blocks ++ [text]
      blockStack := if text = [] then rest else appendPiece text rest }

/-- Lines 307-331: the end of a skipped element or of a block. -/
def closeElement (tagName : Text) (st : ArticleHtmlParser) : ArticleHtmlParser :=
  if st.skipDepth > 0 && st.skipStack.contains tagName then
    let (skipStack, skipDepth) := popSkipped tagName st.skipStack st.skipDepth
    { st with skipStack, skipDepth }
  else if blockTags.contains tagName then closeBlock tagName st
  else st

/-- `handle_endtag` (lines 294-331). -/
def handleEndtag (u : Unicode) (tag : Text) (st : ArticleHtmlParser) : ArticleHtmlParser :=
  closeElement (u.lower tag) (closeHead (u.lower tag) st)

/-- `handle_data` (lines 333-343). -/
def handleData (data : Text) (st : ArticleHtmlParser) : ArticleHtmlParser :=
  if st.captureJsonLd then { st with scriptParts := st.scriptParts ++ [data] }
  else if st.inTitle then { st with titleParts := st.titleParts ++ [data] }
  else if st.skipDepth > 0 then st
  else { st with blockStack := appendPiece data st.blockStack }

/-- A callback of `HTMLParser`. -/
inductive Callback where
  | starttag (tag : Text) (attrs : Attrs)
  | endtag (tag : Text)
  | data (data : Text)
  deriving DecidableEq, Repr

def handle (u : Unicode) (baseUrl : Text) (policy : Option ExtractionPolicy)
    (st : ArticleHtmlParser) : Callback → Except PyError ArticleHtmlParser
  | .starttag tag attrs => handleStarttag u baseUrl policy tag attrs st
  | .endtag tag => .ok (handleEndtag u tag st)
  | .data data => .ok (handleData data st)

/-- The callbacks of a document, one after the other. -/
def feed (u : Unicode) (baseUrl : Text) (policy : Option ExtractionPolicy)
    (st : ArticleHtmlParser) (cs : List Callback) : Except PyError ArticleHtmlParser :=
  cs.foldlM (handle u baseUrl policy) st

end Newsintel.Extractors
