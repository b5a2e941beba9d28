import Newsintel.Extractors.ExtractArticle
import Newsintel.Lib.Fields

/-!
# Paragraphs of a JSON-LD body

`_string_value` collapses all whitespace of `articleBody` before `_normalize_multiline` looks for
its lines, so the body becomes one paragraph, whatever its lines were.
-/

namespace Newsintel.Extractors

open PyText

variable {t body : Text}

/-! ### Normalised texts -/

/- The only whitespace left is a blank. -/
theorem isLineBreak_of_mem_normalizeText {c : Char} (hc : c ∈ normalizeText t) :
    isLineBreak c = false := by
  rw [normalizeText_eq] at hc
  rcases Idna.mem_intercalate hc with rfl | ⟨w, hw, hcw⟩
  · decide
  · by_contra hbreak
    have hspace := not_of_mem_splitOnP (List.mem_filter.mp hw).1 c hcw
    rw [isSpace_of_isLineBreak (by simpa using hbreak)] at hspace
    cases hspace

theorem newline_not_mem_normalizeText : '\n' ∉ normalizeText t := by
  intro hmem
  exact absurd (isLineBreak_of_mem_normalizeText hmem) (by decide)

theorem exists_mem_words {c : Char} : (∃ w ∈ words t, c ∈ w) ↔ c ∈ t ∧ isSpace c = false := by
  rw [← Fields.exists_mem_splitOnP]
  constructor
  · rintro ⟨w, hw, hc⟩
    exact ⟨w, (List.mem_filter.mp hw).1, hc⟩
  · rintro ⟨w, hw, hc⟩
    exact ⟨w, List.mem_filter.mpr ⟨hw, decide_eq_true (List.ne_nil_of_mem hc)⟩, hc⟩

/- The characters that are no whitespace stay. -/
theorem mem_normalizeText_iff {c : Char} (hc : isSpace c = false) :
    c ∈ normalizeText t ↔ c ∈ t := by
  have hnormal := exists_mem_words (t := normalizeText t) (c := c)
  rw [words_normalizeText, exists_mem_words, and_iff_left hc, and_iff_left hc] at hnormal
  exact hnormal.symm

/-! ### Lines of a body -/

/-- The lines of a body that are not blank, each normalised. -/
def bodyLines (body : Text) : List Text := ((splitlines body).map normalizeText).filter (· ≠ [])

theorem flatMap_words_normalized (ls : List Text) :
    ((ls.map normalizeText).filter (· ≠ [])).flatMap words = ls.flatMap words := by
  induction ls with
  | nil => rfl
  | cons l ls ih =>
    rw [List.map_cons, List.flatMap_cons]
    by_cases hl : normalizeText l = []
    · rw [List.filter_cons_of_neg (by simp [hl]), ih, normalizeText_eq_nil_iff.mp hl,
        List.nil_append]
    · rw [List.filter_cons_of_pos (by simp [hl]), List.flatMap_cons, ih, words_normalizeText]

theorem flatMap_words_bodyLines (body : Text) : (bodyLines body).flatMap words = words body := by
  rw [bodyLines, flatMap_words_normalized, flatMap_words_splitlines]

/- A body with one line is that line. -/
theorem bodyLines_eq_of_length (h : (bodyLines body).length = 1) :
    bodyLines body = [normalizeText body] := by
  obtain ⟨line, hline⟩ := List.length_eq_one_iff.mp h
  have hwords := flatMap_words_bodyLines body
  rw [hline, List.flatMap_singleton] at hwords
  have hmem : line ∈ bodyLines body := hline ▸ List.mem_singleton_self line
  obtain ⟨raw, -, rfl⟩ := List.mem_map.mp (List.mem_filter.mp hmem).1
  rw [hline, ← normalizeText_normalizeText raw, normalizeText_eq (normalizeText raw), hwords,
    ← normalizeText_eq]

/- The collapsed body has no line break left. -/
theorem normalizeMultiline_normalizeText (hne : normalizeText body ≠ []) :
    normalizeMultiline (normalizeText body) = normalizeText body := by
  rw [normalizeMultiline, splitlines_of_no_break (fun _ => isLineBreak_of_mem_normalizeText) hne,
    List.map_singleton, normalizeText_normalizeText, List.filter_cons_of_pos (by simpa using hne),
    List.filter_nil]
  exact List.intercalate_singleton

theorem countParagraphs_normalizeText (hne : normalizeText body ≠ []) :
    countParagraphs (normalizeText body) = 1 := by
  rw [countParagraphs, splitBlank_of_no_break newline_not_mem_normalizeText,
    List.filter_cons_of_pos (by simpa using hne)]
  rfl

theorem extractText_of_body {item : JsonObject} {paragraphs : ParagraphExtractionResult}
    {optional : Option Text} (hbody : item.lookup "articleBody".toList = some (.string body))
    (hlong : 200 ≤ (normalizeText body).length) :
    extractText (some item) paragraphs optional = bodyText (normalizeText body) := by
  have hvalue : jsonLdBody (some item) = some (normalizeText body) := by
    rw [jsonLdBody, Option.bind_some, stringMember, hbody]
    rfl
  rw [extractText, hvalue]
  exact if_pos hlong

/-! ### The article of a page -/

section page

variable {u : Unicode} {libs : ExtractorLibraries} {html : Bytes} {baseUrl : Text}
  {article : ExtractedArticle} {page : ReadPage}

/- The steps of an extraction that returns. -/
theorem extractArticleHtml_ok_iff : extractArticleHtml u libs html baseUrl = .ok article ↔
    ∃ page publishedAt modifiedAt digest, readPage u libs html baseUrl = .ok page ∧
      pagePublishedAt libs page = .ok publishedAt ∧ pageModifiedAt libs page = .ok modifiedAt ∧
      contentSha256 libs (pageText u libs html baseUrl page).textContent = .ok digest ∧
      article.toArticleParts = pageParts u libs html baseUrl page publishedAt modifiedAt ∧
      article.contentSha256 = digest ∧ article.warnings = extractionWarnings u page.policy
        (Sources.decodeHtml html) article.toArticleParts := by
  unfold extractArticleHtml
  constructor
  · intro h
    obtain ⟨page, hpage, h⟩ := bind_ok h
    obtain ⟨publishedAt, hpublished, h⟩ := bind_ok h
    obtain ⟨modifiedAt, hmodified, h⟩ := bind_ok h
    obtain ⟨digest, hdigest, h⟩ := bind_ok h
    obtain rfl := Except.ok.inj h
    exact ⟨page, publishedAt, modifiedAt, digest, hpage, hpublished, hmodified, hdigest, rfl, rfl,
      rfl⟩
  · rintro ⟨page, publishedAt, modifiedAt, digest, hpage, hpublished, hmodified, hdigest, hparts,
      hsha, hwarnings⟩
    obtain ⟨parts, sha, warnings⟩ := article
    obtain rfl : parts = pageParts u libs html baseUrl page publishedAt modifiedAt := hparts
    obtain rfl : sha = digest := hsha
    obtain rfl : warnings = extractionWarnings u page.policy (Sources.decodeHtml html)
      (pageParts u libs html baseUrl page publishedAt modifiedAt) := hwarnings
    simp only [hpage, hpublished, hmodified, ok_bind]
    show (contentSha256 libs (pageText u libs html baseUrl page).textContent >>= _) = _
    rw [hdigest]
    rfl

/- The text is chosen from the page that was read. -/
theorem extractArticleHtml_text (hpage : readPage u libs html baseUrl = .ok page)
    (h : extractArticleHtml u libs html baseUrl = .ok article) :
    article.extracted = pageText u libs html baseUrl page := by
  obtain ⟨page', publishedAt, modifiedAt, digest, hpage', -, -, -, hparts, -⟩ :=
    extractArticleHtml_ok_iff.mp h
  obtain rfl := Except.ok.inj (hpage.symm.trans hpage')
  rw [hparts]
  rfl

theorem extractArticleHtml_score (hpage : readPage u libs html baseUrl = .ok page)
    (h : extractArticleHtml u libs html baseUrl = .ok article) :
    article.extractionQualityScore =
      (pageText u libs html baseUrl page).score page.article.isSome := by
  obtain ⟨page', publishedAt, modifiedAt, digest, hpage', -, -, -, hparts, -⟩ :=
    extractArticleHtml_ok_iff.mp h
  obtain rfl := Except.ok.inj (hpage.symm.trans hpage')
  rw [hparts]
  rfl

/- A long JSON-LD body is taken, whatever else is on the page. -/
theorem pageText_of_body {item : JsonObject} (hitem : page.article = some item)
    (hbody : item.lookup "articleBody".toList = some (.string body))
    (hlong : 200 ≤ (normalizeText body).length) :
    pageText u libs html baseUrl page = bodyText (normalizeText body) := by
  rw [pageText, hitem, extractText_of_body hbody hlong]

theorem contentSha256_ok_iff {text : Text} : (∃ digest, contentSha256 libs text = .ok digest) ↔
    ∀ c ∈ text, libs.surrogate c = false := by
  rw [contentSha256]
  split
  · rename_i h
    obtain ⟨c, hc, hsurrogate⟩ := List.any_eq_true.mp h
    refine iff_of_false (fun h => nomatch h) fun h => ?_
    rw [h c hc] at hsurrogate
    cases hsurrogate
  · rename_i h
    rw [Bool.not_eq_true, List.any_eq_false] at h
    exact iff_of_true ⟨_, rfl⟩ fun c hc => Bool.eq_false_iff.mpr (h c hc)

/-- The exceptions that the date parsers are documented to raise. -/
structure DocumentedDates (parsers : Acquisition.Parsers) : Prop where
  fromisoformat : ∀ text e, parsers.fromisoformat text = .error e → e.isValueError = true
  parsedateToDatetime : ∀ text e, parsers.parsedateToDatetime text = .error e →
    e.isValueError = true ∨ e ∈ [PyError.typeError, .lookupError, .overflowError]

/- `_parse_datetime` catches all of them. -/
theorem parseDatetime_returns {parsers : Acquisition.Parsers} (hdates : DocumentedDates parsers)
    (value : Option Text) : ∃ parsed, parseDatetime parsers value = .ok parsed := by
  unfold parseDatetime
  split
  · exact ⟨none, rfl⟩
  · split
    · exact ⟨_, rfl⟩
    · rename_i e hiso
      rw [if_pos (hdates.fromisoformat _ e hiso)]
      split
      · exact ⟨_, rfl⟩
      · rename_i e hmail
        have hcaught : (e.isValueError || [.typeError, .lookupError, .overflowError].contains e) =
            true := by
          rw [Bool.or_eq_true, List.contains_iff_mem]
          exact hdates.parsedateToDatetime _ e hmail
        rw [if_pos hcaught]
        exact ⟨none, rfl⟩

theorem firstDatetime_returns {parsers : Acquisition.Parsers} (hdates : DocumentedDates parsers)
    (values : List (Option Text)) : ∃ parsed, firstDatetime parsers values = .ok parsed := by
  induction values with
  | nil => exact ⟨none, rfl⟩
  | cons value values ih =>
    obtain ⟨parsed, hparsed⟩ := parseDatetime_returns hdates value
    rw [firstDatetime, hparsed, ok_bind]
    cases parsed with
    | none => exact ih
    | some parsed => exact ⟨_, rfl⟩

/- Once the page is read, only the digest of the text can fail. -/
theorem extractArticleHtml_returns_iff (hdates : DocumentedDates libs.parsers)
    (hpage : readPage u libs html baseUrl = .ok page) :
    (∃ article, extractArticleHtml u libs html baseUrl = .ok article) ↔
      ∀ c ∈ (pageText u libs html baseUrl page).textContent, libs.surrogate c = false := by
  rw [← contentSha256_ok_iff]
  constructor
  · rintro ⟨article, h⟩
    obtain ⟨page', _, _, digest, hpage', -, -, hdigest, -⟩ := extractArticleHtml_ok_iff.mp h
    obtain rfl := Except.ok.inj (hpage.symm.trans hpage')
    exact ⟨digest, hdigest⟩
  · rintro ⟨digest, hdigest⟩
    obtain ⟨publishedAt, hpublished⟩ : ∃ publishedAt, pagePublishedAt libs page = .ok publishedAt :=
      firstDatetime_returns hdates _
    obtain ⟨modifiedAt, hmodified⟩ : ∃ modifiedAt, pageModifiedAt libs page = .ok modifiedAt :=
      firstDatetime_returns hdates _
    let parts := pageParts u libs html baseUrl page publishedAt modifiedAt
    let warnings := extractionWarnings u page.policy (Sources.decodeHtml html) parts
    exact ⟨⟨parts, digest, warnings⟩, extractArticleHtml_ok_iff.mpr ⟨page, publishedAt, modifiedAt,
      digest, hpage, hpublished, hmodified, hdigest, rfl, rfl, rfl⟩⟩

/-! ### The lines of the body -/

/-- The text has the lines of the body as its paragraphs, and they are counted. -/
def KeepsLines (body : Text) (extracted : ExtractedText) : Prop :=
  extracted.textContent = joinParagraphs (bodyLines body) ∧
    extracted.acceptedBlockCount = (bodyLines body).length

theorem bodyText_keepsLines_iff (hne : normalizeText body ≠ []) :
    KeepsLines body (bodyText (normalizeText body)) ↔ (bodyLines body).length = 1 := by
  rw [KeepsLines, bodyText, normalizeMultiline_normalizeText hne,
    countParagraphs_normalizeText hne]
  constructor
  · rintro ⟨-, hcount⟩
    exact hcount.symm
  · intro hone
    rw [bodyLines_eq_of_length hone]
    exact ⟨List.intercalate_singleton.symm, rfl⟩

theorem articleBody_keepsLines_iff (u : Unicode) (libs : ExtractorLibraries) (html : Bytes)
    (baseUrl : Text) (page : ReadPage) (item : JsonObject) (body : Text)
    (hdates : DocumentedDates libs.parsers) (hpage : readPage u libs html baseUrl = .ok page)
    (hitem : page.article = some item)
    (hbody : item.lookup "articleBody".toList = some (.string body))
    (hlong : 200 ≤ (normalizeText body).length) :
    (∃ article, extractArticleHtml u libs html baseUrl = .ok article ∧
        KeepsLines body article.extracted) ↔
      (bodyLines body).length = 1 ∧ ∀ c ∈ body, libs.surrogate c = false := by
  have hne : normalizeText body ≠ [] := by
    intro hnil
    rw [hnil] at hlong
    cases hlong
  have htext : pageText u libs html baseUrl page = bodyText (normalizeText body) :=
    pageText_of_body hitem hbody hlong
  have hreturns := extractArticleHtml_returns_iff hdates hpage
  have hencoded : (∀ c ∈ (pageText u libs html baseUrl page).textContent,
      libs.surrogate c = false) ↔ ∀ c ∈ body, libs.surrogate c = false := by
    rw [htext, bodyText, normalizeMultiline_normalizeText hne]
    have hkept : ∀ c, libs.surrogate c = true → (c ∈ normalizeText body ↔ c ∈ body) :=
      fun c hc => mem_normalizeText_iff (libs.surrogate_not_space c hc)
    constructor
    · intro h c hc
      by_contra hsurrogate
      exact hsurrogate (h c ((hkept c (Bool.not_eq_false _ ▸ hsurrogate)).mpr hc))
    · intro h c hc
      by_contra hsurrogate
      exact hsurrogate (h c ((hkept c (Bool.not_eq_false _ ▸ hsurrogate)).mp hc))
  rw [← hencoded, ← hreturns, ← bodyText_keepsLines_iff hne, ← htext]
  constructor
  · rintro ⟨article, harticle, hkeeps⟩
    rw [extractArticleHtml_text hpage harticle] at hkeeps
    exact ⟨hkeeps, article, harticle⟩
  · rintro ⟨hkeeps, article, harticle⟩
    rw [← extractArticleHtml_text hpage harticle] at hkeeps
    exact ⟨article, harticle, hkeeps⟩

end page

/-! ### A body of one line, and of two lines -/

/-- One sentence, four times over. -/
def sentences : Text :=
  (List.replicate 4 "The panel will see its records. ".toList).flatten

def jsonLdItem (body : Text) : JsonObject :=
  [("@type".toList, .string "NewsArticle".toList), ("articleBody".toList, .string body)]

/-- The JSON text of the item, for a body without quotation marks and backslashes. -/
def jsonLdScript (body : Text) : Text :=
  "\x7b\"@type\": \"NewsArticle\", \"articleBody\": \"".toList ++
    body.flatMap (fun c => if c = '\n' then "\\n".toList else [c]) ++ "\"\x7d".toList

/-- A page with nothing but a JSON-LD script. -/
def scriptPage (script : Text) : Bytes :=
  (Utf8.encode ("<script type=\"application/ld+json\">".toList ++ script ++
    "</script>".toList)).map UInt8.ofNat

def scriptCallbacks (script : Text) : List Callback :=
  [.starttag "script".toList [("type".toList, some "application/ld+json".toList)], .data script,
    .endtag "script".toList]

/-- What the libraries make of such a page and of its script. -/
def scriptLibraries (script : Text) (payload : Json) : ExtractorLibraries where
  parsers :=
    { fromstring := fun _ => .error .valueError
      htmlCallbacks := fun _ => scriptCallbacks script
      fromisoformat := fun _ => .error .valueError
      parsedateToDatetime := fun _ => .error .valueError }
  loads := fun _ => .ok payload
  trafilatura := fun _ _ => none
  surrogate := fun _ => false
  surrogate_not_space := fun _ h => nomatch h

def jsonLdLibraries (body : Text) : ExtractorLibraries :=
  scriptLibraries (jsonLdScript body) (.object (jsonLdItem body))

theorem documentedDates_script (script : Text) (payload : Json) :
    DocumentedDates (scriptLibraries script payload).parsers where
  fromisoformat := by
    rintro _ _ ⟨⟩
    rfl
  parsedateToDatetime := by
    rintro _ _ ⟨⟩
    exact Or.inl rfl

def storyUrl : Text := "https://example.com/story".toList

/-- A page with a script, as it is read. -/
def readScript (script : Text) (item : JsonObject) : ReadPage where
  policy := none
  parser := { newParser with jsonLdScripts := [script] }
  article := some item

theorem readPage_script {script : Text} {payload : Json} {item : JsonObject}
    (hfeed : feed asciiUnicode storyUrl none newParser (scriptCallbacks script) =
      .ok (readScript script item).parser)
    (hselect : (iterJsonLdObjects (fun _ => .ok payload) [script]).map
      (selectArticleJsonLd asciiUnicode) = .ok (some item)) :
    readPage asciiUnicode (scriptLibraries script payload) (scriptPage script) storyUrl =
      .ok (readScript script item) := by
  have hpolicy : policyForUrl asciiUnicode storyUrl = .ok none := by decide +kernel
  have hparser : feed asciiUnicode storyUrl none newParser
      ((scriptLibraries script payload).parsers.htmlCallbacks (scriptPage script)) =
        .ok (readScript script item).parser := hfeed
  obtain ⟨objects, hobjects, hitem⟩ : ∃ objects,
      iterJsonLdObjects (scriptLibraries script payload).loads [script] = .ok objects ∧
        selectArticleJsonLd asciiUnicode objects = some item := by
    cases hiter : iterJsonLdObjects (fun _ => .ok payload) [script] with
    | error e =>
      rw [hiter] at hselect
      cases hselect
    | ok objects =>
      rw [hiter] at hselect
      exact ⟨objects, hiter, Except.ok.inj hselect⟩
  have hscripts : iterJsonLdObjects (scriptLibraries script payload).loads
      (readScript script item).parser.jsonLdScripts = .ok objects := hobjects
  simp only [readPage, hpolicy, ok_bind, hparser, hscripts, hitem]
  rfl

def oneLine : Text := sentences ++ sentences

def twoLines : Text := sentences ++ '\n' :: sentences

theorem readPage_oneLine : readPage asciiUnicode (jsonLdLibraries oneLine)
    (scriptPage (jsonLdScript oneLine)) storyUrl =
      .ok (readScript (jsonLdScript oneLine) (jsonLdItem oneLine)) :=
  readPage_script (by decide +kernel) rfl

theorem readPage_twoLines : readPage asciiUnicode (jsonLdLibraries twoLines)
    (scriptPage (jsonLdScript twoLines)) storyUrl =
      .ok (readScript (jsonLdScript twoLines) (jsonLdItem twoLines)) :=
  readPage_script (by decide +kernel) rfl

theorem pageText_oneLine : pageText asciiUnicode (jsonLdLibraries oneLine)
    (scriptPage (jsonLdScript oneLine)) storyUrl
      (readScript (jsonLdScript oneLine) (jsonLdItem oneLine)) =
        bodyText (normalizeText oneLine) :=
  pageText_of_body rfl rfl (by decide +kernel)

/- Sentences on one line stay one paragraph. -/
theorem oneLine_keepsLines :
    ∃ article, extractArticleHtml asciiUnicode (jsonLdLibraries oneLine)
        (scriptPage (jsonLdScript oneLine)) storyUrl = .ok article ∧
      KeepsLines oneLine article.extracted :=
  (articleBody_keepsLines_iff _ _ _ _ _ _ _ (documentedDates_script _ _) readPage_oneLine rfl rfl
    (by decide +kernel)).mpr ⟨by decide +kernel, fun _ _ => rfl⟩

/- Two lines become one paragraph as well. -/
theorem twoLines_not_kept :
    ¬ ∀ (u : Unicode) (libs : ExtractorLibraries) (html : Bytes) (baseUrl : Text)
      (page : ReadPage) (item : JsonObject) (body : Text), DocumentedDates libs.parsers →
        readPage u libs html baseUrl = .ok page → page.article = some item →
        item.lookup "articleBody".toList = some (.string body) →
        200 ≤ (normalizeText body).length →
          ∃ article, extractArticleHtml u libs html baseUrl = .ok article ∧
            KeepsLines body article.extracted := by
  intro h
  have hlong : 200 ≤ (normalizeText twoLines).length := by decide +kernel
  obtain ⟨article, harticle, hlines⟩ := h _ _ _ _ _ _ _ (documentedDates_script _ _)
    readPage_twoLines rfl rfl hlong
  rw [extractArticleHtml_text readPage_twoLines harticle, pageText_of_body rfl rfl hlong] at hlines
  exact absurd hlines.2 (by decide +kernel)

end Newsintel.Extractors
