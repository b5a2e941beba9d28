import Newsintel.Acquisition.FeedDates
import Newsintel.Articles.BatchIsolation
import Newsintel.Articles.RecordedOutcome
import Newsintel.Extractors.ScoredArticle

/-!
# Which pages become articles (application/articles/processing.py, with article_html.py)

The processor with the extractor of the repository. It saves the article of a page exactly where
the page has a text of enough quality, with no phrase of a paywall in it, and, if the page has one
elsewhere, of some length.
-/

namespace Newsintel.Articles

open PyText Acquisition Logged
open Extractors (ExtractorLibraries ExtractionPolicy ExtractionMethod ExtractionWarning
  extractArticleHtml extractionWarnings paywallOrPartialPhrases matchingPhrases readPage)

/-! ### The extractor behind the processor -/

/-- `extraction_method`. -/
def methodText : ExtractionMethod → Text
  | .jsonLdArticleBody => "json_ld_article_body".toList
  | .visibleTextBlocks => "visible_text_blocks".toList
  | .trafilaturaFallback => "trafilatura_fallback".toList

/-- The fields of an article that the processor passes on; `str` writes the score. -/
def toExtraction (str : ℚ → Text) (article : Extractors.ExtractedArticle) : Extraction where
  title := article.title
  byline := article.byline
  publishedAt := article.publishedAt.map (·.instant)
  language := article.language
  canonicalUrl := article.canonicalUrl
  textContent := article.extracted.textContent
  contentSha256 := article.contentSha256
  extractionMethod := methodText article.extracted.extractionMethod
  warnings := article.warnings.map (·.text)
  qualityScore := str article.extractionQualityScore

/-- The call of `extract_article_html`; `raised` is the exception for an error of its steps. -/
def extractPage (u : Unicode) (libs : ExtractorLibraries) (str : ℚ → Text)
    (raised : PyError → PyException) (html : Bytes) (baseUrl : Text) :
    Except PyException Extraction :=
  match extractArticleHtml u libs html baseUrl with
  | .ok article => .ok (toExtraction str article)
  | .error e => .error (raised e)

/-! ### What the checks ask for -/

/-- A page whose article passes the checks of the processor. -/
structure Publishable (u : Unicode) (policy : Option ExtractionPolicy) (decoded : Text)
    (article : Extractors.ExtractedArticle) : Prop where
  text : article.extracted.textContent ≠ []
  quality : 45 / 100 ≤ article.extractionQualityScore
  unlocked : ∀ phrase ∈ paywallOrPartialPhrases policy,
    ¬ phrase <:+: u.lower article.extracted.textContent
  whole : (∀ phrase ∈ paywallOrPartialPhrases policy, ¬ phrase <:+: u.lower decoded) ∨
    300 ≤ Extractors.wordCount article.extracted.textContent

section checks

variable {u : Unicode} {policy : Option ExtractionPolicy} {decoded value : Text}
  {phrases : List Text} {article : Extractors.ExtractedArticle} {x : Extraction} {str : ℚ → Text}

theorem matchingPhrases_eq_nil_iff :
    matchingPhrases u value phrases = [] ↔ ∀ phrase ∈ phrases, ¬ phrase <:+: u.lower value := by
  rw [matchingPhrases, List.filter_eq_nil_iff]
  simp only [contains, decide_eq_true_eq]

theorem fatalExtractionWarnings_eq : fatalExtractionWarnings =
    [ExtractionWarning.lowExtractionQuality, .missingTextContent, .possiblePaywallOrPartialContent,
      .possibleSubscriptionBoilerplate].map (·.text) := rfl

theorem warningText_injective : Function.Injective ExtractionWarning.text := by
  intro v w h
  cases v <;> cases w <;> first | rfl | exact absurd h (by decide)

theorem raiseForMissingText_ok_iff :
    raiseForMissingText x = .ok () ↔ x.textContent ≠ [] := by
  unfold raiseForMissingText
  split_ifs with htext
  · exact iff_of_false nofun fun hne => hne htext
  · exact iff_of_true rfl htext

theorem raiseForUnacceptableExtraction_ok_iff :
    raiseForUnacceptableExtraction x = .ok () ↔ ∀ w ∈ fatalExtractionWarnings, w ∉ x.warnings := by
  constructor
  · intro h w hw hmem
    exact raiseForUnacceptableExtraction_ok h w hmem hw
  · intro h
    have hnone : fatalExtractionWarnings.filter (x.warnings.contains ·) = [] := by
      rw [List.filter_eq_nil_iff]
      intro w hw hmem
      exact h w hw (List.contains_iff_mem.mp hmem)
    rw [raiseForUnacceptableExtraction, hnone, if_pos rfl]

theorem mem_warnIf {c : Prop} [Decidable c] {v w : ExtractionWarning} :
    w ∈ (if c then [v] else []) ↔ c ∧ w = v := by
  split_ifs with hc
  · rw [List.mem_singleton, and_iff_right hc]
  · exact iff_of_false List.not_mem_nil fun h => hc h.1

theorem mem_warnText {c d : Prop} [Decidable c] [Decidable d] {v v' w : ExtractionWarning} :
    w ∈ (if c then [v] else if d then [v'] else []) ↔ c ∧ w = v ∨ ¬ c ∧ d ∧ w = v' := by
  split_ifs with hc hd
  · simp [hc]
  · simp [hc, hd]
  · simp [hc, hd]

/- The warnings that are fatal are absent from publishable pages only. -/
theorem unwarned_iff {parts : Extractors.ArticleParts}
    (hparts : article.toArticleParts = parts)
    (hwarnings : article.warnings = extractionWarnings u policy decoded parts) :
    (article.extracted.textContent ≠ [] ∧
      ∀ w ∈ fatalExtractionWarnings, w ∉ (toExtraction str article).warnings) ↔
      Publishable u policy decoded article := by
  subst hparts
  have hmem : ∀ w : ExtractionWarning,
      w.text ∈ (toExtraction str article).warnings ↔ w ∈ article.warnings := fun w =>
    List.mem_map_of_injective warningText_injective
  have hpartial : Extractors.looksPartialOrPaywalled
      (Extractors.wordCount article.extracted.textContent)
      (matchingPhrases u decoded (paywallOrPartialPhrases policy))
      (matchingPhrases u article.extracted.textContent (paywallOrPartialPhrases policy)) = false ↔
      matchingPhrases u article.extracted.textContent (paywallOrPartialPhrases policy) = [] ∧
        (matchingPhrases u decoded (paywallOrPartialPhrases policy) = [] ∨
          300 ≤ Extractors.wordCount article.extracted.textContent) := by
    unfold Extractors.looksPartialOrPaywalled
    split_ifs with htext
    · exact iff_of_false nofun fun h => htext h.1
    · rw [Bool.and_eq_false_iff, decide_eq_false_iff_not, decide_eq_false_iff_not, not_not, not_lt,
        and_iff_right (not_not.mp htext)]
  rw [fatalExtractionWarnings_eq, List.forall_mem_map]
  simp only [hmem, List.forall_mem_cons, hwarnings, extractionWarnings, List.mem_append, mem_warnIf,
    mem_warnText, reduceCtorEq, and_false, and_true, or_false, false_or, List.not_mem_nil,
    IsEmpty.forall_iff, implies_true]
  constructor
  · rintro ⟨htext, hscore, -, hwhole, hfree⟩
    obtain ⟨-, hraw⟩ := hpartial.mp (Bool.not_eq_true _ ▸ hwhole)
    exact ⟨htext, not_lt.mp fun hlow => hscore ⟨htext, hlow⟩,
      matchingPhrases_eq_nil_iff.mp (not_not.mp hfree),
      hraw.imp_left matchingPhrases_eq_nil_iff.mp⟩
  · rintro ⟨htext, hscore, hfree, hwhole⟩
    have hnone := matchingPhrases_eq_nil_iff.mpr hfree
    have hpass := hpartial.mpr ⟨hnone, hwhole.imp_left matchingPhrases_eq_nil_iff.mpr⟩
    refine ⟨htext, fun hlow => absurd hlow.2 (not_lt.mpr hscore), htext, ?_, not_not.mpr hnone⟩
    rw [hpass]
    exact Bool.false_ne_true

end checks

/-! ### The whole run -/

section run

variable {p : ArticleProcessor} {env : Behaviour} {candidate : LeasedUrlCandidate}
  {workerId : Text} {run : ArticleFetchRun} {u : Unicode} {libs : ExtractorLibraries}
  {str : ℚ → Text} {raised : PyError → PyException} {fetched : FetchResult} {x : Extraction}

/-- The page has an article that passes the checks, and `x` is what the processor makes of it. -/
def PublishedAs (u : Unicode) (libs : ExtractorLibraries) (str : ℚ → Text) (html : Bytes)
    (baseUrl : Text) (x : Extraction) : Prop :=
  ∃ page article, readPage u libs html baseUrl = .ok page ∧
    extractArticleHtml u libs html baseUrl = .ok article ∧
    Publishable u page.policy (Sources.decodeHtml html) article ∧ x = toExtraction str article

/- The checks behind the extractor let a publishable page pass, and no other. -/
theorem extractPage_checked_iff {html : Bytes} {baseUrl : Text} :
    (extractPage u libs str raised html baseUrl = .ok x ∧ raiseForMissingText x = .ok () ∧
      raiseForUnacceptableExtraction x = .ok ()) ↔ PublishedAs u libs str html baseUrl x := by
  rw [raiseForMissingText_ok_iff, raiseForUnacceptableExtraction_ok_iff]
  constructor
  · rintro ⟨hextract, htext, hwarnings⟩
    unfold extractPage at hextract
    cases hextracted : extractArticleHtml u libs html baseUrl with
    | error e =>
      rw [hextracted] at hextract
      cases hextract
    | ok article =>
      rw [hextracted] at hextract
      obtain rfl := Except.ok.inj hextract
      obtain ⟨page, _, _, _, hpage, -, -, -, -, -, hwarned⟩ :=
        Extractors.extractArticleHtml_ok_iff.mp hextracted
      exact ⟨page, article, hpage, hextracted,
        (unwarned_iff rfl hwarned).mp ⟨htext, hwarnings⟩, rfl⟩
  · rintro ⟨page, article, hpage, hextracted, hpublishable, rfl⟩
    obtain ⟨page', _, _, _, hpage', -, -, -, -, -, hwarned⟩ :=
      Extractors.extractArticleHtml_ok_iff.mp hextracted
    obtain rfl := Except.ok.inj (hpage.symm.trans hpage')
    exact ⟨by rw [extractPage, hextracted], (unwarned_iff rfl hwarned).mpr hpublishable⟩

/- The handler records and raises again, so the region returns as it does without it. -/
theorem recordingFailure_ok_iff {α : Type} {y : Processing α} {a : α} :
    (recordingFailure p env candidate run y).result = .ok a ↔ y.result = .ok a := by
  rw [recordingFailure]
  cases hy : y.result with
  | ok b => rw [guard_of_ok hy, hy]
  | error e =>
    rw [guard_of_error hy]
    constructor
    · intro h
      obtain ⟨-, -, hthrow⟩ := bind_ok_iff.mp h
      cases hthrow
    · intro h
      cases h

theorem forall_calls_recordingFailure {α : Type} {y : Processing α} {P : Made Call → Prop}
    (hy : ∀ m ∈ y.calls, P m) (hfailure : ∀ m : Made Call, m.call.isCompleteFailure = true → P m) :
    ∀ m ∈ (recordingFailure p env candidate run y).calls, P m := by
  rw [recordingFailure]
  cases hresult : y.result with
  | ok a => rwa [guard_of_ok hresult]
  | error e =>
    rw [guard_of_error hresult]
    refine List.forall_mem_append.mpr ⟨hy, ?_⟩
    refine forall_calls_bind ?_ fun _ _ => by simp
    unfold recordFailure
    refine forall_calls_bind (by simp) fun _ _ => forall_calls_perform (hfailure _ rfl)

/- What the first region returns is the article of a publishable page. -/
theorem fetchAndExtract_published (hfetch : env.fetch = .ok fetched)
    (hextract : env.extract = extractPage u libs str raised fetched.body fetched.finalUrl)
    {fetched' : FetchResult} {rawArtifact : Option RawFetchArtifact}
    (h : (fetchAndExtract p env candidate workerId run).result = .ok (fetched', rawArtifact, x)) :
    fetched' = fetched ∧ 200 ≤ fetched.statusCode ∧ fetched.statusCode < 300 ∧
      PublishedAs u libs str fetched.body fetched.finalUrl x := by
  unfold fetchAndExtract at h
  simp only [bind_ok_iff, lift_result, pure_result, perform_result, hfetch] at h
  obtain ⟨_, _, _, hfetched, _, _, _, hstatus, _, _, extracted, hextracted, heq⟩ := h
  obtain rfl := Except.ok.inj hfetched
  cases heq
  unfold extractArticle at hextracted
  simp only [bind_ok_iff, lift_result, pure_result, perform_result, hextract] at hextracted
  obtain ⟨_, _, _, hpage, _, htext, _, hwarnings, _, _, _, _, heq⟩ := hextracted
  cases heq
  obtain ⟨hlow, hhigh⟩ := raiseForStatus_ok hstatus
  exact ⟨rfl, hlow, hhigh, extractPage_checked_iff.mp ⟨hpage, htext, hwarnings⟩⟩

/- With a store that answers, the article of a publishable page passes the first region. -/
theorem fetchAndExtract_of_published (hanswers : env.DatabaseAnswers)
    (hstore : p.storesRawHtml = true → env.saveRawHtml.toBool = true)
    (hfetch : env.fetch = .ok fetched)
    (hextract : env.extract = extractPage u libs str raised fetched.body fetched.finalUrl)
    (hlow : 200 ≤ fetched.statusCode) (hhigh : fetched.statusCode < 300)
    (hpublished : PublishedAs u libs str fetched.body fetched.finalUrl x) :
    ∃ rawArtifact, (fetchAndExtract p env candidate workerId run).result =
      .ok (fetched, rawArtifact, x) := by
  obtain ⟨hpage, htext, hwarnings⟩ := extractPage_checked_iff.mpr hpublished
  have hstatus : raiseForStatus fetched.statusCode = .ok () := by
    obtain ⟨h, -, -⟩ | ⟨-, -, -, hout⟩ := raiseForStatus_eq fetched.statusCode
    · exact h
    · exact absurd ⟨hlow, hhigh⟩ hout
  obtain ⟨rawArtifact, hsaved⟩ : ∃ rawArtifact,
      (saveSnapshot p env candidate fetched).result = .ok rawArtifact := by
    unfold saveSnapshot
    cases hstores : p.storesRawHtml with
    | false => exact ⟨none, rfl⟩
    | true =>
      have hsave := hstore hstores
      cases hraw : env.saveRawHtml with
      | ok artifact => exact ⟨some artifact, rfl⟩
      | error e =>
        rw [hraw] at hsave
        cases hsave
  have hmark : ∀ stage, (markStageNow env workerId run stage).result = .ok () :=
    hanswers.updateProcessingStage
  have hextracted : (extractArticle env workerId run fetched).result = .ok x := by
    unfold extractArticle
    simp only [bind_ok_iff, lift_result, pure_result, perform_result]
    exact ⟨_, hmark _, x, hextract.trans hpage, _, htext, _, hwarnings, _, hmark _, _, hmark _, rfl⟩
  refine ⟨rawArtifact, ?_⟩
  unfold fetchAndExtract
  simp only [bind_ok_iff, lift_result, pure_result, perform_result]
  exact ⟨_, hmark _, fetched, hfetch, _, hanswers.updateProcessingStage _, _, hstatus, rawArtifact,
    hsaved, x, hextracted, rfl⟩

theorem passFilter_ok_iff (hanswers : env.DatabaseAnswers) :
    (passFilter p env candidate workerId u).result = .ok () ↔
      (prefetchFilter p env candidate u).toOption.any (·.accepted) = true := by
  have hcases := @passFilter_cases p env candidate workerId u hanswers
  obtain ⟨e, hresult, -, hfilter⟩ | ⟨hresult, hfilter⟩ := hcases
  · exact iff_of_false (by rw [hresult]; exact nofun) (by rw [hfilter]; exact Bool.false_ne_true)
  · exact iff_of_true hresult hfilter

/-- A call of `complete_success` is for the article of the fetched page. -/
def SavesPublished (u : Unicode) (libs : ExtractorLibraries) (str : ℚ → Text)
    (fetched : FetchResult) (m : Made Call) : Prop :=
  ∀ run fetched' x rawArtifact completedAt,
    m.call = .completeSuccess run fetched' x rawArtifact completedAt →
      fetched' = fetched ∧ PublishedAs u libs str fetched.body fetched.finalUrl x

theorem savesPublished_of_not {m : Made Call} (h : m.call.isCompleteSuccess = false) :
    SavesPublished u libs str fetched m := by
  intro run fetched' x rawArtifact completedAt hcall
  rw [hcall] at h
  cases h

theorem Call.not_completeSuccess {c : Call} (h : c.isCompleteFailure = true) :
    c.isCompleteSuccess = false := by
  cases c with
  | completeSuccess => cases h
  | _ => rfl

theorem attempt_savesPublished (hfetch : env.fetch = .ok fetched)
    (hextract : env.extract = extractPage u libs str raised fetched.body fetched.finalUrl) :
    ∀ m ∈ (attempt p env candidate workerId run).calls, SavesPublished u libs str fetched m := by
  have hfailure : ∀ m : Made Call, m.call.isCompleteFailure = true →
      SavesPublished u libs str fetched m := fun m hm =>
    savesPublished_of_not (Call.not_completeSuccess hm)
  have hsteps : ∀ m : Made Call, m.call.isStep = true → SavesPublished u libs str fetched m := by
    intro m hm
    rw [Call.isStep, Bool.and_eq_true, Bool.not_eq_true'] at hm
    exact savesPublished_of_not hm.1
  unfold attempt
  refine forall_calls_bind (forall_calls_recordingFailure (fun m hm =>
    hsteps m (fetchAndExtract_steps m hm)) hfailure) ?_
  rintro ⟨fetched', rawArtifact, x⟩ hregion
  obtain ⟨rfl, -, -, hpublished⟩ :=
    fetchAndExtract_published hfetch hextract (recordingFailure_ok_iff.mp hregion)
  refine forall_calls_recordingFailure ?_ hfailure
  unfold persist
  refine forall_calls_bind (forall_calls_perform (hsteps _ rfl)) fun _ _ => forall_calls_perform ?_
  intro run' fetched'' x' rawArtifact' completedAt hcall
  cases hcall
  exact ⟨rfl, hpublished⟩

end run

/-! ### One page -/

/-- `str` of a score between 0.1 and 1 with three digits. -/
def scoreText (q : ℚ) : Text := "0.".toList ++ Nat.toDigits 10 (q * 1000).num.toNat

/-- A page whose body is in its JSON-LD. -/
def samplePage : Bytes := Extractors.scriptPage (Extractors.jsonLdScript Extractors.oneLine)

/-- The response with the page. -/
def sampleFetched : FetchResult where
  finalUrl := Extractors.storyUrl
  statusCode := 200
  headers := []
  body := samplePage
  retrievedAt := 1

/-- Everything answers, and the extractor reads the page. -/
def publishing : Behaviour :=
  { fetching (.ok sampleFetched) with
    extract := extractPage asciiUnicode (Extractors.jsonLdLibraries Extractors.oneLine) scoreText
      (fun _ => .valueError []) sampleFetched.body sampleFetched.finalUrl }

theorem sample_publishedAs : ∃ x, PublishedAs asciiUnicode
    (Extractors.jsonLdLibraries Extractors.oneLine) scoreText sampleFetched.body
    sampleFetched.finalUrl x := by
  obtain ⟨article, hextracted⟩ := Extractors.extract_oneLine
  have htext := Extractors.extractArticleHtml_text Extractors.readPage_oneLine hextracted
  have hscore := Extractors.extractArticleHtml_score Extractors.readPage_oneLine hextracted
  rw [Extractors.pageText_oneLine] at htext hscore
  refine ⟨_, _, article, Extractors.readPage_oneLine, hextracted, ?_, rfl⟩
  refine ⟨?_, ?_, ?_, .inl ?_⟩
  · rw [htext]
    decide +kernel
  · rw [hscore]
    decide +kernel
  · rw [htext]
    decide +kernel
  · decide +kernel

end Newsintel.Articles
