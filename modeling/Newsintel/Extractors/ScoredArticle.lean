import Mathlib.Data.List.Flatten
import Mathlib.Tactic.Linarith
import Newsintel.Extractors.ParagraphPartition

/-!
# The text of an article and its score (adapters/extractors/article_html.py:408-447)

Whichever of the three texts is taken, it is a list of normalised paragraphs that are counted, its
words are words of the page in their order, and it has no fewer words than the visible text.
-/

namespace Newsintel.Extractors

open PyText PyUrl

variable {texts : List Text} {text : Text}

/-! ### Rounding -/

theorem roundHalfEven_near (n : ℤ) {d : ℤ} (hd : 0 < d) :
    2 * n - d ≤ 2 * (d * roundHalfEven n d) ∧ 2 * (d * roundHalfEven n d) ≤ 2 * n + d := by
  have hdivision := Int.emod_add_mul_ediv n d
  have hlt := Int.emod_lt_of_pos n hd
  have hnonneg := Int.emod_nonneg n hd.ne'
  unfold roundHalfEven
  split_ifs
  · constructor <;> linarith
  · rw [mul_add, mul_one]
    constructor <;> linarith
  · constructor <;> linarith
  · rw [mul_add, mul_one]
    constructor <;> linarith

theorem round4_near (q : ℚ) : q - 1 / 20000 ≤ round4 q ∧ round4 q ≤ q + 1 / 20000 := by
  have hden : (0 : ℤ) < q.den := Int.natCast_pos.mpr q.den_pos
  obtain ⟨hlow, hhigh⟩ := roundHalfEven_near (q.num * 10000) hden
  have hdenQ : (0 : ℚ) < q.den := by exact_mod_cast q.den_pos
  have hnum : (q.num : ℚ) = q * q.den := (Rat.mul_den_eq_num q).symm
  rw [round4]
  generalize roundHalfEven (q.num * 10000) q.den = r at hlow hhigh ⊢
  have hlowQ : 2 * ((q.num : ℚ) * 10000) - q.den ≤ 2 * (q.den * r) := by exact_mod_cast hlow
  have hhighQ : 2 * ((q.den : ℚ) * r) ≤ 2 * (q.num * 10000) + q.den := by exact_mod_cast hhigh
  rw [hnum] at hlowQ hhighQ
  constructor
  · have hmul : (q.den : ℚ) * (20000 * q - 1) ≤ q.den * (2 * r) := by linarith
    have hle := le_of_mul_le_mul_left hmul hdenQ
    linarith
  · have hmul : (q.den : ℚ) * (2 * r) ≤ q.den * (20000 * q + 1) := by linarith
    have hle := le_of_mul_le_mul_left hmul hdenQ
    linarith

/- A rounded value of the unit interval stays there. -/
theorem round4_unit {q : ℚ} (hzero : 0 ≤ q) (hone : q ≤ 1) : 0 ≤ round4 q ∧ round4 q ≤ 1 := by
  obtain ⟨hlow, hhigh⟩ := round4_near q
  rw [round4] at hlow hhigh ⊢
  generalize roundHalfEven (q.num * 10000) q.den = r at hlow hhigh ⊢
  have hpos : (-1 : ℚ) < r := by linarith
  have hbelow : (r : ℚ) < 10001 := by linarith
  have hposZ : (-1 : ℤ) < r := by exact_mod_cast hpos
  have hbelowZ : r < 10001 := by exact_mod_cast hbelow
  have hr : (0 : ℚ) ≤ r := by exact_mod_cast (by omega : (0 : ℤ) ≤ r)
  have hr' : (r : ℚ) ≤ 10000 := by exact_mod_cast (by omega : r ≤ 10000)
  constructor <;> linarith

/-! ### Paragraphs -/

theorem words_joinParagraphs (texts : List Text) :
    words (joinParagraphs texts) = texts.flatMap words := by
  induction texts with
  | nil => exact words_nil
  | cons text texts ih =>
    cases texts with
    | nil => rw [joinParagraphs, List.intercalate_singleton, List.flatMap_singleton]
    | cons next texts =>
      have hjoin : joinParagraphs (text :: next :: texts) =
          text ++ '\n' :: '\n' :: joinParagraphs (next :: texts) := by
        rw [joinParagraphs, List.intercalate_cons_cons, List.append_assoc]
        rfl
      rw [hjoin, words_append_space (by decide), words_cons_space (by decide), ih]
      exact List.flatMap_cons.symm

/-- A text of normalised paragraphs, and their number. -/
structure InParagraphs (text : Text) (count : ℕ) : Prop where
  joined : text = joinParagraphs (textBlocks text)
  normal : ∀ paragraph ∈ textBlocks text, normalizeText paragraph = paragraph
  counted : count = (textBlocks text).length

theorem inParagraphs_join (h : ∀ text ∈ texts, normalizeText text = text ∧ text ≠ []) :
    InParagraphs (joinParagraphs texts) texts.length := by
  have hblocks : textBlocks (joinParagraphs texts) = texts :=
    textBlocks_joinParagraphs fun text htext => by
      obtain ⟨hnormal, hne⟩ := h text htext
      exact ⟨hnormal ▸ newline_not_mem_normalizeText, hne⟩
  refine ⟨by rw [hblocks], ?_, by rw [hblocks]⟩
  rw [hblocks]
  exact fun text htext => (h text htext).1

theorem inParagraphs_normalizeMultiline (value : Text) :
    InParagraphs (normalizeMultiline value) (countParagraphs (normalizeMultiline value)) := by
  have h : InParagraphs (joinParagraphs (bodyLines value)) (bodyLines value).length :=
      inParagraphs_join fun text htext => by
    obtain ⟨hmem, hne⟩ := List.mem_filter.mp htext
    obtain ⟨line, -, rfl⟩ := List.mem_map.mp hmem
    exact ⟨normalizeText_normalizeText line, of_decide_eq_true hne⟩
  exact ⟨h.joined, h.normal, rfl⟩

theorem words_normalizeMultiline (value : Text) : words (normalizeMultiline value) = words value := by
  show words (joinParagraphs (bodyLines value)) = words value
  rw [words_joinParagraphs, flatMap_words_bodyLines]

theorem wordCount_eq_zero_iff {count : ℕ} (h : InParagraphs text count) :
    wordCount text = 0 ↔ text = [] := by
  rw [wordCount, List.length_eq_zero_iff]
  constructor
  · intro hwords
    rw [h.joined, words_joinParagraphs, List.flatMap_eq_nil_iff] at hwords
    have hnone : textBlocks text = [] := by
      refine List.eq_nil_iff_forall_not_mem.mpr fun paragraph hparagraph => ?_
      have hempty := normalizeText_eq_nil_iff.mpr (hwords paragraph hparagraph)
      rw [h.normal paragraph hparagraph] at hempty
      exact of_decide_eq_true (List.mem_filter.mp hparagraph).2 hempty
    rw [h.joined, hnone]
    rfl
  · rintro rfl
    exact words_nil

theorem count_pos {count : ℕ} (h : InParagraphs text count) (hne : text ≠ []) : 0 < count := by
  rw [h.counted, List.length_pos_iff]
  intro hnone
  have hjoined := h.joined
  rw [hnone] at hjoined
  exact hne hjoined

/-! ### Bounds of the score -/

section score

variable {accepted rejected : ℕ} {detected : Bool}

theorem extractionQualityScore_unit (text : Text) (accepted rejected : ℕ) (detected : Bool) :
    0 ≤ extractionQualityScore text accepted rejected detected ∧
      extractionQualityScore text accepted rejected detected ≤ 1 := by
  unfold extractionQualityScore
  by_cases hwords : wordCount text = 0
  · rw [if_pos hwords]
    exact ⟨le_rfl, zero_le_one⟩
  · rw [if_neg hwords]
    exact round4_unit (le_max_left 0 _) (max_le zero_le_one (min_le_left 1 _))

/- A text with words and a paragraph scores more than the paragraph alone. -/
theorem extractionQualityScore_pos (rejected : ℕ) (detected : Bool) (hwords : wordCount text ≠ 0)
    (haccepted : 0 < accepted) :
    0 < extractionQualityScore text accepted rejected detected := by
  have hcount : (1 : ℚ) ≤ accepted := by exact_mod_cast haccepted
  have hblocks : (1 : ℚ) / 10 ≤ min (25 / 100) ((accepted : ℚ) / 10) :=
    le_min (by norm_num) (by linarith)
  have hlength : (0 : ℚ) ≤ min (35 / 100) ((wordCount text : ℚ) / 1000) :=
    le_min (by norm_num) (div_nonneg (Nat.cast_nonneg _) (by norm_num))
  have hdetected : (0 : ℚ) ≤ if detected then 15 / 100 else 0 := by
    split_ifs <;> norm_num
  have hshare : (0 : ℚ) ≤ if accepted + rejected = 0 then 10 / 100
      else 25 / 100 * ((accepted : ℚ) / ((accepted + rejected : ℕ) : ℚ)) := by
    split_ifs
    · norm_num
    · exact mul_nonneg (by norm_num) (div_nonneg (Nat.cast_nonneg _) (Nat.cast_nonneg _))
  rw [extractionQualityScore, if_neg hwords]
  refine lt_of_lt_of_le ?_ (round4_near _).1
  refine lt_of_lt_of_le (by norm_num : (0 : ℚ) < 1 / 10 - 1 / 20000) (sub_le_sub_right ?_ _)
  refine le_max_of_le_right (le_min (by norm_num) ?_)
  linarith

end score

/-! ### The optional extractor -/

section optional

variable {optional : Text} {score : ℚ}

/- A text that replaces the visible one has at least its words. -/
theorem wordCount_le_of_shouldUse (h : shouldUseOptionalExtraction text score optional = true) :
    wordCount text ≤ wordCount optional := by
  obtain ⟨hround, -⟩ := roundHalfEven_near (27 * wordCount text) (d := 20) (by norm_num)
  simp only [shouldUseOptionalExtraction, Bool.or_eq_true, Bool.and_eq_true,
    decide_eq_true_eq] at h
  obtain (hnone | ⟨-, hmore⟩) | hlonger := h
  · omega
  · exact hmore
  · omega

/- A text that does not replace it has less than 1.35 times its words. -/
theorem wordCount_lt_of_not_shouldUse (h : shouldUseOptionalExtraction text score optional = false) :
    20 * wordCount optional < 27 * wordCount text := by
  obtain ⟨-, hround⟩ := roundHalfEven_near (27 * wordCount text) (d := 20) (by norm_num)
  simp only [shouldUseOptionalExtraction, Bool.or_eq_false_iff, decide_eq_false_iff_not] at h
  omega

end optional

/-! ### The chosen text -/

section chosen

variable {article : Option JsonObject} {paragraphs : ParagraphExtractionResult}
  {optional : Option Text}

/-- The three ways to a text: a long JSON-LD body, the visible text, or the optional one. -/
inductive Chosen (article : Option JsonObject) (paragraphs : ParagraphExtractionResult)
    (optional : Option Text) : ExtractedText → Prop
  | body {body : Text} : jsonLdBody article = some body → 200 ≤ body.length →
      Chosen article paragraphs optional (bodyText body)
  | visible : (∀ body, jsonLdBody article = some body → body.length < 200) →
      (∀ text, optional = some text → 20 * wordCount text < 27 * wordCount paragraphs.text) →
      Chosen article paragraphs optional (visibleText paragraphs)
  | optional {text : Text} : (∀ body, jsonLdBody article = some body → body.length < 200) →
      optional = some text → wordCount paragraphs.text ≤ wordCount text →
      Chosen article paragraphs optional
        { visibleText paragraphs with
          textContent := text
          extractionMethod := .trafilaturaFallback
          acceptedBlockCount := countParagraphs text }

theorem chosen_visibleOrOptional
    (hbody : ∀ body, jsonLdBody article = some body → body.length < 200) :
    Chosen article paragraphs optional (visibleOrOptional paragraphs article.isSome optional) := by
  cases optional with
  | none => exact .visible hbody fun _ h => nomatch h
  | some text =>
    simp only [visibleOrOptional]
    split_ifs with huse
    · exact .optional hbody rfl (wordCount_le_of_shouldUse huse)
    · refine .visible hbody fun text' htext => ?_
      obtain rfl := Option.some.inj htext
      exact wordCount_lt_of_not_shouldUse (Bool.not_eq_true _ ▸ huse)

theorem chosen_extractText (article : Option JsonObject)
    (paragraphs : ParagraphExtractionResult) (optional : Option Text) : Chosen article paragraphs optional
    (extractText article paragraphs optional) := by
  unfold extractText
  cases hbody : jsonLdBody article with
  | none =>
    apply chosen_visibleOrOptional
    rw [hbody]
    exact fun _ h => nomatch h
  | some body =>
    dsimp only
    split_ifs with hlong
    · exact .body hbody hlong
    · apply chosen_visibleOrOptional
      rw [hbody]
      rintro _ ⟨⟩
      omega

end chosen

/-! ### Every article -/

section every

variable {u : Unicode} {libs : ExtractorLibraries} {html : Bytes} {baseUrl : Text}
  {page : ReadPage} {article : ExtractedArticle}

/-- Where the words of a text come from. -/
def sourceWords (libs : ExtractorLibraries) (html : Bytes) (baseUrl : Text) (page : ReadPage) :
    ExtractionMethod → List Text
  | .jsonLdArticleBody => words ((jsonLdBody page.article).getD [])
  | .visibleTextBlocks => page.parser.blocks.flatMap words
  | .trafilaturaFallback => words ((libs.trafilatura html baseUrl).getD [])

/-- What holds of a text with its counts, whichever it is. -/
structure WellExtracted (u : Unicode) (libs : ExtractorLibraries) (html : Bytes) (baseUrl : Text)
    (page : ReadPage) (x : ExtractedText) : Prop where
  paragraphs : InParagraphs x.textContent x.acceptedBlockCount
  source : (words x.textContent).Sublist (sourceWords libs html baseUrl page x.extractionMethod)
  rejected : x.rejectedBoilerplateCount + x.rejectedShortCount ≤ x.rejectedBlockCount
  body : x.extractionMethod = .jsonLdArticleBody ↔
    ∃ body, jsonLdBody page.article = some body ∧ 200 ≤ body.length
  complete : x.extractionMethod ≠ .jsonLdArticleBody →
    wordCount (extractParagraphText u page.policy page.parser.blocks).text ≤
        wordCount x.textContent ∧
      ∀ text, extractWithTrafilatura libs html baseUrl = some text →
        20 * wordCount text ≤ 27 * wordCount x.textContent

theorem extractParagraphText_inParagraphs (u : Unicode) (policy : Option ExtractionPolicy)
    (blocks : List Text) :
    InParagraphs (extractParagraphText u policy blocks).text
      (extractParagraphText u policy blocks).acceptedBlockCount := by
  have hloop := partitioned_paragraphLoop u (containsAnyPhrase u · (lowValuePhrases policy)) blocks
  exact inParagraphs_join fun text htext =>
    ⟨(normalizeText_of_sublist hloop.sublist htext).1, (hloop.kept text htext).1⟩

theorem extractParagraphText_words (u : Unicode) (policy : Option ExtractionPolicy)
    (blocks : List Text) :
    (words (extractParagraphText u policy blocks).text).Sublist (blocks.flatMap words) := by
  have hloop := partitioned_paragraphLoop u (containsAnyPhrase u · (lowValuePhrases policy)) blocks
  have hsublist := hloop.sublist.flatMap words
  have hblocks : (blocks.map normalizeText).flatMap words = blocks.flatMap words := by
    rw [List.flatMap_map]
    exact List.flatMap_congr fun block _ => words_normalizeText block
  rw [hblocks] at hsublist
  show (words (joinParagraphs _)).Sublist _
  rw [words_joinParagraphs]
  exact hsublist

theorem pageText_wellExtracted (u : Unicode) (libs : ExtractorLibraries) (html : Bytes)
    (baseUrl : Text) (page : ReadPage) :
    WellExtracted u libs html baseUrl page (pageText u libs html baseUrl page) := by
  have hparts := partitioned_paragraphLoop u
    (containsAnyPhrase u · (lowValuePhrases page.policy)) page.parser.blocks
  have hnobody (h : ∀ body, jsonLdBody page.article = some body → body.length < 200) :
      ¬ ∃ body, jsonLdBody page.article = some body ∧ 200 ≤ body.length := by
    rintro ⟨body, hbody, hlong⟩
    have := h body hbody
    omega
  have hchosen := chosen_extractText page.article
    (extractParagraphText u page.policy page.parser.blocks)
    (extractWithTrafilatura libs html baseUrl)
  rw [pageText]
  generalize extractText page.article (extractParagraphText u page.policy page.parser.blocks)
    (extractWithTrafilatura libs html baseUrl) = x at hchosen ⊢
  cases hchosen with
  | @body body hbody hlong =>
    refine ⟨inParagraphs_normalizeMultiline body, ?_, Nat.le_refl 0, ?_, ?_⟩
    · rw [bodyText, words_normalizeMultiline, sourceWords, hbody, Option.getD_some]
    · exact ⟨fun _ => ⟨body, hbody, hlong⟩, fun _ => rfl⟩
    · exact fun hne => absurd rfl hne
  | visible hbody hoptional =>
    refine ⟨extractParagraphText_inParagraphs u _ _, extractParagraphText_words u _ _,
      hparts.exits, ?_, fun _ => ⟨Nat.le_refl _, fun text htext => ?_⟩⟩
    · exact iff_of_false ExtractionMethod.noConfusion (hnobody hbody)
    · exact (hoptional text htext).le
  | @optional text hbody hoptional hmore =>
    obtain ⟨raw, hraw, hmultiline⟩ := Option.map_eq_some_iff.mp (Option.filter_eq_some_iff.mp hoptional).1
    refine ⟨?_, ?_, hparts.exits, ?_, fun _ => ⟨hmore, fun text' htext' => ?_⟩⟩
    · rw [← hmultiline]
      exact inParagraphs_normalizeMultiline raw
    · rw [← hmultiline, words_normalizeMultiline, sourceWords, hraw, Option.getD_some]
    · exact iff_of_false ExtractionMethod.noConfusion (hnobody hbody)
    · obtain rfl := Option.some.inj (hoptional.symm.trans htext')
      show 20 * wordCount text ≤ 27 * wordCount text
      omega

/- The score is in the unit interval, and zero for a missing text only. -/
theorem extractArticleHtml_wellExtracted (u : Unicode) (libs : ExtractorLibraries) (html : Bytes)
    (baseUrl : Text) (article : ExtractedArticle)
    (h : extractArticleHtml u libs html baseUrl = .ok article) :
    (∃ page, readPage u libs html baseUrl = .ok page ∧
      WellExtracted u libs html baseUrl page article.extracted) ∧
    0 ≤ article.extractionQualityScore ∧ article.extractionQualityScore ≤ 1 ∧
    (article.extractionQualityScore = 0 ↔ article.extracted.textContent = []) := by
  obtain ⟨page, _, _, _, hpage, _⟩ := extractArticleHtml_ok_iff.mp h
  have hwell := pageText_wellExtracted u libs html baseUrl page
  rw [extractArticleHtml_text hpage h, extractArticleHtml_score hpage h]
  obtain ⟨hlow, hhigh⟩ := extractionQualityScore_unit (pageText u libs html baseUrl page).textContent
    (pageText u libs html baseUrl page).acceptedBlockCount
    (pageText u libs html baseUrl page).rejectedBlockCount page.article.isSome
  refine ⟨⟨page, hpage, hwell⟩, hlow, hhigh, ?_⟩
  have hempty := wordCount_eq_zero_iff hwell.paragraphs
  constructor
  · intro hzero
    by_contra hne
    have hpos := extractionQualityScore_pos (pageText u libs html baseUrl page).rejectedBlockCount
      page.article.isSome (fun h => hne (hempty.mp h)) (count_pos hwell.paragraphs hne)
    exact hpos.ne' hzero
  · intro hnil
    show extractionQualityScore _ _ _ _ = 0
    rw [extractionQualityScore, if_pos (hempty.mpr hnil)]

end every

theorem extract_oneLine : ∃ article, extractArticleHtml asciiUnicode (jsonLdLibraries oneLine)
    (scriptPage (jsonLdScript oneLine)) storyUrl = .ok article :=
  (extractArticleHtml_returns_iff (documentedDates_script _ _) readPage_oneLine).mpr
    fun _ _ => rfl

/- The body of a JSON-LD article is taken, and it scores. -/
theorem oneLine_scored : ∃ article,
    extractArticleHtml asciiUnicode (jsonLdLibraries oneLine) (scriptPage (jsonLdScript oneLine))
        storyUrl = .ok article ∧
      article.extracted.textContent = normalizeText oneLine ∧
        0 < article.extractionQualityScore ∧ article.extractionQualityScore ≤ 1 := by
  obtain ⟨article, h⟩ := extract_oneLine
  obtain ⟨-, hlow, hhigh, hzero⟩ := extractArticleHtml_wellExtracted _ _ _ _ article h
  have htext : article.extracted.textContent = normalizeText oneLine := by
    rw [extractArticleHtml_text readPage_oneLine h, pageText_oneLine]
    decide +kernel
  refine ⟨article, h, htext, lt_of_le_of_ne hlow fun hnone => ?_, hhigh⟩
  rw [hzero.mp hnone.symm] at htext
  exact absurd htext (by decide +kernel)

end Newsintel.Extractors
