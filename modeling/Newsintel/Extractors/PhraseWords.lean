import Newsintel.Extractors.Paragraphs
import Newsintel.Lib.Delimited

/-!
# Phrases inside longer words

The phrases of boilerplate and of skipped elements are looked for as raw substrings. The filters
that look for whole words are stated beside them; the two agree where a text that contains a phrase
contains one as words.
-/

namespace Newsintel.Extractors

open PyText

/-! ### Filters on words -/

section filters

variable (u : Unicode)

/-- Some phrase stands in the lower-cased text, with no letter or digit next to its own. -/
def containsPhraseWords (value : Text) (phrases : List Text) : Bool :=
  phrases.any fun phrase => decide (Delimited.Occurs u.isAlnum phrase (u.lower value))

/-- The paragraphs when boilerplate is recognised by words. -/
def wordParagraphs (policy : Option ExtractionPolicy) (blocks : List Text) :
    ParagraphExtractionResult :=
  (paragraphLoop u (containsPhraseWords u · (lowValuePhrases policy)) blocks).result

/-- The attribute values that are looked at. -/
def relevantValues (m : AttrMap) : List Text :=
  (m.filter fun a => relevantKeys.contains a.1).map Prod.snd

/-- An element that no attribute can skip. -/
def unskippable (tagName : Text) (m : AttrMap) : Bool :=
  (["article", "main", "body", "html"].map String.toList).contains tagName ||
    (relevantValues m).isEmpty

/-- A token of the attributes is one to skip. -/
def hasSkipToken (policy : Option ExtractionPolicy) (m : AttrMap) : Bool :=
  (attributeTokens (u.lower (join (relevantValues m)))).any (skipAttributeTokens policy).contains

/-- Skipping by attributes when phrases are recognised by words. -/
def skipsByWords (policy : Option ExtractionPolicy) (tagName : Text) (m : AttrMap) : Bool :=
  !unskippable tagName m && (hasSkipToken u policy m ||
    containsPhraseWords u (join (relevantValues m)) (skipAttributePhrases policy))

/-- The text contains phrases, but inside longer words only. -/
def Straddled (phrases : List Text) (value : Text) : Prop :=
  containsAnyPhrase u value phrases = true ∧ containsPhraseWords u value phrases = false

instance (phrases : List Text) (value : Text) : Decidable (Straddled u phrases value) :=
  inferInstanceAs (Decidable (_ ∧ _))

end filters

variable {u : Unicode} {phrases : List Text} {value : Text}

theorem containsAnyPhrase_of_words (h : containsPhraseWords u value phrases = true) :
    containsAnyPhrase u value phrases = true := by
  obtain ⟨phrase, hmem, hoccurs⟩ := List.any_eq_true.mp h
  exact List.any_eq_true.mpr ⟨phrase, hmem, decide_eq_true (of_decide_eq_true hoccurs).isInfix⟩

theorem not_straddled_iff : ¬ Straddled u phrases value ↔
    containsAnyPhrase u value phrases = containsPhraseWords u value phrases := by
  rw [Straddled]
  cases hwords : containsPhraseWords u value phrases with
  | true => simp [containsAnyPhrase_of_words hwords]
  | false => simp

/- Only an empty phrase is in the empty text, and it stands as words anywhere. -/
theorem ne_nil_of_straddled (h : Straddled u phrases value) : u.lower value ≠ [] := by
  intro hnil
  obtain ⟨phrase, hmem, hcontains⟩ := List.any_eq_true.mp h.1
  rw [hnil] at hcontains
  obtain rfl := List.eq_nil_of_infix_nil (of_decide_eq_true hcontains)
  have hwords : containsPhraseWords u value phrases = true :=
    List.any_eq_true.mpr ⟨[], hmem, decide_eq_true Delimited.occurs_nil⟩
  rw [h.2] at hwords
  cases hwords

/-! ### Two loops -/

section loops

variable {raw exact : Text → Bool} {loop loop' : ParagraphLoop} {blocks : List Text}

/-- The loop with the rawer test has seen less, only texts that it lets pass, and it has rejected
`n` more blocks as boilerplate. -/
structure Behind (u : Unicode) (raw : Text → Bool) (n : ℕ) (loop loop' : ParagraphLoop) :
    Prop where
  seen : loop.seen ⊆ loop'.seen
  passed : ∀ lowered ∈ loop.seen, ∃ text, u.lower text = lowered ∧ raw text = false
  rejected : loop'.rejectedBoilerplate + n ≤ loop.rejectedBoilerplate

/-- The tests read a text in lower case, the exact one rejects less, and they agree on the empty
text. -/
structure Coarser (u : Unicode) (raw exact : Text → Bool) : Prop where
  lower : ∀ text other, u.lower text = u.lower other → raw text = raw other
  raw_of_exact : ∀ text, exact text = true → raw text = true
  nil : raw [] = exact []

theorem takeBlock_behind (h : Coarser u raw exact) {n : ℕ} (hbehind : Behind u raw n loop loop')
    (block : Text) :
    Behind u raw (n + if raw (normalizeText block) = exact (normalizeText block) then 0 else 1)
      (takeBlock u raw loop block) (takeBlock u exact loop' block) := by
  obtain ⟨hseen, hpassed, hrejected⟩ := hbehind
  have hfresh : raw (normalizeText block) = true → u.lower (normalizeText block) ∉ loop.seen := by
    intro hraw hmem
    obtain ⟨text, hlower, htext⟩ := hpassed _ hmem
    rw [h.lower _ _ hlower, hraw] at htext
    cases htext
  refine ⟨?_, ?_, ?_⟩
  · rw [takeBlock_seen, takeBlock_seen]
    split
    · rename_i haccepted
      obtain ⟨⟨hne, hraw, hshort⟩, -⟩ := haccepted
      have hexact : exact (normalizeText block) = false := by
        cases he : exact (normalizeText block) with
        | false => rfl
        | true => rw [h.raw_of_exact _ he] at hraw; exact hraw
      split
      · exact List.cons_subset_cons _ hseen
      · rename_i hrepeated
        have hmem : u.lower (normalizeText block) ∈ loop'.seen := by
          by_contra hnot
          exact hrepeated ⟨⟨hne, hexact, hshort⟩, hnot⟩
        exact List.cons_subset.mpr ⟨hmem, hseen⟩
    · split
      · exact List.subset_cons_of_subset _ hseen
      · exact hseen
  · intro lowered hmem
    rw [takeBlock_seen] at hmem
    split at hmem
    · rename_i haccepted
      rcases List.mem_cons.mp hmem with rfl | hmem
      · exact ⟨_, rfl, haccepted.1.2.1⟩
      · exact hpassed lowered hmem
    · exact hpassed lowered hmem
  · rw [takeBlock_rejectedBoilerplate, takeBlock_rejectedBoilerplate]
    by_cases hraw : raw (normalizeText block) = true
    · by_cases hne : normalizeText block = []
      · simp only [hne, if_pos h.nil, ne_eq, not_true_eq_false, false_and, if_false]
        omega
      · cases hexact : exact (normalizeText block) with
        | true =>
          simp only [hraw, hfresh hraw, hne, ne_eq, not_false_eq_true, and_self, if_true]
          split <;> omega
        | false =>
          simp only [hraw, hfresh hraw, hne, ne_eq, not_false_eq_true, and_self, if_true,
            Bool.false_eq_true, Bool.true_eq_false, and_false, if_false]
          omega
    · have hexact : exact (normalizeText block) = false := by
        cases he : exact (normalizeText block) with
        | false => rfl
        | true => exact absurd (h.raw_of_exact _ he) hraw
      rw [Bool.not_eq_true] at hraw
      simp only [hraw, hexact, Bool.false_eq_true, and_false, if_false, if_true]
      omega

/- Run lemma: every block on which the tests differ is one more rejection. -/
theorem foldl_behind (h : Coarser u raw exact) (blocks : List Text) {n : ℕ}
    (hbehind : Behind u raw n loop loop') :
    Behind u raw (n + blocks.countP fun block =>
        raw (normalizeText block) != exact (normalizeText block))
      (blocks.foldl (takeBlock u raw) loop) (blocks.foldl (takeBlock u exact) loop') := by
  induction blocks generalizing n loop loop' with
  | nil => exact hbehind
  | cons block blocks ih =>
    have hnext := ih (takeBlock_behind h hbehind block)
    rw [List.foldl_cons, List.foldl_cons, List.countP_cons]
    convert hnext using 1
    by_cases hsame : raw (normalizeText block) = exact (normalizeText block)
    · simp [hsame]
    · simp only [bne_iff_ne, ne_eq, hsame, not_false_eq_true, if_true, if_false]
      omega

theorem paragraphLoop_result_eq_iff (h : Coarser u raw exact) :
    (paragraphLoop u raw blocks).result = (paragraphLoop u exact blocks).result ↔
      ∀ block ∈ blocks, raw (normalizeText block) = exact (normalizeText block) := by
  constructor
  · intro hresult block hmem
    have hstart : Behind u raw 0 ParagraphLoop.start ParagraphLoop.start :=
      ⟨List.Subset.refl _, List.forall_mem_nil _, Nat.le_refl _⟩
    have hrejected := (foldl_behind h blocks hstart).rejected
    have hcounts : (paragraphLoop u raw blocks).rejectedBoilerplate =
        (paragraphLoop u exact blocks).rejectedBoilerplate :=
      congrArg ParagraphExtractionResult.rejectedBoilerplateCount hresult
    rw [paragraphLoop, paragraphLoop] at hcounts
    have hnone : (blocks.countP fun block =>
        raw (normalizeText block) != exact (normalizeText block)) = 0 := by omega
    simpa using List.countP_eq_zero.mp hnone block hmem
  · intro hall
    have hloops : paragraphLoop u raw blocks = paragraphLoop u exact blocks := by
      apply List.foldl_ext
      intro loop block hmem
      simp only [takeBlock, blockVerdict, hall block hmem]
    rw [hloops]

end loops

/-! ### Blocks and elements -/

theorem coarser_phrases (u : Unicode) (phrases : List Text) :
    Coarser u (containsAnyPhrase u · phrases) (containsPhraseWords u · phrases) := by
  refine ⟨?_, fun _ => containsAnyPhrase_of_words, ?_⟩
  · intro text other hlower
    simp only [containsAnyPhrase, hlower]
  · have hlower : u.lower [] = [] := u.lower_ascii [] (by simp)
    refine not_straddled_iff.mp fun hstraddled => ne_nil_of_straddled hstraddled hlower

theorem shouldSkipByAttributes_eq (u : Unicode) (policy : Option ExtractionPolicy) (tagName : Text)
    (m : AttrMap) : shouldSkipByAttributes u policy tagName m =
      (!unskippable tagName m && (hasSkipToken u policy m ||
        containsAnyPhrase u (join (relevantValues m)) (skipAttributePhrases policy))) := by
  unfold shouldSkipByAttributes unskippable hasSkipToken containsAnyPhrase
  rw [← relevantValues]
  cases (["article", "main", "body", "html"].map String.toList).contains tagName with
  | true => rfl
  | false =>
    cases relevantValues m <;> rfl

/- Both filters work on words for just the texts whose phrases are not all inside longer words. -/
theorem phrases_onWords_iff (u : Unicode) (policy : Option ExtractionPolicy) (blocks : List Text)
    (tagName : Text) (m : AttrMap) :
    (extractParagraphText u policy blocks = wordParagraphs u policy blocks ↔
        ∀ block ∈ blocks, ¬ Straddled u (lowValuePhrases policy) (normalizeText block)) ∧
      (shouldSkipByAttributes u policy tagName m = skipsByWords u policy tagName m ↔
        unskippable tagName m = true ∨ hasSkipToken u policy m = true ∨
          ¬ Straddled u (skipAttributePhrases policy) (join (relevantValues m))) := by
  constructor
  · simp only [not_straddled_iff]
    exact paragraphLoop_result_eq_iff (coarser_phrases u (lowValuePhrases policy))
  · rw [shouldSkipByAttributes_eq, skipsByWords, not_straddled_iff]
    cases unskippable tagName m <;> cases hasSkipToken u policy m <;> simp

/-- Eight words, none of them a phrase. -/
def designBlock : Text := "The design industry is growing in all regions.".toList

/- `sign in` is found in `design industry`, and the paragraph is dropped. -/
theorem designBlock_straddled :
    ¬ ∀ (u : Unicode) (policy : Option ExtractionPolicy) (blocks : List Text) (tagName : Text)
      (m : AttrMap), extractParagraphText u policy blocks = wordParagraphs u policy blocks ∧
        shouldSkipByAttributes u policy tagName m = skipsByWords u policy tagName m := by
  intro h
  have hcounts := congrArg ParagraphExtractionResult.acceptedBlockCount
    (h asciiUnicode none [designBlock] [] []).1
  revert hcounts
  decide +kernel

end Newsintel.Extractors
