import Newsintel.Extractors.ArticleHtmlParser

/-!
# Paragraphs (adapters/extractors/article_html.py:658-690)

The loop of `_extract_paragraph_text` over the blocks of a page, for any test of low value. The
one of the source looks for the phrases of `_low_value_phrases(policy)` anywhere in the text.
-/

namespace Newsintel.Extractors

open PyText

/-! ### Phrases -/

/-- `_LOW_VALUE_PHRASES`. -/
def lowValuePhraseList : List Text :=
  ["account subscription benefits", "accept cookies", "active subscription",
    "all rights reserved", "click here", "continue reading", "enable javascript",
    "founder summit", "join 1,000+ founders", "loading...", "logout and login",
    "premium stories", "privacy policy", "register now", "sign in", "strictlyvc",
    "subscribed with another email", "subscribe now", "ticket savings",
    "tickets are going fast", "terms of use",
    "you don't have any active subscription"].map String.toList

def lowValuePhrases : Option ExtractionPolicy → List Text
  | none => lowValuePhraseList
  | some policy => lowValuePhraseList ++ policy.lowValuePhrases

def containsAnyPhrase (u : Unicode) (value : Text) (phrases : List Text) : Bool :=
  phrases.any (contains · (u.lower value))

/-! ### The loop over the blocks -/

/-- `len(text) < 40 and not text.endswith((".", "!", "?", '"', "'"))`. -/
def isShort (text : Text) : Bool :=
  text.length < 40 && !text.getLast?.any ".!?\"'".toList.contains

/-- What happens to a block. -/
inductive BlockVerdict where
  /-- empty, or seen before -/
  | repeated
  | boilerplate
  | short
  | accepted
  deriving DecidableEq, Repr

/-- The variables of the loop. -/
structure ParagraphLoop where
  accepted : List Text
  seen : List Text
  rejected : ℕ
  rejectedBoilerplate : ℕ
  rejectedShort : ℕ
  deriving DecidableEq, Repr

/-- Lines 663-667. -/
def ParagraphLoop.start : ParagraphLoop := ⟨[], [], 0, 0, 0⟩

structure ParagraphExtractionResult where
  text : Text
  acceptedBlockCount : ℕ
  rejectedBlockCount : ℕ
  rejectedBoilerplateCount : ℕ
  rejectedShortCount : ℕ
  deriving DecidableEq, Repr

/-- `"\n\n".join(texts)`. -/
def joinParagraphs (texts : List Text) : Text := ['\n', '\n'].intercalate texts

/-- Lines 684-690. -/
def ParagraphLoop.result (loop : ParagraphLoop) : ParagraphExtractionResult where
  text := joinParagraphs loop.accepted
  acceptedBlockCount := loop.accepted.length
  rejectedBlockCount := loop.rejected
  rejectedBoilerplateCount := loop.rejectedBoilerplate
  rejectedShortCount := loop.rejectedShort

section loop

variable (u : Unicode) (boilerplate : Text → Bool)

/-- The tests of lines 671-681 on a normalised text. -/
def blockVerdict (seen : List Text) (text : Text) : BlockVerdict :=
  if text = [] || seen.contains (u.lower text) then .repeated
  else if boilerplate text then .boilerplate
  else if isShort text then .short
  else .accepted

/-- The body of the loop (lines 669-683). -/
def takeBlock (loop : ParagraphLoop) (block : Text) : ParagraphLoop :=
  let text := normalizeText block
  match blockVerdict u boilerplate loop.seen text with
  | .repeated => { loop with rejected := loop.rejected + 1 }
  | .boilerplate =>
    { loop with
      rejected := loop.rejected + 1
      rejectedBoilerplate := loop.rejectedBoilerplate + 1 }
  | .short =>
    { loop with
      rejected := loop.rejected + 1
      rejectedShort := loop.rejectedShort + 1 }
  | .accepted =>
    { loop with
      accepted := loop.accepted ++ [text]
      seen := u.lower text :: loop.seen }

def paragraphLoop (blocks : List Text) : ParagraphLoop :=
  blocks.foldl (takeBlock u boilerplate) .start

end loop

def extractParagraphText (u : Unicode) (policy : Option ExtractionPolicy) (blocks : List Text) :
    ParagraphExtractionResult :=
  (paragraphLoop u (containsAnyPhrase u · (lowValuePhrases policy)) blocks).result

/-! ### What the loop has seen -/

section seen

variable {u : Unicode} {boilerplate : Text → Bool} {loop : ParagraphLoop} {text block : Text}

/-- A text that is neither empty, of low value nor short. -/
def Kept (boilerplate : Text → Bool) (text : Text) : Prop :=
  text ≠ [] ∧ boilerplate text = false ∧ isShort text = false

instance (boilerplate : Text → Bool) (text : Text) : Decidable (Kept boilerplate text) :=
  inferInstanceAs (Decidable (_ ∧ _))

theorem blockVerdict_accepted_iff {seen : List Text} :
    blockVerdict u boilerplate seen text = .accepted ↔
      Kept boilerplate text ∧ u.lower text ∉ seen := by
  unfold blockVerdict Kept
  by_cases htext : text = []
  · simp [htext]
  · by_cases hseen : u.lower text ∈ seen
    · simp [hseen]
    · cases hlow : boilerplate text <;> cases hshort : isShort text <;> simp [htext, hseen]

theorem takeBlock_seen : (takeBlock u boilerplate loop block).seen =
    if Kept boilerplate (normalizeText block) ∧ u.lower (normalizeText block) ∉ loop.seen then
      u.lower (normalizeText block) :: loop.seen
    else loop.seen := by
  simp only [← blockVerdict_accepted_iff, takeBlock]
  cases blockVerdict u boilerplate loop.seen (normalizeText block) <;> rfl

theorem takeBlock_accepted : (takeBlock u boilerplate loop block).accepted =
    if Kept boilerplate (normalizeText block) ∧ u.lower (normalizeText block) ∉ loop.seen then
      loop.accepted ++ [normalizeText block]
    else loop.accepted := by
  simp only [← blockVerdict_accepted_iff, takeBlock]
  cases blockVerdict u boilerplate loop.seen (normalizeText block) <;> rfl

theorem blockVerdict_boilerplate_iff {seen : List Text} :
    blockVerdict u boilerplate seen text = .boilerplate ↔
      text ≠ [] ∧ u.lower text ∉ seen ∧ boilerplate text = true := by
  unfold blockVerdict
  by_cases htext : text = []
  · simp [htext]
  · by_cases hseen : u.lower text ∈ seen
    · simp [hseen]
    · cases hlow : boilerplate text <;> cases hshort : isShort text <;> simp [htext, hseen]

theorem takeBlock_rejectedBoilerplate :
    (takeBlock u boilerplate loop block).rejectedBoilerplate = loop.rejectedBoilerplate +
      if normalizeText block ≠ [] ∧ u.lower (normalizeText block) ∉ loop.seen ∧
          boilerplate (normalizeText block) = true then 1 else 0 := by
  simp only [← blockVerdict_boilerplate_iff, takeBlock]
  cases blockVerdict u boilerplate loop.seen (normalizeText block) <;> rfl

end seen

end Newsintel.Extractors
