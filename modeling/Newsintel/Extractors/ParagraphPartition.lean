import Newsintel.Extractors.ArticleBody

/-!
# What paragraph filtering keeps (adapters/extractors/article_html.py:658-690)

Each block takes one of the four exits of the loop. What is accepted is normalised, so it has no
line break: the extractor finds the same paragraphs in the joined text again when it counts them
(line 439), and the filter keeps all of them once more.
-/

namespace Newsintel.Extractors

open PyText

variable {u : Unicode} {boilerplate : Text → Bool} {blocks texts : List Text} {block text : Text}
  {loop : ParagraphLoop}

/-! ### One block -/

/-- The exits of the loop. -/
inductive Taken (u : Unicode) (boilerplate : Text → Bool) (loop : ParagraphLoop) (text : Text) :
    ParagraphLoop → Prop
  | repeated : Taken u boilerplate loop text { loop with rejected := loop.rejected + 1 }
  | boilerplate : Taken u boilerplate loop text
      { loop with
        rejected := loop.rejected + 1
        rejectedBoilerplate := loop.rejectedBoilerplate + 1 }
  | short : Taken u boilerplate loop text
      { loop with
        rejected := loop.rejected + 1
        rejectedShort := loop.rejectedShort + 1 }
  | accepted : Kept boilerplate text → u.lower text ∉ loop.seen →
      Taken u boilerplate loop text
        { loop with
          accepted := loop.accepted ++ [text]
          seen := u.lower text :: loop.seen }

theorem takeBlock_taken (u : Unicode) (boilerplate : Text → Bool) (loop : ParagraphLoop)
    (block : Text) :
    Taken u boilerplate loop (normalizeText block) (takeBlock u boilerplate loop block) := by
  unfold takeBlock
  dsimp only
  cases hverdict : blockVerdict u boilerplate loop.seen (normalizeText block) with
  | repeated => exact .repeated
  | boilerplate => exact .boilerplate
  | short => exact .short
  | accepted =>
    obtain ⟨hkept, hnew⟩ := blockVerdict_accepted_iff.mp hverdict
    exact .accepted hkept hnew

/-! ### All blocks -/

/-- The variables of the loop after some blocks. -/
structure Partitioned (u : Unicode) (boilerplate : Text → Bool) (blocks : List Text)
    (loop : ParagraphLoop) : Prop where
  counts : loop.accepted.length + loop.rejected = blocks.length
  exits : loop.rejectedBoilerplate + loop.rejectedShort ≤ loop.rejected
  sublist : loop.accepted.Sublist (blocks.map normalizeText)
  kept : ∀ text ∈ loop.accepted, Kept boilerplate text
  seen : loop.seen = (loop.accepted.map u.lower).reverse
  distinct : (loop.accepted.map u.lower).Nodup

theorem partitioned_start (u : Unicode) (boilerplate : Text → Bool) :
    Partitioned u boilerplate [] .start where
  counts := rfl
  exits := Nat.le_refl 0
  sublist := List.Sublist.refl []
  kept := List.forall_mem_nil _
  seen := rfl
  distinct := List.nodup_nil

theorem partitioned_takeBlock (h : Partitioned u boilerplate blocks loop) (block : Text) :
    Partitioned u boilerplate (blocks ++ [block]) (takeBlock u boilerplate loop block) := by
  obtain ⟨hcounts, hexits, hsublist, hkept, hseen, hdistinct⟩ := h
  have hlength : (blocks ++ [block]).length = blocks.length + 1 := List.length_append
  have hskip : loop.accepted.Sublist ((blocks ++ [block]).map normalizeText) := by
    rw [List.map_append]
    exact hsublist.trans (List.sublist_append_left _ _)
  have htaken := takeBlock_taken u boilerplate loop block
  generalize takeBlock u boilerplate loop block = next at htaken ⊢
  cases htaken with
  | repeated => exact ⟨by dsimp only; omega, by dsimp only; omega, hskip, hkept, hseen, hdistinct⟩
  | boilerplate => exact ⟨by dsimp only; omega, by dsimp only; omega, hskip, hkept, hseen, hdistinct⟩
  | short => exact ⟨by dsimp only; omega, by dsimp only; omega, hskip, hkept, hseen, hdistinct⟩
  | accepted hnew hfresh =>
    refine ⟨?_, hexits, ?_, ?_, ?_, ?_⟩
    · show (loop.accepted ++ [normalizeText block]).length + loop.rejected = _
      rw [List.length_append, List.length_singleton]
      omega
    · rw [List.map_append]
      exact hsublist.append (List.Sublist.refl _)
    · intro text htext
      obtain htext | htext := List.mem_append.mp htext
      · exact hkept text htext
      · exact List.mem_singleton.mp htext ▸ hnew
    · rw [List.map_append, List.reverse_append, hseen]
      rfl
    · rw [hseen, List.mem_reverse] at hfresh
      rw [List.map_append]
      exact hdistinct.append (List.nodup_singleton _)
        (List.disjoint_singleton.mpr hfresh)

/- The loop sorts every block into one of its exits. -/
theorem partitioned_paragraphLoop (u : Unicode) (boilerplate : Text → Bool) (blocks : List Text) :
    Partitioned u boilerplate blocks (paragraphLoop u boilerplate blocks) := by
  induction blocks using List.reverseRecOn with
  | nil => exact partitioned_start u boilerplate
  | append_singleton blocks block ih =>
    rw [paragraphLoop, List.foldl_concat]
    exact partitioned_takeBlock ih block

/-! ### Accepted paragraphs -/

/-- `accepted` after the loop. -/
def acceptedParagraphs (u : Unicode) (policy : Option ExtractionPolicy) (blocks : List Text) :
    List Text :=
  (paragraphLoop u (containsAnyPhrase u · (lowValuePhrases policy)) blocks).accepted

/-- `[block for block in text.split("\n\n") if block]` (line 439). -/
def textBlocks (text : Text) : List Text := (splitBlank text).filter (· ≠ [])

/- Paragraphs are found again in the joined text. -/
theorem textBlocks_joinParagraphs (h : ∀ text ∈ texts, '\n' ∉ text ∧ text ≠ []) :
    textBlocks (joinParagraphs texts) = texts := by
  by_cases hnil : texts = []
  · rw [hnil]
    rfl
  · have hself : texts.filter (· ≠ []) = texts :=
      List.filter_eq_self.mpr fun text htext => decide_eq_true (h text htext).2
    rw [textBlocks, joinParagraphs, splitBlank_intercalate (fun text htext => (h text htext).1) hnil,
      hself]

/- Nothing is rejected of normalised texts that are kept and differ in more than case. -/
theorem paragraphLoop_of_kept (hnormal : ∀ text ∈ texts, normalizeText text = text)
    (hkept : ∀ text ∈ texts, Kept boilerplate text) (hdistinct : (texts.map u.lower).Nodup) :
    paragraphLoop u boilerplate texts = ⟨texts, (texts.map u.lower).reverse, 0, 0, 0⟩ := by
  induction texts using List.reverseRecOn with
  | nil => rfl
  | append_singleton texts text ih =>
    rw [List.map_append, List.nodup_append] at hdistinct
    obtain ⟨hfront, -, hnew⟩ := hdistinct
    have hfresh : u.lower text ∉ (texts.map u.lower).reverse := by
      intro hmem
      exact hnew _ (List.mem_reverse.mp hmem) _ (List.mem_singleton.mpr rfl) rfl
    have hmem : text ∈ texts ++ [text] := List.mem_append_right _ (List.mem_singleton.mpr rfl)
    have hverdict := blockVerdict_accepted_iff.mpr ⟨hkept text hmem, hfresh⟩
    have hloop := ih (fun t ht => hnormal t (List.mem_append_left _ ht))
      (fun t ht => hkept t (List.mem_append_left _ ht)) hfront
    rw [paragraphLoop, List.foldl_concat, ← paragraphLoop, hloop]
    simp only [takeBlock, hnormal text hmem, hverdict, List.map_append, List.reverse_append]
    rfl

theorem normalizeText_of_sublist (h : texts.Sublist (blocks.map normalizeText)) (ht : text ∈ texts) :
    normalizeText text = text ∧ '\n' ∉ text := by
  obtain ⟨block, -, rfl⟩ := List.mem_map.mp (h.subset ht)
  exact ⟨normalizeText_normalizeText block, newline_not_mem_normalizeText⟩

/- What is accepted and what is rejected of the blocks of a page, and that the accepted
paragraphs stay as they are when their text is taken apart and filtered again. -/
theorem extractParagraphText_partitions (u : Unicode) (policy : Option ExtractionPolicy)
    (blocks : List Text) :
    let result := extractParagraphText u policy blocks
    let accepted := acceptedParagraphs u policy blocks
    let again := extractParagraphText u policy (textBlocks result.text)
    result.acceptedBlockCount = accepted.length ∧
      result.acceptedBlockCount + result.rejectedBlockCount = blocks.length ∧
      result.rejectedBoilerplateCount + result.rejectedShortCount ≤ result.rejectedBlockCount ∧
      accepted.Sublist (blocks.map normalizeText) ∧
      (accepted.map u.lower).Nodup ∧
      result.text = joinParagraphs accepted ∧
      textBlocks result.text = accepted ∧
      countParagraphs result.text = result.acceptedBlockCount ∧
      again.text = result.text ∧
      again.acceptedBlockCount = accepted.length ∧
      again.rejectedBlockCount = 0 := by
  have hloop := partitioned_paragraphLoop u (containsAnyPhrase u · (lowValuePhrases policy)) blocks
  have hblocks : textBlocks (extractParagraphText u policy blocks).text =
      acceptedParagraphs u policy blocks :=
    textBlocks_joinParagraphs fun text htext =>
      ⟨(normalizeText_of_sublist hloop.sublist htext).2, (hloop.kept text htext).1⟩
  have hagain : extractParagraphText u policy (acceptedParagraphs u policy blocks) =
      ⟨joinParagraphs (acceptedParagraphs u policy blocks),
        (acceptedParagraphs u policy blocks).length, 0, 0, 0⟩ := by
    have hkept := paragraphLoop_of_kept
      (fun text htext => (normalizeText_of_sublist hloop.sublist htext).1) hloop.kept hloop.distinct
    rw [extractParagraphText, acceptedParagraphs, hkept]
    rfl
  have hcount : countParagraphs (extractParagraphText u policy blocks).text =
      (extractParagraphText u policy blocks).acceptedBlockCount := congrArg List.length hblocks
  dsimp only
  rw [hblocks, hagain]
  exact ⟨rfl, hloop.counts, hloop.exits, hloop.sublist, hloop.distinct, rfl, rfl, hcount, rfl, rfl,
    rfl⟩

end Newsintel.Extractors
