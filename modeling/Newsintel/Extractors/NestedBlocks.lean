import Newsintel.Extractors.Paragraphs
import Newsintel.Extractors.VisibleText

/-!
# Nested blocks (article_html.py:291-331, 658-690)

A closed block is emitted, and its text becomes a piece of the block around it. `read` is what the
parser makes of a document without skipped elements, with the texts that each block is made of.
-/

namespace Newsintel.Extractors

open PyText

/-! ### Blocks and their texts -/

/-- A closed block, the numbers of the texts in it that are not blank, and how many closed blocks
lie inside it. -/
structure SourcedBlock where
  text : Text
  sources : List ℕ
  inner : ℕ
  deriving DecidableEq, Repr

/-- Pieces of the open block, closed blocks, the flag of the title, and the next number. -/
structure Reading where
  pieces : List (Text × List ℕ)
  blocks : List SourcedBlock
  inTitle : Bool
  next : ℕ
  deriving DecidableEq, Repr

namespace Reading

/-- The texts that the pieces are made of. -/
def sources (r : Reading) : List ℕ := r.pieces.flatMap Prod.snd

/-- The text of the open block, when it is closed. -/
def text (r : Reading) : Text := normalizeText (join (r.pieces.map Prod.fst))

/-- The end of an element: a block becomes a piece of the block around it. -/
def close (tagName : Text) (r : Reading) : Reading :=
  if blockTags.contains tagName then
    if r.text = [] then { r with pieces := [] }
    else
      { r with
        pieces := [(r.text, r.sources)]
        blocks := r.blocks ++ [⟨r.text, r.sources, r.blocks.length⟩] }
  else r

/-- Siblings, the second with what follows. -/
def append (r r' : Reading) : Reading where
  pieces := r.pieces ++ r'.pieces
  blocks := r.blocks ++ r'.blocks
  inTitle := r'.inTitle
  next := r'.next

end Reading

namespace Html

/-- A text, the first of its siblings. -/
def readData (inTitle : Bool) (i : ℕ) (data : Text) : Reading where
  pieces := if inTitle then [] else [(data, if normalizeText data = [] then [] else [i])]
  blocks := []
  inTitle
  next := i + 1

/-- The document from the text with number `i` on. -/
def read (u : Unicode) : Bool → ℕ → Html → Reading
  | inTitle, i, nil => ⟨[], [], inTitle, i⟩
  | inTitle, i, text data rest => (readData inTitle i data).append (read u inTitle (i + 1) rest)
  | inTitle, i, void _ _ rest => read u inTitle i rest
  | inTitle, i, elem tag _ children rest =>
    let inner := read u (inTitle || u.lower tag = "title".toList) i children
    (inner.close (u.lower tag)).append
      (read u (inner.inTitle && u.lower tag ≠ "title".toList) inner.next rest)

/-- No element is skipped. -/
def unskipped (u : Unicode) (policy : Option ExtractionPolicy) : Html → Bool
  | nil => true
  | text _ rest => unskipped u policy rest
  | void tag attrs rest => !skipped u policy tag attrs && unskipped u policy rest
  | elem tag attrs children rest =>
    !skipped u policy tag attrs && unskipped u policy children && unskipped u policy rest

end Html

variable {u : Unicode} {baseUrl tag tagName data : Text} {policy : Option ExtractionPolicy}
  {attrs : Attrs} {st st' st₁ st₂ : ArticleHtmlParser} {d children rest : Html} {inTitle : Bool}
  {i j : ℕ} {r r' : Reading}

/-! ### The parser reads the blocks -/

/-- The parser outside skipped elements and scripts. -/
structure Unskipping (inTitle : Bool) (st : ArticleHtmlParser) : Prop where
  skipStack : st.skipStack = []
  skipDepth : st.skipDepth = 0
  captureJsonLd : st.captureJsonLd = false
  inTitle : st.inTitle = inTitle

/-- The parser goes from one state to the other over what is read. -/
structure ReadsTo (r : Reading) (st st' : ArticleHtmlParser) : Prop where
  blocks : st'.blocks = st.blocks ++ r.blocks.map (·.text)
  blockStack : st'.blockStack = addPieces (r.pieces.map Prod.fst) st.blockStack
  state : Unskipping r.inTitle st'

theorem ReadsTo.append (h : ReadsTo r st st₁) (h' : ReadsTo r' st₁ st₂) :
    ReadsTo (r.append r') st st₂ := by
  refine ⟨?_, ?_, h'.state⟩
  · rw [h'.blocks, h.blocks, Reading.append, List.map_append, List.append_assoc]
  · rw [h'.blockStack, h.blockStack, addPieces_append, Reading.append, List.map_append]

theorem Unskipping.readData (h : Unskipping inTitle st) (i : ℕ) (data : Text) :
    ReadsTo (Html.readData inTitle i data) st (handleData data st) := by
  have hcapture := h.captureJsonLd
  have hdepth := h.skipDepth
  have htitle := h.inTitle
  cases inTitle with
  | true =>
    have hdata : handleData data st = { st with titleParts := st.titleParts ++ [data] } := by
      simp [handleData, hcapture, htitle]
    rw [hdata]
    refine ⟨(List.append_nil _).symm, (addPieces_nil _).symm, ?_⟩
    exact ⟨h.skipStack, h.skipDepth, h.captureJsonLd, h.inTitle⟩
  | false =>
    have hdata : handleData data st = { st with blockStack := appendPiece data st.blockStack } := by
      simp [handleData, hcapture, htitle, hdepth]
    rw [hdata]
    refine ⟨(List.append_nil _).symm, appendPiece_eq data st.blockStack, ?_⟩
    exact ⟨h.skipStack, h.skipDepth, h.captureJsonLd, h.inTitle⟩

theorem Unskipping.start (h : Unskipping inTitle st) (hskip : skipped u policy tag attrs = false)
    (hstart : handleStarttag u baseUrl policy tag attrs st = .ok st₁) :
    Unskipping (inTitle || u.lower tag = "title".toList) st₁ ∧ st₁.blocks = st.blocks ∧
      st₁.blockStack = if blockTags.contains (u.lower tag) then
        { tag := u.lower tag, pieces := [] } :: st.blockStack else st.blockStack := by
  have hskip' : skipped u policy tag attrs ≠ true := Bool.eq_false_iff.mp hskip
  have hscript := unskipped_ne_script hskip'
  obtain ⟨links, rfl⟩ := handleStarttag_ok hstart
  refine ⟨⟨?_, ?_, ?_, ?_⟩, rfl, ?_⟩
  · simp [openElement, hskip, h.skipStack]
  · simp [openElement, hskip, h.skipDepth]
  · show (st.captureJsonLd || (decide (u.lower tag = "script".toList) && _)) = false
    rw [h.captureJsonLd, decide_eq_false hscript, Bool.false_and, Bool.or_false]
  · simp [openElement, h.inTitle]
  · simp [openElement, hskip, h.skipDepth]

/- The end tag of an element closes the block that its start tag opened. -/
theorem ReadsTo.finish (h : ReadsTo r st₁ st₂) (hblocks : st₁.blocks = st.blocks)
    (hstack : st₁.blockStack = if blockTags.contains (u.lower tag) then
      { tag := u.lower tag, pieces := [] } :: st.blockStack else st.blockStack) :
    ReadsTo
      { r.close (u.lower tag) with inTitle := r.inTitle && u.lower tag ≠ "title".toList } st
      (handleEndtag u tag st₂) := by
  obtain ⟨hflagT, hflagS⟩ := closeElement_flags (u.lower tag) (closeHead (u.lower tag) st₂)
  have hout : u.lower tag ∉ st₂.skipStack := by
    rw [h.state.skipStack]
    exact List.not_mem_nil
  have hend := handleEndtag_unskipped (u := u) hout
  have hcapture : (handleEndtag u tag st₂).captureJsonLd = false :=
    hflagS.trans (closeHead_captureJsonLd (Or.inr h.state.captureJsonLd))
  have htitle : (handleEndtag u tag st₂).inTitle =
      (r.inTitle && u.lower tag ≠ "title".toList) := by
    rw [← h.state.inTitle]
    exact hflagT
  by_cases hblock : blockTags.contains (u.lower tag) = true
  · rw [if_pos hblock] at hstack hend
    have hpop : popBlock (u.lower tag) (closeHead (u.lower tag) st₂).blockStack =
        some ({ tag := u.lower tag, pieces := r.pieces.map Prod.fst }, st.blockStack) := by
      simp [h.blockStack, hstack, addPieces, popBlock]
    simp only [closeBlock, hpop] at hend
    have hskip : (handleEndtag u tag st₂).skipStack = [] ∧
        (handleEndtag u tag st₂).skipDepth = 0 := by
      rw [hend]
      exact ⟨h.state.skipStack, h.state.skipDepth⟩
    by_cases htext : r.text = []
    · have htext' : normalizeText (join (r.pieces.map Prod.fst)) = [] := htext
      rw [Reading.close, if_pos hblock, if_pos htext]
      refine ⟨?_, ?_, hskip.1, hskip.2, hcapture, htitle⟩
      · rw [hend]
        simp only [if_pos htext', closeHead_blocks, h.blocks, hblocks]
      · rw [hend]
        simp only [if_pos htext', List.map_nil, addPieces_nil]
    · have htext' : normalizeText (join (r.pieces.map Prod.fst)) ≠ [] := htext
      rw [Reading.close, if_pos hblock, if_neg htext]
      refine ⟨?_, ?_, hskip.1, hskip.2, hcapture, htitle⟩
      · rw [hend]
        simp only [if_neg htext', closeHead_blocks, h.blocks, hblocks, List.map_append,
          List.append_assoc]
        rfl
      · rw [hend]
        simp only [if_neg htext', appendPiece_eq]
        rfl
  · rw [if_neg hblock] at hstack hend
    rw [Reading.close, if_neg hblock]
    refine ⟨?_, ?_, ?_, ?_, hcapture, htitle⟩
    · rw [hend, closeHead_blocks, h.blocks, hblocks]
    · rw [hend, closeHead_blockStack, h.blockStack, hstack]
    · rw [hend]
      exact h.state.skipStack
    · rw [hend]
      exact h.state.skipDepth

theorem close_next (tagName : Text) (r : Reading) : (r.close tagName).next = r.next := by
  rw [Reading.close]
  split
  · split <;> rfl
  · rfl

/- The blocks that the parser emits are those that are read. -/
theorem feed_read (d : Html) (i : ℕ) (hw : d.wellFormed u = true)
    (hskip : d.unskipped u policy = true) (hstate : Unskipping inTitle st)
    (h : feed u baseUrl policy st d.callbacks = .ok st') :
    ReadsTo (d.read u inTitle i) st st' := by
  induction d generalizing inTitle i st st' with
  | nil =>
    rw [feed_nil, Except.ok.injEq] at h
    subst h
    exact ⟨(List.append_nil _).symm, (addPieces_nil _).symm, hstate⟩
  | text data rest ih =>
    rw [feed_text] at h
    have hdata := hstate.readData i data
    exact hdata.append (ih (i + 1) hw hskip hdata.state h)
  | void tag attrs rest ih =>
    obtain ⟨hvoid, hwr⟩ := wellFormed_void_iff.mp hw
    simp only [Html.unskipped, Bool.and_eq_true, Bool.not_eq_true'] at hskip
    rw [feed_void] at h
    obtain ⟨st₁, hstart, hrest⟩ := bind_ok h
    obtain ⟨hstate₁, hblocks, hstack⟩ := hstate.start hskip.1 hstart
    have hnb : ¬ blockTags.contains (u.lower tag) = true := by
      simpa using block_not_void hvoid
    have hnt : u.lower tag ≠ "title".toList := fun he => title_not_void (he ▸ hvoid)
    rw [if_neg hnb] at hstack
    rw [decide_eq_false hnt, Bool.or_false] at hstate₁
    obtain ⟨hblocks', hstack', hstate'⟩ := ih i hwr hskip.2 hstate₁ hrest
    rw [hblocks] at hblocks'
    rw [hstack] at hstack'
    exact ⟨hblocks', hstack', hstate'⟩
  | elem tag attrs children rest ihc ihr =>
    obtain ⟨_, hwc, hwr⟩ := wellFormed_elem_iff.mp hw
    simp only [Html.unskipped, Bool.and_eq_true, Bool.not_eq_true'] at hskip
    rw [feed_elem] at h
    obtain ⟨st₁, hstart, h⟩ := bind_ok h
    obtain ⟨st₂, hchildren, hrest⟩ := bind_ok h
    obtain ⟨hstate₁, hblocks, hstack⟩ := hstate.start hskip.1.1 hstart
    have hinner := ihc i hwc hskip.1.2 hstate₁ hchildren
    have hclosed := hinner.finish hblocks hstack
    exact hclosed.append (ihr _ hwr hskip.2 hclosed.state hrest)

/-! ### Where the blocks lie -/

/-- What is read from number `start` on. -/
structure Laid (start : ℕ) (r : Reading) : Prop where
  monotone : start ≤ r.next
  bounded : ∀ n ∈ r.sources, start ≤ n ∧ n < r.next
  blank : ∀ p ∈ r.pieces, p.2 = [] ↔ normalizeText p.1 = []
  within : ∀ b ∈ r.blocks, b.sources ⊆ r.sources
  nonempty : ∀ b ∈ r.blocks, b.sources ≠ []
  normalized : ∀ b ∈ r.blocks, normalizeText b.text = b.text
  inner_le : ∀ (j : ℕ) (b : SourcedBlock), r.blocks[j]? = some b → b.inner ≤ j
  nested : ∀ (i j : ℕ) (a b : SourcedBlock), i < j → r.blocks[i]? = some a → r.blocks[j]? = some b →
    ((∃ n ∈ a.sources, n ∈ b.sources) ↔ j ≤ i + b.inner)

theorem Reading.text_eq_nil_iff (h : ∀ p ∈ r.pieces, p.2 = [] ↔ normalizeText p.1 = []) :
    r.text = [] ↔ r.sources = [] := by
  rw [Reading.text, normalizeText_eq_nil_iff, words_join, List.flatMap_map, Reading.sources,
    List.flatMap_eq_nil_iff, List.flatMap_eq_nil_iff]
  refine forall₂_congr fun p hp => ?_
  rw [← normalizeText_eq_nil_iff]
  exact (h p hp).symm

theorem laid_nil (inTitle : Bool) (i : ℕ) : Laid i ⟨[], [], inTitle, i⟩ := by
  refine ⟨Nat.le_refl i, ?_, ?_, ?_, ?_, ?_, ?_, ?_⟩ <;> simp [Reading.sources]

theorem laid_readData (inTitle : Bool) (i : ℕ) (data : Text) :
    Laid i (Html.readData inTitle i data) := by
  refine ⟨Nat.le_succ i, ?_, ?_, ?_, ?_, ?_, ?_, ?_⟩
  · intro n hn
    have hi : n = i := by
      cases inTitle with
      | true => cases hn
      | false =>
        by_cases hblank : normalizeText data = []
        · simp [Html.readData, Reading.sources, hblank] at hn
        · simpa [Html.readData, Reading.sources, hblank] using hn
    subst hi
    exact ⟨Nat.le_refl n, Nat.lt_succ_self n⟩
  · intro p hp
    cases inTitle with
    | true => cases hp
    | false =>
      obtain rfl := List.mem_singleton.mp hp
      by_cases hblank : normalizeText data = [] <;> simp [hblank]
  all_goals simp [Html.readData]

/- Siblings have numbers apart. -/
theorem Laid.append {start : ℕ} (h : Laid start r) (h' : Laid r.next r') :
    Laid start (r.append r') := by
  have hsources : (r.append r').sources = r.sources ++ r'.sources := List.flatMap_append
  have hnext := h.monotone
  have hnext' := h'.monotone
  refine ⟨hnext.trans hnext', ?_, ?_, ?_, ?_, ?_, ?_, ?_⟩
  · intro n hn
    rw [hsources, List.mem_append] at hn
    show start ≤ n ∧ n < r'.next
    obtain hn | hn := hn
    · have hbound := h.bounded n hn
      omega
    · have hbound := h'.bounded n hn
      omega
  · exact List.forall_mem_append.mpr ⟨h.blank, h'.blank⟩
  · rw [hsources]
    exact List.forall_mem_append.mpr
      ⟨fun b hb => List.Subset.trans (h.within b hb) (List.subset_append_left _ _),
        fun b hb => List.Subset.trans (h'.within b hb) (List.subset_append_right _ _)⟩
  · exact List.forall_mem_append.mpr ⟨h.nonempty, h'.nonempty⟩
  · exact List.forall_mem_append.mpr ⟨h.normalized, h'.normalized⟩
  · intro j b hb
    obtain hj | hj := Nat.lt_or_ge j r.blocks.length
    · exact h.inner_le j b (List.getElem?_append_left hj ▸ hb)
    · have hle := h'.inner_le _ b (List.getElem?_append_right hj ▸ hb)
      omega
  · intro i j a b hij ha hb
    obtain hj | hj := Nat.lt_or_ge j r.blocks.length
    · exact h.nested i j a b hij (List.getElem?_append_left (hij.trans hj) ▸ ha)
        (List.getElem?_append_left hj ▸ hb)
    · have hb' := List.getElem?_append_right hj ▸ hb
      obtain hi | hi := Nat.lt_or_ge i r.blocks.length
      · have hle := h'.inner_le _ b hb'
        refine iff_of_false ?_ (by omega)
        rintro ⟨n, hna, hnb⟩
        have hbound := h.bounded n
          (h.within a (List.mem_of_getElem? (List.getElem?_append_left hi ▸ ha)) hna)
        have hbound' := h'.bounded n (h'.within b (List.mem_of_getElem? hb') hnb)
        omega
      · rw [h'.nested _ _ a b (Nat.sub_lt_sub_right hi hij)
          (List.getElem?_append_right hi ▸ ha) hb']
        omega

/- A closed block has all that is in it, and is all that the block around it gets. -/
theorem Laid.close {start : ℕ} (h : Laid start r) (tagName : Text) (flag : Bool) :
    Laid start { r.close tagName with inTitle := flag } := by
  rw [Reading.close]
  split
  · have htext := Reading.text_eq_nil_iff h.blank
    split
    · rename_i hblank
      have hnone : r.blocks = [] := by
        rw [List.eq_nil_iff_forall_not_mem]
        intro b hb
        have hwithin := h.within b hb
        rw [htext.mp hblank, List.subset_nil] at hwithin
        exact h.nonempty b hb hwithin
      refine ⟨h.monotone, ?_, ?_, ?_, ?_, ?_, ?_, ?_⟩ <;> simp [Reading.sources, hnone]
    · rename_i hne
      have hsources : ∀ {blocks : List SourcedBlock} {flag : Bool} {next : ℕ},
          Reading.sources ⟨[(r.text, r.sources)], blocks, flag, next⟩ = r.sources := by
        intro blocks flag next
        exact List.flatMap_singleton _ _
      refine ⟨h.monotone, ?_, ?_, ?_, ?_, ?_, ?_, ?_⟩
      · rw [hsources]
        exact h.bounded
      · rintro p hp
        obtain rfl := List.mem_singleton.mp hp
        show r.sources = [] ↔ normalizeText r.text = []
        rw [Reading.text, normalizeText_normalizeText]
        exact htext.symm
      · rw [hsources]
        exact List.forall_mem_append.mpr
          ⟨h.within, List.forall_mem_singleton.mpr (List.Subset.refl _)⟩
      · exact List.forall_mem_append.mpr
          ⟨h.nonempty, List.forall_mem_singleton.mpr (mt htext.mpr hne)⟩
      · exact List.forall_mem_append.mpr
          ⟨h.normalized, List.forall_mem_singleton.mpr (normalizeText_normalizeText _)⟩
      · intro j b hb
        obtain hj | hj := Nat.lt_or_ge j r.blocks.length
        · exact h.inner_le j b (List.getElem?_append_left hj ▸ hb)
        · obtain rfl := List.mem_singleton.mp
            (List.mem_of_getElem? (List.getElem?_append_right hj ▸ hb))
          exact hj
      · intro i j a b hij ha hb
        have hj' := (List.getElem?_eq_some_iff.mp hb).1
        rw [List.length_append, List.length_singleton] at hj'
        have hi : i < r.blocks.length := by omega
        have ha' := List.getElem?_append_left hi ▸ ha
        obtain hj | hj := Nat.lt_or_ge j r.blocks.length
        · exact h.nested i j a b hij ha' (List.getElem?_append_left hj ▸ hb)
        · obtain rfl := List.mem_singleton.mp
            (List.mem_of_getElem? (List.getElem?_append_right hj ▸ hb))
          refine iff_of_true ?_ (by show j ≤ i + r.blocks.length; omega)
          obtain ⟨n, hn⟩ := List.exists_mem_of_ne_nil _ (h.nonempty a (List.mem_of_getElem? ha'))
          exact ⟨n, hn, h.within a (List.mem_of_getElem? ha') hn⟩
  · exact ⟨h.monotone, h.bounded, h.blank, h.within, h.nonempty, h.normalized, h.inner_le,
      h.nested⟩

theorem laid_read (d : Html) (inTitle : Bool) (i : ℕ) : Laid i (d.read u inTitle i) := by
  induction d generalizing inTitle i with
  | nil => exact laid_nil inTitle i
  | text data rest ih => exact (laid_readData inTitle i data).append (ih inTitle (i + 1))
  | void tag attrs rest ih => exact ih inTitle i
  | elem tag attrs children rest ihc ihr =>
    have hclosed := (ihc (inTitle || u.lower tag = "title".toList) i).close (u.lower tag) true
    have hnext := close_next (u.lower tag)
      (children.read u (inTitle || u.lower tag = "title".toList) i)
    exact hclosed.append (hnext ▸ ihr _ _)

/-! ### Accepted blocks -/

section accepted

variable (u : Unicode) (boilerplate : Text → Bool)

/-- The blocks of accepted paragraphs, behind texts seen before. -/
def acceptedBlocks : List Text → List SourcedBlock → List SourcedBlock
  | _, [] => []
  | seen, b :: bs =>
    if Kept boilerplate b.text ∧ seen.contains (u.lower b.text) = false then
      b :: acceptedBlocks (u.lower b.text :: seen) bs
    else acceptedBlocks seen bs

/-- Block number `i` is kept, and has no text seen before, nor one of a kept block before it. -/
def AcceptedAt (seen : List Text) (bs : List SourcedBlock) (i : ℕ) : Prop :=
  ∃ b, bs[i]? = some b ∧ Kept boilerplate b.text ∧ u.lower b.text ∉ seen ∧
    ∀ k < i, ∀ a, bs[k]? = some a → Kept boilerplate a.text → u.lower a.text ≠ u.lower b.text

/-- No two blocks are made of one text of the document. -/
def OnceOnly (bs : List SourcedBlock) : Prop :=
  bs.Pairwise fun a b => ¬ ∃ n ∈ a.sources, n ∈ b.sources

/-- Of two blocks, one inside the other, one is not accepted. -/
def NestedApart (bs : List SourcedBlock) : Prop :=
  ∀ (i j : ℕ) (b : SourcedBlock), i < j → bs[j]? = some b → j ≤ i + b.inner →
    ¬ (AcceptedAt u boilerplate [] bs i ∧ AcceptedAt u boilerplate [] bs j)

variable {u boilerplate} {seen : List Text} {b : SourcedBlock} {bs : List SourcedBlock}

theorem acceptedBlocks_cons : acceptedBlocks u boilerplate seen (b :: bs) =
    if Kept boilerplate b.text ∧ u.lower b.text ∉ seen then
      b :: acceptedBlocks u boilerplate (u.lower b.text :: seen) bs
    else acceptedBlocks u boilerplate seen bs := by
  simp only [acceptedBlocks, List.contains_eq_mem, decide_eq_false_iff_not]

theorem acceptedAt_zero : AcceptedAt u boilerplate seen (b :: bs) 0 ↔
    Kept boilerplate b.text ∧ u.lower b.text ∉ seen := by
  constructor
  · rintro ⟨c, hc, hkept, hseen, _⟩
    obtain rfl := Option.some.inj hc
    exact ⟨hkept, hseen⟩
  · rintro ⟨hkept, hseen⟩
    exact ⟨b, rfl, hkept, hseen, fun k hk => absurd hk (Nat.not_lt_zero k)⟩

/- The blocks behind the first are accepted as if its text had been seen. -/
theorem acceptedAt_succ : AcceptedAt u boilerplate seen (b :: bs) (i + 1) ↔
    AcceptedAt u boilerplate
      (if Kept boilerplate b.text ∧ u.lower b.text ∉ seen then u.lower b.text :: seen else seen)
      bs i := by
  constructor
  · rintro ⟨c, hc, hkept, hseen, hbefore⟩
    refine ⟨c, hc, hkept, ?_, fun k hk a ha => hbefore (k + 1) (Nat.succ_lt_succ hk) a ha⟩
    split
    · rename_i hb
      rw [List.mem_cons, not_or]
      exact ⟨(hbefore 0 (Nat.succ_pos i) b rfl hb.1).symm, hseen⟩
    · exact hseen
  · rintro ⟨c, hc, hkept, hseen, hbefore⟩
    have hsplit : u.lower c.text ∉ seen ∧
        (Kept boilerplate b.text → u.lower b.text ≠ u.lower c.text) := by
      split at hseen
      · rw [List.mem_cons, not_or] at hseen
        exact ⟨hseen.2, fun _ => Ne.symm hseen.1⟩
      · rename_i hb
        refine ⟨hseen, fun hkept hsame => ?_⟩
        exact hb ⟨hkept, hsame ▸ hseen⟩
    refine ⟨c, hc, hkept, hsplit.1, ?_⟩
    intro k hk a ha
    cases k with
    | zero =>
      obtain rfl := Option.some.inj ha
      exact hsplit.2
    | succ k => exact hbefore k (Nat.lt_of_succ_lt_succ hk) a ha

theorem mem_acceptedBlocks {c : SourcedBlock} :
    c ∈ acceptedBlocks u boilerplate seen bs ↔
      ∃ i, bs[i]? = some c ∧ AcceptedAt u boilerplate seen bs i := by
  induction bs generalizing seen with
  | nil =>
    rw [acceptedBlocks]
    constructor
    · intro hc
      cases hc
    · rintro ⟨i, hi, _⟩
      cases hi
  | cons b bs ih =>
    have hrest : (∃ i, bs[i]? = some c ∧ AcceptedAt u boilerplate seen (b :: bs) (i + 1)) ↔
        c ∈ acceptedBlocks u boilerplate
          (if Kept boilerplate b.text ∧ u.lower b.text ∉ seen then u.lower b.text :: seen
            else seen) bs := by
      simp only [acceptedAt_succ]
      exact ih.symm
    rw [← Nat.or_exists_add_one]
    simp only [List.getElem?_cons_zero, List.getElem?_cons_succ]
    rw [hrest, acceptedAt_zero, acceptedBlocks_cons]
    split
    · rename_i hb
      rw [List.mem_cons]
      simp only [hb, and_self, and_true, not_false_eq_true, Option.some.injEq]
      rw [eq_comm]
    · rename_i hb
      simp only [hb, and_false, false_or]

/- Among the accepted blocks, those are apart that are accepted at their places. -/
theorem onceOnly_accepted_iff : OnceOnly (acceptedBlocks u boilerplate seen bs) ↔
    ∀ (i j : ℕ) (a b : SourcedBlock), i < j → bs[i]? = some a → bs[j]? = some b →
      AcceptedAt u boilerplate seen bs i → AcceptedAt u boilerplate seen bs j →
        ¬ ∃ n ∈ a.sources, n ∈ b.sources := by
  induction bs generalizing seen with
  | nil =>
    refine iff_of_true List.Pairwise.nil ?_
    intro i j a b _ ha
    cases ha
  | cons c bs ih =>
    have htail := @ih
      (if Kept boilerplate c.text ∧ u.lower c.text ∉ seen then u.lower c.text :: seen else seen)
    constructor
    · intro hpairwise i j a b hij ha hb hi hj
      obtain ⟨j, rfl⟩ := Nat.exists_eq_add_one_of_ne_zero (Nat.ne_zero_of_lt hij)
      rw [acceptedAt_succ] at hj
      rw [acceptedBlocks_cons] at hpairwise
      cases i with
      | zero =>
        obtain rfl := Option.some.inj ha
        have hc := acceptedAt_zero.mp hi
        rw [if_pos hc] at hpairwise hj
        exact (List.pairwise_cons.mp hpairwise).1 b (mem_acceptedBlocks.mpr ⟨j, hb, hj⟩)
      | succ i =>
        rw [acceptedAt_succ] at hi
        refine htail.mp ?_ i j a b (Nat.lt_of_succ_lt_succ hij) ha hb hi hj
        split at hpairwise
        · rename_i hc
          rw [if_pos hc]
          exact (List.pairwise_cons.mp hpairwise).2
        · rename_i hc
          rw [if_neg hc]
          exact hpairwise
    · intro hplaces
      have hrest := htail.mpr fun i j a b hij ha hb hi hj =>
        hplaces (i + 1) (j + 1) a b (Nat.succ_lt_succ hij) ha hb (acceptedAt_succ.mpr hi)
          (acceptedAt_succ.mpr hj)
      rw [acceptedBlocks_cons]
      split
      · rename_i hc
        rw [if_pos hc] at hrest
        refine List.pairwise_cons.mpr ⟨fun b hb => ?_, hrest⟩
        obtain ⟨j, hj, haccepted⟩ := mem_acceptedBlocks.mp hb
        refine hplaces 0 (j + 1) c b (Nat.succ_pos j) rfl hj (acceptedAt_zero.mpr hc) ?_
        rw [acceptedAt_succ, if_pos hc]
        exact haccepted
      · rename_i hc
        rw [if_neg hc] at hrest
        exact hrest

/- The loop over the texts accepts the texts of these blocks. -/
theorem foldl_takeBlock_accepted (hnormalized : ∀ b ∈ bs, normalizeText b.text = b.text)
    (loop : ParagraphLoop) :
    ((bs.map (·.text)).foldl (takeBlock u boilerplate) loop).accepted =
      loop.accepted ++ (acceptedBlocks u boilerplate loop.seen bs).map (·.text) := by
  induction bs generalizing loop with
  | nil => exact (List.append_nil _).symm
  | cons b bs ih =>
    obtain ⟨hb, hbs⟩ := List.forall_mem_cons.mp hnormalized
    rw [List.map_cons, List.foldl_cons, ih hbs, takeBlock_accepted, takeBlock_seen, hb,
      acceptedBlocks_cons]
    split
    · rw [List.map_cons, List.append_assoc, List.singleton_append]
    · rfl

end accepted

/-! ### Each text once -/

/-- The blocks of a document, as they are closed. -/
def Html.closedBlocks (u : Unicode) (d : Html) : List SourcedBlock := (d.read u false 0).blocks

/-- The innermost blocks differ, ignoring case. -/
def Html.InnermostDistinct (u : Unicode) (d : Html) : Prop :=
  (((d.closedBlocks u).filter (·.inner = 0)).map fun b => u.lower b.text).Nodup

instance (u : Unicode) (d : Html) : Decidable (d.InnermostDistinct u) :=
  inferInstanceAs (Decidable (List.Nodup _))

/-- The blocks of the accepted paragraphs of a document. -/
def Html.acceptedParagraphs (u : Unicode) (policy : Option ExtractionPolicy) (d : Html) :
    List SourcedBlock :=
  acceptedBlocks u (containsAnyPhrase u · (lowValuePhrases policy)) [] (d.closedBlocks u)

theorem unskipping_newParser : Unskipping false newParser := ⟨rfl, rfl, rfl, rfl⟩

/- The paragraphs are the texts of the accepted blocks. -/
theorem paragraphLoop_read (hw : d.wellFormed u = true) (hskip : d.unskipped u policy = true)
    (h : feed u baseUrl policy newParser d.callbacks = .ok st) :
    (paragraphLoop u (containsAnyPhrase u · (lowValuePhrases policy)) st.blocks).accepted =
      (d.acceptedParagraphs u policy).map (·.text) := by
  have hblocks : st.blocks = (d.closedBlocks u).map (·.text) :=
    (feed_read d 0 hw hskip unskipping_newParser h).blocks
  have hnormalized : ∀ b ∈ d.closedBlocks u, normalizeText b.text = b.text :=
    (laid_read d false 0).normalized
  rw [hblocks, paragraphLoop, foldl_takeBlock_accepted hnormalized, ParagraphLoop.start,
    List.nil_append]
  rfl

/- A text is in two paragraphs exactly where a block and a block around it are both accepted. -/
theorem extractedOnce_iff (u : Unicode) (baseUrl : Text) (policy : Option ExtractionPolicy)
    (d : Html) (hw : d.wellFormed u = true) (hskip : d.unskipped u policy = true)
    (st : ArticleHtmlParser) (h : feed u baseUrl policy newParser d.callbacks = .ok st) :
    (extractParagraphText u policy st.blocks).text =
        joinParagraphs ((d.acceptedParagraphs u policy).map (·.text)) ∧
      (extractParagraphText u policy st.blocks).acceptedBlockCount =
          (d.acceptedParagraphs u policy).length ∧
        (OnceOnly (d.acceptedParagraphs u policy) ↔
          NestedApart u (containsAnyPhrase u · (lowValuePhrases policy)) (d.closedBlocks u)) := by
  have haccepted := paragraphLoop_read hw hskip h
  have hlaid : Laid 0 (d.read u false 0) := laid_read d false 0
  refine ⟨?_, ?_, ?_⟩
  · rw [extractParagraphText, ParagraphLoop.result, haccepted]
  · rw [extractParagraphText, ParagraphLoop.result, haccepted, List.length_map]
  · rw [Html.acceptedParagraphs, onceOnly_accepted_iff]
    constructor
    · rintro hplaces i j b hij hb hinner ⟨hi, hj⟩
      obtain ⟨a, ha, _⟩ := hi
      exact hplaces i j a b hij ha hb ⟨a, ha, ‹_›⟩ hj
        ((hlaid.nested i j a b hij ha hb).mpr hinner)
    · intro hapart i j a b hij ha hb hi hj hshares
      exact hapart i j b hij hb ((hlaid.nested i j a b hij ha hb).mp hshares) ⟨hi, hj⟩

/-! ### A list item, and a quotation -/

/-- `<li><p>text</p></li>`. -/
def listItem (text : Text) : Html := .elem "li".toList [] (paragraph text .nil) .nil

/-- `<blockquote><p>first</p><p>second</p></blockquote>`. -/
def quotation (first second : Text) : Html :=
  .elem "blockquote".toList [] (paragraph first (paragraph second .nil)) .nil

/- The item repeats its paragraph, and is dropped. -/
theorem listItem_once : ∃ st, feed asciiUnicode [] none newParser
      (listItem "It was agreed.".toList).callbacks = .ok st ∧
    OnceOnly ((listItem "It was agreed.".toList).acceptedParagraphs asciiUnicode none) := by
  obtain ⟨st, hst⟩ : ∃ st, feed asciiUnicode [] none newParser
      (listItem "It was agreed.".toList).callbacks = .ok st := feed_isOk none _ (by decide) _
  refine ⟨st, hst, (extractedOnce_iff asciiUnicode [] none (listItem "It was agreed.".toList)
    (by decide) (by decide) st hst).2.2.mpr ?_⟩
  have hblocks : (listItem "It was agreed.".toList).closedBlocks asciiUnicode =
      [⟨"It was agreed.".toList, [0], 0⟩, ⟨"It was agreed.".toList, [0], 1⟩] := by decide
  rw [hblocks]
  rintro i j b hij hb - ⟨_, c, hc, _, _, hbefore⟩
  have hj := (List.getElem?_eq_some_iff.mp hb).1
  rw [List.length_cons, List.length_singleton] at hj
  obtain rfl : j = 1 := by omega
  obtain rfl := Option.some.inj hc
  exact hbefore 0 Nat.one_pos _ rfl (by decide) rfl

/- The quotation is a paragraph of its own, behind the two paragraphs in it. -/
theorem quotation_not_once :
    ¬ ∀ (u : Unicode) (baseUrl : Text) (policy : Option ExtractionPolicy) (d : Html),
      d.wellFormed u = true → d.unskipped u policy = true → d.InnermostDistinct u →
        ∀ st, feed u baseUrl policy newParser d.callbacks = .ok st →
          OnceOnly (d.acceptedParagraphs u policy) := by
  intro h
  obtain ⟨st, hst⟩ : ∃ st, feed asciiUnicode [] none newParser
      (quotation "It was agreed.".toList "It was signed.".toList).callbacks = .ok st :=
    feed_isOk none _ (by decide) _
  have honce := h asciiUnicode [] none (quotation "It was agreed.".toList "It was signed.".toList)
    (by decide) (by decide) (by decide) st hst
  have haccepted : (quotation "It was agreed.".toList "It was signed.".toList).acceptedParagraphs
      asciiUnicode none =
        [⟨"It was agreed.".toList, [0], 0⟩, ⟨"It was signed.".toList, [1], 0⟩,
          ⟨"It was agreed. It was signed.".toList, [0, 1], 2⟩] := by decide +kernel
  rw [haccepted] at honce
  have hfirst := (List.pairwise_cons.mp honce).1 ⟨"It was agreed. It was signed.".toList, [0, 1], 2⟩
    (by decide)
  exact hfirst ⟨0, by decide, by decide⟩

end Newsintel.Extractors
