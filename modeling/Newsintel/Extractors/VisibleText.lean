import Newsintel.Extractors.HtmlDocument

/-!
# Visible texts reach the blocks

A skipped void element pushes a skip entry that no end tag ever pops, and the end
tag of an unskipped element inside a skipped one can close the block around it or
end the skipped region. In a document without these, and with links that can be
joined to the base URL, every visible text of a block is part of some entry of
`blocks`.
-/

namespace Newsintel.Extractors

open PyText

namespace Html

/-- Texts inside a block element, outside skipped elements and titles. -/
def visibleTexts (u : Unicode) (policy : Option ExtractionPolicy) (titled inBlock : Bool) :
    Html → List Text
  | nil => []
  | text data rest =>
    (if inBlock && !titled then [data] else []) ++ visibleTexts u policy titled inBlock rest
  | void _ _ rest => visibleTexts u policy titled inBlock rest
  | elem tag attrs children rest =>
    (if skipped u policy tag attrs then []
      else visibleTexts u policy (titled || u.lower tag = "title".toList)
        (inBlock || blockTags.contains (u.lower tag)) children) ++
      visibleTexts u policy titled inBlock rest

/-- No void element outside skipped elements is skipped; inside a skipped element
no unskipped one is named like a skipped element or an open block around it.
`opened` are the open blocks, innermost first. -/
def visibleTidy (u : Unicode) (policy : Option ExtractionPolicy) : List Text → Html → Bool
  | _, nil => true
  | opened, text _ rest => visibleTidy u policy opened rest
  | opened, void tag attrs rest =>
    !skipped u policy tag attrs && visibleTidy u policy opened rest
  | opened, elem tag attrs children rest =>
    (if skipped u policy tag attrs then namesApart u policy (u.lower tag :: opened) children
      else visibleTidy u policy
        (if blockTags.contains (u.lower tag) then u.lower tag :: opened else opened) children) &&
      visibleTidy u policy opened rest

/-- Every `link` can be joined to the base URL. -/
def linksJoin (u : Unicode) (baseUrl : Text) : Html → Bool
  | nil => true
  | text _ rest => linksJoin u baseUrl rest
  | void tag attrs rest =>
    (recordLinks u baseUrl (u.lower tag) (attrMap u attrs) []).isOk && linksJoin u baseUrl rest
  | elem tag attrs children rest =>
    (recordLinks u baseUrl (u.lower tag) (attrMap u attrs) []).isOk &&
      linksJoin u baseUrl children && linksJoin u baseUrl rest

end Html

/-- Parsing ends, and every visible text that is not blank occurs, normalised, in
some block. -/
def VisibleComplete (u : Unicode) (baseUrl : Text) (policy : Option ExtractionPolicy)
    (d : Html) : Prop :=
  ∃ st, feed u baseUrl policy newParser d.callbacks = .ok st ∧
    ∀ t ∈ d.visibleTexts u policy false false, normalizeText t ≠ [] →
      ∃ block ∈ st.blocks, normalizeText t <:+: block

variable {u : Unicode} {baseUrl tag tagName data : Text} {policy : Option ExtractionPolicy}
  {attrs : Attrs} {st st' st₁ st₂ : ArticleHtmlParser} {d children rest : Html}
  {names opened : List Text} {titled inBlock : Bool} {m : AttrMap}

/-! ### Parsing ends -/

/- Joining fails or not whatever links are known already. -/
theorem foldlM_links_ok {target : Except PyError Text} (rels : List Text)
    (links links' : List (Text × Text))
    (h : (rels.foldlM (fun ls relation => do
      let value ← target
      return Table.set relation value ls) links).isOk = true) :
    (rels.foldlM (fun ls relation => do
      let value ← target
      return Table.set relation value ls) links').isOk = true := by
  cases target with
  | error e =>
    cases rels with
    | nil => rfl
    | cons r rels => exact h
  | ok value =>
    induction rels generalizing links links' with
    | nil => rfl
    | cons r rels ih => exact ih _ _ h

theorem recordLinks_ok (links : List (Text × Text))
    (h : (recordLinks u baseUrl tagName m []).isOk = true) :
    (recordLinks u baseUrl tagName m links).isOk = true := by
  unfold recordLinks at h ⊢
  split at h
  · rename_i hc
    rw [if_pos hc]
    exact foldlM_links_ok _ _ _ h
  · rename_i hc
    rw [if_neg hc]
    rfl

theorem handleStarttag_isOk (policy : Option ExtractionPolicy) (st : ArticleHtmlParser)
    (h : (recordLinks u baseUrl (u.lower tag) (attrMap u attrs) []).isOk = true) :
    ∃ st', handleStarttag u baseUrl policy tag attrs st = .ok st' := by
  have hl := recordLinks_ok st.links h
  simp only [handleStarttag, recordHead]
  cases hr : recordLinks u baseUrl (u.lower tag) (attrMap u attrs) st.links with
  | error e =>
    rw [hr] at hl
    contradiction
  | ok links => exact ⟨_, rfl⟩

theorem feed_isOk (policy : Option ExtractionPolicy) (d : Html)
    (h : d.linksJoin u baseUrl = true) (st : ArticleHtmlParser) :
    ∃ st', feed u baseUrl policy st d.callbacks = .ok st' := by
  induction d generalizing st with
  | nil => exact ⟨st, rfl⟩
  | text data rest ih => exact ih h _
  | void tag attrs rest ih =>
    simp only [Html.linksJoin, Bool.and_eq_true] at h
    obtain ⟨st₁, h₁⟩ := handleStarttag_isOk policy st h.1
    obtain ⟨st', h'⟩ := ih h.2 st₁
    exact ⟨st', by simp [h₁, ok_bind, h']⟩
  | elem tag attrs children rest ihc ihr =>
    simp only [Html.linksJoin, Bool.and_eq_true] at h
    obtain ⟨st₁, h₁⟩ := handleStarttag_isOk policy st h.1.1
    obtain ⟨st₂, h₂⟩ := ihc h.1.2 st₁
    obtain ⟨st', h'⟩ := ihr h.2 (handleEndtag u tag st₂)
    exact ⟨st', by simp [h₁, ok_bind, h₂, h']⟩

/-! ### Title and script flags -/

theorem closeElement_flags (tagName : Text) (st : ArticleHtmlParser) :
    (closeElement tagName st).inTitle = st.inTitle ∧
      (closeElement tagName st).captureJsonLd = st.captureJsonLd := by
  unfold closeElement
  split
  · exact ⟨rfl, rfl⟩
  · split
    · exact ⟨closeBlock_inTitle, closeBlock_captureJsonLd⟩
    · exact ⟨rfl, rfl⟩

/- The end tag of a title or of a script clears its flag. -/
theorem closeHead_inTitle (h : tagName = "title".toList ∨ st.inTitle = false) :
    (closeHead tagName st).inTitle = false := by
  change (st.inTitle && decide (tagName ≠ "title".toList)) = false
  rcases h with h | h
  · rw [decide_eq_false (not_not.mpr h), Bool.and_false]
  · rw [h, Bool.false_and]

theorem closeHead_captureJsonLd (h : tagName = "script".toList ∨ st.captureJsonLd = false) :
    (closeHead tagName st).captureJsonLd = false := by
  change (st.captureJsonLd && !(decide (tagName = "script".toList) && st.captureJsonLd)) = false
  rcases h with h | h
  · rw [decide_eq_true h, Bool.true_and, Bool.and_not_self]
  · rw [h, Bool.false_and]

theorem title_not_void : "title".toList ∉ voidTags := by decide

theorem script_not_void : "script".toList ∉ voidTags := by decide

/- A start tag sets a flag only for its own element. -/
theorem handleStarttag_flags (h : handleStarttag u baseUrl policy tag attrs st = .ok st₁) :
    (u.lower tag ≠ "title".toList → st₁.inTitle = st.inTitle) ∧
      (u.lower tag ≠ "script".toList → st₁.captureJsonLd = st.captureJsonLd) := by
  obtain ⟨links, rfl⟩ := handleStarttag_ok h
  constructor
  · intro hn
    change (st.inTitle || decide (u.lower tag = "title".toList)) = st.inTitle
    rw [decide_eq_false hn, Bool.or_false]
  · intro hn
    change (st.captureJsonLd || (decide (u.lower tag = "script".toList) && _)) = st.captureJsonLd
    rw [decide_eq_false hn, Bool.false_and, Bool.or_false]

/-- A document never leaves a title or a script open that it found closed. -/
theorem feed_flags (d : Html) (hw : d.wellFormed u = true)
    (h : feed u baseUrl policy st d.callbacks = .ok st') :
    (st.inTitle = false → st'.inTitle = false) ∧
      (st.captureJsonLd = false → st'.captureJsonLd = false) := by
  induction d generalizing st st' with
  | nil =>
    rw [feed_nil, Except.ok.injEq] at h
    exact h ▸ ⟨id, id⟩
  | text data rest ih =>
    rw [feed_text] at h
    simpa using ih hw h
  | void tag attrs rest ih =>
    obtain ⟨hvoid, hwr⟩ := wellFormed_void_iff.mp hw
    rw [feed_void] at h
    obtain ⟨st₁, hstart, hrest⟩ := bind_ok h
    obtain ⟨ht, hs⟩ := handleStarttag_flags hstart
    obtain ⟨ht', hs'⟩ := ih hwr hrest
    rw [ht (fun he => title_not_void (he ▸ hvoid))] at ht'
    rw [hs (fun he => script_not_void (he ▸ hvoid))] at hs'
    exact ⟨ht', hs'⟩
  | elem tag attrs children rest ihc ihr =>
    obtain ⟨-, hwc, hwr⟩ := wellFormed_elem_iff.mp hw
    rw [feed_elem] at h
    obtain ⟨st₁, hstart, h⟩ := bind_ok h
    obtain ⟨st₂, hchildren, hrest⟩ := bind_ok h
    obtain ⟨ht, hs⟩ := handleStarttag_flags hstart
    obtain ⟨htc, hsc⟩ := ihc hwc hchildren
    obtain ⟨ht', hs'⟩ := ihr hwr hrest
    obtain ⟨hte, hse⟩ := closeElement_flags (u.lower tag) (closeHead (u.lower tag) st₂)
    constructor
    · intro hf
      refine ht' (hte.trans (closeHead_inTitle ?_))
      by_cases hn : u.lower tag = "title".toList
      · exact Or.inl hn
      · exact Or.inr (htc ((ht hn).trans hf))
    · intro hf
      refine hs' (hse.trans (closeHead_captureJsonLd ?_))
      by_cases hn : u.lower tag = "script".toList
      · exact Or.inl hn
      · exact Or.inr (hsc ((hs hn).trans hf))

/-! ### Skipped elements keep the blocks -/

theorem popBlock_none {bs : List TextBlock} (h : ∀ b ∈ bs, b.tag ≠ tagName) :
    popBlock tagName bs = none := by
  induction bs with
  | nil => rfl
  | cons b bs ih =>
    obtain ⟨hb, hbs⟩ := List.forall_mem_cons.mp h
    simp [popBlock, hb, ih hbs]

/-- Nothing of the blocks changes. -/
def BlocksKept (st st' : ArticleHtmlParser) : Prop :=
  st'.blocks = st.blocks ∧ st'.blockStack = st.blockStack

theorem BlocksKept.trans (h : BlocksKept st st₁) (h' : BlocksKept st₁ st₂) : BlocksKept st st₂ :=
  ⟨h'.1.trans h.1, h'.2.trans h.2⟩

theorem handleData_hidden_kept (data : Text) (hd : st.skipDepth > 0) :
    BlocksKept st (handleData data st) := by
  unfold handleData
  split
  · exact ⟨rfl, rfl⟩
  · split
    · exact ⟨rfl, rfl⟩
    · exact ⟨rfl, rfl⟩

theorem handleStarttag_hidden_kept (hd : st.skipDepth > 0)
    (h : handleStarttag u baseUrl policy tag attrs st = .ok st₁) : BlocksKept st st₁ := by
  obtain ⟨links, rfl⟩ := handleStarttag_ok h
  have hne : st.skipDepth ≠ 0 := by omega
  exact ⟨rfl, by simp [openElement, hne]⟩

/- The end tag of a skipped element pops its entry, that of an unskipped one finds
no block of its name. -/
theorem handleEndtag_kept (h : st.skipDepth > 0 ∧ u.lower tag ∈ st.skipStack ∨
      u.lower tag ∉ st.skipStack ∧ ∀ b ∈ st.blockStack, b.tag ≠ u.lower tag) :
    BlocksKept st (handleEndtag u tag st) := by
  rcases h with ⟨hd, hin⟩ | ⟨hout, hnone⟩
  · simp [handleEndtag, closeElement, hd, hin, BlocksKept]
  · rw [handleEndtag_unskipped hout]
    split
    · simp [closeBlock, popBlock_none hnone, BlocksKept]
    · exact ⟨rfl, rfl⟩

theorem feed_hidden_kept (d : Html) (hw : d.wellFormed u = true)
    (ha : d.namesApart u policy names = true) (hs : StackOf names st) (hne : st.skipStack ≠ [])
    (hb : ∀ b ∈ st.blockStack, b.tag ∈ names)
    (h : feed u baseUrl policy st d.callbacks = .ok st') : BlocksKept st st' := by
  induction d generalizing names st st' with
  | nil =>
    rw [feed_nil, Except.ok.injEq] at h
    exact h ▸ ⟨rfl, rfl⟩
  | text data rest ih =>
    rw [feed_text] at h
    have hk := handleData_hidden_kept data (depth_pos hs.1 hne)
    have hs₁ : StackOf names (handleData data st) := by simpa [StackOf, Counted] using hs
    exact hk.trans (ih hw ha hs₁ (by simpa using hne) (hk.2 ▸ hb) h)
  | void tag attrs rest ih =>
    obtain ⟨hvoid, hwr⟩ := wellFormed_void_iff.mp hw
    rw [feed_void] at h
    obtain ⟨st₁, hstart, hrest⟩ := bind_ok h
    have hk := handleStarttag_hidden_kept (depth_pos hs.1 hne) hstart
    have hne₁ := ne_nil_of_suffix hne (hs.start hstart).2
    exact hk.trans (ih hwr ha (hs.void hvoid hstart).1 hne₁ (hk.2 ▸ hb) hrest)
  | elem tag attrs children rest ihc ihr =>
    obtain ⟨hvoid, hwc, hwr⟩ := wellFormed_elem_iff.mp hw
    obtain ⟨hname, hac, har⟩ := namesApart_elem_iff.mp ha
    rw [feed_elem] at h
    obtain ⟨st₁, hstart, h⟩ := bind_ok h
    obtain ⟨st₂, hchildren, hrest⟩ := bind_ok h
    have hk₁ := handleStarttag_hidden_kept (depth_pos hs.1 hne) hstart
    obtain ⟨hs₁, hsuf₁⟩ := hs.start hstart
    have hb₁ : ∀ b ∈ st₁.blockStack, b.tag ∈ innerNames u policy tag attrs names := by
      intro b hmem
      have hin := hb b (hk₁.2 ▸ hmem)
      unfold innerNames
      split
      · exact List.mem_cons_of_mem _ hin
      · exact hin
    have hk₂ := hk₁.trans (ihc hwc hac hs₁ (ne_nil_of_suffix hne hsuf₁) hb₁ hchildren)
    obtain ⟨hs₂, junk, hj, he₂⟩ := feed_skipStack _ hwc hac hs₁ hchildren
    have hne₂ : st₂.skipStack ≠ [] :=
      ne_nil_of_suffix (ne_nil_of_suffix hne hsuf₁) ⟨junk, he₂.symm⟩
    have hend : BlocksKept st₂ (handleEndtag u tag st₂) := by
      apply handleEndtag_kept
      by_cases hskip : skipped u policy tag attrs = true
      · left
        refine ⟨depth_pos hs₂.1 hne₂, ?_⟩
        rw [he₂, (handleStarttag_skip hstart hs.1).2, if_pos hskip]
        simp
      · right
        have hout := hname.resolve_left hskip
        rw [innerNames, if_neg hskip] at hs₂
        refine ⟨hs₂.not_mem hvoid hout, ?_⟩
        intro b hmem he
        exact hout (he ▸ hb b (hk₂.2 ▸ hmem))
    obtain ⟨hs₃, hsuf₃⟩ := hs.afterElem hw ha hstart hchildren
    have hk₃ := hk₂.trans hend
    exact hk₃.trans (ihr hwr har hs₃ (ne_nil_of_suffix hne hsuf₃) (hk₃.2 ▸ hb) hrest)

/-! ### Visible parts -/

/-- Pieces added to the innermost open block. -/
def addPieces (new : List Text) : List TextBlock → List TextBlock
  | [] => []
  | b :: rest => { b with pieces := b.pieces ++ new } :: rest

@[simp] theorem addPieces_nil (bs : List TextBlock) : addPieces [] bs = bs := by
  cases bs <;> simp [addPieces]

theorem addPieces_append (new more : List Text) (bs : List TextBlock) :
    addPieces more (addPieces new bs) = addPieces (new ++ more) bs := by
  cases bs <;> simp [addPieces]

theorem appendPiece_eq (data : Text) (bs : List TextBlock) :
    appendPiece data bs = addPieces [data] bs := by
  cases bs <;> rfl

theorem addPieces_tags (new : List Text) (bs : List TextBlock) :
    (addPieces new bs).map (·.tag) = bs.map (·.tag) := by
  cases bs <;> rfl

/-- The parser between two visible nodes, `opened` being the open blocks. -/
structure Ready (titled : Bool) (opened : List Text) (st : ArticleHtmlParser) : Prop where
  skipStack : st.skipStack = []
  skipDepth : st.skipDepth = 0
  captureJsonLd : st.captureJsonLd = false
  inTitle : titled = false → st.inTitle = false
  opened : st.blockStack.map (·.tag) = opened

theorem Ready.stackOf (names : List Text) (h : Ready titled opened st) : StackOf names st := by
  refine ⟨by simp [Counted, h.skipStack, h.skipDepth], ?_⟩
  rw [h.skipStack]
  simp

/-- Reading visible nodes adds `new` to the innermost block and blocks at the end. -/
structure Reads (new : List Text) (st st' : ArticleHtmlParser) : Prop where
  blockStack : st'.blockStack = addPieces new st.blockStack
  blocks : st.blocks ⊆ st'.blocks

theorem BlocksKept.reads (h : BlocksKept st st') : Reads [] st st' :=
  ⟨by simp [h.2], by simp [h.1]⟩

theorem Reads.trans {new more : List Text} (h : Reads new st st₁) (h' : Reads more st₁ st₂) :
    Reads (new ++ more) st st₂ :=
  ⟨by rw [h'.blockStack, h.blockStack, addPieces_append], List.Subset.trans h.blocks h'.blocks⟩

theorem block_not_void (h : u.lower tag ∈ voidTags) : u.lower tag ∉ blockTags := by
  have hall : ∀ t ∈ voidTags, t ∉ blockTags := by decide
  exact hall _ h

theorem unskipped_ne_script (h : skipped u policy tag attrs ≠ true) :
    u.lower tag ≠ "script".toList := by
  intro he
  apply h
  unfold skipped
  rw [he]
  rfl

/- A start tag that is not skipped, read between visible nodes. -/
theorem Ready.start (h : Ready titled opened st) (hskip : skipped u policy tag attrs ≠ true)
    (hstart : handleStarttag u baseUrl policy tag attrs st = .ok st₁) :
    Ready (titled || u.lower tag = "title".toList)
        (if blockTags.contains (u.lower tag) then u.lower tag :: opened else opened) st₁ ∧
      st₁.blocks = st.blocks ∧
      st₁.blockStack = if blockTags.contains (u.lower tag) then
        { tag := u.lower tag, pieces := [] } :: st.blockStack else st.blockStack := by
  have hskip' : skipped u policy tag attrs = false := by simpa using hskip
  obtain ⟨hc₁, he₁⟩ := handleStarttag_skip hstart (h.stackOf []).1
  rw [if_neg hskip, h.skipStack] at he₁
  have hstack : st₁.blockStack = if blockTags.contains (u.lower tag) then
      { tag := u.lower tag, pieces := [] } :: st.blockStack else st.blockStack := by
    obtain ⟨links, rfl⟩ := handleStarttag_ok hstart
    simp [openElement, hskip', h.skipDepth]
  refine ⟨⟨he₁, ?_, ?_, ?_, ?_⟩, ?_, hstack⟩
  · rw [hc₁, he₁]
    rfl
  · rw [(handleStarttag_flags hstart).2 (unskipped_ne_script hskip), h.captureJsonLd]
  · intro ht
    rw [Bool.or_eq_false_iff, decide_eq_false_iff_not] at ht
    rw [(handleStarttag_flags hstart).1 ht.2, h.inTitle ht.1]
  · rw [hstack]
    split <;> simp [h.opened]
  · obtain ⟨links, rfl⟩ := handleStarttag_ok hstart
    rfl

/- A whole skipped element, read between visible nodes. -/
theorem Ready.skippedElem (h : Ready titled opened st) (hskip : skipped u policy tag attrs = true)
    (hw : (Html.elem tag attrs children .nil).wellFormed u = true)
    (ha : children.namesApart u policy (u.lower tag :: opened) = true)
    (hstart : handleStarttag u baseUrl policy tag attrs st = .ok st₁)
    (hchildren : feed u baseUrl policy st₁ children.callbacks = .ok st₂) :
    Ready titled opened (handleEndtag u tag st₂) ∧ BlocksKept st (handleEndtag u tag st₂) := by
  obtain ⟨hvoid, hwc, -⟩ := wellFormed_elem_iff.mp hw
  have hinner : innerNames u policy tag attrs opened = u.lower tag :: opened := by
    rw [innerNames, if_pos hskip]
  have hs : StackOf opened st := h.stackOf opened
  obtain ⟨hs₁, -⟩ := hs.start hstart
  rw [hinner] at hs₁
  obtain ⟨-, he₁⟩ := handleStarttag_skip hstart hs.1
  rw [if_pos hskip, h.skipStack] at he₁
  have hk₁ : BlocksKept st st₁ := by
    obtain ⟨links, rfl⟩ := handleStarttag_ok hstart
    exact ⟨rfl, by simp [openElement, hskip]⟩
  have hb₁ : ∀ b ∈ st₁.blockStack, b.tag ∈ u.lower tag :: opened := by
    intro b hb
    rw [hk₁.2] at hb
    exact List.mem_cons_of_mem _ (h.opened ▸ List.mem_map_of_mem hb)
  obtain ⟨hs₂, junk, hj, he₂⟩ := feed_skipStack children hwc ha hs₁ hchildren
  rw [he₁] at he₂
  have hk₂ := feed_hidden_kept children hwc ha hs₁ (by simp [he₁]) hb₁ hchildren
  have hin : u.lower tag ∈ st₂.skipStack := by
    rw [he₂]
    simp
  have hk₃ : BlocksKept st₂ (handleEndtag u tag st₂) :=
    handleEndtag_kept (Or.inl ⟨depth_pos hs₂.1 (List.ne_nil_of_mem hin), hin⟩)
  have hk := (hk₁.trans hk₂).trans hk₃
  have hfeed : feed u baseUrl policy st (Html.elem tag attrs children .nil).callbacks =
      .ok (handleEndtag u tag st₂) := by
    rw [feed_elem, hstart]
    simp [ok_bind, hchildren]
  obtain ⟨ht, hc⟩ := feed_flags _ hw hfeed
  have hend := handleEndtag_skipped hs₂.1 he₂ (fun hm => hvoid (hj _ hm))
  refine ⟨⟨?_, ?_, hc h.captureJsonLd, fun hf => ht (h.inTitle hf), ?_⟩, hk⟩
  · rw [hend]
  · rw [hend]
    rfl
  · rw [hk.2, h.opened]

/- Normalising the joined pieces of a block keeps each piece together. -/
theorem infix_normalizeText {new : List Text} {t : Text} (h : t ∈ new) :
    normalizeText t <:+: normalizeText (join new) := by
  obtain ⟨before, after, rfl⟩ := List.append_of_mem h
  rw [normalizeText_eq, normalizeText_eq, words_join, List.flatMap_append, List.flatMap_cons]
  exact infix_join _ _ _

/- The end of an unskipped element: a block joins its pieces to one entry. -/
theorem Ready.finish (hskip : skipped u policy tag attrs ≠ true) (h : Ready titled opened st)
    (hstart : handleStarttag u baseUrl policy tag attrs st = .ok st₁) {new : List Text}
    (hready : Ready (titled || u.lower tag = "title".toList)
      (if blockTags.contains (u.lower tag) then u.lower tag :: opened else opened) st₂)
    (hreads : Reads new st₁ st₂) :
    ∃ more, Ready titled opened (handleEndtag u tag st₂) ∧
      Reads more st (handleEndtag u tag st₂) ∧
      st₂.blocks ⊆ (handleEndtag u tag st₂).blocks ∧
      (blockTags.contains (u.lower tag) = true → ∀ t ∈ new, normalizeText t ≠ [] →
        ∃ block ∈ (handleEndtag u tag st₂).blocks, normalizeText t <:+: block) ∧
      (¬blockTags.contains (u.lower tag) = true → more = new) := by
  obtain ⟨-, hblocks, hstack⟩ := h.start hskip hstart
  obtain ⟨hflagT, hflagS⟩ := closeElement_flags (u.lower tag) (closeHead (u.lower tag) st₂)
  have hout : u.lower tag ∉ st₂.skipStack := by simp [hready.skipStack]
  have hend := handleEndtag_unskipped (u := u) hout
  have hcapture : (handleEndtag u tag st₂).captureJsonLd = false :=
    hflagS.trans (closeHead_captureJsonLd (Or.inr hready.captureJsonLd))
  have htitle : titled = false → (handleEndtag u tag st₂).inTitle = false := by
    intro ht
    refine hflagT.trans (closeHead_inTitle ?_)
    by_cases hn : u.lower tag = "title".toList
    · exact Or.inl hn
    · exact Or.inr (hready.inTitle (by rw [ht, Bool.false_or, decide_eq_false hn]))
  by_cases hblock : blockTags.contains (u.lower tag) = true
  · rw [if_pos hblock] at hstack hend
    have hpop : popBlock (u.lower tag) (closeHead (u.lower tag) st₂).blockStack =
        some ({ tag := u.lower tag, pieces := new }, st.blockStack) := by
      simp [hreads.blockStack, hstack, addPieces, popBlock]
    simp only [closeBlock, hpop] at hend
    refine ⟨if normalizeText (join new) = [] then [] else [normalizeText (join new)],
      ⟨?_, ?_, hcapture, htitle, ?_⟩, ⟨?_, ?_⟩, ?_, ?_, fun hn => absurd hblock hn⟩
    · rw [hend]
      exact hready.skipStack
    · rw [hend]
      exact hready.skipDepth
    · rw [hend]
      simp only [appendPiece_eq]
      split
      · exact h.opened
      · rw [addPieces_tags, h.opened]
    · rw [hend]
      simp only [appendPiece_eq]
      split <;> simp
    · rw [hend, ← hblocks]
      refine List.Subset.trans hreads.blocks ?_
      simp only [closeHead_blocks]
      split <;> simp
    · rw [hend]
      simp only [closeHead_blocks]
      split <;> simp
    · intro _ t ht hne
      have hinf := infix_normalizeText ht
      have htext : normalizeText (join new) ≠ [] := fun h0 =>
        hne (List.eq_nil_of_infix_nil (h0 ▸ hinf))
      refine ⟨normalizeText (join new), ?_, hinf⟩
      rw [hend]
      simp [htext]
  · rw [if_neg hblock] at hstack hend
    refine ⟨new, ⟨?_, ?_, hcapture, htitle, ?_⟩, ⟨?_, ?_⟩, ?_,
      fun hb => absurd hb hblock, fun _ => rfl⟩
    · rw [hend]
      exact hready.skipStack
    · rw [hend]
      exact hready.skipDepth
    · have hopened := hready.opened
      rw [if_neg hblock] at hopened
      rw [hend]
      exact hopened
    · rw [hend, ← hstack]
      exact hreads.blockStack
    · rw [hend, ← hblocks]
      exact hreads.blocks
    · rw [hend]
      exact List.Subset.refl _

/- Each visible text is a new piece of the open block, or in an entry already. -/
theorem feed_visible (inBlock : Bool) (d : Html) (hw : d.wellFormed u = true)
    (ht : d.visibleTidy u policy opened = true) (hr : Ready titled opened st)
    (h : feed u baseUrl policy st d.callbacks = .ok st') :
    Ready titled opened st' ∧ ∃ new, Reads new st st' ∧
      ∀ t ∈ d.visibleTexts u policy titled inBlock, normalizeText t ≠ [] →
        (inBlock = true ∧ t ∈ new) ∨ ∃ block ∈ st'.blocks, normalizeText t <:+: block := by
  induction d generalizing opened titled inBlock st st' with
  | nil =>
    rw [feed_nil, Except.ok.injEq] at h
    subst h
    exact ⟨hr, [], BlocksKept.reads ⟨rfl, rfl⟩, by simp [Html.visibleTexts]⟩
  | text data rest ih =>
    rw [feed_text] at h
    have hdata : Ready titled opened (handleData data st) ∧
        ∃ new, Reads new st (handleData data st) ∧ (titled = false → data ∈ new) := by
      have hcap := hr.captureJsonLd
      by_cases hin : st.inTitle = true
      · have hd : handleData data st = { st with titleParts := st.titleParts ++ [data] } := by
          simp [handleData, hcap, hin]
        rw [hd]
        refine ⟨⟨hr.skipStack, hr.skipDepth, hcap, hr.inTitle, hr.opened⟩, [],
          BlocksKept.reads ⟨rfl, rfl⟩, ?_⟩
        intro hf
        rw [hr.inTitle hf] at hin
        contradiction
      · have hd : handleData data st =
            { st with blockStack := appendPiece data st.blockStack } := by
          simp [handleData, hcap, hin, hr.skipDepth]
        rw [hd]
        refine ⟨⟨hr.skipStack, hr.skipDepth, hcap, hr.inTitle, ?_⟩, [data], ⟨?_, ?_⟩, ?_⟩
        · simp only [appendPiece_eq, addPieces_tags, hr.opened]
        · exact appendPiece_eq data st.blockStack
        · exact List.Subset.refl _
        · simp
    obtain ⟨hr₁, new, hreads, hnew⟩ := hdata
    obtain ⟨hr', more, hreads', hfound⟩ := ih inBlock hw ht hr₁ h
    refine ⟨hr', new ++ more, hreads.trans hreads', ?_⟩
    intro t hmem hne
    simp only [Html.visibleTexts, List.mem_append] at hmem
    rcases hmem with hmem | hmem
    · split at hmem
      · rename_i hvis
        simp only [Bool.and_eq_true, Bool.not_eq_true'] at hvis
        obtain rfl := List.mem_singleton.mp hmem
        exact Or.inl ⟨hvis.1, List.mem_append_left _ (hnew hvis.2)⟩
      · simp at hmem
    · exact (hfound t hmem hne).imp (fun hp => ⟨hp.1, List.mem_append_right _ hp.2⟩) id
  | void tag attrs rest ih =>
    obtain ⟨hvoid, hwr⟩ := wellFormed_void_iff.mp hw
    simp only [Html.visibleTidy, Bool.and_eq_true, Bool.not_eq_true'] at ht
    rw [feed_void] at h
    obtain ⟨st₁, hstart, hrest⟩ := bind_ok h
    have hskip : skipped u policy tag attrs ≠ true := by simp [ht.1]
    obtain ⟨hr₁, hblocks, hstack⟩ := hr.start hskip hstart
    have hnb : ¬ blockTags.contains (u.lower tag) = true := by
      simpa using block_not_void hvoid
    have hnt : u.lower tag ≠ "title".toList := fun he => title_not_void (he ▸ hvoid)
    rw [if_neg hnb] at hr₁ hstack
    rw [decide_eq_false hnt, Bool.or_false] at hr₁
    obtain ⟨hr', new, hreads, hfound⟩ := ih inBlock hwr ht.2 hr₁ hrest
    refine ⟨hr', new, ?_, hfound⟩
    simpa using (BlocksKept.reads ⟨hblocks, hstack⟩).trans hreads
  | elem tag attrs children rest ihc ihr =>
    obtain ⟨hvoid, hwc, hwr⟩ := wellFormed_elem_iff.mp hw
    simp only [Html.visibleTidy, Bool.and_eq_true] at ht
    obtain ⟨htc, htr⟩ := ht
    rw [feed_elem] at h
    obtain ⟨st₁, hstart, h⟩ := bind_ok h
    obtain ⟨st₂, hchildren, hrest⟩ := bind_ok h
    by_cases hskip : skipped u policy tag attrs = true
    · rw [if_pos hskip] at htc
      obtain ⟨hr₃, hk⟩ := hr.skippedElem hskip (wellFormed_elem_iff.mpr ⟨hvoid, hwc, rfl⟩) htc
        hstart hchildren
      obtain ⟨hr', new, hreads, hfound⟩ := ihr inBlock hwr htr hr₃ hrest
      refine ⟨hr', new, by simpa using hk.reads.trans hreads, ?_⟩
      intro t hmem hne
      simp only [Html.visibleTexts, if_pos hskip, List.nil_append] at hmem
      exact hfound t hmem hne
    · rw [if_neg hskip] at htc
      obtain ⟨hr₁, -, -⟩ := hr.start hskip hstart
      obtain ⟨hr₂, newc, hreadsc, hfoundc⟩ :=
        ihc (inBlock || blockTags.contains (u.lower tag)) hwc htc hr₁ hchildren
      obtain ⟨newe, hr₃, hreadse, hkeep, hclosed, hopen⟩ := hr.finish hskip hstart hr₂ hreadsc
      obtain ⟨hr', newr, hreadsr, hfoundr⟩ := ihr inBlock hwr htr hr₃ hrest
      refine ⟨hr', newe ++ newr, hreadse.trans hreadsr, ?_⟩
      intro t hmem hne
      simp only [Html.visibleTexts, if_neg hskip, List.mem_append] at hmem
      rcases hmem with hmem | hmem
      · rcases hfoundc t hmem hne with ⟨hin, hnew⟩ | ⟨block, hb, hinf⟩
        · by_cases hblock : blockTags.contains (u.lower tag) = true
          · obtain ⟨block, hb, hinf⟩ := hclosed hblock t hnew hne
            exact Or.inr ⟨block, hreadsr.blocks hb, hinf⟩
          · have hb : inBlock = true := (Bool.or_eq_true_iff.mp hin).resolve_right hblock
            exact Or.inl ⟨hb, List.mem_append_left _ (hopen hblock ▸ hnew)⟩
        · exact Or.inr ⟨block, hreadsr.blocks (hkeep hb), hinf⟩
      · exact (hfoundr t hmem hne).imp (fun hp => ⟨hp.1, List.mem_append_right _ hp.2⟩) id

theorem ready_newParser : Ready false [] newParser where
  skipStack := rfl
  skipDepth := rfl
  captureJsonLd := rfl
  inTitle := fun _ => rfl
  opened := rfl

theorem visibleComplete_of_tidy (u : Unicode) (baseUrl : Text) (policy : Option ExtractionPolicy)
    (d : Html) (hw : d.wellFormed u = true) (ht : d.visibleTidy u policy [] = true)
    (hl : d.linksJoin u baseUrl = true) : VisibleComplete u baseUrl policy d := by
  obtain ⟨st, hst⟩ := feed_isOk policy d hl newParser
  obtain ⟨-, new, -, hfound⟩ := feed_visible false d hw ht ready_newParser hst
  refine ⟨st, hst, ?_⟩
  intro t hmem hne
  exact (hfound t hmem hne).resolve_left (by simp)

/-! ### A share icon before the article -/

def socialAttrs : Attrs := [("class".toList, some "social".toList)]

/-- `<p>text</p>`. -/
def paragraph (text : Text) (rest : Html) : Html :=
  .elem "p".toList [] (.text text .nil) rest

/-- A share box, and the article after it. -/
def sharedPage : Html :=
  .elem "div".toList socialAttrs (paragraph "Share".toList .nil)
    (paragraph "The body.".toList .nil)

theorem sharedPage_complete :
    VisibleComplete asciiUnicode "https://example.com/a".toList none sharedPage :=
  visibleComplete_of_tidy _ _ _ _ (by decide) (by decide) (by decide)

/-- `<img class="social"><p>The body.</p>`. -/
def iconPage : Html := .void "img".toList socialAttrs (paragraph "The body.".toList .nil)

theorem iconPage_loses_body :
    ¬ ∀ u baseUrl policy (d : Html), d.wellFormed u = true →
      VisibleComplete u baseUrl policy d := by
  intro h
  obtain ⟨st, hst, hfound⟩ := h asciiUnicode [] none iconPage (by decide)
  have hblocks : (feed asciiUnicode [] none newParser iconPage.callbacks).map (·.blocks) =
      .ok [] := by decide
  rw [hst] at hblocks
  obtain ⟨block, hb, -⟩ := hfound "The body.".toList (by decide) (by decide)
  have hnil : st.blocks = [] := Except.ok.inj hblocks
  rw [hnil] at hb
  simp at hb

end Newsintel.Extractors
