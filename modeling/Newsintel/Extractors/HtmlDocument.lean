import Newsintel.Extractors.ArticleHtmlParser

/-!
# Properly nested documents

A document is a forest of texts, void elements, which yield a start callback only,
and elements with an end tag. One induction over the forest describes the skip
stack, the second the two flags that an end tag resets.
-/

namespace Newsintel.Extractors

open PyText

/-- The void elements of HTML, `param` included. -/
def voidTags : List Text :=
  ["area", "base", "br", "col", "embed", "hr", "img", "input", "link", "meta", "param", "source",
    "track", "wbr"].map String.toList

/-- A sequence of sibling nodes. -/
inductive Html where
  | nil
  | text (data : Text) (rest : Html)
  | void (tag : Text) (attrs : Attrs) (rest : Html)
  | elem (tag : Text) (attrs : Attrs) (children rest : Html)
  deriving DecidableEq, Repr

namespace Html

/-- The callbacks `HTMLParser` makes for a document. -/
def callbacks : Html → List Callback
  | nil => []
  | text data rest => .data data :: callbacks rest
  | void tag attrs rest => .starttag tag attrs :: callbacks rest
  | elem tag attrs children rest =>
    .starttag tag attrs :: (callbacks children ++ .endtag tag :: callbacks rest)

/-- Void elements are void, and every other element has its end tag. -/
def wellFormed (u : Unicode) : Html → Bool
  | nil => true
  | text _ rest => wellFormed u rest
  | void tag _ rest => voidTags.contains (u.lower tag) && wellFormed u rest
  | elem tag _ children rest =>
    !voidTags.contains (u.lower tag) && wellFormed u children && wellFormed u rest

/-- No unskipped element inside a skipped one has the name of a skipped element
around it; `names` are the names around the whole forest. -/
def namesApart (u : Unicode) (policy : Option ExtractionPolicy) : List Text → Html → Bool
  | _, nil => true
  | names, text _ rest => namesApart u policy names rest
  | names, void _ _ rest => namesApart u policy names rest
  | names, elem tag attrs children rest =>
    (if skipped u policy tag attrs then namesApart u policy (u.lower tag :: names) children
      else !names.contains (u.lower tag) && namesApart u policy names children) &&
      namesApart u policy names rest

end Html

variable {u : Unicode} {baseUrl tag tagName data : Text} {policy : Option ExtractionPolicy}
  {attrs : Attrs} {st st' st₁ : ArticleHtmlParser} {d children rest : Html} {names : List Text}

/-- The names around the children of an element. -/
def innerNames (u : Unicode) (policy : Option ExtractionPolicy) (tag : Text) (attrs : Attrs)
    (names : List Text) : List Text :=
  if skipped u policy tag attrs then u.lower tag :: names else names

theorem namesApart_elem_iff :
    (Html.elem tag attrs children rest).namesApart u policy names = true ↔
      (skipped u policy tag attrs = true ∨ u.lower tag ∉ names) ∧
        children.namesApart u policy (innerNames u policy tag attrs names) = true ∧
        rest.namesApart u policy names = true := by
  by_cases hskip : skipped u policy tag attrs = true
  · simp [Html.namesApart, innerNames, hskip]
  · simp [Html.namesApart, innerNames, hskip, and_assoc]

theorem wellFormed_void_iff :
    (Html.void tag attrs rest).wellFormed u = true ↔
      u.lower tag ∈ voidTags ∧ rest.wellFormed u = true := by
  simp [Html.wellFormed]

theorem wellFormed_elem_iff :
    (Html.elem tag attrs children rest).wellFormed u = true ↔
      u.lower tag ∉ voidTags ∧ children.wellFormed u = true ∧ rest.wellFormed u = true := by
  simp [Html.wellFormed, and_assoc]

/-! ### One callback -/

theorem handleStarttag_ok (h : handleStarttag u baseUrl policy tag attrs st = .ok st') :
    ∃ links, st' = openElement (skipped u policy tag attrs) (u.lower tag)
      { st with
        htmlLanguage := recordLanguage (u.lower tag) (attrMap u attrs) st.htmlLanguage
        inTitle := st.inTitle || u.lower tag = "title".toList
        metaValues := recordMeta u (u.lower tag) (attrMap u attrs) st.metaValues
        links := links
        captureJsonLd := st.captureJsonLd || opensJsonLd u (u.lower tag) (attrMap u attrs)
        scriptParts :=
          if opensJsonLd u (u.lower tag) (attrMap u attrs) then [] else st.scriptParts } := by
  simp only [handleStarttag, recordHead] at h
  cases hl : recordLinks u baseUrl (u.lower tag) (attrMap u attrs) st.links with
  | error e =>
    rw [hl] at h
    contradiction
  | ok links =>
    rw [hl] at h
    exact ⟨links, (Except.ok.inj h).symm⟩

/-- The counter is the height of the stack. -/
def Counted (st : ArticleHtmlParser) : Prop := st.skipDepth = st.skipStack.length

/-- What a start tag does to the skip stack. -/
theorem handleStarttag_skip (h : handleStarttag u baseUrl policy tag attrs st = .ok st')
    (hc : Counted st) :
    Counted st' ∧ st'.skipStack =
      if skipped u policy tag attrs then u.lower tag :: st.skipStack else st.skipStack := by
  obtain ⟨links, rfl⟩ := handleStarttag_ok h
  refine ⟨?_, rfl⟩
  simp only [Counted, openElement] at hc ⊢
  split <;> simp [hc]

@[simp] theorem closeHead_skipStack : (closeHead tagName st).skipStack = st.skipStack := rfl

@[simp] theorem closeHead_skipDepth : (closeHead tagName st).skipDepth = st.skipDepth := rfl

@[simp] theorem closeHead_blocks : (closeHead tagName st).blocks = st.blocks := rfl

@[simp] theorem closeHead_blockStack : (closeHead tagName st).blockStack = st.blockStack := rfl

@[simp] theorem closeBlock_skipStack : (closeBlock tagName st).skipStack = st.skipStack := by
  unfold closeBlock
  split <;> rfl

@[simp] theorem closeBlock_skipDepth : (closeBlock tagName st).skipDepth = st.skipDepth := by
  unfold closeBlock
  split <;> rfl

@[simp] theorem closeBlock_inTitle : (closeBlock tagName st).inTitle = st.inTitle := by
  unfold closeBlock
  split <;> rfl

@[simp] theorem closeBlock_captureJsonLd :
    (closeBlock tagName st).captureJsonLd = st.captureJsonLd := by
  unfold closeBlock
  split <;> rfl

/- The pops stop at the innermost entry with the name. -/
theorem popSkipped_append (junk below : List Text) (depth : ℤ) (hj : tagName ∉ junk) :
    popSkipped tagName (junk ++ tagName :: below) depth = (below, depth - junk.length - 1) := by
  induction junk generalizing depth with
  | nil => simp [popSkipped]
  | cons t junk ih =>
    obtain ⟨hne, hin⟩ := not_or.mp (by simpa using hj : ¬(tagName = t ∨ tagName ∈ junk))
    simp only [List.cons_append, popSkipped, if_neg (Ne.symm hne), ih _ hin, List.length_cons]
    push_cast
    congr 1
    omega

theorem handleEndtag_unskipped (h : u.lower tag ∉ st.skipStack) :
    handleEndtag u tag st =
      if blockTags.contains (u.lower tag) then closeBlock (u.lower tag) (closeHead (u.lower tag) st)
      else closeHead (u.lower tag) st := by
  simp [handleEndtag, closeElement, h]

/- The end tag of a skipped element whose stack entry is the innermost of its name. -/
theorem handleEndtag_skipped {junk below : List Text} (hc : Counted st)
    (hs : st.skipStack = junk ++ u.lower tag :: below) (hj : u.lower tag ∉ junk) :
    handleEndtag u tag st =
      { closeHead (u.lower tag) st with skipStack := below, skipDepth := below.length } := by
  have hpos : st.skipDepth > 0 := by
    rw [hc, hs, List.length_append, List.length_cons]
    omega
  have hin : u.lower tag ∈ st.skipStack := by
    rw [hs]
    simp
  have hd : st.skipDepth - junk.length - 1 = below.length := by
    rw [hc, hs, List.length_append, List.length_cons]
    omega
  have hpop : popSkipped (u.lower tag) st.skipStack st.skipDepth =
      (below, (below.length : ℤ)) := by
    rw [hs, popSkipped_append junk below _ hj, hd]
  simp [handleEndtag, closeElement, hpos, hin, hpop]

@[simp] theorem handleData_skipStack : (handleData data st).skipStack = st.skipStack := by
  unfold handleData
  split
  · rfl
  · split
    · rfl
    · split <;> rfl

@[simp] theorem handleData_skipDepth : (handleData data st).skipDepth = st.skipDepth := by
  unfold handleData
  split
  · rfl
  · split
    · rfl
    · split <;> rfl

@[simp] theorem handleData_inTitle : (handleData data st).inTitle = st.inTitle := by
  unfold handleData
  split
  · rfl
  · split
    · rfl
    · split <;> rfl

@[simp] theorem handleData_captureJsonLd :
    (handleData data st).captureJsonLd = st.captureJsonLd := by
  unfold handleData
  split
  · rfl
  · split
    · rfl
    · split <;> rfl

/-! ### Documents -/

section Feed

variable (u : Unicode) (baseUrl : Text) (policy : Option ExtractionPolicy)
  (st : ArticleHtmlParser)

@[simp] theorem feed_nil : feed u baseUrl policy st Html.nil.callbacks = .ok st := rfl

@[simp] theorem feed_text (data : Text) (rest : Html) :
    feed u baseUrl policy st (Html.text data rest).callbacks =
      feed u baseUrl policy (handleData data st) rest.callbacks := rfl

@[simp] theorem feed_void (tag : Text) (attrs : Attrs) (rest : Html) :
    feed u baseUrl policy st (Html.void tag attrs rest).callbacks =
      handleStarttag u baseUrl policy tag attrs st >>=
        fun st => feed u baseUrl policy st rest.callbacks := rfl

@[simp] theorem feed_elem (tag : Text) (attrs : Attrs) (children rest : Html) :
    feed u baseUrl policy st (Html.elem tag attrs children rest).callbacks =
      handleStarttag u baseUrl policy tag attrs st >>= fun st =>
        feed u baseUrl policy st children.callbacks >>= fun st =>
          feed u baseUrl policy (handleEndtag u tag st) rest.callbacks := by
  simp only [feed, Html.callbacks, List.foldlM_cons, List.foldlM_append]
  rfl

end Feed

/-- The entries of a skip stack are names around the forest or left by void elements. -/
def StackOf (names : List Text) (st : ArticleHtmlParser) : Prop :=
  Counted st ∧ ∀ t ∈ st.skipStack, t ∈ voidTags ∨ t ∈ names

theorem StackOf.push {tagName : Text} (h : StackOf names st)
    (hs : st'.skipStack = tagName :: st.skipStack) (hc : Counted st') :
    StackOf (tagName :: names) st' := by
  refine ⟨hc, ?_⟩
  intro t ht
  rw [hs] at ht
  rcases List.mem_cons.mp ht with rfl | ht
  · exact Or.inr List.mem_cons_self
  · exact (h.2 t ht).imp id (List.mem_cons_of_mem _)

theorem StackOf.junk (junk : List Text) (h : StackOf names st) (hj : ∀ t ∈ junk, t ∈ voidTags)
    (hs : st'.skipStack = junk ++ st.skipStack) (hc : Counted st') : StackOf names st' := by
  refine ⟨hc, ?_⟩
  intro t ht
  rw [hs] at ht
  rcases List.mem_append.mp ht with ht | ht
  · exact Or.inl (hj t ht)
  · exact h.2 t ht

/- An unskipped element leaves the stack alone when its name is not on it. -/
theorem StackOf.not_mem (h : StackOf names st) (hv : u.lower tag ∉ voidTags)
    (hn : u.lower tag ∉ names) : u.lower tag ∉ st.skipStack :=
  fun ht => (h.2 _ ht).elim hv hn

/- The state in which the children of an element are read. -/
theorem StackOf.start (hs : StackOf names st)
    (hstart : handleStarttag u baseUrl policy tag attrs st = .ok st₁) :
    StackOf (innerNames u policy tag attrs names) st₁ ∧ st.skipStack <:+ st₁.skipStack := by
  obtain ⟨hc₁, he₁⟩ := handleStarttag_skip hstart hs.1
  by_cases hskip : skipped u policy tag attrs = true
  · rw [if_pos hskip] at he₁
    rw [innerNames, if_pos hskip]
    exact ⟨hs.push he₁ hc₁, he₁ ▸ List.suffix_cons _ _⟩
  · rw [if_neg hskip] at he₁
    rw [innerNames, if_neg hskip]
    exact ⟨⟨hc₁, he₁ ▸ hs.2⟩, he₁ ▸ List.suffix_rfl⟩

/- A void element leaves at most its own name. -/
theorem StackOf.void (hs : StackOf names st) (hv : u.lower tag ∈ voidTags)
    (hstart : handleStarttag u baseUrl policy tag attrs st = .ok st₁) :
    StackOf names st₁ ∧ ∃ junk : List Text, (∀ t ∈ junk, t ∈ voidTags) ∧
      st₁.skipStack = junk ++ st.skipStack := by
  obtain ⟨hc₁, he₁⟩ := handleStarttag_skip hstart hs.1
  split at he₁
  · have hj : ∀ t ∈ [u.lower tag], t ∈ voidTags := by simpa using hv
    exact ⟨hs.junk _ hj he₁ hc₁, _, hj, he₁⟩
  · exact ⟨hs.junk [] (by simp) he₁ hc₁, [], by simp, he₁⟩

theorem depth_pos (hc : Counted st) (h : st.skipStack ≠ []) : st.skipDepth > 0 := by
  rw [hc]
  exact_mod_cast List.length_pos_iff.mpr h

theorem ne_nil_of_suffix {s t : List Text} (h : s ≠ []) (hs : s <:+ t) : t ≠ [] := by
  rintro rfl
  exact h (List.suffix_nil.mp hs)

/-- A forest with names apart adds entries of void elements only. -/
theorem feed_skipStack (d : Html) (hw : d.wellFormed u = true)
    (ha : d.namesApart u policy names = true) (hs : StackOf names st)
    (h : feed u baseUrl policy st d.callbacks = .ok st') :
    StackOf names st' ∧ ∃ junk : List Text, (∀ t ∈ junk, t ∈ voidTags) ∧
      st'.skipStack = junk ++ st.skipStack := by
  induction d generalizing names st st' with
  | nil =>
    rw [feed_nil, Except.ok.injEq] at h
    exact ⟨h ▸ hs, [], by simp, by simp [h]⟩
  | text data rest ih =>
    rw [feed_text] at h
    have hs₁ : StackOf names (handleData data st) := by simpa [StackOf, Counted] using hs
    obtain ⟨hs', junk, hj, he⟩ := ih hw ha hs₁ h
    exact ⟨hs', junk, hj, by simpa using he⟩
  | void tag attrs rest ih =>
    obtain ⟨hvoid, hwr⟩ := wellFormed_void_iff.mp hw
    rw [feed_void] at h
    obtain ⟨st₁, hstart, hrest⟩ := bind_ok h
    obtain ⟨hs₁, pre, hpre, hpe⟩ := hs.void hvoid hstart
    obtain ⟨hs', junk, hj, he⟩ := ih hwr ha hs₁ hrest
    refine ⟨hs', junk ++ pre, ?_, by rw [he, hpe, List.append_assoc]⟩
    intro t ht
    exact (List.mem_append.mp ht).elim (hj t) (hpre t)
  | elem tag attrs children rest ihc ihr =>
    obtain ⟨hvoid, hwc, hwr⟩ := wellFormed_elem_iff.mp hw
    obtain ⟨hname, hac, har⟩ := namesApart_elem_iff.mp ha
    rw [feed_elem] at h
    obtain ⟨st₁, hstart, h⟩ := bind_ok h
    obtain ⟨st₂, hchildren, hrest⟩ := bind_ok h
    obtain ⟨hc₁, he₁⟩ := handleStarttag_skip hstart hs.1
    obtain ⟨hs₂, junk, hj, he₂⟩ := ihc hwc hac (hs.start hstart).1 hchildren
    by_cases hskip : skipped u policy tag attrs = true
    · rw [if_pos hskip] at he₁
      rw [he₁] at he₂
      have hend := handleEndtag_skipped hs₂.1 he₂ (fun hm => hvoid (hj _ hm))
      have hs₃ : StackOf names (handleEndtag u tag st₂) := by
        rw [hend]
        exact ⟨rfl, hs.2⟩
      obtain ⟨hs', junk', hj', he⟩ := ihr hwr har hs₃ hrest
      exact ⟨hs', junk', hj', by rw [he, hend]⟩
    · rw [if_neg hskip] at he₁
      rw [innerNames, if_neg hskip] at hs₂
      have hend := handleEndtag_unskipped (hs₂.not_mem hvoid (hname.resolve_left hskip))
      have hstack : (handleEndtag u tag st₂).skipStack = st₂.skipStack := by
        rw [hend]
        split <;> simp
      have hdepth : (handleEndtag u tag st₂).skipDepth = st₂.skipDepth := by
        rw [hend]
        split <;> simp
      have hs₃ : StackOf names (handleEndtag u tag st₂) := by
        simpa [StackOf, Counted, hstack, hdepth] using hs₂
      obtain ⟨hs', junk', hj', he⟩ := ihr hwr har hs₃ hrest
      refine ⟨hs', junk' ++ junk, ?_, by rw [he, hstack, he₂, he₁, List.append_assoc]⟩
      intro t ht
      exact (List.mem_append.mp ht).elim (hj' t) (hj t)

/- What an element of a forest with names apart leaves behind for its siblings. -/
theorem StackOf.afterElem {st₂ : ArticleHtmlParser} (hs : StackOf names st)
    (hw : (Html.elem tag attrs children rest).wellFormed u = true)
    (ha : (Html.elem tag attrs children rest).namesApart u policy names = true)
    (hstart : handleStarttag u baseUrl policy tag attrs st = .ok st₁)
    (hc : feed u baseUrl policy st₁ children.callbacks = .ok st₂) :
    StackOf names (handleEndtag u tag st₂) ∧
      st.skipStack <:+ (handleEndtag u tag st₂).skipStack := by
  obtain ⟨hvoid, hwc, -⟩ := wellFormed_elem_iff.mp hw
  obtain ⟨hname, hac, -⟩ := namesApart_elem_iff.mp ha
  have hfeed : feed u baseUrl policy st (Html.elem tag attrs children .nil).callbacks =
      .ok (handleEndtag u tag st₂) := by
    rw [feed_elem, hstart]
    simp [ok_bind, hc]
  obtain ⟨hs', junk, -, he⟩ := feed_skipStack _ (wellFormed_elem_iff.mpr ⟨hvoid, hwc, rfl⟩)
    (namesApart_elem_iff.mpr ⟨hname, hac, rfl⟩) hs hfeed
  exact ⟨hs', ⟨junk, he.symm⟩⟩

end Newsintel.Extractors
