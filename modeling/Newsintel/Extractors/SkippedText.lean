import Newsintel.Extractors.HtmlDocument

/-!
# Texts inside skipped elements

The end-tag callback ends a skipped region by tag name alone, so an unskipped
element with the name of the skipped one ends it too early. Where names are
apart, the blocks do not depend on the texts inside skipped elements: the parser
is run on two documents that differ only there.
-/

namespace Newsintel.Extractors

open PyText

namespace Html

/-- The forest with all its texts emptied. -/
def blank : Html → Html
  | nil => nil
  | text _ rest => text [] (blank rest)
  | void tag attrs rest => void tag attrs (blank rest)
  | elem tag attrs children rest => elem tag attrs (blank children) (blank rest)

/-- The document with the texts inside skipped elements emptied. -/
def eraseSkipped (u : Unicode) (policy : Option ExtractionPolicy) : Html → Html
  | nil => nil
  | text data rest => text data (eraseSkipped u policy rest)
  | void tag attrs rest => void tag attrs (eraseSkipped u policy rest)
  | elem tag attrs children rest =>
    elem tag attrs
      (if skipped u policy tag attrs then blank children else eraseSkipped u policy children)
      (eraseSkipped u policy rest)

variable (u : Unicode) (policy : Option ExtractionPolicy)

theorem wellFormed_blank (d : Html) : d.blank.wellFormed u = d.wellFormed u := by
  induction d with
  | nil => rfl
  | text data rest ih => simpa [blank, wellFormed] using ih
  | void tag attrs rest ih => simp [blank, wellFormed, ih]
  | elem tag attrs children rest ihc ihr => simp [blank, wellFormed, ihc, ihr]

theorem namesApart_blank (names : List Text) (d : Html) :
    d.blank.namesApart u policy names = d.namesApart u policy names := by
  induction d generalizing names with
  | nil => rfl
  | text data rest ih => simpa [blank, namesApart] using ih names
  | void tag attrs rest ih => simpa [blank, namesApart] using ih names
  | elem tag attrs children rest ihc ihr => simp [blank, namesApart, ihc, ihr]

theorem wellFormed_eraseSkipped (d : Html) :
    (d.eraseSkipped u policy).wellFormed u = d.wellFormed u := by
  induction d with
  | nil => rfl
  | text data rest ih => simpa [eraseSkipped, wellFormed] using ih
  | void tag attrs rest ih => simp [eraseSkipped, wellFormed, ih]
  | elem tag attrs children rest ihc ihr =>
    simp only [eraseSkipped, wellFormed, ihr]
    split <;> simp [wellFormed_blank, ihc]

theorem namesApart_eraseSkipped (names : List Text) (d : Html) :
    (d.eraseSkipped u policy).namesApart u policy names = d.namesApart u policy names := by
  induction d generalizing names with
  | nil => rfl
  | text data rest ih => simpa [eraseSkipped, namesApart] using ih names
  | void tag attrs rest ih => simpa [eraseSkipped, namesApart] using ih names
  | elem tag attrs children rest ihc ihr =>
    simp only [eraseSkipped, namesApart, ihr]
    split <;> simp [namesApart_blank, ihc]

end Html

variable {u : Unicode} {baseUrl tag tagName data : Text} {policy : Option ExtractionPolicy}
  {attrs : Attrs} {st st' : ArticleHtmlParser} {d : Html} {names : List Text}

/-! ### States up to title and script texts -/

/-- The state without the texts collected for the title and the JSON-LD scripts. -/
def forget (st : ArticleHtmlParser) : ArticleHtmlParser :=
  { st with titleParts := [], jsonLdScripts := [], scriptParts := [] }

/-- Both runs raise the same error, or end in states equal up to these texts. -/
def SameBlocks (r r' : Except PyError ArticleHtmlParser) : Prop := r.map forget = r'.map forget

theorem SameBlocks.bind {r r' : Except PyError ArticleHtmlParser}
    {f g : ArticleHtmlParser → Except PyError ArticleHtmlParser} (h : SameBlocks r r')
    (hfg : ∀ a b, r = .ok a → r' = .ok b → forget a = forget b → SameBlocks (f a) (g b)) :
    SameBlocks (r >>= f) (r' >>= g) := by
  cases r with
  | error e =>
    cases r' with
    | error e' =>
      obtain rfl : e = e' := by simpa [SameBlocks, Except.map] using h
      rfl
    | ok b => simp [SameBlocks, Except.map] at h
  | ok a =>
    cases r' with
    | error e' => simp [SameBlocks, Except.map] at h
    | ok b => exact hfg a b rfl rfl (by simpa [SameBlocks, Except.map] using h)

theorem handleStarttag_forget (st : ArticleHtmlParser) :
    SameBlocks (handleStarttag u baseUrl policy tag attrs st)
      (handleStarttag u baseUrl policy tag attrs (forget st)) := by
  have hlinks : (forget st).links = st.links := rfl
  simp only [handleStarttag, recordHead, hlinks]
  cases recordLinks u baseUrl (u.lower tag) (attrMap u attrs) st.links <;> rfl

theorem forget_closeBlock (tagName : Text) (st : ArticleHtmlParser) :
    forget (closeBlock tagName st) = closeBlock tagName (forget st) := by
  unfold closeBlock
  simp only [forget]
  split <;> rfl

theorem forget_closeElement (tagName : Text) (st : ArticleHtmlParser) :
    forget (closeElement tagName st) = closeElement tagName (forget st) := by
  simp only [closeElement, apply_ite forget, forget_closeBlock]
  rfl

theorem handleEndtag_forget (tag : Text) (st : ArticleHtmlParser) :
    forget (handleEndtag u tag st) = forget (handleEndtag u tag (forget st)) := by
  have hhead : forget (closeHead (u.lower tag) st) =
      forget (closeHead (u.lower tag) (forget st)) := rfl
  simp only [handleEndtag, forget_closeElement, hhead]

theorem handleData_forget (data : Text) (st : ArticleHtmlParser) :
    forget (handleData data st) = forget (handleData data (forget st)) := by
  simp only [handleData, apply_ite forget]
  rfl

/- No callback reads these texts, except to write them. -/
theorem handle_forget (c : Callback) (h : forget st = forget st') :
    SameBlocks (handle u baseUrl policy st c) (handle u baseUrl policy st' c) := by
  cases c with
  | starttag tag attrs =>
    exact (handleStarttag_forget st).trans (h ▸ (handleStarttag_forget st').symm)
  | endtag tag =>
    exact congrArg Except.ok
      ((handleEndtag_forget tag st).trans (h ▸ (handleEndtag_forget tag st').symm))
  | data data =>
    exact congrArg Except.ok
      ((handleData_forget data st).trans (h ▸ (handleData_forget data st').symm))

/- A text inside a skipped region changes at most the collected texts. -/
theorem handleData_hidden (hd : st.skipDepth > 0) : forget (handleData data st) = forget st := by
  unfold handleData
  split
  · rfl
  · split
    · rfl
    · rfl

theorem feed_forget (cs : List Callback) (h : forget st = forget st') :
    SameBlocks (feed u baseUrl policy st cs) (feed u baseUrl policy st' cs) := by
  induction cs generalizing st st' with
  | nil => simpa [feed, SameBlocks, pure, Except.pure, Except.map] using h
  | cons c cs ih =>
    simp only [feed, List.foldlM_cons]
    exact SameBlocks.bind (handle_forget c h) fun a b _ _ hab => ih hab

/-! ### Hidden and visible parts -/

/- Inside a skipped element the stack is never empty, so no text is kept. -/
theorem feed_blank (d : Html) (hw : d.wellFormed u = true)
    (ha : d.namesApart u policy names = true) (hs : StackOf names st) (hne : st.skipStack ≠ []) :
    SameBlocks (feed u baseUrl policy st d.callbacks)
      (feed u baseUrl policy st d.blank.callbacks) := by
  induction d generalizing names st with
  | nil => rfl
  | text data rest ih =>
    have hhidden : forget (handleData data st) = forget (handleData [] st) :=
      (handleData_hidden (depth_pos hs.1 hne)).trans
        (handleData_hidden (depth_pos hs.1 hne)).symm
    have hs₁ : StackOf names (handleData data st) := by simpa [StackOf, Counted] using hs
    simp only [Html.blank, feed_text]
    exact (ih hw ha hs₁ (by simpa using hne)).trans (feed_forget _ hhidden)
  | void tag attrs rest ih =>
    obtain ⟨hvoid, hwr⟩ := wellFormed_void_iff.mp hw
    simp only [Html.blank, feed_void]
    refine SameBlocks.bind rfl ?_
    intro a b hstart hstart' _
    obtain rfl : a = b := Except.ok.inj (hstart.symm.trans hstart')
    exact ih hwr ha (hs.void hvoid hstart).1 (ne_nil_of_suffix hne (hs.start hstart).2)
  | elem tag attrs children rest ihc ihr =>
    obtain ⟨-, hwc, hwr⟩ := wellFormed_elem_iff.mp hw
    obtain ⟨-, hac, har⟩ := namesApart_elem_iff.mp ha
    simp only [Html.blank, feed_elem]
    refine SameBlocks.bind rfl ?_
    intro a b hstart hstart' _
    obtain rfl : a = b := Except.ok.inj (hstart.symm.trans hstart')
    obtain ⟨hs₁, hsuf⟩ := hs.start hstart
    refine SameBlocks.bind (ihc hwc hac hs₁ (ne_nil_of_suffix hne hsuf)) ?_
    intro a₂ b₂ hchildren _ hab
    obtain ⟨hs₃, hsuf₃⟩ := hs.afterElem hw ha hstart hchildren
    have hend : forget (handleEndtag u tag a₂) = forget (handleEndtag u tag b₂) := by
      rw [handleEndtag_forget tag a₂, hab, ← handleEndtag_forget tag b₂]
    exact (ihr hwr har hs₃ (ne_nil_of_suffix hne hsuf₃)).trans (feed_forget _ hend)

/- Outside skipped elements the texts agree; a skipped element is `feed_blank`. -/
theorem feed_eraseSkipped (d : Html) (hw : d.wellFormed u = true)
    (ha : d.namesApart u policy names = true) (hs : StackOf names st) :
    SameBlocks (feed u baseUrl policy st d.callbacks)
      (feed u baseUrl policy st (d.eraseSkipped u policy).callbacks) := by
  induction d generalizing names st with
  | nil => rfl
  | text data rest ih =>
    have hs₁ : StackOf names (handleData data st) := by simpa [StackOf, Counted] using hs
    exact ih hw ha hs₁
  | void tag attrs rest ih =>
    obtain ⟨hvoid, hwr⟩ := wellFormed_void_iff.mp hw
    simp only [Html.eraseSkipped, feed_void]
    refine SameBlocks.bind rfl ?_
    intro a b hstart hstart' _
    obtain rfl : a = b := Except.ok.inj (hstart.symm.trans hstart')
    exact ih hwr ha (hs.void hvoid hstart).1
  | elem tag attrs children rest ihc ihr =>
    obtain ⟨-, hwc, hwr⟩ := wellFormed_elem_iff.mp hw
    obtain ⟨-, hac, har⟩ := namesApart_elem_iff.mp ha
    simp only [Html.eraseSkipped, feed_elem]
    refine SameBlocks.bind rfl ?_
    intro a b hstart hstart' _
    obtain rfl : a = b := Except.ok.inj (hstart.symm.trans hstart')
    obtain ⟨hs₁, -⟩ := hs.start hstart
    have hchildren : SameBlocks (feed u baseUrl policy a children.callbacks)
        (feed u baseUrl policy a (if skipped u policy tag attrs then children.blank
          else children.eraseSkipped u policy).callbacks) := by
      by_cases hskip : skipped u policy tag attrs = true
      · have hne : a.skipStack ≠ [] := by
          rw [(handleStarttag_skip hstart hs.1).2, if_pos hskip]
          simp
        rw [if_pos hskip]
        exact feed_blank children hwc hac hs₁ hne
      · rw [if_neg hskip]
        exact ihc hwc hac hs₁
    refine SameBlocks.bind hchildren ?_
    intro a₂ b₂ hfeed _ hab
    obtain ⟨hs₃, -⟩ := hs.afterElem hw ha hstart hfeed
    have hend : forget (handleEndtag u tag a₂) = forget (handleEndtag u tag b₂) := by
      rw [handleEndtag_forget tag a₂, hab, ← handleEndtag_forget tag b₂]
    exact (ihr hwr har hs₃).trans (feed_forget _ hend)

/-! ### Blocks do not depend on skipped texts -/

/-- `blocks` when the parser has read the document. -/
def blocksOf (u : Unicode) (baseUrl : Text) (policy : Option ExtractionPolicy) (d : Html) :
    Except PyError (List Text) :=
  (feed u baseUrl policy newParser d.callbacks).map (·.blocks)

/-- No text inside a skipped element contributes to a block: documents that
differ in these texts only have the same blocks. -/
def SkippedNeverLeaks (u : Unicode) (baseUrl : Text) (policy : Option ExtractionPolicy)
    (d : Html) : Prop :=
  ∀ d' : Html, d'.eraseSkipped u policy = d.eraseSkipped u policy →
    blocksOf u baseUrl policy d' = blocksOf u baseUrl policy d

theorem stackOf_newParser : StackOf names newParser := ⟨rfl, by simp [newParser]⟩

theorem blocksOf_eraseSkipped (hw : d.wellFormed u = true)
    (ha : d.namesApart u policy [] = true) :
    blocksOf u baseUrl policy d = blocksOf u baseUrl policy (d.eraseSkipped u policy) := by
  have hsame : SameBlocks (feed u baseUrl policy newParser d.callbacks)
      (feed u baseUrl policy newParser (d.eraseSkipped u policy).callbacks) :=
    feed_eraseSkipped d hw ha stackOf_newParser
  have hblocks : ∀ r : Except PyError ArticleHtmlParser,
      r.map (·.blocks) = (r.map forget).map (·.blocks) := by
    intro r
    cases r <;> rfl
  simp only [blocksOf]
  rw [hblocks, hsame, ← hblocks]

theorem skippedNeverLeaks_of_namesApart (u : Unicode) (baseUrl : Text)
    (policy : Option ExtractionPolicy) (d : Html) (hw : d.wellFormed u = true)
    (ha : d.namesApart u policy [] = true) : SkippedNeverLeaks u baseUrl policy d := by
  intro d' he
  have hw' : d'.wellFormed u = true := by
    rw [← Html.wellFormed_eraseSkipped u policy d', he, Html.wellFormed_eraseSkipped, hw]
  have ha' : d'.namesApart u policy [] = true := by
    rw [← Html.namesApart_eraseSkipped u policy [] d', he, Html.namesApart_eraseSkipped, ha]
  rw [blocksOf_eraseSkipped hw' ha', he, ← blocksOf_eraseSkipped hw ha]

/-! ### A promotion box with a division in it -/

def promoAttrs : Attrs := [("class".toList, some "promo".toList)]

/-- `<div class="promo"><p>text</p></div>`. -/
def flatPromo (text : Text) : Html :=
  .elem "div".toList promoAttrs (.elem "p".toList [] (.text text .nil) .nil) .nil

/-- `<div class="promo"><div></div><p>text</p></div>`. -/
def nestedPromo (text : Text) : Html :=
  .elem "div".toList promoAttrs
    (.elem "div".toList [] .nil (.elem "p".toList [] (.text text .nil) .nil)) .nil

theorem flatPromo_skipped :
    SkippedNeverLeaks asciiUnicode "https://example.com/a".toList none
      (flatPromo "Register now.".toList) :=
  skippedNeverLeaks_of_namesApart _ _ _ _ (by decide) (by decide)

theorem nestedPromo_leaks :
    ¬ ∀ u baseUrl policy (d : Html), d.wellFormed u = true →
      SkippedNeverLeaks u baseUrl policy d := by
  intro h
  have hsame := h asciiUnicode [] none (nestedPromo "Register now.".toList) (by decide)
    (nestedPromo "Sponsored.".toList) (by decide)
  exact absurd hsame (by decide)

end Newsintel.Extractors
