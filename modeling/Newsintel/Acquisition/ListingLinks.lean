import Newsintel.Acquisition.Polling

/-!
# Links of listing pages (source_discovery.py:84-121, 202-227)

The loop of `discover_html_article_links` passes over a URL that cannot be read, but the callback
for a start tag resolves its `href` outside of any `try`.
-/

namespace Newsintel.Acquisition

open PyText PyUrl
open Extractors (Callback attr attrMap)

/-! ### Anchors -/

section anchors

variable (u : Unicode)

/-- Anchors are closed and not nested; `inside` tells whether one is open. -/
def anchorsApart : Bool → List Callback → Bool
  | inside, [] => !inside
  | inside, .starttag tag _ :: cs =>
    if u.lower tag = ['a'] then !inside && anchorsApart true cs else anchorsApart inside cs
  | inside, .endtag tag :: cs =>
    if u.lower tag = ['a'] then inside && anchorsApart false cs else anchorsApart inside cs
  | inside, .data _ :: cs => anchorsApart inside cs

/-- The `href` values of the anchors that have one. -/
def anchorHrefs : List Callback → List Text
  | [] => []
  | .starttag tag attrs :: cs =>
    if u.lower tag ≠ ['a'] || attr (attrMap u attrs) "href" = [] then anchorHrefs cs
    else attr (attrMap u attrs) "href" :: anchorHrefs cs
  | .endtag _ :: cs | .data _ :: cs => anchorHrefs cs

end anchors

section parser

variable {u : Unicode} {pageUrl : Text} {cs : List Callback} {st st' : AnchorLinkParser}

/- A page that is read has no `href` that cannot be joined. -/
theorem joined_of_foldlM (h : cs.foldlM (AnchorLinkParser.handle u pageUrl) st = .ok st') :
    ∀ href ∈ anchorHrefs u cs, ∃ target, urljoin u pageUrl href = .ok target := by
  induction cs generalizing st with
  | nil => exact List.forall_mem_nil _
  | cons c cs ih =>
    rw [List.foldlM_cons] at h
    obtain ⟨st₁, hc, hcs⟩ := bind_ok h
    cases c with
    | endtag tag => exact ih hcs
    | data data => exact ih hcs
    | starttag tag attrs =>
      rw [anchorHrefs]
      split
      · exact ih hcs
      · rename_i hanchor
        simp only [AnchorLinkParser.handle, if_neg hanchor] at hc
        refine List.forall_mem_cons.mpr ⟨?_, ih hcs⟩
        cases hjoin : urljoin u pageUrl (attr (attrMap u attrs) "href") with
        | ok target => exact ⟨target, rfl⟩
        | error e =>
          rw [hjoin] at hc
          cases hc

/-- The targets of the anchors that are still to be closed, without empty ones. -/
def targets (u : Unicode) (pageUrl : Text) (opened : Option Text) (cs : List Callback) :
    List Text :=
  (opened.toList ++ (anchorHrefs u cs).filterMap fun href => (urljoin u pageUrl href).toOption).filter
    (· ≠ [])

/-- The stacks hold the target of the open anchor, if it has one. -/
structure OneOpen (inside : Bool) (opened : Option Text) (st : AnchorLinkParser) : Prop where
  inside : opened.isSome = true → inside = true
  hrefs : st.hrefStack = opened.toList
  texts : st.textStack.length = opened.toList.length

/-- Every `href` can be joined to the URL of the page. -/
def HrefsJoin (u : Unicode) (pageUrl : Text) (cs : List Callback) : Prop :=
  ∀ href ∈ anchorHrefs u cs, ∃ target, urljoin u pageUrl href = .ok target

/-- The links so far, and those to come. -/
def linksWith (u : Unicode) (pageUrl : Text) (opened : Option Text) (cs : List Callback)
    (st : AnchorLinkParser) : List Text :=
  st.links.map (·.url) ++ targets u pageUrl opened cs

/-- A callback that is handled, with the same links so far and to come. -/
def Handled (u : Unicode) (pageUrl : Text) (opened : Option Text) (c : Callback)
    (cs : List Callback) (st : AnchorLinkParser) : Prop :=
  ∃ inside opened' st₁, AnchorLinkParser.handle u pageUrl st c = .ok st₁ ∧
    OneOpen inside opened' st₁ ∧ anchorsApart u inside cs = true ∧ HrefsJoin u pageUrl cs ∧
      linksWith u pageUrl opened' cs st₁ = linksWith u pageUrl opened (c :: cs) st

variable {inside : Bool} {opened : Option Text} {tag data : Text} {attrs : Extractors.Attrs}

theorem handled_data (hopen : OneOpen inside opened st)
    (hapart : anchorsApart u inside (.data data :: cs) = true)
    (hjoin : HrefsJoin u pageUrl (.data data :: cs)) :
    Handled u pageUrl opened (.data data) cs st := by
  cases htext : st.textStack with
  | nil =>
    refine ⟨inside, opened, st, ?_, hopen, hapart, hjoin, rfl⟩
    simp only [AnchorLinkParser.handle, htext]
  | cons parts rest =>
    refine ⟨inside, opened, { st with textStack := (parts ++ [data]) :: rest }, ?_,
      ⟨hopen.inside, hopen.hrefs, ?_⟩, hapart, hjoin, rfl⟩
    · simp only [AnchorLinkParser.handle, htext]
    · have htexts := hopen.texts
      rw [htext] at htexts
      exact htexts

theorem handled_endtag (hopen : OneOpen inside opened st)
    (hapart : anchorsApart u inside (.endtag tag :: cs) = true)
    (hjoin : HrefsJoin u pageUrl (.endtag tag :: cs)) :
    Handled u pageUrl opened (.endtag tag) cs st := by
  have hhrefs := hopen.hrefs
  rw [anchorsApart] at hapart
  by_cases htag : u.lower tag = ['a']
  · rw [if_pos htag, Bool.and_eq_true] at hapart
    cases opened with
    | none =>
      refine ⟨false, none, st, ?_, ⟨fun h => h, hopen.hrefs, hopen.texts⟩, hapart.2, hjoin, rfl⟩
      simp only [AnchorLinkParser.handle, hhrefs, Option.toList_none]
    | some target =>
      have hclosed : AnchorLinkParser.handle u pageUrl st (.endtag tag) =
          .ok
            { links :=
                if target = [] then st.links
                else st.links ++ [{
                  url := target
                  title := some (normalizeLinkText (join (st.textStack.headD []))) |>.filter
                    (· ≠ []) }]
              hrefStack := []
              textStack := st.textStack.drop 1 } := by
        simp only [AnchorLinkParser.handle, hhrefs, Option.toList_some, htag, ne_eq,
          not_true_eq_false, if_false]
      refine ⟨false, none, _, hclosed, ⟨nofun, rfl, ?_⟩, hapart.2, hjoin, ?_⟩
      · rw [List.length_drop, hopen.texts]
        rfl
      · have hcons : targets u pageUrl (some target) (.endtag tag :: cs) =
            [target].filter (· ≠ []) ++ targets u pageUrl none cs := List.filter_append ..
        rw [linksWith, linksWith, hcons]
        by_cases htarget : target = []
        · simp [htarget]
        · simp [htarget]
  · rw [if_neg htag] at hapart
    refine ⟨inside, opened, st, ?_, hopen, hapart, hjoin, rfl⟩
    cases opened with
    | none => simp only [AnchorLinkParser.handle, hhrefs, Option.toList_none]
    | some target =>
      simp only [AnchorLinkParser.handle, hhrefs, Option.toList_some, htag, ne_eq,
        not_false_eq_true, if_true]

theorem handled_starttag (hopen : OneOpen inside opened st)
    (hapart : anchorsApart u inside (.starttag tag attrs :: cs) = true)
    (hjoin : HrefsJoin u pageUrl (.starttag tag attrs :: cs)) :
    Handled u pageUrl opened (.starttag tag attrs) cs st := by
  have hinside := hopen.inside
  rw [anchorsApart] at hapart
  by_cases hlink : (u.lower tag ≠ ['a'] || attr (attrMap u attrs) "href" = []) = true
  · have hhrefs : anchorHrefs u (.starttag tag attrs :: cs) = anchorHrefs u cs := by
      rw [anchorHrefs, if_pos hlink]
    have hsame : AnchorLinkParser.handle u pageUrl st (.starttag tag attrs) = .ok st := by
      simp only [AnchorLinkParser.handle, if_pos hlink]
    have hlinks : linksWith u pageUrl opened cs st =
        linksWith u pageUrl opened (.starttag tag attrs :: cs) st := by
      rw [linksWith, linksWith, targets, targets, hhrefs]
    rw [HrefsJoin, hhrefs] at hjoin
    split at hapart
    · rw [Bool.and_eq_true] at hapart
      exact ⟨true, opened, st, hsame, ⟨fun _ => rfl, hopen.hrefs, hopen.texts⟩, hapart.2, hjoin,
        hlinks⟩
    · exact ⟨inside, opened, st, hsame, hopen, hapart, hjoin, hlinks⟩
  · have hhrefs : anchorHrefs u (.starttag tag attrs :: cs) =
        attr (attrMap u attrs) "href" :: anchorHrefs u cs := by
      rw [anchorHrefs, if_neg hlink]
    have htag : u.lower tag = ['a'] := by
      by_contra hne
      exact hlink (by rw [decide_eq_true hne, Bool.true_or])
    rw [if_pos htag, Bool.and_eq_true, Bool.not_eq_true'] at hapart
    have hnone : opened = none := by
      cases opened with
      | none => rfl
      | some target =>
        rw [hinside rfl] at hapart
        cases hapart.1
    subst hnone
    rw [HrefsJoin, hhrefs, List.forall_mem_cons] at hjoin
    obtain ⟨⟨target, htarget⟩, hjoin⟩ := hjoin
    refine ⟨true, some target, { st with hrefStack := [target], textStack := [[]] }, ?_,
      ⟨fun _ => rfl, rfl, rfl⟩, hapart.2, hjoin, ?_⟩
    · have htexts : st.textStack = [] := List.length_eq_zero_iff.mp hopen.texts
      simp only [AnchorLinkParser.handle, if_neg hlink, htarget, hopen.hrefs, htexts,
        Option.toList_none]
      rfl
    · rw [linksWith, linksWith, targets, targets, hhrefs, List.filterMap_cons_some]
      · rfl
      · rw [htarget]
        rfl

/- Each anchor with a target adds one link, at its end. -/
theorem foldlM_anchors (hopen : OneOpen inside opened st) (hapart : anchorsApart u inside cs = true)
    (hjoin : HrefsJoin u pageUrl cs) :
    ∃ st', cs.foldlM (AnchorLinkParser.handle u pageUrl) st = .ok st' ∧
      st'.links.map (·.url) = linksWith u pageUrl opened cs st := by
  induction cs generalizing inside opened st with
  | nil =>
    have hnone : opened = none := by
      cases opened with
      | none => rfl
      | some target =>
        rw [hopen.inside rfl] at hapart
        cases hapart
    subst hnone
    exact ⟨st, rfl, (List.append_nil _).symm⟩
  | cons c cs ih =>
    have hhandled : Handled u pageUrl opened c cs st := by
      cases c with
      | data data => exact handled_data hopen hapart hjoin
      | endtag tag => exact handled_endtag hopen hapart hjoin
      | starttag tag attrs => exact handled_starttag hopen hapart hjoin
    obtain ⟨inside', opened', st₁, hc, hopen', hapart', hjoin', hlinks⟩ := hhandled
    obtain ⟨st', hst', hurls⟩ := ih hopen' hapart' hjoin'
    refine ⟨st', ?_, hurls.trans hlinks⟩
    rw [List.foldlM_cons, hc]
    exact hst'

end parser

/-! ### Errors that the loop passes over -/

/-- What raises is caught by `except ValueError`. -/
def RaisesValueErrors {α : Type} (x : Except PyError α) : Prop :=
  ∀ e, x = .error e → e.isValueError = true

section errors

variable {α β : Type} {x : Except PyError α} {f : α → Except PyError β} {u : Unicode}
  {nameprep : Idna.Nameprep u} {url scheme host pageOrigin : Text} {parsed : SplitResult}
  {policy : CanonicalizationPolicy}

theorem raises_ok (a : α) : RaisesValueErrors (.ok a : Except PyError α) := by
  intro e h
  cases h

theorem raises_bind (hx : RaisesValueErrors x) (hf : ∀ a, x = .ok a → RaisesValueErrors (f a)) :
    RaisesValueErrors (x >>= f) := by
  intro e h
  cases hresult : x with
  | error e' =>
    rw [hresult] at h
    obtain rfl : e' = e := Except.error.inj h
    exact hx e' hresult
  | ok a =>
    rw [hresult] at h
    exact hf a hresult e h

theorem raises_map {g : α → β} (hx : RaisesValueErrors x) : RaisesValueErrors (x.map g) := by
  intro e h
  cases hresult : x with
  | error e' =>
    rw [hresult] at h
    obtain rfl : e' = e := Except.error.inj h
    exact hx e' hresult
  | ok a =>
    rw [hresult] at h
    cases h

theorem raises_urlsplit : RaisesValueErrors (urlsplit u url scheme) := by
  intro e h
  simp only [urlsplit] at h
  split at h
  · obtain rfl := Except.error.inj h
    rfl
  · split at h
    · obtain rfl := Except.error.inj h
      rfl
    · cases h

theorem raises_port : RaisesValueErrors (port parsed) := by
  intro e h
  simp only [port] at h
  split at h
  · cases h
  · split at h
    · cases h
    · obtain rfl := Except.error.inj h
      rfl

theorem raises_checkSize (label : Text) : RaisesValueErrors (Idna.checkSize label) := by
  intro e h
  rw [Idna.checkSize] at h
  split at h
  · cases h
  · obtain rfl := Except.error.inj h
    rfl

theorem raises_toAscii {prepare : Text → Except PyError Text}
    (hprepare : ∀ label, RaisesValueErrors (prepare label)) (label : Text) :
    RaisesValueErrors (Idna.toAscii prepare label) := by
  intro e h
  rw [Idna.toAscii] at h
  split at h
  · exact raises_checkSize label e h
  · cases hprepared : prepare label with
    | error e' =>
      rw [hprepared] at h
      obtain rfl := Except.error.inj h
      exact hprepare label e' hprepared
    | ok prepared =>
      rw [hprepared] at h
      simp only at h
      split at h
      · exact raises_checkSize _ e h
      · split at h
        · obtain rfl := Except.error.inj h
          rfl
        · exact raises_checkSize _ e h

theorem raises_mapM {g : α → Except PyError β} (hg : ∀ a, RaisesValueErrors (g a)) (xs : List α) :
    RaisesValueErrors (xs.mapM g) := by
  induction xs with
  | nil => exact raises_ok []
  | cons x xs ih =>
    rw [List.mapM_cons]
    refine raises_bind (hg x) fun b _ => ?_
    exact raises_bind ih fun bs _ => raises_ok _

theorem raises_encode {prepare : Text → Except PyError Text}
    (hprepare : ∀ label, RaisesValueErrors (prepare label)) (host : Text) :
    RaisesValueErrors (Idna.encode prepare host) := by
  intro e h
  simp only [Idna.encode] at h
  split at h
  · split at h
    · cases h
    · obtain rfl := Except.error.inj h
      rfl
  · cases hlabels : (Idna.hostLabels host).1.mapM (Idna.toAscii prepare) with
    | error e' =>
      rw [hlabels] at h
      obtain rfl := Except.error.inj h
      exact raises_mapM (raises_toAscii hprepare) _ e' hlabels
    | ok encoded =>
      rw [hlabels] at h
      cases h

variable (hprepare : ∀ label, RaisesValueErrors (nameprep.prepare label))
include hprepare

theorem raises_canonicalizeUrl : RaisesValueErrors (canonicalizeUrl u nameprep policy url) := by
  intro e h
  rw [canonicalizeUrl] at h
  cases hsplit : urlsplit u (strip url) [] with
  | error e' =>
    rw [hsplit] at h
    obtain rfl := Except.error.inj h
    exact raises_urlsplit e' hsplit
  | ok parsed =>
    rw [hsplit] at h
    simp only at h
    split at h
    · obtain rfl := Except.error.inj h
      rfl
    · split at h
      · obtain rfl := Except.error.inj h
        rfl
      · rw [canonicalHost] at h
        cases hencode : Idna.encode nameprep.prepare (hostname u parsed) with
        | error e' =>
          rw [hencode] at h
          obtain rfl := Except.error.inj h
          exact raises_encode hprepare _ e' hencode
        | ok encoded =>
          rw [hencode] at h
          simp only at h
          cases hport : port parsed with
          | error e' =>
            rw [hport] at h
            obtain rfl := Except.error.inj h
            exact raises_port e' hport
          | ok port =>
            rw [hport] at h
            cases h

theorem raises_originForUrl : RaisesValueErrors (originForUrl u nameprep url) := by
  rw [originForUrl]
  refine raises_bind (raises_map (raises_canonicalizeUrl hprepare)) fun normalized _ => ?_
  exact raises_bind raises_urlsplit fun parsed _ => raises_ok _

omit hprepare in
theorem raises_looksLikeArticleUrl : RaisesValueErrors (looksLikeArticleUrl u url) := by
  rw [looksLikeArticleUrl]
  refine raises_bind raises_urlsplit fun parsed _ => ?_
  simp only
  split
  · exact raises_ok _
  · split
    · exact raises_ok _
    · split
      · exact raises_ok _
      · refine raises_bind (raises_bind raises_urlsplit fun _ _ => raises_ok _) fun excluded _ => ?_
        split <;> exact raises_ok _

theorem raises_articleLinkUrl : RaisesValueErrors (articleLinkUrl u nameprep pageOrigin url) := by
  rw [articleLinkUrl]
  refine raises_bind (raises_originForUrl hprepare) fun origin _ => ?_
  split
  · exact raises_ok _
  · refine raises_bind raises_looksLikeArticleUrl fun looks _ => ?_
    split
    · exact raises_ok _
    · exact raises_bind (raises_canonicalizeUrl hprepare) fun canonical _ => raises_ok _

end errors

/-! ### The loop over the links -/

section collection

variable (u : Unicode) (nameprep : Idna.Nameprep u) (pageUrl pageOrigin : Text)

/-- The canonical form of a URL of the page's origin that looks like an article. -/
def articleForm (url : Text) : Option Text := do
  guard ((originForUrl u nameprep url).toOption = some pageOrigin)
  guard ((looksLikeArticleUrl u url).toOption = some true)
  let canonical ← (canonicalizeUrl u nameprep defaultPolicy url).toOption
  return canonical.normalized

/-- The canonical form of what an `href` resolves to. -/
def canonicalArticle (href : Text) : Option Text :=
  (urljoin u pageUrl href).toOption.bind (articleForm u nameprep pageOrigin)

variable {u nameprep pageUrl pageOrigin}

theorem articleLinkUrl_toOption (url : Text) :
    ((articleLinkUrl u nameprep pageOrigin url).toOption).join =
      articleForm u nameprep pageOrigin url := by
  rw [articleLinkUrl, articleForm]
  cases horigin : originForUrl u nameprep url with
  | error e => rfl
  | ok origin =>
    by_cases hsame : origin = pageOrigin
    · cases hlooks : looksLikeArticleUrl u url with
      | error e => simp [bind, Except.bind, hsame, Except.toOption]
      | ok looks =>
        cases looks with
        | false => simp [bind, Except.bind, hsame, Except.toOption, pure, Except.pure]
        | true =>
          cases hcanonical : canonicalizeUrl u nameprep defaultPolicy url with
          | error e => simp [bind, Except.bind, hsame, Except.toOption]
          | ok canonical => simp [bind, Except.bind, hsame, Except.toOption, pure, Except.pure]
    · simp [bind, Except.bind, hsame, Except.toOption, pure, Except.pure]

/- The loop keeps the first of each canonical form. -/
theorem collectArticleLinks_urls (hprepare : ∀ label, RaisesValueErrors (nameprep.prepare label))
    (pageOrigin : Text) (seen : List Text) (links : List HtmlArticleLink) :
    ∃ result, collectArticleLinks u nameprep pageOrigin seen links = .ok result ∧
      result.map (·.url) =
        (((links.map (·.url)).filterMap (articleForm u nameprep pageOrigin)).filter
          (!seen.contains ·)).eraseDups := by
  induction links generalizing seen with
  | nil => exact ⟨[], rfl, rfl⟩
  | cons link links ih =>
    have hform : ((articleLinkUrl u nameprep pageOrigin link.url).toOption).join =
        articleForm u nameprep pageOrigin link.url := articleLinkUrl_toOption link.url
    rw [collectArticleLinks, List.map_cons]
    cases hlink : articleLinkUrl u nameprep pageOrigin link.url with
    | error e =>
      rw [hlink] at hform
      rw [List.filterMap_cons_none hform.symm]
      simp only [raises_articleLinkUrl hprepare e hlink, if_true]
      exact ih seen
    | ok form =>
      rw [hlink] at hform
      cases form with
      | none =>
        rw [List.filterMap_cons_none hform.symm]
        exact ih seen
      | some normalized =>
        rw [List.filterMap_cons_some hform.symm]
        simp only
        by_cases hseen : seen.contains normalized = true
        · rw [if_pos hseen, List.filter_cons_of_neg (by simpa using hseen)]
          exact ih seen
        · obtain ⟨result, hresult, hurls⟩ := ih (normalized :: seen)
          rw [if_neg hseen, List.filter_cons_of_pos (by simpa using hseen), List.eraseDups_cons,
            List.filter_filter, hresult]
          refine ⟨_, rfl, ?_⟩
          rw [List.map_cons, hurls]
          congr 3
          funext form
          rw [List.contains_cons, Bool.not_or]

/- The empty text has no host. -/
theorem articleForm_nil : articleForm u nameprep pageOrigin [] = none := by
  have hlower : u.lower [] = [] := u.lower_ascii [] (List.forall_mem_nil _)
  have hsplit : urlsplit u "https://".toList [] =
      .ok ⟨"https".toList, [], [], [], []⟩ := rfl
  have hhost : hostname u ⟨"https".toList, [], [], [], []⟩ = [] := hlower
  have hcanonical : canonicalizeUrl u nameprep keepAllPolicy "https://".toList =
      .error .valueError := by
    have hstrip : strip "https://".toList = "https://".toList := by decide
    rw [canonicalizeUrl, hstrip, hsplit]
    simp only [hhost, if_true, ite_self]
  have horigin : originForUrl u nameprep [] = .error .valueError := by
    have hcandidate : normalizeHomepageUrl u nameprep [] =
        (canonicalizeUrl u nameprep keepAllPolicy "https://".toList).map (·.normalized) := rfl
    rw [originForUrl, hcandidate, hcanonical]
    rfl
  rw [articleForm, horigin]
  rfl

end collection

/-! ### Exactly the article links -/

/-- The URLs that are returned: the canonical forms of the anchors, each where it comes first. -/
def ExactLinks (u : Unicode) (nameprep : Idna.Nameprep u) (parsers : Parsers) (html : Bytes)
    (pageUrl : Text) : Prop :=
  ∃ pageOrigin links, originForUrl u nameprep pageUrl = .ok pageOrigin ∧
    discoverHtmlArticleLinks u nameprep parsers html pageUrl = .ok links ∧
      links.map (·.url) = ((anchorHrefs u (parsers.htmlCallbacks html)).filterMap
        (canonicalArticle u nameprep pageUrl pageOrigin)).eraseDups

section exact

variable {u : Unicode} {nameprep : Idna.Nameprep u} {pageUrl pageOrigin : Text}

theorem filterMap_targets (cs : List Callback) :
    (targets u pageUrl none cs).filterMap (articleForm u nameprep pageOrigin) =
      (anchorHrefs u cs).filterMap (canonicalArticle u nameprep pageUrl pageOrigin) := by
  have hempty : ∀ urls : List Text,
      (urls.filter (· ≠ [])).filterMap (articleForm u nameprep pageOrigin) =
        urls.filterMap (articleForm u nameprep pageOrigin) := by
    intro urls
    induction urls with
    | nil => rfl
    | cons url urls ih =>
      by_cases hurl : url = []
      · rw [List.filter_cons_of_neg (by simpa using hurl), ih, hurl,
          List.filterMap_cons_none articleForm_nil]
      · rw [List.filter_cons_of_pos (by simpa using hurl), List.filterMap_cons,
          List.filterMap_cons, ih]
  rw [targets, hempty, Option.toList_none, List.nil_append, List.filterMap_filterMap]
  rfl

/- The page needs an origin, and every `href` must be joined to its URL. -/
theorem exactLinks_iff (u : Unicode) (nameprep : Idna.Nameprep u)
    (hprepare : ∀ label, RaisesValueErrors (nameprep.prepare label)) (parsers : Parsers)
    (html : Bytes) (hapart : anchorsApart u false (parsers.htmlCallbacks html) = true)
    (pageUrl : Text) :
    ExactLinks u nameprep parsers html pageUrl ↔
      (∃ pageOrigin, originForUrl u nameprep pageUrl = .ok pageOrigin) ∧
        HrefsJoin u pageUrl (parsers.htmlCallbacks html) := by
  constructor
  · rintro ⟨pageOrigin, links, horigin, hlinks, _⟩
    rw [discoverHtmlArticleLinks] at hlinks
    obtain ⟨parser, hparser, _⟩ := bind_ok hlinks
    exact ⟨⟨pageOrigin, horigin⟩, joined_of_foldlM hparser⟩
  · rintro ⟨⟨pageOrigin, horigin⟩, hjoin⟩
    have hopen : OneOpen false none ⟨[], [], []⟩ := ⟨nofun, rfl, rfl⟩
    obtain ⟨parser, hparser, hurls⟩ := foldlM_anchors hopen hapart hjoin
    obtain ⟨links, hlinks, hresult⟩ := collectArticleLinks_urls hprepare pageOrigin [] parser.links
    refine ⟨pageOrigin, links, horigin, ?_, ?_⟩
    · rw [discoverHtmlArticleLinks, hparser]
      simp only [ok_bind, horigin, hlinks]
    · have hall : ∀ urls : List Text, urls.filter (fun url => !([] : List Text).contains url) =
          urls := fun urls => List.filter_eq_self.mpr fun _ _ => rfl
      rw [hresult, hall, hurls, linksWith, List.map_nil, List.nil_append, filterMap_targets]

end exact

/-! ### A listing page, and one with a broken link -/

/-- `<a href="...">`, a text, and `</a>`. -/
def anchor (href : String) : List Callback :=
  [.starttag ['a'] [("href".toList, some href.toList)], .data "A story".toList, .endtag ['a']]

/-- A page of such anchors. -/
def listingPage (hrefs : List String) : Bytes :=
  asciiBytes (hrefs.flatMap fun href =>
    "<a href=\"".toList ++ href.toList ++ "\">A story</a>".toList)

/-- What the libraries make of this page. -/
def listingParsers (hrefs : List String) : Parsers :=
  { (sampleExternals []).parsers with
    htmlCallbacks := fun html => if html = listingPage hrefs then hrefs.flatMap anchor else [] }

/-- A story and a section. -/
def storyHrefs : List String := ["/news/2026/07/02/one-important-story-today", "/topics/space"]

/-- The story behind a bracket without its pair. -/
def brokenHrefs : List String := ["http://[", "/news/2026/07/02/one-important-story-today"]

theorem asciiNameprep_raises (label : Text) :
    RaisesValueErrors (Idna.asciiNameprep.prepare label) := by
  rintro e ⟨⟩
  rfl

theorem twoStories_exact :
    ExactLinks asciiUnicode Idna.asciiNameprep (listingParsers storyHrefs) (listingPage storyHrefs)
      "https://example.com".toList := by
  refine (exactLinks_iff asciiUnicode Idna.asciiNameprep asciiNameprep_raises
    (listingParsers storyHrefs) (listingPage storyHrefs) (by decide +kernel)
    "https://example.com".toList).mpr ⟨⟨"https://example.com".toList, by decide +kernel⟩, ?_⟩
  intro href hhref
  have hhrefs : anchorHrefs asciiUnicode
      ((listingParsers storyHrefs).htmlCallbacks (listingPage storyHrefs)) =
        storyHrefs.map String.toList := by decide +kernel
  rw [hhrefs] at hhref
  simp only [storyHrefs, List.map_cons, List.map_nil] at hhref
  simp only [List.mem_cons, List.not_mem_nil, or_false] at hhref
  obtain rfl | rfl := hhref
  · exact ⟨"https://example.com/news/2026/07/02/one-important-story-today".toList,
      by decide +kernel⟩
  · exact ⟨"https://example.com/topics/space".toList, by decide +kernel⟩

/- The bracket ends the whole page. -/
theorem brokenLink_not_isolated :
    ¬ ∀ (u : Unicode) (nameprep : Idna.Nameprep u),
      (∀ label, RaisesValueErrors (nameprep.prepare label)) →
        ∀ (parsers : Parsers) (html : Bytes),
          anchorsApart u false (parsers.htmlCallbacks html) = true →
            ∀ pageUrl pageOrigin, originForUrl u nameprep pageUrl = .ok pageOrigin →
              ExactLinks u nameprep parsers html pageUrl := by
  intro h
  obtain ⟨pageOrigin, links, _, hlinks, _⟩ := h asciiUnicode Idna.asciiNameprep
    asciiNameprep_raises (listingParsers brokenHrefs) (listingPage brokenHrefs) (by decide +kernel)
    "https://example.com".toList "https://example.com".toList (by decide +kernel)
  have herror : (discoverHtmlArticleLinks asciiUnicode Idna.asciiNameprep
      (listingParsers brokenHrefs) (listingPage brokenHrefs) "https://example.com".toList).isOk =
        false := by
    decide +kernel
  rw [hlinks] at herror
  cases herror

end Newsintel.Acquisition
