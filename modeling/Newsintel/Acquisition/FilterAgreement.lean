import Newsintel.Acquisition.FilterPaths

/-!
# The admission filter before and after canonicalisation

The poller filters a URL as it was found (polling.py:251), the article worker the canonical one
that it is about to fetch (processing.py:276). Both decide by the times and by the path, and only
the path is not the same.
-/

namespace Newsintel.Acquisition

open PyText PyUrl PyQuote PosixPath

/-! ### Decisions -/

/-- Why the times are rejected, if they are. -/
def timeRejection (publishedAt : Option Timestamp) (observedAt : Timestamp)
    (recentWindowHours : ℕ) (requirePublicationDate : Bool) : Option UrlRejectionReason :=
  if requirePublicationDate && publishedAt.isNone then some .missingPublicationDate
  else if publishedAt.any (observedAt + hours 2 < ·) then some .futureDated
  else if publishedAt.any (· < observedAt - hours recentWindowHours) then some .tooOld
  else none

/-- What is decided by the path of a URL. -/
def pathCheck (u : Unicode) (url : Text) : Except PyError (Option UrlRejectionReason) :=
  (urlsplit u url []).map fun parsed => pathRejection u parsed.path

/-- The canonical netloc has no stray brackets. -/
def netlocSplits (u : Unicode) (parsed : SplitResult) (host : Text) (port : Option ℕ) : Bool :=
  bracketsValid ((canonicalNetloc host (keptPort (u.lower parsed.scheme) port)).filter
    (!isUnsafe ·))

/-- What is decided by the path of the canonical URL, if that splits. -/
def canonicalCheck (u : Unicode) (parsed : SplitResult) (host : Text) (port : Option ℕ) :
    Except PyError (Option UrlRejectionReason) :=
  if netlocSplits u parsed host port then .ok (segmentsRejection u (canonicalSegments parsed.path))
  else .error .valueError

/-- The URL splits as it was found and without blanks around it, and once it is canonical. -/
structure Splits (u : Unicode) (nameprep : Idna.Nameprep u) (url : Text)
    (found parsed : SplitResult) : Prop where
  as_found : urlsplit u url [] = .ok found
  stripped : urlsplit u (strip url) [] = .ok parsed
  canonical : ∃ host port, canonicalHost u nameprep false parsed = .ok host ∧
    PyUrl.port parsed = .ok port ∧ netlocSplits u parsed host port = true

/-- The path has no blanks to lose, and a segment of an excluded section that resolving dots
leaves, or nothing that is rewritten. -/
def ReadsAlike (u : Unicode) (nameprep : Idna.Nameprep u) (url : Text) : Prop :=
  ∃ found parsed, Splits u nameprep url found parsed ∧ found.path = parsed.path ∧
    (KeepsExcluded parsed.path ∨ PlainPath parsed.path)

/-- The path as it was found has a segment of an excluded section exactly if resolving dots leaves
one. -/
def ExcludesAlike (u : Unicode) (nameprep : Idna.Nameprep u) (url : Text) : Prop :=
  ∃ found parsed, Splits u nameprep url found parsed ∧
    (excludedPath u found.path = true ↔ KeepsExcluded parsed.path)

/-- The filter decides alike on the two URLs, whatever the other arguments are. -/
def FiltersAgree (u : Unicode) (url url' : Text) : Prop :=
  ∀ publishedAt observedAt recentWindowHours requirePublicationDate,
    shouldAdmitArticleUrl u url publishedAt observedAt recentWindowHours requirePublicationDate =
      shouldAdmitArticleUrl u url' publishedAt observedAt recentWindowHours requirePublicationDate

variable {u : Unicode} {nameprep : Idna.Nameprep u} {url url' : Text} {found parsed : SplitResult}
  {r : CanonicalUrl}

theorem looksLikeArticleUrl_eq (h : urlsplit u url [] = .ok parsed) :
    looksLikeArticleUrl u url =
      .ok (!excludedPath u parsed.path && articlePath u parsed.path) := by
  have hexcluded : hasExcludedSegment u url = .ok (excludedPath u parsed.path) := by
    rw [hasExcludedSegment, h]
    rfl
  rw [looksLikeArticleUrl, h, hexcluded]
  simp only [bind, Except.bind, pure, Except.pure]
  rw [articlePath]
  generalize stripSlashes (u.lower parsed.path) = path
  by_cases hnil : path = []
  · simp [hnil]
  · by_cases hsuffix : (fileSuffixes.any (·.isSuffixOf path)) = true
    · simp [hnil, hsuffix]
    · by_cases hsegments : pathSegments path = []
      · simp [hnil, hsuffix, hsegments]
      · cases excludedPath u parsed.path <;> simp [hnil, hsuffix, hsegments]

/- The times are checked first, then the path. -/
theorem shouldAdmitArticleUrl_eq (publishedAt : Option Timestamp) (observedAt : Timestamp)
    (recentWindowHours : ℕ) (requirePublicationDate : Bool) :
    shouldAdmitArticleUrl u url publishedAt observedAt recentWindowHours requirePublicationDate =
      match timeRejection publishedAt observedAt recentWindowHours requirePublicationDate with
      | some reason => .ok ⟨false, some reason, publishedAt⟩
      | none =>
        (pathCheck u url).map fun rejection => ⟨rejection.isNone, rejection, publishedAt⟩ := by
  rw [shouldAdmitArticleUrl, timeRejection]
  split
  · rfl
  · split
    · rfl
    · split
      · rfl
      · rw [hasExcludedSegment, pathCheck]
        cases hparsed : urlsplit u url [] with
        | error e => rfl
        | ok parsed =>
          rw [looksLikeArticleUrl_eq hparsed]
          simp only [bind, Except.bind, pure, Except.pure, Except.map, pathRejection]
          show (if excludedPath u parsed.path = true then _ else _) = _
          cases excludedPath u parsed.path <;> cases articlePath u parsed.path <;> rfl

/- Arguments that let every time pass tell all path checks apart. -/
theorem filtersAgree_iff : FiltersAgree u url url' ↔ pathCheck u url = pathCheck u url' := by
  constructor
  · intro h
    have hundated := h none 0 0 false
    rw [shouldAdmitArticleUrl_eq, shouldAdmitArticleUrl_eq] at hundated
    refine map_injective ?_ hundated
    intro rejection rejection' heq
    exact (ArticleUrlDecision.mk.inj heq).2.1
  · intro h publishedAt observedAt recentWindowHours requirePublicationDate
    rw [shouldAdmitArticleUrl_eq, shouldAdmitArticleUrl_eq, h]

/-! ### The canonical URL -/

theorem pathCheck_normalized {host : Text} {port : Option ℕ}
    (hparsed : urlsplit u (strip url) [] = .ok parsed)
    (hscheme : u.lower parsed.scheme ∈ ["http".toList, "https".toList])
    (hname : hostname u parsed ≠ []) (hhost : canonicalHost u nameprep false parsed = .ok host) :
    pathCheck u (assembleUrl u defaultPolicy url parsed (u.lower parsed.scheme) host
      port).normalized = canonicalCheck u parsed host port := by
  have hpath := (urlsplit_parts hparsed).path_head (netloc_ne_nil hname)
  rw [pathCheck, urlsplit_assembled hparsed hscheme hname hhost, canonicalCheck,
    ← pathRejection_canonicalPath hpath, netlocSplits]
  split <;> rfl

theorem bracketsValid_of_not_mem {host : Text} {port : Option ℕ} (h : ∀ c ∈ "[]".toList, c ∉ host) :
    bracketsValid ((canonicalNetloc host port).filter (!isUnsafe ·)) = true := by
  have hsymbol : ∀ c ∈ "[]".toList, c ≠ ':' ∧ isDigit c = false := forall_mem_of_all (by decide)
  have hfiltered : ∀ c ∈ "[]".toList, c ∉ (canonicalNetloc host port).filter (!isUnsafe ·) := by
    intro c hc hmem
    obtain ⟨hcolon, hdigit⟩ := hsymbol c hc
    exact not_mem_canonicalNetloc (h c hc) hcolon hdigit (List.mem_filter.mp hmem).1
  have hopen := hfiltered '[' (by decide)
  have hclose := hfiltered ']' (by decide)
  rw [bracketsValid, if_neg]
  rw [Bool.or_eq_true, List.contains_iff_mem, List.contains_iff_mem]
  exact fun h => h.elim hopen hclose

/- An ASCII host without brackets keeps them out. -/
theorem netlocSplits_plain {host : Text} {port : Option ℕ}
    (h : ∀ c ∈ hostname u parsed, c.toNat < 128 ∧ c ∉ "[]".toList)
    (hhost : canonicalHost u nameprep false parsed = .ok host) :
    netlocSplits u parsed host port = true := by
  refine bracketsValid_of_not_mem fun c hc hmem => ?_
  have hsymbol : ∀ c ∈ "[]".toList, c.toNat < 128 ∧ c.isAlpha = false :=
    forall_mem_of_all (by decide)
  obtain ⟨hascii, halpha⟩ := hsymbol c hc
  rw [canonicalHost] at hhost
  cases hencoded : Idna.encode nameprep.prepare (hostname u parsed) with
  | error e =>
    rw [hencoded] at hhost
    cases hhost
  | ok encoded =>
    rw [hencoded] at hhost
    obtain rfl := Except.ok.inj hhost
    obtain ⟨-, rfl⟩ := (encode_ascii _ fun d hd => (h d hd).1).mp hencoded
    have hlower := u.lower_symbol _ c (rstripDots_sublist.subset hmem) hascii halpha
    exact (h c hlower).2 hc

theorem canonicalCheck_ok {host : Text} {port : Option ℕ} {rejection : Option UrlRejectionReason} :
    canonicalCheck u parsed host port = .ok rejection ↔ netlocSplits u parsed host port = true ∧
      segmentsRejection u (canonicalSegments parsed.path) = rejection := by
  rw [canonicalCheck]
  cases netlocSplits u parsed host port <;> simp

/- An accepted URL of which the filter reads the same gets one verdict, and one verdict takes an
excluded segment in both paths or in neither. -/
theorem filters_agree (u : Unicode) (nameprep : Idna.Nameprep u) (url : Text) (r : CanonicalUrl)
    (h : canonicalizeUrl u nameprep defaultPolicy url = .ok r) :
    (ReadsAlike u nameprep url → FiltersAgree u url r.normalized) ∧
      (∀ found, urlsplit u url [] = .ok found → FiltersAgree u url r.normalized →
        ExcludesAlike u nameprep url) := by
  obtain ⟨parsed, host, port, hparsed, hscheme, hname, hhost, hport, rfl⟩ := canonicalizeUrl_ok.mp h
  have hpath := (urlsplit_parts hparsed).path_head (netloc_ne_nil hname)
  have hiff : FiltersAgree u url (assembleUrl u defaultPolicy url parsed (u.lower parsed.scheme)
      host port).normalized ↔ pathCheck u url = canonicalCheck u parsed host port := by
    rw [filtersAgree_iff, pathCheck_normalized hparsed hscheme hname hhost]
  rw [hiff]
  refine ⟨?_, ?_⟩
  · rintro ⟨found, parsed', ⟨hfound, hparsed', host', port', hhost', hport', hsplits⟩, hsame, hread⟩
    obtain rfl := Except.ok.inj (hparsed.symm.trans hparsed')
    obtain rfl := Except.ok.inj (hhost.symm.trans hhost')
    obtain rfl := Except.ok.inj (hport.symm.trans hport')
    rw [pathCheck, hfound, Except.map, hsame, eq_comm, canonicalCheck_ok]
    refine ⟨hsplits, ?_⟩
    obtain hkeeps | hplain := hread
    · rw [segmentsRejection_excluded_iff.mpr hkeeps,
        pathRejection_excluded_iff.mpr (excludedPath_of_keepsExcluded hkeeps)]
    · exact pathRejection_plain hpath hplain
  · intro found hfound hsame
    rw [pathCheck, hfound, Except.map, eq_comm, canonicalCheck_ok] at hsame
    obtain ⟨hsplits, hrejection⟩ := hsame
    refine ⟨found, parsed, ⟨hfound, hparsed, host, port, hhost, hport, hsplits⟩, ?_⟩
    rw [← pathRejection_excluded_iff, ← hrejection, segmentsRejection_excluded_iff]

/-! ### Two stories -/

def storyUrl : Text := "https://example.com/news/company-launches-new-ai-platform".toList

def storyParts : SplitResult :=
  { scheme := "https".toList
    netloc := "example.com".toList
    path := "/news/company-launches-new-ai-platform".toList
    query := []
    fragment := [] }

theorem storyUrl_readsAlike : ReadsAlike asciiUnicode Idna.asciiNameprep storyUrl := by
  have hcomps : ∀ comp ∈ ["news".toList, "company-launches-new-ai-platform".toList],
      PlainComponent comp ∧ ∀ c ∈ comp, UrlChar c := by
    simp only [List.forall_mem_cons]
    exact ⟨⟨⟨by decide, by decide, by decide, by decide⟩, forall_mem_of_all (by decide)⟩,
      ⟨⟨by decide, by decide, by decide, by decide⟩, forall_mem_of_all (by decide)⟩,
      List.forall_mem_nil _⟩
  have hplain : PlainPath storyParts.path := ⟨1, _, 0, hcomps, by decide⟩
  have hparts : urlsplit asciiUnicode storyUrl [] = .ok storyParts := by decide +kernel
  have hstrip : strip storyUrl = storyUrl := by decide
  have hname : ∀ c ∈ hostname asciiUnicode storyParts, c.toNat < 128 ∧ c ∉ "[]".toList :=
    forall_mem_of_all (by decide)
  have hhost : canonicalHost asciiUnicode Idna.asciiNameprep false storyParts =
      .ok "example.com".toList := by decide +kernel
  exact ⟨storyParts, storyParts,
    ⟨hparts, hstrip.symm ▸ hparts, _, none, hhost, by decide +kernel,
      netlocSplits_plain hname hhost⟩, rfl, Or.inr hplain⟩

theorem storyUrl_agree : ∃ r,
    canonicalizeUrl asciiUnicode Idna.asciiNameprep defaultPolicy storyUrl = .ok r ∧
      FiltersAgree asciiUnicode storyUrl r.normalized := by
  have htext : normalizedText storyUrl = some storyUrl := by decide +kernel
  obtain ⟨r, hr, -⟩ := normalizedText_some htext
  exact ⟨r, hr,
    (filters_agree asciiUnicode Idna.asciiNameprep storyUrl r hr).1 storyUrl_readsAlike⟩

/- The same story with a step back in its path: the poller turns it away for a segment that the
canonical URL does not have. -/
theorem dottedStory_disagree : ¬ ∀ (u : Unicode) (nameprep : Idna.Nameprep u) (url : Text)
    (r : CanonicalUrl), canonicalizeUrl u nameprep defaultPolicy url = .ok r →
      FiltersAgree u url r.normalized := by
  intro hclaim
  have htext : normalizedText
      "https://example.com/video/../news/company-launches-new-ai-platform".toList =
        some storyUrl := by decide +kernel
  obtain ⟨r, hr, hnormalized⟩ := normalizedText_some htext
  have hagree := hclaim _ _ _ r hr
  rw [hnormalized, filtersAgree_iff] at hagree
  have hraw : pathCheck asciiUnicode
      "https://example.com/video/../news/company-launches-new-ai-platform".toList =
        .ok (some .excludedSection) := by decide +kernel
  have hstory : pathCheck asciiUnicode storyUrl = .ok none := by decide +kernel
  rw [hraw, hstory] at hagree
  cases hagree

end Newsintel.Acquisition
