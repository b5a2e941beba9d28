import Newsintel.Acquisition.DiscoveryService
import Newsintel.Acquisition.FilterAgreement
import Newsintel.Lib.Fields
import Newsintel.Lib.SqlLike

/-!
# Cleaning up the backlog (maintenance/cleanup_old_jobs.py)

With `--invalid-only` the cleanup picks candidates by `LIKE` patterns over the whole canonical
URL, the admission filter turns URLs away by the segments of their path. What a pattern matches
is a segment that the filter excludes, whatever the query is: a canonical query has no slash,
and neither the scheme nor a host with a dot is a word of the patterns.
-/

namespace Newsintel.Acquisition

open PyText PyUrl PyQuote SqlLike

/-! ### Which candidates are stale -/

/-- The patterns of `_invalid_backlog_url_scope`. -/
def invalidBacklogPatterns : List Text :=
  ["%/archive/%", "%/archives/%", "%/topics/%", "%/topic/%", "%/multimedia/%", "%/video/%",
    "%/videos/%", "%/gallery/%", "%/search/%", "%/tag/%", "%/tags/%", "%/author/%",
    "%/authors/%"].map String.toList

def invalidBacklogUrlScope (u : Unicode) (normalizedUrl : Text) : Bool :=
  let lowered := u.lower normalizedUrl
  invalidBacklogPatterns.any fun pattern => like pattern lowered

def urlMatchesPublisher (u : Unicode) (publisherMatch normalizedUrl : Text) : Bool :=
  let lowered := u.lower publisherMatch
  if lowered = "bbc".toList then
    (["%://bbc.%", "%://www.bbc.%", "%://news.bbc.%", "%://%.bbc.%", "%://%.bbci.%"].map
      String.toList).any fun pattern => like pattern (u.lower normalizedUrl)
  else like ('%' :: lowered ++ ['%']) (u.lower normalizedUrl)

def publisherScope (u : Unicode) (publisherMatch : Text) (publisher : PublisherModel) : Bool :=
  let matchPattern := '%' :: u.lower publisherMatch ++ ['%']
  like matchPattern (u.lower publisher.name) || like matchPattern (u.lower publisher.canonicalDomain)

/-- The publisher and URL part of `stale_candidate_filter`, on the join of a candidate with its
publisher. -/
def candidateScope (u : Unicode) (publishers : List PublisherModel) (publisherMatch : Text)
    (invalidOnly : Bool) (r : Articles.UrlCandidateModel) : Bool :=
  publishers.any (fun publisher => decide (publisher.id = r.publisherId) &&
    (publisherScope u publisherMatch publisher ||
      urlMatchesPublisher u publisherMatch r.normalizedUrl)) &&
    (!invalidOnly || invalidBacklogUrlScope u r.normalizedUrl)

/-- `stale_reason`, with the cutoff as `isoformat` writes it. -/
def staleReason (olderThanHours : ℕ) (permanentFailure invalidOnly : Bool) (cutoff : Text) : Text :=
  "old_job_rejected: development cleanup marked stale invalid URL candidate older than ".toList ++
    Nat.toDigits 10 olderThanHours ++ "h; action=".toList ++
    (if permanentFailure then "permanent-failure" else "reject").toList ++
    "; invalid_only=".toList ++ (if invalidOnly then "True" else "False").toList ++
    "; cutoff=".toList ++ cutoff

/-- The cleanup that the command line asks for. -/
def cleanupOldJobs (u : Unicode) (publishers : List PublisherModel) (publisherMatch : Text)
    (olderThanHours : ℕ) (permanentFailure invalidOnly : Bool) (now : Timestamp) (cutoff : Text) :
    Articles.Cleanup where
  now
  olderThanHours
  permanentFailure
  scope := candidateScope u publishers publisherMatch invalidOnly
  staleReason := staleReason olderThanHours permanentFailure invalidOnly cutoff

/-- `host` of `canonicalize_url`. -/
def urlHost (u : Unicode) (nameprep : Idna.Nameprep u) (policy : CanonicalizationPolicy)
    (url : Text) : Except PyError Text := do
  let parsed ← urlsplit u (strip url) []
  canonicalHost u nameprep policy.stripWww parsed

variable {u : Unicode} {nameprep : Idna.Nameprep u} {policy : CanonicalizationPolicy}
  {url scheme netloc path query word t : Text} {parsed : SplitResult} {r : CanonicalUrl}

/-! ### The words of the patterns -/

/-- What the patterns have between their slashes. -/
def backlogWords : List Text :=
  ["archive", "archives", "topics", "topic", "multimedia", "video", "videos", "gallery", "search",
    "tag", "tags", "author", "authors"].map String.toList

theorem invalidBacklogPatterns_eq : invalidBacklogPatterns =
    backlogWords.map fun word => '%' :: ('/' :: word ++ ['/']) ++ ['%'] := by decide

theorem backlogWords_spec : ∀ word ∈ backlogWords, word ∈ excludedSegments ∧ word ≠ [] ∧
    word.all isPlain = true ∧ ("/:.?".toList.all fun c => decide (c ∉ word)) = true := by decide

/- The scope looks for a word between slashes. -/
theorem invalidBacklogUrlScope_iff : invalidBacklogUrlScope u t = true ↔
    ∃ word ∈ backlogWords, '/' :: word ++ ['/'] <:+: u.lower t := by
  rw [invalidBacklogUrlScope, invalidBacklogPatterns_eq]
  simp only [List.any_map, List.any_eq_true, Function.comp_apply]
  refine exists_congr fun word => and_congr_right fun hword => ?_
  obtain ⟨-, -, hplain, -⟩ := backlogWords_spec word hword
  apply like_contains
  rw [List.cons_append, List.all_cons, List.all_append, hplain]
  decide

/-! ### Pieces of a canonical URL -/

theorem slash_not_mem_urlencode (params : List (Text × Text)) : '/' ∉ urlencode params := by
  have hvalue : ∀ t, '/' ∉ quotePlus t := fun t => not_mem_quotePlus (by decide) (by decide)
  intro h
  obtain h | ⟨part, hpart, h⟩ := Idna.mem_intercalate h
  · revert h
    decide
  · obtain ⟨p, -, rfl⟩ := List.mem_map.mp hpart
    simp only [List.mem_append, List.mem_cons] at h
    obtain h | h | h := h
    · exact hvalue _ h
    · revert h
      decide
    · exact hvalue _ h

/- Between the slashes of a canonical URL stand its netloc and the segments of its path; the last
of these is followed by the query. -/
theorem mem_splitOn_canonicalText (hs : '/' ∉ scheme) (hnetloc : '/' ∉ netloc)
    (hpath : path.head? = some '/') (hquery : '/' ∉ query)
    (h : word ∈ (canonicalText scheme netloc path query).splitOn '/') :
    word ∈ path.splitOn '/' ∨ word = [] ∨ word = netloc ∨ ':' ∈ word ∨ '?' ∈ word := by
  obtain ⟨rest, rfl⟩ := List.head?_eq_some_iff.mp hpath
  have htext : canonicalText scheme netloc ('/' :: rest) query = (scheme ++ [':']) ++ '/' ::
      ([] ++ '/' :: (netloc ++ '/' :: (rest ++ if query ≠ [] then '?' :: query else []))) := by
    simp [canonicalText]
  have hfirst : '/' ∉ scheme ++ [':'] := by simp [hs]
  have hmem : word ∈ rest.splitOn '/' → word ∈ ('/' :: rest).splitOn '/' := by
    intro hrest
    rw [List.splitOn_cons_eq_if_modifyHead, if_pos (by decide)]
    exact List.mem_cons_of_mem _ hrest
  rw [htext, List.splitOn_append_cons_self_of_not_mem hfirst,
    List.splitOn_append_cons_self_of_not_mem List.not_mem_nil,
    List.splitOn_append_cons_self_of_not_mem hnetloc, List.mem_cons, List.mem_cons,
    List.mem_cons] at h
  obtain rfl | rfl | rfl | h := h
  · exact Or.inr (Or.inr (Or.inr (Or.inl (by simp))))
  · exact Or.inr (Or.inl rfl)
  · exact Or.inr (Or.inr (Or.inl rfl))
  · by_cases hnil : query = []
    · rw [hnil, if_neg (by simp), List.append_nil] at h
      exact Or.inl (hmem h)
    · rw [if_pos hnil] at h
      have hsuffix : '/' ∉ '?' :: query := by simp [hquery]
      obtain h | h := Fields.mem_splitOn_append hsuffix h
      · exact Or.inl (hmem h)
      · exact Or.inr (Or.inr (Or.inr (Or.inr (h.subset List.mem_cons_self))))

/-! ### What a pattern matches -/

theorem slash_lower (h : '/' ∉ t) : '/' ∉ t.map Char.toLower := by
  intro hslash
  obtain ⟨c, hc, hlower⟩ := List.mem_map.mp hslash
  have hself := toLower_symbol (c := c) (by rw [hlower]; decide)
  exact h (by rw [← hlower, hself]; exact hc)

theorem lower_canonicalText (hs : scheme ∈ ["http".toList, "https".toList])
    (hnetloc : ∀ c ∈ netloc, NetlocChar c) (hpathChars : ∀ c ∈ path, UrlChar c)
    (hqueryChars : ∀ c ∈ query, UrlChar c) :
    u.lower (canonicalText scheme netloc path query) =
      canonicalText scheme netloc (path.map Char.toLower) (query.map Char.toLower) := by
  have hall : ∀ s ∈ ["http".toList, "https".toList],
      (s.all fun c => decide (c.toNat < 128 ∧ c.toLower = c)) = true := by decide
  have hscheme := forall_mem_of_all (hall scheme hs)
  have hascii : ∀ c ∈ canonicalText scheme netloc path query, c.toNat < 128 := by
    intro c hc
    simp only [canonicalText, List.mem_append, List.mem_cons] at hc
    obtain hc | rfl | rfl | rfl | hc | hc | hc := hc
    · exact (hscheme c hc).1
    · decide
    · decide
    · decide
    · exact (hnetloc c hc).1.1
    · exact urlChar_ascii (hpathChars c hc)
    · split at hc
      · obtain rfl | hc := List.mem_cons.mp hc
        · decide
        · exact urlChar_ascii (hqueryChars c hc)
      · cases hc
  have htail : (if query ≠ [] then '?' :: query else []).map Char.toLower =
      if query.map Char.toLower ≠ [] then '?' :: query.map Char.toLower else [] := by
    by_cases hnil : query = []
    · rw [hnil]
      rfl
    · rw [if_pos hnil, if_pos fun h => hnil (List.map_eq_nil_iff.mp h)]
      rfl
  have hslashes : ∀ rest : Text, (':' :: '/' :: '/' :: rest).map Char.toLower =
      ':' :: '/' :: '/' :: rest.map Char.toLower := fun rest => rfl
  rw [u.lower_ascii _ hascii, canonicalText, List.map_append, hslashes, List.map_append,
    List.map_append, map_toLower_eq_self fun c hc => (hscheme c hc).2,
    map_toLower_eq_self fun c hc => (hnetloc c hc).2, htail, canonicalText]

theorem excludedPath_of_segment (hascii : ∀ c ∈ path, c.toNat < 128)
    (hword : word ∈ excludedSegments) (hne : word ≠ [])
    (h : word ∈ (path.map Char.toLower).splitOn '/') : excludedPath u path = true := by
  rw [splitOn_lower (by decide)] at h
  obtain ⟨segment, hsegment, rfl⟩ := List.mem_map.mp h
  have hchars : ∀ c ∈ segment, c.toNat < 128 :=
    fun c hc => hascii c (Idna.mem_of_mem_splitOnP hsegment hc)
  have hnonempty : segment ≠ [] := fun hnil => hne (List.map_eq_nil_iff.mpr hnil)
  rw [excludedPath, List.any_eq_true]
  refine ⟨segment, List.mem_filter.mpr ⟨hsegment, decide_eq_true hnonempty⟩, ?_⟩
  rw [u.lower_ascii _ hchars]
  exact List.contains_iff_mem.mpr hword

/- A word between slashes is neither the scheme nor the netloc nor in the query: it is a segment
of the path. -/
theorem excludedPath_of_scope (hs : scheme ∈ ["http".toList, "https".toList])
    (hnetloc : ∀ c ∈ netloc, NetlocChar c) (hdot : '.' ∈ netloc) (hpath : path.head? = some '/')
    (hpathChars : ∀ c ∈ path, UrlChar c) (hqueryChars : ∀ c ∈ query, UrlChar c)
    (hquery : '/' ∉ query)
    (h : invalidBacklogUrlScope u (canonicalText scheme netloc path query) = true) :
    excludedPath u path = true := by
  obtain ⟨word, hword, hinfix⟩ := invalidBacklogUrlScope_iff.mp h
  obtain ⟨hexcluded, hne, -, hmarks⟩ := backlogWords_spec word hword
  have hchars := forall_mem_of_all hmarks
  rw [lower_canonicalText hs hnetloc hpathChars hqueryChars] at hinfix
  have hschemeSlash : '/' ∉ scheme := by
    have hall : ∀ s ∈ ["http".toList, "https".toList], '/' ∉ s := by decide
    exact hall scheme hs
  have hnetlocSlash : '/' ∉ netloc := by
    intro hslash
    have hends := (hnetloc _ hslash).1.2
    revert hends
    decide
  have hhead : (path.map Char.toLower).head? = some '/' := by
    rw [List.head?_map, hpath]
    rfl
  have hpiece := Fields.mem_splitOn_of_infix (hchars '/' (by decide)) hinfix
  obtain hsegment | hnil | rfl | hcolon | hquestion :=
    mem_splitOn_canonicalText hschemeSlash hnetlocSlash hhead (slash_lower hquery) hpiece
  · exact excludedPath_of_segment (fun c hc => urlChar_ascii (hpathChars c hc)) hexcluded hne hsegment
  · exact absurd hnil hne
  · exact absurd hdot (hchars '.' (by decide))
  · exact absurd hcolon (hchars ':' (by decide))
  · exact absurd hquestion (hchars '?' (by decide))

/-! ### What the filter decides -/

theorem canonicalizeUrl_urlHost {host : Text} (h : canonicalizeUrl u nameprep policy url = .ok r)
    (hhost : urlHost u nameprep policy url = .ok host) :
    ∃ parsed scheme port, urlsplit u (strip url) [] = .ok parsed ∧
      scheme ∈ ["http".toList, "https".toList] ∧ hostname u parsed ≠ [] ∧
      canonicalHost u nameprep policy.stripWww parsed = .ok host ∧
      r = assembleUrl u policy url parsed scheme host port := by
  obtain ⟨parsed, scheme, host', port, hparsed, hs, hname, hhost', rfl⟩ := canonicalizeUrl_parts h
  rw [urlHost, hparsed] at hhost
  obtain rfl := Except.ok.inj (hhost'.symm.trans hhost)
  exact ⟨parsed, scheme, port, hparsed, hs, hname, hhost', rfl⟩

/- A path that the scope matches is excluded, if the URL splits at all. -/
theorem shouldAdmit_of_scope {host : Text} (h : canonicalizeUrl u nameprep policy url = .ok r)
    (hhost : urlHost u nameprep policy url = .ok host) (hdot : '.' ∈ host)
    (hscope : invalidBacklogUrlScope u r.normalized = true) {publishedAt : Option Timestamp}
    {observedAt : Timestamp} {recentWindowHours : ℕ} {requirePublicationDate : Bool}
    (htimes : timeRejection publishedAt observedAt recentWindowHours requirePublicationDate = none) :
    shouldAdmitArticleUrl u r.normalized publishedAt observedAt recentWindowHours
        requirePublicationDate =
      (urlsplit u r.normalized []).map fun _ => ⟨false, some .excludedSection, publishedAt⟩ := by
  obtain ⟨parsed, scheme, port, hparsed, hs, hname, hhost, rfl⟩ := canonicalizeUrl_urlHost h hhost
  have hparts := urlsplit_parts hparsed
  have hpath := hparts.path_head (netloc_ne_nil hname)
  have hnetlocDot : '.' ∈ canonicalNetloc host (keptPort scheme port) := by
    cases keptPort scheme port with
    | none => exact hdot
    | some p => exact List.mem_append_left _ hdot
  rw [assembleUrl_normalized url host port hs hpath] at hscope
  have hexcluded : excludedPath u (canonicalPath parsed.path) = true :=
    excludedPath_of_scope hs
      (fun c hc => netlocChar_canonicalNetloc hparts.netloc_delims hparts.check hhost hc)
      hnetlocDot (canonicalPath_head hpath) (fun c => urlChar_canonicalPath)
      (fun c hc => urlChar_urlencode hc) (slash_not_mem_urlencode _) hscope
  have hrejected : pathRejection u (canonicalPath parsed.path) = some .excludedSection := by
    rw [pathRejection, if_pos hexcluded]
  rw [shouldAdmitArticleUrl_eq, htimes, pathCheck, urlsplit_assembled hparsed hs hname hhost]
  split_ifs
  · simp only [Except.map, hrejected, Option.isNone_some]
  · rfl

theorem urlsplit_plainHost {host : Text} (h : canonicalizeUrl u nameprep policy url = .ok r)
    (hhost : urlHost u nameprep policy url = .ok host) (hopen : '[' ∉ host) (hclose : ']' ∉ host) :
    ∃ parsed, urlsplit u r.normalized [] = .ok parsed := by
  obtain ⟨parsed, scheme, port, hparsed, hs, hname, hhost, rfl⟩ := canonicalizeUrl_urlHost h hhost
  have hplain : ∀ c ∈ "[]".toList, c ∉ host := by
    show ∀ c ∈ ['[', ']'], c ∉ host
    simp [hopen, hclose]
  exact ⟨_, by rw [urlsplit_assembled hparsed hs hname hhost, if_pos (bracketsValid_of_not_mem hplain)]⟩

theorem accepted_times {publishedAt : Option Timestamp} {observedAt : Timestamp}
    {recentWindowHours : ℕ} {requirePublicationDate : Bool} {decision : ArticleUrlDecision}
    (h : shouldAdmitArticleUrl u url publishedAt observedAt recentWindowHours
      requirePublicationDate = .ok decision) (haccepted : decision.accepted = true) :
    timeRejection publishedAt observedAt recentWindowHours requirePublicationDate = none := by
  rw [shouldAdmitArticleUrl_eq] at h
  cases htimes : timeRejection publishedAt observedAt recentWindowHours requirePublicationDate with
  | none => rfl
  | some reason =>
    rw [htimes] at h
    obtain rfl := Except.ok.inj h
    cases haccepted

theorem scope_of_stale {publishers : List PublisherModel} {publisherMatch cutoff : Text}
    {olderThanHours : ℕ} {permanentFailure : Bool} {now : Timestamp} {row : Articles.UrlCandidateModel}
    (h : Articles.staleCandidate (cleanupOldJobs u publishers publisherMatch olderThanHours
      permanentFailure true now cutoff) row = true) :
    invalidBacklogUrlScope u row.normalizedUrl = true := by
  rw [Articles.staleCandidate, Bool.and_eq_true] at h
  have hscope : candidateScope u publishers publisherMatch true row = true := h.2
  rw [candidateScope, Bool.and_eq_true] at hscope
  exact hscope.2

theorem invalidOnly_marks_excluded (u : Unicode) (nameprep : Idna.Nameprep u)
    (policy : CanonicalizationPolicy) (url host : Text) (r : CanonicalUrl)
    (h : canonicalizeUrl u nameprep policy url = .ok r)
    (hhost : urlHost u nameprep policy url = .ok host) (hdot : '.' ∈ host) :
    (invalidBacklogUrlScope u r.normalized = true →
      ∀ publishedAt observedAt recentWindowHours requirePublicationDate,
        timeRejection publishedAt observedAt recentWindowHours requirePublicationDate = none →
          let decision := shouldAdmitArticleUrl u r.normalized publishedAt observedAt
            recentWindowHours requirePublicationDate
          decision = (urlsplit u r.normalized []).map
              (fun _ => ⟨false, some .excludedSection, publishedAt⟩) ∧
            ('[' ∉ host → ']' ∉ host →
              decision = .ok ⟨false, some .excludedSection, publishedAt⟩)) ∧
      ∀ publishers publisherMatch olderThanHours permanentFailure now cutoff row,
        row.normalizedUrl = r.normalized →
          Articles.staleCandidate (cleanupOldJobs u publishers publisherMatch olderThanHours
            permanentFailure true now cutoff) row = true →
          ∀ publishedAt observedAt recentWindowHours requirePublicationDate decision,
            shouldAdmitArticleUrl u row.normalizedUrl publishedAt observedAt recentWindowHours
              requirePublicationDate = .ok decision → decision.accepted = false := by
  constructor
  · intro hscope publishedAt observedAt recentWindowHours requirePublicationDate htimes
    have hdecision := shouldAdmit_of_scope h hhost hdot hscope htimes
    refine ⟨hdecision, fun hopen hclose => ?_⟩
    obtain ⟨parsed, hsplit⟩ := urlsplit_plainHost h hhost hopen hclose
    show shouldAdmitArticleUrl _ _ _ _ _ _ = _
    rw [hdecision, hsplit]
    rfl
  · intro publishers publisherMatch olderThanHours permanentFailure now cutoff row hrow hstale
      publishedAt observedAt recentWindowHours requirePublicationDate decision hadmit
    have hscope := scope_of_stale hstale
    rw [hrow] at hscope hadmit
    by_contra haccepted
    have htimes := accepted_times hadmit (Bool.not_eq_false _ ▸ haccepted)
    rw [shouldAdmit_of_scope h hhost hdot hscope htimes] at hadmit
    cases hsplit : urlsplit u r.normalized [] with
    | error e =>
      rw [hsplit] at hadmit
      cases hadmit
    | ok parsed =>
      rw [hsplit] at hadmit
      obtain rfl := Except.ok.inj hadmit
      exact haccepted rfl

/-! ### Two clips -/

def clipUrl : Text := "https://www.example.com/Video/flood-reaches-the-old-town/?next=/news/".toList

theorem clipUrl_excluded : ∃ r,
    canonicalizeUrl asciiUnicode Idna.asciiNameprep defaultPolicy clipUrl = .ok r ∧
      r.normalized =
        "https://www.example.com/Video/flood-reaches-the-old-town/?next=%2Fnews%2F".toList ∧
      shouldAdmitArticleUrl asciiUnicode r.normalized (some 0) 0 48 true =
        .ok ⟨false, some .excludedSection, some 0⟩ := by
  have htext : normalizedText clipUrl = some
      "https://www.example.com/Video/flood-reaches-the-old-town/?next=%2Fnews%2F".toList := by
    decide +kernel
  obtain ⟨r, hr, hnormalized⟩ := normalizedText_some htext
  have hhost : urlHost asciiUnicode Idna.asciiNameprep defaultPolicy clipUrl =
      .ok "www.example.com".toList := by decide +kernel
  have hscope : invalidBacklogUrlScope asciiUnicode r.normalized = true := by
    rw [hnormalized]
    decide +kernel
  have hexcluded := (invalidOnly_marks_excluded asciiUnicode Idna.asciiNameprep defaultPolicy clipUrl
    _ r hr hhost (by decide)).1 hscope (some 0) 0 48 true (by decide)
  exact ⟨r, hr, hnormalized, hexcluded.2 (by decide) (by decide)⟩

/- The zone of an address may be any text, and brackets in it stay when those around the address
are dropped: the canonical URL does not split. -/
theorem zoneClip_notExcluded : ¬ ∀ (u : Unicode) (nameprep : Idna.Nameprep u)
    (policy : CanonicalizationPolicy) (url host : Text) (r : CanonicalUrl),
    canonicalizeUrl u nameprep policy url = .ok r → urlHost u nameprep policy url = .ok host →
      '.' ∈ host → invalidBacklogUrlScope u r.normalized = true →
        ∀ publishedAt observedAt recentWindowHours requirePublicationDate,
          timeRejection publishedAt observedAt recentWindowHours requirePublicationDate = none →
            shouldAdmitArticleUrl u r.normalized publishedAt observedAt recentWindowHours
              requirePublicationDate = .ok ⟨false, some .excludedSection, publishedAt⟩ := by
  intro hclaim
  have htext : normalizedText "http://[::1%[.com]/video/flood".toList =
      some "http://::1%[.com/video/flood".toList := by decide +kernel
  obtain ⟨r, hr, hnormalized⟩ := normalizedText_some htext
  have hhost : urlHost asciiUnicode Idna.asciiNameprep defaultPolicy
      "http://[::1%[.com]/video/flood".toList = .ok "::1%[.com".toList := by decide +kernel
  have hscope : invalidBacklogUrlScope asciiUnicode r.normalized = true := by
    rw [hnormalized]
    decide +kernel
  have hexcluded := hclaim _ _ _ _ _ r hr hhost (by decide) hscope (some 0) 0 48 true (by decide)
  have hraises : shouldAdmitArticleUrl asciiUnicode "http://::1%[.com/video/flood".toList (some 0)
      0 48 true = .error .valueError := by decide +kernel
  rw [hnormalized, hraises] at hexcluded
  cases hexcluded

end Newsintel.Acquisition
