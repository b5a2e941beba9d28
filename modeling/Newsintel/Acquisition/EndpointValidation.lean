import Newsintel.Acquisition.PollCounters

/-!
# Validation of endpoints (adapters/collectors/source_discovery.py:295-366)

Onboarding tries the parsers one after the other, a poll picks one by the stored channel type.
A payload that passed validation is read by the same parser when it is polled.
-/

namespace Newsintel.Acquisition.SourceDiscovery

/-- `ValidatedEndpoint`. -/
structure ValidatedEndpoint where
  url : Text
  channelType : DiscoveryChannelType
  source : Text
  itemCount : ℕ
  deriving DecidableEq, Repr

/-- `_HTML_DISCOVERY_CHANNEL_TYPES`, and `HTML_DISCOVERY_CHANNEL_TYPES` of polling.py. -/
def htmlDiscoveryChannelTypes : List DiscoveryChannelType :=
  [.homepage, .category, .tag, .author, .archive, .internalLink, .search]

/-- Types that `_process_payload` has a branch for; at any other it raises
`UnsupportedChannelTypeError`. -/
def supportedChannelTypes : List DiscoveryChannelType :=
  [.rss, .atom] ++ [.sitemap, .newsSitemap] ++ htmlDiscoveryChannelTypes

section validation

variable (ext : Externals) (payload : Bytes) (endpointUrl source : Text)

/-- Lines 303-310: the links of a page, for a hint of the HTML types. -/
def validateLinks (hinted : DiscoveryChannelType) : Except PyError (Option ValidatedEndpoint) :=
  (discoverHtmlArticleLinks ext.unicode ext.nameprep ext.parsers payload endpointUrl).map
    fun articleLinks =>
      if articleLinks = [] then none
      else some
        { url := endpointUrl, channelType := hinted, source, itemCount := articleLinks.length }

/-- The first `try` (lines 313-327). -/
def validateFeed : Except PyError (Option ValidatedEndpoint) :=
  (parseFeed ext.unicode ext.parsers payload).map fun feedItems =>
    feedItems.head?.map fun first =>
      { url := endpointUrl
        channelType := if first.channelType = .atom then .atom else .rss
        source
        itemCount := feedItems.length }

/-- The second `try` (lines 331-339). -/
def validateSitemap : Except PyError (Option ValidatedEndpoint) :=
  (parseSitemap ext.unicode ext.parsers payload).map fun sitemap =>
    if sitemap.entries = [] then none
    else some
      { url := endpointUrl, channelType := .sitemap, source, itemCount := sitemap.entries.length }

/-- Lines 312-348. A sitemap error is raised as it is when the payload was an empty feed. -/
def validateDocument : Except PyError ValidatedEndpoint :=
  let feed := validateFeed ext payload endpointUrl source
  match feed with
  | .ok (some endpoint) => .ok endpoint
  | _ =>
    match validateSitemap ext payload endpointUrl source with
    | .ok (some endpoint) => .ok endpoint
    | .ok none => .error .valueError
    | .error sitemapError =>
      match feed with
      | .error _ => .error .valueError
      | .ok _ => .error sitemapError

def validateEndpointPayload (hintedType : Option DiscoveryChannelType) :
    Except PyError ValidatedEndpoint :=
  match hintedType.filter htmlDiscoveryChannelTypes.contains with
  | none => validateDocument ext payload endpointUrl source
  | some hinted =>
    match validateLinks ext payload endpointUrl source hinted with
    | .error e => .error e
    | .ok (some endpoint) => .ok endpoint
    | .ok none => validateDocument ext payload endpointUrl source

end validation

/-- A parser accepts the payload for the channel type, and what it makes of it. -/
inductive Accepts (ext : Externals) (payload : Bytes) (pageUrl : Text) :
    DiscoveryChannelType → PolledDocument → Prop where
  | feed {channelType : DiscoveryChannelType} {items : List DiscoveredItem}
      (htype : channelType ∈ [DiscoveryChannelType.rss, .atom])
      (hparse : parseFeed ext.unicode ext.parsers payload = .ok items) :
      Accepts ext payload pageUrl channelType (.feed items)
  | urlset {entries : List SitemapEntry}
      (hparse : parseSitemap ext.unicode ext.parsers payload = .ok ⟨.urlSet, entries⟩) :
      Accepts ext payload pageUrl .sitemap (.urlset entries)
  | index {entries : List SitemapEntry}
      (hparse : parseSitemap ext.unicode ext.parsers payload = .ok ⟨.index, entries⟩) :
      Accepts ext payload pageUrl .sitemap (.index entries)
  | links {channelType : DiscoveryChannelType} {pageLinks : List HtmlArticleLink}
      (htype : channelType ∈ htmlDiscoveryChannelTypes)
      (hparse : discoverHtmlArticleLinks ext.unicode ext.nameprep ext.parsers payload pageUrl =
        .ok pageLinks) :
      Accepts ext payload pageUrl channelType (.links pageLinks)

/-- The endpoint is that of an accepted document with at least one item. -/
def Reports (ext : Externals) (payload : Bytes) (endpointUrl : Text)
    (endpoint : ValidatedEndpoint) : Prop :=
  ∃ document, Accepts ext payload endpointUrl endpoint.channelType document ∧
    document.discovered = endpoint.itemCount ∧ 0 < endpoint.itemCount

section agreement

variable {ext : Externals} {payload : Bytes} {endpointUrl source : Text}
  {endpoint : ValidatedEndpoint}

theorem validated_ok {α : Type} {parsed : Except PyError α} {f : α → Option ValidatedEndpoint}
    (h : parsed.map f = .ok (some endpoint)) : ∃ a, parsed = .ok a ∧ f a = some endpoint := by
  cases parsed with
  | error e => cases h
  | ok a => exact ⟨a, rfl, Except.ok.inj h⟩

theorem validateLinks_reports {hinted : DiscoveryChannelType}
    (hhinted : hinted ∈ htmlDiscoveryChannelTypes)
    (h : validateLinks ext payload endpointUrl source hinted = .ok (some endpoint)) :
    Reports ext payload endpointUrl endpoint := by
  obtain ⟨links, hparse, hendpoint⟩ := validated_ok h
  split at hendpoint
  · cases hendpoint
  · rename_i hne
    cases hendpoint
    exact ⟨.links links, .links hhinted hparse, rfl, List.length_pos_of_ne_nil hne⟩

theorem validateFeed_reports
    (h : validateFeed ext payload endpointUrl source = .ok (some endpoint)) :
    Reports ext payload endpointUrl endpoint := by
  obtain ⟨items, hparse, hendpoint⟩ := validated_ok h
  obtain ⟨first, hfirst, rfl⟩ := Option.map_eq_some_iff.mp hendpoint
  have hlength : 0 < items.length := List.length_pos_of_mem (List.mem_of_head? hfirst)
  refine ⟨.feed items, .feed ?_ hparse, rfl, hlength⟩
  show (if first.channelType = .atom then DiscoveryChannelType.atom else .rss) ∈ _
  split <;> decide

theorem validateSitemap_reports
    (h : validateSitemap ext payload endpointUrl source = .ok (some endpoint)) :
    Reports ext payload endpointUrl endpoint := by
  obtain ⟨⟨documentType, entries⟩, hparse, hendpoint⟩ := validated_ok h
  split at hendpoint
  · cases hendpoint
  · rename_i hne
    cases hendpoint
    cases documentType with
    | urlSet => exact ⟨.urlset entries, .urlset hparse, rfl, List.length_pos_of_ne_nil hne⟩
    | index => exact ⟨.index entries, .index hparse, rfl, List.length_pos_of_ne_nil hne⟩

theorem validateDocument_reports
    (h : validateDocument ext payload endpointUrl source = .ok endpoint) :
    Reports ext payload endpointUrl endpoint := by
  unfold validateDocument at h
  simp only at h
  split at h
  · rename_i hfeed
    cases h
    exact validateFeed_reports hfeed
  · split at h
    · rename_i hsitemap
      cases h
      exact validateSitemap_reports hsitemap
    · cases h
    · split at h <;> cases h

theorem validateEndpointPayload_reports {hintedType : Option DiscoveryChannelType}
    (h : validateEndpointPayload ext payload endpointUrl source hintedType = .ok endpoint) :
    Reports ext payload endpointUrl endpoint := by
  unfold validateEndpointPayload at h
  split at h
  · exact validateDocument_reports h
  · rename_i hinted hhinted
    have hhtml : hinted ∈ htmlDiscoveryChannelTypes :=
      List.contains_iff_mem.mp (Option.filter_eq_some_iff.mp hhinted).2
    split at h
    · cases h
    · rename_i hlinks
      cases h
      exact validateLinks_reports hhtml hlinks
    · exact validateDocument_reports h

/- The dispatch of a poll picks the parser that accepts the payload. -/
theorem Accepts.parsePayload {channel : DiscoveryChannel} {fetched : FetchResult}
    {document : PolledDocument}
    (h : Accepts ext fetched.body fetched.finalUrl channel.channelType document) :
    Acquisition.parsePayload ext channel fetched = .ok document := by
  generalize htype : channel.channelType = channelType at h
  cases h with
  | feed hfeed hparse =>
    simp only [List.mem_cons, List.not_mem_nil, or_false] at hfeed
    obtain rfl | rfl := hfeed <;> simp only [Acquisition.parsePayload, htype, hparse] <;> rfl
  | urlset hparse =>
    simp only [Acquisition.parsePayload, htype, hparse]
    rfl
  | index hparse =>
    simp only [Acquisition.parsePayload, htype, hparse]
    rfl
  | links hhtml hparse =>
    simp only [htmlDiscoveryChannelTypes, List.mem_cons, List.not_mem_nil, or_false] at hhtml
    obtain rfl | rfl | rfl | rfl | rfl | rfl | rfl := hhtml <;>
      simp only [Acquisition.parsePayload, htype, hparse] <;> rfl

theorem Accepts.supported {channelType : DiscoveryChannelType} {document : PolledDocument}
    (h : Accepts ext payload endpointUrl channelType document) :
    channelType ∈ supportedChannelTypes := by
  rw [supportedChannelTypes, List.mem_append, List.mem_append]
  cases h with
  | feed hfeed _ => exact Or.inl (Or.inl hfeed)
  | urlset _ => exact Or.inl (Or.inr List.mem_cons_self)
  | index _ => exact Or.inl (Or.inr List.mem_cons_self)
  | links hhtml _ => exact Or.inr hhtml

end agreement

/- A poll that processes its payload without an error counts all of it. -/
theorem poll_processed {σ : Type} {svc : ChannelPollService} {ext : Externals}
    {admission : DiscoveryAdmission σ} {fetch : FetchRequest → Except PyError FetchResult}
    {channel : DiscoveryChannel} {fetched : FetchResult} {document : PolledDocument}
    {n : PollCounts} {s s' : σ} (hfetch : fetch (pollRequest channel) = .ok fetched)
    (hstatus : 200 ≤ fetched.statusCode ∧ fetched.statusCode < 300)
    (hparse : parsePayload ext channel fetched = .ok document)
    (hprocess : processDocument svc ext admission channel fetched document s = (.ok n, s'))
    (runId : Uuid) (completedAt : Timestamp) :
    (poll svc ext admission fetch channel runId completedAt s).1.status = .succeeded ∧
      (poll svc ext admission fetch channel runId completedAt s).1.discoveredCount =
        document.discovered := by
  obtain ⟨hlow, hhigh⟩ := hstatus
  have hmodified : fetched.notModified = false := by
    rw [FetchResult.notModified, decide_eq_false_iff_not]
    omega
  have hpayload : processPayload svc ext admission channel fetched s =
      (.ok (document.discovered, n), s') := by
    simp only [processPayload, hparse, hprocess]
    rfl
  have haccepted : (decide (fetched.statusCode < 200) || decide (300 ≤ fetched.statusCode)) =
      false := by
    rw [Bool.or_eq_false_iff, decide_eq_false_iff_not, decide_eq_false_iff_not]
    omega
  unfold poll
  rw [hfetch]
  constructor
  · simp only [hmodified, haccepted, hpayload, Bool.false_eq_true, if_false]
    rfl
  · simp only [hmodified, haccepted, hpayload, Bool.false_eq_true, if_false]

/- An endpoint that passed validation is polled by the parser that accepted it: the dispatch
finds a branch, and the poll discovers as many entries as validation has counted. -/
theorem validated_polls_alike (ext : Externals) (payload : Bytes) (endpointUrl source : Text)
    (hintedType : Option DiscoveryChannelType) (endpoint : ValidatedEndpoint)
    (h : validateEndpointPayload ext payload endpointUrl source hintedType = .ok endpoint)
    (channel : DiscoveryChannel) (htype : channel.channelType = endpoint.channelType)
    (fetched : FetchResult) (hbody : fetched.body = payload)
    (hurl : fetched.finalUrl = endpointUrl) :
    channel.channelType ∈ supportedChannelTypes ∧ 0 < endpoint.itemCount ∧
      ∃ document, Accepts ext payload endpointUrl endpoint.channelType document ∧
        parsePayload ext channel fetched = .ok document ∧
        document.discovered = endpoint.itemCount ∧
        ∀ (σ : Type) (svc : ChannelPollService) (admission : DiscoveryAdmission σ)
          (fetch : FetchRequest → Except PyError FetchResult) (runId : Uuid)
          (completedAt : Timestamp) (n : PollCounts) (s s' : σ),
          fetch (pollRequest channel) = .ok fetched →
          200 ≤ fetched.statusCode ∧ fetched.statusCode < 300 →
          processDocument svc ext admission channel fetched document s = (.ok n, s') →
          (poll svc ext admission fetch channel runId completedAt s).1.status = .succeeded ∧
            (poll svc ext admission fetch channel runId completedAt s).1.discoveredCount =
              endpoint.itemCount := by
  obtain ⟨document, haccepts, hcount, hpositive⟩ := validateEndpointPayload_reports h
  have hparse : parsePayload ext channel fetched = .ok document := by
    apply Accepts.parsePayload
    rw [hbody, hurl, htype]
    exact haccepts
  refine ⟨htype ▸ haccepts.supported, hpositive, document, haccepts, hparse, hcount, ?_⟩
  intro σ svc admission fetch runId completedAt n s s' hfetch hstatus hprocess
  rw [← hcount]
  exact poll_processed hfetch hstatus hparse hprocess runId completedAt

def twoLinks : List String := ["https://a.in/1", "https://a.in/2"]

/- A feed of two items, for which nothing was hinted. -/
theorem sampleFeed_polls_alike :
    ∃ document, parsePayload (sampleExternals twoLinks) sampleChannel (sampleResponse twoLinks) =
        .ok document ∧ document.discovered = 2 := by
  have hvalid : validateEndpointPayload (sampleExternals twoLinks) (sampleResponse twoLinks).body
      (sampleResponse twoLinks).finalUrl "common_path".toList none =
        .ok ⟨"https://example.com/rss".toList, .rss, "common_path".toList, 2⟩ := by
    decide +kernel
  obtain ⟨document, _, hparse, hcount, _⟩ := (validated_polls_alike _ _ _ _ _ _ hvalid
    sampleChannel rfl (sampleResponse twoLinks) rfl rfl).2.2
  exact ⟨document, hparse, hcount⟩

end Newsintel.Acquisition.SourceDiscovery
