import Mathlib.Data.Finset.Sort
import Newsintel.Acquisition.CanonicalForm
import Newsintel.Extractors.ArticleHtmlParser
import Newsintel.Lib.Fields

/-!
# Link sets of monitored pages (domain/acquisition/change_detection.py)

A snapshot keeps the canonical URLs that a page links to, and the hash of the sorted URLs joined
by line breaks. No canonical URL is empty or has a line break in it, so that the joined text
tells the set.
-/

namespace Newsintel.Acquisition

open PyText PyUrl PyQuote
open Extractors (Callback)

/-! ### Snapshots -/

/-- The order of `sorted(links)`. -/
def linkLe (s t : Text) : Prop := textLe s t = true

instance : DecidableRel linkLe := fun s t => inferInstanceAs (Decidable (textLe s t = true))

instance : IsTrans Text linkLe := ⟨fun _ _ _ => textLe_trans⟩

instance : Std.Antisymm linkLe := ⟨fun _ _ => textLe_antisymm⟩

instance : Std.Total linkLe := ⟨textLe_total⟩

/-- `_LinkParser`: a start tag adds the canonical URL of its `href`. -/
def handleLink (u : Unicode) (nameprep : Idna.Nameprep u) (baseUrl : Text) (links : Finset Text) :
    Callback → Except PyError (Finset Text)
  | .starttag tag attrs =>
    let href := (attrs.find? fun a => u.lower a.1 = "href".toList).bind Prod.snd
    if u.lower tag ≠ ['a'] then .ok links
    else if href.getD [] = [] then .ok links
    else
      match urljoin u baseUrl (href.getD []) with
      | .error e => .error e
      | .ok absolute =>
        match canonicalizeUrl u nameprep defaultPolicy absolute with
        | .ok canonical => .ok (insert canonical.normalized links)
        | .error e => if e.isValueError then .ok links else .error e
  | .endtag _ | .data _ => .ok links

structure LinkSetSnapshot where
  baseUrl : Text
  contentHash : Text
  linkSetHash : Text
  links : Finset Text
  deriving DecidableEq

structure LinkSetDiff where
  inserted : Finset Text
  removed : Finset Text
  unchanged : Finset Text
  deriving DecidableEq

def LinkSetDiff.materiallyChanged (diff : LinkSetDiff) : Bool :=
  diff.inserted ≠ ∅ || diff.removed ≠ ∅

/-- `"\n".join(sorted(links))`. -/
def joinedLinks (links : Finset Text) : Text := ['\n'].intercalate (links.sort linkLe)

/-- `feed` are the callbacks that `HTMLParser.feed` makes for a document. -/
def createLinkSetSnapshot (u : Unicode) (nameprep : Idna.Nameprep u) (feed : Text → List Callback)
    (baseUrl html : Text) : Except PyError LinkSetSnapshot := do
  let links ← (feed html).foldlM (handleLink u nameprep baseUrl) ∅
  return { baseUrl
           contentHash := Sha256.ofText html
           linkSetHash := Sha256.ofText (joinedLinks links)
           links }

def compareLinkSets (previous current : LinkSetSnapshot) : Except PyError LinkSetDiff :=
  if previous.baseUrl ≠ current.baseUrl then .error .valueError
  else
    .ok
      { inserted := current.links \ previous.links
        removed := previous.links \ current.links
        unchanged := previous.links ∩ current.links }

/-- What the difference in one direction and that in the other one say about two snapshots. -/
structure FaithfulDiff (previous current : LinkSetSnapshot) (diff back : LinkSetDiff) : Prop where
  applied : (previous.links \ diff.removed) ∪ diff.inserted = current.links
  inserted_removed : Disjoint diff.inserted diff.removed
  inserted_unchanged : Disjoint diff.inserted diff.unchanged
  removed_unchanged : Disjoint diff.removed diff.unchanged
  swapped : back.inserted = diff.removed ∧ back.removed = diff.inserted ∧
    back.unchanged = diff.unchanged
  changed_iff : diff.materiallyChanged = true ↔ previous.linkSetHash ≠ current.linkSetHash

/-- The two byte strings are no collision of SHA-256. -/
def NoCollision (bs bs' : List ℕ) : Prop := Sha256.hexdigest bs = Sha256.hexdigest bs' → bs = bs'

variable {u : Unicode} {nameprep : Idna.Nameprep u} {policy : CanonicalizationPolicy}
  {feed : Text → List Callback} {baseUrl html url host : Text} {links links' : Finset Text}
  {parsed : SplitResult} {r : CanonicalUrl} {snapshot previous current : LinkSetSnapshot}
  {diff : LinkSetDiff}

/-! ### Lines -/

/- The host name has no line break: `urlsplit` removes those of the URL. -/
theorem line_hostname (h : urlsplit u url [] = .ok parsed) : '\n' ∉ hostname u parsed := by
  intro hline
  have hmem := hostname_symbol hline (by decide) (by decide)
  have hclean := (urlsplit_parts h).clean parsed.netloc List.mem_cons_self _ hmem
  revert hclean
  decide

theorem line_canonicalHost (hlines : Idna.KeepsLines nameprep.prepare)
    (h : urlsplit u url [] = .ok parsed) {stripWww : Bool}
    (hhost : canonicalHost u nameprep stripWww parsed = .ok host) : '\n' ∉ host := by
  intro hline
  obtain ⟨encoded, hencoded, hlower⟩ := canonicalHost_encoded hhost
  have hmem := u.lower_symbol encoded _ (hlower _ hline) (by decide) (by decide)
  have hname := line_hostname h
  have hnot : ∀ t : Text, '\n' ∉ t → ∀ c ∈ t, (c == '\n') = false :=
    fun t ht c hc => beq_false_of_ne fun he => ht (he ▸ hc)
  have hchar := Idna.asciiExcept_encode (by decide) (hnot _ hname)
    (fun label hl t ht => hnot t (hlines label t ht fun hc =>
      hname (Idna.mem_of_mem_splitOnP hl hc))) hencoded hmem
  exact absurd hchar.2 (by decide)

theorem line_canonicalNetloc {p : Option ℕ} (h : '\n' ∉ host) : '\n' ∉ canonicalNetloc host p :=
  not_mem_canonicalNetloc h (by decide) (by decide)

theorem not_line_urlChar {t : Text} (h : ∀ c ∈ t, UrlChar c) : '\n' ∉ t := by
  intro hline
  have hsafe := (urlChar_spec (h _ hline)).2.2.1
  revert hsafe
  decide

/- A canonical URL is a line that is not empty. -/
theorem line_normalized (hlines : Idna.KeepsLines nameprep.prepare)
    (h : canonicalizeUrl u nameprep policy url = .ok r) :
    r.normalized ≠ [] ∧ '\n' ∉ r.normalized := by
  obtain ⟨parsed, scheme, host, port, hparsed, hs, hname, hhost, rfl⟩ := canonicalizeUrl_parts h
  have hpath := (urlsplit_parts hparsed).path_head (netloc_ne_nil hname)
  have hnetlocLine := line_canonicalNetloc (p := keptPort scheme port)
    (line_canonicalHost hlines hparsed hhost)
  have hpathLine : '\n' ∉ canonicalPath parsed.path := not_line_urlChar fun c => urlChar_canonicalPath
  have hqueryLine : '\n' ∉ urlencode (keptParameters u policy parsed.query) :=
    not_line_urlChar fun c hc => urlChar_urlencode hc
  have hschemeLine : '\n' ∉ scheme := by
    have hall : ∀ s ∈ ["http".toList, "https".toList], '\n' ∉ s := by decide
    exact hall scheme hs
  rw [assembleUrl_normalized url host port hs hpath, canonicalText]
  refine ⟨by simp, ?_⟩
  simp only [List.mem_append, List.mem_cons, not_or]
  refine ⟨hschemeLine, by decide, by decide, by decide, hnetlocLine, hpathLine, ?_⟩
  split
  · simp [hqueryLine]
  · exact List.not_mem_nil

/-! ### What a snapshot holds -/

theorem handleLink_ok {c : Callback} (h : handleLink u nameprep baseUrl links c = .ok links') :
    links' = links ∨ ∃ url r, canonicalizeUrl u nameprep defaultPolicy url = .ok r ∧
      links' = insert r.normalized links := by
  cases c with
  | endtag tag => exact Or.inl (Except.ok.inj h).symm
  | data data => exact Or.inl (Except.ok.inj h).symm
  | starttag tag attrs =>
    simp only [handleLink] at h
    split at h
    · exact Or.inl (Except.ok.inj h).symm
    · split at h
      · exact Or.inl (Except.ok.inj h).symm
      · split at h
        · contradiction
        · rename_i absolute hjoin
          split at h
          · rename_i canonical hcanonical
            exact Or.inr ⟨absolute, canonical, hcanonical, (Except.ok.inj h).symm⟩
          · split at h
            · exact Or.inl (Except.ok.inj h).symm
            · contradiction

/-- Every link is a line that is not empty. -/
def OnLines (links : Finset Text) : Prop := ∀ link ∈ links, link ≠ [] ∧ '\n' ∉ link

theorem onLines_handleLink (hlines : Idna.KeepsLines nameprep.prepare) {c : Callback}
    (h : handleLink u nameprep baseUrl links c = .ok links') (hlinks : OnLines links) :
    OnLines links' := by
  obtain rfl | ⟨url, r, hr, rfl⟩ := handleLink_ok h
  · exact hlinks
  · intro link hlink
    obtain rfl | hlink := Finset.mem_insert.mp hlink
    · exact line_normalized hlines hr
    · exact hlinks link hlink

theorem onLines_foldlM (hlines : Idna.KeepsLines nameprep.prepare) {cs : List Callback}
    (h : cs.foldlM (handleLink u nameprep baseUrl) links = .ok links') (hlinks : OnLines links) :
    OnLines links' := by
  induction cs generalizing links with
  | nil => exact Except.ok.inj h ▸ hlinks
  | cons c cs ih =>
    rw [List.foldlM_cons] at h
    obtain ⟨next, hc, hcs⟩ := bind_ok h
    exact ih hcs (onLines_handleLink hlines hc hlinks)

theorem createLinkSetSnapshot_spec (hlines : Idna.KeepsLines nameprep.prepare)
    (h : createLinkSetSnapshot u nameprep feed baseUrl html = .ok snapshot) :
    snapshot.baseUrl = baseUrl ∧ snapshot.linkSetHash = Sha256.ofText (joinedLinks snapshot.links) ∧
      OnLines snapshot.links := by
  obtain ⟨links, hlinks, hsnapshot⟩ := bind_ok h
  obtain rfl := Except.ok.inj hsnapshot
  have hnone : OnLines ∅ := fun link hlink => absurd hlink (Finset.notMem_empty link)
  exact ⟨rfl, rfl, onLines_foldlM hlines hlinks hnone⟩

/- The joined text tells the set. -/
theorem joinedLinks_inj (h : OnLines links) (h' : OnLines links')
    (hjoined : joinedLinks links = joinedLinks links') : links = links' := by
  have hsorted : links.sort linkLe = links'.sort linkLe :=
    Fields.intercalate_inj (fun w hw => h w ((Finset.mem_sort _).mp hw))
      (fun w hw => h' w ((Finset.mem_sort _).mp hw)) hjoined
  rw [← Finset.sort_toFinset links linkLe, hsorted, Finset.sort_toFinset]

theorem linkSetHash_eq_iff (hprevious : previous.linkSetHash = Sha256.ofText (joinedLinks previous.links))
    (hcurrent : current.linkSetHash = Sha256.ofText (joinedLinks current.links))
    (hlines : OnLines previous.links) (hlines' : OnLines current.links)
    (hsha : NoCollision (Utf8.encode (joinedLinks previous.links))
      (Utf8.encode (joinedLinks current.links))) :
    previous.linkSetHash = current.linkSetHash ↔ previous.links = current.links := by
  rw [hprevious, hcurrent]
  constructor
  · intro hhash
    exact joinedLinks_inj hlines hlines' (Utf8.encode_injective (hsha hhash))
  · intro hlinks
    rw [hlinks]

/-! ### Differences -/

theorem compareLinkSets_ok : compareLinkSets previous current = .ok diff ↔
    previous.baseUrl = current.baseUrl ∧ diff.inserted = current.links \ previous.links ∧
      diff.removed = previous.links \ current.links ∧
      diff.unchanged = previous.links ∩ current.links := by
  unfold compareLinkSets
  by_cases hbase : previous.baseUrl = current.baseUrl
  · rw [if_neg (not_not_intro hbase)]
    constructor
    · intro h
      obtain rfl := Except.ok.inj h
      exact ⟨hbase, rfl, rfl, rfl⟩
    · intro h
      obtain ⟨inserted, removed, unchanged⟩ := diff
      obtain ⟨-, rfl, rfl, rfl⟩ := h
      rfl
  · rw [if_pos hbase]
    exact iff_of_false nofun fun h => hbase h.1

theorem materiallyChanged_iff (h : compareLinkSets previous current = .ok diff) :
    diff.materiallyChanged = true ↔ previous.links ≠ current.links := by
  obtain ⟨-, hinserted, hremoved, -⟩ := compareLinkSets_ok.mp h
  rw [LinkSetDiff.materiallyChanged, Bool.or_eq_true, decide_eq_true_eq, decide_eq_true_eq,
    hinserted, hremoved, ne_eq, ne_eq, Finset.sdiff_eq_empty_iff_subset,
    Finset.sdiff_eq_empty_iff_subset, ← not_and_or, not_iff_not]
  constructor
  · intro h
    exact h.2.antisymm h.1
  · intro h
    exact ⟨h.ge, h.le⟩

/- Two snapshots of a page, and the difference between them in both directions. -/
theorem compareLinkSets_faithful (u : Unicode) (nameprep : Idna.Nameprep u)
    (hlines : Idna.KeepsLines nameprep.prepare) (feed : Text → List Callback)
    (baseUrl html html' : Text) (previous current : LinkSetSnapshot)
    (hprevious : createLinkSetSnapshot u nameprep feed baseUrl html = .ok previous)
    (hcurrent : createLinkSetSnapshot u nameprep feed baseUrl html' = .ok current)
    (hsha : NoCollision (Utf8.encode (joinedLinks previous.links))
      (Utf8.encode (joinedLinks current.links))) :
    ∃ diff back, compareLinkSets previous current = .ok diff ∧
      compareLinkSets current previous = .ok back ∧ FaithfulDiff previous current diff back := by
  obtain ⟨hbase, hhash, honLines⟩ := createLinkSetSnapshot_spec hlines hprevious
  obtain ⟨hbase', hhash', honLines'⟩ := createLinkSetSnapshot_spec hlines hcurrent
  have hsame : previous.baseUrl = current.baseUrl := hbase.trans hbase'.symm
  have hdiff : compareLinkSets previous current = .ok
      ⟨current.links \ previous.links, previous.links \ current.links,
        previous.links ∩ current.links⟩ := compareLinkSets_ok.mpr ⟨hsame, rfl, rfl, rfl⟩
  have hback : compareLinkSets current previous = .ok
      ⟨previous.links \ current.links, current.links \ previous.links,
        current.links ∩ previous.links⟩ := compareLinkSets_ok.mpr ⟨hsame.symm, rfl, rfl, rfl⟩
  refine ⟨_, _, hdiff, hback, ?_⟩
  exact {
    applied := by
      show (previous.links \ (previous.links \ current.links)) ∪
        (current.links \ previous.links) = current.links
      rw [Finset.sdiff_sdiff_self_left, Finset.inter_comm, Finset.union_comm,
        Finset.sdiff_union_inter]
    inserted_removed := disjoint_sdiff_sdiff
    inserted_unchanged := by
      show Disjoint (current.links \ previous.links) (previous.links ∩ current.links)
      rw [Finset.inter_comm]
      exact Finset.disjoint_sdiff_inter _ _
    removed_unchanged := Finset.disjoint_sdiff_inter _ _
    swapped := ⟨rfl, rfl, Finset.inter_comm _ _⟩
    changed_iff := by
      rw [materiallyChanged_iff hdiff, not_iff_not,
        linkSetHash_eq_iff hhash hhash' honLines honLines' hsha] }

/-! ### A page with another story -/

def campaignPage : Text := "<a href=\"/a?utm_source=home\">A</a>".toList

def storyPage : Text := "<a href=\"/c\">C</a>".toList

/-- The callbacks of the two pages. -/
def storyFeed (html : Text) : List Callback :=
  let anchor (href text : String) : List Callback :=
    [.starttag ['a'] [("href".toList, some href.toList)], .data text.toList, .endtag ['a']]
  if html = campaignPage then anchor "/a?utm_source=home" "A" else anchor "/c" "C"

def newsUrl : Text := "https://example.com/news".toList

theorem createLinkSetSnapshot_of_links
    (h : (feed html).foldlM (handleLink u nameprep baseUrl) ∅ = .ok links) :
    createLinkSetSnapshot u nameprep feed baseUrl html =
      .ok ⟨baseUrl, Sha256.ofText html, Sha256.ofText (joinedLinks links), links⟩ := by
  rw [createLinkSetSnapshot, h]
  rfl

theorem joinedLinks_singleton (link : Text) : joinedLinks {link} = link := by
  rw [joinedLinks, Finset.sort_singleton, List.intercalate_singleton]

theorem storyPages_diff : ∃ previous current diff back,
    createLinkSetSnapshot asciiUnicode Idna.asciiNameprep storyFeed newsUrl campaignPage =
        .ok previous ∧
      createLinkSetSnapshot asciiUnicode Idna.asciiNameprep storyFeed newsUrl storyPage =
        .ok current ∧
      previous.links = {"https://example.com/a".toList} ∧
      current.links = {"https://example.com/c".toList} ∧
      compareLinkSets previous current = .ok diff ∧ compareLinkSets current previous = .ok back ∧
      FaithfulDiff previous current diff back := by
  have hcampaign : (storyFeed campaignPage).foldlM
      (handleLink asciiUnicode Idna.asciiNameprep newsUrl) ∅ =
        .ok {"https://example.com/a".toList} := by decide +kernel
  have hstory : (storyFeed storyPage).foldlM
      (handleLink asciiUnicode Idna.asciiNameprep newsUrl) ∅ =
        .ok {"https://example.com/c".toList} := by decide +kernel
  have hprevious := createLinkSetSnapshot_of_links hcampaign
  have hcurrent := createLinkSetSnapshot_of_links hstory
  have hsha : NoCollision (Utf8.encode (joinedLinks {"https://example.com/a".toList}))
      (Utf8.encode (joinedLinks {"https://example.com/c".toList})) := by
    rw [joinedLinks_singleton, joinedLinks_singleton]
    have hdigests : Sha256.hexdigest (Utf8.encode "https://example.com/a".toList) ≠
        Sha256.hexdigest (Utf8.encode "https://example.com/c".toList) := by decide +kernel
    exact fun h => absurd h hdigests
  obtain ⟨diff, back, hdiff, hback, hfaithful⟩ :=
    compareLinkSets_faithful asciiUnicode Idna.asciiNameprep Idna.asciiNameprep_keepsLines storyFeed
      newsUrl campaignPage storyPage _ _ hprevious hcurrent hsha
  exact ⟨_, _, diff, back, hprevious, hcurrent, rfl, rfl, hdiff, hback, hfaithful⟩

end Newsintel.Acquisition
