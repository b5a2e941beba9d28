import Newsintel.Lib.PyLines
import Newsintel.Sources.Endpoints

/-!
# Written robots.txt files (adapters/collectors/source_discovery.py:158-180)

A line names a sitemap where it is spelled as the key, a colon and a URL. Files are lines with an
end of any kind each, and what stands behind the last of them.
-/

namespace Newsintel.Sources

open PyText PyUrl

def Blanks (t : Text) : Prop := ∀ c ∈ t, isSpace c = true

/-- A text that `strip` leaves alone. -/
structure Stripped (t : Text) : Prop where
  nonempty : t ≠ []
  head : ∀ c, t.head? = some c → isSpace c = false
  last : ∀ c, t.getLast? = some c → isSpace c = false

/-- The line names a sitemap, in any case and with any blanks. -/
structure NamesSitemap (u : Unicode) (text url : Text) : Prop where
  spelled : ∃ indent key gap space trail, text = indent ++ key ++ gap ++ ':' :: space ++ url ++ trail ∧
    Blanks indent ∧ Blanks gap ∧ Blanks space ∧ Blanks trail ∧ Stripped key ∧ ':' ∉ key ∧
      key.head? ≠ some '#' ∧ u.lower key = "sitemap".toList
  stripped : Stripped url

/-- The lines name these sitemaps, between lines that name none. -/
inductive NameSitemaps (u : Unicode) : List Text → List Text → Prop where
  | nil : NameSitemaps u [] []
  | sitemap {text url : Text} {texts urls : List Text} (hline : NamesSitemap u text url)
      (hrest : NameSitemaps u texts urls) : NameSitemaps u (text :: texts) (url :: urls)
  | other {text : Text} {texts urls : List Text} (hline : ∀ url, ¬ NamesSitemap u text url)
      (hrest : NameSitemaps u texts urls) : NameSitemaps u (text :: texts) urls

structure RobotsLine where
  text : Text
  ending : Text
  oneLine : ∀ c ∈ text, isLineBreak c = false
  ends : LineEnd ending

structure RobotsTxt where
  lines : List RobotsLine
  /-- behind the last line end -/
  rest : Text
  oneLine : ∀ c ∈ rest, isLineBreak c = false

def RobotsTxt.written (file : RobotsTxt) : Text :=
  file.lines.flatMap (fun line => line.text ++ line.ending) ++ file.rest

def RobotsTxt.texts (file : RobotsTxt) : List Text := file.lines.map (·.text) ++ [file.rest]

variable {u : Unicode} {t before after url : Text} {urls : List Text}

/-! ### Blanks around a text -/

theorem strip_blanks (hbefore : Blanks before) (hafter : Blanks after) (ht : Stripped t) :
    strip (before ++ t ++ after) = t := by
  obtain ⟨c, rest, rfl⟩ := List.exists_cons_of_ne_nil ht.nonempty
  have hhead : isSpace c = false := ht.head c rfl
  have hleft : lstrip (before ++ (c :: rest) ++ after) = (c :: rest) ++ after := by
    rw [lstrip, List.append_assoc, List.dropWhile_append_of_pos hbefore, List.cons_append,
      List.dropWhile_cons_of_neg (by simp [hhead])]
  obtain ⟨init, d, hlast⟩ := List.eq_nil_or_concat (c :: rest) |>.resolve_left (List.cons_ne_nil _ _)
  rw [List.concat_eq_append] at hlast
  rw [hlast] at hleft ⊢
  have hd : isSpace d = false := ht.last d (by rw [hlast]; simp)
  rw [strip, hleft, rstrip, List.reverse_append, List.dropWhile_append_of_pos ?_]
  · rw [List.reverse_concat, List.dropWhile_cons_of_neg (by simp [hd]), List.reverse_cons,
      List.reverse_reverse]
  · exact fun e he => hafter e (List.mem_reverse.mp he)

theorem blanks_nil : Blanks [] := List.forall_mem_nil _

theorem Blanks.not_colon (h : Blanks t) : ':' ∉ t :=
  fun hmem => absurd (h ':' hmem) (by decide)

theorem exists_blanks (t : Text) : ∃ before after, Blanks before ∧ Blanks after ∧
    t = before ++ strip t ++ after := exists_around isSpace t

theorem dropWhile_head {p : Char → Bool} {c : Char} (h : (t.dropWhile p).head? = some c) :
    p c = false := by
  have hnot := List.head?_dropWhile_not p t
  rw [h] at hnot
  exact hnot

theorem stripped_strip (h : strip t ≠ []) : Stripped (strip t) where
  nonempty := h
  head c hc := by
    have hprefix : strip t <+: lstrip t := by
      have hreverse := List.reverse_prefix.mpr
        (List.dropWhile_suffix isSpace (l := (lstrip t).reverse))
      rw [List.reverse_reverse] at hreverse
      exact hreverse
    obtain ⟨rest, hrest⟩ := hprefix
    apply dropWhile_head (t := t)
    rw [← lstrip, ← hrest, List.head?_append_of_ne_nil _ h]
    exact hc
  last c hc := by
    apply dropWhile_head (t := (lstrip t).reverse)
    rw [← hc, strip, rstrip, List.getLast?_reverse]

/-! ### Lines -/

/- A line that names a sitemap is read back. -/
theorem sitemapValue_names (h : NamesSitemap u t url) : sitemapValue u t = some url := by
  obtain ⟨indent, key, gap, space, trail, rfl, hindent, hgap, hspace, htrail, hkey, hcolon, hhash,
    hlower⟩ := h.spelled
  have hline : strip (indent ++ key ++ gap ++ ':' :: space ++ url ++ trail) =
      key ++ gap ++ ':' :: (space ++ url) := by
    have hstripped : Stripped (key ++ gap ++ ':' :: (space ++ url)) := by
      refine ⟨by simp, ?_, ?_⟩
      · intro d hd
        apply hkey.head d
        rw [List.append_assoc, List.head?_append_of_ne_nil _ hkey.nonempty] at hd
        exact hd
      · intro d hd
        apply h.stripped.last d
        rw [show ':' :: (space ++ url) = (':' :: space) ++ url from rfl, ← List.append_assoc,
          List.getLast?_append_of_ne_nil _ h.stripped.nonempty] at hd
        exact hd
    have happly := strip_blanks hindent htrail hstripped
    rw [← happly]
    congr 1
    simp only [List.append_assoc, List.cons_append]
  have hpartition : partition ':' (key ++ gap ++ ':' :: (space ++ url)) =
      (key ++ gap, some (space ++ url)) := by
    apply partition_append
    rw [List.mem_append, not_or]
    exact ⟨hcolon, hgap.not_colon⟩
  have hkeyStrip : strip (key ++ gap) = key := strip_blanks blanks_nil hgap hkey
  have hurlStrip : strip (space ++ url) = url := by
    have happly := strip_blanks hspace blanks_nil h.stripped
    rwa [List.append_nil] at happly
  have hnotEmpty : ¬ ((key ++ gap ++ ':' :: (space ++ url) = [] ||
      (key ++ gap ++ ':' :: (space ++ url)).head? = some '#') = true) := by
    rw [List.append_assoc, List.head?_append_of_ne_nil _ hkey.nonempty]
    simp [hhash]
  rw [sitemapValue]
  simp only [hline, hpartition, hkeyStrip, hurlStrip, hlower]
  rw [if_neg hnotEmpty, if_pos]
  simp [h.stripped.nonempty]

/- What is read of a line is spelled in it. -/
theorem names_of_sitemapValue (h : sitemapValue u t = some url) : NamesSitemap u t url := by
  obtain ⟨indent, trail, hindent, htrail, ht⟩ := exists_blanks t
  rw [sitemapValue] at h
  split at h
  · cases h
  · rename_i hline
    rw [Bool.or_eq_true, decide_eq_true_eq, decide_eq_true_eq, not_or] at hline
    obtain ⟨hnonempty, hcomment⟩ := hline
    split at h
    · cases h
    · rename_i key value hpartition
      split at h
      · rename_i hsitemap
        obtain rfl := Option.some.inj h
        rw [Bool.and_eq_true, decide_eq_true_eq, decide_eq_true_eq] at hsitemap
        obtain ⟨hlower, hvalue⟩ := hsitemap
        have hspelled : strip t = key ++ ':' :: value := by
          have hsome := partition_some (congrArg Prod.snd hpartition)
          rwa [hpartition] at hsome
        have hcolon : ':' ∉ key := by
          have hnot := not_mem_partition_fst (c := ':') (t := strip t)
          rwa [hpartition] at hnot
        obtain ⟨before, gap, hbefore, hgap, hkey⟩ := exists_blanks key
        obtain ⟨space, after, hspace, hafter, hurl⟩ := exists_blanks value
        have hname : strip key ≠ [] := by
          intro hnil
          rw [hnil, u.lower_ascii [] (List.forall_mem_nil _)] at hlower
          exact absurd hlower (by decide)
        -- the line begins with its key
        have hflush : before = [] := by
          cases before with
          | nil => rfl
          | cons b before =>
            have hblank := (stripped_strip hnonempty).head b (by rw [hspelled, hkey]; rfl)
            rw [hbefore b List.mem_cons_self] at hblank
            exact absurd hblank (by decide)
        refine ⟨⟨indent, strip key, gap, space, after ++ trail, ?_, hindent, hgap, hspace, ?_,
          stripped_strip hname, ?_, ?_, hlower⟩, stripped_strip hvalue⟩
        · conv_lhs => rw [ht, hspelled, hkey, hurl, hflush]
          simp only [List.nil_append, List.append_assoc, List.cons_append]
        · exact List.forall_mem_append.mpr ⟨hafter, htrail⟩
        · intro hmem
          apply hcolon
          rw [hkey]
          exact List.mem_append_left gap (List.mem_append_right before hmem)
        · intro hhash
          apply hcomment
          rw [hspelled, hkey, hflush, List.nil_append, List.append_assoc,
            List.head?_append_of_ne_nil _ hname]
          exact hhash
      · cases h

theorem sitemapValue_iff : sitemapValue u t = some url ↔ NamesSitemap u t url :=
  ⟨names_of_sitemapValue, sitemapValue_names⟩

/-! ### Files -/

theorem sitemapValue_nil : sitemapValue u [] = none := rfl

theorem NameSitemaps.values {texts : List Text} (h : NameSitemaps u texts urls) :
    texts.filterMap (sitemapValue u) = urls := by
  induction h with
  | nil => rfl
  | sitemap hline _ ih => rw [List.filterMap_cons_some (sitemapValue_names hline), ih]
  | @other text _ _ hline _ ih =>
    have hnone : sitemapValue u text = none :=
      Option.eq_none_iff_forall_ne_some.mpr fun url hurl => hline url (sitemapValue_iff.mp hurl)
    rw [List.filterMap_cons_none hnone, ih]

/- By induction over the lines: each gives what it names, whatever its end is. -/
theorem RobotsTxt.values (file : RobotsTxt) :
    (splitlines file.written).filterMap (sitemapValue u) =
      file.texts.filterMap (sitemapValue u) := by
  obtain ⟨lines, rest, hrest⟩ := file
  have hlast : [rest].filterMap (sitemapValue u) = (sitemapValue u rest).toList := by
    rw [List.filterMap_cons]
    cases sitemapValue u rest <;> rfl
  show (splitlines (lines.flatMap (fun line => line.text ++ line.ending) ++ rest)).filterMap _ =
    (lines.map (·.text) ++ [rest]).filterMap _
  induction lines with
  | nil =>
    rw [List.map_nil, List.nil_append, hlast]
    exact filterMap_splitlines_rest sitemapValue_nil hrest
  | cons line lines ih =>
    rw [List.flatMap_cons, List.append_assoc (line.text ++ line.ending),
      filterMap_splitlines_line sitemapValue_nil line.oneLine line.ends, ih, List.map_cons,
      List.cons_append, List.filterMap_cons]
    cases sitemapValue u line.text <;> rfl

theorem decodeHtml_encode (t : Text) : decodeHtml (Utf8.encodeBytes t) = t := by
  simp only [decodeHtml, Utf8.encodeBytes_toNat, Utf8.decodeStrict_encode]

/- What a robots.txt file names is what is read of it. -/
theorem discoverRobotSitemaps_written (u : Unicode) (homepageUrl : Text) (file : RobotsTxt)
    (urls : List Text) (h : NameSitemaps u file.texts urls) :
    discoverRobotSitemaps u (Utf8.encodeBytes file.written) homepageUrl =
      urls.mapM fun sitemapUrl => (urljoin u homepageUrl sitemapUrl).map fun url =>
        { url, source := "robots_txt".toList, hintedType := some .sitemap } := by
  rw [discoverRobotSitemaps, decodeHtml_encode, file.values, h.values]

/-- A comment, a directive of another kind, and two sitemaps; the last line has no end. -/
def sampleRobots : RobotsTxt where
  lines := [⟨"# robots".toList, ['\n'], forall_mem_of_all (by decide), .inr ⟨'\n', rfl, rfl⟩⟩,
    ⟨"Disallow: /private".toList, ['\r', '\n'], forall_mem_of_all (by decide), .inl rfl⟩,
    ⟨"  SITEMAP : /news.xml ".toList, ['\r'], forall_mem_of_all (by decide), .inr ⟨'\r', rfl, rfl⟩⟩]
  rest := "sitemap:late.xml".toList
  oneLine := forall_mem_of_all (by decide)

theorem sampleRobots_names :
    NameSitemaps asciiUnicode sampleRobots.texts ["/news.xml".toList, "late.xml".toList] := by
  have hother (t : Text) (h : sitemapValue asciiUnicode t = none) (url : Text) :
      ¬ NamesSitemap asciiUnicode t url := by
    intro hnames
    rw [sitemapValue_names hnames] at h
    cases h
  refine .other (hother _ (by decide +kernel)) (.other (hother _ (by decide +kernel)) ?_)
  exact .sitemap (names_of_sitemapValue (by decide +kernel))
    (.sitemap (names_of_sitemapValue (by decide +kernel)) .nil)

theorem sampleRobots_sitemaps :
    discoverRobotSitemaps asciiUnicode (Utf8.encodeBytes sampleRobots.written)
        "https://a.in/".toList =
      .ok [⟨"https://a.in/news.xml".toList, "robots_txt".toList, some .sitemap⟩,
        ⟨"https://a.in/late.xml".toList, "robots_txt".toList, some .sitemap⟩] :=
  (discoverRobotSitemaps_written _ _ _ _ sampleRobots_names).trans (by decide +kernel)

end Newsintel.Sources
