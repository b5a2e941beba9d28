import Newsintel.Acquisition.Collectors
import Newsintel.Lib.FirstFound

/-!
# Locations of sitemap entries (adapters/collectors/sitemaps.py)

The location of an entry is the first `loc` that is not blank among all descendants of its `url`
element, in document order, whatever its namespace. That of an image comes first where the image
does.
-/

namespace Newsintel.Acquisition

open PyText FirstFound

/-! ### The `loc` of a `url` element -/

section locations

variable (u : Unicode)

/-- The text of an element named `loc`, when it is not blank. -/
def locText (e : Element) : Option Text :=
  if localName u e.tag = "loc".toList then strippedText e else none

/-- The text of the `loc` child. -/
def directLoc (element : Element) : Option Text := element.children.findSome? (locText u)

/-- The children before the `loc` child, all where there is none. -/
def childrenBefore (element : Element) : List Element :=
  element.children.takeWhile fun child => (locText u child).isNone

/-- The text of the first `loc` inside these children. -/
def earlierLoc (element : Element) : Option Text :=
  (Element.iterAll (childrenBefore u element)).findSome? (locText u)

/-- The `url` elements of a url set. -/
def urlElements (root : Element) : List Element :=
  root.children.filter fun e => localName u e.tag = "url".toList

variable {u} {element root : Element}

theorem firstDescendantText_loc :
    firstDescendantText u element "loc" = element.iter.findSome? (locText u) := rfl

/- Behind the children before it, the `loc` child comes first. -/
theorem findSome?_iterAll (children : List Element) :
    (Element.iterAll children).findSome? (locText u) =
      ((Element.iterAll (children.takeWhile fun child => (locText u child).isNone)).findSome?
        (locText u)).or (children.findSome? (locText u)) := by
  induction children with
  | nil => rfl
  | cons child children ih =>
    rw [Element.iterAll_eq] at ih ⊢
    cases hloc : locText u child with
    | none =>
      rw [List.takeWhile_cons_of_pos (by rw [hloc]; rfl), Element.iterAll_eq, List.flatMap_cons,
        List.flatMap_cons, List.findSome?_append, List.findSome?_append, ih, ← Element.iterAll_eq,
        List.findSome?_cons, hloc, Option.or_assoc]
    | some text =>
      have hiter : child.iter.findSome? (locText u) = some text := by
        rw [Element.iter_eq, List.findSome?_cons, hloc]
      rw [List.takeWhile_cons_of_neg (by rw [hloc]; nofun), List.flatMap_cons,
        List.findSome?_append, hiter, List.findSome?_cons, hloc]
      rfl

theorem location_eq (h : element ∈ urlElements u root) :
    firstDescendantText u element "loc" = (earlierLoc u element).or (directLoc u element) := by
  have hname : localName u element.tag = "url".toList :=
    of_decide_eq_true (List.mem_filter.mp h).2
  have hself : locText u element = none := by
    rw [locText, hname]
    rfl
  rw [firstDescendantText_loc, Element.iter_eq, List.findSome?_cons, hself]
  exact findSome?_iterAll element.children

theorem sitemapEntries_locations (root : Element) :
    (sitemapEntries u root "url").map (·.location) =
      (urlElements u root).filterMap fun element => firstDescendantText u element "loc" := by
  rw [sitemapEntries, List.map_filterMap]
  apply List.filterMap_congr
  intro element _
  rw [Option.map_map]
  exact Option.map_id'

end locations

/-- One entry for each `url` element with a `loc` child, at the location of the child. -/
def LocationsDirect (u : Unicode) (root : Element) (entries : List SitemapEntry) : Prop :=
  entries.map (·.location) = (urlElements u root).filterMap (directLoc u)

/- No `loc` may come before the child, unless the first of them has its text. -/
theorem locations_direct_iff (u : Unicode) (parsers : Parsers) (xml : Bytes) (root : Element)
    (hroot : parsers.fromstring xml = .ok root) (hname : localName u root.tag = "urlset".toList) :
    (∃ document, parseSitemap u parsers xml = .ok document ∧
        LocationsDirect u root document.entries) ↔
      ∀ element ∈ urlElements u root, ∀ text ∈ earlierLoc u element,
        directLoc u element = some text := by
  have hparse : parseSitemap u parsers xml =
      .ok { documentType := .urlSet, entries := sitemapEntries u root "url" } := by
    simp only [parseSitemap, hroot, ok_bind, hname, if_true]
    rfl
  have hdirect : LocationsDirect u root (sitemapEntries u root "url") ↔
      ∀ element ∈ urlElements u root,
        (earlierLoc u element).or (directLoc u element) = directLoc u element := by
    have hfound : (urlElements u root).filterMap (fun element =>
        firstDescendantText u element "loc") =
          (urlElements u root).filterMap fun element =>
            (earlierLoc u element).or (directLoc u element) :=
      List.filterMap_congr fun element helement => location_eq helement
    rw [LocationsDirect, sitemapEntries_locations, hfound]
    apply filterMap_eq_iff
    intro element _ hsome
    rw [ne_eq, Option.or_eq_none_iff, not_and]
    exact fun _ => hsome
  have hearlier : ∀ earlier direct : Option Text,
      earlier.or direct = direct ↔ ∀ text ∈ earlier, direct = some text := by
    intro earlier direct
    cases earlier with
    | none => simp
    | some text => simp [eq_comm]
  simp only [hearlier] at hdirect
  rw [← hdirect]
  constructor
  · rintro ⟨document, hdocument, hlocations⟩
    rw [hparse] at hdocument
    obtain rfl := Except.ok.inj hdocument
    exact hlocations
  · intro hlocations
    exact ⟨_, hparse, hlocations⟩

/-! ### An image before and after the location -/

/-- `<loc>text</loc>` in some namespace. -/
def locElement (tag location : String) : Element := .node tag.toList [] (some location.toList) []

def imageElement (location : String) : Element :=
  .node "{image}image".toList [] none [locElement "{image}loc" location]

/-- A url set of one `url` element. -/
def urlset (children : List Element) : Element :=
  .node "{sitemap}urlset".toList [] none [.node "{sitemap}url".toList [] none children]

/-- Its text, with the default namespace `sitemap`. -/
def urlsetXml (children : List String) : Bytes :=
  asciiBytes ("<urlset xmlns=\"sitemap\" xmlns:image=\"image\"><url>".toList ++
    children.flatMap String.toList ++ "</url></urlset>".toList)

/-- What the libraries make of a text. -/
def urlsetParsers (xml : Bytes) (children : List Element) : Parsers where
  fromstring := fun text => if text = xml then .ok (urlset children) else .error .parseError
  htmlCallbacks := fun _ => []
  fromisoformat := fun _ => .error .valueError
  parsedateToDatetime := fun _ => .error .valueError

theorem fromstring_urlset (xml : Bytes) (children : List Element) :
    (urlsetParsers xml children).fromstring xml = .ok (urlset children) := if_pos rfl

/-- A location with its image behind it. -/
def imageBehind : List Element :=
  [locElement "{sitemap}loc" "https://a.in/story", imageElement "https://a.in/photo.jpg"]

def imageBehindXml : Bytes :=
  urlsetXml ["<loc>https://a.in/story</loc>",
    "<image:image><image:loc>https://a.in/photo.jpg</image:loc></image:image>"]

theorem imageBehind_direct : ∃ document,
    parseSitemap asciiUnicode (urlsetParsers imageBehindXml imageBehind) imageBehindXml =
        .ok document ∧
      LocationsDirect asciiUnicode (urlset imageBehind) document.entries := by
  refine (locations_direct_iff asciiUnicode (urlsetParsers imageBehindXml imageBehind)
    imageBehindXml (urlset imageBehind) (fromstring_urlset _ _) (by decide)).mpr ?_
  intro element helement text htext
  have helements : urlElements asciiUnicode (urlset imageBehind) =
      [.node "{sitemap}url".toList [] none imageBehind] := rfl
  rw [helements, List.mem_singleton] at helement
  subst helement
  have hnone : earlierLoc asciiUnicode (.node "{sitemap}url".toList [] none imageBehind) = none := by
    decide
  rw [hnone] at htext
  cases htext

/-- An image before the location. -/
def imageBefore : List Element :=
  [imageElement "https://a.in/photo.jpg", locElement "{sitemap}loc" "https://a.in/story"]

def imageBeforeXml : Bytes :=
  urlsetXml ["<image:image><image:loc>https://a.in/photo.jpg</image:loc></image:image>",
    "<loc>https://a.in/story</loc>"]

/- The photo is taken for the story. -/
theorem imageBefore_not_direct :
    ¬ ∀ (u : Unicode) (parsers : Parsers) (xml : Bytes) (root : Element),
      parsers.fromstring xml = .ok root → localName u root.tag = "urlset".toList →
        (∀ element ∈ urlElements u root,
          (element.children.filterMap (locText u)).length ≤ 1) →
          ∃ document, parseSitemap u parsers xml = .ok document ∧
            LocationsDirect u root document.entries := by
  intro h
  obtain ⟨document, hdocument, hlocations⟩ := h asciiUnicode
    (urlsetParsers imageBeforeXml imageBefore) imageBeforeXml (urlset imageBefore)
    (fromstring_urlset _ _) (by decide) (by
      intro element helement
      have helements : urlElements asciiUnicode (urlset imageBefore) =
          [.node "{sitemap}url".toList [] none imageBefore] := rfl
      rw [helements, List.mem_singleton] at helement
      subst helement
      decide)
  have hparse : (parseSitemap asciiUnicode (urlsetParsers imageBeforeXml imageBefore)
      imageBeforeXml).map (fun document => document.entries.map (·.location)) =
        .ok ["https://a.in/photo.jpg".toList] := by decide +kernel
  have hexpected : (urlElements asciiUnicode (urlset imageBefore)).filterMap
      (directLoc asciiUnicode) = ["https://a.in/story".toList] := by decide
  rw [hdocument] at hparse
  rw [LocationsDirect, hexpected] at hlocations
  have hphoto : document.entries.map (·.location) = ["https://a.in/photo.jpg".toList] :=
    Except.ok.inj hparse
  rw [hphoto] at hlocations
  exact absurd hlocations (by decide)

end Newsintel.Acquisition
