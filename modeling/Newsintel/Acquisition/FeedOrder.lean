import Mathlib.Data.Multiset.Defs
import Mathlib.Logic.Relation
import Newsintel.Acquisition.Collectors
import Newsintel.Lib.FirstFound

/-!
# Order of the children of feed items (feeds.py:23-87)

An identifier and a date are the first of several alternatives in the order of the document. Any
other order of the children gives the same items if and only if the alternatives agree.
-/

namespace Newsintel.Acquisition

open PyText FirstFound

/-! ### The two formats -/

/-- What `parse_feed` reads of an item. -/
structure FeedFormat where
  itemName : String
  identifiers : List String
  dates : List String
  link : Element → Option Text
  channelType : DiscoveryChannelType

def rssFormat (u : Unicode) : FeedFormat where
  itemName := "item"
  identifiers := ["guid", "id"]
  dates := ["pubdate", "published", "updated", "date"]
  link item := childText u item ["link"]
  channelType := .rss

def atomFormat (u : Unicode) : FeedFormat where
  itemName := "entry"
  identifiers := ["id"]
  dates := ["published", "updated"]
  link entry := atomLink u none entry.children
  channelType := .atom

def FeedFormat.read (format : FeedFormat) (u : Unicode) (item : Element) :
    Option DiscoveredItem :=
  (format.link item).map fun url =>
    { externalId := childText u item format.identifiers
      url
      title := childText u item ["title"]
      publishedAtRaw := childText u item format.dates
      channelType := format.channelType }

section formats

variable (u : Unicode)

def IsAtom (root : Element) : Prop := localName u root.tag = "feed".toList

instance (root : Element) : Decidable (IsAtom u root) := inferInstanceAs (Decidable (_ = _))

def IsRss (root : Element) : Prop :=
  localName u root.tag = "rss".toList ∨ localName u root.tag = "rdf".toList

def feedFormat (root : Element) : FeedFormat :=
  if IsAtom u root then atomFormat u else rssFormat u

def hasName (name : String) (e : Element) : Bool := localName u e.tag = name.toList

/-- The items of a feed: the children named `entry`, and the descendants named `item`. -/
def listed (root : Element) : List Element :=
  if IsAtom u root then root.children.filter (hasName u "entry")
  else root.iter.filter (hasName u "item")

variable {u} {root : Element} {items : List DiscoveredItem}

theorem parseFeed_ok_iff (parsers : Parsers) (xml : Bytes)
    (hroot : parsers.fromstring xml = .ok root) :
    parseFeed u parsers xml = .ok items ↔
      (IsAtom u root ∨ IsRss u root) ∧
        items = (listed u root).filterMap ((feedFormat u root).read u) := by
  simp only [parseFeed, hroot, ok_bind, Bool.or_eq_true, decide_eq_true_eq]
  by_cases hatom : IsAtom u root
  · have hnot : ¬ IsRss u root := by
      rintro (hname | hname) <;> exact absurd (hname.symm.trans hatom) (by decide)
    have hfeed : localName u root.tag = "feed".toList := hatom
    simp only [IsRss] at hnot
    rw [if_neg hnot, if_pos hfeed, listed, feedFormat, if_pos hatom, if_pos hatom]
    simp only [hatom, true_or, true_and]
    constructor
    · intro h
      exact (Except.ok.inj h).symm
    · rintro rfl
      rfl
  · rw [listed, feedFormat, if_neg hatom, if_neg hatom]
    by_cases hrss : IsRss u root
    · simp only [hrss, or_true, true_and]
      simp only [IsRss] at hrss
      rw [if_pos hrss]
      constructor
      · intro h
        exact (Except.ok.inj h).symm
      · rintro rfl
        rfl
    · simp only [hatom, hrss, or_self, false_and, iff_false]
      have hfeed : ¬ localName u root.tag = "feed".toList := hatom
      simp only [IsRss] at hrss
      rw [if_neg hrss, if_neg hfeed]
      nofun

end formats

/-! ### Documents with the children of items in another order -/

namespace Element

/-- The element without its children. -/
def shallow (e : Element) : Element := .node e.tag e.attrib e.text []

def withChildren (e : Element) (children : List Element) : Element :=
  .node e.tag e.attrib e.text children

theorem withChildren_self (e : Element) : e.withChildren e.children = e := by
  cases e
  rfl

/-- What is read of the children of an item. -/
def outline (e : Element) : List Element := e.children.map shallow

end Element

section reordering

variable (u : Unicode) (name : String)

/-- The children of one element of the name are permuted. -/
inductive Reorders : Element → Element → Prop
  | item {e : Element} {children : List Element} (hname : hasName u name e)
      (hperm : e.children.Perm children) : Reorders e (e.withChildren children)
  | inside {e child child' : Element} {before after : List Element}
      (hchildren : e.children = before ++ child :: after) (h : Reorders child child') :
      Reorders e (e.withChildren (before ++ child' :: after))

/-- The children of any elements of the name are permuted. -/
abbrev Reordered : Element → Element → Prop := Relation.ReflTransGen (Reorders u name)

/-- The elements of the name, from the element on. -/
def named (e : Element) : List Element := e.iter.filter (hasName u name)

/-- The elements of the name inside the element. -/
def nested (e : Element) : List Element := (Element.iterAll e.children).filter (hasName u name)

/-- The children in any order, and the number of items inside. -/
def content (e : Element) : Multiset Element × ℕ := (e.outline, (nested u name e).length)

end reordering

section reordered

variable {u : Unicode} {name : String} {e e' root root' : Element}

theorem nested_withChildren (e : Element) (before after : List Element) (child : Element) :
    nested u name (e.withChildren (before ++ child :: after)) =
      (Element.iterAll before).filter (hasName u name) ++ named u name child ++
        (Element.iterAll after).filter (hasName u name) := by
  have hchildren : (e.withChildren (before ++ child :: after)).children =
      before ++ child :: after := rfl
  rw [nested, hchildren, Element.iterAll_eq, List.flatMap_append, List.flatMap_cons, ← Element.iterAll_eq,
    ← Element.iterAll_eq, List.filter_append, List.filter_append, named, List.append_assoc]

theorem named_eq (e : Element) :
    named u name e = (if hasName u name e then [e] else []) ++ nested u name e := by
  rw [named, Element.iter_eq, List.filter_cons, nested]
  split <;> rfl

theorem Reorders.shallow_eq (h : Reorders u name e e') : e'.shallow = e.shallow := by
  cases h with
  | item hname hperm => rfl
  | inside hchildren h => rfl

theorem Reorders.tag_eq (h : Reorders u name e e') : e'.tag = e.tag := by
  cases h with
  | item hname hperm => rfl
  | inside hchildren h => rfl

theorem Reorders.hasName_eq (h : Reorders u name e e') (other : String) :
    hasName u other e' = hasName u other e := by
  rw [hasName, h.tag_eq, hasName]

theorem named_perm (hname : hasName u name e' = hasName u name e)
    (hcontent : content u name e' = content u name e)
    (hnested : ((nested u name e').map (content u name)).Perm
      ((nested u name e).map (content u name))) :
    ((named u name e').map (content u name)).Perm ((named u name e).map (content u name)) := by
  rw [named_eq, named_eq, List.map_append, List.map_append, hname]
  have hself : (if hasName u name e then [e'] else []).map (content u name) =
      (if hasName u name e then [e] else []).map (content u name) := by
    split
    · rw [List.map_singleton, List.map_singleton, hcontent]
    · rfl
  rw [hself]
  exact hnested.append_left _

theorem content_eq (houtline : e'.outline.Perm e.outline)
    (hnested : (nested u name e').length = (nested u name e).length) :
    content u name e' = content u name e := by
  rw [content, content, Multiset.coe_eq_coe.mpr houtline, hnested]

/- One step permutes the children of an item, or is one in a child. -/
theorem Reorders.content_perm (h : Reorders u name e e') :
    content u name e' = content u name e ∧
      ((nested u name e').map (content u name)).Perm
        ((nested u name e).map (content u name)) := by
  induction h with
  | @item e children hname hperm =>
    have hnested : (nested u name (e.withChildren children)).Perm (nested u name e) := by
      rw [nested, nested, Element.iterAll_eq, Element.iterAll_eq]
      exact (hperm.symm.flatMap_right Element.iter).filter _
    exact ⟨content_eq (hperm.symm.map Element.shallow) hnested.length_eq, hnested.map _⟩
  | @inside e child child' before after hchildren h ih =>
    have he : e.withChildren (before ++ child :: after) = e := by
      rw [← hchildren, Element.withChildren_self]
    have hnamed := named_perm (h.hasName_eq name) ih.1 ih.2
    have hnested : ((nested u name (e.withChildren (before ++ child' :: after))).map
        (content u name)).Perm ((nested u name e).map (content u name)) := by
      conv_rhs => rw [← he]
      rw [nested_withChildren, nested_withChildren]
      simp only [List.map_append]
      exact (hnamed.append_left _).append_right _
    have houtline : (e.withChildren (before ++ child' :: after)).outline = e.outline := by
      conv_rhs => rw [← he]
      simp only [Element.outline, Element.withChildren, Element.children, List.map_append,
        List.map_cons, h.shallow_eq]
    refine ⟨content_eq (houtline ▸ List.Perm.refl _) ?_, hnested⟩
    simpa only [List.length_map] using hnested.length_eq

/- Without items inside items, the items keep their order. -/
theorem Reorders.content_nested (h : Reorders u name e e')
    (hapart : ∀ item ∈ named u name e, nested u name item = []) :
    (nested u name e').map (content u name) = (nested u name e).map (content u name) := by
  induction h with
  | @item e children hname hperm =>
    have hmem : e ∈ named u name e := by
      rw [named_eq, if_pos hname]
      exact List.mem_cons_self
    have hnested := (Reorders.item hname hperm).content_perm.2
    rw [hapart e hmem] at hnested ⊢
    exact List.perm_nil.mp hnested
  | @inside e child child' before after hchildren h ih =>
    have he : e.withChildren (before ++ child :: after) = e := by
      rw [← hchildren, Element.withChildren_self]
    have hchild : ∀ item ∈ named u name child, nested u name item = [] := by
      intro item hitem
      apply hapart
      rw [named_eq, ← he, nested_withChildren]
      simp only [List.mem_append, hitem, true_or, or_true]
    have hnamed : (named u name child').map (content u name) =
        (named u name child).map (content u name) := by
      rw [named_eq, named_eq, h.hasName_eq, List.map_append, List.map_append, ih hchild]
      congr 1
      split
      · rw [List.map_singleton, List.map_singleton, h.content_perm.1]
      · rfl
    conv_rhs => rw [← he]
    rw [nested_withChildren, nested_withChildren]
    simp only [List.map_append, hnamed]

end reordered

/-! ### The items of a reordered feed -/

section feeds

variable (u : Unicode)

/-- No item lies inside an item. -/
def ItemsApart (root : Element) : Prop :=
  IsAtom u root ∨ ∀ item ∈ listed u root, nested u "item" item = []

variable {u} {root root' : Element}

theorem listed_of_atom (h : IsAtom u root) :
    listed u root = root.children.filter (hasName u "entry") := if_pos h

theorem listed_of_not (h : ¬ IsAtom u root) : listed u root = named u "item" root := if_neg h

theorem isAtom_congr (h : root'.tag = root.tag) : IsAtom u root' ↔ IsAtom u root := by
  rw [IsAtom, h, IsAtom]

theorem feedFormat_congr (h : root'.tag = root.tag) : feedFormat u root' = feedFormat u root := by
  rw [feedFormat, feedFormat]
  exact if_congr (isAtom_congr h) rfl rfl

theorem itemName_of_atom (h : IsAtom u root) : (feedFormat u root).itemName = "entry" := by
  rw [feedFormat, if_pos h]
  rfl

theorem itemName_of_not (h : ¬ IsAtom u root) : (feedFormat u root).itemName = "item" := by
  rw [feedFormat, if_neg h]
  rfl

/-- The items have the same contents, in the same order when they lie apart. -/
def SameContents (u : Unicode) (root root' : Element) : Prop :=
  ((listed u root').map (content u (feedFormat u root).itemName)).Perm
      ((listed u root).map (content u (feedFormat u root).itemName)) ∧
    (ItemsApart u root → (listed u root').map (content u (feedFormat u root).itemName) =
      (listed u root).map (content u (feedFormat u root).itemName))

theorem Reorders.sameContents (h : Reorders u (feedFormat u root).itemName root root') :
    SameContents u root root' := by
  by_cases hatom : IsAtom u root
  · have hatom' := (isAtom_congr h.tag_eq).mpr hatom
    rw [SameContents, listed_of_atom hatom, listed_of_atom hatom']
    rw [itemName_of_atom hatom] at h ⊢
    suffices heq : (root'.children.filter (hasName u "entry")).map (content u "entry") =
        (root.children.filter (hasName u "entry")).map (content u "entry") from
      ⟨heq ▸ List.Perm.refl _, fun _ => heq⟩
    cases h with
    | item hname hperm =>
      exact absurd (of_decide_eq_true hname |>.symm.trans hatom) (by decide)
    | @inside _ child child' before after hchildren h =>
      have hchildren' : (root.withChildren (before ++ child' :: after)).children =
          before ++ child' :: after := rfl
      rw [hchildren, hchildren', List.filter_append, List.filter_append, List.filter_cons,
        List.filter_cons, h.hasName_eq, List.map_append, List.map_append]
      congr 1
      split
      · rw [List.map_cons, List.map_cons, h.content_perm.1]
      · rfl
  · have hatom' : ¬ IsAtom u root' := fun h' => hatom ((isAtom_congr h.tag_eq).mp h')
    rw [SameContents, listed_of_not hatom, listed_of_not hatom']
    rw [itemName_of_not hatom] at h ⊢
    refine ⟨named_perm (h.hasName_eq "item") h.content_perm.1 h.content_perm.2, ?_⟩
    rintro (hatom'' | hapart)
    · exact absurd hatom'' hatom
    · rw [listed_of_not hatom] at hapart
      rw [named_eq, named_eq, List.map_append, List.map_append, h.content_nested hapart,
        h.hasName_eq]
      congr 1
      split
      · rw [List.map_singleton, List.map_singleton, h.content_perm.1]
      · rfl

theorem SameContents.itemsApart (h : SameContents u root root') (htag : root'.tag = root.tag)
    (hapart : ItemsApart u root) : ItemsApart u root' := by
  by_cases hatom : IsAtom u root
  · exact Or.inl ((isAtom_congr htag).mpr hatom)
  · obtain hatom' | hnested := hapart
    · exact absurd hatom' hatom
    · refine Or.inr fun item hitem => ?_
      have hcontent := h.1.mem_iff.mp (List.mem_map_of_mem hitem)
      obtain ⟨item', hitem', heq⟩ := List.mem_map.mp hcontent
      rw [itemName_of_not hatom] at heq
      have hlength := congrArg Prod.snd heq
      simp only [content, hnested item' hitem', List.length_nil] at hlength
      exact List.length_eq_zero_iff.mp hlength.symm

theorem Reordered.sameContents (h : Reordered u (feedFormat u root).itemName root root') :
    root'.tag = root.tag ∧ SameContents u root root' := by
  induction h with
  | refl => exact ⟨rfl, List.Perm.refl _, fun _ => rfl⟩
  | @tail mid last _ hstep ih =>
    obtain ⟨htag, hmid⟩ := ih
    have hformat := feedFormat_congr (u := u) htag
    rw [← hformat] at hstep
    have hlast := hstep.sameContents
    rw [SameContents, hformat] at hlast
    refine ⟨hstep.tag_eq.trans htag, hlast.1.trans hmid.1, fun hapart => ?_⟩
    exact (hlast.2 (hmid.itemsApart htag hapart)).trans (hmid.2 hapart)

end feeds

/-! ### What is read of an item -/

section reading

variable (u : Unicode)

/-- The text of an element with one of the names, when it is not blank. -/
def namedText (names : List String) (e : Element) : Option Text :=
  if (names.map String.toList).contains (localName u e.tag) then strippedText e else none

/-- The local names of the children are pairwise distinct. -/
def NamesDistinct (item : Element) : Prop :=
  (item.children.map fun child => localName u child.tag).Nodup

/-- The identifiers of the item are alike, and its dates. -/
def FeedFormat.OneReading (format : FeedFormat) (item : Element) : Prop :=
  Alike (namedText u format.identifiers) item.children ∧
    Alike (namedText u format.dates) item.children

variable {u} {item item' root : Element} {names : List String} {fallback : Option Text}
  {format : FeedFormat}

theorem childText_eq (item : Element) (names : List String) :
    childText u item names = item.outline.findSome? (namedText u names) := by
  rw [Element.outline, List.findSome?_map]
  rfl

theorem alike_outline (h : Alike (namedText u names) item.children) :
    Alike (namedText u names) item.outline := by
  intro a ha b hb x hx y hy
  obtain ⟨c, hc, rfl⟩ := List.mem_map.mp ha
  obtain ⟨d, hd, rfl⟩ := List.mem_map.mp hb
  exact h c hc d hd x hx y hy

theorem childText_perm (h : Alike (namedText u names) item.children)
    (hperm : item.outline.Perm item'.outline) :
    childText u item' names = childText u item names := by
  rw [childText_eq, childText_eq]
  exact (alike_outline h).findSome?_eq hperm

theorem NamesDistinct.alike (h : NamesDistinct u item) (name : String) :
    Alike (namedText u [name]) item.children := by
  apply alike_of_nodup h
  intro e hsome
  by_contra hne
  apply hsome
  rw [namedText, if_neg]
  simpa using hne

theorem NamesDistinct.outline (h : NamesDistinct u item) :
    (item.outline.map fun child => localName u child.tag).Nodup := by
  rw [Element.outline, List.map_map]
  exact h

theorem atomLink_filter (fallback : Option Text) (children : List Element) :
    atomLink u fallback children =
      atomLink u fallback ((children.map Element.shallow).filter (hasName u "link")) := by
  induction children generalizing fallback with
  | nil => rfl
  | cons child children ih =>
    rw [List.map_cons]
    by_cases hname : localName u child.tag = "link".toList
    · have hshallow : hasName u "link" child.shallow = true := decide_eq_true hname
      have htag : child.shallow.tag = child.tag := rfl
      have hattrib : child.shallow.attrib = child.attrib := rfl
      rw [List.filter_cons_of_pos hshallow, atomLink, atomLink, htag, hattrib,
        if_neg (not_not_intro hname), if_neg (not_not_intro hname)]
      split
      · exact ih fallback
      · split
        · rfl
        · exact ih _
    · have hshallow : hasName u "link" child.shallow = false := decide_eq_false hname
      rw [List.filter_cons_of_neg (by rw [hshallow]; nofun), atomLink, if_pos hname]
      exact ih fallback

theorem atomLink_eq (item : Element) : atomLink u none item.children =
    atomLink u none (item.outline.filter (hasName u "link")) :=
  atomLink_filter none item.children

theorem atomLink_perm (h : NamesDistinct u item) (hperm : item.outline.Perm item'.outline) :
    atomLink u none item'.children = atomLink u none item.children := by
  rw [atomLink_eq, atomLink_eq item]
  exact congrArg _ (filter_eq_of_nodup h.outline hperm fun e he => of_decide_eq_true he)

theorem link_perm (root : Element) (h : NamesDistinct u item)
    (hperm : item.outline.Perm item'.outline) :
    (feedFormat u root).link item' = (feedFormat u root).link item := by
  rw [feedFormat]
  split
  · exact atomLink_perm h hperm
  · exact childText_perm (h.alike "link") hperm

/- A single name is found in any order. -/
theorem read_perm (root : Element) (h : NamesDistinct u item)
    (hone : (feedFormat u root).link item ≠ none → (feedFormat u root).OneReading u item)
    (hperm : item.outline.Perm item'.outline) :
    (feedFormat u root).read u item' = (feedFormat u root).read u item := by
  rw [FeedFormat.read, FeedFormat.read, link_perm root h hperm]
  cases hlink : (feedFormat u root).link item with
  | none => rfl
  | some url =>
    obtain ⟨hidentifiers, hdates⟩ := hone (by rw [hlink]; nofun)
    rw [childText_perm hidentifiers hperm, childText_perm hdates hperm,
      childText_perm (h.alike "title") hperm]

theorem oneReading_of_read (root : Element) (h : NamesDistinct u item)
    (hread : ∀ children, item.children.Perm children →
      (feedFormat u root).read u (item.withChildren children) = (feedFormat u root).read u item)
    (hlink : (feedFormat u root).link item ≠ none) : (feedFormat u root).OneReading u item := by
  obtain ⟨url, hurl⟩ := Option.ne_none_iff_exists'.mp hlink
  have hfields : ∀ children, item.children.Perm children →
      childText u (item.withChildren children) (feedFormat u root).identifiers =
          childText u item (feedFormat u root).identifiers ∧
        childText u (item.withChildren children) (feedFormat u root).dates =
          childText u item (feedFormat u root).dates := by
    intro children hperm
    have houtline : item.outline.Perm (item.withChildren children).outline := hperm.map _
    have heq := hread children hperm
    rw [FeedFormat.read, FeedFormat.read, link_perm root h houtline, hurl, Option.map_some,
      Option.map_some, Option.some.injEq, DiscoveredItem.mk.injEq] at heq
    exact ⟨heq.1, heq.2.2.2.1⟩
  exact ⟨alike_iff.mpr fun children hperm => (hfields children hperm).1,
    alike_iff.mpr fun children hperm => (hfields children hperm).2⟩

end reading

/-! ### One item in another order -/

section one

variable {u : Unicode} {name : String} {root item : Element} {children : List Element}

theorem sizeOf_child_lt {child : Element} (h : child ∈ root.children) :
    sizeOf child < sizeOf root := by
  cases root with
  | node tag attrib text children =>
    have hlt : sizeOf child < sizeOf children := List.sizeOf_lt_of_mem h
    simp only [Element.node.sizeOf_spec]
    omega

/- One item of a list, moved to the front. -/
theorem around_perm {self before found rest after : List Element} {e : Element}
    (h : found.Perm (e :: rest)) :
    (self ++ (before ++ found ++ after)).Perm (e :: (self ++ (before ++ rest ++ after))) := by
  have hinner : (before ++ found ++ after).Perm (e :: (before ++ rest ++ after)) :=
    ((h.append_left before).trans List.perm_middle).append_right after
  exact (hinner.append_left self).trans List.perm_middle

theorem exists_named (root : Element) (hitem : item ∈ named u name root)
    (hperm : item.children.Perm children) :
    ∃ root' others others', Reorders u name root root' ∧
      others.map Element.outline = others'.map Element.outline ∧
      (named u name root).Perm (item :: others) ∧
      (named u name root').Perm (item.withChildren children :: others') := by
  obtain ⟨hiter, hname⟩ := List.mem_filter.mp hitem
  rw [Element.iter_eq, List.mem_cons] at hiter
  by_cases hself : item = root
  · subst hself
    have hname' : hasName u name (item.withChildren children) = true := hname
    have hnested : (nested u name (item.withChildren children)).Perm (nested u name item) := by
      rw [nested, nested, Element.iterAll_eq, Element.iterAll_eq]
      exact (hperm.symm.flatMap_right Element.iter).filter _
    refine ⟨item.withChildren children, nested u name item, nested u name item,
      .item hname hperm, rfl, ?_, ?_⟩
    · rw [named_eq, if_pos hname]
      exact List.Perm.refl _
    · rw [named_eq, if_pos hname']
      exact hnested.cons _
  · rw [Element.iterAll_eq, List.mem_flatMap] at hiter
    obtain ⟨child, hchild, hmem⟩ := hiter.resolve_left hself
    have hlt := sizeOf_child_lt hchild
    obtain ⟨child', rest, rest', hstep, houtline, hrest, hrest'⟩ :=
      exists_named child (List.mem_filter.mpr ⟨hmem, hname⟩) hperm
    obtain ⟨before, after, hchildren⟩ := List.append_of_mem hchild
    have hroot : root.withChildren (before ++ child :: after) = root := by
      rw [← hchildren, Element.withChildren_self]
    have hreorders := Reorders.inside hchildren hstep
    have hself' : (root.withChildren (before ++ child' :: after)).outline = root.outline := by
      conv_rhs => rw [← hroot]
      simp only [Element.outline, Element.withChildren, Element.children, List.map_append,
        List.map_cons, hstep.shallow_eq]
    have hbefore : named u name root = _ := named_eq root
    conv_rhs at hbefore => rw [← hroot, nested_withChildren, hroot]
    have hafter : named u name (root.withChildren (before ++ child' :: after)) = _ := named_eq _
    rw [nested_withChildren] at hafter
    refine ⟨_, _, _, hreorders, ?_, hbefore ▸ around_perm hrest, hafter ▸ around_perm hrest'⟩
    rw [hreorders.hasName_eq]
    simp only [List.map_append, houtline]
    congr 1
    split
    · rw [List.map_singleton, List.map_singleton, hself']
    · rfl
termination_by sizeOf root

theorem exists_listed (root : Element) (hitem : item ∈ listed u root)
    (hperm : item.children.Perm children) :
    ∃ root' others others', Reorders u (feedFormat u root).itemName root root' ∧
      others.map Element.outline = others'.map Element.outline ∧
      (listed u root).Perm (item :: others) ∧
      (listed u root').Perm (item.withChildren children :: others') := by
  by_cases hatom : IsAtom u root
  · rw [listed_of_atom hatom] at hitem
    obtain ⟨hchild, hname⟩ := List.mem_filter.mp hitem
    have hname' : hasName u "entry" (item.withChildren children) = true := hname
    obtain ⟨before, after, hchildren⟩ := List.append_of_mem hchild
    have hstep : Reorders u "entry" root
        (root.withChildren (before ++ item.withChildren children :: after)) :=
      .inside hchildren (.item hname hperm)
    have hatom' := (isAtom_congr hstep.tag_eq).mpr hatom
    have hfiltered : ∀ e : Element, hasName u "entry" e = true →
        ((before ++ e :: after).filter (hasName u "entry")).Perm
          (e :: (before.filter (hasName u "entry") ++ after.filter (hasName u "entry"))) := by
      intro e he
      rw [List.filter_append, List.filter_cons_of_pos he]
      exact List.perm_middle
    have hbefore := hfiltered item hname
    rw [← hchildren, ← listed_of_atom hatom] at hbefore
    have hafter := hfiltered (item.withChildren children) hname'
    rw [itemName_of_atom hatom]
    exact ⟨_, _, _, hstep, rfl, hbefore, listed_of_atom hatom' ▸ hafter⟩
  · rw [listed_of_not hatom] at hitem
    obtain ⟨root', others, others', hstep, houtline, hothers, hothers'⟩ :=
      exists_named root hitem hperm
    have hatom' : ¬ IsAtom u root' := fun h' => hatom ((isAtom_congr hstep.tag_eq).mp h')
    rw [itemName_of_not hatom]
    refine ⟨root', others, others', hstep, houtline, ?_, ?_⟩
    · rwa [listed_of_not hatom]
    · rwa [listed_of_not hatom']

end one

/-! ### Any order -/

/-- The same items, in the same order when no item lies inside an item. -/
def SameItems (u : Unicode) (root : Element) (items items' : List DiscoveredItem) : Prop :=
  items'.Perm items ∧ (ItemsApart u root → items' = items)

/-- Every document that differs in the order of the children of items gives the same items. -/
def OrderIrrelevant (u : Unicode) (root : Element) (items : List DiscoveredItem) : Prop :=
  ∀ (parsers : Parsers) (xml : Bytes) (root' : Element), parsers.fromstring xml = .ok root' →
    Reordered u (feedFormat u root).itemName root root' →
      ∃ items', parseFeed u parsers xml = .ok items' ∧ SameItems u root items items'

section order

variable {u : Unicode} {root root' item item' : Element} {items : List DiscoveredItem}

theorem outline_perm_of_content {name : String} (h : content u name item = content u name item') :
    item.outline.Perm item'.outline :=
  Multiset.coe_eq_coe.mp (congrArg Prod.fst h)

theorem SameContents.sameItems (h : SameContents u root root')
    {read : Element → Option DiscoveredItem}
    (hread : ∀ item ∈ listed u root, ∀ item', item.outline.Perm item'.outline →
      read item' = read item) :
    SameItems u root ((listed u root).filterMap read) ((listed u root').filterMap read) := by
  have hcontent : ∀ item ∈ listed u root, ∀ item',
      content u (feedFormat u root).itemName item = content u (feedFormat u root).itemName item' →
        read item = read item' := fun item hitem item' heq =>
    (hread item hitem item' (outline_perm_of_content heq)).symm
  exact ⟨(filterMap_perm_of_map h.1.symm hcontent).symm, fun hapart =>
    (filterMap_eq_of_map (h.2 hapart).symm hcontent).symm⟩

theorem read_of_outline (root : Element) (h : item'.outline = item.outline) :
    (feedFormat u root).read u item' = (feedFormat u root).read u item := by
  have hlink : (feedFormat u root).link item' = (feedFormat u root).link item := by
    rw [feedFormat]
    split
    · have heq : atomLink u none item'.children = atomLink u none item.children := by
        rw [atomLink_eq, atomLink_eq item, h]
      exact heq
    · have heq : childText u item' ["link"] = childText u item ["link"] := by
        rw [childText_eq, childText_eq, h]
      exact heq
  rw [FeedFormat.read, FeedFormat.read, hlink]
  simp only [childText_eq, h]

/- What one item reads in another order is the only thing that changes. -/
theorem read_of_sameItems (hitem : item ∈ listed u root) (hdistinct : NamesDistinct u item)
    (hlink : (feedFormat u root).link item ≠ none) {children : List Element}
    (hperm : item.children.Perm children)
    (h : ∀ root', Reorders u (feedFormat u root).itemName root root' →
      ((listed u root').filterMap ((feedFormat u root).read u)).Perm
        ((listed u root).filterMap ((feedFormat u root).read u))) :
    (feedFormat u root).read u (item.withChildren children) =
      (feedFormat u root).read u item := by
  obtain ⟨root', others, others', hstep, houtline, hothers, hothers'⟩ :=
    exists_listed root hitem hperm
  have houtlines : item.outline.Perm (item.withChildren children).outline := hperm.map _
  obtain ⟨url, hurl⟩ := Option.ne_none_iff_exists'.mp hlink
  have hurl' := (link_perm root hdistinct houtlines).trans hurl
  have hsome : ∀ e : Element, (feedFormat u root).link e = some url →
      ∃ found, (feedFormat u root).read u e = some found := by
    intro e he
    rw [FeedFormat.read, he]
    exact ⟨_, rfl⟩
  obtain ⟨found, hfound⟩ := hsome item hurl
  obtain ⟨found', hfound'⟩ := hsome (item.withChildren children) hurl'
  have hrest : others'.filterMap ((feedFormat u root).read u) =
      others.filterMap ((feedFormat u root).read u) :=
    filterMap_eq_of_map houtline.symm fun e _ e' heq => read_of_outline root heq
  have hall := ((hothers'.filterMap _).symm.trans (h root' hstep)).trans (hothers.filterMap _)
  rw [List.filterMap_cons_some hfound, List.filterMap_cons_some hfound', hrest] at hall
  rw [hfound, hfound', eq_of_cons_perm hall]

/- In every item with a link, the identifiers must agree, and the dates. -/
theorem order_irrelevant_iff (u : Unicode) (parsers : Parsers) (xml : Bytes) (root : Element)
    (items : List DiscoveredItem) (hroot : parsers.fromstring xml = .ok root)
    (hitems : parseFeed u parsers xml = .ok items)
    (hdistinct : ∀ item ∈ listed u root, NamesDistinct u item) :
    OrderIrrelevant u root items ↔
      ∀ item ∈ listed u root, (feedFormat u root).link item ≠ none →
        (feedFormat u root).OneReading u item := by
  obtain ⟨hfeed, rfl⟩ := (parseFeed_ok_iff parsers xml hroot).mp hitems
  constructor
  · intro h item hitem hlink
    refine oneReading_of_read root (hdistinct item hitem) (fun children hperm => ?_) hlink
    refine read_of_sameItems hitem (hdistinct item hitem) hlink hperm fun root' hstep => ?_
    obtain ⟨items', hitems', hsame⟩ := h { parsers with fromstring := fun _ => .ok root' } xml root'
      rfl (Relation.ReflTransGen.single hstep)
    obtain ⟨-, rfl⟩ := (parseFeed_ok_iff _ xml rfl).mp hitems'
    rw [feedFormat_congr hstep.tag_eq] at hsame
    exact hsame.1
  · intro hone parsers' xml' root' hroot' hreordered
    obtain ⟨htag, hcontents⟩ := Reordered.sameContents hreordered
    have hfeed' : IsAtom u root' ∨ IsRss u root' := by
      rwa [IsAtom, IsRss, htag]
    refine ⟨_, (parseFeed_ok_iff parsers' xml' hroot').mpr ⟨hfeed', rfl⟩, ?_⟩
    rw [feedFormat_congr htag]
    apply hcontents.sameItems
    intro item hitem item' hperm
    exact read_perm root (hdistinct item hitem) (hone item hitem) hperm

end order

/-! ### One date and two dates -/

def atomTag (name : String) : Text := "\x7bhttp://www.w3.org/2005/Atom\x7d".toList ++ name.toList

def textElement (name text : String) : Element := .node (atomTag name) [] (some text.toList) []

def linkElement (href : String) : Element :=
  .node (atomTag "link") [("href".toList, href.toList)] none []

/-- An Atom feed of one entry. -/
def atomFeed (children : List Element) : Element :=
  .node (atomTag "feed") [] none [.node (atomTag "entry") [] none children]

/-- Its text. -/
def atomXml (children : List String) : Bytes :=
  asciiBytes ("<feed xmlns=\"http://www.w3.org/2005/Atom\"><entry>".toList ++
    children.flatMap String.toList ++ "</entry></feed>".toList)

/-- What the libraries make of a text. -/
def atomParsers (xml : Bytes) (children : List Element) : Parsers where
  fromstring := fun text => if text = xml then .ok (atomFeed children) else .error .parseError
  htmlCallbacks := fun _ => []
  fromisoformat := fun _ => .error .valueError
  parsedateToDatetime := fun _ => .error .valueError

theorem fromstring_atom (xml : Bytes) (children : List Element) :
    (atomParsers xml children).fromstring xml = .ok (atomFeed children) := if_pos rfl

/-- An entry with one date. -/
def dated : List Element :=
  [linkElement "https://a.in/story", textElement "id" "a1", textElement "published" "2026-07-01"]

def datedXml : Bytes :=
  atomXml ["<link href=\"https://a.in/story\"/>", "<id>a1</id>",
    "<published>2026-07-01</published>"]

def datedItem : DiscoveredItem where
  externalId := some "a1".toList
  url := "https://a.in/story".toList
  title := none
  publishedAtRaw := some "2026-07-01".toList
  channelType := .atom

theorem dated_order_irrelevant :
    OrderIrrelevant asciiUnicode (atomFeed dated) [datedItem] := by
  have hlisted : listed asciiUnicode (atomFeed dated) = (atomFeed dated).children := rfl
  have hitem : ∀ item ∈ listed asciiUnicode (atomFeed dated), item.children = dated := by
    rw [hlisted]
    exact List.forall_mem_singleton.mpr rfl
  refine (order_irrelevant_iff asciiUnicode (atomParsers datedXml dated) datedXml (atomFeed dated)
    [datedItem] (fromstring_atom _ _) (ok_of_toOption (by decide +kernel)) fun item h => ?_).mpr
      fun item h _ => ?_
  · rw [NamesDistinct, hitem item h]
    decide
  · rw [FeedFormat.OneReading, hitem item h]
    decide

/-- An entry updated after its publication. -/
def revised : List Element :=
  [linkElement "https://a.in/story", textElement "published" "2026-07-01",
    textElement "updated" "2026-07-09"]

def revisedXml : Bytes :=
  atomXml ["<link href=\"https://a.in/story\"/>", "<published>2026-07-01</published>",
    "<updated>2026-07-09</updated>"]

/-- The same entry with its dates in the other order. -/
def revisedFirst : List Element :=
  [linkElement "https://a.in/story", textElement "updated" "2026-07-09",
    textElement "published" "2026-07-01"]

def revisedFirstXml : Bytes :=
  atomXml ["<link href=\"https://a.in/story\"/>", "<updated>2026-07-09</updated>",
    "<published>2026-07-01</published>"]

def revisedItem (publishedAtRaw : String) : DiscoveredItem where
  externalId := none
  url := "https://a.in/story".toList
  title := none
  publishedAtRaw := some publishedAtRaw.toList
  channelType := .atom

theorem revised_reordered :
    Reordered asciiUnicode "entry" (atomFeed revised) (atomFeed revisedFirst) := by
  have hperm : revised.Perm revisedFirst := (List.Perm.swap _ _ []).cons _
  have hentry : Reorders asciiUnicode "entry"
      (.node (atomTag "entry") [] none revised) (.node (atomTag "entry") [] none revisedFirst) :=
    .item (by decide) hperm
  have hfeed : (atomFeed revised).children = [] ++
      .node (atomTag "entry") [] none revised :: [] := rfl
  exact Relation.ReflTransGen.single (.inside hfeed hentry)

/- The date of the update is taken for that of the publication. -/
theorem revised_order_relevant :
    ¬ ∀ (u : Unicode) (parsers : Parsers) (xml : Bytes) (root : Element)
      (items : List DiscoveredItem), parsers.fromstring xml = .ok root →
        parseFeed u parsers xml = .ok items → (∀ item ∈ listed u root, NamesDistinct u item) →
          OrderIrrelevant u root items := by
  intro h
  have hlisted : listed asciiUnicode (atomFeed revised) = (atomFeed revised).children := rfl
  have hitem : ∀ item ∈ listed asciiUnicode (atomFeed revised), item.children = revised := by
    rw [hlisted]
    exact List.forall_mem_singleton.mpr rfl
  have hirrelevant := h asciiUnicode (atomParsers revisedXml revised) revisedXml
    (atomFeed revised) [revisedItem "2026-07-01"] (fromstring_atom _ _)
    (ok_of_toOption (by decide +kernel)) fun item hi => by
      rw [NamesDistinct, hitem item hi]
      decide
  obtain ⟨items', hitems', hsame⟩ := hirrelevant (atomParsers revisedFirstXml revisedFirst)
    revisedFirstXml (atomFeed revisedFirst) (fromstring_atom _ _) revised_reordered
  have hparse : parseFeed asciiUnicode (atomParsers revisedFirstXml revisedFirst)
      revisedFirstXml = .ok [revisedItem "2026-07-09"] := ok_of_toOption (by decide +kernel)
  rw [hparse] at hitems'
  obtain rfl := Except.ok.inj hitems'
  exact absurd (List.singleton_perm_singleton.mp hsame.1) (by decide)

end Newsintel.Acquisition
