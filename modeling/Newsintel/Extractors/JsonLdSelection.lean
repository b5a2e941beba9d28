import Newsintel.Extractors.ArticleBody
import Newsintel.Lib.Ranking

/-!
# Which JSON-LD object describes the article (adapters/extractors/article_html.py:594-635)

The walk visits the objects that lists and `@graph` lists lead to, in the order of the page, and
`max` takes the first of the longest articles among them. A script that is no JSON adds nothing.
-/

namespace Newsintel.Extractors

open PyText Ranking

variable {u : Unicode} {loads : Text → Except JsonError Json} {value item : Json}
  {items : List Json} {members object : JsonObject} {scripts : List Text}
  {objects : List JsonObject}

/-! ### The walk over one value -/

/-- A value describes an object: it is the object, or a list or a `@graph` list leads there. -/
inductive Describes : Json → JsonObject → Prop
  | self (members : JsonObject) : Describes (.object members) members
  | item {items : List Json} {item : Json} {object : JsonObject} :
      item ∈ items → Describes item object → Describes (.array items) object
  | graph {members : JsonObject} {items : List Json} {item : Json} {object : JsonObject} :
      members.lookup "@graph".toList = some (.array items) → item ∈ items →
        Describes item object → Describes (.object members) object

theorem walkItems_eq (items : List Json) : walkItems items = items.flatMap walkJsonLd := by
  induction items with
  | nil => rfl
  | cons item items ih => rw [walkItems, List.flatMap_cons, ih]

theorem walkGraph_eq (members : JsonObject) :
    walkGraph members = ((members.lookup "@graph".toList).map walkArray).getD [] := by
  induction members with
  | nil => rfl
  | cons member members ih =>
    obtain ⟨name, value⟩ := member
    rw [walkGraph, List.lookup_cons]
    by_cases hname : name = "@graph".toList
    · rw [if_pos hname, hname, beq_self_eq_true]
      rfl
    · rw [if_neg hname, beq_eq_false_iff_ne.mpr (Ne.symm hname), ih]

mutual

/- Each object of the walk is described; the induction is on the nesting of the value. -/
theorem describes_of_mem : (value : Json) → object ∈ walkJsonLd value → Describes value object
  | .array items, h => by
    rw [walkJsonLd] at h
    obtain ⟨item, hitem, hdescribes⟩ := described_of_mem_items items h
    exact .item hitem hdescribes
  | .object members, h => by
    rw [walkJsonLd] at h
    obtain rfl | h := List.mem_cons.mp h
    · exact .self _
    · obtain ⟨items, hlookup, item, hitem, hdescribes⟩ := described_of_mem_graph members h
      exact .graph hlookup hitem hdescribes
  | .null, h => by simp [walkJsonLd] at h
  | .bool _, h => by simp [walkJsonLd] at h
  | .number _, h => by simp [walkJsonLd] at h
  | .string _, h => by simp [walkJsonLd] at h

theorem described_of_mem_items : (items : List Json) → object ∈ walkItems items →
    ∃ item ∈ items, Describes item object
  | [], h => by simp [walkItems] at h
  | item :: items, h => by
    rw [walkItems] at h
    obtain h | h := List.mem_append.mp h
    · exact ⟨item, List.mem_cons_self, describes_of_mem item h⟩
    · obtain ⟨item', hitem, hdescribes⟩ := described_of_mem_items items h
      exact ⟨item', List.mem_cons_of_mem _ hitem, hdescribes⟩

theorem described_of_mem_graph : (members : JsonObject) → object ∈ walkGraph members →
    ∃ items, members.lookup "@graph".toList = some (.array items) ∧
      ∃ item ∈ items, Describes item object
  | [], h => by simp [walkGraph] at h
  | (name, value) :: members, h => by
    rw [walkGraph] at h
    rw [List.lookup_cons]
    split_ifs at h with hname
    · obtain ⟨items, rfl, hitems⟩ := described_of_mem_array value h
      exact ⟨items, by rw [hname, beq_self_eq_true], hitems⟩
    · rw [beq_eq_false_iff_ne.mpr (Ne.symm hname)]
      exact described_of_mem_graph members h

theorem described_of_mem_array : (value : Json) → object ∈ walkArray value →
    ∃ items, value = .array items ∧ ∃ item ∈ items, Describes item object
  | .array items, h => by
    rw [walkArray] at h
    exact ⟨items, rfl, described_of_mem_items items h⟩
  | .object _, h => by simp [walkArray] at h
  | .null, h => by simp [walkArray] at h
  | .bool _, h => by simp [walkArray] at h
  | .number _, h => by simp [walkArray] at h
  | .string _, h => by simp [walkArray] at h

end

theorem mem_walkJsonLd_of_describes (h : Describes value object) : object ∈ walkJsonLd value := by
  induction h with
  | self members =>
    rw [walkJsonLd]
    exact List.mem_cons_self
  | item hitem _ ih =>
    rw [walkJsonLd, walkItems_eq]
    exact List.mem_flatMap.mpr ⟨_, hitem, ih⟩
  | graph hgraph hitem _ ih =>
    rw [walkJsonLd, walkGraph_eq, hgraph, Option.map_some, Option.getD_some, walkArray,
      walkItems_eq]
    exact List.mem_cons_of_mem _ (List.mem_flatMap.mpr ⟨_, hitem, ih⟩)

theorem mem_walkJsonLd_iff : object ∈ walkJsonLd value ↔ Describes value object :=
  ⟨describes_of_mem value, mem_walkJsonLd_of_describes⟩

/-! ### The objects of a page -/

/-- The objects of a script, none if it is no JSON. -/
def scriptObjects (loads : Text → Except JsonError Json) (script : Text) : List JsonObject :=
  match loads script with
  | .ok payload => walkJsonLd payload
  | .error _ => []

theorem iterJsonLdObjects_ok (h : iterJsonLdObjects loads scripts = .ok objects) :
    objects = scripts.flatMap (scriptObjects loads) := by
  induction scripts generalizing objects with
  | nil => exact (Except.ok.inj h).symm
  | cons script scripts ih =>
    unfold iterJsonLdObjects at h
    rw [List.flatMap_cons, scriptObjects]
    cases hload : loads script with
    | ok payload =>
      rw [hload] at h
      obtain ⟨here, hhere, h⟩ := bind_ok h
      obtain ⟨rest, hrest, h⟩ := bind_ok h
      obtain rfl := Except.ok.inj hhere
      rw [← ih hrest]
      exact (Except.ok.inj h).symm
    | error e =>
      rw [hload] at h
      cases e with
      | jsonDecodeError =>
        obtain ⟨here, hhere, h⟩ := bind_ok h
        obtain ⟨rest, hrest, h⟩ := bind_ok h
        obtain rfl := Except.ok.inj hhere
        rw [← ih hrest]
        exact (Except.ok.inj h).symm
      | other e => cases h

theorem mem_scriptObjects_iff {script : Text} : object ∈ scriptObjects loads script ↔
    ∃ payload, loads script = .ok payload ∧ Describes payload object := by
  unfold scriptObjects
  cases hload : loads script with
  | ok payload =>
    rw [mem_walkJsonLd_iff]
    constructor
    · intro h
      exact ⟨payload, rfl, h⟩
    · rintro ⟨payload', hpayload, h⟩
      obtain rfl := Except.ok.inj hpayload
      exact h
  | error e =>
    constructor
    · intro h
      cases h
    · rintro ⟨payload, hpayload, -⟩
      cases hpayload

/-! ### The article among the objects -/

/-- `normalized_types & _ARTICLE_TYPES`. -/
def isArticle (u : Unicode) (object : JsonObject) : Bool :=
  (normalizedTypes u (object.lookup "@type".toList)).any articleTypes.contains

theorem longestArticle_eq_iff :
    longestArticle objects = some object ↔ IsFirstMax articleLength objects object := by
  cases objects with
  | nil =>
    constructor
    · intro h
      cases h
    · intro h
      cases h.mem
  | cons first objects => rw [longestArticle, Option.some_inj, foldl_max_eq_iff]

theorem longestArticle_eq_none_iff : longestArticle objects = none ↔ objects = [] := by
  cases objects with
  | nil => exact ⟨fun _ => rfl, fun _ => rfl⟩
  | cons first objects =>
    constructor
    · intro h
      cases h
    · intro h
      cases h

/- A page has an article if some script describes one, and then the first of the longest. -/
theorem pageArticle_firstLongest (u : Unicode) (libs : ExtractorLibraries) (html : Bytes)
    (baseUrl : Text) (page : ReadPage) (h : readPage u libs html baseUrl = .ok page) :
    let described := (page.parser.jsonLdScripts.flatMap (scriptObjects libs.loads)).filter
      (isArticle u)
    (page.article = none ↔ ∀ script ∈ page.parser.jsonLdScripts, ∀ payload,
      libs.loads script = .ok payload → ∀ object, Describes payload object →
        isArticle u object = false) ∧
    (∀ object, object ∈ described ↔ isArticle u object = true ∧
      ∃ script ∈ page.parser.jsonLdScripts, ∃ payload, libs.loads script = .ok payload ∧
        Describes payload object) ∧
    ∀ object, page.article = some object ↔ IsFirstMax articleLength described object := by
  have hselected : page.article =
      longestArticle ((page.parser.jsonLdScripts.flatMap (scriptObjects libs.loads)).filter
        (isArticle u)) := by
    unfold readPage at h
    obtain ⟨policy, -, h⟩ := bind_ok h
    obtain ⟨parser, -, h⟩ := bind_ok h
    obtain ⟨objects, hobjects, h⟩ := bind_ok h
    obtain rfl := Except.ok.inj h
    rw [← iterJsonLdObjects_ok hobjects]
    rfl
  have hmem : ∀ object, object ∈ page.parser.jsonLdScripts.flatMap (scriptObjects libs.loads) ↔
      ∃ script ∈ page.parser.jsonLdScripts, ∃ payload, libs.loads script = .ok payload ∧
        Describes payload object := fun object => by
    simp only [List.mem_flatMap, mem_scriptObjects_iff]
  refine ⟨?_, fun object => ?_, fun object => ?_⟩
  · rw [hselected, longestArticle_eq_none_iff, List.filter_eq_nil_iff]
    constructor
    · intro hnone script hscript payload hpayload object hdescribes
      exact Bool.not_eq_true _ ▸
        hnone object ((hmem object).mpr ⟨script, hscript, payload, hpayload, hdescribes⟩)
    · intro hnone object hobject
      obtain ⟨script, hscript, payload, hpayload, hdescribes⟩ := (hmem object).mp hobject
      rw [hnone script hscript payload hpayload object hdescribes]
      exact Bool.false_ne_true
  · rw [List.mem_filter, hmem, and_comm]
  · rw [hselected, longestArticle_eq_iff]

/-- A publisher, a teaser and a story in one graph. -/
def graphPayload : Json :=
  .object [("@graph".toList, .array
    [.object [("@type".toList, .string "Organization".toList)],
      .object (jsonLdItem "A panel meets.".toList),
      .object (jsonLdItem "A panel meets in June.".toList)])]

/-- The JSON text of the graph. -/
def graphScript : Text :=
  "\x7b\"@graph\": [\x7b\"@type\": \"Organization\"\x7d, ".toList ++
    jsonLdScript "A panel meets.".toList ++ ", ".toList ++
      jsonLdScript "A panel meets in June.".toList ++ "]\x7d".toList

theorem readPage_graph : readPage asciiUnicode (scriptLibraries graphScript graphPayload)
    (scriptPage graphScript) storyUrl =
      .ok (readScript graphScript (jsonLdItem "A panel meets in June.".toList)) :=
  readPage_script (by decide +kernel) rfl

theorem graph_firstLongest :
    IsFirstMax articleLength ([graphScript].flatMap
      (scriptObjects (scriptLibraries graphScript graphPayload).loads) |>.filter
        (isArticle asciiUnicode)) (jsonLdItem "A panel meets in June.".toList) :=
  ((pageArticle_firstLongest asciiUnicode (scriptLibraries graphScript graphPayload)
    (scriptPage graphScript) storyUrl _ readPage_graph).2.2 _).mp rfl

end Newsintel.Extractors
