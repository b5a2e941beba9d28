import Newsintel.Extractors.ArticleHtmlParser

/-!
# JSON-LD objects (adapters/extractors/article_html.py:594-655)

The objects in the scripts of a page, and the one that describes the article. The members of an
object have different names, as in a dict.
-/

namespace Newsintel.Extractors

open PyText

/-- A value of `json.loads`; a number is what `str` writes for it. -/
inductive Json where
  | null
  | bool (value : Bool)
  | number (str : Text)
  | string (value : Text)
  | array (items : List Json)
  | object (members : List (Text × Json))

abbrev JsonObject := List (Text × Json)

/-- What `json.loads` raises. -/
inductive JsonError where
  | jsonDecodeError
  | other (e : PyError)
  deriving DecidableEq, Repr

mutual

/-- `_walk_json_ld`. -/
def walkJsonLd : Json → List JsonObject
  | .array items => walkItems items
  | .object members => members :: walkGraph members
  | _ => []

def walkItems : List Json → List JsonObject
  | [] => []
  | item :: items => walkJsonLd item ++ walkItems items

/-- The walk over `value.get("@graph")`, if it is a list. -/
def walkGraph : JsonObject → List JsonObject
  | [] => []
  | (name, value) :: members =>
    if name = "@graph".toList then walkArray value else walkGraph members

def walkArray : Json → List JsonObject
  | .array items => walkItems items
  | _ => []

end

/-- `_iter_json_ld_objects`: a script that is no JSON is passed over. -/
def iterJsonLdObjects (loads : Text → Except JsonError Json) :
    List Text → Except PyError (List JsonObject)
  | [] => .ok []
  | script :: scripts => do
    let objects ← match loads script with
      | .ok payload => .ok (walkJsonLd payload)
      | .error .jsonDecodeError => .ok []
      | .error (.other e) => .error e
    return objects ++ (← iterJsonLdObjects loads scripts)

/-- `_string_value`. -/
def stringValue : Json → Option Text
  | .string value => some (normalizeText value)
  | .number str => some str
  | .bool value => some (if value then "True" else "False").toList
  | _ => none

/-- `_string_value(item.get(name))`. -/
def stringMember (name : String) (item : JsonObject) : Option Text :=
  (item.lookup name.toList).bind stringValue

mutual

def authorValue : Json → Option Text
  | .string value => some (normalizeText value)
  | .object members => stringMember "name" members
  | .array items =>
    some ([',', ' '].intercalate (authorValues items)) |>.filter (· ≠ [])
  | _ => none

/-- The authors of a list that are not empty. -/
def authorValues : List Json → List Text
  | [] => []
  | item :: items => ((authorValue item).filter (· ≠ [])).toList ++ authorValues items

end

/-- `_ARTICLE_TYPES`. -/
def articleTypes : List Text :=
  ["article", "newsarticle", "reportagenewsarticle", "analysisnewsarticle", "blogposting"].map
    String.toList

/-- `normalized_types`; no value but a string is written like an article type. -/
def normalizedTypes (u : Unicode) : Option Json → List Text
  | some (.string value) => [u.lower value]
  | some (.array items) => items.filterMap fun
    | .string value => some (u.lower value)
    | _ => none
  | _ => []

/-- The length of the body and the headline (lines 633-634). -/
def articleLength (item : JsonObject) : ℕ :=
  ((stringMember "articleBody" item).getD []).length +
    ((stringMember "headline" item).getD []).length

/-- `max(candidates, key=...)`: the first of the longest. -/
def longestArticle : List JsonObject → Option JsonObject
  | [] => none
  | item :: items => some (items.foldl (fun best item =>
    if articleLength best < articleLength item then item else best) item)

def selectArticleJsonLd (u : Unicode) (objects : List JsonObject) : Option JsonObject :=
  longestArticle (objects.filter fun item =>
    (normalizedTypes u (item.lookup "@type".toList)).any articleTypes.contains)

end Newsintel.Extractors
