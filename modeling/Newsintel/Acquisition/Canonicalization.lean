import Newsintel.Lib.Idna
import Newsintel.Lib.PosixPath
import Newsintel.Lib.PyQuote
import Newsintel.Lib.Sha256

/-!
# URL canonicalisation (domain/acquisition/canonicalization.py)

`canonicalize_url` and its parts: the host and port of the result, its path, and its
query.
-/

namespace Newsintel.Acquisition

open PyText PyUrl

def defaultTrackingParameters : List Text :=
  ["fbclid", "gclid", "igshid", "mc_cid", "mc_eid", "ref", "referrer", "source", "utm_campaign",
    "utm_content", "utm_medium", "utm_source", "utm_term"].map String.toList

structure CanonicalizationPolicy where
  dropParameters : List Text := defaultTrackingParameters
  keepOnlyParameters : List Text := []
  stripWww : Bool := false
  forceHttps : Bool := false

/-- The policy of a call without one. -/
def defaultPolicy : CanonicalizationPolicy := {}

structure CanonicalUrl where
  original : Text
  normalized : Text
  fingerprint : Text
  removedParameters : List Text
  deriving DecidableEq

/-! ### Host and port -/

/-- `host.rstrip(".")`. -/
def rstripDots (host : Text) : Text := (host.reverse.dropWhile (· = '.')).reverse

/-- `host` (lines 50-52). -/
def canonicalHost (u : Unicode) (nameprep : Idna.Nameprep u) (stripWww : Bool)
    (parsed : SplitResult) : Except PyError Text :=
  match Idna.encode nameprep.prepare (hostname u parsed) with
  | .error e => .error e
  | .ok encoded =>
    let host := rstripDots (u.lower encoded)
    .ok (if stripWww && "www.".toList.isPrefixOf host then host.drop 4 else host)

/-- The port that the netloc keeps (lines 54-56). -/
def keptPort (scheme : Text) (port : Option ℕ) : Option ℕ :=
  port.filter fun p =>
    p ≠ 0 && !(scheme = "http".toList && p = 80 || scheme = "https".toList && p = 443)

/-- `netloc` (lines 55-58). -/
def canonicalNetloc (host : Text) : Option ℕ → Text
  | none => host
  | some p => host ++ ':' :: Nat.toDigits 10 p

/-! ### Path -/

/-- The `safe` argument of `quote`. -/
def pathSafe : Text := "/%:@!$&'()*+,;=-._~".toList

/-- `parsed.path or "/"`. -/
def rawPath (path : Text) : Text := if path = [] then ['/'] else path

/-- `normalized_path` (lines 60-66). -/
def canonicalPath (path : Text) : Text :=
  let raw := rawPath path
  let normalized := PosixPath.normpath raw
  let normalized := if normalized.head? = some '/' then normalized else '/' :: normalized
  let normalized :=
    if raw.getLast? = some '/' && normalized ≠ ['/'] then normalized ++ ['/'] else normalized
  PyQuote.quote pathSafe normalized

/-! ### Query -/

/-- `should_keep` (lines 72-78). -/
def shouldKeep (u : Unicode) (policy : CanonicalizationPolicy) (key : Text) : Bool :=
  let lowered := u.lower key
  !policy.dropParameters.contains lowered &&
    (policy.keepOnlyParameters.isEmpty || policy.keepOnlyParameters.contains lowered)

/-- The order of `(key.lower(), value)`. -/
def paramLe (u : Unicode) (p q : Text × Text) : Bool :=
  if u.lower p.1 = u.lower q.1 then textLe p.2 q.2 else textLe (u.lower p.1) (u.lower q.1)

/-- `kept` after its sort (lines 68-83). -/
def keptParameters (u : Unicode) (policy : CanonicalizationPolicy) (query : Text) :
    List (Text × Text) :=
  ((PyQuote.parseQsl query).filter fun p => shouldKeep u policy p.1).insertionSort
    fun p q => paramLe u p q

/-- `sorted(set(removed), key=str.lower)`; keys equal up to case come in the order of
the set, here that of their first occurrences. -/
def removedParameters (u : Unicode) (policy : CanonicalizationPolicy) (query : Text) :
    List Text :=
  (((PyQuote.parseQsl query).filter fun p => !shouldKeep u policy p.1).map
    (·.1)).reverse.dedup.reverse.insertionSort fun s t => textLe (u.lower s) (u.lower t)

/-! ### The canonical URL -/

/-- Lines 85-91. -/
def assembleUrl (u : Unicode) (policy : CanonicalizationPolicy) (url : Text)
    (parsed : SplitResult) (scheme host : Text) (port : Option ℕ) : CanonicalUrl :=
  let normalized := urlunsplit
    { scheme
      netloc := canonicalNetloc host (keptPort scheme port)
      path := canonicalPath parsed.path
      query := PyQuote.urlencode (keptParameters u policy parsed.query)
      fragment := [] }
  { original := url
    normalized
    fingerprint := Sha256.ofText normalized
    removedParameters := removedParameters u policy parsed.query }

def canonicalizeUrl (u : Unicode) (nameprep : Idna.Nameprep u) (policy : CanonicalizationPolicy)
    (url : Text) : Except PyError CanonicalUrl :=
  match urlsplit u (strip url) [] with
  | .error e => .error e
  | .ok parsed =>
    if u.lower parsed.scheme ∉ ["http".toList, "https".toList] then .error .valueError
    else if hostname u parsed = [] then .error .valueError
    else
      let scheme := if policy.forceHttps then "https".toList else u.lower parsed.scheme
      match canonicalHost u nameprep policy.stripWww parsed with
      | .error e => .error e
      | .ok host =>
        match port parsed with
        | .error e => .error e
        | .ok port => .ok (assembleUrl u policy url parsed scheme host port)

end Newsintel.Acquisition
