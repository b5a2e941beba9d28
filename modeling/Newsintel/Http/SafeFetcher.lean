import Newsintel.Lib.IpAddress
import Newsintel.Lib.PyUrl
import Newsintel.Lib.Sha256

/-!
# `SafeHttpFetcher`

`fetch` follows redirects on its own. In each round it looks the host of the URL up and checks
the addresses; then the HTTP client looks the host up once more, and connects.
-/

namespace Newsintel.Http

open PyText PyUrl

structure FetchRequest where
  url : Text
  etag : Option Text
  lastModified : Option Text

structure FetchResult where
  requestedUrl : Text
  finalUrl : Text
  statusCode : ℕ
  headers : List (Text × Text)
  body : Bytes
  bodySha256 : Text
  retrievedAt : Timestamp
  redirectChain : List Text

structure SafeHttpFetcher where
  userAgent : Text
  maxBytes : ℕ
  maxRedirects : ℕ

/-- The exceptions of `fetch`. -/
inductive FetchError where
  /-- `UnsafeTargetError`: only public HTTP and HTTPS URLs are allowed -/
  | notHttp
  /-- `UnsafeTargetError`: hostname did not resolve -/
  | didNotResolve
  /-- `UnsafeTargetError`: target resolves to non-public address -/
  | nonPublic (address : IpAddress)
  /-- `socket.gaierror` -/
  | lookupFailed
  /-- of `urlsplit` and `urljoin` -/
  | url (e : PyError)
  /-- redirect response omitted Location -/
  | omittedLocation
  /-- response exceeded configured byte limit -/
  | exceededByteLimit
  | tooManyRedirects
  /-- any other exception of the client -/
  | client
  deriving DecidableEq

/-- A response, as the client presents it. -/
structure Response where
  url : Text
  statusCode : ℕ
  isRedirect : Bool
  headers : List (Text × Text)
  /-- `headers.get("location")` -/
  location : Option Text
  chunks : List Bytes

/-- Name resolution and servers, round by round. -/
structure Network where
  /-- `socket.getaddrinfo` of a host; `none`: it raises -/
  getaddrinfo : ℕ → Text → Option (List IpAddress)
  /-- the addresses that the client gets for the host of a URL -/
  clientLookup : ℕ → Text → List IpAddress
  /-- the answer to a request for a URL with headers; `none`: the client raises -/
  respond : ℕ → Text → List (Text × Text) → Option Response
  clock : ℕ → Timestamp

/-- `_assert_public_hostname`, on the results of the lookup. -/
def assertPublicHostname : Option (List IpAddress) → Except FetchError Unit
  | none => .error .lookupFailed
  | some [] => .error .didNotResolve
  | some results =>
    match results.find? (!·.isGlobal) with
    | some address => .error (.nonPublic address)
    | none => .ok ()

def validateUrl (u : Unicode) (getaddrinfo : Text → Option (List IpAddress)) (url : Text) :
    Except FetchError Unit :=
  match urlsplit u url [] with
  | .error e => .error (.url e)
  | .ok parsed =>
    if !(["http".toList, "https".toList].contains parsed.scheme) || hostname u parsed = [] then
      .error .notHttp
    else assertPublicHostname (getaddrinfo (hostname u parsed))

/-- The body, chunk by chunk. -/
def readBody (maxBytes : ℕ) : Bytes → List Bytes → Except FetchError Bytes
  | body, [] => .ok body
  | body, chunk :: chunks =>
    if maxBytes < (body ++ chunk).length then .error .exceededByteLimit
    else readBody maxBytes (body ++ chunk) chunks

/-- A header that is sent if its value is neither `None` nor empty. -/
def optionalHeader (name : Text) (value : Option Text) : List (Text × Text) :=
  match value with
  | none | some [] => []
  | some value => [(name, value)]

namespace SafeHttpFetcher

def headers (f : SafeHttpFetcher) (request : FetchRequest) : List (Text × Text) :=
  [("User-Agent".toList, f.userAgent), ("Accept-Encoding".toList, "gzip, deflate".toList)] ++
    optionalHeader "If-None-Match".toList request.etag ++
    optionalHeader "If-Modified-Since".toList request.lastModified

/-- The URL that a redirect leads to. -/
def redirectTarget (u : Unicode) (current : Text) (response : Response) :
    Except FetchError Text :=
  match response.location with
  | none | some [] => .error .omittedLocation
  | some location =>
    match urljoin u current location with
    | .error e => .error (.url e)
    | .ok target => .ok target

/-- The result of the last response. -/
def resultOf (u : Unicode) (f : SafeHttpFetcher) (request : FetchRequest) (response : Response)
    (redirects : List Text) (now : Timestamp) : Except FetchError FetchResult :=
  (readBody f.maxBytes [] response.chunks).map fun body =>
    { requestedUrl := request.url
      finalUrl := response.url
      statusCode := response.statusCode
      headers := response.headers.map fun h => (u.lower h.1, h.2)
      body
      bodySha256 := Sha256.hexdigest (body.map UInt8.toNat)
      retrievedAt := now
      redirectChain := redirects }

/-- The rounds that are left: the addresses connected to, and how the call ends. `choice` picks
one of the addresses that the client has got. -/
def fetchRounds (u : Unicode) (net : Network) (choice : ℕ → ℕ) (f : SafeHttpFetcher)
    (request : FetchRequest) : ℕ → ℕ → Text → List Text →
      List IpAddress × Except FetchError FetchResult
  | 0, _, _, _ => ([], .error .tooManyRedirects)
  | rounds + 1, round, current, redirects =>
    match validateUrl u (net.getaddrinfo round) current with
    | .error e => ([], .error e)
    | .ok () =>
      match (net.clientLookup round current)[choice round]? with
      | none => ([], .error .client)
      | some address =>
        match net.respond round current (f.headers request) with
        | none => ([address], .error .client)
        | some response =>
          if response.isRedirect then
            match redirectTarget u current response with
            | .error e => ([address], .error e)
            | .ok target =>
              let rest := fetchRounds u net choice f request rounds (round + 1) target
                (redirects ++ [current])
              (address :: rest.1, rest.2)
          else ([address], f.resultOf u request response redirects (net.clock round))

/-- `fetch`, with the addresses that it connects to. -/
def fetch (u : Unicode) (net : Network) (choice : ℕ → ℕ) (f : SafeHttpFetcher)
    (request : FetchRequest) : List IpAddress × Except FetchError FetchResult :=
  fetchRounds u net choice f request (f.maxRedirects + 1) 0 request.url []

end SafeHttpFetcher

end Newsintel.Http
