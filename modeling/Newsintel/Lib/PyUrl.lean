import Mathlib.Data.List.TakeWhile
import Newsintel.Lib.PyText

/-!
# Splitting and joining URLs (`urllib.parse`)

`urlsplit`, `urlunsplit` and `urljoin` for text arguments, with the two netloc
properties `hostname` and `port`. The checks of bracketed hosts use the syntax of
`ipaddress.ip_address`; the NFKC check of the netloc uses the Unicode tables.
-/

namespace Newsintel.PyUrl

open PyText

/-! ### Partitions -/

/-- `t.partition(c)`: the text before `c`, and what follows it if it occurs. -/
def partition (c : Char) (t : Text) : Text × Option Text :=
  match t.dropWhile (· ≠ c) with
  | [] => (t.takeWhile (· ≠ c), none)
  | _ :: rest => (t.takeWhile (· ≠ c), some rest)

/-- `t.rpartition(c)[2]`. -/
def afterLast (c : Char) (t : Text) : Text := (t.reverse.takeWhile (· ≠ c)).reverse

variable {c : Char} {s t : Text}

theorem partition_append (h : c ∉ s) : partition c (s ++ c :: t) = (s, some t) := by
  have hs : ∀ d ∈ s, decide (d ≠ c) = true := fun d hd => decide_eq_true fun he => h (he ▸ hd)
  unfold partition
  rw [List.dropWhile_append_of_pos hs, List.takeWhile_append_of_pos hs]
  simp

theorem partition_of_not_mem (h : c ∉ t) : partition c t = (t, none) := by
  have hne : ∀ d ∈ t, decide (d ≠ c) = true := fun d hd => decide_eq_true fun he => h (he ▸ hd)
  unfold partition
  rw [List.dropWhile_eq_nil_iff.mpr hne, List.takeWhile_eq_self_iff.mpr hne]

theorem partition_fst : (partition c t).1 = t.takeWhile (· ≠ c) := by
  unfold partition
  split <;> rfl

theorem partition_fst_sublist : (partition c t).1.Sublist t := by
  rw [partition_fst]
  exact List.takeWhile_sublist _

theorem not_mem_partition_fst : c ∉ (partition c t).1 := by
  rw [partition_fst]
  intro hc
  have := List.mem_takeWhile_imp hc
  simp at this

theorem partition_fst_cons {d : Char} :
    (partition c (d :: t)).1 = if d = c then [] else d :: (partition c t).1 := by
  rw [partition_fst, partition_fst, List.takeWhile_cons]
  by_cases h : d = c <;> simp [h]

theorem partition_none (h : (partition c t).2 = none) : (partition c t).1 = t ∧ c ∉ t := by
  unfold partition at *
  split at *
  · rename_i hdrop
    have hall := List.dropWhile_eq_nil_iff.mp hdrop
    refine ⟨List.takeWhile_eq_self_iff.mpr hall, ?_⟩
    intro hc
    have := hall c hc
    simp at this
  · contradiction

theorem partition_some (h : (partition c t).2 = some s) : t = (partition c t).1 ++ c :: s := by
  unfold partition at *
  split at *
  · contradiction
  · rename_i d rest hdrop
    obtain rfl := Option.some.inj h
    have hd : d = c := by
      have := List.head?_dropWhile_not (fun d => decide (d ≠ c)) t
      rw [hdrop] at this
      simpa using this
    conv_lhs => rw [← List.takeWhile_append_dropWhile (p := fun d => decide (d ≠ c)) (l := t)]
    rw [hdrop, hd]

theorem partition_parts : (partition c t).1 ++ (partition c t).2.elim [] (c :: ·) = t := by
  cases hp : (partition c t).2 with
  | none => rw [Option.elim_none, List.append_nil, (partition_none hp).1]
  | some rest => exact (partition_some hp).symm

theorem afterLast_sublist : (afterLast c t).Sublist t := by
  have h := (List.takeWhile_sublist (fun d => decide (d ≠ c)) (l := t.reverse)).reverse
  rw [List.reverse_reverse] at h
  exact h

theorem not_mem_afterLast : c ∉ afterLast c t := by
  intro hc
  have := List.mem_takeWhile_imp (List.mem_reverse.mp hc)
  simp at this

theorem afterLast_of_not_mem (h : c ∉ t) : afterLast c t = t := by
  have hne : ∀ d ∈ t.reverse, decide (d ≠ c) = true :=
    fun d hd => decide_eq_true fun he => h (he ▸ List.mem_reverse.mp hd)
  rw [afterLast, List.takeWhile_eq_self_iff.mpr hne, List.reverse_reverse]

/-! ### Characters -/

/-- `c.isascii() and c.isdigit()`. -/
def isDigit (c : Char) : Bool := '0' ≤ c && c ≤ '9'

def isAlpha (c : Char) : Bool := ('a' ≤ c && c ≤ 'z') || ('A' ≤ c && c ≤ 'Z')

def isHexDigit (c : Char) : Bool := isDigit c || ('a' ≤ c && c ≤ 'f') || ('A' ≤ c && c ≤ 'F')

/-- `int(t)` of decimal digits. -/
def decimalValue (t : Text) : ℕ := t.foldl (fun n c => 10 * n + (c.toNat - 48)) 0

/-! ### `ipaddress` -/

/-- `_BaseV4._parse_octet` succeeds. -/
def isOctet (t : Text) : Bool :=
  t ≠ [] && t.all isDigit && t.length ≤ 3 && (t = ['0'] || t.head? ≠ some '0') &&
    decimalValue t ≤ 255

/-- `IPv4Address(t)` succeeds. -/
def isIPv4 (t : Text) : Bool :=
  !t.contains '/' && (t.splitOn '.').length = 4 && (t.splitOn '.').all isOctet

/-- `_BaseV6._parse_hextet` succeeds on a non-empty text. -/
def isHextet (t : Text) : Bool := t ≠ [] && t.all isHexDigit && t.length ≤ 4

/-- `_BaseV6._ip_int_from_string` on the parts between colons, the IPv4 tail
already replaced by two hextets. -/
def hextetsValid (parts : List Text) : Bool :=
  let inner := (parts.drop 1).dropLast
  if parts.length > 9 then false
  else match inner.findIdx? (· = []) with
    | some i =>
      let hi := parts.take (i + 1)
      let lo := parts.drop (i + 2)
      let hiParts := if parts.head? = some [] then hi.drop 1 else hi
      let loParts := if parts.getLast? = some [] then lo.dropLast else lo
      (inner.drop (i + 1)).all (· ≠ []) &&
        (parts.head? ≠ some [] || hiParts = []) &&
        (parts.getLast? ≠ some [] || loParts = []) &&
        hiParts.length + loParts.length < 8 && hiParts.all isHextet && loParts.all isHextet
    | none => parts.length = 8 && parts.all isHextet

/-- `IPv6Address(t)` succeeds. -/
def isIPv6 (t : Text) : Bool :=
  let (addr, scope) := partition '%' t
  let parts := addr.splitOn ':'
  let last := parts.getLastD []
  !t.contains '/' && (match scope with | none => true | some s => s ≠ [] && !s.contains '%') &&
    3 ≤ parts.length &&
    if last.contains '.' then isIPv4 last && hextetsValid (parts.dropLast ++ [['0'], ['0']])
    else hextetsValid parts

/-! ### `urlsplit` -/

structure SplitResult where
  scheme : Text
  netloc : Text
  path : Text
  query : Text
  fragment : Text
  deriving DecidableEq, Repr

/-- `_WHATWG_C0_CONTROL_OR_SPACE`. -/
def isControlOrSpace (c : Char) : Bool := c.toNat ≤ 32

/-- `_UNSAFE_URL_BYTES_TO_REMOVE`. -/
def isUnsafe (c : Char) : Bool := c == '\t' || c == '\r' || c == '\n'

/-- `scheme_chars`. -/
def isSchemeChar (c : Char) : Bool := isAlpha c || isDigit c || c == '+' || c == '-' || c == '.'

/-- The delimiters that end a netloc (`_splitnetloc`). -/
def endsNetloc (c : Char) : Bool := c == '/' || c == '?' || c == '#'

/-- The scheme and the rest of a cleaned URL. -/
def splitScheme (scheme url : Text) : Text × Text :=
  match partition ':' url with
  | (c :: s, some rest) =>
    if isAlpha c && (c :: s).all isSchemeChar then ((c :: s).map Char.toLower, rest)
    else (scheme, url)
  | _ => (scheme, url)

/-- The netloc after `//`, if the URL has one. -/
def splitNetloc : Text → Text × Text
  | '/' :: '/' :: rest => (rest.takeWhile (!endsNetloc ·), rest.dropWhile (!endsNetloc ·))
  | url => ([], url)

def checkBracketedHost (hostname : Text) : Bool :=
  match hostname with
  | 'v' :: rest =>
    match partition '.' rest with
    | (hex, some tail) => hex ≠ [] && hex.all isHexDigit && tail ≠ [] && !tail.contains '\n'
    | (_, none) => false
  | _ => isIPv6 hostname

def checkBracketedNetloc (netloc : Text) : Bool :=
  match partition '[' (afterLast '@' netloc) with
  | (before, some bracketed) =>
    let (hostname, port) := partition ']' bracketed
    before = [] && (port.getD [] = [] || (port.getD []).head? = some ':') &&
      checkBracketedHost hostname
  | (whole, none) => checkBracketedHost (partition ':' whole).1

/-- Brackets of a netloc are paired and hold an address. -/
def bracketsValid (netloc : Text) : Bool :=
  if netloc.contains '[' || netloc.contains ']' then
    netloc.contains '[' && netloc.contains ']' && checkBracketedNetloc netloc
  else true

def checkNetloc (u : Unicode) (netloc : Text) : Bool :=
  if netloc.all (·.toNat < 128) then true
  else
    let n := netloc.filter fun c => !("@:#?".toList.contains c)
    u.nfkc n = n || (u.nfkc n).all fun c => !("/?#@:".toList.contains c)

/-- The URL as `urlsplit` reads it: leading controls and unsafe bytes removed. -/
def cleaned (url : Text) : Text := (url.dropWhile isControlOrSpace).filter (!isUnsafe ·)

def urlsplit (u : Unicode) (url scheme : Text) : Except PyError SplitResult :=
  let (scheme, rest) := splitScheme scheme (cleaned url)
  let (netloc, rest) := splitNetloc rest
  if !bracketsValid netloc then .error .valueError
  else
    let (rest, fragment) := partition '#' rest
    let (path, query) := partition '?' rest
    if !checkNetloc u netloc then .error .valueError
    else .ok { scheme, netloc, path, query := query.getD [], fragment := fragment.getD [] }

/-! ### Properties of the netloc -/

/-- `_hostinfo`, before the empty port becomes `None`. -/
def hostInfo (netloc : Text) : Text × Text :=
  match partition '[' (afterLast '@' netloc) with
  | (_, some bracketed) =>
    let (hostname, port) := partition ']' bracketed
    (hostname, ((partition ':' (port.getD [])).2).getD [])
  | (hostinfo, none) =>
    let (hostname, port) := partition ':' hostinfo
    (hostname, port.getD [])

/-- `SplitResult.hostname`; `None` is the empty text. -/
def hostname (u : Unicode) (r : SplitResult) : Text :=
  match partition '%' (hostInfo r.netloc).1 with
  | (host, none) => u.lower host
  | (host, some zone) => u.lower host ++ '%' :: zone

theorem hostname_parts (u : Unicode) (parsed : SplitResult) : hostname u parsed =
    u.lower (partition '%' (hostInfo parsed.netloc).1).1 ++
      (partition '%' (hostInfo parsed.netloc).1).2.elim [] ('%' :: ·) := by
  unfold hostname
  split
  · rename_i h
    rw [h, Option.elim_none, List.append_nil]
  · rename_i h
    rw [h, Option.elim_some]

def port (r : SplitResult) : Except PyError (Option ℕ) :=
  let p := (hostInfo r.netloc).2
  if p = [] then .ok none
  else if p.all isDigit && decimalValue p ≤ 65535 then .ok (some (decimalValue p))
  else .error .valueError

/-! ### `urlunsplit` and `urljoin` -/

def usesNetloc : List Text :=
  ["", "ftp", "http", "gopher", "nntp", "telnet", "imap", "wais", "file", "mms", "https",
    "shttp", "snews", "prospero", "rtsp", "rtsps", "rtspu", "rsync", "svn", "svn+ssh", "sftp",
    "nfs", "git", "git+ssh", "ws", "wss", "itms-services"].map String.toList

def usesRelative : List Text :=
  ["", "ftp", "http", "gopher", "nntp", "imap", "wais", "file", "https", "shttp", "mms",
    "prospero", "rtsp", "rtsps", "rtspu", "sftp", "svn", "svn+ssh", "ws", "wss"].map
    String.toList

def usesParams : List Text :=
  ["", "ftp", "hdl", "prospero", "http", "imap", "https", "shttp", "rtsp", "rtsps", "rtspu",
    "sip", "sips", "mms", "sftp", "tel"].map String.toList

def urlunsplit (r : SplitResult) : Text :=
  let url :=
    if r.netloc ≠ [] then
      "//".toList ++ r.netloc ++
        (if r.path ≠ [] && r.path.head? ≠ some '/' then '/' :: r.path else r.path)
    else if r.path.take 2 = "//".toList then "//".toList ++ r.path
    else if r.scheme ≠ [] && usesNetloc.contains r.scheme &&
        (r.path = [] || r.path.head? = some '/') then "//".toList ++ r.path
    else r.path
  let url := if r.scheme ≠ [] then r.scheme ++ ':' :: url else url
  let url := if r.query ≠ [] then url ++ '?' :: r.query else url
  if r.fragment ≠ [] then url ++ '#' :: r.fragment else url

/-- `_splitparams` for the schemes that have parameters; `urlparse`'s extra field. -/
def splitParams (scheme path : Text) : Text × Text :=
  if usesParams.contains scheme && path.contains ';' then
    let last := afterLast '/' path
    match partition ';' last with
    | (seg, some params) => (path.take (path.length - last.length) ++ seg, params)
    | (_, none) => (path, [])
  else (path, [])

def urlunparse (r : SplitResult) (params : Text) : Text :=
  urlunsplit { r with path := if params ≠ [] then r.path ++ ';' :: params else r.path }

/-- `".."` and `"."` resolved against the segments already kept. -/
def resolveSegments (segments : List Text) : List Text :=
  segments.foldl (fun kept seg =>
    if seg = "..".toList then kept.dropLast
    else if seg = ".".toList then kept
    else kept ++ [seg]) []

/-- The path of `url` resolved against the path of the base (RFC 3986). -/
def resolvePath (bpath path : Text) : Text :=
  let parts := bpath.splitOn '/'
  let baseParts := if parts.getLast? ≠ some [] then parts.dropLast else parts
  let segments :=
    if path.head? = some '/' then path.splitOn '/'
    else
      let all := baseParts ++ path.splitOn '/'
      all.take 1 ++ ((all.drop 1).dropLast.filter (· ≠ [])) ++ (all.drop 1).getLast?.toList
  let resolved := resolveSegments segments
  let resolved :=
    if segments.getLast? = some ".".toList || segments.getLast? = some "..".toList then
      resolved ++ [[]]
    else resolved
  let joined := ['/'].intercalate resolved
  if joined = [] then ['/'] else joined

def urljoin (u : Unicode) (base url : Text) : Except PyError Text :=
  if base = [] then .ok url
  else if url = [] then .ok base
  else do
    let b ← urlsplit u base []
    let r ← urlsplit u url b.scheme
    let (bpath, bparams) := splitParams b.scheme b.path
    let (path, params) := splitParams r.scheme r.path
    if r.scheme ≠ b.scheme || !usesRelative.contains r.scheme then return url
    if usesNetloc.contains r.scheme && r.netloc ≠ [] then
      return urlunparse { r with path } params
    let netloc := if usesNetloc.contains r.scheme then b.netloc else r.netloc
    if path = [] && params = [] then
      return urlunparse
        { r with netloc, path := bpath, query := if r.query = [] then b.query else r.query }
        bparams
    return urlunparse { r with netloc, path := resolvePath bpath path } params

end Newsintel.PyUrl
