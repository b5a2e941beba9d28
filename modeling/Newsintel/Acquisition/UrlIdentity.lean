import Newsintel.Acquisition.CanonicalForm

/-!
# The identity of a URL

Presentations of one URL: its parameters in another order, other tracking parameters, another
fragment, other letters of scheme and host, the default port written or not. They have one
canonical form unless two parameters differ in the letters of their keys only.
-/

namespace Newsintel.Acquisition

open PyText PyUrl PyQuote

/-! ### Presentations -/

/-- A parameter of a query string, as it is parsed. -/
def parameter (piece : Text) : Text × Text :=
  (unquotePlus (partition '=' piece).1, unquotePlus ((partition '=' piece).2.getD []))

/-- The parameters of a query string that are no tracking parameters. -/
def keptPieces (u : Unicode) (query : Text) : List Text :=
  (query.splitOn '&').filter fun piece =>
    piece ≠ [] && shouldKeep u defaultPolicy (parameter piece).1

/-- The host in other letters; those of a zone count for hosts outside ASCII. -/
def SameHost (u : Unicode) (host host' : Text) : Prop :=
  (u.lower (partition '%' host').1 = u.lower (partition '%' host).1 ∧
      (partition '%' host').2 = (partition '%' host).2) ∨
    (∀ c ∈ host ++ host', c.toNat < 128) ∧ host'.map Char.toLower = host.map Char.toLower

def defaultPort (scheme : Text) : Text :=
  if scheme = "http".toList then "80".toList else "443".toList

/-- The same port, or none and the default one. -/
def SamePort (scheme port port' : Text) : Prop :=
  port' = port ∨ ∀ p ∈ [port, port'], p ∈ [[], defaultPort scheme]

/-- Another presentation of the same URL; the fragment does not count. -/
structure Presents (u : Unicode) (parsed parsed' : SplitResult) : Prop where
  scheme : u.lower parsed'.scheme = u.lower parsed.scheme
  host : SameHost u (hostInfo parsed.netloc).1 (hostInfo parsed'.netloc).1
  port : SamePort (u.lower parsed.scheme) (hostInfo parsed.netloc).2 (hostInfo parsed'.netloc).2
  path : parsed'.path = parsed.path
  query : (keptPieces u parsed'.query).Perm (keptPieces u parsed.query)

/-- No two parameters have the same value, and keys that differ in their letters only. -/
def NoTwins (u : Unicode) (query : Text) : Prop :=
  ∀ piece ∈ keptPieces u query, ∀ piece' ∈ keptPieces u query,
    u.lower (parameter piece).1 = u.lower (parameter piece').1 →
      (parameter piece).2 = (parameter piece').2 → (parameter piece).1 = (parameter piece').1

instance (u : Unicode) (query : Text) : Decidable (NoTwins u query) :=
  inferInstanceAs (Decidable (∀ piece ∈ keptPieces u query, ∀ piece' ∈ keptPieces u query, _))

variable {u : Unicode} {nameprep : Idna.Nameprep u}
  {url url' scheme host host' query query' t : Text} {parsed parsed' : SplitResult} {r : CanonicalUrl}

/-! ### The query -/

theorem keptParameters_eq (u : Unicode) (query : Text) : keptParameters u defaultPolicy query =
    ((keptPieces u query).map parameter).insertionSort fun p q => paramLe u p q := by
  have hparse : parseQsl query = ((query.splitOn '&').filter (· ≠ [])).map parameter := rfl
  rw [keptParameters, hparse, List.filter_map, List.filter_filter, keptPieces]
  congr 2
  apply List.filter_congr
  intro piece _
  rw [Function.comp_apply, Bool.and_comm]

theorem paramLe_antisymm {p q : Text × Text} (hpq : paramLe u p q = true)
    (hqp : paramLe u q p = true) : u.lower p.1 = u.lower q.1 ∧ p.2 = q.2 := by
  unfold paramLe at hpq hqp
  by_cases hkeys : u.lower p.1 = u.lower q.1
  · rw [if_pos hkeys] at hpq
    rw [if_pos hkeys.symm] at hqp
    exact ⟨hkeys, textLe_antisymm hpq hqp⟩
  · rw [if_neg hkeys] at hpq
    rw [if_neg (Ne.symm hkeys)] at hqp
    exact absurd (textLe_antisymm hpq hqp) hkeys

theorem mem_keptParameters {p : Text × Text} :
    p ∈ keptParameters u defaultPolicy query ↔
      ∃ piece ∈ keptPieces u query, parameter piece = p := by
  rw [keptParameters_eq, List.mem_insertionSort, List.mem_map]

/- Without twins, the order of the sort is the only one. -/
theorem keptParameters_perm (htwins : NoTwins u query)
    (hperm : (keptPieces u query').Perm (keptPieces u query)) :
    keptParameters u defaultPolicy query' = keptParameters u defaultPolicy query := by
  have hparameters : (keptParameters u defaultPolicy query').Perm
      (keptParameters u defaultPolicy query) := by
    rw [keptParameters_eq, keptParameters_eq]
    exact (List.perm_insertionSort _ _).trans
      ((hperm.map parameter).trans (List.perm_insertionSort _ _).symm)
  refine hparameters.eq_of_pairwise ?_ (keptParameters_sorted query') (keptParameters_sorted query)
  intro p q hp hq hpq hqp
  obtain ⟨piece, hpiece, rfl⟩ := mem_keptParameters.mp (hparameters.mem_iff.mp hp)
  obtain ⟨piece', hpiece', rfl⟩ := mem_keptParameters.mp hq
  obtain ⟨hkeys, hvalues⟩ := paramLe_antisymm hpq hqp
  exact Prod.ext (htwins piece hpiece piece' hpiece' hkeys hvalues) hvalues

/-! ### Host and port -/

/- The default port is left out, whether it is written or not. -/
theorem keptPort_default (hscheme : scheme ∈ ["http".toList, "https".toList])
    (h : (hostInfo parsed.netloc).2 ∈ [[], defaultPort scheme]) :
    ∃ port, PyUrl.port parsed = .ok port ∧ keptPort scheme port = none := by
  simp only [List.mem_cons, List.not_mem_nil, or_false] at h hscheme
  rw [PyUrl.port]
  obtain h | h := h
  · rw [h]
    exact ⟨none, rfl, rfl⟩
  · rw [h]
    obtain rfl | rfl := hscheme
    · exact ⟨some 80, rfl, rfl⟩
    · exact ⟨some 443, rfl, rfl⟩

theorem keptPort_samePort {port : Option ℕ} (hscheme : scheme ∈ ["http".toList, "https".toList])
    (hsame : SamePort scheme (hostInfo parsed.netloc).2 (hostInfo parsed'.netloc).2)
    (hport : PyUrl.port parsed = .ok port) :
    ∃ port', PyUrl.port parsed' = .ok port' ∧ keptPort scheme port' = keptPort scheme port := by
  obtain hsame | hdefault := hsame
  · refine ⟨port, ?_, rfl⟩
    rw [← hport, PyUrl.port, PyUrl.port, hsame]
  · simp only [List.forall_mem_cons] at hdefault
    obtain ⟨port₀, hport₀, hkept⟩ := keptPort_default hscheme hdefault.1
    obtain ⟨port', hport', hkept'⟩ := keptPort_default hscheme hdefault.2.1
    obtain rfl := Except.ok.inj (hport.symm.trans hport₀)
    exact ⟨port', hport', hkept'.trans hkept.symm⟩

/- Up to letters, the name of an ASCII host is what the netloc has. -/
theorem hostname_lower (h : ∀ c ∈ (hostInfo parsed.netloc).1, c.toNat < 128) :
    (hostname u parsed).map Char.toLower = (hostInfo parsed.netloc).1.map Char.toLower := by
  have hidem (t : Text) : (t.map Char.toLower).map Char.toLower = t.map Char.toLower := by
    rw [List.map_map]
    exact List.map_congr_left fun c _ => toLower_toLower c
  rw [hostname_parts, List.map_append,
    u.lower_ascii _ fun c hc => h c (partition_fst_sublist.subset hc), hidem, ← List.map_append]
  exact congrArg _ partition_parts

theorem labelsOk_lower : LabelsOk (host.map Char.toLower) ↔ LabelsOk host := by
  have hlast : (((host.splitOn '.').map (·.map Char.toLower)).getLastD []).length =
      ((host.splitOn '.').getLastD []).length := by
    rw [List.getLastD_eq_getLast?, List.getLastD_eq_getLast?, List.getLast?_map]
    cases (host.splitOn '.').getLast? with
    | none => rfl
    | some label => exact List.length_map _
  rw [LabelsOk, LabelsOk, splitOn_lower (by decide), hlast, ← List.map_dropLast, List.forall_mem_map]
  simp only [List.length_map]

theorem canonicalHost_sameHost
    (hsame : SameHost u (hostInfo parsed.netloc).1 (hostInfo parsed'.netloc).1)
    (hne : hostname u parsed ≠ []) (hhost : canonicalHost u nameprep false parsed = .ok host) :
    hostname u parsed' ≠ [] ∧ canonicalHost u nameprep false parsed' = .ok host := by
  obtain ⟨hhead, hzone⟩ | ⟨hascii, hlower⟩ := hsame
  · have hname : hostname u parsed' = hostname u parsed := by
      rw [hostname_parts, hostname_parts, hhead, hzone]
    rw [hname]
    refine ⟨hne, ?_⟩
    rw [← hhost, canonicalHost, canonicalHost, hname]
  · rw [List.forall_mem_append] at hascii
    have hletters : (hostname u parsed').map Char.toLower =
        (hostname u parsed).map Char.toLower := by
      rw [hostname_lower hascii.1, hostname_lower hascii.2, hlower]
    have hname : ∀ c ∈ hostname u parsed, c.toNat < 128 := hostname_ascii hascii.1
    have hname' : ∀ c ∈ hostname u parsed', c.toNat < 128 := hostname_ascii hascii.2
    rw [canonicalHost_lower hname] at hhost
    rw [canonicalHost_lower hname', hletters, ← labelsOk_lower, hletters, labelsOk_lower]
    refine ⟨?_, hhost⟩
    intro hnil
    rw [hnil, List.map_nil] at hletters
    exact hne (List.map_eq_nil_iff.mp hletters.symm)

/- Another presentation is accepted, and has the same identity. -/
theorem canonicalizeUrl_presents (hparsed : urlsplit u (strip url) [] = .ok parsed)
    (hparsed' : urlsplit u (strip url') [] = .ok parsed') (hpresents : Presents u parsed parsed')
    (htwins : NoTwins u parsed.query) (h : canonicalizeUrl u nameprep defaultPolicy url = .ok r) :
    ∃ r', canonicalizeUrl u nameprep defaultPolicy url' = .ok r' ∧
      r'.normalized = r.normalized ∧ r'.fingerprint = r.fingerprint := by
  obtain ⟨_, host, port, hparsed₀, hscheme, hname, hhost, hport, rfl⟩ := canonicalizeUrl_ok.mp h
  obtain rfl := Except.ok.inj (hparsed.symm.trans hparsed₀)
  obtain ⟨port', hport', hkept⟩ := keptPort_samePort hscheme hpresents.port hport
  obtain ⟨hname', hhost'⟩ := canonicalHost_sameHost hpresents.host hname hhost
  have hscheme' := hpresents.scheme.symm ▸ hscheme
  refine ⟨_, canonicalizeUrl_ok.mpr
    ⟨parsed', host, port', hparsed', hscheme', hname', hhost', hport', rfl⟩, ?_⟩
  have hnormalized : (assembleUrl u defaultPolicy url' parsed' (u.lower parsed'.scheme) host
      port').normalized =
        (assembleUrl u defaultPolicy url parsed (u.lower parsed.scheme) host port).normalized := by
    rw [assembleUrl, assembleUrl]
    simp only [hpresents.scheme, hkept, hpresents.path,
      keptParameters_perm htwins hpresents.query]
  exact ⟨hnormalized, by rw [assembleUrl_fingerprint, assembleUrl_fingerprint, hnormalized]⟩

/-! ### Two parameters in both orders -/

/- Of two equals, the one that is inserted last comes first. -/
theorem orderedInsert_pair {α : Type*} {r : α → α → Prop} [DecidableRel r] {p q : α}
    (hpq : r p q) (hsame : ∀ b, r p b ↔ r q b) (l : List α) :
    (l.orderedInsert r q).orderedInsert r p =
      l.takeWhile (¬ r q ·) ++ p :: q :: l.dropWhile (¬ r q ·) := by
  have hpred : (fun b => decide (¬ r p b)) = fun b => decide (¬ r q b) := by
    funext b
    simp only [hsame]
  have htake : ∀ b ∈ l.takeWhile (fun b => decide (¬ r q b)), decide (¬ r q b) = true := by
    intro b hb
    exact List.mem_takeWhile_imp (p := fun b => decide (¬ r q b)) hb
  have hstop : ¬ decide (¬ r q q) = true := by
    rw [decide_eq_true_eq, not_not]
    exact (hsame q).mp hpq
  rw [List.orderedInsert_eq_take_drop r q, List.orderedInsert_eq_take_drop r p, hpred,
    List.takeWhile_append_of_pos htake, List.dropWhile_append_of_pos htake,
    List.takeWhile_cons, List.dropWhile_cons, if_neg hstop, if_neg hstop, List.append_nil]

/- Parameters that the sort takes for equal keep the order that they come in. -/
theorem eq_of_insertionSort_swap {p q : Text × Text} {rest : List (Text × Text)}
    (hkeys : u.lower p.1 = u.lower q.1) (hvalues : p.2 = q.2)
    (h : (p :: q :: rest).insertionSort (fun a b => paramLe u a b) =
      (q :: p :: rest).insertionSort fun a b => paramLe u a b) : p = q := by
  have hpq : paramLe u p q = true := by
    rw [paramLe, if_pos hkeys, hvalues]
    exact (textLe_total q.2 q.2).elim id id
  have hqp : paramLe u q p = true := by
    rw [paramLe, if_pos hkeys.symm, hvalues]
    exact (textLe_total q.2 q.2).elim id id
  have hsame : ∀ b, paramLe u p b = true ↔ paramLe u q b = true :=
    fun b => ⟨paramLe_trans hqp, paramLe_trans hpq⟩
  have hpred : (fun b => decide (¬ paramLe u q b = true)) =
      fun b => decide (¬ paramLe u p b = true) := by
    funext b
    simp only [hsame]
  rw [List.insertionSort_cons, List.insertionSort_cons, List.insertionSort_cons,
    List.insertionSort_cons, orderedInsert_pair (r := fun a b => paramLe u a b = true) hpq hsame,
    orderedInsert_pair (r := fun a b => paramLe u a b = true) hqp fun b => (hsame b).symm,
    hpred] at h
  exact (List.cons.inj (List.append_cancel_left h)).1

/-! ### Writing a presentation -/

/-- The URL with other query parameters, and a fragment that ends it. -/
def presentation (u : Unicode) (parsed : SplitResult) (pieces : List Text) : Text :=
  written (u.lower parsed.scheme) parsed.netloc parsed.path (some (['&'].intercalate pieces))
    (some ['x'])

/-- What is read of it. -/
def presented (u : Unicode) (parsed : SplitResult) (pieces : List Text) : SplitResult :=
  { scheme := u.lower parsed.scheme, netloc := parsed.netloc, path := parsed.path,
    query := ['&'].intercalate pieces, fragment := ['x'] }

variable {pieces : List Text}

theorem urlsplit_presentation (hparts : Parts u parsed)
    (hscheme : u.lower parsed.scheme ∈ ["http".toList, "https".toList])
    (hne : parsed.netloc ≠ []) (hpieces : ∀ piece ∈ pieces, ∀ c ∈ piece, c ∈ parsed.query) :
    urlsplit u (strip (presentation u parsed pieces)) [] = .ok (presented u parsed pieces) := by
  have hquery : ∀ c ∈ ['&'].intercalate pieces, c = '&' ∨ c ∈ parsed.query := by
    intro c hc
    obtain rfl | ⟨piece, hpiece, hc⟩ := Idna.mem_intercalate hc
    · exact Or.inl rfl
    · exact Or.inr (hpieces piece hpiece c hc)
  have hstrip : strip (presentation u parsed pieces) = presentation u parsed pieces := by
    apply strip_eq_self
    · intro c hc
      obtain ⟨⟨d, rest, hcons, -⟩, hchars⟩ := plainScheme hscheme
      rw [presentation, written, hcons, List.cons_append, List.head?_cons] at hc
      obtain rfl := Option.some.inj hc
      have hall : ∀ s ∈ ["http".toList, "https".toList],
          (s.all fun c => decide (isSpace c = false)) = true := by decide
      exact forall_mem_of_all (hall _ hscheme) d (hcons ▸ List.mem_cons_self)
    · intro c hc
      have hlast : presentation u parsed pieces = (u.lower parsed.scheme ++ ':' :: '/' :: '/' ::
          (parsed.netloc ++ (parsed.path ++ '?' :: (['&'].intercalate pieces ++ ['#'])))) ++
            ['x'] := by
        simp [presentation, written, writtenTail]
      rw [hlast, List.getLast?_append_cons, List.getLast?_singleton] at hc
      obtain rfl := Option.some.inj hc
      decide
  have hclean : ∀ c ∈ parsed.netloc ++ (parsed.path ++ writtenTail
      (some (['&'].intercalate pieces)) (some ['x'])), isUnsafe c = false := by
    have hclean := hparts.clean
    simp only [List.forall_mem_cons] at hclean
    obtain ⟨hnetloc, hpath, hquery', -⟩ := hclean
    simp only [List.forall_mem_append, writtenTail, Option.elim_some, List.forall_mem_cons]
    refine ⟨hnetloc, hpath, ⟨by decide, ?_⟩, by decide, by decide, List.forall_mem_nil _⟩
    intro c hc
    obtain rfl | hc := hquery c hc
    · decide
    · exact hquery' c hc
  rw [hstrip, presentation, urlsplit_written (plainScheme hscheme) hparts.netloc_delims
    (hparts.path_head hne) hparts.path_delims _ hclean, hparts.brackets, hparts.check]
  · rfl
  · rintro q ⟨⟩ h
    obtain h | h := hquery _ h
    · revert h
      decide
    · exact hparts.query_delims h

theorem keptPieces_intercalate (hne : pieces ≠ [])
    (h : ∀ piece ∈ pieces, piece ∈ keptPieces u query) :
    keptPieces u (['&'].intercalate pieces) = pieces := by
  have hamp : ∀ piece ∈ pieces, '&' ∉ piece :=
    fun piece hpiece => not_mem_of_mem_splitOn (List.mem_filter.mp (h piece hpiece)).1
  rw [keptPieces, List.splitOn_intercalate '&' hamp hne, List.filter_eq_self]
  exact fun piece hpiece => (List.mem_filter.mp (h piece hpiece)).2

theorem presents_presentation (hscheme : u.lower parsed.scheme ∈ ["http".toList, "https".toList])
    (hne : pieces ≠ []) (hperm : pieces.Perm (keptPieces u parsed.query)) :
    Presents u parsed (presented u parsed pieces) where
  scheme := lower_scheme hscheme
  host := Or.inl ⟨rfl, rfl⟩
  port := Or.inl rfl
  path := rfl
  query := by
    rw [presented, keptPieces_intercalate hne fun piece hpiece => hperm.mem_iff.mp hpiece]
    exact hperm

/- A canonical URL determines its query. -/
theorem canonicalText_query {netloc path : Text}
    (h : canonicalText scheme netloc path query = canonicalText scheme netloc path query') :
    query = query' := by
  have htail := List.append_cancel_left h
  simp only [List.cons.injEq, true_and] at htail
  have htail := List.append_cancel_left (List.append_cancel_left htail)
  by_cases hquery : query = [] <;> by_cases hquery' : query' = []
  · rw [hquery, hquery']
  · simp [hquery, hquery'] at htail
  · simp [hquery, hquery'] at htail
  · simpa [hquery, hquery'] using htail

/- A canonical URL determines its parameters. -/
theorem keptParameters_of_normalized {host' : Text} {port port' : Option ℕ}
    (hs : scheme ∈ ["http".toList, "https".toList])
    (hpath : parsed.path = [] ∨ parsed.path.head? = some '/')
    (hsame : parsed'.path = parsed.path) (hhost : host' = host) (hport : port' = port)
    (h : (assembleUrl u defaultPolicy url parsed scheme host port).normalized =
      (assembleUrl u defaultPolicy url' parsed' scheme host' port').normalized) :
    keptParameters u defaultPolicy parsed.query = keptParameters u defaultPolicy parsed'.query := by
  rw [assembleUrl_normalized _ _ _ hs hpath, assembleUrl_normalized _ _ _ hs (hsame ▸ hpath), hsame,
    hhost, hport] at h
  rw [← parseQsl_urlencode (keptParameters u defaultPolicy parsed.query), canonicalText_query h,
    parseQsl_urlencode]

/-- Every presentation of the URL has the same canonical form. -/
def IgnoresPresentation (u : Unicode) (nameprep : Idna.Nameprep u) (parsed : SplitResult)
    (r : CanonicalUrl) : Prop :=
  ∀ url' parsed', urlsplit u (strip url') [] = .ok parsed' → Presents u parsed parsed' →
    ∃ r', canonicalizeUrl u nameprep defaultPolicy url' = .ok r' ∧
      r'.normalized = r.normalized ∧ r'.fingerprint = r.fingerprint

/- The parameters may then come in any order. -/
theorem keptParameters_of_presentation (hparsed : urlsplit u (strip url) [] = .ok parsed)
    (h : canonicalizeUrl u nameprep defaultPolicy url = .ok r)
    (hall : IgnoresPresentation u nameprep parsed r) (hne : pieces ≠ [])
    (hperm : pieces.Perm (keptPieces u parsed.query)) :
    keptParameters u defaultPolicy (['&'].intercalate pieces) =
      keptParameters u defaultPolicy parsed.query := by
  obtain ⟨_, host, port, hparsed₀, hscheme, hname, hhost, hport, rfl⟩ := canonicalizeUrl_ok.mp h
  obtain rfl := Except.ok.inj (hparsed.symm.trans hparsed₀)
  have hparts := urlsplit_parts hparsed
  have hnetloc := netloc_ne_nil hname
  have hchars : ∀ piece ∈ pieces, ∀ c ∈ piece, c ∈ parsed.query := by
    intro piece hpiece c hc
    have hsplit := (List.mem_filter.mp (hperm.mem_iff.mp hpiece)).1
    rw [List.splitOn_eq_splitOnP] at hsplit
    exact Idna.mem_of_mem_splitOnP hsplit hc
  have hpresented := urlsplit_presentation hparts hscheme hnetloc hchars
  obtain ⟨r', hr', hnormalized, -⟩ :=
    hall _ _ hpresented (presents_presentation hscheme hne hperm)
  obtain ⟨_, host', port', hparsed', -, -, hhost', hport', rfl⟩ := canonicalizeUrl_ok.mp hr'
  obtain rfl := Except.ok.inj (hpresented.symm.trans hparsed')
  -- host and port are read from the netloc only, which is the same
  have hhosts : host' = host := Except.ok.inj (hhost'.symm.trans hhost)
  have hports : port' = port := Except.ok.inj (hport'.symm.trans hport)
  have hlower : u.lower (presented u parsed pieces).scheme = u.lower parsed.scheme :=
    lower_scheme hscheme
  have hpath : (presented u parsed pieces).path = parsed.path := rfl
  rw [hlower] at hnormalized
  exact (keptParameters_of_normalized hscheme (hparts.path_head hnetloc) hpath hhosts hports
    hnormalized.symm).symm

/- If the order of two parameters does not matter, they are no twins. -/
theorem noTwins_of_ignoresPresentation (hparsed : urlsplit u (strip url) [] = .ok parsed)
    (h : canonicalizeUrl u nameprep defaultPolicy url = .ok r)
    (hall : IgnoresPresentation u nameprep parsed r) : NoTwins u parsed.query := by
  intro piece hpiece piece' hpiece' hkeys hvalues
  by_contra hne
  have hpieces : piece ≠ piece' := fun heq => hne (heq ▸ rfl)
  obtain ⟨rest, hrest⟩ : ∃ rest, (piece :: piece' :: rest).Perm (keptPieces u parsed.query) := by
    refine ⟨((keptPieces u parsed.query).erase piece).erase piece', ?_⟩
    have hmem : piece' ∈ (keptPieces u parsed.query).erase piece :=
      (List.mem_erase_of_ne (Ne.symm hpieces)).mpr hpiece'
    exact ((List.perm_cons_erase hpiece).trans ((List.perm_cons_erase hmem).cons piece)).symm
  have hswapped : (piece' :: piece :: rest).Perm (keptPieces u parsed.query) :=
    (List.Perm.swap piece piece' rest).trans hrest
  have hsame := (keptParameters_of_presentation hparsed h hall (List.cons_ne_nil _ _) hrest).trans
    (keptParameters_of_presentation hparsed h hall (List.cons_ne_nil _ _) hswapped).symm
  rw [keptParameters_eq, keptParameters_eq,
    keptPieces_intercalate (List.cons_ne_nil _ _) fun piece hp => hrest.mem_iff.mp hp,
    keptPieces_intercalate (List.cons_ne_nil _ _) fun piece hp => hswapped.mem_iff.mp hp] at hsame
  exact hne (congrArg Prod.fst (eq_of_insertionSort_swap hkeys hvalues hsame))

/- Another presentation has the same canonical form, unless two parameters are twins. -/
theorem identity_ignores_presentation (u : Unicode) (nameprep : Idna.Nameprep u) (url : Text)
    (parsed : SplitResult) (r : CanonicalUrl) (hparsed : urlsplit u (strip url) [] = .ok parsed)
    (h : canonicalizeUrl u nameprep defaultPolicy url = .ok r) :
    IgnoresPresentation u nameprep parsed r ↔ NoTwins u parsed.query := by
  constructor
  · exact noTwins_of_ignoresPresentation hparsed h
  · intro htwins url' parsed' hparsed' hpresents
    exact canonicalizeUrl_presents hparsed hparsed' hpresents htwins h

/-! ### Two queries -/

/-- A story with a page and a tracking parameter. -/
def sharedUrl : Text := "HTTPS://Example.COM:443/news?page=2&utm_source=x&id=42#top".toList

theorem sharedUrl_identity : ∃ parsed r,
    urlsplit asciiUnicode (strip sharedUrl) [] = .ok parsed ∧
      canonicalizeUrl asciiUnicode Idna.asciiNameprep defaultPolicy sharedUrl = .ok r ∧
        IgnoresPresentation asciiUnicode Idna.asciiNameprep parsed r := by
  have htext : normalizedText sharedUrl = some "https://example.com/news?id=42&page=2".toList := by
    decide +kernel
  obtain ⟨r, hr, -⟩ := normalizedText_some htext
  have hparsed : urlsplit asciiUnicode (strip sharedUrl) [] = .ok
      ⟨"https".toList, "Example.COM:443".toList, "/news".toList,
        "page=2&utm_source=x&id=42".toList, "top".toList⟩ := by decide +kernel
  exact ⟨_, r, hparsed, hr, (identity_ignores_presentation asciiUnicode Idna.asciiNameprep sharedUrl
    _ r hparsed hr).mpr (by decide +kernel)⟩

/- Twins keep the order of the query that they came in. -/
theorem twins_not_ignored : ¬ ∀ (u : Unicode) (nameprep : Idna.Nameprep u) (url : Text)
    (parsed : SplitResult) (r : CanonicalUrl), urlsplit u (strip url) [] = .ok parsed →
      canonicalizeUrl u nameprep defaultPolicy url = .ok r →
        IgnoresPresentation u nameprep parsed r := by
  intro hclaim
  have hfirst : normalizedText "https://example.com/?A=1&a=1".toList =
      some "https://example.com/?A=1&a=1".toList := by decide +kernel
  have hsecond : normalizedText "https://example.com/?a=1&A=1".toList =
      some "https://example.com/?a=1&A=1".toList := by decide +kernel
  have hparsed : urlsplit asciiUnicode (strip "https://example.com/?A=1&a=1".toList) [] = .ok
      ⟨"https".toList, "example.com".toList, "/".toList, "A=1&a=1".toList, []⟩ := by
    decide +kernel
  have hparsed' : urlsplit asciiUnicode (strip "https://example.com/?a=1&A=1".toList) [] = .ok
      ⟨"https".toList, "example.com".toList, "/".toList, "a=1&A=1".toList, []⟩ := by
    decide +kernel
  have hpresents : Presents asciiUnicode
      ⟨"https".toList, "example.com".toList, "/".toList, "A=1&a=1".toList, []⟩
      ⟨"https".toList, "example.com".toList, "/".toList, "a=1&A=1".toList, []⟩ :=
    ⟨rfl, Or.inl ⟨rfl, rfl⟩, Or.inl rfl, rfl, by decide +kernel⟩
  obtain ⟨r, hr, hnormalized⟩ := normalizedText_some hfirst
  obtain ⟨r₂, hr₂, hnormalized₂⟩ := normalizedText_some hsecond
  obtain ⟨r', hr', hsame, -⟩ := hclaim _ _ _ _ r hparsed hr _ _ hparsed' hpresents
  obtain rfl := Except.ok.inj (hr'.symm.trans hr₂)
  rw [hnormalized₂, hnormalized] at hsame
  revert hsame
  decide

end Newsintel.Acquisition
