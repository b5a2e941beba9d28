import Newsintel.Acquisition.CanonicalNetloc
import Newsintel.Acquisition.CanonicalPath
import Newsintel.Lib.UrlText

/-!
# When canonical URLs are fixed points

`urlsplit` of a canonical URL finds the parts it was written from, except where the
netloc does not read back. With the fixed points of the path and of the query this
gives the exact condition under which canonicalising again changes nothing.
-/

namespace Newsintel.Acquisition

open PyText PyUrl PyQuote

variable {u : Unicode} {nameprep : Idna.Nameprep u} {policy : CanonicalizationPolicy}
  {url scheme netloc path query t : Text} {c : Char}

/-! ### Acceptance -/

/-- What an accepted URL has passed. -/
theorem canonicalizeUrl_accepts {r : CanonicalUrl} :
    canonicalizeUrl u nameprep policy url = .ok r ↔
      ∃ parsed host port, urlsplit u (strip url) [] = .ok parsed ∧
        u.lower parsed.scheme ∈ ["http".toList, "https".toList] ∧
        hostname u parsed ≠ [] ∧ canonicalHost u nameprep policy.stripWww parsed = .ok host ∧
        PyUrl.port parsed = .ok port ∧
        r = assembleUrl u policy url parsed
          (if policy.forceHttps then "https".toList else u.lower parsed.scheme) host port := by
  constructor
  · intro h
    unfold canonicalizeUrl at h
    split at h
    · contradiction
    · rename_i parsed hparsed
      split at h
      · contradiction
      · rename_i hscheme
        split at h
        · contradiction
        · rename_i hname
          cases hhost : canonicalHost u nameprep policy.stripWww parsed with
          | error e => simp [hhost] at h
          | ok host =>
            cases hport : PyUrl.port parsed with
            | error e => simp [hhost, hport] at h
            | ok port =>
              simp only [hhost, hport] at h
              exact ⟨parsed, host, port, hparsed, not_not.mp hscheme, hname, hhost, hport,
                (Except.ok.inj h).symm⟩
  · rintro ⟨parsed, host, port, hparsed, hscheme, hname, hhost, hport, rfl⟩
    unfold canonicalizeUrl
    rw [hparsed]
    simp only [not_not_intro hscheme, if_false, hname]
    rw [hhost, hport]

theorem canonicalizeUrl_ok {r : CanonicalUrl} :
    canonicalizeUrl u nameprep defaultPolicy url = .ok r ↔
      ∃ parsed host port, urlsplit u (strip url) [] = .ok parsed ∧
        u.lower parsed.scheme ∈ ["http".toList, "https".toList] ∧
        hostname u parsed ≠ [] ∧ canonicalHost u nameprep false parsed = .ok host ∧
        PyUrl.port parsed = .ok port ∧
        r = assembleUrl u defaultPolicy url parsed (u.lower parsed.scheme) host port :=
  canonicalizeUrl_accepts

/- The scheme that is written is one of the two. -/
theorem canonicalizeUrl_parts {r : CanonicalUrl} (h : canonicalizeUrl u nameprep policy url = .ok r) :
    ∃ parsed scheme host port, urlsplit u (strip url) [] = .ok parsed ∧
      scheme ∈ ["http".toList, "https".toList] ∧ hostname u parsed ≠ [] ∧
      canonicalHost u nameprep policy.stripWww parsed = .ok host ∧
      r = assembleUrl u policy url parsed scheme host port := by
  obtain ⟨parsed, host, port, hparsed, hscheme, hname, hhost, -, rfl⟩ :=
    canonicalizeUrl_accepts.mp h
  refine ⟨parsed, _, host, port, hparsed, ?_, hname, hhost, rfl⟩
  split
  · decide
  · exact hscheme

/-! ### Characters of the parts -/

/-- Path and query of a canonical URL consist of these. -/
def UrlChar (c : Char) : Prop := alwaysSafe c = true ∨ c ∈ pathSafe

instance : DecidablePred UrlChar :=
  fun c => inferInstanceAs (Decidable (alwaysSafe c = true ∨ c ∈ pathSafe))

theorem urlChar_ascii (h : UrlChar c) : c.toNat < 128 := by
  obtain h | h := h
  · exact lt_of_alwaysSafe h
  · have hall : ∀ d ∈ pathSafe, d.toNat < 128 := forall_mem_of_all (by decide)
    exact hall c h

theorem urlChar_spec (h : UrlChar c) :
    c ≠ '#' ∧ c ≠ '?' ∧ isUnsafe c = false ∧ isSpace c = false := by
  exact ascii_cases (P := fun c => (alwaysSafe c = true ∨ c ∈ pathSafe) →
    c ≠ '#' ∧ c ≠ '?' ∧ isUnsafe c = false ∧ isSpace c = false) (by decide +kernel)
    (urlChar_ascii h) h

theorem urlChar_quote (hc : c ∈ quote pathSafe path) : UrlChar c := by
  obtain h | h | rfl := mem_quote hc
  · exact Or.inl h
  · exact Or.inr h
  · exact Or.inr percent_mem_pathSafe

theorem urlChar_canonicalPath (hc : c ∈ canonicalPath path) : UrlChar c := urlChar_quote hc

theorem urlChar_urlencode {q : List (Text × Text)} (hc : c ∈ urlencode q) : UrlChar c := by
  have hplus : ∀ d ∈ "&=+%".toList, d ∈ pathSafe := forall_mem_of_all (by decide)
  have hvalue : ∀ t, c ∈ quotePlus t → UrlChar c := by
    intro t h
    rcases mem_quotePlus h with h | rfl | rfl
    · exact Or.inl h
    · exact Or.inr (hplus _ (by decide))
    · exact Or.inr (hplus _ (by decide))
  rcases Idna.mem_intercalate hc with rfl | ⟨part, hpart, hc⟩
  · exact Or.inr (hplus _ (by decide))
  · obtain ⟨p, -, rfl⟩ := List.mem_map.mp hpart
    rcases List.mem_append.mp hc with h | h
    · exact hvalue _ h
    · rcases List.mem_cons.mp h with rfl | h
      · exact Or.inr (hplus _ (by decide))
      · exact hvalue _ h

/- A host name is lower-cased, its zone is not. -/
theorem mem_hostname {parsed : SplitResult} (hc : c ∈ hostname u parsed) :
    c ∈ u.lower (partition '%' (hostInfo parsed.netloc).1).1 ∨ c ∈ (hostInfo parsed.netloc).1 := by
  rw [hostname_parts, List.mem_append] at hc
  refine hc.imp_right fun hc => ?_
  rw [← partition_parts (c := '%') (t := (hostInfo parsed.netloc).1)]
  exact List.mem_append_right _ hc

/- What a host name has besides letters stands in the netloc. -/
theorem hostname_symbol {parsed : SplitResult} (hc : c ∈ hostname u parsed)
    (hascii : c.toNat < 128) (halpha : c.isAlpha = false) : c ∈ parsed.netloc := by
  apply hostInfo_subset
  obtain hc | hc := mem_hostname hc
  · exact partition_fst_sublist.subset (u.lower_symbol _ c hc hascii halpha)
  · exact hc

theorem hostname_ascii {parsed : SplitResult}
    (h : ∀ c ∈ (hostInfo parsed.netloc).1, c.toNat < 128) :
    ∀ c ∈ hostname u parsed, c.toNat < 128 := by
  intro c hc
  obtain hc | hc := mem_hostname hc
  · rw [u.lower_ascii _ fun d hd => h d (partition_fst_sublist.subset hd)] at hc
    obtain ⟨d, hd, rfl⟩ := List.mem_map.mp hc
    exact ascii_cases (P := fun d => d.toLower.toNat < 128) (by decide)
      (h d (partition_fst_sublist.subset hd))
  · exact h c hc

/-- A delimiter in a host name stands in the netloc. -/
theorem hostname_delimiter {parsed : SplitResult} (h : ∀ c ∈ parsed.netloc, endsNetloc c = false) :
    ∀ c ∈ hostname u parsed, endsNetloc c = false := by
  intro c hc
  by_contra hends
  have hsymbol : c.toNat < 128 ∧ c.isAlpha = false := by
    rw [Bool.not_eq_false] at hends
    simp only [endsNetloc, Bool.or_eq_true, beq_iff_eq] at hends
    rcases hends with (rfl | rfl) | rfl <;> decide
  exact hends (h c (hostname_symbol hc hsymbol.1 hsymbol.2))

/-- A character of a canonical netloc. -/
def NetlocChar (c : Char) : Prop := Idna.HostChar c ∧ c.toLower = c

theorem netlocChar_canonicalNetloc {parsed : SplitResult} {host : Text} {port : Option ℕ}
    {stripWww : Bool} (hnetloc : ∀ c ∈ parsed.netloc, endsNetloc c = false)
    (hcheck : checkNetloc u parsed.netloc = true)
    (hhost : canonicalHost u nameprep stripWww parsed = .ok host)
    (hc : c ∈ canonicalNetloc host port) : NetlocChar c := by
  have hname := hostname_delimiter (u := u) hnetloc
  have hhostChars : ∀ c ∈ host, NetlocChar c := by
    intro c hc
    obtain ⟨encoded, hencoded, hlower⟩ := canonicalHost_encoded hhost
    have hchars : ∀ d ∈ encoded, Idna.HostChar d := fun d hd =>
      Idna.hostChar_encode hname (fun label hl t ht => nameprep.no_delimiter parsed
        (List.all_eq_true.mpr fun e he => by simp [hnetloc e he]) hcheck label hl t ht) hencoded hd
    have hmem := hlower c hc
    rw [u.lower_ascii encoded fun d hd => (hchars d hd).1] at hmem
    obtain ⟨d, hd, rfl⟩ := List.mem_map.mp hmem
    have hd := hchars d hd
    exact ascii_cases (P := fun d => Idna.HostChar d →
      Idna.HostChar d.toLower ∧ d.toLower.toLower = d.toLower) (by decide) hd.1 hd
  rcases mem_canonicalNetloc hc with h | rfl | h
  · exact hhostChars c h
  · exact ⟨by decide, by decide⟩
  · have hascii : c.toNat < 128 := lt_of_alwaysSafe (by simp [alwaysSafe, h])
    exact ascii_cases (P := fun c => isDigit c = true → Idna.HostChar c ∧ c.toLower = c)
      (by decide) hascii h

/-! ### The text of a canonical URL -/

/-- Scheme, netloc, path and query, as they are written. -/
def canonicalText (scheme netloc path query : Text) : Text :=
  scheme ++ ':' :: '/' :: '/' :: (netloc ++ (path ++ if query ≠ [] then '?' :: query else []))

theorem urlunsplit_eq (hs : scheme ∈ ["http".toList, "https".toList])
    (hpath : path.head? = some '/') :
    urlunsplit ⟨scheme, netloc, path, query, []⟩ = canonicalText scheme netloc path query := by
  have hne : scheme ≠ [] := by
    rintro rfl
    revert hs
    decide
  have huses : scheme ∈ usesNetloc := by
    have hall : ∀ s ∈ ["http".toList, "https".toList], s ∈ usesNetloc := by decide
    exact hall scheme hs
  have hurl : (if netloc ≠ [] then
        "//".toList ++ netloc ++
          (if path ≠ [] && path.head? ≠ some '/' then '/' :: path else path)
      else if path.take 2 = "//".toList then "//".toList ++ path
      else if scheme ≠ [] && usesNetloc.contains scheme && (path = [] || path.head? = some '/') then
        "//".toList ++ path
      else path) = '/' :: '/' :: (netloc ++ path) := by
    by_cases hnetloc : netloc = []
    · rw [if_neg (not_not_intro hnetloc), hnetloc]
      simp [hne, huses, hpath]
    · rw [if_pos hnetloc]
      simp [hpath]
  unfold urlunsplit
  simp only [hurl]
  rw [if_pos hne]
  by_cases hquery : query = []
  · simp [canonicalText, hquery]
  · simp [canonicalText, hquery]

theorem strip_canonicalText (hs : scheme ∈ ["http".toList, "https".toList])
    (hpath : path.head? = some '/') (hpathChars : ∀ c ∈ path, UrlChar c)
    (hqueryChars : ∀ c ∈ query, UrlChar c) :
    strip (canonicalText scheme netloc path query) = canonicalText scheme netloc path query := by
  apply strip_eq_self
  · intro c hc
    have hall : ∀ s ∈ ["http".toList, "https".toList], s.head?.any isSpace = false := by decide
    have hfirst := hall scheme hs
    rw [canonicalText, List.head?_append_of_ne_nil] at hc
    · rw [hc, Option.any_some] at hfirst
      exact hfirst
    · rintro rfl
      revert hs
      decide
  · intro c hc
    have htail : c ∈ path ++ if query ≠ [] then '?' :: query else [] := by
      have hne : (path ++ if query ≠ [] then '?' :: query else []) ≠ [] := by
        intro hnil
        rw [(List.append_eq_nil_iff.mp hnil).1] at hpath
        contradiction
      have hsplit : canonicalText scheme netloc path query =
          (scheme ++ ':' :: '/' :: '/' :: netloc) ++
            (path ++ if query ≠ [] then '?' :: query else []) := by
        simp [canonicalText]
      rw [hsplit, List.getLast?_append_of_ne_nil _ hne] at hc
      exact List.mem_of_getLast? hc
    rcases List.mem_append.mp htail with h | h
    · exact (urlChar_spec (hpathChars c h)).2.2.2
    · split at h
      · rcases List.mem_cons.mp h with rfl | h
        · decide
        · exact (urlChar_spec (hqueryChars c h)).2.2.2
      · contradiction

theorem cleaned_canonicalText (hs : scheme ∈ ["http".toList, "https".toList])
    (hpathChars : ∀ c ∈ path, UrlChar c) (hqueryChars : ∀ c ∈ query, UrlChar c) :
    cleaned (canonicalText scheme netloc path query) =
      canonicalText scheme (netloc.filter (!isUnsafe ·)) path query := by
  have hsafe : ∀ t : Text, (∀ c ∈ t, UrlChar c) → t.filter (!isUnsafe ·) = t := by
    intro t ht
    rw [List.filter_eq_self]
    intro c hc
    simp [(urlChar_spec (ht c hc)).2.2.1]
  have hscheme : scheme.filter (!isUnsafe ·) = scheme ∧
      ∃ c rest, scheme = c :: rest ∧ isControlOrSpace c = false := by
    simp only [List.mem_cons, List.not_mem_nil, or_false] at hs
    rcases hs with rfl | rfl
    · exact ⟨by decide, _, _, rfl, by decide⟩
    · exact ⟨by decide, _, _, rfl, by decide⟩
  obtain ⟨hfilter, c, rest, hcons, hcontrol⟩ := hscheme
  have hdrop : (canonicalText scheme netloc path query).dropWhile isControlOrSpace =
      canonicalText scheme netloc path query := by
    rw [canonicalText, hcons, List.cons_append, List.dropWhile_cons_of_neg (by simp [hcontrol])]
  have htail : (if query ≠ [] then '?' :: query else []).filter (!isUnsafe ·) =
      if query ≠ [] then '?' :: query else [] := by
    split
    · rw [List.filter_cons_of_pos (by decide), hsafe query hqueryChars]
    · rfl
  unfold cleaned
  rw [hdrop, canonicalText, List.filter_append, hfilter, List.filter_cons_of_pos (by decide),
    List.filter_cons_of_pos (by decide), List.filter_cons_of_pos (by decide), List.filter_append,
    List.filter_append, hsafe path hpathChars, htail, canonicalText]

theorem plainScheme (hs : scheme ∈ ["http".toList, "https".toList]) : PlainScheme scheme := by
  simp only [List.mem_cons, List.not_mem_nil, or_false] at hs
  obtain rfl | rfl := hs
  · exact ⟨⟨_, _, rfl, by decide⟩, forall_mem_of_all (by decide)⟩
  · exact ⟨⟨_, _, rfl, by decide⟩, forall_mem_of_all (by decide)⟩

theorem canonicalText_eq : canonicalText scheme netloc path query =
    written scheme netloc path (if query ≠ [] then some query else none) none := by
  rw [canonicalText, written, writtenTail, Option.elim_none, List.append_nil]
  split <;> rfl

/-- `urlsplit` of a canonical URL finds its parts, the netloc without unsafe bytes. -/
theorem urlsplit_canonicalText (hs : scheme ∈ ["http".toList, "https".toList])
    (hnetloc : ∀ c ∈ netloc, Idna.HostChar c) (hpath : path.head? = some '/')
    (hpathChars : ∀ c ∈ path, UrlChar c) (hqueryChars : ∀ c ∈ query, UrlChar c) :
    urlsplit u (strip (canonicalText scheme netloc path query)) [] =
      if bracketsValid (netloc.filter (!isUnsafe ·)) then
        .ok ⟨scheme, netloc.filter (!isUnsafe ·), path, query, []⟩
      else .error .valueError := by
  have hsub : ∀ c ∈ netloc.filter (!isUnsafe ·), Idna.HostChar c :=
    fun c hc => hnetloc c (List.mem_filter.mp hc).1
  have hcheck : checkNetloc u (netloc.filter (!isUnsafe ·)) = true := by
    unfold checkNetloc
    rw [if_pos]
    exact List.all_eq_true.mpr fun c hc => decide_eq_true (hsub c hc).1
  have hcleaned : urlsplit u (canonicalText scheme netloc path query) [] =
      urlsplit u (canonicalText scheme (netloc.filter (!isUnsafe ·)) path query) [] := by
    unfold urlsplit
    rw [cleaned_canonicalText hs hpathChars hqueryChars,
      cleaned_canonicalText hs hpathChars hqueryChars, List.filter_filter]
    simp only [Bool.and_self]
  have hclean : ∀ c ∈ netloc.filter (!isUnsafe ·) ++ (path ++ writtenTail
      (if query ≠ [] then some query else none) none), isUnsafe c = false := by
    intro c hc
    obtain hc | hc := List.mem_append.mp hc
    · simpa using (List.mem_filter.mp hc).2
    · obtain hc | hc := List.mem_append.mp hc
      · exact (urlChar_spec (hpathChars c hc)).2.2.1
      · rw [writtenTail, Option.elim_none, List.append_nil] at hc
        split at hc
        · obtain rfl | hc := List.mem_cons.mp hc
          · decide
          · exact (urlChar_spec (hqueryChars c hc)).2.2.1
        · cases hc
  have hquery : ∀ q ∈ (if query ≠ [] then some query else none), '#' ∉ q := by
    intro q hq h
    split at hq
    · obtain rfl := Option.some.inj hq
      exact (urlChar_spec (hqueryChars _ h)).1 rfl
    · cases hq
  have hdefault : (if query ≠ [] then some query else none).getD [] = query := by
    by_cases hnil : query = []
    · rw [hnil]
      rfl
    · rw [if_pos hnil, Option.getD_some]
  rw [strip_canonicalText hs hpath hpathChars hqueryChars, hcleaned, canonicalText_eq,
    urlsplit_written (plainScheme hs) (fun c hc => (hsub c hc).2) (Or.inr hpath)
      (fun c hc => ⟨(urlChar_spec (hpathChars c hc)).2.1, (urlChar_spec (hpathChars c hc)).1⟩)
      hquery hclean, hcheck, Bool.and_true, hdefault, Option.getD_none]

/- The text determines its netloc and its path. -/
theorem canonicalText_inj {netloc' path' : Text} (hnetloc : ∀ c ∈ netloc, endsNetloc c = false)
    (hnetloc' : ∀ c ∈ netloc', endsNetloc c = false) (hpath : path.head? = some '/')
    (hpath' : path'.head? = some '/')
    (h : canonicalText scheme netloc path query = canonicalText scheme netloc' path' query) :
    netloc = netloc' ∧ path = path' := by
  have hrest := List.append_cancel_left h
  simp only [List.cons.injEq, true_and] at hrest
  have hsplit := congrArg (fun t => splitNetloc ('/' :: '/' :: t)) hrest
  have hends : ∀ path : Text, path.head? = some '/' → ∀ rest, ∀ c ∈ (path ++ rest).head?,
      endsNetloc c = true := by
    intro path hpath rest
    obtain ⟨tail, rfl⟩ := List.head?_eq_some_iff.mp hpath
    rintro c ⟨⟩
    decide
  simp only [splitNetloc_written hnetloc (hends path hpath _),
    splitNetloc_written hnetloc' (hends path' hpath' _), Prod.mk.injEq] at hsplit
  exact ⟨hsplit.1, List.append_cancel_right hsplit.2⟩

/-! ### Fixed points -/

/-- Canonicalising the canonical URL again is accepted and changes nothing. -/
def Stable (u : Unicode) (nameprep : Idna.Nameprep u) (r : CanonicalUrl) : Prop :=
  ∃ r', canonicalizeUrl u nameprep defaultPolicy r.normalized = .ok r' ∧
    r'.normalized = r.normalized ∧ r'.fingerprint = r.fingerprint

/-- `normpath` leaves more of the path than two slashes, and what the `idna` codec
makes of the host is plain. -/
def KeepsForm (u : Unicode) (nameprep : Idna.Nameprep u) (url : Text) : Prop :=
  ∃ parsed host port, urlsplit u (strip url) [] = .ok parsed ∧
    canonicalHost u nameprep false parsed = .ok host ∧ PyUrl.port parsed = .ok port ∧
    PosixPath.normpath (rawPath parsed.path) ≠ ['/', '/'] ∧
    ReadsBack (u.lower parsed.scheme) (canonicalNetloc host (keptPort (u.lower parsed.scheme) port))

theorem lower_scheme (hs : scheme ∈ ["http".toList, "https".toList]) : u.lower scheme = scheme := by
  have hall : ∀ s ∈ ["http".toList, "https".toList],
      (s.all fun c => decide (c.toNat < 128 ∧ c.toLower = c)) = true := by decide
  exact lower_eq_self (forall_mem_of_all (hall scheme hs))

theorem netloc_ne_nil {parsed : SplitResult} (h : hostname u parsed ≠ []) :
    parsed.netloc ≠ [] := by
  intro hnil
  apply h
  rw [hostname_eq] <;> rw [hnil]
  · rfl
  · intro c hc
    contradiction

/- The text written from an accepted URL, and what is known of its parts. -/
theorem assembleUrl_normalized {parsed : SplitResult} (url host : Text) (port : Option ℕ)
    (hs : scheme ∈ ["http".toList, "https".toList])
    (hpath : parsed.path = [] ∨ parsed.path.head? = some '/') :
    (assembleUrl u policy url parsed scheme host port).normalized =
      canonicalText scheme (canonicalNetloc host (keptPort scheme port))
        (canonicalPath parsed.path)
        (urlencode (keptParameters u policy parsed.query)) :=
  urlunsplit_eq hs (canonicalPath_head hpath)

/- What `urlsplit` finds in the text written from an accepted URL. -/
theorem urlsplit_assembled {parsed : SplitResult} {host : Text} {stripWww : Bool}
    (hparsed : urlsplit u (strip url) [] = .ok parsed)
    (hs : scheme ∈ ["http".toList, "https".toList]) (hname : hostname u parsed ≠ [])
    (hhost : canonicalHost u nameprep stripWww parsed = .ok host) (port : Option ℕ) :
    urlsplit u (assembleUrl u policy url parsed scheme host port).normalized [] =
      if bracketsValid ((canonicalNetloc host (keptPort scheme port)).filter (!isUnsafe ·)) then
        .ok ⟨scheme, (canonicalNetloc host (keptPort scheme port)).filter (!isUnsafe ·),
          canonicalPath parsed.path, urlencode (keptParameters u policy parsed.query), []⟩
      else .error .valueError := by
  have hparts := urlsplit_parts hparsed
  have hpath := hparts.path_head (netloc_ne_nil hname)
  have hchars : ∀ c ∈ canonicalNetloc host (keptPort scheme port), Idna.HostChar c :=
    fun c hc => (netlocChar_canonicalNetloc hparts.netloc_delims hparts.check hhost hc).1
  have hquery : ∀ c ∈ urlencode (keptParameters u policy parsed.query), UrlChar c :=
    fun c hc => urlChar_urlencode hc
  have hhead := canonicalPath_head hpath
  rw [assembleUrl_normalized url host port hs hpath,
    ← strip_canonicalText hs hhead (fun c => urlChar_canonicalPath) hquery]
  exact urlsplit_canonicalText hs hchars hhead (fun c => urlChar_canonicalPath) hquery

theorem assembleUrl_fingerprint {parsed : SplitResult} {host : Text} {port : Option ℕ} :
    (assembleUrl u policy url parsed scheme host port).fingerprint =
      Sha256.ofText (assembleUrl u policy url parsed scheme host port).normalized := rfl

/-- Exact condition for the canonical form of an accepted URL to be a fixed point. -/
theorem stable_iff_keepsForm {r : CanonicalUrl}
    (h : canonicalizeUrl u nameprep defaultPolicy url = .ok r) :
    Stable u nameprep r ↔ KeepsForm u nameprep url := by
  obtain ⟨parsed, host, port, hparsed, hs, hname, hhost, hport, rfl⟩ := canonicalizeUrl_ok.mp h
  have hparts := urlsplit_parts hparsed
  have hpath := hparts.path_head (netloc_ne_nil hname)
  generalize hscheme : u.lower parsed.scheme = scheme at *
  have htext : (assembleUrl u defaultPolicy url parsed scheme host port).normalized = _ :=
    assembleUrl_normalized url host port hs hpath
  generalize hN : canonicalNetloc host (keptPort scheme port) = netloc at *
  have hchars : ∀ c ∈ netloc, NetlocChar c := by
    intro c hc
    rw [← hN] at hc
    exact netlocChar_canonicalNetloc hparts.netloc_delims hparts.check hhost hc
  have hhead := canonicalPath_head hpath
  have hsplit := urlsplit_canonicalText (u := u) hs (fun c hc => (hchars c hc).1) hhead
    (fun c => urlChar_canonicalPath)
    (fun c (hc : c ∈ urlencode (keptParameters u defaultPolicy parsed.query)) => urlChar_urlencode hc)
  have hread := readsBack_iff nameprep scheme (u := u)
    (r := ⟨scheme, netloc.filter (!isUnsafe ·), canonicalPath parsed.path,
      urlencode (keptParameters u defaultPolicy parsed.query), []⟩)
    (fun c hc => (hchars c hc).1.1) (fun c hc => (hchars c hc).2) rfl
  have hkeeps : KeepsForm u nameprep url ↔
      PosixPath.normpath (rawPath parsed.path) ≠ ['/', '/'] ∧ ReadsBack scheme netloc := by
    constructor
    · rintro ⟨parsed', host', port', hp, hh, hq, hform⟩
      obtain rfl := Except.ok.inj (hparsed.symm.trans hp)
      obtain rfl := Except.ok.inj (hhost.symm.trans hh)
      obtain rfl := Except.ok.inj (hport.symm.trans hq)
      rwa [hscheme, hN] at hform
    · intro hform
      refine ⟨parsed, host, port, hparsed, hhost, hport, ?_⟩
      rwa [hscheme, hN]
  rw [hkeeps, ← canonicalPath_idem_iff hpath, ← hread]
  constructor
  · rintro ⟨r', hr', hsame, -⟩
    obtain ⟨parsed', host', port', hparsed', -, hname', hhost', hport', rfl⟩ :=
      canonicalizeUrl_ok.mp hr'
    have hparts' := urlsplit_parts hparsed'
    rw [htext, hsplit] at hparsed'
    split at hparsed'
    · rename_i hvalid
      obtain rfl := Except.ok.inj hparsed'
      rw [lower_scheme hs, htext, assembleUrl_normalized _ _ _ hs (Or.inr hhead),
        keptParameters_urlencode] at hsame
      have hchars' : ∀ c ∈ canonicalNetloc host' (keptPort scheme port'), NetlocChar c :=
        fun c hc => netlocChar_canonicalNetloc hparts'.netloc_delims hparts'.check hhost' hc
      obtain ⟨hnetloc, hpath'⟩ := canonicalText_inj (fun c hc => (hchars' c hc).1.2)
        (fun c hc => (hchars c hc).1.2) (canonicalPath_head (Or.inr hhead)) hhead hsame
      exact ⟨hpath', hvalid, hname', host', port', hhost', hport', hnetloc⟩
    · cases hparsed'
  · rintro ⟨hpath', hvalid, hname', host', port', hhost', hport', hnetloc⟩
    rw [if_pos hvalid] at hsplit
    have hnormalized : (assembleUrl u defaultPolicy
        (assembleUrl u defaultPolicy url parsed scheme host port).normalized
        ⟨scheme, netloc.filter (!isUnsafe ·), canonicalPath parsed.path,
          urlencode (keptParameters u defaultPolicy parsed.query), []⟩
        scheme host' port').normalized =
        (assembleUrl u defaultPolicy url parsed scheme host port).normalized := by
      rw [assembleUrl_normalized _ _ _ hs (Or.inr hhead), hnetloc, hpath', keptParameters_urlencode,
        htext]
    have haccepted := canonicalizeUrl_ok.mpr ⟨_, host', port', htext ▸ hsplit,
      (lower_scheme hs).symm ▸ hs, hname', hhost', hport', rfl⟩
    rw [lower_scheme hs] at haccepted
    refine ⟨_, haccepted, hnormalized, ?_⟩
    rw [assembleUrl_fingerprint, assembleUrl_fingerprint, hnormalized]

/-- The text that a URL is normalised to. -/
def normalizedText (url : Text) : Option Text :=
  (canonicalizeUrl asciiUnicode Idna.asciiNameprep defaultPolicy url).toOption.map (·.normalized)

theorem normalizedText_some (h : normalizedText url = some t) :
    ∃ r, canonicalizeUrl asciiUnicode Idna.asciiNameprep defaultPolicy url = .ok r ∧
      r.normalized = t := by
  unfold normalizedText at h
  cases hr : canonicalizeUrl asciiUnicode Idna.asciiNameprep defaultPolicy url with
  | error e =>
    rw [hr] at h
    cases h
  | ok r =>
    rw [hr] at h
    exact ⟨r, rfl, Option.some.inj h⟩

theorem newsStory_keepsForm : ∃ r,
    canonicalizeUrl asciiUnicode Idna.asciiNameprep defaultPolicy
        "HTTPS://WWW.Example.com:443/news/../news/story/?utm_source=x&id=42#comments".toList =
      .ok r ∧ r.normalized = "https://www.example.com/news/story/?id=42".toList ∧
      (Stable asciiUnicode Idna.asciiNameprep r ↔ KeepsForm asciiUnicode Idna.asciiNameprep
        "HTTPS://WWW.Example.com:443/news/../news/story/?utm_source=x&id=42#comments".toList) := by
  have htext : normalizedText
      "HTTPS://WWW.Example.com:443/news/../news/story/?utm_source=x&id=42#comments".toList =
        some "https://www.example.com/news/story/?id=42".toList := by decide +kernel
  obtain ⟨r, hr, hnormalized⟩ := normalizedText_some htext
  exact ⟨r, hr, hnormalized, stable_iff_keepsForm hr⟩

/- Two slashes become three, and three become one. -/
theorem doubleSlash_not_stable :
    ¬ ∀ (u : Unicode) (nameprep : Idna.Nameprep u) (url : Text) (r : CanonicalUrl),
      canonicalizeUrl u nameprep defaultPolicy url = .ok r → Stable u nameprep r := by
  intro h
  have hfirst : normalizedText "http://example.com//".toList =
      some "http://example.com///".toList := by decide +kernel
  have hsecond : normalizedText "http://example.com///".toList =
      some "http://example.com/".toList := by decide +kernel
  obtain ⟨r, hr, hnormalized⟩ := normalizedText_some hfirst
  obtain ⟨r', hr', hsame, -⟩ := h _ _ _ r hr
  obtain ⟨r'', hr'', hnormalized''⟩ := normalizedText_some hsecond
  rw [hnormalized] at hr' hsame
  obtain rfl := Except.ok.inj (hr'.symm.trans hr'')
  rw [hnormalized''] at hsame
  revert hsame
  decide

end Newsintel.Acquisition
