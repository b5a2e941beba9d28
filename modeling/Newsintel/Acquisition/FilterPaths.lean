import Newsintel.Acquisition.ArticleFilter
import Newsintel.Acquisition.CanonicalForm

/-!
# What the admission filter reads of a path

The filter decides by the segments of a path in lower case and by the text between its outer
slashes. A canonical path is read through the components that are left when dots are resolved.
-/

namespace Newsintel.Acquisition

open PyText PyQuote PosixPath

/-- `_has_excluded_segment`, of a path. -/
def excludedPath (u : Unicode) (path : Text) : Bool :=
  (pathSegments path).any fun segment => excludedSegments.contains (u.lower segment)

/-- `looks_like_article_url`, of a path without excluded segments. -/
def articlePath (u : Unicode) (path : Text) : Bool :=
  let path := stripSlashes (u.lower path)
  let slashed := '/' :: path ++ ['/']
  path ≠ [] && !fileSuffixes.any (·.isSuffixOf path) && pathSegments path ≠ [] &&
    (Regex.search articleSlugPattern ((pathSegments path).getLastD []) ||
      Regex.search (datePathPattern u) slashed ||
      (Regex.search articleHintPattern slashed && 2 ≤ (pathSegments path).length))

/-- Why a path is rejected, if it is. -/
def pathRejection (u : Unicode) (path : Text) : Option UrlRejectionReason :=
  if excludedPath u path then some .excludedSection
  else if articlePath u path then none
  else some .nonArticlePath

/-- The segments of the canonical path, lower-cased: dots resolved, empty ones left out, and
characters escaped. -/
def canonicalSegments (path : Text) : List Text :=
  (components (rawPath path)).map fun comp => (quote pathSafe comp).map Char.toLower

/-- Why lower-case segments are rejected, if they are. -/
def segmentsRejection (u : Unicode) (segments : List Text) : Option UrlRejectionReason :=
  let joined := ['/'].intercalate segments
  let slashed := '/' :: joined ++ ['/']
  if segments.any excludedSegments.contains then some .excludedSection
  else if segments ≠ [] && !fileSuffixes.any (·.isSuffixOf joined) &&
      (Regex.search articleSlugPattern (segments.getLastD []) ||
        Regex.search (datePathPattern u) slashed ||
        (Regex.search articleHintPattern slashed && 2 ≤ segments.length)) then none
  else some .nonArticlePath

/-- Components between slashes, with slashes before and behind them. -/
def framed (front : ℕ) (comps : List Text) (back : ℕ) : Text :=
  List.replicate front '/' ++ ['/'].intercalate comps ++ List.replicate back '/'

/-- Nothing between the outer slashes is rewritten: single slashes between components that are
neither empty nor dots, of characters that are not escaped. -/
def PlainPath (path : Text) : Prop :=
  ∃ front comps back, (∀ comp ∈ comps, PlainComponent comp ∧ ∀ c ∈ comp, UrlChar c) ∧
    path = framed front comps back

/-- A component of an excluded section is left when the dots are resolved. -/
def KeepsExcluded (path : Text) : Prop :=
  ∃ comp ∈ components (rawPath path), comp.map Char.toLower ∈ excludedSegments

variable {u : Unicode} {path comp s t : Text} {comps : List Text} {front back : ℕ} {c : Char}

/-! ### Segments -/

theorem pathSegments_append_slash (s t : Text) :
    pathSegments (s ++ '/' :: t) = pathSegments s ++ pathSegments t := by
  rw [pathSegments, List.splitOn_append_cons_self, List.filter_append]
  rfl

theorem pathSegments_slash_cons (t : Text) : pathSegments ('/' :: t) = pathSegments t :=
  pathSegments_append_slash [] t

theorem pathSegments_intercalate (h : ∀ c ∈ comps, PlainComponent c) :
    pathSegments (['/'].intercalate comps) = comps := by
  by_cases hne : comps = []
  · subst hne
    decide
  · rw [pathSegments, List.splitOn_intercalate '/' (fun c hc => (h c hc).no_slash) hne,
      List.filter_eq_self]
    exact fun c hc => decide_eq_true (h c hc).ne_nil

theorem pathSegments_framed (h : ∀ c ∈ comps, PlainComponent c) :
    pathSegments (framed front comps back) = comps := by
  have hfront : ∀ n t, pathSegments (List.replicate n '/' ++ t) = pathSegments t := by
    intro n t
    induction n with
    | zero => rfl
    | succ n ih => rw [List.replicate_succ, List.cons_append, pathSegments_slash_cons, ih]
  have hback : ∀ n t, pathSegments (t ++ List.replicate n '/') = pathSegments t := by
    intro n t
    induction n with
    | zero => rw [List.replicate_zero, List.append_nil]
    | succ n ih =>
      have hslashes : pathSegments (List.replicate n '/') = [] := by
        rw [← List.append_nil (List.replicate n '/'), hfront]
        rfl
      rw [List.replicate_succ, pathSegments_append_slash, hslashes, List.append_nil]
  rw [framed, hback, hfront, pathSegments_intercalate h]

theorem stripSlashes_framed (h : ∀ c ∈ comps, PlainComponent c) :
    stripSlashes (framed front comps back) = ['/'].intercalate comps := by
  have hslashes : ∀ n : ℕ, ∀ c ∈ List.replicate n '/', decide (c = '/') = true :=
    fun n c hc => decide_eq_true (List.eq_of_mem_replicate hc)
  by_cases hne : comps = []
  · subst hne
    rw [stripSlashes, framed, List.intercalate_nil, List.append_nil, ← List.replicate_add,
      List.dropWhile_eq_nil_iff.mpr (hslashes _)]
    rfl
  · obtain ⟨c, rest, hhead, hc⟩ := intercalate_head hne h
    obtain ⟨init, d, hlast, hd⟩ := intercalate_last hne h
    have hfront (t : Text) : (['/'].intercalate comps ++ t).dropWhile (· = '/') =
        ['/'].intercalate comps ++ t := by
      rw [hhead, List.cons_append, List.dropWhile_cons_of_neg (by simpa using hc)]
    have hback : (['/'].intercalate comps).reverse.dropWhile (· = '/') =
        (['/'].intercalate comps).reverse := by
      rw [hlast, List.reverse_append, List.reverse_singleton, List.singleton_append,
        List.dropWhile_cons_of_neg (by simpa using hd)]
    rw [stripSlashes, framed, List.append_assoc, List.dropWhile_append_of_pos (hslashes _),
      hfront, List.reverse_append, List.reverse_replicate,
      List.dropWhile_append_of_pos (hslashes _), hback, List.reverse_reverse]

/-! ### Lower case -/

/- A text of symbols is the lower-case form of itself only. -/
theorem eq_of_lower {t : Text} (h : comp.map Char.toLower = t) (ht : ∀ c ∈ t, c.isAlpha = false) :
    comp = t := by
  rw [← h]
  exact (map_toLower_eq_self fun c hc =>
    toLower_symbol (ht _ (h ▸ List.mem_map_of_mem hc))).symm

theorem slash_mem_lower : '/' ∈ comp.map Char.toLower ↔ '/' ∈ comp := by
  constructor
  · intro hslash
    obtain ⟨c, hc, hlower⟩ := List.mem_map.mp hslash
    have hself := toLower_symbol (c := c) (by rw [hlower]; decide)
    rw [← hlower, hself]
    exact hc
  · exact fun hslash => List.mem_map.mpr ⟨'/', hslash, by decide⟩

/- Neither dots nor slashes have two cases. -/
theorem plainComponent_lower_iff : PlainComponent (comp.map Char.toLower) ↔ PlainComponent comp := by
  constructor
  · intro h
    exact ⟨fun hnil => h.ne_nil (by rw [hnil]; rfl), fun hdot => h.ne_dot (by rw [hdot]; decide),
      fun hdots => h.ne_dots (by rw [hdots]; decide),
      fun hslash => h.no_slash (slash_mem_lower.mpr hslash)⟩
  · intro h
    exact ⟨fun hnil => h.ne_nil (List.map_eq_nil_iff.mp hnil),
      fun hdot => h.ne_dot (eq_of_lower hdot (forall_mem_of_all (by decide))),
      fun hdots => h.ne_dots (eq_of_lower hdots (forall_mem_of_all (by decide))),
      fun hslash => h.no_slash (slash_mem_lower.mp hslash)⟩

theorem lower_intercalate (comps : List Text) : (['/'].intercalate comps).map Char.toLower =
    ['/'].intercalate (comps.map (·.map Char.toLower)) := by
  have hslash : ['/'].map Char.toLower = ['/'] := by decide
  induction comps with
  | nil => rfl
  | cons c comps ih =>
    cases comps with
    | nil => simp
    | cons d comps =>
      simp only [List.intercalate_cons_cons, List.map_append, ih, hslash, List.map_cons]

theorem lower_framed : (framed front comps back).map Char.toLower =
    framed front (comps.map (·.map Char.toLower)) back := by
  have hslash : '/'.toLower = '/' := by decide
  rw [framed, List.map_append, List.map_append, List.map_replicate, List.map_replicate, hslash,
    lower_intercalate, framed]

theorem framed_ascii (h : ∀ comp ∈ comps, ∀ c ∈ comp, UrlChar c) :
    ∀ c ∈ framed front comps back, c.toNat < 128 := by
  intro c hc
  rw [framed, List.mem_append, List.mem_append] at hc
  obtain (hc | hc) | hc := hc
  · rw [List.eq_of_mem_replicate hc]
    decide
  · obtain rfl | ⟨comp, hcomp, hc⟩ := Idna.mem_intercalate hc
    · decide
    · exact urlChar_ascii (h comp hcomp c hc)
  · rw [List.eq_of_mem_replicate hc]
    decide

/-! ### Decisions on components -/

/- What is decided by a path of plain components. -/
theorem pathRejection_framed (h : ∀ comp ∈ comps, PlainComponent comp ∧ ∀ c ∈ comp, UrlChar c) :
    pathRejection u (framed front comps back) =
      segmentsRejection u (comps.map (·.map Char.toLower)) := by
  have hplain : ∀ comp ∈ comps, PlainComponent comp := fun comp hcomp => (h comp hcomp).1
  have hletters : ∀ comp ∈ comps, u.lower comp = comp.map Char.toLower :=
    fun comp hcomp => u.lower_ascii _ fun c hc => urlChar_ascii ((h comp hcomp).2 c hc)
  have hlower : ∀ c ∈ comps.map (·.map Char.toLower), PlainComponent c := by
    intro c hc
    obtain ⟨comp, hcomp, rfl⟩ := List.mem_map.mp hc
    exact plainComponent_lower_iff.mpr (hplain comp hcomp)
  have hexcluded : excludedPath u (framed front comps back) =
      (comps.map (·.map Char.toLower)).any excludedSegments.contains := by
    rw [excludedPath, pathSegments_framed hplain, ← List.map_congr_left hletters, List.any_map]
    rfl
  have harticle : stripSlashes (u.lower (framed front comps back)) =
      ['/'].intercalate (comps.map (·.map Char.toLower)) := by
    rw [u.lower_ascii _ (framed_ascii fun comp hcomp => (h comp hcomp).2), lower_framed,
      stripSlashes_framed hlower]
  rw [pathRejection, hexcluded, articlePath, harticle, pathSegments_intercalate hlower,
    segmentsRejection]
  by_cases hnil : comps.map (·.map Char.toLower) = []
  · rw [hnil]
    rfl
  · obtain ⟨c, rest, hjoined, -⟩ := intercalate_head hnil hlower
    have hjoined : ['/'].intercalate (comps.map (·.map Char.toLower)) ≠ [] := by
      rw [hjoined]
      exact List.cons_ne_nil _ _
    simp only [ne_eq, hnil, hjoined, not_false_eq_true, decide_true, Bool.true_and, Bool.and_true]

theorem slashed_eq_framed (slashes : ℕ) (comps : List Text) (trailing : Bool) :
    slashed slashes comps trailing = framed slashes comps (if trailing then 1 else 0) := by
  cases trailing <;> rfl

theorem canonicalPath_framed (h : path = [] ∨ path.head? = some '/') :
    canonicalPath path = framed (initialSlashes (rawPath path))
      ((components (rawPath path)).map (quote pathSafe)) (if restoresSlash path then 1 else 0) := by
  rw [canonicalPath_eq h, quote_slashed, slashed_eq_framed]

theorem quoted_plain (h : path = [] ∨ path.head? = some '/') :
    ∀ comp ∈ (components (rawPath path)).map (quote pathSafe),
      PlainComponent comp ∧ ∀ c ∈ comp, UrlChar c := by
  have hs := initialSlashes_pos (rawPath_head h)
  intro c hc
  obtain ⟨comp, hcomp, rfl⟩ := List.mem_map.mp hc
  exact ⟨plainComponent_quote (plain_components (by omega) comp hcomp), fun d => urlChar_quote⟩

/- What is decided by a canonical path, in terms of its segments. -/
theorem pathRejection_canonicalPath (h : path = [] ∨ path.head? = some '/') :
    pathRejection u (canonicalPath path) = segmentsRejection u (canonicalSegments path) := by
  rw [canonicalPath_framed h, pathRejection_framed (quoted_plain h), List.map_map]
  rfl

/-! ### Plain paths -/

theorem pathSegments_rawPath (path : Text) : pathSegments (rawPath path) = pathSegments path := by
  unfold rawPath
  split
  · rename_i hnil
    rw [hnil]
    decide
  · rfl

theorem components_rawPath (h : path = [] ∨ path.head? = some '/')
    (hplain : ∀ comp ∈ pathSegments path, PlainComponent comp) :
    components (rawPath path) = pathSegments path := by
  have hs := initialSlashes_pos (rawPath_head h)
  rw [← pathSegments_rawPath] at hplain ⊢
  exact components_eq_filter (by omega) hplain

theorem canonicalSegments_framed
    (h : framed front comps back = [] ∨ (framed front comps back).head? = some '/')
    (hcomps : ∀ comp ∈ comps, PlainComponent comp ∧ ∀ c ∈ comp, UrlChar c) :
    canonicalSegments (framed front comps back) = comps.map (·.map Char.toLower) := by
  have hplain : ∀ comp ∈ comps, PlainComponent comp := fun comp hcomp => (hcomps comp hcomp).1
  have hsegments : pathSegments (framed front comps back) = comps := pathSegments_framed hplain
  rw [canonicalSegments, components_rawPath h (by rw [hsegments]; exact hplain), hsegments]
  exact List.map_congr_left fun comp hcomp => by rw [quote_eq_self (hcomps comp hcomp).2]

/- The canonical path of a plain path is rejected for the same reason. -/
theorem pathRejection_plain (h : path = [] ∨ path.head? = some '/') (hpath : PlainPath path) :
    segmentsRejection u (canonicalSegments path) = pathRejection u path := by
  obtain ⟨front, comps, back, hcomps, rfl⟩ := hpath
  rw [canonicalSegments_framed h hcomps, pathRejection_framed hcomps]

/-! ### Excluded segments -/

theorem excludedSegments_spec : ∀ s ∈ excludedSegments, s ≠ [] ∧ ∀ c ∈ s, UrlChar c ∧ c ≠ '%' := by
  have hall : (excludedSegments.all fun s =>
      decide (s ≠ []) && s.all fun c => decide (UrlChar c ∧ c ≠ '%')) = true := by decide +kernel
  intro s hs
  have hparts := List.all_eq_true.mp hall s hs
  rw [Bool.and_eq_true, decide_eq_true_eq] at hparts
  exact ⟨hparts.1, forall_mem_of_all hparts.2⟩

theorem urlChar_of_lower (h : UrlChar c.toLower) : UrlChar c := by
  by_cases hc : c.toNat < 128
  · exact ascii_cases (P := fun c => UrlChar c.toLower → UrlChar c) (by decide +kernel) hc h
  · rw [toLower_of_not_ascii hc] at h
    exact h

theorem urlChar_of_excluded (h : comp.map Char.toLower ∈ excludedSegments) :
    ∀ c ∈ comp, UrlChar c :=
  fun _ hc => urlChar_of_lower ((excludedSegments_spec _ h).2 _ (List.mem_map_of_mem hc)).1

/- An escape makes no segment excluded, as it leaves a percent sign. -/
theorem quote_excluded_iff : (quote pathSafe comp).map Char.toLower ∈ excludedSegments ↔
    comp.map Char.toLower ∈ excludedSegments := by
  constructor
  · intro h
    have hpercent : '%' ∉ quote pathSafe comp := by
      intro hmem
      have hlower : '%' ∈ (quote pathSafe comp).map Char.toLower :=
        List.mem_map.mpr ⟨'%', hmem, by decide⟩
      exact ((excludedSegments_spec _ h).2 _ hlower).2 rfl
    rw [quote_eq_self_of_noPercent hpercent] at h
    exact h
  · intro h
    rw [quote_eq_self (urlChar_of_excluded h)]
    exact h

theorem segmentsRejection_excluded_iff :
    segmentsRejection u (canonicalSegments path) = some .excludedSection ↔ KeepsExcluded path := by
  have hany : (canonicalSegments path).any excludedSegments.contains = true ↔
      KeepsExcluded path := by
    simp only [canonicalSegments, List.any_map, List.any_eq_true, Function.comp_apply,
      List.contains_iff_mem, quote_excluded_iff, KeepsExcluded]
  rw [← hany, segmentsRejection]
  split
  · rename_i h
    exact iff_of_true rfl h
  · rename_i h
    refine iff_of_false ?_ h
    split <;> simp

theorem pathRejection_excluded_iff :
    pathRejection u path = some .excludedSection ↔ excludedPath u path = true := by
  rw [pathRejection]
  cases excludedPath u path with
  | true => exact iff_of_true rfl rfl
  | false => cases articlePath u path <;> simp

/- Dots take components away, they add none. -/
theorem excludedPath_of_keepsExcluded (h : KeepsExcluded path) : excludedPath u path = true := by
  obtain ⟨comp, hcomp, hmem⟩ := h
  have hne : comp ≠ [] := by
    rintro rfl
    exact (excludedSegments_spec _ hmem).1 rfl
  have hsegment : comp ∈ pathSegments path := by
    rw [← pathSegments_rawPath]
    exact List.mem_filter.mpr ⟨mem_components hcomp, decide_eq_true hne⟩
  rw [excludedPath, List.any_eq_true]
  refine ⟨comp, hsegment, ?_⟩
  rw [List.contains_iff_mem,
    u.lower_ascii _ fun c hc => urlChar_ascii (urlChar_of_excluded hmem c hc)]
  exact hmem

/-! ### What is rewritten -/

theorem lower_stripSlashes (t : Text) :
    stripSlashes (t.map Char.toLower) = (stripSlashes t).map Char.toLower := by
  have hslash : (fun c => decide (c = '/')) ∘ Char.toLower = fun c => decide (c = '/') := by
    funext c
    have hself : '/'.toLower = '/' := by decide
    refine decide_eq_decide.mpr ⟨fun h => ?_, fun h => by rw [h]; exact hself⟩
    rw [← toLower_symbol (c := c) (by rw [h]; decide)]
    exact h
  rw [stripSlashes, List.dropWhile_map, hslash, ← List.map_reverse, List.dropWhile_map, hslash,
    ← List.map_reverse, stripSlashes]

theorem exists_slashes_around (t : Text) : ∃ front back,
    t = List.replicate front '/' ++ stripSlashes t ++ List.replicate back '/' := by
  obtain ⟨before, after, hbefore, hafter, ht⟩ := exists_around (· = '/') t
  have hfront := List.eq_replicate_of_mem fun c hc => of_decide_eq_true (hbefore c hc)
  have hback := List.eq_replicate_of_mem fun c hc => of_decide_eq_true (hafter c hc)
  refine ⟨before.length, after.length, ?_⟩
  rw [← hfront, ← hback]
  exact ht

/- For an ASCII path, being plain is that the filter reads the same text from its canonical form. -/
theorem plainPath_iff (h : path = [] ∨ path.head? = some '/') (hascii : ∀ c ∈ path, c.toNat < 128) :
    PlainPath path ↔
      stripSlashes (u.lower (canonicalPath path)) = stripSlashes (u.lower path) := by
  have hquoted := quoted_plain h
  have hcanonical : stripSlashes (u.lower (canonicalPath path)) =
      ['/'].intercalate (canonicalSegments path) := by
    rw [canonicalPath_framed h, u.lower_ascii _ (framed_ascii fun c hc => (hquoted c hc).2),
      lower_framed, stripSlashes_framed, List.map_map]
    · rfl
    · intro c hc
      obtain ⟨comp, hcomp, rfl⟩ := List.mem_map.mp hc
      exact plainComponent_lower_iff.mpr (hquoted comp hcomp).1
  rw [hcanonical, u.lower_ascii _ hascii, lower_stripSlashes]
  constructor
  · rintro ⟨front, comps, back, hcomps, rfl⟩
    rw [canonicalSegments_framed h hcomps,
      stripSlashes_framed fun comp hcomp => (hcomps comp hcomp).1, lower_intercalate]
  · intro hsame
    have hlower : ∀ comp ∈ canonicalSegments path, PlainComponent comp := by
      intro c hc
      obtain ⟨comp, hcomp, rfl⟩ := List.mem_map.mp hc
      exact plainComponent_lower_iff.mpr (hquoted _ (List.mem_map_of_mem hcomp)).1
    obtain ⟨front, back, hpath⟩ := exists_slashes_around path
    by_cases hnil : canonicalSegments path = []
    · rw [hnil, List.intercalate_nil, eq_comm, List.map_eq_nil_iff] at hsame
      exact ⟨front, [], back, List.forall_mem_nil _, hpath.trans (by rw [hsame]; rfl)⟩
    · have hsplit : ((stripSlashes path).splitOn '/').map (·.map Char.toLower) =
          canonicalSegments path := by
        rw [← splitOn_lower (by decide), ← hsame]
        exact List.splitOn_intercalate '/' (fun c hc => (hlower c hc).no_slash) hnil
      have hplain : ∀ comp ∈ (stripSlashes path).splitOn '/', PlainComponent comp :=
        fun comp hcomp =>
          plainComponent_lower_iff.mp (hlower _ (hsplit ▸ List.mem_map_of_mem hcomp))
      have hframed : path = framed front ((stripSlashes path).splitOn '/') back :=
        hpath.trans (by rw [framed, List.intercalate_splitOn])
      have hsegments : pathSegments path = (stripSlashes path).splitOn '/' :=
        (congrArg pathSegments hframed).trans (pathSegments_framed hplain)
      have hcomponents : components (rawPath path) = (stripSlashes path).splitOn '/' :=
        (components_rawPath h (by rw [hsegments]; exact hplain)).trans hsegments
      rw [canonicalSegments, hcomponents, List.map_inj_left] at hsplit
      refine ⟨front, _, back, fun comp hcomp => ⟨hplain comp hcomp, ?_⟩, hframed⟩
      have hlength := congrArg List.length (hsplit comp hcomp)
      rw [List.length_map, List.length_map] at hlength
      exact safe_of_length_quote hlength.ge

end Newsintel.Acquisition
