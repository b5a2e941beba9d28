import Newsintel.Acquisition.Canonicalization

/-!
# Canonical paths and queries

A canonical path is a fixed point of `normalized_path` unless `normpath` leaves two
slashes and nothing else; a canonical query is always one.
-/

namespace Newsintel.Acquisition

open PyText PyQuote PosixPath

/-! ### Quoting a normalised path -/

variable {path comp : Text} {comps : List Text} {slashes : ℕ} {trailing : Bool}

theorem percent_mem_pathSafe : '%' ∈ pathSafe := by decide

theorem slash_mem_quote (h : '/' ∈ quote pathSafe comp) : '/' ∈ comp := by
  obtain ⟨c, hc, hslash⟩ := List.mem_flatMap.mp h
  unfold quoteChar at hslash
  split at hslash
  · exact List.mem_singleton.mp hslash ▸ hc
  · have hnot : ¬ (alwaysSafe '/' = true ∨ '/' = '%') := by decide
    exact absurd (mem_percentBytes (fun b => encodeChar_lt) hslash) hnot

/- A component of dots has no character to escape. -/
theorem plainComponent_quote (h : PlainComponent comp) :
    PlainComponent (quote pathSafe comp) where
  ne_nil := fun hnil => h.ne_nil (quote_eq_nil.mp hnil)
  ne_dot := by
    intro hdot
    have hself : quote pathSafe comp = comp :=
      quote_eq_self_of_noPercent (by rw [hdot]; decide)
    exact h.ne_dot (hself.symm.trans hdot)
  ne_dots := by
    intro hdots
    have hself : quote pathSafe comp = comp :=
      quote_eq_self_of_noPercent (by rw [hdots]; decide)
    exact h.ne_dots (hself.symm.trans hdots)
  no_slash := fun hslash => h.no_slash (slash_mem_quote hslash)

theorem quote_slash : quote pathSafe ['/'] = ['/'] := by decide

theorem quote_intercalate (comps : List Text) :
    quote pathSafe (['/'].intercalate comps) = ['/'].intercalate (comps.map (quote pathSafe)) := by
  induction comps with
  | nil => rfl
  | cons c comps ih =>
    cases comps with
    | nil => simp
    | cons d comps =>
      simp only [List.intercalate_cons_cons, quote_append, ih, quote_slash, List.map_cons]

theorem quote_slashed : quote pathSafe (slashed slashes comps trailing) =
    slashed slashes (comps.map (quote pathSafe)) trailing := by
  have hslashes : quote pathSafe (List.replicate slashes '/') = List.replicate slashes '/' := by
    apply quote_eq_self
    intro c hc
    rw [List.eq_of_mem_replicate hc]
    exact Or.inr (by decide)
  have htail : quote pathSafe (if trailing then ['/'] else []) = if trailing then ['/'] else [] := by
    cases trailing
    · rfl
    · exact quote_slash
  rw [slashed, quote_append, quote_append, hslashes, quote_intercalate, htail, slashed]

/-! ### Canonical paths -/

theorem slashed_ne_slash (hs : slashes = 1 ∨ slashes = 2) (hne : comps ≠ [])
    (h : ∀ c ∈ comps, PlainComponent c) : slashed slashes comps false ≠ ['/'] := by
  obtain ⟨c, rest, hcomps, -⟩ := intercalate_head hne h
  rcases hs with rfl | rfl <;> simp [slashed, hcomps, List.replicate]

theorem intercalate_last (hne : comps ≠ []) (h : ∀ c ∈ comps, PlainComponent c) :
    ∃ init c, ['/'].intercalate comps = init ++ [c] ∧ c ≠ '/' := by
  induction comps with
  | nil => exact absurd rfl hne
  | cons comp comps ih =>
    have hplain := h comp List.mem_cons_self
    cases comps with
    | nil =>
      refine ⟨comp.dropLast, comp.getLast hplain.ne_nil, ?_, ?_⟩
      · rw [List.intercalate_singleton, List.dropLast_append_getLast]
      · exact fun hc => hplain.no_slash (hc ▸ List.getLast_mem hplain.ne_nil)
    | cons d comps =>
      obtain ⟨init, c, hinit, hc⟩ := ih (by simp) fun e he => h e (List.mem_cons_of_mem _ he)
      refine ⟨comp ++ ['/'] ++ init, c, ?_, hc⟩
      rw [List.intercalate_cons_cons, hinit, ← List.append_assoc]

theorem initialSlashes_pos (h : path.head? = some '/') :
    initialSlashes path = 1 ∨ initialSlashes path = 2 := by
  unfold initialSlashes
  split
  · exact Or.inl rfl
  · exact Or.inr rfl
  · exact Or.inl rfl
  · rename_i hno
    cases path with
    | nil => contradiction
    | cons c t =>
      obtain rfl := Option.some.inj h
      exact absurd rfl (hno t)

theorem rawPath_head (h : path = [] ∨ path.head? = some '/') :
    (rawPath path).head? = some '/' := by
  unfold rawPath
  split
  · rfl
  · rename_i hne
    exact h.resolve_left hne

theorem slashed_head (hs : slashes = 1 ∨ slashes = 2) :
    (slashed slashes comps trailing).head? = some '/' := by
  rcases hs with rfl | rfl <;> rfl

/-- `trailing slash restored` (lines 64-65). -/
def restoresSlash (path : Text) : Bool :=
  (rawPath path).getLast? = some '/' && PosixPath.normpath (rawPath path) ≠ ['/']

/- A canonical path is the quotation of slashes and plain components. -/
theorem canonicalPath_eq (h : path = [] ∨ path.head? = some '/') :
    canonicalPath path = quote pathSafe (slashed (initialSlashes (rawPath path))
      (components (rawPath path)) (restoresSlash path)) := by
  have hs := initialSlashes_pos (rawPath_head h)
  have hslashes : initialSlashes (rawPath path) ≠ 0 := by omega
  have hnorm := normpath_absolute hslashes
  have hhead : (normpath (rawPath path)).head? = some '/' := by
    rw [hnorm]
    exact slashed_head hs
  unfold canonicalPath
  simp only [hhead, if_true]
  cases hr : restoresSlash path with
  | false =>
    unfold restoresSlash at hr
    rw [if_neg (by simpa using hr), hnorm]
  | true =>
    unfold restoresSlash at hr
    rw [if_pos (by simpa using hr), hnorm]
    simp [slashed]

theorem canonicalPath_head (h : path = [] ∨ path.head? = some '/') :
    (canonicalPath path).head? = some '/' := by
  rw [canonicalPath_eq h, quote_slashed]
  exact slashed_head (initialSlashes_pos (rawPath_head h))

/- With a component, nothing is left to normalise. -/
theorem canonicalPath_slashed (hs : slashes = 1 ∨ slashes = 2) (hne : comps ≠ [])
    (h : ∀ c ∈ comps, PlainComponent c) :
    canonicalPath (slashed slashes comps trailing) =
      quote pathSafe (slashed slashes comps trailing) := by
  have hhead : (slashed slashes comps trailing).head? = some '/' := slashed_head hs
  have hraw : rawPath (slashed slashes comps trailing) = slashed slashes comps trailing := by
    unfold rawPath
    rw [if_neg]
    intro hnil
    rw [hnil] at hhead
    contradiction
  have hrestore : restoresSlash (slashed slashes comps trailing) = trailing := by
    unfold restoresSlash
    rw [hraw, normpath_slashed hs hne h]
    have hslash := slashed_ne_slash hs hne h
    cases trailing with
    | true => simpa [slashed] using hslash
    | false =>
      obtain ⟨init, c, hlast, hc⟩ := intercalate_last hne h
      simp [slashed, hlast, hc]
  rw [canonicalPath_eq (Or.inr hhead), hraw, hrestore, initialSlashes_slashed hs hne h,
    components_slashed hs hne h]

/-- A canonical path is a fixed point unless `normpath` left two slashes only. -/
theorem canonicalPath_idem_iff (h : path = [] ∨ path.head? = some '/') :
    canonicalPath (canonicalPath path) = canonicalPath path ↔
      normpath (rawPath path) ≠ ['/', '/'] := by
  have hs := initialSlashes_pos (rawPath_head h)
  have hslashes : initialSlashes (rawPath path) ≠ 0 := by omega
  have hplain := plain_components hslashes
  have hnorm := normpath_absolute hslashes
  by_cases hne : components (rawPath path) = []
  · rw [canonicalPath_eq h]
    rw [hne] at hnorm ⊢
    rcases hs with hs | hs <;> rw [hs] at hnorm ⊢
    · have hroot : normpath (rawPath path) = ['/'] := hnorm
      have hrestore : restoresSlash path = false := by simp [restoresSlash, hroot]
      rw [hroot, hrestore]
      decide
    · have hroot : normpath (rawPath path) = ['/', '/'] := hnorm
      rw [hroot]
      cases restoresSlash path <;> decide
  · have hquoted : ∀ c ∈ (components (rawPath path)).map (quote pathSafe), PlainComponent c := by
      intro c hc
      obtain ⟨comp, hcomp, rfl⟩ := List.mem_map.mp hc
      exact plainComponent_quote (hplain comp hcomp)
    have hne' : (components (rawPath path)).map (quote pathSafe) ≠ [] := by simpa using hne
    have hidem : canonicalPath (canonicalPath path) = canonicalPath path := by
      rw [canonicalPath_eq h, quote_slashed, canonicalPath_slashed hs hne' hquoted,
        ← quote_slashed, quote_quote percent_mem_pathSafe]
    refine ⟨fun _ => ?_, fun _ => hidem⟩
    rw [hnorm]
    obtain ⟨c, rest, hcomps, hc⟩ := intercalate_head hne hplain
    rcases hs with hs | hs <;> simp [slashed, hcomps, hs, List.replicate, hc]

/-! ### Canonical queries -/

variable {u : Unicode} {policy : CanonicalizationPolicy}

theorem paramLe_total (p q : Text × Text) : paramLe u p q = true ∨ paramLe u q p = true := by
  unfold paramLe
  by_cases h : u.lower p.1 = u.lower q.1
  · rw [if_pos h, if_pos h.symm]
    exact textLe_total _ _
  · rw [if_neg h, if_neg (Ne.symm h)]
    exact textLe_total _ _

theorem paramLe_trans {p q r : Text × Text} (h : paramLe u p q = true)
    (h' : paramLe u q r = true) : paramLe u p r = true := by
  unfold paramLe at *
  by_cases hpq : u.lower p.1 = u.lower q.1 <;> by_cases hqr : u.lower q.1 = u.lower r.1
  · rw [if_pos hpq] at h
    rw [if_pos hqr] at h'
    rw [if_pos (hpq.trans hqr)]
    exact textLe_trans h h'
  · rw [if_neg hqr] at h'
    rw [hpq, if_neg hqr]
    exact h'
  · rw [if_neg hpq] at h
    rw [← hqr, if_neg hpq]
    exact h
  · rw [if_neg hpq] at h
    rw [if_neg hqr] at h'
    have hpr : u.lower p.1 ≠ u.lower r.1 := fun he => hpq (textLe_antisymm h (he ▸ h'))
    rw [if_neg hpr]
    exact textLe_trans h h'

theorem keptParameters_sorted (query : Text) :
    (keptParameters u policy query).Pairwise fun p q => paramLe u p q = true := by
  have : Std.Total fun p q : Text × Text => paramLe u p q = true := ⟨paramLe_total⟩
  have : IsTrans (Text × Text) fun p q => paramLe u p q = true := ⟨fun _ _ _ => paramLe_trans⟩
  exact List.pairwise_insertionSort _ _

/-- The parameters that were kept are kept again, in their order. -/
theorem keptParameters_urlencode (query : Text) :
    keptParameters u policy (urlencode (keptParameters u policy query)) =
      keptParameters u policy query := by
  conv_lhs => rw [keptParameters]
  rw [parseQsl_urlencode, List.filter_eq_self.mpr, List.Pairwise.insertionSort_eq]
  · exact keptParameters_sorted query
  · intro p hp
    have hmem := (List.mem_insertionSort _).mp hp
    exact (List.mem_filter.mp hmem).2

end Newsintel.Acquisition
