import Newsintel.Lib.PyText

/-!
# `posixpath.normpath`

Normalisation of a path, and the shape of a normalised absolute path: one or two
slashes, then components that are neither empty nor dots. A path of that shape with
at least one component is its own normalisation.
-/

namespace Newsintel.PosixPath

open PyText

/-- The loop of `normpath` over the components, `kept` being `new_comps`. -/
def keepComponent (absolute : Bool) (kept : List Text) (comp : Text) : List Text :=
  if comp = [] || comp = ['.'] then kept
  else if comp ≠ ['.', '.'] || (!absolute && kept = []) || kept.getLast? = some ['.', '.'] then
    kept ++ [comp]
  else kept.dropLast

/-- `initial_slashes`: POSIX keeps exactly two. -/
def initialSlashes : Text → ℕ
  | '/' :: '/' :: '/' :: _ => 1
  | '/' :: '/' :: _ => 2
  | '/' :: _ => 1
  | _ => 0

def components (path : Text) : List Text :=
  (path.splitOn '/').foldl (keepComponent (initialSlashes path ≠ 0)) []

def normpath (path : Text) : Text :=
  let normalized :=
    List.replicate (initialSlashes path) '/' ++ ['/'].intercalate (components path)
  if normalized = [] then ['.'] else normalized

/-! ### Components -/

/-- A component that `normpath` keeps of an absolute path. -/
structure PlainComponent (comp : Text) : Prop where
  ne_nil : comp ≠ []
  ne_dot : comp ≠ ['.']
  ne_dots : comp ≠ ['.', '.']
  no_slash : '/' ∉ comp

variable {comp : Text} {comps kept : List Text} {path : Text}

theorem keepComponent_plain (h : PlainComponent comp) :
    keepComponent true kept comp = kept ++ [comp] := by
  simp [keepComponent, h.ne_nil, h.ne_dot, h.ne_dots]

theorem plain_keepComponent (hslash : '/' ∉ comp) (hkept : ∀ c ∈ kept, PlainComponent c) :
    ∀ c ∈ keepComponent true kept comp, PlainComponent c := by
  intro c hc
  unfold keepComponent at hc
  split at hc
  · exact hkept c hc
  · rename_i hdot
    have hlast : kept.getLast? ≠ some ['.', '.'] := by
      intro hl
      exact (hkept _ (List.mem_of_getLast? hl)).ne_dots rfl
    simp only [Bool.or_eq_true, decide_eq_true_eq, not_or] at hdot
    split at hc
    · rename_i hkeep
      have hdots : comp ≠ ['.', '.'] := by simpa [hlast] using hkeep
      rcases List.mem_append.mp hc with hc | hc
      · exact hkept c hc
      · obtain rfl := List.mem_singleton.mp hc
        exact ⟨hdot.1, hdot.2, hdots, hslash⟩
    · exact hkept c (List.dropLast_subset _ hc)

theorem plain_components (h : initialSlashes path ≠ 0) :
    ∀ c ∈ components path, PlainComponent c := by
  have hfold : ∀ parts kept : List Text, (∀ p ∈ parts, '/' ∉ p) →
      (∀ c ∈ kept, PlainComponent c) →
      ∀ c ∈ parts.foldl (keepComponent true) kept, PlainComponent c := by
    intro parts
    induction parts with
    | nil => exact fun kept _ hkept => hkept
    | cons p parts ih =>
      intro kept hparts hkept
      exact ih _ (fun q hq => hparts q (List.mem_cons_of_mem _ hq))
        (plain_keepComponent (hparts p List.mem_cons_self) hkept)
  unfold components
  rw [decide_eq_true h]
  exact hfold _ _ (fun p => not_mem_of_mem_splitOn) (by simp)

theorem foldl_plain (h : ∀ c ∈ comps, PlainComponent c) :
    comps.foldl (keepComponent true) kept = kept ++ comps := by
  induction comps generalizing kept with
  | nil => simp
  | cons c comps ih =>
    rw [List.foldl_cons, keepComponent_plain (h c List.mem_cons_self),
      ih fun d hd => h d (List.mem_cons_of_mem _ hd)]
    simp

theorem mem_keepComponent {absolute : Bool} {c : Text} (h : c ∈ keepComponent absolute kept comp) :
    c ∈ kept ∨ c = comp := by
  unfold keepComponent at h
  split at h
  · exact Or.inl h
  · split at h
    · exact (List.mem_append.mp h).imp_right List.mem_singleton.mp
    · exact Or.inl (List.dropLast_subset _ h)

/- What is kept stood between slashes. -/
theorem mem_components {c : Text} (h : c ∈ components path) : c ∈ path.splitOn '/' := by
  have hfold : ∀ parts kept : List Text,
      c ∈ parts.foldl (keepComponent (initialSlashes path ≠ 0)) kept → c ∈ kept ∨ c ∈ parts := by
    intro parts
    induction parts with
    | nil => exact fun kept hc => Or.inl hc
    | cons p parts ih =>
      intro kept hc
      obtain hc | hc := ih _ hc
      · obtain hc | rfl := mem_keepComponent hc
        · exact Or.inl hc
        · exact Or.inr List.mem_cons_self
      · exact Or.inr (List.mem_cons_of_mem p hc)
  exact (hfold _ _ h).resolve_left List.not_mem_nil

/- Where no component consists of dots, only the empty ones are dropped. -/
theorem components_eq_filter (h : initialSlashes path ≠ 0)
    (hplain : ∀ c ∈ (path.splitOn '/').filter (· ≠ []), PlainComponent c) :
    components path = (path.splitOn '/').filter (· ≠ []) := by
  have hfold : ∀ parts kept : List Text, (∀ c ∈ parts.filter (· ≠ []), PlainComponent c) →
      parts.foldl (keepComponent true) kept = kept ++ parts.filter (· ≠ []) := by
    intro parts
    induction parts with
    | nil => exact fun kept _ => (List.append_nil kept).symm
    | cons p parts ih =>
      intro kept hparts
      by_cases hp : p = []
      · subst hp
        exact ih kept hparts
      · have hfilter : (p :: parts).filter (· ≠ []) = p :: parts.filter (· ≠ []) :=
          List.filter_cons_of_pos (by simpa using hp)
        rw [hfilter] at hparts ⊢
        obtain ⟨hfirst, hrest⟩ := List.forall_mem_cons.mp hparts
        rw [List.foldl_cons, keepComponent_plain hfirst, ih _ hrest, List.append_assoc]
        rfl
  rw [components, decide_eq_true h, hfold _ _ hplain, List.nil_append]

/-! ### The normal form -/

/-- Slashes, components between slashes, and a slash at the end if `trailing`. -/
def slashed (slashes : ℕ) (comps : List Text) (trailing : Bool) : Text :=
  List.replicate slashes '/' ++ ['/'].intercalate comps ++ if trailing then ['/'] else []

theorem normpath_absolute (h : initialSlashes path ≠ 0) :
    normpath path = slashed (initialSlashes path) (components path) false := by
  obtain ⟨n, hn⟩ := Nat.exists_eq_succ_of_ne_zero h
  simp [normpath, slashed, hn, List.replicate_succ]

/- Components that are plain are found again, whatever slashes stand around them. -/
section normalForm

variable {slashes : ℕ} {trailing : Bool}

theorem intercalate_head (hne : comps ≠ []) (h : ∀ c ∈ comps, PlainComponent c) :
    ∃ c rest, ['/'].intercalate comps = c :: rest ∧ c ≠ '/' := by
  obtain ⟨comp, comps, rfl⟩ := List.exists_cons_of_ne_nil hne
  have hplain := h comp List.mem_cons_self
  obtain ⟨c, rest, rfl⟩ := List.exists_cons_of_ne_nil hplain.ne_nil
  have hc : c ≠ '/' := fun hc => hplain.no_slash (hc ▸ List.mem_cons_self)
  cases comps with
  | nil => exact ⟨c, rest, by simp, hc⟩
  | cons d comps => exact ⟨c, rest ++ '/' :: ['/'].intercalate (d :: comps), by simp, hc⟩

theorem initialSlashes_slashed (hs : slashes = 1 ∨ slashes = 2) (hne : comps ≠ [])
    (h : ∀ c ∈ comps, PlainComponent c) :
    initialSlashes (slashed slashes comps trailing) = slashes := by
  obtain ⟨c, rest, hcomps, hc⟩ := intercalate_head hne h
  rcases hs with rfl | rfl <;> simp [slashed, hcomps, initialSlashes, List.replicate, hc]

theorem splitOn_slashed (hs : slashes = 1 ∨ slashes = 2) (hne : comps ≠ [])
    (h : ∀ c ∈ comps, PlainComponent c) :
    (slashed slashes comps trailing).splitOn '/' =
      List.replicate slashes [] ++ (comps ++ if trailing then [[]] else []) := by
  have hcomps : (['/'].intercalate comps).splitOn '/' = comps :=
    List.splitOn_intercalate '/' (fun c hc => (h c hc).no_slash) hne
  have htail : (['/'].intercalate comps ++ if trailing then ['/'] else []).splitOn '/' =
      comps ++ if trailing then [[]] else [] := by
    cases trailing with
    | false => simpa using hcomps
    | true => simpa [hcomps] using
        List.splitOn_append_cons_self (a := '/') (['/'].intercalate comps) []
  rcases hs with rfl | rfl
  · simp [slashed, List.splitOn_cons_eq_if_modifyHead, htail]
  · simp [slashed, List.replicate, List.splitOn_cons_eq_if_modifyHead, htail]

theorem components_slashed (hs : slashes = 1 ∨ slashes = 2) (hne : comps ≠ [])
    (h : ∀ c ∈ comps, PlainComponent c) :
    components (slashed slashes comps trailing) = comps := by
  have hskip : ∀ kept : List Text, keepComponent true kept [] = kept := fun _ => rfl
  have hfold : (comps ++ if trailing then [[]] else []).foldl (keepComponent true) [] = comps := by
    rw [List.foldl_append, foldl_plain h]
    cases trailing <;> simp [hskip]
  unfold components
  rw [initialSlashes_slashed hs hne h, splitOn_slashed hs hne h]
  rcases hs with rfl | rfl <;> simp [List.replicate, hskip, hfold]

theorem normpath_slashed (hs : slashes = 1 ∨ slashes = 2) (hne : comps ≠ [])
    (h : ∀ c ∈ comps, PlainComponent c) :
    normpath (slashed slashes comps trailing) = slashed slashes comps false := by
  have hslashes : initialSlashes (slashed slashes comps trailing) = slashes :=
    initialSlashes_slashed hs hne h
  rw [normpath_absolute (by omega), hslashes, components_slashed hs hne h]

end normalForm

end Newsintel.PosixPath
