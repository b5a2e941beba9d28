import Mathlib.Data.List.Perm.Subperm
import Newsintel.Acquisition.Commands
import Newsintel.Lib.Fields

/-!
# Publisher slugs (application/sources/service.py:587-610)

`_slugify` keeps every character that is alphanumeric in Unicode and cuts nothing off, while
`CreatePublisherCommand` asks for at most 200 characters of `[a-z0-9]` in words with hyphens.
-/

namespace Newsintel.Sources

open PyText Fields

/-- `DiscoverPublisherCommand`: the name, stripped and of 1 to 300 characters. -/
structure DiscoverPublisherCommand where
  publisherName : Text
  publisherName_stripped : Acquisition.stripWhitespace publisherName = publisherName
  publisherName_length : 1 ≤ publisherName.length ∧ publisherName.length ≤ 300

/-! ### `_slugify` -/

/-- `character.lower() if character.isalnum() else "-"`. -/
def slugCharacter (u : Unicode) (character : Char) : Text :=
  if u.isAlnum character then u.lower [character] else ['-']

/-- `slug.replace("--", "-")`. -/
def replaceDouble : Text → Text
  | [] => []
  | [c] => [c]
  | c :: d :: rest =>
    if c = '-' ∧ d = '-' then '-' :: replaceDouble rest else c :: replaceDouble (d :: rest)

theorem replaceDouble_length_le (t : Text) : (replaceDouble t).length ≤ t.length := by
  induction t using replaceDouble.induct with
  | case1 => exact le_refl _
  | case2 c => exact le_refl _
  | case3 c d rest h ih =>
    rw [replaceDouble, if_pos h, List.length_cons, List.length_cons, List.length_cons]
    omega
  | case4 c d rest h ih =>
    rw [replaceDouble, if_neg h, List.length_cons, List.length_cons]
    omega

theorem replaceDouble_length_lt {t : Text} (h : ['-', '-'] <:+: t) :
    (replaceDouble t).length < t.length := by
  induction t using replaceDouble.induct with
  | case1 => exact absurd h.length_le (by decide)
  | case2 c => exact absurd h.length_le (by simp)
  | case3 c d rest hdouble ih =>
    have hle := replaceDouble_length_le rest
    rw [replaceDouble, if_pos hdouble, List.length_cons, List.length_cons, List.length_cons]
    omega
  | case4 c d rest hsingle ih =>
    rw [replaceDouble, if_neg hsingle, List.length_cons, List.length_cons]
    apply Nat.succ_lt_succ
    obtain hfront | hinfix := List.infix_cons_iff.mp h
    · rw [List.cons_prefix_cons, List.cons_prefix_cons] at hfront
      exact absurd ⟨hfront.1.symm, hfront.2.1.symm⟩ hsingle
    · exact ih hinfix

/-- `while "--" in slug: slug = slug.replace("--", "-")`. -/
def collapseHyphens (slug : Text) : Text :=
  if ['-', '-'] <:+: slug then collapseHyphens (replaceDouble slug) else slug
termination_by slug.length
decreasing_by
  rename_i h
  exact replaceDouble_length_lt h

/-- `slug.strip("-")`. -/
def stripHyphens (slug : Text) : Text := (slug.dropWhile (· == '-')).rdropWhile (· == '-')

def slugify (u : Unicode) (value : Text) : Text :=
  let slug := stripHyphens ((strip value).flatMap (slugCharacter u))
  let slug := collapseHyphens slug
  if slug = [] then "publisher".toList else slug

/-! ### `_unique_slug` -/

/-- `f"{slug}-{suffix}"`. -/
def suffixed (slug : Text) (suffix : ℕ) : Text := slug ++ '-' :: Nat.toDigits 10 suffix

/-- The `while` loop. -/
def searchSuffix (existing : List Text) (slug : Text) : ℕ → ℕ → Option Text
  | 0, _ => none
  | fuel + 1, suffix =>
    if existing.contains (suffixed slug suffix) then searchSuffix existing slug fuel (suffix + 1)
    else some (suffixed slug suffix)

/-- `_unique_slug`, of the stored slugs. -/
def uniqueSlug (fuel : ℕ) (stored : List Text) (slug : Text) : Option Text :=
  let existing := stored.filter (slug.isPrefixOf ·)
  if existing.contains slug then searchSuffix existing slug fuel 2 else some slug

/-! ### What a slug has to be -/

/-- `[a-z0-9]`. -/
def isSlugChar (c : Char) : Bool := ('a' ≤ c && c ≤ 'z') || ('0' ≤ c && c ≤ '9')

/-- `^[a-z0-9]+(?:-[a-z0-9]+)*$`: words with single hyphens between them. -/
def isSlug (t : Text) : Bool := (t.splitOn '-').all fun word => !word.isEmpty && word.all isSlugChar

/-- `CreatePublisherCommand.slug`. -/
def ValidSlug (slug : Text) : Prop := slug.length ≤ 200 ∧ isSlug slug = true

/-- However long the search may go on, it ends with the slug. -/
def Generates (u : Unicode) (name : Text) (stored : List Text) (slug : Text) : Prop :=
  ∀ fuel, stored.length < fuel → uniqueSlug fuel stored (slugify u name) = some slug

/-! ### The words of a name -/

/-- The lower-cased runs of alphanumeric characters. -/
def nameWords (u : Unicode) (name : Text) : List Text :=
  (((strip name).splitOnP fun c => !u.isAlnum c).map (·.flatMap fun c => u.lower [c])).filter
    fun word => !word.isEmpty

/-- The words with hyphens between them. -/
def hyphenated (words : List Text) : Text :=
  if words = [] then "publisher".toList else ['-'].intercalate words

section collapse

variable {t : Text}

theorem replaceDouble_head (t : Text) : (replaceDouble t).head? = t.head? := by
  cases t using replaceDouble.induct with
  | case1 => rfl
  | case2 c => rfl
  | case3 c d rest h =>
    rw [replaceDouble, if_pos h, h.1]
    rfl
  | case4 c d rest h =>
    rw [replaceDouble, if_neg h]
    rfl

theorem replaceDouble_getLast (t : Text) : (replaceDouble t).getLast? = t.getLast? := by
  induction t using replaceDouble.induct with
  | case1 => rfl
  | case2 c => rfl
  | case3 c d rest h ih =>
    rw [replaceDouble, if_pos h, List.getLast?_cons, ih, List.getLast?_cons, List.getLast?_cons, h.2]
    rfl
  | case4 c d rest h ih =>
    rw [replaceDouble, if_neg h, List.getLast?_cons, ih, ← List.getLast?_cons]

/- Behind any beginning: a hyphen that goes was next to another one. -/
theorem fields_append_replaceDouble (s t : Text) :
    fields (· == '-') (s ++ replaceDouble t) = fields (· == '-') (s ++ t) := by
  induction t using replaceDouble.induct generalizing s with
  | case1 => rfl
  | case2 c => rfl
  | case3 c d rest h ih =>
    obtain ⟨rfl, rfl⟩ := h
    have hrest := ih []
    rw [List.nil_append, List.nil_append] at hrest
    rw [replaceDouble, if_pos ⟨rfl, rfl⟩, fields_append_sep rfl, fields_append_sep rfl,
      fields_cons_sep rfl, hrest]
  | case4 c d rest h ih =>
    have hrest := ih (s ++ [c])
    rw [List.append_assoc, List.append_assoc, List.singleton_append, List.singleton_append] at hrest
    rw [replaceDouble, if_neg h, hrest]

theorem collapseHyphens_head (t : Text) : (collapseHyphens t).head? = t.head? := by
  fun_induction collapseHyphens t with
  | case1 t h ih => rw [ih, replaceDouble_head]
  | case2 t h => rfl

theorem collapseHyphens_getLast (t : Text) : (collapseHyphens t).getLast? = t.getLast? := by
  fun_induction collapseHyphens t with
  | case1 t h ih => rw [ih, replaceDouble_getLast]
  | case2 t h => rfl

theorem fields_collapseHyphens (t : Text) :
    fields (· == '-') (collapseHyphens t) = fields (· == '-') t := by
  fun_induction collapseHyphens t with
  | case1 t h ih =>
    rw [ih]
    exact fields_append_replaceDouble [] t
  | case2 t h => rfl

theorem collapseHyphens_single (t : Text) : ¬ ['-', '-'] <:+: collapseHyphens t := by
  fun_induction collapseHyphens t with
  | case1 t h ih => exact ih
  | case2 t h => exact h

theorem stripHyphens_ends (t : Text) :
    (stripHyphens t).head? ≠ some '-' ∧ (stripHyphens t).getLast? ≠ some '-' := by
  constructor
  · intro hhead
    have hstart : (stripHyphens t).dropWhile (· == '-') = stripHyphens t :=
      dropWhile_rdropWhile_dropWhile _ t
    have hfirst := List.head?_dropWhile_not (· == '-') (stripHyphens t)
    rw [hstart, hhead] at hfirst
    exact absurd hfirst (by simp)
  · intro hlast
    have hne : stripHyphens t ≠ [] := by
      intro hnil
      rw [hnil] at hlast
      cases hlast
    have hnot := List.rdropWhile_last_not (· == '-') (t.dropWhile (· == '-')) hne
    rw [List.getLast?_eq_some_getLast hne, Option.some.injEq] at hlast
    exact hnot (beq_iff_eq.mpr hlast)

end collapse

section words

variable {u : Unicode} {name : Text} {words : List Text}

/- Lower-casing brings no hyphen. -/
theorem slugCharacter_not_hyphen {c : Char} (hc : u.isAlnum c = true) :
    ∀ d ∈ u.lower [c], d ≠ '-' := by
  rintro d hd rfl
  have hmem := u.lower_symbol [c] '-' hd (by decide) (by decide)
  obtain rfl := List.mem_singleton.mp hmem
  rw [u.isAlnum_ascii '-' (by decide)] at hc
  exact absurd hc (by decide)

theorem fields_slugCharacters (u : Unicode) (name : Text) :
    fields (· == '-') ((strip name).flatMap (slugCharacter u)) = nameWords u name := by
  have hsplit : ((strip name).flatMap (slugCharacter u)).splitOnP (· == '-') =
      ((strip name).splitOnP fun c => !u.isAlnum c).map (·.flatMap (slugCharacter u)) := by
    apply splitOnP_flatMap
    · intro c hc
      rw [Bool.not_eq_true'] at hc
      exact ⟨'-', by simp [slugCharacter, hc], rfl⟩
    · intro c hc d hd
      rw [Bool.not_eq_false'] at hc
      rw [slugCharacter, if_pos hc] at hd
      exact beq_eq_false_iff_ne.mpr (slugCharacter_not_hyphen hc d hd)
  rw [fields, hsplit, nameWords]
  congr 1
  apply List.map_congr_left
  intro run hrun
  apply List.flatMap_congr
  intro c hc
  have halnum := not_of_mem_splitOnP hrun c hc
  rw [Bool.not_eq_false'] at halnum
  rw [slugCharacter, if_pos halnum]

theorem nameWords_spec : ∀ word ∈ nameWords u name, word ≠ [] ∧ '-' ∉ word := by
  intro word hword
  rw [← fields_slugCharacters] at hword
  refine ⟨ne_nil_of_mem_fields hword, ?_⟩
  intro hmem
  exact absurd (not_sep_of_mem_fields hword hmem) (by decide)

theorem slugify_eq (u : Unicode) (name : Text) :
    slugify u name = hyphenated (nameWords u name) := by
  have hends := stripHyphens_ends ((strip name).flatMap (slugCharacter u))
  have hfields : fields (· == '-')
      (collapseHyphens (stripHyphens ((strip name).flatMap (slugCharacter u)))) =
        nameWords u name := by
    rw [fields_collapseHyphens, stripHyphens, fields_rdropWhile, fields_dropWhile,
      fields_slugCharacters]
  have hjoined := intercalate_fields
    (t := collapseHyphens (stripHyphens ((strip name).flatMap (slugCharacter u)))) (c := '-')
    (by rw [collapseHyphens_head]; exact hends.1) (by rw [collapseHyphens_getLast]; exact hends.2)
    (collapseHyphens_single _)
  rw [hfields] at hjoined
  simp only [slugify]
  rw [← hjoined, hyphenated]
  by_cases hwords : nameWords u name = []
  · rw [hwords, if_pos rfl, List.intercalate_nil, if_pos rfl]
  · rw [if_neg hwords, if_neg]
    intro hnil
    have hsplit := List.splitOn_intercalate '-' (fun w hw => (nameWords_spec w hw).2) hwords
    rw [hnil, List.splitOn_nil] at hsplit
    exact (nameWords_spec [] (by rw [← hsplit]; exact List.mem_singleton_self _)).1 rfl

/- Lower-cased into `[a-z0-9]`, wherever the character stands. -/
theorem nameWords_slugChars (u : Unicode) (name : Text) :
    (∀ word ∈ nameWords u name, word.all isSlugChar = true) ↔
      ∀ c ∈ strip name, u.isAlnum c = true → ∀ d ∈ u.lower [c], isSlugChar d = true := by
  constructor
  · intro hwords c hc halnum d hd
    have hkept : (!u.isAlnum c) = false := by rw [halnum, Bool.not_true]
    obtain ⟨run, hrun, hmem⟩ :=
      (exists_mem_splitOnP (p := fun c => !u.isAlnum c)).mpr ⟨hc, hkept⟩
    have hin : d ∈ run.flatMap fun c => u.lower [c] := List.mem_flatMap.mpr ⟨c, hmem, hd⟩
    have hword := hwords (run.flatMap fun c => u.lower [c]) (List.mem_filter.mpr
      ⟨List.mem_map_of_mem hrun, by rw [List.isEmpty_eq_false_iff.mpr (List.ne_nil_of_mem hin)]; rfl⟩)
    exact List.all_eq_true.mp hword d hin
  · intro hchars word hword
    obtain ⟨run, hrun, rfl⟩ := List.mem_map.mp (List.mem_filter.mp hword).1
    rw [List.all_eq_true]
    intro d hd
    obtain ⟨c, hc, hd⟩ := List.mem_flatMap.mp hd
    obtain ⟨hmem, halnum⟩ := exists_mem_splitOnP.mp ⟨run, hrun, hc⟩
    rw [Bool.not_eq_false'] at halnum
    exact hchars c hmem halnum d hd

theorem isSlug_hyphenated (h : ∀ word ∈ words, word ≠ [] ∧ '-' ∉ word) :
    isSlug (hyphenated words) = true ↔ ∀ word ∈ words, word.all isSlugChar = true := by
  rw [hyphenated]
  split
  · rename_i hnil
    rw [hnil]
    exact iff_of_true (by decide) (by simp)
  · rename_i hne
    rw [isSlug, List.splitOn_intercalate '-' (fun w hw => (h w hw).2) hne, List.all_eq_true]
    constructor
    · intro hall word hword
      exact (Bool.and_eq_true_iff.mp (hall word hword)).2
    · intro hall word hword
      rw [hall word hword, List.isEmpty_eq_false_iff.mpr (h word hword).1]
      rfl

end words

/-! ### The search -/

section search

variable {slug : Text} {stored : List Text} {m n : ℕ}

theorem suffixed_injective (h : suffixed slug m = suffixed slug n) : m = n := by
  have hdigits := (List.cons.inj (List.append_cancel_left h)).2
  rw [← Nat.ofDigitChars_ten_toDigits (n := m), hdigits, Nat.ofDigitChars_ten_toDigits]

theorem suffixed_length_le (h : m ≤ n) :
    (suffixed slug m).length ≤ (suffixed slug n).length := by
  have hpositive : 0 < (Nat.toDigits 10 n).length := Nat.length_toDigits_pos
  have hbound : n < 10 ^ (Nat.toDigits 10 n).length :=
    (Nat.length_toDigits_le_iff (by decide) hpositive).mp le_rfl
  have hle : (Nat.toDigits 10 m).length ≤ (Nat.toDigits 10 n).length :=
    (Nat.length_toDigits_le_iff (by decide) hpositive).mpr (h.trans_lt hbound)
  rw [suffixed, suffixed, List.length_append, List.length_append, List.length_cons,
    List.length_cons]
  omega

/- The digits are one more word. -/
theorem isSlug_suffixed : isSlug (suffixed slug n) = isSlug slug := by
  have hdigit : ∀ c ∈ Nat.toDigits 10 n, isSlugChar c = true ∧ (c == '-') = false := by
    intro c hc
    have hdigit := Nat.isDigit_of_mem_toDigits (by decide) (by decide) hc
    have hrange : 48 ≤ c.toNat ∧ c.toNat ≤ 57 := by
      simpa [Char.isDigit, UInt32.le_iff_toNat_le] using hdigit
    constructor
    · rw [isSlugChar, Bool.or_eq_true, Bool.and_eq_true, Bool.and_eq_true]
      exact Or.inr ⟨decide_eq_true hrange.1, decide_eq_true hrange.2⟩
    · rw [beq_eq_false_iff_ne]
      rintro rfl
      exact absurd hrange.1 (by decide)
  have hlast : (Nat.toDigits 10 n).splitOnP (· == '-') = [Nat.toDigits 10 n] :=
    List.splitOnP_eq_singleton fun c hc => (hdigit c hc).2
  rw [isSlug, suffixed, List.splitOn, List.splitOnP_append_cons slug _ (by rfl), hlast,
    List.all_append, List.all_cons, List.all_nil, Bool.and_true,
    List.isEmpty_eq_false_iff.mpr Nat.toDigits_ne_nil,
    List.all_eq_true.mpr fun c hc => (hdigit c hc).1]
  exact Bool.and_true _

/- The `LIKE` filter keeps all texts that the search asks for. -/
theorem contains_like (stored : List Text) {t : Text} (h : slug <+: t) :
    (stored.filter (slug.isPrefixOf ·)).contains t = true ↔ t ∈ stored := by
  rw [List.contains_iff_mem, List.mem_filter, List.isPrefixOf_iff_prefix]
  exact and_iff_left h

/- Taken suffixes in a row are different stored slugs. -/
theorem taken_le_length (h : ∀ k, 2 ≤ k → k < n → suffixed slug k ∈ stored) :
    n - 2 ≤ stored.length := by
  have hnodup : ((List.range' 2 (n - 2)).map (suffixed slug)).Nodup :=
    List.Nodup.map_on (fun _ _ _ _ => suffixed_injective) List.nodup_range'
  have hsubset : (List.range' 2 (n - 2)).map (suffixed slug) ⊆ stored := by
    intro t ht
    obtain ⟨k, hk, rfl⟩ := List.mem_map.mp ht
    rw [List.mem_range'_1] at hk
    exact h k hk.1 (by omega)
  have hlength := (List.subperm_of_subset hnodup hsubset).length_le
  rw [List.length_map, List.length_range'] at hlength
  exact hlength

theorem exists_free (slug : Text) (stored : List Text) :
    ∃ n, 2 ≤ n ∧ suffixed slug n ∉ stored := by
  by_contra hall
  push Not at hall
  have hlength := taken_le_length (n := stored.length + 3) fun k hk _ => hall k hk
  omega

/- The loop stops at the first free suffix. -/
theorem searchSuffix_eq {existing : List Text} {fuel : ℕ}
    (htaken : ∀ k, m ≤ k → k < n → existing.contains (suffixed slug k) = true)
    (hfree : existing.contains (suffixed slug n) = false) (hle : m ≤ n) (hfuel : n - m < fuel) :
    searchSuffix existing slug fuel m = some (suffixed slug n) := by
  induction fuel generalizing m with
  | zero => omega
  | succ fuel ih =>
    rw [searchSuffix]
    by_cases hm : m = n
    · rw [hm, hfree]
      rfl
    · rw [if_pos (htaken m le_rfl (by omega))]
      exact ih (fun k hk hlt => htaken k (by omega) hlt) (by omega) (by omega)

/-- The first suffix that is free. -/
def FirstFree (slug : Text) (stored : List Text) (n : ℕ) : Prop :=
  2 ≤ n ∧ suffixed slug n ∉ stored ∧ ∀ k, 2 ≤ k → k < n → suffixed slug k ∈ stored

theorem exists_firstFree (slug : Text) (stored : List Text) : ∃ n, FirstFree slug stored n := by
  classical
  have hexists := exists_free slug stored
  obtain ⟨hlow, hfree⟩ := Nat.find_spec hexists
  refine ⟨Nat.find hexists, hlow, hfree, ?_⟩
  intro k hk hlt
  by_contra hnot
  exact Nat.find_min hexists hlt ⟨hk, hnot⟩

theorem uniqueSlug_of_free (h : slug ∉ stored) (fuel : ℕ) :
    uniqueSlug fuel stored slug = some slug := by
  have hslug := contains_like stored (List.prefix_rfl (l := slug))
  simp only [uniqueSlug]
  rw [if_neg (mt hslug.mp h)]

theorem uniqueSlug_of_taken (h : slug ∈ stored) (hfirst : FirstFree slug stored n) {fuel : ℕ}
    (hfuel : stored.length < fuel) :
    uniqueSlug fuel stored slug = some (suffixed slug n) := by
  obtain ⟨hlow, hfree, htaken⟩ := hfirst
  have hslug := contains_like stored (List.prefix_rfl (l := slug))
  have hsuffixed (k : ℕ) := contains_like stored
    (List.prefix_append slug ('-' :: Nat.toDigits 10 k))
  have hlength := taken_le_length htaken
  simp only [uniqueSlug]
  rw [if_pos (hslug.mpr h)]
  refine searchSuffix_eq (fun k hk hlt => (hsuffixed k).mpr (htaken k hk hlt)) ?_ hlow (by omega)
  rw [Bool.eq_false_iff]
  exact mt (hsuffixed n).mp hfree

end search

/-- One of the texts that stand for the base is free and has at most 200 characters: the base
itself, or the base with a suffix where it is taken. -/
def ShortFree (base : Text) (stored : List Text) : Prop :=
  (base ∉ stored ∧ base.length ≤ 200) ∨
    (base ∈ stored ∧ ∃ n, 2 ≤ n ∧ suffixed base n ∉ stored ∧ (suffixed base n).length ≤ 200)

/- What is generated, and when it is short. -/
theorem exists_generated (u : Unicode) (name : Text) (stored : List Text) :
    ∃ slug, Generates u name stored slug ∧ slug ∉ stored ∧
      isSlug slug = isSlug (hyphenated (nameWords u name)) ∧
      (slug.length ≤ 200 ↔ ShortFree (hyphenated (nameWords u name)) stored) := by
  unfold Generates
  rw [slugify_eq]
  generalize hyphenated (nameWords u name) = base
  by_cases hbase : base ∈ stored
  · obtain ⟨n, hfirst⟩ := exists_firstFree base stored
    refine ⟨suffixed base n, fun fuel => uniqueSlug_of_taken hbase hfirst, hfirst.2.1,
      isSlug_suffixed, ?_⟩
    constructor
    · intro hshort
      exact Or.inr ⟨hbase, n, hfirst.1, hfirst.2.1, hshort⟩
    · rintro (⟨hfree, _⟩ | ⟨_, k, hk, hfree, hshort⟩)
      · exact absurd hbase hfree
      · -- The first free suffix is no longer than any other free one.
        have hle : n ≤ k := by
          by_contra hlt
          exact hfree (hfirst.2.2 k hk (by omega))
        exact (suffixed_length_le hle).trans hshort
  · refine ⟨base, fun fuel _ => uniqueSlug_of_free hbase fuel, hbase, rfl, ?_⟩
    constructor
    · intro hshort
      exact Or.inl ⟨hbase, hshort⟩
    · rintro (⟨_, hshort⟩ | ⟨hmem, _⟩)
      · exact hshort
      · exact absurd hmem hbase

theorem Generates.unique {u : Unicode} {name : Text} {stored : List Text} {slug slug' : Text}
    (h : Generates u name stored slug) (h' : Generates u name stored slug') : slug = slug' :=
  Option.some.inj
    ((h (stored.length + 1) (Nat.lt_succ_self _)).symm.trans (h' _ (Nat.lt_succ_self _)))

/- Every name gets a slug that is not stored yet. It is one that `CreatePublisherCommand` would
accept exactly when the alphanumeric characters of the name lower-case into `[a-z0-9]` and a short
text is free for its words. -/
theorem generatedSlug_valid_iff (u : Unicode) (command : DiscoverPublisherCommand)
    (stored : List Text) :
    (∃ slug, Generates u command.publisherName stored slug ∧ slug ∉ stored) ∧
      ((∃ slug, Generates u command.publisherName stored slug ∧ slug ∉ stored ∧ ValidSlug slug) ↔
        (∀ c ∈ strip command.publisherName, u.isAlnum c = true →
          ∀ d ∈ u.lower [c], isSlugChar d = true) ∧
        ShortFree (hyphenated (nameWords u command.publisherName)) stored) := by
  obtain ⟨slug, hgenerates, hfresh, hgrammar, hshort⟩ :=
    exists_generated u command.publisherName stored
  have hletters := (isSlug_hyphenated (nameWords_spec (u := u))).trans
    (nameWords_slugChars u command.publisherName)
  refine ⟨⟨slug, hgenerates, hfresh⟩, ?_⟩
  rw [← hletters, ← hgrammar, ← hshort]
  constructor
  · rintro ⟨slug', hgenerates', _, hlength, hslug⟩
    obtain rfl := hgenerates.unique hgenerates'
    exact ⟨hslug, hlength⟩
  · rintro ⟨hslug, hlength⟩
    exact ⟨slug, hgenerates, hfresh, hlength, hslug⟩

/-- Tables with one letter outside ASCII. -/
def umlautUnicode : Unicode :=
  { asciiUnicode with
    isAlnum := fun c => c.isAlphanum || c == 'ü'
    isAlnum_ascii := by
      intro c hc
      rw [Bool.or_eq_left_iff_imp]
      intro hu
      rw [beq_iff_eq.mp hu] at hc
      exact absurd hc (by decide) }

def longName : DiscoverPublisherCommand where
  publisherName := List.replicate 201 'a'
  publisherName_stripped := by decide +kernel
  publisherName_length := by decide +kernel

def umlautName : DiscoverPublisherCommand where
  publisherName := ['ü']
  publisherName_stripped := by decide +kernel
  publisherName_length := by decide +kernel

/- 201 letters make a slug of 201 characters, and a letter outside ASCII stays in the slug. -/
theorem longName_umlautName_not_valid :
    (¬ ∃ slug, Generates asciiUnicode longName.publisherName [] slug ∧ slug ∉ [] ∧
      ValidSlug slug) ∧
    ¬ ∃ slug, Generates umlautUnicode umlautName.publisherName [] slug ∧ slug ∉ [] ∧
      ValidSlug slug := by
  constructor
  · rintro ⟨slug, hgenerates, _, hlength, _⟩
    have hslug := hgenerates 1 (by decide)
    rw [slugify_eq, uniqueSlug_of_free (by simp)] at hslug
    rw [← Option.some.inj hslug] at hlength
    exact absurd hlength (by decide +kernel)
  · rintro ⟨slug, hgenerates, _, _, hgrammar⟩
    have hslug := hgenerates 1 (by decide)
    rw [slugify_eq, uniqueSlug_of_free (by simp)] at hslug
    rw [← Option.some.inj hslug] at hgrammar
    exact absurd hgrammar (by decide +kernel)

end Newsintel.Sources
