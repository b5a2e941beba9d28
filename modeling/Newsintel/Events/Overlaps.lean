import Mathlib.Algebra.Order.Field.Basic
import Mathlib.Order.Interval.Finset.Nat
import Newsintel.Events.Matching
import Newsintel.Lib.RegexLines

/-!
# Overlaps of texts

The overlaps that the features are made of, as fractions, and what is taken from a text of two
lines: tokens, identifiers and locations are those of the lines, shingles may run from the one
into the other.
-/

namespace Newsintel.Events

open PyText Regex

/-- The elements that two sets share, of all their elements; 0 if there are none. -/
def share (left right : Finset Text) : ℚ := (left ∩ right).card / (left ∪ right).card

/-- The elements that two sets share, of the smaller one. -/
def overlapShare (unknown missing : ℚ) (left right : Finset Text) : ℚ :=
  if left = ∅ ∧ right = ∅ then unknown
  else if left = ∅ ∨ right = ∅ then missing
  else (left ∩ right).card / (min left.card right.card : ℕ)

/-- `str.lower` works line by line. -/
def LowersLines (u : Unicode) : Prop :=
  ∀ s t, u.lower (s ++ '\n' :: t) = u.lower s ++ '\n' :: u.lower t

variable {u : Unicode} {left right : Finset Text} {s t : Text} {size : ℕ}
  {window : List Text} {l xs ys : List Text}

/-! ### Shares -/

theorem jaccard_eq (left right : Finset Text) : jaccard left right = .ok (share left right) := by
  unfold jaccard share
  split
  · rename_i hempty
    obtain rfl | rfl := hempty
    · simp
    · simp
  · rename_i hne
    rw [divide, if_neg]
    intro hcard
    exact hne (Or.inl (Finset.union_eq_empty.mp (Finset.card_eq_zero.mp hcard)).1)

theorem divide_overlap (h : ¬ (left = ∅ ∨ right = ∅)) :
    divide (left ∩ right).card (min left.card right.card) =
      .ok ((left ∩ right).card / (min left.card right.card : ℕ)) := by
  rw [not_or] at h
  have hleft := Finset.card_pos.mpr (Finset.nonempty_iff_ne_empty.mpr h.1)
  have hright := Finset.card_pos.mpr (Finset.nonempty_iff_ne_empty.mpr h.2)
  rw [divide, if_neg]
  omega

theorem overlapOrUnknown_eq (left right : Finset Text) :
    overlapOrUnknown left right = .ok (overlapShare (1 / 2) 0 left right) := by
  unfold overlapOrUnknown overlapShare
  split
  · rfl
  · split
    · rfl
    · rename_i h
      exact divide_overlap h

theorem geographicCompatibility_eq (left right : Finset Text) :
    geographicCompatibility left right = .ok (overlapShare (1 / 2) (2 / 10) left right) := by
  unfold geographicCompatibility overlapShare
  split
  · rfl
  · rename_i hnone
    split
    · rfl
    · rename_i h
      rw [overlapOrUnknown, if_neg hnone, if_neg h]
      exact divide_overlap h

theorem weightedSimilarity_eq (tokenWeight shingleWeight : ℚ)
    (leftTokens rightTokens leftShingles rightShingles : Finset Text) :
    weightedSimilarity tokenWeight shingleWeight leftTokens rightTokens leftShingles rightShingles =
      .ok (tokenWeight * share leftTokens rightTokens +
        shingleWeight * share leftShingles rightShingles) := by
  rw [weightedSimilarity, jaccard_eq, jaccard_eq]
  rfl

theorem share_self (left : Finset Text) : share left left = if left = ∅ then 0 else 1 := by
  rw [share, Finset.inter_self, Finset.union_self]
  split
  · rename_i h
    rw [h, Finset.card_empty, Nat.cast_zero, div_zero]
  · rename_i h
    exact div_self (Nat.cast_ne_zero.mpr (Finset.card_ne_zero.mpr
      (Finset.nonempty_iff_ne_empty.mpr h)))

/- One set is in the other, which has not many more elements. -/
theorem le_share {k : ℕ} (hsubset : left ⊆ right) (hcard : right.card ≤ left.card + k)
    (hne : left ≠ ∅) : (left.card : ℚ) / (left.card + k : ℕ) ≤ share left right := by
  have hpos : 0 < left.card := Finset.card_pos.mpr (Finset.nonempty_iff_ne_empty.mpr hne)
  have hright : (0 : ℚ) < right.card :=
    Nat.cast_pos.mpr (hpos.trans_le (Finset.card_le_card hsubset))
  rw [share, Finset.inter_eq_left.mpr hsubset, Finset.union_eq_right.mpr hsubset]
  exact div_le_div_of_nonneg_left (Nat.cast_nonneg _) hright (Nat.cast_le.mpr hcard)

theorem overlapShare_self (unknown missing : ℚ) (left : Finset Text) :
    overlapShare unknown missing left left = if left = ∅ then unknown else 1 := by
  unfold overlapShare
  simp only [and_self, or_self, Finset.inter_self, min_self]
  split
  · rfl
  · rename_i h
    exact div_self (Nat.cast_ne_zero.mpr (Finset.card_ne_zero.mpr
      (Finset.nonempty_iff_ne_empty.mpr h)))

theorem share_mem (left right : Finset Text) : 0 ≤ share left right ∧ share left right ≤ 1 := by
  have hcard : (left ∩ right).card ≤ (left ∪ right).card :=
    Finset.card_le_card (Finset.inter_subset_left.trans Finset.subset_union_left)
  exact ⟨div_nonneg (Nat.cast_nonneg _) (Nat.cast_nonneg _),
    div_le_one_of_le₀ (Nat.cast_le.mpr hcard) (Nat.cast_nonneg _)⟩

theorem overlapShare_mem {unknown missing : ℚ} (hunknown : 0 ≤ unknown ∧ unknown ≤ 1)
    (hmissing : 0 ≤ missing ∧ missing ≤ 1) (left right : Finset Text) :
    0 ≤ overlapShare unknown missing left right ∧ overlapShare unknown missing left right ≤ 1 := by
  unfold overlapShare
  split
  · exact hunknown
  · split
    · exact hmissing
    · have hcard : (left ∩ right).card ≤ min left.card right.card :=
        le_min (Finset.card_le_card Finset.inter_subset_left)
          (Finset.card_le_card Finset.inter_subset_right)
      exact ⟨div_nonneg (Nat.cast_nonneg _) (Nat.cast_nonneg _),
        div_le_one_of_le₀ (Nat.cast_le.mpr hcard) (Nat.cast_nonneg _)⟩

/-! ### Shingles -/

theorem windows_eq_nil (hsize : 0 < size) :
    windows size l = [] ↔ l.length < size := by
  cases l with
  | nil => exact iff_of_true rfl hsize
  | cons token rest =>
    rw [windows]
    split
    · rename_i h
      exact iff_of_true rfl h
    · rename_i h
      exact iff_of_false nofun h

theorem shingles_eq_empty (hsize : 0 < size) :
    shingles size l = ∅ ↔ l.length < size := by
  rw [shingles, List.toFinset_eq_empty_iff, List.map_eq_nil_iff, windows_eq_nil hsize]

/- The windows are the infixes of their size. -/
theorem mem_windows (hsize : 0 < size) :
    window ∈ windows size l ↔ window.length = size ∧ window <:+: l := by
  induction l with
  | nil =>
    refine iff_of_false List.not_mem_nil ?_
    rintro ⟨hlength, hinfix⟩
    rw [List.infix_nil.mp hinfix, List.length_nil] at hlength
    omega
  | cons token rest ih =>
    rw [windows]
    split
    · rename_i hshort
      refine iff_of_false List.not_mem_nil ?_
      rintro ⟨hlength, hinfix⟩
      have hle := hinfix.length_le
      omega
    · rename_i hlong
      rw [List.mem_cons, ih, List.infix_cons_iff]
      constructor
      · rintro (rfl | ⟨hlength, hinfix⟩)
        · exact ⟨List.length_take_of_le (by omega), Or.inl (List.take_prefix _ _)⟩
        · exact ⟨hlength, Or.inr hinfix⟩
      · rintro ⟨hlength, hprefix | hinfix⟩
        · exact Or.inl (hlength ▸ List.prefix_iff_eq_take.mp hprefix)
        · exact Or.inr ⟨hlength, hinfix⟩

theorem mem_shingles (hsize : 0 < size) {shingle : Text} :
    shingle ∈ shingles size l ↔
      ∃ window, (window.length = size ∧ window <:+: l) ∧ join window = shingle := by
  simp only [shingles, List.mem_toFinset, List.mem_map, mem_windows hsize]

theorem shingles_subset (hsize : 0 < size) (h : xs <:+: ys) :
    shingles size xs ⊆ shingles size ys := by
  intro shingle hshingle
  obtain ⟨window, ⟨hlength, hinfix⟩, rfl⟩ := (mem_shingles hsize).mp hshingle
  exact (mem_shingles hsize).mpr ⟨window, ⟨hlength, hinfix.trans h⟩, rfl⟩

/-- The shingles that run from the one list into the other. -/
def straddling (size : ℕ) (xs ys : List Text) : Finset Text :=
  (Finset.Icc 1 (min (size - 1) xs.length)).image fun k =>
    join (xs.drop (xs.length - k) ++ ys.take (size - k))

theorem card_straddling_le : (straddling size xs ys).card ≤ min (size - 1) xs.length := by
  refine Finset.card_image_le.trans ?_
  rw [Nat.card_Icc, Nat.add_sub_cancel]

theorem shingles_append_subset (hsize : 0 < size) (xs ys : List Text) :
    shingles size (xs ++ ys) ⊆ shingles size xs ∪ shingles size ys ∪ straddling size xs ys := by
  intro shingle hshingle
  obtain ⟨window, ⟨hlength, hinfix⟩, rfl⟩ := (mem_shingles hsize).mp hshingle
  rw [Finset.mem_union, Finset.mem_union]
  obtain hinfix | hinfix | ⟨front, back, hfront0, hback0, rfl, hfront, hback⟩ :=
    List.infix_append_iff_ne_nil.mp hinfix
  · exact Or.inl (Or.inl ((mem_shingles hsize).mpr ⟨window, ⟨hlength, hinfix⟩, rfl⟩))
  · exact Or.inl (Or.inr ((mem_shingles hsize).mpr ⟨window, ⟨hlength, hinfix⟩, rfl⟩))
  · refine Or.inr (Finset.mem_image.mpr ⟨front.length, ?_, ?_⟩)
    · have hfront0 := List.length_pos_of_ne_nil hfront0
      have hback0 := List.length_pos_of_ne_nil hback0
      have hle := hfront.length_le
      rw [List.length_append] at hlength
      rw [Finset.mem_Icc]
      omega
    · rw [List.length_append] at hlength
      have hback' : size - front.length = back.length := by omega
      rw [hback', ← List.suffix_iff_eq_drop.mp hfront, ← List.prefix_iff_eq_take.mp hback]

/- A beginning that is repeated adds few shingles. -/
theorem card_shingles_repeat_le (hsize : 0 < size) (xs ys : List Text) :
    (shingles size (xs ++ (xs ++ ys))).card ≤
      (shingles size (xs ++ ys)).card + min (size - 1) xs.length := by
  have hbeginning : shingles size xs ∪ shingles size (xs ++ ys) = shingles size (xs ++ ys) :=
    Finset.union_eq_right.mpr (shingles_subset hsize (List.prefix_append xs ys).isInfix)
  have hsubset := shingles_append_subset hsize xs (xs ++ ys)
  rw [hbeginning] at hsubset
  refine (Finset.card_le_card hsubset).trans ((Finset.card_union_le _ _).trans ?_)
  exact Nat.add_le_add_left card_straddling_le _

/-! ### Lines -/

theorem tokens_lines (h : LowersLines u) :
    tokens u (s ++ '\n' :: t) = tokens u s ++ tokens u t := by
  have hapart : Apart '\n' tokenPattern := ⟨rfl, rfl⟩
  rw [tokens, h, findall_append hapart, List.filter_append]
  rfl

theorem isWord_newline (u : Unicode) : isWord u (some '\n') = false := by
  rw [isWord, u.isAlnum_ascii '\n' (by decide)]
  rfl

theorem isDecimal_newline (u : Unicode) : u.isDecimal '\n' = false := by
  rw [u.isDecimal_ascii '\n' (by decide)]
  rfl

theorem apart_plus {sep : Char} {r : Pattern} (h : Apart sep r) : Apart sep (plus r) := ⟨h, h⟩

theorem apart_identifierPattern (u : Unicode) : Apart '\n' (identifierPattern u) := by
  have hboundary := apart_boundary u (isWord_newline u)
  have hdigit : Apart '\n' (digit u) := isDecimal_newline u
  have hupper : Apart '\n' (.char Intelligence.isUpper) := rfl
  have hletters : Apart '\n' (.seq (exactly (.char Intelligence.isUpper) 2)
      (atMost (.char Intelligence.isUpper) 6)) := ⟨apart_exactly hupper 2, apart_atMost hupper 6⟩
  have hhyphen : Apart '\n' (literal "-") := apart_literal (by decide)
  have hcve : Apart '\n' (seqs [literal "CVE-", exactly (digit u) 4, literal "-",
      exactly (digit u) 4, atMost (digit u) 3]) := by
    apply apart_seqs
    simp only [List.forall_mem_cons]
    exact ⟨apart_literal (by decide), apart_exactly hdigit 4, hhyphen, apart_exactly hdigit 4,
      apart_atMost hdigit 3, List.forall_mem_nil _⟩
  have hcode : Apart '\n' (seqs [.seq (exactly (.char Intelligence.isUpper) 2)
      (atMost (.char Intelligence.isUpper) 6), literal "-", plus (digit u)]) := by
    apply apart_seqs
    simp only [List.forall_mem_cons]
    exact ⟨hletters, hhyphen, apart_plus hdigit, List.forall_mem_nil _⟩
  have hnumber : Apart '\n' (seqs [plus (digit u),
      optional (.seq (literal ".") (plus (digit u))), optional (literal "%")]) := by
    apply apart_seqs
    simp only [List.forall_mem_cons]
    have hfraction : Apart '\n' (.seq (literal ".") (plus (digit u))) :=
      ⟨apart_literal (by decide), apart_plus hdigit⟩
    exact ⟨apart_plus hdigit, apart_atMost hfraction 1, apart_atMost (apart_literal (by decide)) 1,
      List.forall_mem_nil _⟩
  apply apart_seqs
  simp only [List.forall_mem_cons]
  exact ⟨hboundary, ⟨hcve, hcode, hletters, hnumber⟩, hboundary, List.forall_mem_nil _⟩

theorem identifiers_lines (u : Unicode) (s t : Text) :
    identifiers u (s ++ '\n' :: t) = identifiers u s ∪ identifiers u t := by
  rw [identifiers, findall_append (apart_identifierPattern u), List.filter_append,
    List.map_append, List.toFinset_append]
  rfl

theorem locations_lines (h : LowersLines u) :
    locations u (s ++ '\n' :: t) = locations u s ∪ locations u t := by
  have hterm : ∀ term ∈ locationTerms, Apart '\n' (termPattern u term) := by
    intro term hterm
    have hline : ∀ term ∈ locationTerms, '\n' ∉ term.toList := by decide
    have hboundary := apart_boundary u (isWord_newline u)
    apply apart_seqs
    simp only [List.forall_mem_cons]
    exact ⟨hboundary, apart_literal (hline term hterm), hboundary, List.forall_mem_nil _⟩
  ext location
  simp only [locations, Finset.mem_union, List.mem_toFinset, List.mem_map, List.mem_filter, h s t]
  constructor
  · rintro ⟨term, ⟨hmem, hsearch⟩, rfl⟩
    rw [search_append (hterm term hmem), Bool.or_eq_true] at hsearch
    exact hsearch.imp (fun h => ⟨term, ⟨hmem, h⟩, rfl⟩) fun h => ⟨term, ⟨hmem, h⟩, rfl⟩
  · rintro (⟨term, ⟨hmem, hsearch⟩, rfl⟩ | ⟨term, ⟨hmem, hsearch⟩, rfl⟩)
    · refine ⟨term, ⟨hmem, ?_⟩, rfl⟩
      rw [search_append (hterm term hmem), hsearch, Bool.true_or]
    · refine ⟨term, ⟨hmem, ?_⟩, rfl⟩
      rw [search_append (hterm term hmem), hsearch, Bool.or_true]

end Newsintel.Events
