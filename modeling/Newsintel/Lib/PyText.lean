import Mathlib.Data.List.Infix
import Mathlib.Data.List.Sort
import Newsintel.Basic

/-!
# Python text operations

`str.strip`, `str.split` and the `re` substitution of runs of whitespace, with
one description of whitespace normalisation: the words of a text joined by
single blanks. Case mapping is data of the interpreter's Unicode tables and
enters as a parameter with its ASCII part fixed.
-/

namespace Newsintel.PyText

/-- `str.isspace` of one character, which is also `\s` in a `str` pattern. -/
def isSpace (c : Char) : Bool :=
  (9 ≤ c.toNat && c.toNat ≤ 13) || (28 ≤ c.toNat && c.toNat ≤ 32) ||
    [133, 160, 5760, 8232, 8233, 8239, 8287, 12288].contains c.toNat ||
    (8192 ≤ c.toNat && c.toNat ≤ 8202)

/-- The part of the Unicode tables that the services use. -/
structure Unicode where
  /-- `str.lower` -/
  lower : Text → Text
  lower_ascii : ∀ t, (∀ c ∈ t, c.toNat < 128) → lower t = t.map Char.toLower
  /-- lower-casing yields ASCII letters, but no other ASCII characters -/
  lower_symbol : ∀ t, ∀ c ∈ lower t, c.toNat < 128 → c.isAlpha = false → c ∈ t
  /-- `unicodedata.normalize("NFKC", ·)` -/
  nfkc : Text → Text
  /-- `str.isalnum` of one character -/
  isAlnum : Char → Bool
  isAlnum_ascii : ∀ c, c.toNat < 128 → isAlnum c = c.isAlphanum
  /-- `str.isdecimal` of one character -/
  isDecimal : Char → Bool
  isDecimal_ascii : ∀ c, c.toNat < 128 → isDecimal c = c.isDigit

/-- A property of the ASCII characters, checked one by one. -/
theorem ascii_cases {P : Char → Prop} (h : ∀ n < 128, P (Char.ofNat n)) {c : Char}
    (hc : c.toNat < 128) : P c := by
  rw [← Char.ofNat_toNat c]
  exact h _ hc

/- A property of the characters of one text, checked one by one. -/
theorem forall_mem_of_all {P : Char → Prop} [DecidablePred P] {t : Text}
    (h : (t.all fun c => decide (P c)) = true) : ∀ c ∈ t, P c :=
  fun c hc => of_decide_eq_true (List.all_eq_true.mp h c hc)

theorem toLower_of_not_ascii {c : Char} (hc : ¬ c.toNat < 128) : c.toLower = c := by
  unfold Char.toLower
  rw [dif_neg]
  rintro ⟨-, hle⟩
  have hz : c.toNat ≤ 90 := UInt32.le_iff_toNat_le.mp hle
  omega

theorem toLower_symbol {c : Char} (h : c.toLower.isAlpha = false) : c.toLower = c := by
  by_cases hc : c.toNat < 128
  · exact ascii_cases (P := fun c => c.toLower.isAlpha = false → c.toLower = c) (by decide) hc h
  · exact toLower_of_not_ascii hc

theorem toLower_toLower (c : Char) : c.toLower.toLower = c.toLower := by
  by_cases hc : c.toNat < 128
  · exact ascii_cases (P := fun c => c.toLower.toLower = c.toLower) (by decide) hc
  · rw [toLower_of_not_ascii hc, toLower_of_not_ascii hc]

theorem map_toLower_eq_self {t : Text} (h : ∀ c ∈ t, c.toLower = c) :
    t.map Char.toLower = t := by
  conv_rhs => rw [← List.map_id t]
  exact List.map_congr_left h

/- Lower-casing leaves separators alone that are no letters, and makes none. -/
theorem splitOn_lower {c : Char} (hc : c.toLower.isAlpha = false) (t : Text) :
    (t.map Char.toLower).splitOn c = (t.splitOn c).map (·.map Char.toLower) := by
  have hself := toLower_symbol hc
  induction t with
  | nil => rfl
  | cons d t ih =>
    have hsep : d.toLower = c ↔ d = c := by
      constructor
      · intro h
        rw [← toLower_symbol (c := d) (by rw [h, ← hself]; exact hc), h]
      · rintro rfl
        exact hself
    rw [List.map_cons, List.splitOn_cons_eq_if_modifyHead, List.splitOn_cons_eq_if_modifyHead, ih]
    simp only [beq_iff_eq, hsep]
    split
    · rfl
    · cases t.splitOn c <;> rfl

/-- Tables that leave every character above ASCII alone. -/
def asciiUnicode : Unicode where
  lower := List.map Char.toLower
  lower_ascii := fun _ _ => rfl
  lower_symbol := by
    intro t c hc _ hsymbol
    obtain ⟨d, hd, rfl⟩ := List.mem_map.mp hc
    exact (toLower_symbol hsymbol).symm ▸ hd
  nfkc := id
  isAlnum := Char.isAlphanum
  isAlnum_ascii := fun _ _ => rfl
  isDecimal := Char.isDigit
  isDecimal_ascii := fun _ _ => rfl

def lstrip (t : Text) : Text := t.dropWhile isSpace

def rstrip (t : Text) : Text := (t.reverse.dropWhile isSpace).reverse

def strip (t : Text) : Text := rstrip (lstrip t)

/-- `str.split()`: the maximal runs without whitespace. -/
def words (t : Text) : List Text := (t.splitOnP isSpace).filter (· ≠ [])

/-- `re.compile(r"\s+").sub(" ", t)`, after whitespace when `gap` is set. -/
def collapseFrom : Bool → Text → Text
  | _, [] => []
  | gap, c :: t =>
    if isSpace c then
      if gap then collapseFrom true t else ' ' :: collapseFrom true t
    else c :: collapseFrom false t

def collapse (t : Text) : Text := collapseFrom false t

/-- `" ".join(parts)`. -/
def join (parts : List Text) : Text := [' '].intercalate parts

/-- `s <= t`, by code points. -/
def textLe : Text → Text → Bool
  | [], _ => true
  | _ :: _, [] => false
  | c :: s, d :: t => c.toNat < d.toNat || (c == d && textLe s t)

/-- `sorted(ts)`. -/
def sortTexts (ts : List Text) : List Text := ts.insertionSort fun s t => textLe s t

/-- `needle in hay`. -/
def contains (needle hay : Text) : Bool := decide (needle <:+: hay)

/- What `strip` and its like take away at both ends. -/
theorem exists_around (p : Char → Bool) (t : Text) : ∃ before after,
    (∀ c ∈ before, p c = true) ∧ (∀ c ∈ after, p c = true) ∧
      t = before ++ ((t.dropWhile p).reverse.dropWhile p).reverse ++ after := by
  have htaken : ∀ t : Text, ∀ c ∈ t.takeWhile p, p c = true :=
    fun t c hc => List.all_eq_true.mp List.all_takeWhile c hc
  have hinner := congrArg List.reverse
    (List.takeWhile_append_dropWhile (p := p) (l := (t.dropWhile p).reverse))
  rw [List.reverse_append, List.reverse_reverse] at hinner
  refine ⟨t.takeWhile p, ((t.dropWhile p).reverse.takeWhile p).reverse, htaken t, ?_, ?_⟩
  · exact fun c hc => htaken _ c (List.mem_reverse.mp hc)
  · rw [List.append_assoc, hinner, List.takeWhile_append_dropWhile]

theorem strip_eq_self {t : Text} (hhead : ∀ c, t.head? = some c → isSpace c = false)
    (hlast : ∀ c, t.getLast? = some c → isSpace c = false) : strip t = t := by
  have hdrop : ∀ s : Text, (∀ c, s.head? = some c → isSpace c = false) →
      s.dropWhile isSpace = s := by
    intro s hs
    cases s with
    | nil => rfl
    | cons c s => rw [List.dropWhile_cons_of_neg (by simp [hs c rfl])]
  have hrev : t.reverse.dropWhile isSpace = t.reverse := by
    apply hdrop
    intro c hc
    exact hlast c (List.head?_reverse ▸ hc)
  rw [strip, lstrip, hdrop t hhead, rstrip, hrev, List.reverse_reverse]

/-! ### The order of texts -/

theorem textLe_total (s t : Text) : textLe s t = true ∨ textLe t s = true := by
  induction s generalizing t with
  | nil => exact Or.inl rfl
  | cons c s ih =>
    cases t with
    | nil => exact Or.inr rfl
    | cons d t =>
      rcases Nat.lt_trichotomy c.toNat d.toNat with h | h | h
      · simp [textLe, h]
      · obtain rfl := Char.toNat_inj.mp h
        simpa [textLe] using ih t
      · simp [textLe, h]

theorem textLe_antisymm {s t : Text} (h : textLe s t = true) (h' : textLe t s = true) : s = t := by
  induction s generalizing t with
  | nil =>
    cases t with
    | nil => rfl
    | cons d t => contradiction
  | cons c s ih =>
    cases t with
    | nil => contradiction
    | cons d t =>
      simp only [textLe, Bool.or_eq_true, decide_eq_true_eq, Bool.and_eq_true, beq_iff_eq] at h h'
      rcases h with h | ⟨rfl, h⟩ <;> rcases h' with h' | ⟨h'c, h'⟩
      · omega
      · rw [h'c] at h
        omega
      · omega
      · rw [ih h h']

theorem textLe_trans {r s t : Text} (h : textLe r s = true) (h' : textLe s t = true) :
    textLe r t = true := by
  induction r generalizing s t with
  | nil => rfl
  | cons c r ih =>
    cases s with
    | nil => contradiction
    | cons d s =>
      cases t with
      | nil => contradiction
      | cons e t =>
        simp only [textLe, Bool.or_eq_true, decide_eq_true_eq, Bool.and_eq_true, beq_iff_eq] at h h' ⊢
        rcases h with h | ⟨rfl, h⟩ <;> rcases h' with h' | ⟨rfl, h'⟩
        · exact Or.inl (h.trans h')
        · exact Or.inl h
        · exact Or.inl h'
        · exact Or.inr ⟨rfl, ih h h'⟩

/-! ### Joining -/

variable {c : Char} {t u w : Text} {ws : List Text}

@[simp] theorem join_nil : join [] = [] := rfl

@[simp] theorem join_singleton (w : Text) : join [w] = w := List.intercalate_singleton

theorem join_cons (w : Text) (h : ws ≠ []) : join (w :: ws) = w ++ ' ' :: join ws := by
  obtain ⟨x, xs, rfl⟩ := List.exists_cons_of_ne_nil h
  simp [join, List.intercalate]

theorem join_append {vs : List Text} (hv : vs ≠ []) (hw : ws ≠ []) :
    join (vs ++ ws) = join vs ++ ' ' :: join ws := by
  induction vs with
  | nil => exact absurd rfl hv
  | cons v vs ih =>
    by_cases hn : vs = []
    · subst hn
      simp [join_cons _ hw]
    · rw [List.cons_append, join_cons v (by simp [hn]), join_cons v hn, ih hn]
      simp

theorem infix_join_left (vs ws : List Text) : join vs <:+: join (vs ++ ws) := by
  by_cases hv : vs = []
  · subst hv
    exact List.nil_infix
  · by_cases hw : ws = []
    · simp [hw]
    · rw [join_append hv hw]
      exact List.infix_append [] _ _

theorem infix_join_right (vs ws : List Text) : join ws <:+: join (vs ++ ws) := by
  by_cases hw : ws = []
  · subst hw
    exact List.nil_infix
  · by_cases hv : vs = []
    · simp [hv]
    · rw [join_append hv hw]
      exact (List.suffix_cons ' ' (join ws)).isInfix.trans (List.suffix_append _ _).isInfix

/-- Consecutive words of a text stand together in it. -/
theorem infix_join (us vs ws : List Text) : join vs <:+: join (us ++ (vs ++ ws)) :=
  (infix_join_left vs ws).trans (infix_join_right us (vs ++ ws))

theorem join_eq_nil (h : ∀ w ∈ ws, w ≠ []) : join ws = [] ↔ ws = [] := by
  cases ws with
  | nil => simp
  | cons w ws =>
    have hw : w ≠ [] := h w (by simp)
    by_cases hn : ws = []
    · simp [hn, hw]
    · simp [join_cons w hn]

/-! ### Words -/

@[simp] theorem words_nil : words [] = [] := by simp [words]

theorem words_append_space (hc : isSpace c = true) (x y : Text) :
    words (x ++ c :: y) = words x ++ words y := by
  simp only [words]
  rw [List.splitOnP_append_cons x y hc, List.filter_append]

theorem words_cons_space (hc : isSpace c = true) (t : Text) : words (c :: t) = words t := by
  simpa using words_append_space hc [] t

theorem words_eq_singleton (hne : w ≠ []) (h : ∀ c ∈ w, isSpace c = false) :
    words w = [w] := by
  simp [words, List.splitOnP_eq_singleton h, hne]

theorem ne_nil_of_mem_words (h : w ∈ words t) : w ≠ [] := by
  simpa using (List.mem_filter.mp h).2

theorem not_of_mem_splitOnP {p : Char → Bool} (h : w ∈ t.splitOnP p) : ∀ c ∈ w, p c = false := by
  induction t generalizing w with
  | nil =>
    simp only [List.splitOnP_nil, List.mem_singleton] at h
    simp [h]
  | cons d t ih =>
    obtain ⟨v, vs, hv⟩ := List.exists_cons_of_ne_nil (List.splitOnP_ne_nil p t)
    rw [List.splitOnP_cons_eq_if_modifyHead, hv, List.modifyHead_cons] at h
    split at h
    · rcases List.mem_cons.mp h with rfl | h
      · simp
      · exact ih (hv ▸ h)
    · rename_i hd
      rcases List.mem_cons.mp h with rfl | h
      · intro c hc
        rcases List.mem_cons.mp hc with rfl | hc
        · simpa using hd
        · exact ih (w := v) (by simp [hv]) c hc
      · exact ih (by simp [hv, h])

theorem not_mem_of_mem_splitOn (h : w ∈ t.splitOn c) : c ∉ w := by
  intro hc
  have hne := not_of_mem_splitOnP (p := (· == c)) h c hc
  simp at hne

theorem words_of_mem_words (h : w ∈ words t) : words w = [w] :=
  words_eq_singleton (ne_nil_of_mem_words h) (not_of_mem_splitOnP (List.mem_filter.mp h).1)

/-- Joining with blanks concatenates the words. -/
theorem words_join (ts : List Text) : words (join ts) = ts.flatMap words := by
  induction ts with
  | nil => simp
  | cons t ts ih =>
    by_cases hn : ts = []
    · simp [hn]
    · rw [join_cons t hn, words_append_space (by decide), ih, List.flatMap_cons]

theorem words_join_words (t : Text) : words (join (words t)) = words t := by
  rw [words_join]
  have h : ∀ ws : List Text, (∀ w ∈ ws, words w = [w]) → ws.flatMap words = ws := by
    intro ws hws
    induction ws with
    | nil => rfl
    | cons w ws ih =>
      rw [List.flatMap_cons, hws w (by simp), ih fun v hv => hws v (by simp [hv])]
      rfl
  exact h _ fun w => words_of_mem_words

/-! ### Whitespace normalisation -/

theorem rstrip_eq_self (h : ∀ c ∈ w, isSpace c = false) : rstrip w = w := by
  cases hr : w.reverse with
  | nil => simp [rstrip, List.reverse_eq_nil_iff.mp hr]
  | cons c r =>
    have hc : c ∈ w := by
      rw [← List.mem_reverse, hr]
      exact List.mem_cons_self
    rw [rstrip, hr, List.dropWhile_cons_of_neg (by simp [h c hc]), ← hr, List.reverse_reverse]

theorem rstrip_append_of_ne_nil (h : rstrip u ≠ []) : rstrip (t ++ u) = t ++ rstrip u := by
  have hd : u.reverse.dropWhile isSpace ≠ [] := by simpa [rstrip] using h
  simp only [rstrip, List.reverse_append, List.dropWhile_append]
  cases hdw : u.reverse.dropWhile isSpace with
  | nil => exact absurd hdw hd
  | cons c r => simp

theorem rstrip_append_of_nil (h : rstrip u = []) : rstrip (t ++ u) = rstrip t := by
  have hd : u.reverse.dropWhile isSpace = [] := by simpa [rstrip] using h
  simp [rstrip, List.dropWhile_append, hd]

theorem rstrip_cons_space (hc : isSpace c = true) (h : rstrip u = []) : rstrip (c :: u) = [] := by
  have hs : rstrip [c] = [] := by simp [rstrip, hc]
  simpa using (rstrip_append_of_nil (t := [c]) h).trans hs

theorem dropWhile_collapseFrom_true (t : Text) :
    (collapseFrom true t).dropWhile isSpace = collapseFrom true t := by
  induction t with
  | nil => rfl
  | cons c t ih =>
    by_cases hc : isSpace c = true
    · simpa [collapseFrom, hc] using ih
    · simp [collapseFrom, hc]

theorem lstrip_collapse (t : Text) : lstrip (collapse t) = collapseFrom true t := by
  cases t with
  | nil => rfl
  | cons c t =>
    by_cases hc : isSpace c = true
    · have hblank : isSpace ' ' = true := by decide
      simp [lstrip, collapse, collapseFrom, hc, hblank, dropWhile_collapseFrom_true]
    · simp [lstrip, collapse, collapseFrom, hc]

/- Both states of the substitution at once: after a gap, and inside a word whose
first characters `w` have been read. -/
theorem rstrip_collapseFrom (t : Text) :
    rstrip (collapseFrom true t) = join (words t) ∧
      ∀ w : Text, w ≠ [] → (∀ c ∈ w, isSpace c = false) →
        rstrip (w ++ collapseFrom false t) = join (words (w ++ t)) := by
  induction t with
  | nil =>
    refine ⟨by simp [collapseFrom, rstrip], ?_⟩
    intro w hne hw
    simp [collapseFrom, rstrip_eq_self hw, words_eq_singleton hne hw]
  | cons c t ih =>
    obtain ⟨hgap, hword⟩ := ih
    by_cases hc : isSpace c = true
    · constructor
      · simpa [collapseFrom, hc, words_cons_space hc] using hgap
      · intro w hne hw
        rw [words_append_space hc, words_eq_singleton hne hw]
        simp only [collapseFrom, hc, if_true, Bool.false_eq_true, if_false, List.singleton_append]
        by_cases hn : words t = []
        · have hnil : rstrip (collapseFrom true t) = [] := by rw [hgap, hn, join_nil]
          rw [rstrip_append_of_nil (rstrip_cons_space (by decide) hnil), rstrip_eq_self hw, hn,
            join_singleton]
        · have hj : join (words t) ≠ [] := fun h =>
            hn ((join_eq_nil fun w => ne_nil_of_mem_words).mp h)
          have hsome : rstrip (collapseFrom true t) ≠ [] := hgap ▸ hj
          have hcons : rstrip (' ' :: collapseFrom true t) = ' ' :: join (words t) := by
            simpa [hgap] using rstrip_append_of_ne_nil (t := [' ']) hsome
          rw [rstrip_append_of_ne_nil (by simp [hcons]), hcons, join_cons w hn]
    · have hns : isSpace c = false := by simpa using hc
      constructor
      · have h := hword [c] (by simp) (by simpa using hns)
        simpa [collapseFrom, hns] using h
      · intro w hne hw
        have h := hword (w ++ [c]) (by simp) (by
          intro d hd
          rcases List.mem_append.mp hd with hd | hd
          · exact hw d hd
          · rw [List.mem_singleton.mp hd]
            exact hns)
        simpa [collapseFrom, hns] using h

theorem strip_collapse (t : Text) : strip (collapse t) = join (words t) := by
  rw [strip, lstrip_collapse]
  exact (rstrip_collapseFrom t).1

end Newsintel.PyText
