import Mathlib.Data.List.DropRight
import Mathlib.Tactic.Common

/-!
# Fields between separators

The non-empty pieces of a list between separators, and what keeps them: separators at the ends,
doubled separators, and an image of the list that separates in the same places.
-/

namespace Newsintel.Fields

variable {α β : Type*} {p : α → Bool} {c : α} {s t w : List α}

/-- The non-empty pieces. -/
def fields (p : α → Bool) (t : List α) : List (List α) := (t.splitOnP p).filter fun w => !w.isEmpty

@[simp] theorem fields_nil : fields p [] = [] := rfl

theorem fields_append_sep (hc : p c = true) (s t : List α) :
    fields p (s ++ c :: t) = fields p s ++ fields p t := by
  rw [fields, List.splitOnP_append_cons s t hc, List.filter_append]
  rfl

theorem fields_cons_sep (hc : p c = true) (t : List α) : fields p (c :: t) = fields p t := by
  simpa using fields_append_sep hc [] t

theorem fields_concat_sep (hc : p c = true) (t : List α) : fields p (t ++ [c]) = fields p t := by
  simpa using fields_append_sep hc t []

theorem fields_dropWhile (t : List α) : fields p (t.dropWhile p) = fields p t := by
  induction t with
  | nil => rfl
  | cons c t ih =>
    by_cases hc : p c = true
    · rw [List.dropWhile_cons_of_pos hc, ih, fields_cons_sep hc]
    · rw [List.dropWhile_cons_of_neg hc]

theorem fields_rdropWhile (t : List α) : fields p (t.rdropWhile p) = fields p t := by
  induction t using List.reverseRecOn with
  | nil => rfl
  | append_singleton t c ih =>
    by_cases hc : p c = true
    · rw [List.rdropWhile_concat_pos p t c hc, ih, fields_concat_sep hc]
    · rw [List.rdropWhile_concat_neg p t c hc]

/- The first element that is left after both ends has stayed in place. -/
theorem dropWhile_rdropWhile_dropWhile (p : α → Bool) (t : List α) :
    ((t.dropWhile p).rdropWhile p).dropWhile p = (t.dropWhile p).rdropWhile p := by
  have hkept : (t.dropWhile p).rdropWhile p <+: t.dropWhile p := List.rdropWhile_prefix p _
  rw [List.dropWhile_eq_self_iff]
  intro hne
  rw [hkept.getElem hne]
  exact List.dropWhile_get_zero_not p t (hne.trans_le hkept.length_le)

/- What the pieces are made of. -/
theorem exists_mem_splitOnP : (∃ w ∈ t.splitOnP p, c ∈ w) ↔ c ∈ t ∧ p c = false := by
  induction t with
  | nil => simp
  | cons d t ih =>
    obtain ⟨v, vs, hv⟩ := List.exists_cons_of_ne_nil (List.splitOnP_ne_nil p t)
    rw [List.splitOnP_cons_eq_if_modifyHead, hv, List.modifyHead_cons]
    rw [hv, List.exists_mem_cons_iff] at ih
    by_cases hd : p d = true
    · rw [if_pos hd, List.exists_mem_cons_iff, List.exists_mem_cons_iff, ih, List.mem_cons]
      constructor
      · rintro (h | h)
        · exact absurd h List.not_mem_nil
        · exact ⟨Or.inr h.1, h.2⟩
      · rintro ⟨rfl | h, hc⟩
        · rw [hd] at hc
          cases hc
        · exact Or.inr ⟨h, hc⟩
    · rw [if_neg hd, List.exists_mem_cons_iff, List.mem_cons, List.mem_cons, or_assoc, ih]
      constructor
      · rintro (rfl | h)
        · exact ⟨Or.inl rfl, Bool.eq_false_iff.mpr hd⟩
        · exact ⟨Or.inr h.1, h.2⟩
      · rintro ⟨rfl | h, hc⟩
        · exact Or.inl rfl
        · exact Or.inr ⟨h, hc⟩

theorem exists_mem_fields : (∃ w ∈ fields p t, c ∈ w) ↔ c ∈ t ∧ p c = false := by
  rw [← exists_mem_splitOnP]
  constructor
  · rintro ⟨w, hw, hc⟩
    exact ⟨w, (List.mem_filter.mp hw).1, hc⟩
  · rintro ⟨w, hw, hc⟩
    refine ⟨w, List.mem_filter.mpr ⟨hw, ?_⟩, hc⟩
    rw [List.isEmpty_eq_false_iff.mpr (List.ne_nil_of_mem hc), Bool.not_false]

theorem ne_nil_of_mem_fields (h : w ∈ fields p t) : w ≠ [] := by
  have hne := (List.mem_filter.mp h).2
  rintro rfl
  cases hne

theorem not_sep_of_mem_fields (h : w ∈ fields p t) (hc : c ∈ w) : p c = false :=
  (exists_mem_fields.mp ⟨w, h, hc⟩).2

/-! ### Pieces of a part -/

theorem intercalate_eq_nil {ts : List (List α)} (h : ∀ w ∈ ts, w ≠ []) :
    [c].intercalate ts = [] ↔ ts = [] := by
  refine ⟨fun hnil => ?_, fun hnil => by rw [hnil, List.intercalate_nil]⟩
  cases ts with
  | nil => rfl
  | cons w ts =>
    have hw := h w List.mem_cons_self
    cases ts with
    | nil => exact absurd (by rwa [List.intercalate_singleton] at hnil) hw
    | cons v ts =>
      rw [List.intercalate_cons_cons, List.append_assoc] at hnil
      exact absurd (List.append_eq_nil_iff.mp hnil).1 hw

section pieces

variable [BEq α] [LawfulBEq α]

/- What stands between two separators is a piece. -/
theorem mem_splitOn_of_infix (hw : c ∉ w) (h : c :: w ++ [c] <:+: t) : w ∈ t.splitOn c := by
  obtain ⟨front, rest, rfl⟩ := h
  have hcut : front ++ (c :: w ++ [c]) ++ rest = front ++ c :: (w ++ c :: rest) := by simp
  rw [hcut, List.splitOn_append_cons_self, List.splitOn_append_cons_self_of_not_mem hw]
  exact List.mem_append_right _ List.mem_cons_self

/- A text without separators goes to the last piece. -/
theorem splitOn_append_of_not_mem (hs : c ∉ s) (t : List α) :
    ∃ front last, t.splitOn c = front ++ [last] ∧ (t ++ s).splitOn c = front ++ [last ++ s] := by
  induction t with
  | nil => exact ⟨[], [], List.splitOnP_nil, List.splitOn_eq_singleton hs⟩
  | cons d t ih =>
    obtain ⟨front, last, ht, hts⟩ := ih
    rw [List.cons_append, List.splitOn_cons_eq_if_modifyHead, List.splitOn_cons_eq_if_modifyHead,
      ht, hts]
    by_cases hd : (d == c) = true
    · rw [if_pos hd, if_pos hd]
      exact ⟨[] :: front, last, rfl, rfl⟩
    · rw [if_neg hd, if_neg hd]
      cases front with
      | nil => exact ⟨[], d :: last, rfl, rfl⟩
      | cons v front => exact ⟨(d :: v) :: front, last, rfl, rfl⟩

theorem mem_splitOn_append (hs : c ∉ s) (h : w ∈ (t ++ s).splitOn c) :
    w ∈ t.splitOn c ∨ s <:+ w := by
  obtain ⟨front, last, ht, hts⟩ := splitOn_append_of_not_mem hs t
  rw [hts, List.mem_append, List.mem_singleton] at h
  obtain h | rfl := h
  · exact Or.inl (ht ▸ List.mem_append_left _ h)
  · exact Or.inr (List.suffix_append last s)

/- Non-empty pieces without separators can be told from their joined text. -/
theorem intercalate_inj {ss ts : List (List α)} (hs : ∀ w ∈ ss, w ≠ [] ∧ c ∉ w)
    (ht : ∀ w ∈ ts, w ≠ [] ∧ c ∉ w) (h : [c].intercalate ss = [c].intercalate ts) : ss = ts := by
  have hsNil := intercalate_eq_nil (c := c) fun w hw => (hs w hw).1
  have htNil := intercalate_eq_nil (c := c) fun w hw => (ht w hw).1
  by_cases hnil : ss = []
  · have hts : ts = [] := htNil.mp (h.symm.trans (hsNil.mpr hnil))
    rw [hnil, hts]
  · have hts : ts ≠ [] := fun hts => hnil (hsNil.mp (h.trans (htNil.mpr hts)))
    rw [← List.splitOn_intercalate c (fun w hw => (hs w hw).2) hnil, h,
      List.splitOn_intercalate c (fun w hw => (ht w hw).2) hts]

end pieces

/-! ### Images -/

section image

variable {q : β → Bool} {f : α → List β}

theorem splitOnP_append_of_not {xs ys : List β} (h : ∀ d ∈ xs, q d = false) :
    (xs ++ ys).splitOnP q = (ys.splitOnP q).modifyHead (xs ++ ·) := by
  induction xs with
  | nil =>
    obtain ⟨v, vs, hv⟩ := List.exists_cons_of_ne_nil (List.splitOnP_ne_nil q ys)
    rw [List.nil_append, hv, List.modifyHead_cons, List.nil_append]
  | cons x xs ih =>
    obtain ⟨hx, hxs⟩ := List.forall_mem_cons.mp h
    obtain ⟨v, vs, hv⟩ := List.exists_cons_of_ne_nil (List.splitOnP_ne_nil q ys)
    rw [List.cons_append, List.splitOnP_cons_eq_if_modifyHead, ih hxs, hx, hv]
    rfl

/- A separator becomes a separator, anything else a text without one. -/
theorem splitOnP_flatMap (hsep : ∀ c, p c = true → ∃ d, f c = [d] ∧ q d = true)
    (hother : ∀ c, p c = false → ∀ d ∈ f c, q d = false) (t : List α) :
    (t.flatMap f).splitOnP q = (t.splitOnP p).map (·.flatMap f) := by
  induction t with
  | nil => rfl
  | cons c t ih =>
    rw [List.flatMap_cons, List.splitOnP_cons_eq_if_modifyHead]
    by_cases hc : p c = true
    · obtain ⟨d, hd, hq⟩ := hsep c hc
      rw [hd, List.singleton_append, List.splitOnP_cons_eq_if_modifyHead, if_pos hq, if_pos hc, ih]
      rfl
    · rw [splitOnP_append_of_not (hother c (Bool.eq_false_iff.mpr hc)), ih, if_neg hc]
      obtain ⟨v, vs, hv⟩ := List.exists_cons_of_ne_nil (List.splitOnP_ne_nil p t)
      rw [hv]
      rfl

end image

/-! ### Joined fields -/

section joined

variable [DecidableEq α]

/- An empty piece behind the first one: a separator at the end, or two in a row. -/
theorem doubled_of_nil_mem_tail (h : [] ∈ (t.splitOn c).tail) :
    t.getLast? = some c ∨ [c, c] <:+: t := by
  induction t with
  | nil => exact absurd h List.not_mem_nil
  | cons a t ih =>
    obtain ⟨v, vs, hv⟩ := List.exists_cons_of_ne_nil (List.splitOnP_ne_nil (· == c) t)
    have hrest : [] ∈ vs → (a :: t).getLast? = some c ∨ [c, c] <:+: a :: t := by
      intro hmem
      obtain hlast | hdouble := ih (by rw [List.splitOn, hv]; exact hmem)
      · rw [List.getLast?_cons, hlast]
        exact Or.inl rfl
      · exact Or.inr (hdouble.trans (List.suffix_cons a t).isInfix)
    rw [List.splitOn, List.splitOnP_cons_eq_if_modifyHead, hv, List.modifyHead_cons] at h
    by_cases ha : (a == c) = true
    · rw [if_pos ha, List.tail_cons, List.mem_cons] at h
      obtain rfl := beq_iff_eq.mp ha
      obtain rfl | hmem := h
      · -- The first piece of the rest is empty: it ends here, or goes on with a separator.
        cases t with
        | nil => exact Or.inl rfl
        | cons b t =>
          rw [List.splitOnP_cons_eq_if_modifyHead] at hv
          by_cases hb : (b == a) = true
          · obtain rfl := beq_iff_eq.mp hb
            exact Or.inr ⟨[], t, rfl⟩
          · rw [if_neg hb] at hv
            obtain ⟨v', vs', hv'⟩ := List.exists_cons_of_ne_nil (List.splitOnP_ne_nil (· == a) t)
            rw [hv', List.modifyHead_cons] at hv
            cases hv
      · exact hrest hmem
    · rw [if_neg ha, List.tail_cons] at h
      exact hrest h

/- A list is its joined fields, if no separator is at its ends or next to another one. -/
theorem intercalate_fields (hhead : t.head? ≠ some c) (hlast : t.getLast? ≠ some c)
    (hsingle : ¬ [c, c] <:+: t) : [c].intercalate (fields (· == c) t) = t := by
  cases t with
  | nil => rfl
  | cons a t =>
    have hpieces : [] ∉ (a :: t).splitOn c := by
      intro hmem
      obtain ⟨v, vs, hv⟩ := List.exists_cons_of_ne_nil (List.splitOnP_ne_nil (· == c) t)
      have ha : (a == c) ≠ true := fun ha => hhead (by rw [beq_iff_eq.mp ha]; rfl)
      have hcons : (a :: t).splitOn c = (a :: v) :: vs := by
        rw [List.splitOn, List.splitOnP_cons_eq_if_modifyHead, if_neg ha, hv, List.modifyHead_cons]
      rw [hcons] at hmem
      obtain hmem | hmem := List.mem_cons.mp hmem
      · cases hmem
      · have htail := doubled_of_nil_mem_tail (t := a :: t) (c := c) (by rw [hcons]; exact hmem)
        exact htail.elim hlast hsingle
    have hall : fields (· == c) (a :: t) = (a :: t).splitOn c := by
      apply List.filter_eq_self.mpr
      intro w hw
      rw [Bool.not_eq_true', List.isEmpty_eq_false_iff]
      rintro rfl
      exact hpieces hw
    rw [hall, List.intercalate_splitOn]

end joined

end Newsintel.Fields
