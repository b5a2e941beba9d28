import Mathlib.Data.List.Sort
import Mathlib.Order.Defs.LinearOrder

/-!
# Ranking by a score

`sorted(items, key=score, reverse=True)`. The first item of a ranking has the highest score, the
second one the highest score of the others, and the beginning of a ranking is its own ranking. Of the
items with the highest score, `max` takes the first.
-/

namespace Newsintel.Ranking

variable {α β : Type*} [LinearOrder β] {score : α → β} {items rest : List α} {a b c : α}

def ranked (score : α → β) (items : List α) : List α :=
  items.insertionSort fun a b => score b ≤ score a

theorem ranked_perm (score : α → β) (items : List α) : (ranked score items).Perm items :=
  List.perm_insertionSort _ _

theorem mem_ranked : a ∈ ranked score items ↔ a ∈ items := (ranked_perm score items).mem_iff

theorem ranked_pairwise (score : α → β) (items : List α) :
    (ranked score items).Pairwise fun a b => score b ≤ score a := by
  have : Std.Total fun a b : α => score b ≤ score a := ⟨fun a b => le_total (score b) (score a)⟩
  have : IsTrans α fun a b => score b ≤ score a := ⟨fun _ _ _ hab hbc => hbc.trans hab⟩
  exact List.pairwise_insertionSort _ _

theorem ranked_take (score : α → β) (items : List α) (n : ℕ) :
    ranked score ((ranked score items).take n) = (ranked score items).take n :=
  ((ranked_pairwise score items).sublist (List.take_sublist n _)).insertionSort_eq

theorem le_of_ranked (h : ranked score items = a :: rest) (hb : b ∈ items) :
    score b ≤ score a := by
  have hsorted := ranked_pairwise score items
  rw [h, List.pairwise_cons] at hsorted
  have hmem : b ∈ a :: rest := h ▸ mem_ranked.mpr hb
  obtain rfl | hb := List.mem_cons.mp hmem
  · exact le_rfl
  · exact hsorted.1 b hb

/- The item whose score is above all others is ranked first. -/
theorem head?_ranked (ha : a ∈ items) (h : ∀ b ∈ items, b ≠ a → score b < score a) :
    (ranked score items).head? = some a := by
  cases hr : ranked score items with
  | nil =>
    have hmem : a ∈ ranked score items := mem_ranked.mpr ha
    rw [hr] at hmem
    cases hmem
  | cons c rest =>
    have hc : c ∈ items := mem_ranked.mp (hr ▸ List.mem_cons_self)
    by_cases hca : c = a
    · rw [hca, List.head?_cons]
    · exact absurd (le_of_ranked hr ha) (not_le.mpr (h c hc hca))

/-! ### `max(items, key=score)` -/

/-- The first item of the highest score. -/
def IsFirstMax (score : α → β) (items : List α) (best : α) : Prop :=
  ∃ before after, items = before ++ best :: after ∧ (∀ x ∈ before, score x < score best) ∧
    ∀ x ∈ after, score x ≤ score best

theorem IsFirstMax.mem (h : IsFirstMax score items b) : b ∈ items := by
  obtain ⟨before, after, rfl, -, -⟩ := h
  exact List.mem_append_right _ List.mem_cons_self

/- An item above all that precede it is overtaken by a higher one only. -/
theorem isFirstMax_cons_cons : IsFirstMax score (a :: b :: items) c ↔
    IsFirstMax score ((if score a < score b then b else a) :: items) c := by
  split_ifs with hlt
  · constructor
    · rintro ⟨before, after, hitems, hbefore, hafter⟩
      cases before with
      | nil =>
        obtain ⟨rfl, rfl⟩ := List.cons.inj hitems
        exact absurd hlt (not_lt.mpr (hafter b List.mem_cons_self))
      | cons x before =>
        obtain ⟨rfl, htail⟩ := List.cons.inj hitems
        exact ⟨before, after, htail, fun y hy => hbefore y (List.mem_cons_of_mem _ hy), hafter⟩
    · rintro ⟨before, after, hitems, hbefore, hafter⟩
      refine ⟨a :: before, after, by rw [hitems, List.cons_append], ?_, hafter⟩
      intro x hx
      obtain rfl | hx := List.mem_cons.mp hx
      · cases before with
        | nil =>
          obtain ⟨rfl, -⟩ := List.cons.inj hitems
          exact hlt
        | cons y before =>
          obtain ⟨rfl, -⟩ := List.cons.inj hitems
          exact hlt.trans (hbefore b List.mem_cons_self)
      · exact hbefore x hx
  · have hle := not_lt.mp hlt
    constructor
    · rintro ⟨before, after, hitems, hbefore, hafter⟩
      match before with
      | [] =>
        obtain ⟨rfl, rfl⟩ := List.cons.inj hitems
        exact ⟨[], items, rfl, hbefore, fun y hy => hafter y (List.mem_cons_of_mem _ hy)⟩
      | [x] =>
        obtain ⟨rfl, htail⟩ := List.cons.inj hitems
        obtain ⟨rfl, rfl⟩ := List.cons.inj htail
        exact absurd (hbefore a List.mem_cons_self) hlt
      | x :: y :: before =>
        obtain ⟨rfl, htail⟩ := List.cons.inj hitems
        obtain ⟨rfl, rfl⟩ := List.cons.inj htail
        refine ⟨a :: before, after, rfl, fun z hz => hbefore z ?_, hafter⟩
        exact (List.sublist_cons_self b before).cons_cons a |>.subset hz
    · rintro ⟨before, after, hitems, hbefore, hafter⟩
      cases before with
      | nil =>
        obtain ⟨rfl, rfl⟩ := List.cons.inj hitems
        refine ⟨[], b :: items, rfl, hbefore, fun x hx => ?_⟩
        obtain rfl | hx := List.mem_cons.mp hx
        · exact hle
        · exact hafter x hx
      | cons x before =>
        obtain ⟨rfl, rfl⟩ := List.cons.inj hitems
        refine ⟨a :: b :: before, after, rfl, fun y hy => ?_, hafter⟩
        have hfirst := hbefore a List.mem_cons_self
        obtain rfl | hy := List.mem_cons.mp hy
        · exact hfirst
        · obtain rfl | hy := List.mem_cons.mp hy
          · exact hle.trans_lt hfirst
          · exact hbefore y (List.mem_cons_of_mem _ hy)

/- The loop of `max` keeps its item unless the next one is higher. -/
theorem foldl_max_eq_iff : items.foldl (fun best item => if score best < score item then item
    else best) a = b ↔ IsFirstMax score (a :: items) b := by
  induction items generalizing a with
  | nil =>
    constructor
    · rintro rfl
      exact ⟨[], [], rfl, List.forall_mem_nil _, List.forall_mem_nil _⟩
    · intro h
      exact (List.mem_singleton.mp h.mem).symm
  | cons item items ih => rw [List.foldl_cons, ih, isFirstMax_cons_cons]

end Newsintel.Ranking
