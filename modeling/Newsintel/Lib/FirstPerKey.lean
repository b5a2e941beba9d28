import Mathlib.Data.List.Nodup
import Mathlib.Tactic.Common

/-!
# The first element of each key

A loop passes over the elements without a key and over those whose key it has met before. What
it keeps are the first elements of their keys, in order.
-/

namespace Newsintel.FirstPerKey

variable {α κ : Type*} [DecidableEq κ]

/-- The elements that are kept, with their keys; `seen` are the keys met before. -/
def firstPerKey (key : α → Option κ) : List κ → List α → List (κ × α)
  | _, [] => []
  | seen, x :: xs =>
    match key x with
    | none => firstPerKey key seen xs
    | some k =>
      if seen.contains k then firstPerKey key seen xs
      else (k, x) :: firstPerKey key (k :: seen) xs

variable {key : α → Option κ} {seen : List κ} {xs : List α} {x : α} {k : κ}

theorem firstPerKey_none (h : key x = none) :
    firstPerKey key seen (x :: xs) = firstPerKey key seen xs := by
  rw [firstPerKey, h]

theorem firstPerKey_seen (h : key x = some k) (hk : k ∈ seen) :
    firstPerKey key seen (x :: xs) = firstPerKey key seen xs := by
  rw [firstPerKey, h]
  exact if_pos (List.contains_iff_mem.mpr hk)

theorem firstPerKey_new (h : key x = some k) (hk : k ∉ seen) :
    firstPerKey key seen (x :: xs) = (k, x) :: firstPerKey key (k :: seen) xs := by
  rw [firstPerKey, h]
  exact if_neg fun hmem => hk (List.contains_iff_mem.mp hmem)

/- What becomes of the first element. -/
theorem firstPerKey_cons (key : α → Option κ) (seen : List κ) (x : α) (xs : List α) :
    ((∀ k, key x = some k → k ∈ seen) ∧
        firstPerKey key seen (x :: xs) = firstPerKey key seen xs) ∨
      ∃ k, key x = some k ∧ k ∉ seen ∧
        firstPerKey key seen (x :: xs) = (k, x) :: firstPerKey key (k :: seen) xs := by
  cases h : key x with
  | none => exact Or.inl ⟨nofun, firstPerKey_none h⟩
  | some k =>
    by_cases hk : k ∈ seen
    · refine Or.inl ⟨?_, firstPerKey_seen h hk⟩
      rintro k' hk'
      exact Option.some.inj hk' ▸ hk
    · exact Or.inr ⟨k, rfl, hk, firstPerKey_new h hk⟩

/- An element is kept where no earlier one has its key. -/
theorem mem_firstPerKey {p : κ × α} :
    p ∈ firstPerKey key seen xs ↔ ∃ pre post, xs = pre ++ p.2 :: post ∧ key p.2 = some p.1 ∧
      p.1 ∉ seen ∧ ∀ y ∈ pre, key y ≠ some p.1 := by
  induction xs generalizing seen with
  | nil =>
    refine iff_of_false List.not_mem_nil ?_
    rintro ⟨pre, post, h, _⟩
    exact List.append_ne_nil_of_right_ne_nil pre (List.cons_ne_nil _ _) h.symm
  | cons x xs ih =>
    obtain ⟨hskip, hrest⟩ | ⟨k, hk, hnew, hrest⟩ := firstPerKey_cons key seen x xs
    · rw [hrest, ih]
      constructor
      · rintro ⟨pre, post, rfl, hkey, hseen, hpre⟩
        refine ⟨x :: pre, post, rfl, hkey, hseen, List.forall_mem_cons.mpr ⟨?_, hpre⟩⟩
        exact fun hx => hseen (hskip _ hx)
      · rintro ⟨pre, post, hxs, hkey, hseen, hpre⟩
        cases pre with
        | nil =>
          obtain ⟨rfl, rfl⟩ := (List.cons.injEq ..).mp hxs
          exact absurd (hskip _ hkey) hseen
        | cons y pre =>
          obtain ⟨rfl, rfl⟩ := (List.cons.injEq ..).mp hxs
          exact ⟨pre, post, rfl, hkey, hseen, (List.forall_mem_cons.mp hpre).2⟩
    · rw [hrest, List.mem_cons, ih]
      constructor
      · rintro (rfl | ⟨pre, post, rfl, hkey, hseen, hpre⟩)
        · exact ⟨[], xs, rfl, hk, hnew, List.forall_mem_nil _⟩
        · rw [List.mem_cons, not_or] at hseen
          refine ⟨x :: pre, post, rfl, hkey, hseen.2, List.forall_mem_cons.mpr ⟨?_, hpre⟩⟩
          exact fun hx => hseen.1 (Option.some.inj (hx.symm.trans hk))
      · rintro ⟨pre, post, hxs, hkey, hseen, hpre⟩
        cases pre with
        | nil =>
          obtain ⟨rfl, rfl⟩ := (List.cons.injEq ..).mp hxs
          exact Or.inl (Prod.ext (Option.some.inj (hkey.symm.trans hk)) rfl)
        | cons y pre =>
          obtain ⟨rfl, rfl⟩ := (List.cons.injEq ..).mp hxs
          obtain ⟨hx, hpre⟩ := List.forall_mem_cons.mp hpre
          refine Or.inr ⟨pre, post, rfl, hkey, ?_, hpre⟩
          rw [List.mem_cons, not_or]
          exact ⟨fun he => hx (he ▸ hk), hseen⟩

theorem key_of_mem {p : κ × α} (h : p ∈ firstPerKey key seen xs) :
    key p.2 = some p.1 ∧ p.1 ∉ seen ∧ p.2 ∈ xs := by
  obtain ⟨pre, post, rfl, hkey, hseen, _⟩ := mem_firstPerKey.mp h
  exact ⟨hkey, hseen, List.mem_append_right _ List.mem_cons_self⟩

/- Each key once. -/
theorem nodup_keys (key : α → Option κ) (seen : List κ) (xs : List α) :
    ((firstPerKey key seen xs).map Prod.fst).Nodup := by
  induction xs generalizing seen with
  | nil => exact List.nodup_nil
  | cons x xs ih =>
    obtain ⟨_, hrest⟩ | ⟨k, _, _, hrest⟩ := firstPerKey_cons key seen x xs
    · rw [hrest]
      exact ih seen
    · rw [hrest, List.map_cons, List.nodup_cons]
      refine ⟨fun hmem => ?_, ih (k :: seen)⟩
      obtain ⟨p, hp, rfl⟩ := List.mem_map.mp hmem
      exact (key_of_mem hp).2.1 List.mem_cons_self

/- Every key is kept. -/
theorem mem_keys : k ∈ (firstPerKey key seen xs).map Prod.fst ↔
    k ∉ seen ∧ ∃ x ∈ xs, key x = some k := by
  induction xs generalizing seen with
  | nil => simp [firstPerKey]
  | cons x xs ih =>
    obtain ⟨hskip, hrest⟩ | ⟨k', hk', hnew, hrest⟩ := firstPerKey_cons key seen x xs
    · rw [hrest, ih, List.exists_mem_cons_iff]
      constructor
      · exact fun ⟨hseen, hx⟩ => ⟨hseen, Or.inr hx⟩
      · rintro ⟨hseen, hx | hx⟩
        · exact absurd (hskip k hx) hseen
        · exact ⟨hseen, hx⟩
    · rw [hrest, List.map_cons, List.mem_cons, ih, List.exists_mem_cons_iff, List.mem_cons, not_or]
      constructor
      · rintro (rfl | ⟨⟨_, hseen⟩, hx⟩)
        · exact ⟨hnew, Or.inl hk'⟩
        · exact ⟨hseen, Or.inr hx⟩
      · rintro ⟨hseen, hx⟩
        by_cases he : k = k'
        · exact Or.inl he
        · refine Or.inr ⟨⟨he, hseen⟩, hx.resolve_left ?_⟩
          exact fun hx => he (Option.some.inj (hx.symm.trans hk'))

/- The keys stand in the order of the elements. -/
theorem keys_sublist (key : α → Option κ) (seen : List κ) (xs : List α) :
    ((firstPerKey key seen xs).map Prod.fst).Sublist (xs.filterMap key) := by
  induction xs generalizing seen with
  | nil => exact List.Sublist.slnil
  | cons x xs ih =>
    rw [List.filterMap_cons]
    obtain ⟨_, hrest⟩ | ⟨k, hk, _, hrest⟩ := firstPerKey_cons key seen x xs
    · rw [hrest]
      split
      · exact ih seen
      · exact (ih seen).cons _
    · rw [hrest, hk, List.map_cons]
      exact (ih (k :: seen)).cons_cons k

end Newsintel.FirstPerKey
