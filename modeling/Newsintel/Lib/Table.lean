import Mathlib.Data.List.Basic
import Mathlib.Data.List.Nodup

/-!
# Keyed tables

A table is a list of rows in insertion order, a key is a function of the row.
`update` is an `UPDATE ... WHERE key = k`, `updateWhere` one under any condition, `get?` a
lookup by key, `insert` an `INSERT` under one unique constraint, and `set` the item
assignment of a dict.
-/

namespace Newsintel.Table

variable {α β κ : Type*} [DecidableEq κ]

/-- `UPDATE rows SET f WHERE key = k`. -/
def update (key : α → κ) (k : κ) (f : α → α) (rows : List α) : List α :=
  rows.map fun r => if key r = k then f r else r

/-- The row with the key, if any. -/
def get? (key : α → κ) (k : κ) (rows : List α) : Option α :=
  rows.find? fun r => decide (key r = k)

/-- `INSERT` of a row under a unique constraint; `none` is the violation. -/
def insert (key : α → κ) (r : α) (rows : List α) : Option (List α) :=
  if key r ∈ rows.map key then none else some (rows ++ [r])

/-- `d[k] = v`: a known key keeps its place, a new one goes last. -/
def set (k : κ) (v : β) (d : List (κ × β)) : List (κ × β) :=
  if k ∈ d.map Prod.fst then d.map fun p => if p.1 = k then (k, v) else p else d ++ [(k, v)]

variable {key : α → κ} {k : κ} {f : α → α} {r : α} {rows rows' : List α}

theorem get?_some (h : get? key k rows = some r) : r ∈ rows ∧ key r = k := by
  have hk := List.find?_some h
  exact ⟨List.mem_of_find?_eq_some h, by simpa using hk⟩

theorem get?_none : get? key k rows = none ↔ k ∉ rows.map key := by
  simp [get?, List.find?_eq_none]

theorem get?_of_mem (hd : (rows.map key).Nodup) (hr : r ∈ rows) (hk : key r = k) :
    get? key k rows = some r := by
  cases h : get? key k rows with
  | none =>
    have hn := get?_none.mp h
    exact absurd (hk ▸ List.mem_map_of_mem hr) hn
  | some q =>
    obtain ⟨hq, hqk⟩ := get?_some h
    rw [List.inj_on_of_nodup_map hd hq hr (hqk.trans hk.symm)]

/- Under a unique key a selection finds what a lookup finds. -/
theorem filter_key (hd : (rows.map key).Nodup) (k : κ) :
    rows.filter (fun r => key r = k) = (get? key k rows).toList := by
  induction rows with
  | nil => rfl
  | cons r rows ih =>
    rw [List.map_cons, List.nodup_cons] at hd
    by_cases hk : key r = k
    · have hrest : rows.filter (fun r => key r = k) = [] := by
        refine List.filter_eq_nil_iff.mpr fun q hq hqk => hd.1 ?_
        rw [hk, ← of_decide_eq_true hqk]
        exact List.mem_map_of_mem hq
      rw [List.filter_cons, if_pos (by simpa using hk), hrest, get?,
        List.find?_cons_of_pos (by simpa using hk), Option.toList_some]
    · have hkeep := ih hd.2
      rw [get?] at hkeep ⊢
      rw [List.filter_cons, if_neg (by simpa using hk), hkeep,
        List.find?_cons_of_neg (by simpa using hk)]

/- Rows written without their key are found as before. -/
theorem get?_map {f : α → α} (hf : ∀ r, key (f r) = key r) :
    get? key k (rows.map f) = (get? key k rows).map f := by
  have hcomp : (fun r => decide (key r = k)) ∘ f = fun r => decide (key r = k) := by
    funext r
    rw [Function.comp_apply, hf]
  rw [get?, List.find?_map, hcomp, get?]

theorem get?_append_new (h : get? key k rows = none) (hk : key r = k) :
    get? key k (rows ++ [r]) = some r := by
  rw [get?] at h ⊢
  rw [List.find?_append, h, Option.none_or, List.find?_singleton, decide_eq_true hk, if_pos rfl]

/- Rows written without a column keep it. -/
theorem map_rewrite {g : α → β} (hf : ∀ r, g (f r) = g r) :
    (rows.map f).map g = rows.map g := by
  rw [List.map_map]
  exact List.map_congr_left fun r _ => hf r

/- A row under a new key. -/
omit [DecidableEq κ] in
theorem nodup_concat (hd : (rows.map key).Nodup) (hnew : key r ∉ rows.map key) :
    ((rows ++ [r]).map key).Nodup := by
  rw [List.map_append, List.map_singleton]
  refine List.nodup_append.mpr ⟨hd, List.nodup_singleton _, ?_⟩
  rintro a ha b hb rfl
  exact hnew (List.mem_singleton.mp hb ▸ ha)

/- What the assignments leave alone. -/
theorem map_update {g : α → β} (hf : ∀ r, g (f r) = g r) :
    (update key k f rows).map g = rows.map g := by
  simp only [update, List.map_map]
  apply List.map_congr_left
  intro r _
  simp only [Function.comp_apply]
  split
  · exact hf r
  · rfl

/-! ### Assignments under a condition -/

/-- `UPDATE rows SET f WHERE p`. -/
def updateWhere (p : α → Bool) (f : α → α) (rows : List α) : List α :=
  rows.map fun r => if p r then f r else r

/-- How many rows differ from what they were. -/
def changed [DecidableEq α] (rows rows' : List α) : ℕ :=
  (rows.zip rows').countP fun q => decide (q.1 ≠ q.2)

section updateWhere

variable {p : α → Bool}

theorem mem_updateWhere (h : r ∈ updateWhere p f rows) :
    (∃ q ∈ rows, p q = true ∧ r = f q) ∨ r ∈ rows ∧ p r = false := by
  obtain ⟨q, hq, rfl⟩ := List.mem_map.mp h
  cases hp : p q with
  | true => exact Or.inl ⟨q, hq, hp, if_pos rfl⟩
  | false =>
    rw [if_neg Bool.false_ne_true]
    exact Or.inr ⟨hq, hp⟩

theorem updateWhere_of_none (h : ∀ r ∈ rows, p r = false) : updateWhere p f rows = rows := by
  rw [updateWhere, List.map_congr_left (g := id) fun r hr => by rw [h r hr]; rfl, List.map_id]

/- A selection that the assignment takes its rows out of. -/
theorem filter_updateWhere {q : α → Bool} (hf : ∀ r, q (f r) = false) :
    (updateWhere p f rows).filter q = (rows.filter q).filter fun r => !p r := by
  induction rows with
  | nil => rfl
  | cons r rows ih =>
    rw [updateWhere] at ih
    rw [updateWhere, List.map_cons, List.filter_cons, List.filter_cons, ih]
    cases hp : p r with
    | true => rw [if_pos rfl, hf, if_neg Bool.false_ne_true]; cases q r <;> simp [hp]
    | false => cases hq : q r <;> simp [hp, hq]

/- What the assignments leave alone. -/
theorem map_updateWhere {g : α → β} (hf : ∀ r, g (f r) = g r) :
    (updateWhere p f rows).map g = rows.map g := by
  rw [updateWhere, List.map_map]
  apply List.map_congr_left
  intro r _
  rw [Function.comp_apply]
  split
  · exact hf r
  · rfl

/- If the assignments always write something new, the rows found are the rows changed. -/
theorem changed_updateWhere [DecidableEq α] (h : ∀ r, p r = true → f r ≠ r) :
    changed rows (updateWhere p f rows) = rows.countP p := by
  induction rows with
  | nil => rfl
  | cons r rows ih =>
    rw [changed, updateWhere] at ih
    rw [changed, updateWhere, List.map_cons, List.zip_cons_cons, List.countP_cons, List.countP_cons,
      ih]
    cases hp : p r with
    | true => simp [(h r hp).symm]
    | false => simp

end updateWhere

/-! ### Item assignment -/

variable {d : List (κ × β)} {v : β} {p : κ × β}

theorem mem_of_lookup (h : d.lookup k = some v) : (k, v) ∈ d := by
  obtain ⟨before, after, rfl, _⟩ := List.lookup_eq_some_iff.mp h
  exact List.mem_append_right _ List.mem_cons_self

theorem mem_set (h : p ∈ set k v d) : p = (k, v) ∨ p ∈ d := by
  unfold set at h
  split at h
  · obtain ⟨q, hq, rfl⟩ := List.mem_map.mp h
    split
    · exact Or.inl rfl
    · exact Or.inr hq
  · obtain h | h := List.mem_append.mp h
    · exact Or.inr h
    · exact Or.inl (List.mem_singleton.mp h)

end Newsintel.Table
