import Mathlib.Data.List.Perm.Subperm
import Newsintel.Lib.Ranking

/-!
# `ORDER BY` and `LIMIT`

A database returns the rows of a selection in the order of a key. The order of rows with the same
key is its own, so a sort is anything that returns the rows in order.
-/

namespace Newsintel.OrderBy

structure Sorting where
  orderBy : {α κ : Type} → [LinearOrder κ] → (α → κ) → List α → List α
  perm : ∀ {α κ : Type} [LinearOrder κ] (key : α → κ) (rows : List α),
    (orderBy key rows).Perm rows
  sorted : ∀ {α κ : Type} [LinearOrder κ] (key : α → κ) (rows : List α),
    (orderBy key rows).Pairwise fun a b => key a ≤ key b

/-- Rows with the same key stay in the order of the table. -/
def stable : Sorting where
  orderBy key rows := Ranking.ranked (fun a => OrderDual.toDual (key a)) rows
  perm _ rows := Ranking.ranked_perm _ rows
  sorted key rows := Ranking.ranked_pairwise (fun a => OrderDual.toDual (key a)) rows

namespace Sorting

variable (sql : Sorting) {α κ : Type} [LinearOrder κ] (key : α → κ) (rows : List α)

/-- `ORDER BY key DESC`. -/
def orderByDesc : List α := sql.orderBy (fun a => OrderDual.toDual (key a)) rows

theorem orderByDesc_perm : (sql.orderByDesc key rows).Perm rows := sql.perm _ _

theorem orderByDesc_sorted :
    (sql.orderByDesc key rows).Pairwise fun a b => key b ≤ key a :=
  sql.sorted (fun a => OrderDual.toDual (key a)) rows

variable {sql key rows} {a b : α} {n : ℕ}

theorem mem_orderBy : a ∈ sql.orderBy key rows ↔ a ∈ rows := (sql.perm key rows).mem_iff

theorem mem_orderByDesc : a ∈ sql.orderByDesc key rows ↔ a ∈ rows :=
  (sql.orderByDesc_perm key rows).mem_iff

theorem mem_of_mem_take (h : a ∈ (sql.orderByDesc key rows).take n) : a ∈ rows :=
  mem_orderByDesc.mp (List.mem_of_mem_take h)

theorem length_take : ((sql.orderByDesc key rows).take n).length = min n rows.length := by
  rw [List.length_take, (sql.orderByDesc_perm key rows).length_eq]

/- What a limit leaves out is not above what it lets through. -/
theorem le_of_not_mem_take (ha : a ∈ (sql.orderByDesc key rows).take n) (hb : b ∈ rows)
    (hout : b ∉ (sql.orderByDesc key rows).take n) : key b ≤ key a := by
  have hsorted := sql.orderByDesc_sorted key rows
  rw [← List.take_append_drop n (sql.orderByDesc key rows), List.pairwise_append] at hsorted
  have hb : b ∈ (sql.orderByDesc key rows).take n ++ (sql.orderByDesc key rows).drop n := by
    rw [List.take_append_drop]
    exact mem_orderByDesc.mpr hb
  obtain hb | hb := List.mem_append.mp hb
  · exact absurd hb hout
  · exact hsorted.2.2 a ha b hb

/- The first of the rows has the highest key. -/
theorem head?_orderByDesc (h : (sql.orderByDesc key rows).head? = some a) :
    a ∈ rows ∧ ∀ b ∈ rows, key b ≤ key a := by
  have ha : a ∈ (sql.orderByDesc key rows).take 1 := by
    obtain ⟨rest, hrest⟩ := List.head?_eq_some_iff.mp h
    rw [hrest]
    exact List.mem_cons_self
  refine ⟨mem_of_mem_take ha, fun b hb => ?_⟩
  by_cases hb' : b ∈ (sql.orderByDesc key rows).take 1
  · obtain ⟨rest, hrest⟩ := List.head?_eq_some_iff.mp h
    rw [hrest, List.take_succ_cons, List.take_zero, List.mem_singleton] at hb'
    rw [hb']
  · exact le_of_not_mem_take ha hb hb'

theorem head?_isSome : (sql.orderByDesc key rows).head?.isSome = true ↔ rows ≠ [] := by
  rw [List.isSome_head?, not_iff_not]
  have hperm := sql.orderByDesc_perm key rows
  constructor
  · intro h
    exact List.nil_perm.mp (h ▸ hperm)
  · intro h
    exact List.perm_nil.mp (h ▸ hperm)

end Sorting

end Newsintel.OrderBy
