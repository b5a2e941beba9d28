import Mathlib.Order.MinMax
import Newsintel.Lib.Runs

/-!
# Read-modify-write without a lock

Transactions load one row, compute from what they loaded, and write the columns that
changed when they are flushed; the row may have been written in between. A column that
only ever grows is written by such a transaction when its offer is above the value it
loaded. The rules below say when a run of interleaved transactions loses no offer.
-/

namespace Newsintel.UnlockedWrites

/-- A transaction with the row as it has loaded it. -/
structure Transaction (ω ρ : Type*) where
  op : ω
  loaded : ρ

/-- The committed row, the transactions that have loaded it, and the operations that
were committed, in order. -/
structure SharedRow (ω ρ : Type*) where
  committed : ρ
  reading : List (Transaction ω ρ)
  merged : List ω

inductive Event (ω : Type*) where
  | load (op : ω)
  /-- the transaction at this place is flushed and commits -/
  | flush (place : ℕ)

variable {ω ρ β : Type*}

/-- One event; `write op loaded current` is the row after the flush. -/
def rowStep (write : ω → ρ → ρ → ρ) (s : SharedRow ω ρ) : Event ω → Option (SharedRow ω ρ)
  | .load op => some { s with reading := s.reading ++ [⟨op, s.committed⟩] }
  | .flush place =>
    s.reading[place]?.map fun t =>
      { committed := write t.op t.loaded s.committed
        reading := s.reading.eraseIdx place
        merged := s.merged ++ [t.op] }

/-- Nobody has loaded the row yet. -/
def untouched (row : ρ) : SharedRow ω ρ := ⟨row, [], []⟩

/-- A column that is written where the operation offers more than was loaded. -/
structure GrowingColumn (write : ω → ρ → ρ → ρ) (β : Type*) [LinearOrder β] where
  value : ρ → β
  offer : ω → β
  value_write : ∀ op loaded current,
    value (write op loaded current) =
      if offer op ≤ value loaded then value current else offer op

namespace GrowingColumn

variable [LinearOrder β] {write : ω → ρ → ρ → ρ} (column : GrowingColumn write β)

/-- The transaction writes nothing, or nothing below what is there by now. -/
def Fresh (s : SharedRow ω ρ) : Event ω → Prop
  | .load _ => True
  | .flush place => ∀ t ∈ s.reading[place]?,
      column.offer t.op ≤ column.value t.loaded ∨ column.value s.committed ≤ column.offer t.op

/-- What a transaction has loaded is not above what is there by now. -/
def Behind (s : SharedRow ω ρ) : Prop :=
  ∀ t ∈ s.reading, column.value t.loaded ≤ column.value s.committed

variable {column} {s s' : SharedRow ω ρ} {e : Event ω}

theorem grows_iff_fresh (h : rowStep write s e = some s') :
    column.value s.committed ≤ column.value s'.committed ↔ column.Fresh s e := by
  cases e with
  | load op =>
    cases h
    exact iff_of_true (le_refl _) trivial
  | flush place =>
    obtain ⟨t, ht, rfl⟩ := Option.map_eq_some_iff.mp h
    simp only [Fresh, ht, Option.mem_def, Option.some.injEq, forall_eq', column.value_write]
    split
    · rename_i hle
      exact iff_of_true (le_refl _) (.inl hle)
    · rename_i hlt
      exact ⟨.inr, fun hor => hor.resolve_left hlt⟩

theorem behind_untouched (row : ρ) : column.Behind (untouched row) := by
  intro t ht
  cases ht

theorem behind_step (hbehind : column.Behind s) (hfresh : column.Fresh s e)
    (h : rowStep write s e = some s') : column.Behind s' := by
  have hgrows := (grows_iff_fresh h).mpr hfresh
  cases e with
  | load op =>
    cases h
    intro t ht
    rcases List.mem_append.mp ht with ht | ht
    · exact hbehind t ht
    · rw [List.mem_singleton.mp ht]
  | flush place =>
    obtain ⟨t, ht, rfl⟩ := Option.map_eq_some_iff.mp h
    intro t' ht'
    exact (hbehind t' (List.mem_of_mem_eraseIdx ht')).trans hgrows

variable {best : List ω → β}

/- A flush keeps the column at the best offer so far exactly when it is fresh. -/
theorem best_iff_fresh (hbest : ∀ ops op, best (ops ++ [op]) = max (best ops) (column.offer op))
    (hbehind : column.Behind s) (hs : column.value s.committed = best s.merged)
    (h : rowStep write s e = some s') :
    column.value s'.committed = best s'.merged ↔ column.Fresh s e := by
  cases e with
  | load op =>
    cases h
    exact iff_of_true hs trivial
  | flush place =>
    obtain ⟨t, ht, rfl⟩ := Option.map_eq_some_iff.mp h
    have hloaded := hbehind t (List.mem_of_getElem? ht)
    simp only [Fresh, ht, Option.mem_def, Option.some.injEq, forall_eq', column.value_write,
      hbest, ← hs]
    split
    · rename_i hle
      exact iff_of_true (max_eq_left (hle.trans hloaded)).symm (.inl hle)
    · rename_i hlt
      rw [eq_comm, max_eq_right_iff]
      exact ⟨.inr, fun hor => hor.resolve_left hlt⟩

/- Exact condition on a run for the column to be at the best offer throughout. -/
theorem throughout_best_iff (column : GrowingColumn write β) (best : List ω → β) {row : ρ}
    {t : SharedRow ω ρ} {events : List (Event ω)}
    (hstart : best [] = column.value row)
    (hbest : ∀ ops op, best (ops ++ [op]) = max (best ops) (column.offer op))
    (h : Runs.exec (rowStep write) (untouched row) events = some t) :
    Runs.Throughout (rowStep write) (fun s => column.value s.committed = best s.merged)
        (untouched row) events ↔
      Runs.Every (rowStep write) column.Fresh (untouched row) events :=
  Runs.throughout_iff_every (behind_untouched row) hstart.symm
    (fun _ _ _ hbehind _ hfresh hstep => behind_step hbehind hfresh hstep)
    (fun _ _ _ hbehind hs hstep => best_iff_fresh hbest hbehind hs hstep) h

end GrowingColumn

end Newsintel.UnlockedWrites
