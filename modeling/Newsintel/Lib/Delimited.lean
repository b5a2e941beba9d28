import Mathlib.Data.List.Infix
import Mathlib.Tactic.Common

/-!
# Phrases that stand as words

An occurrence of a list in another one is delimited when no element of a word stands next to one
across its edges.
-/

namespace Newsintel.Delimited

variable {α : Type*} (isWord : α → Bool)

/-- Not both are there and part of a word. -/
def apart (a b : Option α) : Bool := !(a.any isWord && b.any isWord)

/-- The list has an occurrence of the phrase that is delimited on both sides. -/
def Occurs (phrase hay : List α) : Prop :=
  ∃ pre post, hay = pre ++ phrase ++ post ∧ apart isWord pre.getLast? phrase.head? = true ∧
    apart isWord phrase.getLast? post.head? = true

variable [DecidableEq α] (phrase : List α)

/-- A delimited occurrence at the head, behind the element `before`. -/
def startsHere (before : Option α) (hay : List α) : Bool :=
  phrase.isPrefixOf hay && apart isWord before phrase.head? &&
    apart isWord phrase.getLast? (hay.drop phrase.length).head?

def occursFrom : Option α → List α → Bool
  | before, [] => startsHere isWord phrase before []
  | before, c :: hay => startsHere isWord phrase before (c :: hay) || occursFrom (some c) hay

variable {isWord phrase} {before : Option α} {hay : List α}

theorem startsHere_iff : startsHere isWord phrase before hay = true ↔
    ∃ post, hay = phrase ++ post ∧ apart isWord before phrase.head? = true ∧
      apart isWord phrase.getLast? post.head? = true := by
  rw [startsHere, Bool.and_eq_true, Bool.and_eq_true, List.isPrefixOf_iff_prefix]
  constructor
  · rintro ⟨⟨⟨post, rfl⟩, hbefore⟩, hafter⟩
    rw [List.drop_left] at hafter
    exact ⟨post, rfl, hbefore, hafter⟩
  · rintro ⟨post, rfl, hbefore, hafter⟩
    refine ⟨⟨List.prefix_append _ _, hbefore⟩, ?_⟩
    rw [List.drop_left]
    exact hafter

omit [DecidableEq α] in
theorem getLast?_cons_or (c : α) (pre : List α) :
    (c :: pre).getLast?.or before = pre.getLast?.or (some c) := by
  cases h : pre.getLast? <;> simp [List.getLast?_cons, h]

/- The search finds the occurrences behind any beginning of the list. -/
theorem occursFrom_iff : occursFrom isWord phrase before hay = true ↔
    ∃ pre post, hay = pre ++ phrase ++ post ∧
      apart isWord (pre.getLast?.or before) phrase.head? = true ∧
        apart isWord phrase.getLast? post.head? = true := by
  induction hay generalizing before with
  | nil =>
    rw [occursFrom, startsHere_iff]
    constructor
    · rintro ⟨post, heq, hbefore, hafter⟩
      exact ⟨[], post, heq, hbefore, hafter⟩
    · rintro ⟨pre, post, heq, hbefore, hafter⟩
      obtain ⟨hpre, hpost⟩ := List.append_eq_nil_iff.mp heq.symm
      obtain ⟨rfl, rfl⟩ := List.append_eq_nil_iff.mp hpre
      exact ⟨post, heq, hbefore, hafter⟩
  | cons c hay ih =>
    rw [occursFrom, Bool.or_eq_true, startsHere_iff, ih]
    constructor
    · rintro (⟨post, heq, hbefore, hafter⟩ | ⟨pre, post, rfl, hbefore, hafter⟩)
      · exact ⟨[], post, heq, hbefore, hafter⟩
      · refine ⟨c :: pre, post, rfl, ?_, hafter⟩
        rw [getLast?_cons_or]
        exact hbefore
    · rintro ⟨pre, post, heq, hbefore, hafter⟩
      cases pre with
      | nil => exact Or.inl ⟨post, heq, hbefore, hafter⟩
      | cons d pre =>
        simp only [List.cons_append, List.cons.injEq] at heq
        obtain ⟨rfl, rfl⟩ := heq
        rw [getLast?_cons_or] at hbefore
        exact Or.inr ⟨pre, post, rfl, hbefore, hafter⟩

theorem occurs_iff : Occurs isWord phrase hay ↔ occursFrom isWord phrase none hay = true := by
  rw [occursFrom_iff, Occurs]
  simp only [Option.or_none]

instance : Decidable (Occurs isWord phrase hay) := decidable_of_iff _ occurs_iff.symm

omit [DecidableEq α] in
theorem Occurs.isInfix (h : Occurs isWord phrase hay) : phrase <:+: hay := by
  obtain ⟨pre, post, rfl, -, -⟩ := h
  exact ⟨pre, post, rfl⟩

omit [DecidableEq α] in
/- Nothing stands next to an empty phrase. -/
theorem occurs_nil : Occurs isWord ([] : List α) hay := ⟨[], hay, rfl, rfl, rfl⟩

end Newsintel.Delimited
