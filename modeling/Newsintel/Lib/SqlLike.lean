import Mathlib.Data.List.Infix
import Newsintel.Basic

/-!
# `LIKE` patterns

`%` stands for any text, `_` for any character, and a backslash takes the meaning of the
character behind it away.
-/

namespace Newsintel.SqlLike

/-- `text LIKE pattern`. -/
def like : Text → Text → Bool
  | [], t => t.isEmpty
  | '%' :: pattern, t => t.tails.any (like pattern)
  | '_' :: _, [] => false
  | '_' :: pattern, _ :: t => like pattern t
  | '\\' :: _ :: _, [] => false
  | '\\' :: c :: pattern, d :: t => c == d && like pattern t
  | _ :: _, [] => false
  | c :: pattern, d :: t => c == d && like pattern t

/-- A character that stands for itself. -/
def isPlain (c : Char) : Bool := !"%_\\".toList.contains c

variable {word pattern t : Text} {c d : Char}

theorem like_percent : like ('%' :: pattern) t = t.tails.any (like pattern) := by
  rw [like]

theorem isPlain_ne (h : isPlain c = true) : c ≠ '%' ∧ c ≠ '_' ∧ c ≠ '\\' := by
  rw [isPlain, Bool.not_eq_true', Bool.eq_false_iff, ne_eq, List.contains_iff_mem] at h
  simpa using h

theorem like_plain_cons (h : isPlain c = true) :
    like (c :: pattern) (d :: t) = (c == d && like pattern t) := by
  obtain ⟨hpercent, hunderscore, hbackslash⟩ := isPlain_ne h
  rw [like]
  · exact hpercent
  · exact hunderscore
  · exact fun _ _ h => absurd h hbackslash

theorem like_plain_nil (h : isPlain c = true) : like (c :: pattern) [] = false := by
  obtain ⟨hpercent, hunderscore, hbackslash⟩ := isPlain_ne h
  rw [like]
  · exact hpercent
  · exact hunderscore
  · exact fun _ _ h => absurd h hbackslash

/- A word of plain characters is matched by itself. -/
theorem like_append (h : word.all isPlain = true) :
    like (word ++ pattern) t = true ↔ ∃ rest, t = word ++ rest ∧ like pattern rest = true := by
  induction word generalizing t with
  | nil => simp
  | cons c word ih =>
    rw [List.all_cons, Bool.and_eq_true] at h
    cases t with
    | nil =>
      rw [List.cons_append, like_plain_nil h.1]
      simp
    | cons d t =>
      rw [List.cons_append, like_plain_cons h.1, Bool.and_eq_true, beq_iff_eq, ih h.2]
      constructor
      · rintro ⟨rfl, rest, rfl, hrest⟩
        exact ⟨rest, rfl, hrest⟩
      · rintro ⟨rest, heq, hrest⟩
        obtain ⟨rfl, rfl⟩ := List.cons.inj heq
        exact ⟨rfl, rest, rfl, hrest⟩

theorem like_everything : like ['%'] t = true := by
  rw [like_percent, List.any_eq_true]
  exact ⟨[], by simp, rfl⟩

/- A plain word between `%` signs is looked for anywhere. -/
theorem like_contains (h : word.all isPlain = true) :
    like ('%' :: word ++ ['%']) t = true ↔ word <:+: t := by
  rw [List.cons_append, like_percent, List.any_eq_true]
  constructor
  · rintro ⟨s, hs, hlike⟩
    obtain ⟨rest, rfl, -⟩ := (like_append h).mp hlike
    obtain ⟨front, hfront⟩ := (List.mem_tails _ _).mp hs
    exact ⟨front, rest, by rw [List.append_assoc, hfront]⟩
  · rintro ⟨front, rest, rfl⟩
    refine ⟨word ++ rest, (List.mem_tails _ _).mpr ⟨front, (List.append_assoc _ _ _).symm⟩, ?_⟩
    exact (like_append h).mpr ⟨rest, rfl, like_everything⟩

end Newsintel.SqlLike
