import Newsintel.Lib.PyText

/-!
# Lines of a text

`str.splitlines` and the pieces between blank lines. A line break is whitespace, so the words of a
text are those of its lines.
-/

namespace Newsintel.PyText

/-- A character that ends a line; `\r\n` ends one line. -/
def isLineBreak (c : Char) : Bool :=
  [10, 11, 12, 13, 28, 29, 30, 133, 8232, 8233].contains c.toNat

/-- The lines behind the beginning `line` of one. -/
def splitlinesFrom : Text → Text → List Text
  | [], [] => []
  | line, [] => [line]
  | line, '\r' :: '\n' :: t => line :: splitlinesFrom [] t
  | line, c :: t =>
    if isLineBreak c then line :: splitlinesFrom [] t else splitlinesFrom (line ++ [c]) t

/-- `str.splitlines()`. -/
def splitlines (t : Text) : List Text := splitlinesFrom [] t

/-- The pieces behind the beginning `piece` of one. -/
def splitBlankFrom : Text → Text → List Text
  | piece, [] => [piece]
  | piece, '\n' :: '\n' :: t => piece :: splitBlankFrom [] t
  | piece, c :: t => splitBlankFrom (piece ++ [c]) t

/-- `t.split("\n\n")`. -/
def splitBlank (t : Text) : List Text := splitBlankFrom [] t

/-- `\r\n`, or one character that ends a line. -/
def LineEnd (t : Text) : Prop := t = ['\r', '\n'] ∨ ∃ c, isLineBreak c = true ∧ t = [c]

variable {c : Char} {line piece t : Text}

theorem isSpace_of_isLineBreak (h : isLineBreak c = true) : isSpace c = true := by
  simp only [isLineBreak, List.contains_iff_mem, List.mem_cons, List.not_mem_nil, or_false] at h
  rcases h with h | h | h | h | h | h | h | h | h | h <;> simp [isSpace, h]

theorem splitlinesFrom_append (h : ∀ c ∈ t, isLineBreak c = false) (rest : Text) :
    splitlinesFrom line (t ++ rest) = splitlinesFrom (line ++ t) rest := by
  induction t generalizing line with
  | nil => rw [List.nil_append, List.append_nil]
  | cons c t ih =>
    obtain ⟨hc, ht⟩ := List.forall_mem_cons.mp h
    have hcr : c ≠ '\r' := by
      rintro rfl
      exact absurd hc (by decide)
    rw [List.cons_append, splitlinesFrom]
    · rw [if_neg (by simp [hc]), ih ht, List.append_assoc, List.singleton_append]
    · rintro tail rfl _
      exact hcr rfl

theorem splitlines_of_no_break (h : ∀ c ∈ t, isLineBreak c = false) (hne : t ≠ []) :
    splitlines t = [t] := by
  have happend : splitlinesFrom [] (t ++ []) = splitlinesFrom ([] ++ t) [] :=
    splitlinesFrom_append h []
  rw [List.append_nil, List.nil_append] at happend
  obtain ⟨d, rest, rfl⟩ := List.exists_cons_of_ne_nil hne
  rw [splitlines, happend]
  rfl

/- A carriage return takes a line feed behind it along, which would end an empty line. -/
theorem filterMap_splitlinesFrom_end {α : Type*} {f : Text → Option α} (hf : f [] = none)
    {ending : Text} (hend : LineEnd ending) (line rest : Text) :
    (splitlinesFrom line (ending ++ rest)).filterMap f =
      (f line).toList ++ (splitlines rest).filterMap f := by
  have hcons : ∀ lines : List Text, (line :: lines).filterMap f =
      (f line).toList ++ lines.filterMap f := by
    intro lines
    rw [List.filterMap_cons]
    cases f line <;> rfl
  obtain rfl | ⟨c, hc, rfl⟩ := hend
  · have hstep : splitlinesFrom line ('\r' :: '\n' :: rest) = line :: splitlines rest := by
      cases line <;> rfl
    rw [List.cons_append, List.singleton_append, hstep, hcons]
  · by_cases hcrlf : c = '\r' ∧ ∃ t, rest = '\n' :: t
    · obtain ⟨rfl, t, rfl⟩ := hcrlf
      have hstep : splitlinesFrom line ('\r' :: '\n' :: t) = line :: splitlines t := by
        cases line <;> rfl
      have hempty : splitlines ('\n' :: t) = [] :: splitlines t := rfl
      rw [List.singleton_append, hstep, hcons, hempty, List.filterMap_cons_none hf]
    · have hstep : splitlinesFrom line (c :: rest) = line :: splitlines rest := by
        rw [splitlinesFrom]
        · rw [if_pos hc]
          rfl
        · rintro t rfl rfl
          exact hcrlf ⟨rfl, t, rfl⟩
      rw [List.singleton_append, hstep, hcons]

theorem filterMap_splitlines_line {α : Type*} {f : Text → Option α} (hf : f [] = none)
    (h : ∀ c ∈ t, isLineBreak c = false) {ending : Text} (hend : LineEnd ending) (rest : Text) :
    (splitlines (t ++ ending ++ rest)).filterMap f =
      (f t).toList ++ (splitlines rest).filterMap f := by
  rw [splitlines, List.append_assoc, splitlinesFrom_append h, List.nil_append,
    filterMap_splitlinesFrom_end hf hend]

/- Behind the last line end. -/
theorem filterMap_splitlines_rest {α : Type*} {f : Text → Option α} (hf : f [] = none)
    (h : ∀ c ∈ t, isLineBreak c = false) : (splitlines t).filterMap f = (f t).toList := by
  by_cases hne : t = []
  · subst hne
    rw [hf]
    rfl
  · rw [splitlines_of_no_break h hne, List.filterMap_cons]
    cases f t <;> rfl

theorem flatMap_words_splitlinesFrom (line t : Text) :
    (splitlinesFrom line t).flatMap words = words (line ++ t) := by
  fun_induction splitlinesFrom line t with
  | case1 => rfl
  | case2 line => simp
  | case3 line t ih =>
    rw [List.flatMap_cons, ih, words_append_space (by decide), List.nil_append,
      words_cons_space (by decide)]
  | case4 line c t _ hbreak ih =>
    rw [List.flatMap_cons, ih, words_append_space (isSpace_of_isLineBreak hbreak), List.nil_append]
  | case5 line c t _ _ ih =>
    rw [ih, List.append_assoc, List.singleton_append]

theorem flatMap_words_splitlines (t : Text) : (splitlines t).flatMap words = words t :=
  flatMap_words_splitlinesFrom [] t

theorem splitBlankFrom_append (h : '\n' ∉ line) :
    splitBlankFrom piece (line ++ '\n' :: '\n' :: t) = (piece ++ line) :: splitBlankFrom [] t := by
  induction line generalizing piece with
  | nil => rw [List.nil_append, splitBlankFrom, List.append_nil]
  | cons c line ih =>
    obtain ⟨hc, hline⟩ := not_or.mp (by simpa using h : ¬('\n' = c ∨ '\n' ∈ line))
    rw [List.cons_append, splitBlankFrom]
    · rw [ih hline, List.append_assoc, List.singleton_append]
    · rintro rest rfl _
      exact hc rfl

theorem splitBlankFrom_of_no_break (h : '\n' ∉ t) : splitBlankFrom piece t = [piece ++ t] := by
  induction t generalizing piece with
  | nil => simp [splitBlankFrom]
  | cons c t ih =>
    obtain ⟨hc, ht⟩ := not_or.mp (by simpa using h : ¬('\n' = c ∨ '\n' ∈ t))
    rw [splitBlankFrom]
    · rw [ih ht, List.append_assoc, List.singleton_append]
    · rintro rest rfl _
      exact hc rfl

theorem splitBlank_of_no_break (h : '\n' ∉ t) : splitBlank t = [t] := splitBlankFrom_of_no_break h

/- Texts without line breaks are found again between the blank lines that join them. -/
theorem splitBlank_intercalate {ts : List Text} (h : ∀ t ∈ ts, '\n' ∉ t) (hne : ts ≠ []) :
    splitBlank (['\n', '\n'].intercalate ts) = ts := by
  induction ts with
  | nil => exact absurd rfl hne
  | cons t ts ih =>
    obtain ⟨ht, hts⟩ := List.forall_mem_cons.mp h
    cases ts with
    | nil => rw [List.intercalate_singleton, splitBlank_of_no_break ht]
    | cons s ts =>
      have hrest := ih hts (List.cons_ne_nil s ts)
      rw [List.intercalate_cons_cons, List.append_assoc, splitBlank]
      show splitBlankFrom [] (t ++ '\n' :: '\n' :: ['\n', '\n'].intercalate (s :: ts)) = t :: s :: ts
      rw [splitBlankFrom_append ht, List.nil_append, ← splitBlank, hrest]

end Newsintel.PyText
