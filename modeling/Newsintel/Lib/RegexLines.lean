import Newsintel.Lib.Regex

/-!
# Patterns that stay within a line

A pattern is apart from a separator if it neither matches the separator nor tells it from the end
of the text. The matches in two lines are then those in the first and those in the second.
-/

namespace Newsintel.Regex

open PyText

/-- The pattern does not match `sep`, and takes it for an end of the text. -/
def Apart (sep : Char) : Pattern → Prop
  | .empty => True
  | .char p => p sep = false
  | .seq a b | .alt a b => Apart sep a ∧ Apart sep b
  | .star a => Apart sep a
  | .between p => ∀ x, p x (some sep) = p x none ∧ p (some sep) x = p none x

variable {sep : Char} {r : Pattern} {s s' : Position} {t w b : Text} {prev : Option Char}
  {f g : Position → List Position}

/-! ### The end of a line -/

/-- The position in a text that goes on behind the line. -/
def extend (sep : Char) (b : Text) (s : Position) : Position := (s.1, s.2 ++ sep :: b)

theorem length_extend : (extend sep b s).2.length = s.2.length + (b.length + 1) := by
  rw [extend, List.length_append, List.length_cons]

theorem filter_extend (l : List Position) : (l.map (extend sep b)).filter
    (fun s' => s'.2.length < (extend sep b s).2.length) =
      (l.filter fun s' => s'.2.length < s.2.length).map (extend sep b) := by
  rw [List.filter_map]
  congr 1
  apply List.filter_congr
  intro s' _
  simp only [Function.comp_apply, length_extend, Nat.add_lt_add_iff_right]

theorem repeatFrom_extend (hf : ∀ s, f (extend sep b s) = (f s).map (extend sep b)) {n m : ℕ}
    (hn : s.2.length ≤ n) (hm : s.2.length ≤ m) :
    repeatFrom f m (extend sep b s) = (repeatFrom f n s).map (extend sep b) := by
  induction n generalizing m s with
  | zero =>
    cases m with
    | zero => rfl
    | succ m =>
      have hnone : (f s).filter (fun s' => s'.2.length < s.2.length) = [] := by
        rw [List.filter_eq_nil_iff]
        intro s' _
        rw [decide_eq_true_eq]
        omega
      rw [repeatFrom, repeatFrom, hf, filter_extend, hnone]
      rfl
  | succ n ih =>
    cases m with
    | zero =>
      have hnone : (f s).filter (fun s' => s'.2.length < s.2.length) = [] := by
        rw [List.filter_eq_nil_iff]
        intro s' _
        rw [decide_eq_true_eq]
        omega
      rw [repeatFrom, repeatFrom, hnone]
      rfl
    | succ m =>
      rw [repeatFrom, repeatFrom, hf, filter_extend, List.map_append, List.flatMap_map,
        List.map_flatMap]
      congr 1
      apply List.flatMap_congr
      intro s' hs'
      have hlt := of_decide_eq_true (List.mem_filter.mp hs').2
      exact ih (by omega) (by omega)

/- A pattern does not see what is behind the line. -/
theorem run_extend (hr : Apart sep r) (s : Position) :
    run r (extend sep b s) = (run r s).map (extend sep b) := by
  induction r generalizing s with
  | empty => rfl
  | char p =>
    obtain ⟨prev, t⟩ := s
    cases t with
    | nil =>
      have hsep : p sep = false := hr
      simp only [extend, List.nil_append, run, hsep, Bool.false_eq_true, if_false, List.map_nil]
    | cons c t =>
      simp only [extend, List.cons_append, run]
      split <;> rfl
  | seq a c iha ihc =>
    simp only [run]
    rw [iha hr.1, List.flatMap_map, List.map_flatMap]
    exact List.flatMap_congr fun s' _ => ihc hr.2 s'
  | alt a c iha ihc => rw [run, run, iha hr.1, ihc hr.2, List.map_append]
  | star a iha =>
    rw [run, run]
    exact repeatFrom_extend (iha hr) le_rfl (by rw [length_extend]; omega)
  | between p =>
    have hhead : p (extend sep b s).1 (extend sep b s).2.head? = p s.1 s.2.head? := by
      obtain ⟨prev, t⟩ := s
      cases t with
      | nil => exact (hr prev).1
      | cons c t => rfl
    rw [run, run, hhead]
    split <;> rfl

theorem matchAt_extend (hr : Apart sep r) :
    matchAt r (extend sep b s) = (matchAt r s).map (extend sep b) := by
  rw [matchAt, run_extend hr, List.head?_map, matchAt]

/-! ### The beginning of a line -/

/-- The position, with the separator before it left out. -/
def lineStart (sep : Char) (s : Position) : Position :=
  if s.1 = some sep then (none, s.2) else s

@[simp] theorem lineStart_snd : (lineStart sep s).2 = s.2 := by
  unfold lineStart
  split <;> rfl

@[simp] theorem lineStart_lineStart : lineStart sep (lineStart sep s) = lineStart sep s := by
  unfold lineStart
  split <;> simp

theorem filter_lineStart (l : List Position) (n : ℕ) :
    (l.filter fun s' => s'.2.length < n).map (lineStart sep) =
      (l.map (lineStart sep)).filter fun s' => s'.2.length < n := by
  rw [List.filter_map]
  congr 1
  apply List.filter_congr
  intro s' _
  rw [Function.comp_apply, lineStart_snd]

theorem flatMap_lineStart {l l' : List Position}
    (hl : l.map (lineStart sep) = l'.map (lineStart sep))
    (hf : ∀ s, (f s).map (lineStart sep) = (f (lineStart sep s)).map (lineStart sep)) :
    (l.flatMap f).map (lineStart sep) = (l'.flatMap f).map (lineStart sep) := by
  have hboth (l : List Position) : (l.flatMap f).map (lineStart sep) =
      (l.map (lineStart sep)).flatMap fun s => (f s).map (lineStart sep) := by
    rw [List.map_flatMap, List.flatMap_map]
    exact List.flatMap_congr fun s _ => hf s
  rw [hboth, hboth, hl]

theorem repeatFrom_lineStart
    (hf : ∀ s, (f s).map (lineStart sep) = (f (lineStart sep s)).map (lineStart sep)) (n : ℕ)
    (s : Position) : (repeatFrom f n s).map (lineStart sep) =
      (repeatFrom f n (lineStart sep s)).map (lineStart sep) := by
  induction n generalizing s with
  | zero => simp only [repeatFrom, List.map_cons, List.map_nil, lineStart_lineStart]
  | succ n ih =>
    simp only [repeatFrom, List.map_append, List.map_cons, List.map_nil, lineStart_lineStart,
      lineStart_snd]
    congr 1
    apply flatMap_lineStart _ ih
    rw [filter_lineStart, filter_lineStart, hf]

/- A pattern does not see what is before the line. -/
theorem run_lineStart (hr : Apart sep r) (s : Position) :
    (run r s).map (lineStart sep) = (run r (lineStart sep s)).map (lineStart sep) := by
  induction r generalizing s with
  | empty => simp only [run, List.map_cons, List.map_nil, lineStart_lineStart]
  | char p =>
    obtain ⟨prev, t⟩ := s
    unfold lineStart
    split
    · cases t <;> rfl
    · rfl
  | seq a c iha ihc =>
    simp only [run]
    exact flatMap_lineStart (iha hr.1 s) (ihc hr.2)
  | alt a c iha ihc => rw [run, run, List.map_append, List.map_append, iha hr.1, ihc hr.2]
  | star a iha =>
    rw [run, run, lineStart_snd]
    exact repeatFrom_lineStart (iha hr) _ s
  | between p =>
    have hbefore : p (lineStart sep s).1 s.2.head? = p s.1 s.2.head? := by
      unfold lineStart
      split
      · rename_i h
        rw [h]
        exact (hr s.2.head?).2.symm
      · rfl
    rw [run, run, lineStart_snd, hbefore]
    split
    · simp only [List.map_cons, List.map_nil, lineStart_lineStart]
    · rfl

/- Positions that differ in the line before them have matches of the same lengths. -/
theorem matchAt_snd (hr : Apart sep r) (h : lineStart sep s = lineStart sep s') :
    (matchAt r s).map (lineStart sep) = (matchAt r s').map (lineStart sep) := by
  rw [matchAt, matchAt, ← List.head?_map, ← List.head?_map, run_lineStart hr s, h,
    ← run_lineStart hr s']

/-! ### Lines -/

/-- The matches of a scan. -/
def matchesFrom (r : Pattern) (n : ℕ) (s : Position) : List Text :=
  (scan r n [] s).filterMap Prod.snd

theorem scan_matches (r : Pattern) (n : ℕ) (piece : Text) (s : Position) :
    (scan r n piece s).filterMap Prod.snd = matchesFrom r n s := by
  unfold matchesFrom
  induction n generalizing piece s with
  | zero => rfl
  | succ n ih =>
    obtain ⟨prev, t⟩ := s
    simp only [scan]
    split
    · split
      · rfl
      · cases t with
        | nil => rfl
        | cons c t => rw [ih, ih [c]]
    · cases t with
      | nil => rfl
      | cons c t => rw [ih, ih [c]]

/- One step of a scan: a match that consumes something, or the next character. -/
theorem matchesFrom_succ (r : Pattern) (n : ℕ) (s : Position) : matchesFrom r (n + 1) s =
    match (matchAt r s).filter fun s' => s'.2.length < s.2.length with
    | some s' => s.2.take (s.2.length - s'.2.length) :: matchesFrom r n s'
    | none => (advance s).elim [] (matchesFrom r n) := by
  obtain ⟨prev, t⟩ := s
  rw [matchesFrom, scan]
  cases hmatch : matchAt r (prev, t) with
  | none =>
    cases t with
    | nil => rfl
    | cons c t => exact scan_matches r n [c] (some c, t)
  | some s' =>
    by_cases hlt : s'.2.length < t.length
    · simp only [Option.filter, decide_eq_true hlt, if_true, if_pos hlt, List.filterMap_cons]
      rw [scan_matches]
    · simp only [Option.filter, decide_eq_false hlt, if_neg hlt, Bool.false_eq_true, if_false]
      cases t with
      | nil => rfl
      | cons c t => exact scan_matches r n [c] (some c, t)

theorem snd_of_lineStart (h : lineStart sep s = lineStart sep s') : s.2 = s'.2 := by
  have hsnd : (lineStart sep s).2 = s.2 := lineStart_snd
  rw [← hsnd, h, lineStart_snd]

/- The matches in a line do not depend on what is before it. -/
theorem matchesFrom_lineStart (hr : Apart sep r) {n m : ℕ}
    (h : lineStart sep s = lineStart sep s') (hn : s.2.length < n) (hm : s.2.length < m) :
    matchesFrom r n s = matchesFrom r m s' := by
  induction n generalizing m s s' with
  | zero => omega
  | succ n ih =>
    obtain ⟨m, rfl⟩ : ∃ k, m = k + 1 := ⟨m - 1, by omega⟩
    have hsnd := snd_of_lineStart h
    have hfilter (s : Position) : ((matchAt r s).filter fun x => x.2.length < s.2.length).map
        (lineStart sep) =
          ((matchAt r s).map (lineStart sep)).filter fun x => x.2.length < s.2.length := by
      cases matchAt r s with
      | none => rfl
      | some x =>
        simp only [Option.filter, Option.map_some, lineStart_snd]
        split <;> rfl
    have hmatches : ((matchAt r s).filter fun x => x.2.length < s.2.length).map (lineStart sep) =
        ((matchAt r s').filter fun x => x.2.length < s'.2.length).map (lineStart sep) := by
      rw [hfilter, hfilter, matchAt_snd hr h, hsnd]
    rw [matchesFrom_succ, matchesFrom_succ]
    cases hx : (matchAt r s).filter fun x => x.2.length < s.2.length with
    | none =>
      rw [hx, Option.map_none] at hmatches
      rw [Option.map_eq_none_iff.mp hmatches.symm]
      obtain ⟨prev, t⟩ := s
      obtain ⟨prev', t'⟩ := s'
      obtain rfl : t = t' := hsnd
      cases t with
      | nil => rfl
      | cons c t =>
        rw [List.length_cons] at hn hm
        exact ih rfl (by show t.length < n; omega) (by show t.length < m; omega)
    | some x =>
      rw [hx, Option.map_some] at hmatches
      obtain ⟨y, hy, hxy⟩ := Option.map_eq_some_iff.mp hmatches.symm
      have hlt : x.2.length < s.2.length := by
        simpa using (Option.filter_eq_some_iff.mp hx).2
      have hsnd' := snd_of_lineStart hxy
      simp only [hy, hsnd, hsnd']
      congr 1
      exact ih hxy.symm (by omega) (by omega)

/- Matches in the line, and then those in what is behind it. -/
theorem matchesFrom_extend (hr : Apart sep r) {n m : ℕ} (hn : s.2.length < n)
    (hm : s.2.length + (b.length + 1) < m) :
    matchesFrom r m (extend sep b s) =
      matchesFrom r n s ++ matchesFrom r (b.length + 1) (none, b) := by
  induction n generalizing m s with
  | zero => omega
  | succ n ih =>
    obtain ⟨m, rfl⟩ : ∃ k, m = k + 1 := ⟨m - 1, by omega⟩
    have hfilter : (matchAt r (extend sep b s)).filter
        (fun x => x.2.length < (extend sep b s).2.length) =
          ((matchAt r s).filter fun x => x.2.length < s.2.length).map (extend sep b) := by
      rw [matchAt_extend hr]
      cases matchAt r s with
      | none => rfl
      | some x =>
        simp only [Option.filter, Option.map_some, length_extend, Nat.add_lt_add_iff_right]
        split <;> rfl
    rw [matchesFrom_succ, matchesFrom_succ, hfilter]
    cases hx : (matchAt r s).filter fun x => x.2.length < s.2.length with
    | none =>
      obtain ⟨prev, t⟩ := s
      cases t with
      | nil =>
        have hstart : lineStart sep (some sep, b) = lineStart sep (none, b) := by simp [lineStart]
        refine matchesFrom_lineStart hr hstart ?_ ?_
        · simp only [List.length_nil] at hm
          show b.length < m
          omega
        · exact Nat.lt_succ_self _
      | cons c t =>
        rw [List.length_cons] at hn hm
        exact ih (s := (some c, t)) (by show t.length < n; omega)
          (by show t.length + (b.length + 1) < m; omega)
    | some x =>
      have hlt : x.2.length < s.2.length := by
        simpa using (Option.filter_eq_some_iff.mp hx).2
      simp only [Option.map_some, List.cons_append]
      rw [ih (s := x) (by omega) (by omega), length_extend, length_extend,
        Nat.add_sub_add_right]
      congr 1
      exact List.take_append_of_le_length (by omega)

theorem findall_append (hr : Apart sep r) (t b : Text) :
    findall r (t ++ sep :: b) = findall r t ++ findall r b := by
  refine matchesFrom_extend hr (s := (none, t)) (Nat.lt_succ_self _) ?_
  simp only [List.length_append, List.length_cons]
  omega

theorem searchFrom_lineStart (hr : Apart sep r) (b : Text) :
    searchFrom r (some sep) b = searchFrom r none b := by
  have hsome : (matchAt r (some sep, b)).isSome = (matchAt r (none, b)).isSome := by
    have hstart : lineStart sep (some sep, b) = lineStart sep (none, b) := by simp [lineStart]
    rw [← Option.isSome_map (f := lineStart sep), matchAt_snd hr hstart, Option.isSome_map]
  cases b with
  | nil => exact hsome
  | cons c b => rw [searchFrom, searchFrom, hsome]

theorem searchFrom_append (hr : Apart sep r) (prev : Option Char) (t b : Text) :
    searchFrom r prev (t ++ sep :: b) = (searchFrom r prev t || searchFrom r none b) := by
  have hsome (t : Text) (prev : Option Char) :
      (matchAt r (prev, t ++ sep :: b)).isSome = (matchAt r (prev, t)).isSome := by
    rw [show (prev, t ++ sep :: b) = extend sep b (prev, t) from rfl, matchAt_extend hr,
      Option.isSome_map]
  induction t generalizing prev with
  | nil =>
    rw [List.nil_append, searchFrom, searchFrom, searchFrom_lineStart hr]
    rw [← hsome [] prev, List.nil_append]
  | cons c t ih =>
    rw [List.cons_append, searchFrom, searchFrom, ih, ← List.cons_append, hsome, Bool.or_assoc]

theorem search_append (hr : Apart sep r) (t b : Text) :
    search r (t ++ sep :: b) = (search r t || search r b) := searchFrom_append hr none t b

/-! ### Building patterns -/

theorem apart_exactly (hr : Apart sep r) (n : ℕ) : Apart sep (exactly r n) := by
  induction n with
  | zero => trivial
  | succ n ih => exact ⟨hr, ih⟩

theorem apart_atMost (hr : Apart sep r) (n : ℕ) : Apart sep (atMost r n) := by
  induction n with
  | zero => trivial
  | succ n ih => exact ⟨⟨hr, ih⟩, trivial⟩

theorem apart_seqs {rs : List Pattern} (h : ∀ r ∈ rs, Apart sep r) : Apart sep (seqs rs) := by
  induction rs with
  | nil => trivial
  | cons r rs ih => exact ⟨h r List.mem_cons_self, ih fun r hr => h r (List.mem_cons_of_mem _ hr)⟩

theorem apart_literal {text : String} (h : sep ∉ text.toList) : Apart sep (literal text) := by
  apply apart_seqs
  intro r hr
  obtain ⟨c, hc, rfl⟩ := List.mem_map.mp hr
  exact beq_false_of_ne fun heq => h (heq ▸ hc)

theorem apart_boundary (u : Unicode) (h : isWord u (some sep) = false) :
    Apart sep (boundary u) := by
  have hnone : isWord u none = false := rfl
  intro x
  simp only [h, hnone, and_self]

end Newsintel.Regex
