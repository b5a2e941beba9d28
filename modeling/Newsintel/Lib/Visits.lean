import Mathlib.Data.List.Basic
import Mathlib.Tactic.Common

/-!
# Loops that hand commands to a service

A loop visits the items of a list. An item whose key was seen before is skipped; any
other yields no command, a command for a service, or an error that ends the loop; a
limit on the totals of the service's answers ends it too. `plan` is what the loop
would hand over without a limit and with no refusal, `drive` hands a plan over, and
`visit` is the one after the other.
-/

namespace Newsintel.Visits

variable {ι κ κ' υ ε τ σ : Type*} [DecidableEq υ]

/-- The key of the item, if any, was seen before. -/
def repeats (seen : List υ) (key : Option υ) : Bool := key.any (seen.contains ·)

/-- The keys seen once an item has been looked at. -/
def note (key : Option υ) (seen : List υ) : List υ := key.toList ++ seen

/-- The loop, from the item with number `i` on. `n` are the totals, `s` the state of
the service. -/
def visit (done : τ → Bool) (key : ι → Option υ) (command : ℕ → ι → Except ε (Option κ))
    (submit : κ → τ → σ → Except ε τ × σ) : ℕ → List υ → List ι → τ → σ → Except ε τ × σ
  | _, _, [], n, s => (.ok n, s)
  | i, seen, x :: xs, n, s =>
    if done n then (.ok n, s)
    else if repeats seen (key x) then visit done key command submit (i + 1) seen xs n s
    else
      match command i x with
      | .error e => (.error e, s)
      | .ok none => visit done key command submit (i + 1) (note (key x) seen) xs n s
      | .ok (some c) =>
        match submit c n s with
        | (.error e, s') => (.error e, s')
        | (.ok n', s') => visit done key command submit (i + 1) (note (key x) seen) xs n' s'

/-- The commands of the items, and the error that ends them. -/
def plan (key : ι → Option υ) (command : ℕ → ι → Except ε (Option κ)) :
    ℕ → List υ → List ι → List κ × Option ε
  | _, _, [] => ([], none)
  | i, seen, x :: xs =>
    if repeats seen (key x) then plan key command (i + 1) seen xs
    else
      match command i x with
      | .error e => ([], some e)
      | .ok none => plan key command (i + 1) (note (key x) seen) xs
      | .ok (some c) =>
        let rest := plan key command (i + 1) (note (key x) seen) xs
        (c :: rest.1, rest.2)

/-- Handing over commands, with the error that ends them. -/
def drive (done : τ → Bool) (submit : κ → τ → σ → Except ε τ × σ) (last : Option ε) :
    List κ → τ → σ → Except ε τ × σ
  | [], n, s =>
    match last with
    | none => (.ok n, s)
    | some e => if done n then (.ok n, s) else (.error e, s)
  | c :: cs, n, s =>
    if done n then (.ok n, s)
    else
      match submit c n s with
      | (.error e, s') => (.error e, s')
      | (.ok n', s') => drive done submit last cs n' s'

section loop

variable {done : τ → Bool} {key : ι → Option υ} {command : ℕ → ι → Except ε (Option κ)}
  {submit : κ → τ → σ → Except ε τ × σ} {n m : τ} {s t : σ}

theorem drive_done (h : done n = true) (last : Option ε) (cs : List κ) :
    drive done submit last cs n s = (.ok n, s) := by
  cases cs with
  | nil => cases last <;> simp [drive, h]
  | cons c cs => simp [drive, h]

/-- The loop hands over its plan. -/
theorem visit_eq_drive (i : ℕ) (seen : List υ) (xs : List ι) (n : τ) (s : σ) :
    visit done key command submit i seen xs n s =
      drive done submit (plan key command i seen xs).2 (plan key command i seen xs).1 n s := by
  induction xs generalizing i seen n s with
  | nil => rfl
  | cons x xs ih =>
    by_cases hdone : done n = true
    · rw [drive_done hdone, visit, if_pos hdone]
    · rw [visit, if_neg hdone, plan]
      split
      · exact ih (i + 1) seen n s
      · cases command i x with
        | error e => simp [drive, hdone]
        | ok c =>
          cases c with
          | none => exact ih (i + 1) (note (key x) seen) n s
          | some c =>
            simp only [drive, hdone, Bool.false_eq_true, if_false]
            rcases submit c n s with ⟨r, s'⟩
            cases r with
            | error e => rfl
            | ok n' => exact ih (i + 1) (note (key x) seen) n' s'

/- A planned command is the command of an item. -/
theorem mem_plan {c : κ} {i : ℕ} {seen : List υ} {xs : List ι}
    (h : c ∈ (plan key command i seen xs).1) : ∃ j, ∃ x ∈ xs, command j x = .ok (some c) := by
  induction xs generalizing i seen with
  | nil => simp [plan] at h
  | cons x xs ih =>
    rw [plan] at h
    split at h
    · obtain ⟨j, y, hy, hc⟩ := ih h
      exact ⟨j, y, List.mem_cons_of_mem x hy, hc⟩
    · cases hx : command i x with
      | error e => simp [hx] at h
      | ok d =>
        cases d with
        | none =>
          rw [hx] at h
          obtain ⟨j, y, hy, hc⟩ := ih h
          exact ⟨j, y, List.mem_cons_of_mem x hy, hc⟩
        | some d =>
          rw [hx] at h
          rcases List.mem_cons.mp h with rfl | h
          · exact ⟨i, x, List.mem_cons_self, hx⟩
          · obtain ⟨j, y, hy, hc⟩ := ih h
            exact ⟨j, y, List.mem_cons_of_mem x hy, hc⟩

end loop

/-! ### What the service gets to know -/

section service

variable {φ ω : Type*} {done : τ → Bool} {submit : κ → τ → σ → Except ε τ × σ} {last : Option ε}
  {cs pre post : List κ} {c : κ} {n m : τ} {s t : σ}

/- Commands that the service cannot tell apart lead to states that it cannot tell apart. -/
theorem drive_congr {forget : κ → κ'} {Same : σ → σ → Prop}
    (hsame : ∀ c d n s t, forget c = forget d → Same s t →
      (submit c n s).1 = (submit d n t).1 ∧ Same (submit c n s).2 (submit d n t).2)
    {ds : List κ} (h : cs.map forget = ds.map forget) (hst : Same s t) (last last' : Option ε) :
    Same (drive done submit last cs n s).2 (drive done submit last' ds n t).2 := by
  have hend : ∀ (last : Option ε) n s, (drive done submit last [] n s).2 = s := by
    intro last n s
    cases last with
    | none => rfl
    | some e =>
      simp only [drive]
      split <;> rfl
  induction cs generalizing ds n s t with
  | nil =>
    obtain rfl := List.map_eq_nil_iff.mp h.symm
    rw [hend, hend]
    exact hst
  | cons c cs ih =>
    cases ds with
    | nil => simp at h
    | cons d ds =>
      simp only [List.map_cons, List.cons.injEq] at h
      obtain ⟨hanswer, hnext⟩ := hsame c d n s t h.1 hst
      by_cases hdone : done n = true
      · rw [drive_done hdone, drive_done hdone]
        exact hst
      · simp only [drive, hdone, Bool.false_eq_true, if_false]
        rcases hc : submit c n s with ⟨r, s'⟩
        rcases hd : submit d n t with ⟨r', t'⟩
        rw [hc, hd] at hanswer hnext
        obtain rfl : r = r' := hanswer
        cases r with
        | error e => exact hnext
        | ok n' => exact ih h.2 hnext

/- A service that answers every command gets all of them. -/
theorem drive_log {log : σ → List ω} {mark : κ → ω}
    (h : ∀ c n s, done n = false → ∃ n' s', submit c n s = (.ok n', s') ∧ done n' = false ∧
      log s' = log s ++ [mark c]) (hn : done n = false) :
    log (drive done submit last cs n s).2 = log s ++ cs.map mark := by
  induction cs generalizing n s with
  | nil => cases last <;> simp [drive, hn]
  | cons c cs ih =>
    obtain ⟨n', s', hsubmit, hn', hlog⟩ := h c n s hn
    simp only [drive, hn, Bool.false_eq_true, if_false, hsubmit]
    rw [ih hn', hlog, List.map_cons, List.append_assoc, List.singleton_append]

/- A relation kept by every call is kept by the loop. -/
theorem drive_relates {R : σ → σ → Prop} (hrefl : ∀ s, R s s)
    (htrans : ∀ a b c, R a b → R b c → R a c) (h : ∀ c n s, R s (submit c n s).2) (cs : List κ)
    (n : τ) (s : σ) : R s (drive done submit last cs n s).2 := by
  induction cs generalizing n s with
  | nil =>
    cases last with
    | none => exact hrefl s
    | some e =>
      simp only [drive]
      split <;> exact hrefl s
  | cons c cs ih =>
    rw [drive]
    split
    · exact hrefl s
    · have hcall := h c n s
      rcases hsubmit : submit c n s with ⟨r, s'⟩
      rw [hsubmit] at hcall
      cases r with
      | error e => exact hcall
      | ok n' => exact htrans _ _ _ hcall (ih n' s')

variable [DecidableEq φ]

/-- How many of the marks are new, one after the other. -/
def newMarks : List φ → List φ → ℕ
  | _, [] => 0
  | known, k :: ks => if k ∈ known then newMarks known ks else newMarks (k :: known) ks + 1

theorem newMarks_anti {known known' : List φ} (h : known ⊆ known') (ks : List φ) :
    newMarks known' ks ≤ newMarks known ks := by
  induction ks generalizing known known' with
  | nil => exact Nat.le_refl 0
  | cons k ks ih =>
    rw [newMarks, newMarks]
    by_cases hk : k ∈ known
    · rw [if_pos hk, if_pos (h hk)]
      exact ih h
    · rw [if_neg hk]
      split
      · rename_i hk'
        have hle := ih (List.cons_subset.mpr ⟨hk', h⟩)
        omega
      · have hle := ih (List.cons_subset_cons k h)
        omega

/- A mark that gets known is no longer new. -/
theorem newMarks_cons_lt {known : List φ} {k : φ} {ks : List φ} (hk : k ∈ ks) (hnew : k ∉ known) :
    newMarks (k :: known) ks < newMarks known ks := by
  induction ks generalizing known with
  | nil => cases hk
  | cons j ks ih =>
    rw [newMarks, newMarks]
    by_cases hj : j = k
    · subst hj
      rw [if_pos List.mem_cons_self, if_neg hnew]
      exact Nat.lt_succ_self _
    · have hrest : k ∈ ks := (List.mem_cons.mp hk).resolve_left fun he => hj he.symm
      by_cases hknown : j ∈ known
      · rw [if_pos (List.mem_cons_of_mem k hknown), if_pos hknown]
        exact ih hrest hnew
      · have hj' : j ∉ k :: known := fun h => (List.mem_cons.mp h).elim hj hknown
        have hk' : k ∉ j :: known := fun h => (List.mem_cons.mp h).elim (fun he => hj he.symm) hnew
        have hswap : newMarks (j :: k :: known) ks ≤ newMarks (k :: j :: known) ks :=
          newMarks_anti (List.Perm.swap j k known).subset ks
        rw [if_neg hj', if_neg hknown]
        exact Nat.succ_lt_succ (Nat.lt_of_le_of_lt hswap (ih hrest hk'))

/-- An answered command is recorded and its mark known, for good; only a new mark counts. -/
structure Recording (submit : κ → τ → σ → Except ε τ × σ) (count : τ → ℕ) (mark : κ → φ)
    (known : σ → List φ) (recorded : σ → κ → Prop) : Prop where
  known_mono : ∀ c n s n' s', submit c n s = (.ok n', s') → known s ⊆ known s'
  mark_known : ∀ c n s n' s', submit c n s = (.ok n', s') → mark c ∈ known s'
  counted : ∀ c n s n' s', submit c n s = (.ok n', s') →
    count n' ≤ count n + if mark c ∈ known s then 0 else 1
  recorded_mono : ∀ c n s n' s' d, submit c n s = (.ok n', s') → recorded s d → recorded s' d
  recorded_self : ∀ c n s n' s', submit c n s = (.ok n', s') → recorded s' c

variable {count : τ → ℕ} {mark : κ → φ} {known : σ → List φ} {recorded : σ → κ → Prop} {limit : ℕ}

theorem Recording.drive_mono (h : Recording submit count mark known recorded)
    (hrun : drive done submit last cs n s = (.ok m, t)) (hc : recorded s c) : recorded t c := by
  induction cs generalizing n s with
  | nil =>
    cases last with
    | none =>
      obtain ⟨-, rfl⟩ := (Prod.mk.injEq ..).mp hrun
      exact hc
    | some e =>
      rw [drive] at hrun
      split at hrun
      · obtain ⟨-, rfl⟩ := (Prod.mk.injEq ..).mp hrun
        exact hc
      · cases hrun
  | cons a cs ih =>
    rw [drive] at hrun
    split at hrun
    · obtain ⟨-, rfl⟩ := (Prod.mk.injEq ..).mp hrun
      exact hc
    · split at hrun
      · cases hrun
      · rename_i n' s' hsubmit
        exact ih hrun (h.recorded_mono _ _ _ _ _ _ hsubmit hc)

/- Before the limit nothing is left out. -/
theorem Recording.drive_records (h : Recording submit count mark known recorded)
    (hdone : ∀ n, count n < limit → done n = false)
    (hrun : drive done submit last (pre ++ c :: post) n s = (.ok m, t))
    (hnew : count n + newMarks (known s) (pre.map mark) < limit) : recorded t c := by
  induction pre generalizing n s with
  | nil =>
    rw [List.nil_append, drive, hdone n (by omega), if_neg Bool.false_ne_true] at hrun
    split at hrun
    · cases hrun
    · rename_i n' s' hsubmit
      exact h.drive_mono hrun (h.recorded_self _ _ _ _ _ hsubmit)
  | cons a pre ih =>
    rw [List.cons_append, drive, hdone n (by omega), if_neg Bool.false_ne_true] at hrun
    split at hrun
    · cases hrun
    · rename_i n' s' hsubmit
      apply ih hrun
      have hcounted := h.counted _ _ _ _ _ hsubmit
      have hmono := h.known_mono _ _ _ _ _ hsubmit
      rw [List.map_cons, newMarks] at hnew
      split at hnew
      · rename_i hmem
        have hle := newMarks_anti hmono (pre.map mark)
        rw [if_pos hmem] at hcounted
        omega
      · rename_i hmem
        have hsub := List.cons_subset.mpr ⟨h.mark_known _ _ _ _ _ hsubmit, hmono⟩
        have hle := newMarks_anti hsub (pre.map mark)
        rw [if_neg hmem] at hcounted
        omega

/- What a loop counts is no longer new. -/
theorem Recording.drive_new (h : Recording submit count mark known recorded) {marks : List φ}
    (hmarks : ∀ c ∈ cs, mark c ∈ marks) (hrun : drive done submit last cs n s = (.ok m, t)) :
    newMarks (known t) marks + count m ≤ newMarks (known s) marks + count n := by
  induction cs generalizing n s with
  | nil =>
    cases last with
    | none =>
      cases hrun
      exact Nat.le_refl _
    | some e =>
      rw [drive] at hrun
      split at hrun
      · cases hrun
        exact Nat.le_refl _
      · cases hrun
  | cons a cs ih =>
    rw [drive] at hrun
    split at hrun
    · cases hrun
      exact Nat.le_refl _
    · split at hrun
      · cases hrun
      · rename_i n' s' hsubmit
        have hrest := ih (fun c hc => hmarks c (List.mem_cons_of_mem a hc)) hrun
        have hcounted := h.counted _ _ _ _ _ hsubmit
        have hmono := h.known_mono _ _ _ _ _ hsubmit
        by_cases hmem : mark a ∈ known s
        · have hle := newMarks_anti hmono marks
          rw [if_pos hmem] at hcounted
          omega
        · have hsub := List.cons_subset.mpr ⟨h.mark_known _ _ _ _ _ hsubmit, hmono⟩
          have hle := newMarks_anti hsub marks
          have hlt := newMarks_cons_lt (hmarks a List.mem_cons_self) hmem
          rw [if_neg hmem] at hcounted
          omega

/- A loop that does not reach its limit leaves nothing out. -/
theorem Recording.drive_all (h : Recording submit count mark known recorded)
    (hrun : drive done submit last cs n s = (.ok m, t)) (hopen : done m = false) :
    ∀ c ∈ cs, recorded t c := by
  induction cs generalizing n s with
  | nil => exact List.forall_mem_nil _
  | cons a cs ih =>
    rw [drive] at hrun
    split at hrun
    · rename_i hdone
      cases hrun
      exact absurd hdone (Bool.eq_false_iff.mp hopen)
    · split at hrun
      · cases hrun
      · rename_i n' s' hsubmit
        exact List.forall_mem_cons.mpr
          ⟨h.drive_mono hrun (h.recorded_self _ _ _ _ _ hsubmit), ih hrun⟩

end service

/-! ### Answered commands -/

section answered

variable {σ' : Type*} {done : τ → Bool} {key : ι → Option υ} {command : ℕ → ι → Except ε (Option κ)}
  {submit : κ → τ → σ → Except ε τ × σ} {submit' : κ → τ → σ' → Except ε τ × σ'} {last : Option ε}
  {cs pre : List κ} {n m : τ} {s t u : σ} {e : ε}

/-- The totals and the state once all commands are handed over and answered. -/
def serve (done : τ → Bool) (submit : κ → τ → σ → Except ε τ × σ) :
    List κ → τ → σ → Option (τ × σ)
  | [], n, s => some (n, s)
  | c :: cs, n, s =>
    if done n then none
    else
      match submit c n s with
      | (.error _, _) => none
      | (.ok n', s') => serve done submit cs n' s'

/-- Behind the commands `pre`, with the totals `m` and the state `t`, the loop raises: the next
command is refused, or the next item has none. -/
def RaisesBehind (done : τ → Bool) (submit : κ → τ → σ → Except ε τ × σ)
    (plan : List κ × Option ε) (pre : List κ) (m : τ) (t : σ) : Prop :=
  done m = false ∧
    ((∃ c post e u, plan.1 = pre ++ c :: post ∧ submit c m t = (.error e, u)) ∨
      (plan.1 = pre ∧ plan.2.isSome = true))

/- A loop that returns has handed over the first commands of its plan. -/
theorem drive_ok (h : drive done submit last cs n s = (.ok m, t)) :
    ∃ pre, pre <+: cs ∧ serve done submit pre n s = some (m, t) := by
  induction cs generalizing n s with
  | nil =>
    refine ⟨[], List.prefix_rfl, ?_⟩
    cases last with
    | none =>
      obtain ⟨hm, rfl⟩ := (Prod.mk.injEq ..).mp h
      rw [Except.ok.inj hm, serve]
    | some e =>
      rw [drive] at h
      split at h
      · obtain ⟨hm, rfl⟩ := (Prod.mk.injEq ..).mp h
        rw [Except.ok.inj hm, serve]
      · cases h
  | cons c cs ih =>
    rw [drive] at h
    split at h
    · obtain ⟨hm, rfl⟩ := (Prod.mk.injEq ..).mp h
      exact ⟨[], List.nil_prefix, by rw [Except.ok.inj hm, serve]⟩
    · rename_i hdone
      split at h
      · cases h
      · rename_i n' s' hsubmit
        obtain ⟨pre, hpre, hserve⟩ := ih h
        refine ⟨c :: pre, List.prefix_cons_inj c |>.mpr hpre, ?_⟩
        rw [serve, if_neg hdone, hsubmit]
        exact hserve

/- A loop that raises does so behind some commands that are answered. -/
theorem drive_error (h : drive done submit last cs n s = (.error e, t)) :
    ∃ pre m u, serve done submit pre n s = some (m, u) ∧
      RaisesBehind done submit (cs, last) pre m u ∧
        (t = u ∨ ∃ c, submit c m u = (.error e, t)) := by
  induction cs generalizing n s with
  | nil =>
    cases last with
    | none => cases h
    | some e' =>
      rw [drive] at h
      split at h
      · cases h
      · rename_i hdone
        obtain ⟨-, rfl⟩ := (Prod.mk.injEq ..).mp h
        exact ⟨[], n, s, rfl, ⟨Bool.eq_false_iff.mpr hdone, Or.inr ⟨rfl, rfl⟩⟩, Or.inl rfl⟩
  | cons c cs ih =>
    rw [drive] at h
    split at h
    · cases h
    · rename_i hdone
      split at h
      · rename_i e' s' hsubmit
        obtain ⟨he, rfl⟩ := (Prod.mk.injEq ..).mp h
        obtain rfl := Except.error.inj he
        exact ⟨[], n, s, rfl, ⟨Bool.eq_false_iff.mpr hdone,
          Or.inl ⟨c, cs, e', s', rfl, hsubmit⟩⟩, Or.inr ⟨c, hsubmit⟩⟩
      · rename_i n' s' hsubmit
        obtain ⟨pre, m, u, hserve, ⟨hopen, hraises⟩, ht⟩ := ih h
        refine ⟨c :: pre, m, u, ?_, ⟨hopen, ?_⟩, ht⟩
        · rw [serve, if_neg hdone, hsubmit]
          exact hserve
        · obtain ⟨d, post, e, v, hcs, hd⟩ | ⟨hcs, hlast⟩ := hraises
          · exact Or.inl ⟨d, post, e, v, congrArg (c :: ·) hcs, hd⟩
          · exact Or.inr ⟨congrArg (c :: ·) hcs, hlast⟩

theorem drive_of_raisesBehind (hserve : serve done submit pre n s = some (m, u))
    (hraises : RaisesBehind done submit (cs, last) pre m u) :
    ∃ e t, drive done submit last cs n s = (.error e, t) ∧
      (t = u ∨ ∃ c, submit c m u = (.error e, t)) := by
  induction pre generalizing cs n s with
  | nil =>
    obtain ⟨rfl, rfl⟩ := (Prod.mk.injEq ..).mp (Option.some.inj hserve)
    obtain ⟨hopen, ⟨c, post, e, v, rfl, hc⟩ | ⟨rfl, hlast⟩⟩ := hraises
    · refine ⟨e, v, ?_, Or.inr ⟨c, hc⟩⟩
      simp only [List.nil_append, drive, hopen, Bool.false_eq_true, if_false, hc]
    · obtain ⟨e, he⟩ := Option.isSome_iff_exists.mp hlast
      obtain rfl : last = some e := he
      refine ⟨e, s, ?_, Or.inl rfl⟩
      simp only [drive, hopen, Bool.false_eq_true, if_false]
  | cons c pre ih =>
    rw [serve] at hserve
    split at hserve
    · cases hserve
    · rename_i hdone
      split at hserve
      · cases hserve
      · rename_i n' s' hsubmit
        have hrest : ∃ rest, cs = c :: rest ∧ RaisesBehind done submit (rest, last) pre m u := by
          obtain ⟨hopen, ⟨d, post, e, v, hcs, hd⟩ | ⟨hcs, hlast⟩⟩ := hraises
          · exact ⟨pre ++ d :: post, hcs, hopen, Or.inl ⟨d, post, e, v, rfl, hd⟩⟩
          · exact ⟨pre, hcs, hopen, Or.inr ⟨rfl, hlast⟩⟩
        obtain ⟨rest, rfl, hrest⟩ := hrest
        obtain ⟨e, t, hrun, ht⟩ := ih hserve hrest
        refine ⟨e, t, ?_, ht⟩
        rw [drive, if_neg hdone, hsubmit]
        exact hrun

/- What each answer keeps, with the number of answers so far, holds after all of them. -/
theorem serve_invariant {P : ℕ → τ → σ → Prop} {k : ℕ}
    (h : ∀ c k n s n' s', done n = false → P k n s → submit c n s = (.ok n', s') → P (k + 1) n' s')
    (hserve : serve done submit cs n s = some (m, t)) (hP : P k n s) : P (k + cs.length) m t := by
  induction cs generalizing k n s with
  | nil =>
    obtain ⟨rfl, rfl⟩ := (Prod.mk.injEq ..).mp (Option.some.inj hserve)
    exact hP
  | cons c cs ih =>
    rw [serve] at hserve
    split at hserve
    · cases hserve
    · rename_i hdone
      split at hserve
      · cases hserve
      · rename_i n' s' hsubmit
        have hnext := h c k n s n' s' (Bool.eq_false_iff.mpr hdone) hP hsubmit
        have hlength : k + (c :: cs).length = k + 1 + cs.length := by
          rw [List.length_cons]
          omega
        rw [hlength]
        exact ih hserve hnext

theorem plan_length_le (i : ℕ) (seen : List υ) (xs : List ι) :
    (plan key command i seen xs).1.length ≤ xs.length := by
  induction xs generalizing i seen with
  | nil => exact Nat.le_refl 0
  | cons x xs ih =>
    rw [plan, List.length_cons]
    split
    · exact Nat.le_succ_of_le (ih (i + 1) seen)
    · have hrest := ih (i + 1) (note (key x) seen)
      cases command i x with
      | error e => exact Nat.zero_le _
      | ok c =>
        cases c with
        | none => exact Nat.le_succ_of_le hrest
        | some c => exact Nat.succ_le_succ hrest

/- A service that keeps more than another, and answers as it does. -/
theorem drive_project {project : σ' → σ}
    (h : ∀ c n s, (submit' c n s).1 = (submit c n (project s)).1 ∧
      project (submit' c n s).2 = (submit c n (project s)).2) (cs : List κ) (n : τ) (s : σ') :
    (drive done submit' last cs n s).1 = (drive done submit last cs n (project s)).1 ∧
      project (drive done submit' last cs n s).2 =
        (drive done submit last cs n (project s)).2 := by
  induction cs generalizing n s with
  | nil =>
    cases last with
    | none => exact ⟨rfl, rfl⟩
    | some e =>
      simp only [drive]
      split <;> exact ⟨rfl, rfl⟩
  | cons c cs ih =>
    obtain ⟨hanswer, hstate⟩ := h c n s
    rw [drive, drive]
    split
    · exact ⟨rfl, rfl⟩
    · rcases hsubmit' : submit' c n s with ⟨r', s'⟩
      rcases hsubmit : submit c n (project s) with ⟨r, t⟩
      rw [hsubmit', hsubmit] at hanswer hstate
      obtain rfl : r' = r := hanswer
      obtain rfl : project s' = t := hstate
      cases r' with
      | error e => exact ⟨rfl, rfl⟩
      | ok n' => exact ih n' s'

end answered

/-! ### One item without a command -/

section isolation

variable {key : ι → Option υ} {verdict : ι → Except ε (Option κ)} {seen seen' : List υ}
  {xs : List ι} {x : ι} {k : υ}

/-- The commands of a plan when they do not depend on the numbers of the items. -/
def planned (key : ι → Option υ) (verdict : ι → Except ε (Option κ)) : List υ → List ι → List κ
  | _, [] => []
  | seen, x :: xs =>
    if repeats seen (key x) then planned key verdict seen xs
    else
      match verdict x with
      | .error _ => []
      | .ok none => planned key verdict (note (key x) seen) xs
      | .ok (some c) => c :: planned key verdict (note (key x) seen) xs

/-- Some item ends the loop with an error. -/
def aborts (key : ι → Option υ) (verdict : ι → Except ε (Option κ)) : List υ → List ι → Bool
  | _, [] => false
  | seen, x :: xs =>
    if repeats seen (key x) then aborts key verdict seen xs
    else
      match verdict x with
      | .error _ => true
      | .ok _ => aborts key verdict (note (key x) seen) xs

/-- The loop ends before any item yields a command. -/
def quiet (key : ι → Option υ) (verdict : ι → Except ε (Option κ)) : List υ → List ι → Bool
  | _, [] => true
  | seen, x :: xs =>
    if repeats seen (key x) then quiet key verdict seen xs
    else
      match verdict x with
      | .error _ => true
      | .ok none => quiet key verdict (note (key x) seen) xs
      | .ok (some _) => false

/-- Skipping the key changes nothing: the first item that has it, if the loop gets
there, yields no command, and raises only when the rest is quiet. -/
def hidesNothing (key : ι → Option υ) (verdict : ι → Except ε (Option κ)) (k : υ) :
    List υ → List ι → Bool
  | _, [] => true
  | seen, x :: xs =>
    if repeats seen (key x) then hidesNothing key verdict k seen xs
    else if key x = some k then
      match verdict x with
      | .error _ => quiet key verdict (k :: seen) xs
      | .ok none => true
      | .ok (some _) => false
    else
      match verdict x with
      | .error _ => true
      | .ok _ => hidesNothing key verdict k (note (key x) seen) xs

theorem plan_forget {command : ℕ → ι → Except ε (Option κ')} {forget : κ' → κ}
    (h : ∀ i x, (command i x).map (Option.map forget) = verdict x) (i : ℕ) (seen : List υ)
    (xs : List ι) :
    (plan key command i seen xs).1.map forget = planned key verdict seen xs := by
  induction xs generalizing i seen with
  | nil => rfl
  | cons x xs ih =>
    rw [plan, planned]
    split
    · exact ih (i + 1) seen
    · rw [← h i x]
      cases command i x with
      | error e => rfl
      | ok c =>
        cases c with
        | none => exact ih (i + 1) (note (key x) seen)
        | some c => exact congrArg (forget c :: ·) (ih (i + 1) (note (key x) seen))

theorem repeats_congr (h : ∀ k, k ∈ seen ↔ k ∈ seen') (key : Option υ) :
    repeats seen key = repeats seen' key := by
  cases key with
  | none => rfl
  | some k => simp [repeats, h k]

omit [DecidableEq υ] in
theorem note_congr (h : ∀ k, k ∈ seen ↔ k ∈ seen') (key : Option υ) :
    ∀ k, k ∈ note key seen ↔ k ∈ note key seen' := by
  intro k
  simp only [note, List.mem_append, h k]

/- Only the set of keys seen matters. -/
theorem planned_congr (h : ∀ k, k ∈ seen ↔ k ∈ seen') :
    planned key verdict seen xs = planned key verdict seen' xs := by
  induction xs generalizing seen seen' with
  | nil => rfl
  | cons x xs ih =>
    rw [planned, planned, repeats_congr h (key x)]
    split
    · exact ih h
    · cases verdict x with
      | error e => rfl
      | ok c =>
        cases c with
        | none => exact ih (note_congr h (key x))
        | some c => exact congrArg (c :: ·) (ih (note_congr h (key x)))

theorem planned_append (seen : List υ) (pre xs : List ι) :
    planned key verdict seen (pre ++ xs) = planned key verdict seen pre ++
      if aborts key verdict seen pre then []
      else planned key verdict (pre.filterMap key ++ seen) xs := by
  induction pre generalizing seen with
  | nil => rfl
  | cons x pre ih =>
    rw [List.cons_append, planned, planned, aborts]
    split
    · rename_i hrep
      rw [ih seen]
      congr 2
      apply planned_congr
      intro k
      cases hk : key x with
      | none => simp [hk, repeats] at hrep
      | some k' =>
        simp only [hk, repeats, Option.any_some, List.contains_iff_mem] at hrep
        simp only [List.filterMap_cons, hk, List.cons_append, List.mem_cons]
        constructor
        · exact Or.inr
        · rintro (rfl | hmem)
          · exact List.mem_append_right _ hrep
          · exact hmem
    · have hseen : ∀ k, k ∈ pre.filterMap key ++ note (key x) seen ↔
          k ∈ (x :: pre).filterMap key ++ seen := by
        intro k
        cases hk : key x <;> simp [note, hk, or_left_comm]
      cases verdict x with
      | error e => rfl
      | ok c =>
        cases c with
        | none => rw [ih, planned_congr hseen]
        | some c => rw [ih, planned_congr hseen, List.cons_append]

theorem quiet_iff : quiet key verdict seen xs = true ↔ planned key verdict seen xs = [] := by
  induction xs generalizing seen with
  | nil => simp [quiet, planned]
  | cons x xs ih =>
    rw [quiet, planned]
    split
    · exact ih
    · cases verdict x with
      | error e => simp
      | ok c =>
        cases c with
        | none => exact ih
        | some c => simp

/- Seeing a key in advance. -/
theorem planned_cons_iff (h : k ∉ seen) :
    planned key verdict (k :: seen) xs = planned key verdict seen xs ↔
      hidesNothing key verdict k seen xs = true := by
  induction xs generalizing seen with
  | nil => simp [planned, hidesNothing]
  | cons x xs ih =>
    rw [planned, planned, hidesNothing]
    by_cases hk : key x = some k
    · have hrep : repeats seen (key x) = false := by simp [repeats, hk, h]
      have hrep' : repeats (k :: seen) (key x) = true := by simp [repeats, hk]
      have hnote : note (key x) seen = k :: seen := by simp [note, hk]
      rw [hrep, hrep', if_pos rfl, if_neg Bool.false_ne_true, if_neg Bool.false_ne_true, if_pos hk]
      cases verdict x with
      | error e => exact quiet_iff.symm
      | ok c =>
        cases c with
        | none => simp [hnote]
        | some c =>
          simp only [hnote, Bool.false_eq_true, iff_false]
          intro he
          exact absurd (congrArg List.length he) (by simp)
    · have hrep : repeats (k :: seen) (key x) = repeats seen (key x) := by
        cases hx : key x with
        | none => rfl
        | some k' =>
          have hne : k' ≠ k := fun he => hk (he ▸ hx)
          simp [repeats, hne]
      rw [hrep]
      split
      · exact ih h
      · have hnew : k ∉ note (key x) seen := by
          cases hx : key x with
          | none => simpa [note] using h
          | some k' =>
            have hne : k ≠ k' := fun he => hk (he ▸ hx)
            simp [note, hne, h]
        have hswap : planned key verdict (note (key x) (k :: seen)) xs =
            planned key verdict (k :: note (key x) seen) xs := by
          apply planned_congr
          intro j
          cases key x <;> simp [note, or_left_comm]
        cases verdict x with
        | error e => simp
        | ok c =>
          cases c with
          | none =>
            simp only [hswap]
            exact ih hnew
          | some c =>
            simp only [hswap, List.cons.injEq, true_and]
            exact ih hnew

/-- An item without a command of its own leaves the others alone: an item before it
raised, its key was seen, it is passed over and hides nothing, or it raises and
nothing would follow. -/
def harmless (key : ι → Option υ) (verdict : ι → Except ε (Option κ)) (pre : List ι) (x : ι)
    (post : List ι) : Bool :=
  aborts key verdict [] pre || repeats (pre.filterMap key) (key x) ||
    match verdict x with
    | .error _ => quiet key verdict (pre.filterMap key) post
    | .ok _ => (key x).all fun k => hidesNothing key verdict k (pre.filterMap key) post

/-- The item with number `i` leaves the others alone. -/
def harmlessAt (key : ι → Option υ) (verdict : ι → Except ε (Option κ)) (xs : List ι) (i : ℕ) :
    Bool :=
  xs[i]?.any fun x => harmless key verdict (xs.take i) x (xs.drop (i + 1))

/- Behind the last item there is nothing to hide. -/
theorem harmlessAt_last (xs : List ι) (x : ι) :
    harmlessAt key verdict (xs ++ [x]) xs.length = true := by
  have hlast : (xs ++ [x])[xs.length]? = some x := by simp
  rw [harmlessAt, hlast, Option.any_some, harmless]
  cases verdict x <;> simp [quiet, hidesNothing]

/- Exact condition for the other items to yield the commands they yield without it. -/
theorem planned_without_iff (pre post : List ι) (h : ∀ c, verdict x ≠ .ok (some c)) :
    planned key verdict [] (pre ++ x :: post) = planned key verdict [] (pre ++ post) ↔
      harmless key verdict pre x post = true := by
  rw [planned_append, planned_append, List.append_cancel_left_eq, List.append_nil, harmless]
  cases aborts key verdict [] pre with
  | true => simp
  | false =>
    simp only [Bool.false_eq_true, if_false, Bool.false_or]
    rw [planned]
    by_cases hrep : repeats (pre.filterMap key) (key x) = true
    · simp [hrep]
    · rw [if_neg hrep]
      cases hv : verdict x with
      | error e =>
        simp only [hrep, Bool.false_or]
        rw [quiet_iff, eq_comm]
      | ok c =>
        cases c with
        | some c => exact absurd hv (h c)
        | none =>
          simp only [hrep, Bool.false_or]
          cases hk : key x with
          | none => simp [note]
          | some k =>
            have hnew : k ∉ pre.filterMap key := by simpa [repeats, hk] using hrep
            simpa [note] using planned_cons_iff hnew

theorem planned_eraseIdx_iff {i : ℕ} (hx : x ∈ xs[i]?) (h : ∀ c, verdict x ≠ .ok (some c)) :
    planned key verdict [] xs = planned key verdict [] (xs.eraseIdx i) ↔
      harmlessAt key verdict xs i = true := by
  obtain ⟨hi, hget⟩ := List.getElem?_eq_some_iff.mp hx
  have hsplit : xs = xs.take i ++ x :: xs.drop (i + 1) := by
    rw [← hget, List.getElem_cons_drop, List.take_append_drop]
  rw [harmlessAt, Option.mem_def.mp hx, Option.any_some, ← planned_without_iff _ _ h, ← hsplit,
    ← List.eraseIdx_eq_take_drop_succ]

end isolation

end Newsintel.Visits
