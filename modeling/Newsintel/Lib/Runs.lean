import Mathlib.Data.List.Basic
import Mathlib.Tactic.Common

/-!
# Runs of a partial step function

A system is a step function `step : σ → α → Option σ`; `none` means that the
label is not enabled in the state. A run is a list of labels. The rules below
carry one-step facts to whole runs: an invariant, an invariant that needs a
condition on the steps taken, a relation between an earlier and a later state,
and the exact condition under which a property holds in every state of a run.
-/

namespace Newsintel.Runs

variable {σ α : Type*}

/-- State after the labels, `none` as soon as one of them is not enabled. -/
def exec (step : σ → α → Option σ) : σ → List α → Option σ
  | s, [] => some s
  | s, a :: as => (step s a).bind fun m => exec step m as

/-- Every step of the run, looked at in the state before it, meets `C`. -/
def Every (step : σ → α → Option σ) (C : σ → α → Prop) (s : σ) (as : List α) : Prop :=
  ∀ pre a post m, as = pre ++ a :: post → exec step s pre = some m → C m a

/-- Every state the run goes through, its two ends included, meets `P`. -/
def Throughout (step : σ → α → Option σ) (P : σ → Prop) (s : σ) (as : List α) : Prop :=
  ∀ pre post m, as = pre ++ post → exec step s pre = some m → P m

variable {step : σ → α → Option σ} {C : σ → α → Prop} {P I : σ → Prop} {s t : σ} {as : List α}

@[simp] theorem exec_nil : exec step s [] = some s := rfl

theorem exec_cons_some {a : α} :
    exec step s (a :: as) = some t ↔ ∃ m, step s a = some m ∧ exec step m as = some t := by
  simp only [exec, Option.bind_eq_some_iff]

theorem exec_append_some {bs : List α} :
    exec step s (as ++ bs) = some t ↔ ∃ m, exec step s as = some m ∧ exec step m bs = some t := by
  induction as generalizing s with
  | nil => simp
  | cons a as ih =>
    simp only [List.cons_append, exec_cons_some, ih]
    constructor
    · rintro ⟨m, hm, n, hn, ht⟩
      exact ⟨n, ⟨m, hm, hn⟩, ht⟩
    · rintro ⟨n, ⟨m, hm, hn⟩, ht⟩
      exact ⟨m, hm, n, hn, ht⟩

theorem every_nil : Every step C s [] := by
  intro pre a post m h
  simp at h

theorem every_cons_of {a : α} (h0 : C s a) (h : ∀ m, step s a = some m → Every step C m as) :
    Every step C s (a :: as) := by
  intro pre b post n hn he
  cases pre with
  | nil =>
    simp only [List.nil_append, List.cons.injEq] at hn
    obtain ⟨rfl, rfl⟩ := hn
    cases he
    exact h0
  | cons c pre =>
    simp only [List.cons_append, List.cons.injEq] at hn
    obtain ⟨rfl, hn⟩ := hn
    obtain ⟨m, hm, he⟩ := exec_cons_some.mp he
    exact h m hm pre b post n hn he

theorem every_cons {a : α} {m : σ} (hm : step s a = some m) :
    Every step C s (a :: as) ↔ C s a ∧ Every step C m as := by
  constructor
  · intro h
    refine ⟨h [] a as s rfl rfl, ?_⟩
    intro pre b post n hn he
    exact h (a :: pre) b post n (by rw [hn]; rfl) (exec_cons_some.mpr ⟨m, hm, he⟩)
  · rintro ⟨h0, h⟩
    apply every_cons_of h0
    intro k hk
    cases hm.symm.trans hk
    exact h

theorem every_left {bs : List α} (h : Every step C s (as ++ bs)) : Every step C s as := by
  intro pre a post m hm he
  exact h pre a (post ++ bs) m (by rw [hm]; simp) he

theorem every_right {bs : List α} {m : σ} (hm : exec step s as = some m)
    (h : Every step C s (as ++ bs)) : Every step C m bs := by
  intro pre a post n hn he
  exact h (as ++ pre) a post n (by rw [hn]; simp) (exec_append_some.mpr ⟨m, hm, he⟩)

/-- `Every` for a condition that can be evaluated, checked along the run. -/
def everyB (step : σ → α → Option σ) (c : σ → α → Bool) : σ → List α → Bool
  | _, [] => true
  | s, a :: as => c s a && (step s a).all fun m => everyB step c m as

theorem every_of_everyB {c : σ → α → Bool} (h : everyB step c s as = true) :
    Every step (fun m a => c m a = true) s as := by
  induction as generalizing s with
  | nil => exact every_nil
  | cons a as ih =>
    rw [everyB, Bool.and_eq_true] at h
    refine every_cons_of (C := fun m a => c m a = true) h.1 ?_
    intro m hm
    rw [hm, Option.all_some] at h
    exact ih h.2

/- A decidable condition, checked along the run. -/
theorem every_of_decide [∀ m a, Decidable (C m a)]
    (h : everyB step (fun m a => decide (C m a)) s as = true) : Every step C s as := by
  intro pre a post m hm he
  exact of_decide_eq_true (every_of_everyB h pre a post m hm he)

/- Conditions that agree on the steps taken agree on the run. -/
theorem every_congr {D : σ → α → Prop} (h : exec step s as = some t)
    (hCD : ∀ m a n, step m a = some n → (C m a ↔ D m a)) :
    Every step C s as ↔ Every step D s as := by
  induction as generalizing s with
  | nil => exact iff_of_true every_nil every_nil
  | cons a as ih =>
    obtain ⟨m, hm, ht⟩ := exec_cons_some.mp h
    rw [every_cons hm, every_cons hm, hCD s a m hm, ih ht]

theorem every_and {D : σ → α → Prop} :
    Every step (fun m a => C m a ∧ D m a) s as ↔ Every step C s as ∧ Every step D s as := by
  constructor
  · intro h
    exact ⟨fun pre a post m hm he => (h pre a post m hm he).1,
      fun pre a post m hm he => (h pre a post m hm he).2⟩
  · rintro ⟨hC, hD⟩ pre a post m hm he
    exact ⟨hC pre a post m hm he, hD pre a post m hm he⟩

theorem throughout_and {Q : σ → Prop} :
    Throughout step (fun m => P m ∧ Q m) s as ↔
      Throughout step P s as ∧ Throughout step Q s as := by
  constructor
  · intro h
    exact ⟨fun pre post m hm he => (h pre post m hm he).1,
      fun pre post m hm he => (h pre post m hm he).2⟩
  · rintro ⟨hP, hQ⟩ pre post m hm he
    exact ⟨hP pre post m hm he, hQ pre post m hm he⟩

theorem throughout_nil : Throughout step P s [] ↔ P s := by
  constructor
  · intro h
    exact h [] [] s rfl rfl
  · intro h pre post m hm he
    obtain ⟨rfl, rfl⟩ := List.nil_eq_append_iff.mp hm
    cases he
    exact h

theorem throughout_cons {a : α} {m : σ} (hm : step s a = some m) :
    Throughout step P s (a :: as) ↔ P s ∧ Throughout step P m as := by
  constructor
  · intro h
    refine ⟨h [] (a :: as) s rfl rfl, ?_⟩
    intro pre post n hn he
    exact h (a :: pre) post n (by rw [hn]; rfl) (exec_cons_some.mpr ⟨m, hm, he⟩)
  · rintro ⟨h0, h⟩ pre post n hn he
    cases pre with
    | nil =>
      cases he
      exact h0
    | cons c pre =>
      simp only [List.cons_append, List.cons.injEq] at hn
      obtain ⟨rfl, hn⟩ := hn
      obtain ⟨k, hk, he⟩ := exec_cons_some.mp he
      cases hm.symm.trans hk
      exact h pre post n hn he

/- Invariant rule. The condition `C` is only asked of the steps the run takes. -/
theorem invariant_of_every (h0 : I s)
    (hstep : ∀ m a n, I m → C m a → step m a = some n → I n)
    (hC : Every step C s as) (h : exec step s as = some t) : I t := by
  induction as generalizing s with
  | nil =>
    cases h
    exact h0
  | cons a as ih =>
    obtain ⟨m, hm, ht⟩ := exec_cons_some.mp h
    obtain ⟨hCa, hCas⟩ := (every_cons hm).mp hC
    exact ih (hstep s a m h0 hCa hm) hCas ht

theorem invariant (h0 : I s) (hstep : ∀ m a n, I m → step m a = some n → I n)
    (h : exec step s as = some t) : I t :=
  invariant_of_every (C := fun _ _ => True) h0 (fun m a n hm _ hn => hstep m a n hm hn)
    (fun _ _ _ _ _ _ => trivial) h

/- What an invariant and the condition that keeps it say of each step of a run. -/
theorem every_of_every {D : σ → α → Prop} (h0 : I s)
    (hstep : ∀ m a n, I m → C m a → step m a = some n → I n)
    (hD : ∀ m a n, I m → C m a → step m a = some n → D m a)
    (hC : Every step C s as) (h : exec step s as = some t) : Every step D s as := by
  intro pre a post m hm he
  subst hm
  obtain ⟨m', hm', hrest⟩ := exec_append_some.mp h
  cases he.symm.trans hm'
  obtain ⟨n, hn, _⟩ := exec_cons_some.mp hrest
  have hI : I m := invariant_of_every h0 hstep (every_left hC) he
  exact hD m a n hI (hC pre a post m rfl he) hn

/- A reflexive and transitive relation kept by each step relates both ends. -/
theorem relates_of_every {R : σ → σ → Prop} (h0 : I s) (hrefl : ∀ m, R m m)
    (htrans : ∀ m n k, R m n → R n k → R m k)
    (hstep : ∀ m a n, I m → C m a → step m a = some n → I n ∧ R m n)
    (hC : Every step C s as) (h : exec step s as = some t) : R s t := by
  induction as generalizing s with
  | nil =>
    cases h
    exact hrefl _
  | cons a as ih =>
    obtain ⟨m, hm, ht⟩ := exec_cons_some.mp h
    obtain ⟨hCa, hCas⟩ := (every_cons hm).mp hC
    obtain ⟨hI, hR⟩ := hstep s a m h0 hCa hm
    exact htrans s m t hR (ih hI hCas ht)

/- Exact condition. When a step out of a good state reaches a good state exactly
if it meets `C`, a run stays good exactly if all of its steps meet `C`. -/
theorem throughout_iff_every (hI : I s) (hP : P s)
    (hkeep : ∀ m a n, I m → P m → C m a → step m a = some n → I n)
    (hstep : ∀ m a n, I m → P m → step m a = some n → (P n ↔ C m a))
    (h : exec step s as = some t) : Throughout step P s as ↔ Every step C s as := by
  induction as generalizing s with
  | nil => exact ⟨fun _ => every_nil, fun _ => throughout_nil.mpr hP⟩
  | cons a as ih =>
    obtain ⟨m, hm, ht⟩ := exec_cons_some.mp h
    rw [throughout_cons hm, every_cons hm]
    have hPC := hstep s a m hI hP hm
    constructor
    · rintro ⟨_, hrest⟩
      have hPm : P m := hrest [] as m rfl rfl
      have hCa : C s a := hPC.mp hPm
      exact ⟨hCa, (ih (hkeep s a m hI hP hCa hm) hPm ht).mp hrest⟩
    · rintro ⟨hCa, hrest⟩
      exact ⟨hP, (ih (hkeep s a m hI hP hCa hm) (hPC.mpr hCa) ht).mpr hrest⟩

/-! ### Costs -/

section costs

variable {f g : σ → α → ℕ} {V : σ → ℕ}

/- The step in the middle of a run, and the run behind it. -/
theorem exec_middle {pre post : List α} {a : α} {m : σ} (h : exec step s (pre ++ a :: post) = some t)
    (hm : exec step s pre = some m) : ∃ n, step m a = some n ∧ exec step n post = some t := by
  obtain ⟨m', hm', hrest⟩ := exec_append_some.mp h
  cases hm.symm.trans hm'
  exact exec_cons_some.mp hrest

/-- The sum of a cost over the steps of a run, each looked at in the state before it. -/
def total (step : σ → α → Option σ) (f : σ → α → ℕ) : σ → List α → ℕ
  | _, [] => 0
  | s, a :: as => f s a + (step s a).elim 0 fun m => total step f m as

theorem total_cons {a : α} {m : σ} (hm : step s a = some m) :
    total step f s (a :: as) = f s a + total step f m as := by
  rw [total, hm, Option.elim_some]

/- Potential rule. What each step costs the potential pays for. -/
theorem total_add_le
    (hstep : ∀ a ∈ as, ∀ m n, step m a = some n → V n + f m a ≤ V m)
    (h : exec step s as = some t) : V t + total step f s as ≤ V s := by
  induction as generalizing s with
  | nil =>
    cases h
    exact Nat.le_refl _
  | cons a as ih =>
    obtain ⟨m, hm, ht⟩ := exec_cons_some.mp h
    have hhead := hstep a List.mem_cons_self s m hm
    have hrest := ih (fun b hb => hstep b (List.mem_cons_of_mem a hb)) ht
    rw [total_cons hm]
    omega

/- Costs that compare step by step compare over the run. -/
theorem mul_total_le {N : ℕ} (hstep : ∀ m a n, step m a = some n → N * f m a ≤ g m a)
    (h : exec step s as = some t) : N * total step f s as ≤ total step g s as := by
  induction as generalizing s with
  | nil => exact Nat.le_refl _
  | cons a as ih =>
    obtain ⟨m, hm, ht⟩ := exec_cons_some.mp h
    rw [total_cons hm, total_cons hm, Nat.mul_add]
    exact Nat.add_le_add (hstep s a m hm) (ih ht)

end costs

end Newsintel.Runs
