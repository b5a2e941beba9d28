import Mathlib.Data.List.Perm.Basic
import Newsintel.Lib.Runs

/-!
# Tasks gathered over a semaphore

`asyncio.gather` starts one task for each job, in order, and each task does its work inside
`async with semaphore`. The queue of the semaphore is first in, first out. The awaiting side sees
the first exception as soon as it is raised; the other tasks go on.
-/

namespace Newsintel.BoundedGather

variable {α ε : Type*}

structure Batch (α ε : Type*) where
  /-- in the queue of the semaphore -/
  waiting : List α
  /-- with a permit -/
  running : List α
  /-- in the order in which they have ended -/
  finished : List (α × Except ε Unit)

inductive Move where
  /-- the first in the queue gets a permit -/
  | acquire
  /-- the work of the task with this number among the running ones ends -/
  | finish (i : ℕ)

def opening (jobs : List α) : Batch α ε := ⟨jobs, [], []⟩

/-- One move; `run` is how the work of a job ends. -/
def step (permits : ℕ) (run : α → Except ε Unit) (b : Batch α ε) : Move → Option (Batch α ε)
  | .acquire =>
    match b.waiting with
    | [] => none
    | job :: jobs =>
      if b.running.length < permits then
        some { b with waiting := jobs, running := b.running ++ [job] }
      else none
  | .finish i =>
    b.running[i]?.map fun job =>
      { b with
        running := b.running.eraseIdx i
        finished := b.finished ++ [(job, run job)] }

namespace Batch

/-- All tasks have ended. -/
def done (b : Batch α ε) : Bool := b.waiting.isEmpty && b.running.isEmpty

/-- The first exception of tasks that have ended in this order. -/
def firstError : List (α × Except ε Unit) → Option ε
  | [] => none
  | (_, .ok ()) :: rest => firstError rest
  | (_, .error e) :: _ => some e

/-- What the awaiting side sees: an exception, the return, or nothing yet. -/
def result (b : Batch α ε) : Option (Except ε Unit) :=
  match firstError b.finished with
  | some e => some (.error e)
  | none => if b.done then some (.ok ()) else none

/-- What it sees when all have ended, in this order. -/
def ending (finished : List (α × Except ε Unit)) : Except ε Unit :=
  match firstError finished with
  | some e => .error e
  | none => .ok ()

/-- The moves that are left. -/
def remaining (b : Batch α ε) : ℕ := 2 * b.waiting.length + b.running.length

end Batch

/-- The jobs are spread over the queue, the running tasks and those that have ended. -/
structure Sound (permits : ℕ) (run : α → Except ε Unit) (jobs : List α) (b : Batch α ε) :
    Prop where
  /-- first in, first out -/
  started : ∃ started, jobs = started ++ b.waiting ∧
    started.Perm (b.running ++ b.finished.map Prod.fst)
  limit : b.running.length ≤ permits
  outcome : ∀ p ∈ b.finished, p.2 = run p.1

variable {permits : ℕ} {run : α → Except ε Unit} {jobs : List α} {b b' : Batch α ε} {m : Move}
  {moves : List Move}

/-! ### Steps -/

theorem sound_opening : Sound permits run jobs (opening jobs) where
  started := ⟨[], rfl, .nil⟩
  limit := Nat.zero_le _
  outcome _ h := absurd h List.not_mem_nil

/- What a move does. -/
theorem step_cases (h : step permits run b m = some b') :
    (∃ job, b.waiting = job :: b'.waiting ∧ b.running.length < permits ∧
        b'.running = b.running ++ [job] ∧ b'.finished = b.finished) ∨
      ∃ i job, b.running[i]? = some job ∧ b'.waiting = b.waiting ∧
        b'.running = b.running.eraseIdx i ∧ b'.finished = b.finished ++ [(job, run job)] := by
  cases m with
  | acquire =>
    rw [step] at h
    split at h
    · cases h
    · rename_i job rest hwaiting
      split at h
      · rename_i hlimit
        cases h
        exact Or.inl ⟨job, hwaiting, hlimit, rfl, rfl⟩
      · cases h
  | finish i =>
    obtain ⟨job, hjob, rfl⟩ := Option.map_eq_some_iff.mp h
    exact Or.inr ⟨i, job, hjob, rfl, rfl, rfl⟩

theorem sound_step (h : Sound permits run jobs b) (hstep : step permits run b m = some b') :
    Sound permits run jobs b' := by
  obtain ⟨started, hjobs, hperm⟩ := h.started
  obtain ⟨job, hwaiting, hlimit, hrunning, hfinished⟩ | ⟨i, job, hjob, hwaiting, hrunning,
    hfinished⟩ := step_cases hstep
  · refine ⟨⟨started ++ [job], ?_, ?_⟩, ?_, ?_⟩
    · rw [hjobs, hwaiting, List.append_assoc, List.singleton_append]
    · rw [hrunning, hfinished, List.append_assoc]
      exact (hperm.append_right _).trans (by
        rw [List.append_assoc]
        exact List.perm_append_comm.append_left _)
    · rw [hrunning, List.length_append, List.length_singleton]
      exact hlimit
    · rw [hfinished]
      exact h.outcome
  · obtain ⟨hi, rfl⟩ := List.getElem?_eq_some_iff.mp hjob
    refine ⟨⟨started, by rw [hjobs, hwaiting], ?_⟩, ?_, ?_⟩
    · refine hperm.trans ?_
      rw [hrunning, hfinished, List.map_append, List.map_singleton]
      have hpull : b.running.Perm (b.running[i] :: b.running.eraseIdx i) :=
        (List.getElem_cons_eraseIdx_perm hi).symm
      refine (hpull.append_right _).trans ?_
      rw [List.cons_append, ← List.append_assoc]
      exact (List.perm_append_singleton _ _).symm
    · rw [hrunning]
      exact Nat.le_trans (List.length_eraseIdx_le _ _) h.limit
    · rw [hfinished]
      intro p hp
      obtain hp | hp := List.mem_append.mp hp
      · exact h.outcome p hp
      · rw [List.mem_singleton.mp hp]

theorem remaining_step (h : step permits run b m = some b') :
    b.remaining = b'.remaining + 1 := by
  obtain ⟨job, hwaiting, _, hrunning, _⟩ | ⟨i, job, hjob, hwaiting, hrunning, _⟩ := step_cases h
  · rw [Batch.remaining, Batch.remaining, hwaiting, hrunning, List.length_cons, List.length_append,
      List.length_singleton]
    omega
  · obtain ⟨hi, _⟩ := List.getElem?_eq_some_iff.mp hjob
    rw [Batch.remaining, Batch.remaining, hwaiting, hrunning, List.length_eraseIdx_of_lt hi]
    omega

theorem done_iff : b.done = true ↔ b.waiting = [] ∧ b.running = [] := by
  rw [Batch.done, Bool.and_eq_true, List.isEmpty_iff, List.isEmpty_iff]

theorem remaining_eq_zero : b.remaining = 0 ↔ b.done = true := by
  rw [done_iff, Batch.remaining, ← List.length_eq_zero_iff, ← List.length_eq_zero_iff]
  omega

/- With a permit at all, a batch that is not done can move. -/
theorem progress (run : α → Except ε Unit) (hpermits : 0 < permits) (h : b.done = false) :
    ∃ m b', step permits run b m = some b' := by
  cases hrunning : b.running with
  | cons job rest =>
    refine ⟨.finish 0, { b with running := rest, finished := b.finished ++ [(job, run job)] }, ?_⟩
    rw [step, hrunning]
    rfl
  | nil =>
    cases hwaiting : b.waiting with
    | nil =>
      rw [done_iff.mpr ⟨hwaiting, hrunning⟩] at h
      cases h
    | cons job rest =>
      refine ⟨.acquire, { b with waiting := rest, running := b.running ++ [job] }, ?_⟩
      rw [step, hwaiting]
      exact if_pos (by rw [hrunning]; exact hpermits)

/-! ### Runs -/

theorem sound_run (h : Sound permits run jobs b)
    (hrun : Runs.exec (step permits run) b moves = some b') : Sound permits run jobs b' :=
  Runs.invariant h (fun _ _ _ hm hn => sound_step hm hn) hrun

/- Whatever has been done, the rest can be done. -/
theorem completes (run : α → Except ε Unit) (hpermits : 0 < permits) (b : Batch α ε) :
    ∃ moves b', Runs.exec (step permits run) b moves = some b' ∧ b'.done = true := by
  induction hn : b.remaining generalizing b with
  | zero => exact ⟨[], b, rfl, remaining_eq_zero.mp hn⟩
  | succ n ih =>
    have hdone : b.done = false := by
      refine Bool.eq_false_iff.mpr fun hdone => ?_
      have hzero := remaining_eq_zero.mpr hdone
      omega
    obtain ⟨m, c, hc⟩ := progress run hpermits hdone
    have hrest : c.remaining = n := by
      have hstep := remaining_step hc
      omega
    obtain ⟨moves, b', hmoves, hdone'⟩ := ih c hrest
    exact ⟨m :: moves, b', Runs.exec_cons_some.mpr ⟨c, hc, hmoves⟩, hdone'⟩

/- Every job has ended once. -/
theorem Sound.all_finished (h : Sound permits run jobs b) (hdone : b.done = true) :
    (b.finished.map Prod.fst).Perm jobs := by
  obtain ⟨hwaiting, hrunning⟩ := done_iff.mp hdone
  obtain ⟨started, hjobs, hperm⟩ := h.started
  rw [hwaiting, List.append_nil] at hjobs
  rw [hrunning, List.nil_append] at hperm
  exact hjobs ▸ hperm.symm

/-! ### What the awaiting side sees -/

theorem firstError_append (ps qs : List (α × Except ε Unit)) :
    Batch.firstError (ps ++ qs) = (Batch.firstError ps).or (Batch.firstError qs) := by
  induction ps with
  | nil => rfl
  | cons p ps ih =>
    obtain ⟨job, _ | ⟨⟩⟩ := p
    · rfl
    · exact ih

theorem firstError_none {ps : List (α × Except ε Unit)} :
    Batch.firstError ps = none ↔ ∀ p ∈ ps, p.2 = .ok () := by
  induction ps with
  | nil => exact iff_of_true rfl fun _ h => absurd h List.not_mem_nil
  | cons p ps ih =>
    obtain ⟨job, e | ⟨⟩⟩ := p
    · exact iff_of_false nofun fun h => nomatch (List.forall_mem_cons.mp h).1
    · rw [List.forall_mem_cons]
      exact ih.trans ⟨fun h => ⟨rfl, h⟩, fun h => h.2⟩

theorem result_of_done (hdone : b.done = true) : b.result = some (Batch.ending b.finished) := by
  rw [Batch.result, Batch.ending]
  cases Batch.firstError b.finished with
  | some e => rfl
  | none => exact if_pos hdone

/- It returns when every job has ended without an exception. -/
theorem Sound.result_ok (h : Sound permits run jobs b) :
    b.result = some (.ok ()) ↔ b.done = true ∧ ∀ job ∈ jobs, run job = .ok () := by
  rw [Batch.result]
  cases herror : Batch.firstError b.finished with
  | some e =>
    refine iff_of_false nofun ?_
    rintro ⟨hdone, hall⟩
    have hnone := firstError_none.mpr fun p hp => (h.outcome p hp).trans (hall p.1
      ((h.all_finished hdone).mem_iff.mp (List.mem_map_of_mem hp)))
    rw [herror] at hnone
    cases hnone
  | none =>
    have hok := firstError_none.mp herror
    simp only
    constructor
    · intro hresult
      split at hresult
      · rename_i hdone
        refine ⟨hdone, fun job hjob => ?_⟩
        obtain ⟨p, hp, rfl⟩ := List.mem_map.mp ((h.all_finished hdone).mem_iff.mpr hjob)
        exact (h.outcome p hp).symm.trans (hok p hp)
      · cases hresult
    · rintro ⟨hdone, _⟩
      rw [if_pos hdone]

/- An exception that is seen is that of a job, and stays the one that is seen. -/
theorem Sound.result_error (h : Sound permits run jobs b) {e : ε}
    (hresult : b.result = some (.error e)) : ∃ job ∈ jobs, run job = .error e := by
  rw [Batch.result] at hresult
  split at hresult
  · rename_i e' herror
    cases hresult
    have hexists : ∃ p ∈ b.finished, p.2 = .error e := by
      revert herror
      generalize b.finished = ps
      intro herror
      induction ps with
      | nil => cases herror
      | cons p ps ih =>
        obtain ⟨job, e' | ⟨⟩⟩ := p
        · cases herror
          exact ⟨_, List.mem_cons_self, rfl⟩
        · obtain ⟨q, hq, hqe⟩ := ih herror
          exact ⟨q, List.mem_cons_of_mem _ hq, hqe⟩
    obtain ⟨p, hp, hpe⟩ := hexists
    obtain ⟨started, hjobs, hperm⟩ := h.started
    refine ⟨p.1, ?_, (h.outcome p hp).symm.trans hpe⟩
    rw [hjobs]
    exact List.mem_append_left _ (hperm.mem_iff.mpr
      (List.mem_append_right _ (List.mem_map_of_mem hp)))
  · split at hresult <;> cases hresult

theorem result_error_step {e : ε} (hresult : b.result = some (.error e))
    (h : step permits run b m = some b') : b'.result = some (.error e) := by
  have herror : Batch.firstError b.finished = some e := by
    rw [Batch.result] at hresult
    split at hresult
    · rename_i e' herror
      cases hresult
      exact herror
    · split at hresult <;> cases hresult
  have hlater : Batch.firstError b'.finished = some e := by
    obtain ⟨_, _, _, _, hfinished⟩ | ⟨_, _, _, _, _, hfinished⟩ := step_cases h
    · rw [hfinished, herror]
    · rw [hfinished, firstError_append, herror, Option.some_or]
  rw [Batch.result, hlater]

end Newsintel.BoundedGather
