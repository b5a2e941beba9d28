import Mathlib.Algebra.BigOperators.Group.List.Basic
import Mathlib.Algebra.Order.Field.Rat
import Mathlib.Data.List.Sort
import Newsintel.Articles.BatchIsolation
import Newsintel.Lib.BoundedGather

/-!
# The loops of the workers (workers/articles.py, workers/poller.py)

`run_worker` calls `run_once` over and over: a batch is leased, and its jobs are gathered over a
semaphore. When the call raises, the tasks that have not ended go on, next to those of the calls
that follow.
-/

namespace Newsintel.Workers

open Articles Acquisition BoundedGather PyText

/-- Fields of `Settings` that a loop reads. -/
structure Settings where
  concurrency : ℕ
  idleSeconds : ℚ
  databaseRetryMaxSeconds : ℚ
  concurrency_range : 1 ≤ concurrency ∧ concurrency ≤ 100
  idleSeconds_range : 1 / 10 ≤ idleSeconds ∧ idleSeconds ≤ 60
  databaseRetryMaxSeconds_range : 1 ≤ databaseRetryMaxSeconds ∧ databaseRetryMaxSeconds ≤ 300

def databaseRetryDelay (attempt : ℕ) (maximumSeconds : ℚ) : ℚ :=
  min maximumSeconds (2 ^ min attempt 10)

/-- A worker: `databaseFailureAttempt` of its loop, the call to `run_once` that it awaits, with the
jobs that were leased for it, and the batches of the calls that are over. -/
structure Worker (α ε : Type) where
  databaseFailureAttempt : ℕ
  current : Option (List α × Batch α ε)
  past : List (List α × Batch α ε)
  stopped : Bool
  /-- how the calls have ended -/
  calls : List (Except ε ℕ)
  /-- the arguments of `asyncio.sleep` -/
  sleeps : List ℚ

def newWorker {α ε : Type} : Worker α ε := ⟨0, none, [], false, [], []⟩

inductive Event (α ε : Type) where
  /-- `lease_due_candidates` or `lease_due_channels` -/
  | lease (answer : Except ε (List α))
  /-- a task of the call that is awaited -/
  | move (m : Move)
  /-- a task of a call that is over -/
  | late (call : ℕ) (m : Move)
  /-- the loop goes on after the gather -/
  | resume

section loop

variable {α ε : Type} (settings : Settings) (outage : ε → Bool) (run : α → Except ε Unit)

/-- What the loop does after a call; an exception that is no outage ends the worker. -/
def Worker.afterCall (w : Worker α ε) (answer : Except ε ℕ) : Worker α ε :=
  match answer with
  | .ok claimed =>
    { w with
      databaseFailureAttempt := 0
      calls := w.calls ++ [answer]
      sleeps := w.sleeps ++ if claimed = 0 then [settings.idleSeconds] else [] }
  | .error e =>
    if outage e then
      { w with
        databaseFailureAttempt := w.databaseFailureAttempt + 1
        calls := w.calls ++ [answer]
        sleeps := w.sleeps ++
          [databaseRetryDelay (w.databaseFailureAttempt + 1) settings.databaseRetryMaxSeconds] }
    else { w with stopped := true, calls := w.calls ++ [answer] }

def workerStep (w : Worker α ε) : Event α ε → Option (Worker α ε)
  | .lease answer =>
    if w.stopped || w.current.isSome then none
    else
      match answer with
      | .error e => some (w.afterCall settings outage (.error e))
      | .ok jobs => some { w with current := some (jobs, opening jobs) }
  | .move m =>
    w.current.bind fun p => (step settings.concurrency run p.2 m).map fun b =>
      { w with current := some (p.1, b) }
  | .late call m =>
    w.past[call]?.bind fun p => (step settings.concurrency run p.2 m).map fun b =>
      { w with past := w.past.set call (p.1, b) }
  | .resume =>
    w.current.bind fun p => p.2.result.map fun answer =>
      ({ w with current := none, past := w.past ++ [p] } : Worker α ε).afterCall settings outage
        (answer.map fun _ => p.1.length)

end loop

/-! ### Jobs in flight -/

section flight

variable {α ε : Type}

def Worker.batches (w : Worker α ε) : List (List α × Batch α ε) := w.current.toList ++ w.past

/-- The jobs that hold a permit. -/
def Worker.inFlight (w : Worker α ε) : ℕ := (w.batches.map fun p => p.2.running.length).sum

/-- The gathers that have raised; a call that cannot lease starts none. -/
def Worker.raised (w : Worker α ε) : ℕ :=
  w.past.countP fun p => p.2.result.any fun answer => !answer.toBool

/-- Every batch is sound, and only gathers that have raised leave tasks behind. -/
structure Kept (settings : Settings) (run : α → Except ε Unit) (w : Worker α ε) : Prop where
  sound : ∀ p ∈ w.batches, Sound settings.concurrency run p.1 p.2
  left : ∀ p ∈ w.past, p.2.done = true ∨ ∃ e, p.2.result = some (.error e)

variable {settings : Settings} {outage : ε → Bool} {run : α → Except ε Unit} {w w' : Worker α ε}
  {event : Event α ε} {events : List (Event α ε)}

theorem afterCall_batches (settings : Settings) (outage : ε → Bool) (w : Worker α ε)
    (answer : Except ε ℕ) :
    (w.afterCall settings outage answer).current = w.current ∧
      (w.afterCall settings outage answer).past = w.past ∧
      (w.afterCall settings outage answer).calls = w.calls ++ [answer] := by
  unfold Worker.afterCall
  split
  · exact ⟨rfl, rfl, rfl⟩
  · split <;> exact ⟨rfl, rfl, rfl⟩

/- What an event does to the batches and the calls. -/
theorem workerStep_cases (h : workerStep settings outage run w event = some w') :
    (∃ e, w.current = none ∧ w' = w.afterCall settings outage (.error e)) ∨
      (∃ jobs, w.current = none ∧ w' = { w with current := some (jobs, opening jobs) }) ∨
      (∃ p m b, w.current = some p ∧ step settings.concurrency run p.2 m = some b ∧
        w' = { w with current := some (p.1, b) }) ∨
      (∃ call p m b, w.past[call]? = some p ∧ step settings.concurrency run p.2 m = some b ∧
        w' = { w with past := w.past.set call (p.1, b) }) ∨
      ∃ p answer, w.current = some p ∧ p.2.result = some answer ∧
        w' = ({ w with current := none, past := w.past ++ [p] } : Worker α ε).afterCall settings
          outage (answer.map fun _ => p.1.length) := by
  cases event with
  | lease answer =>
    simp only [workerStep] at h
    split at h
    · cases h
    · rename_i hfree
      rw [Bool.or_eq_true, not_or] at hfree
      have hcurrent := Option.not_isSome_iff_eq_none.mp hfree.2
      split at h
      · rename_i e
        cases h
        exact Or.inl ⟨e, hcurrent, rfl⟩
      · rename_i jobs
        cases h
        exact Or.inr (Or.inl ⟨jobs, hcurrent, rfl⟩)
  | move m =>
    obtain ⟨p, hp, h⟩ := Option.bind_eq_some_iff.mp h
    obtain ⟨b, hb, rfl⟩ := Option.map_eq_some_iff.mp h
    exact Or.inr (Or.inr (Or.inl ⟨p, m, b, hp, hb, rfl⟩))
  | late call m =>
    obtain ⟨p, hp, h⟩ := Option.bind_eq_some_iff.mp h
    obtain ⟨b, hb, rfl⟩ := Option.map_eq_some_iff.mp h
    exact Or.inr (Or.inr (Or.inr (Or.inl ⟨call, p, m, b, hp, hb, rfl⟩)))
  | resume =>
    obtain ⟨p, hp, h⟩ := Option.bind_eq_some_iff.mp h
    obtain ⟨answer, hanswer, rfl⟩ := Option.map_eq_some_iff.mp h
    exact Or.inr (Or.inr (Or.inr (Or.inr ⟨p, answer, hp, hanswer, rfl⟩)))

theorem kept_newWorker : Kept settings run (newWorker : Worker α ε) where
  sound := List.forall_mem_nil _
  left := List.forall_mem_nil _

theorem mem_batches {p : List α × Batch α ε} :
    p ∈ w.batches ↔ w.current = some p ∨ p ∈ w.past := by
  rw [Worker.batches, List.mem_append, Option.mem_toList]

theorem not_done_of_step {permits : ℕ} {b b' : Batch α ε} {m : Move}
    (h : step permits run b m = some b') : b.done = false := by
  refine Bool.eq_false_iff.mpr fun hdone => ?_
  have hstep := remaining_step h
  rw [remaining_eq_zero.mpr hdone] at hstep
  omega

/- A task that moves late is one that a gather has left behind when it raised. -/
theorem kept_step (hw : Kept settings run w)
    (h : workerStep settings outage run w event = some w') : Kept settings run w' := by
  obtain ⟨e, hnone, rfl⟩ | ⟨jobs, hnone, rfl⟩ | ⟨p, m, b, hp, hb, rfl⟩ | ⟨call, p, m, b, hp, hb,
    rfl⟩ | ⟨p, answer, hp, hanswer, rfl⟩ := workerStep_cases h
  · obtain ⟨hcurrent, hpast, _⟩ := afterCall_batches settings outage w (.error e)
    constructor
    · rw [Worker.batches, hcurrent, hpast]
      exact hw.sound
    · rw [hpast]
      exact hw.left
  · constructor
    · intro p hp
      obtain hp | hp := mem_batches.mp hp
      · cases hp
        exact sound_opening
      · exact hw.sound p (mem_batches.mpr (Or.inr hp))
    · exact hw.left
  · constructor
    · intro q hq
      obtain hq | hq := mem_batches.mp hq
      · cases hq
        exact sound_step (hw.sound p (mem_batches.mpr (Or.inl hp))) hb
      · exact hw.sound q (mem_batches.mpr (Or.inr hq))
    · exact hw.left
  · have hmem : p ∈ w.past := List.mem_of_getElem? hp
    constructor
    · intro q hq
      obtain hq | hq := mem_batches.mp hq
      · exact hw.sound q (mem_batches.mpr (Or.inl hq))
      · obtain hq | rfl := List.mem_or_eq_of_mem_set hq
        · exact hw.sound q (mem_batches.mpr (Or.inr hq))
        · exact sound_step (hw.sound p (mem_batches.mpr (Or.inr hmem))) hb
    · intro q hq
      obtain hq | rfl := List.mem_or_eq_of_mem_set hq
      · exact hw.left q hq
      · obtain hdone | ⟨e, hresult⟩ := hw.left p hmem
        · rw [not_done_of_step hb] at hdone
          cases hdone
        · exact Or.inr ⟨e, result_error_step hresult hb⟩
  · obtain ⟨hcurrent, hpast, _⟩ := afterCall_batches settings outage
      ({ w with current := none, past := w.past ++ [p] } : Worker α ε)
      (answer.map fun _ => p.1.length)
    have hsound := hw.sound p (mem_batches.mpr (Or.inl hp))
    constructor
    · intro q hq
      rw [Worker.batches, hcurrent, hpast] at hq
      obtain hq | hq := List.mem_append.mp hq
      · cases hq
      · obtain hq | hq := List.mem_append.mp hq
        · exact hw.sound q (mem_batches.mpr (Or.inr hq))
        · exact List.mem_singleton.mp hq ▸ hsound
    · rw [hpast]
      refine List.forall_mem_append.mpr ⟨hw.left, List.forall_mem_singleton.mpr ?_⟩
      cases answer with
      | error e => exact Or.inr ⟨e, hanswer⟩
      | ok _ => exact Or.inl (hsound.result_ok.mp hanswer).1

theorem kept_run (h : Runs.exec (workerStep settings outage run) newWorker events = some w) :
    Kept settings run w :=
  Runs.invariant kept_newWorker (fun _ _ _ hm hn => kept_step hm hn) h

/- Only batches that are not done count. -/
theorem running_le_countP {batches : List (List α × Batch α ε)}
    (h : ∀ p ∈ batches, Sound settings.concurrency run p.1 p.2) :
    (batches.map fun p => p.2.running.length).sum ≤
      settings.concurrency * batches.countP fun p => !p.2.done := by
  induction batches with
  | nil => exact Nat.zero_le _
  | cons p batches ih =>
    obtain ⟨hp, hrest⟩ := List.forall_mem_cons.mp h
    have hrest := ih hrest
    rw [List.map_cons, List.sum_cons, List.countP_cons]
    by_cases hdone : p.2.done = true
    · have hrunning := (done_iff.mp hdone).2
      rw [hrunning, hdone]
      simpa using hrest
    · have hlimit := hp.limit
      rw [Bool.eq_false_iff.mpr hdone]
      simp only [Bool.not_false, if_true, Nat.mul_add, Nat.mul_one]
      omega

/- The semaphores bound what is in flight by one batch for each gather that has raised, and one. -/
theorem inFlight_le (h : Runs.exec (workerStep settings outage run) newWorker events = some w) :
    w.inFlight ≤ settings.concurrency * (w.raised + 1) := by
  have hw := kept_run h
  refine Nat.le_trans (running_le_countP hw.sound) (Nat.mul_le_mul_left _ ?_)
  have hcurrent : (w.current.toList.countP fun p => !p.2.done) ≤ 1 := by
    refine Nat.le_trans List.countP_le_length ?_
    cases w.current with
    | none => exact Nat.zero_le _
    | some q => exact Nat.le_refl _
  have hleft : (w.past.countP fun p => !p.2.done) ≤ w.raised := by
    refine List.countP_mono_left fun p hp hopen => ?_
    obtain hdone | ⟨e, hresult⟩ := hw.left p hp
    · rw [hdone] at hopen
      cases hopen
    · rw [hresult]
      rfl
  rw [Worker.batches, List.countP_append]
  omega

/- A gather that raises has met a job that raised. -/
theorem past_done (hw : Kept settings run w) (hrun : ∀ job, run job = .ok ()) :
    ∀ p ∈ w.past, p.2.done = true := by
  intro p hp
  refine (hw.left p hp).resolve_right ?_
  rintro ⟨e, hresult⟩
  obtain ⟨job, _, hjob⟩ := (hw.sound p (mem_batches.mpr (Or.inr hp))).result_error hresult
  rw [hrun job] at hjob
  cases hjob

end flight

/-! ### Pauses -/

section pauses

variable {α ε : Type} {settings : Settings} {outage : ε → Bool} {run : α → Except ε Unit}
  {w : Worker α ε} {events : List (Event α ε)} {attempt : ℕ}

/-- The pauses of a worker whose calls end so, from a value of the counter on. -/
def pauses (settings : Settings) (outage : ε → Bool) : ℕ → List (Except ε ℕ) → List ℚ
  | _, [] => []
  | _, .ok claimed :: calls =>
    (if claimed = 0 then [settings.idleSeconds] else []) ++ pauses settings outage 0 calls
  | attempt, .error e :: calls =>
    if outage e then
      databaseRetryDelay (attempt + 1) settings.databaseRetryMaxSeconds ::
        pauses settings outage (attempt + 1) calls
    else pauses settings outage attempt calls

/-- The counter after these calls. -/
def attemptAfter (outage : ε → Bool) : ℕ → List (Except ε ℕ) → ℕ
  | attempt, [] => attempt
  | _, .ok _ :: calls => attemptAfter outage 0 calls
  | attempt, .error e :: calls =>
    attemptAfter outage (if outage e then attempt + 1 else attempt) calls

theorem pauses_append (attempt : ℕ) (calls later : List (Except ε ℕ)) :
    pauses settings outage attempt (calls ++ later) =
      pauses settings outage attempt calls ++
        pauses settings outage (attemptAfter outage attempt calls) later := by
  induction calls generalizing attempt with
  | nil => rfl
  | cons call calls ih =>
    cases call with
    | ok claimed =>
      rw [List.cons_append, pauses, pauses, attemptAfter, ih, List.append_assoc]
    | error e =>
      rw [List.cons_append, pauses, pauses, attemptAfter, ih, ih]
      cases outage e <;> rfl

theorem attemptAfter_append (attempt : ℕ) (calls later : List (Except ε ℕ)) :
    attemptAfter outage attempt (calls ++ later) =
      attemptAfter outage (attemptAfter outage attempt calls) later := by
  induction calls generalizing attempt with
  | nil => rfl
  | cons call calls ih => cases call <;> exact ih _

/- The counter and the pauses are those of the calls. -/
theorem sleeps_run (h : Runs.exec (workerStep settings outage run) newWorker events = some w) :
    w.sleeps = pauses settings outage 0 w.calls ∧
      w.databaseFailureAttempt = attemptAfter outage 0 w.calls := by
  have hafter : ∀ (m : Worker α ε) (answer : Except ε ℕ),
      m.sleeps = pauses settings outage 0 m.calls ∧
          m.databaseFailureAttempt = attemptAfter outage 0 m.calls →
        (m.afterCall settings outage answer).sleeps =
            pauses settings outage 0 (m.afterCall settings outage answer).calls ∧
          (m.afterCall settings outage answer).databaseFailureAttempt =
            attemptAfter outage 0 (m.afterCall settings outage answer).calls := by
    rintro m answer ⟨hsleeps, hattempt⟩
    rw [(afterCall_batches _ _ m answer).2.2, pauses_append, attemptAfter_append, ← hsleeps,
      ← hattempt]
    cases answer with
    | ok claimed =>
      simp only [Worker.afterCall, pauses, attemptAfter, List.append_nil, and_self]
    | error e =>
      simp only [Worker.afterCall, pauses, attemptAfter]
      cases outage e <;> simp
  refine Runs.invariant (I := fun m : Worker α ε => m.sleeps = pauses settings outage 0 m.calls ∧
    m.databaseFailureAttempt = attemptAfter outage 0 m.calls) ⟨rfl, rfl⟩ ?_ h
  intro m event n hm hn
  obtain ⟨e, _, rfl⟩ | ⟨jobs, _, rfl⟩ | ⟨p, m', b, _, _, rfl⟩ | ⟨call, p, m', b, _, _, rfl⟩ |
    ⟨p, answer, _, _, rfl⟩ := workerStep_cases hn
  · exact hafter m _ hm
  · exact hm
  · exact hm
  · exact hm
  · exact hafter { m with current := none, past := m.past ++ [p] } _ hm

theorem databaseRetryDelay_mono (maximumSeconds : ℚ) :
    Monotone fun attempt => databaseRetryDelay attempt maximumSeconds := by
  intro a b hab
  have hexponent : min a 10 ≤ min b 10 := min_le_min_right 10 hab
  exact min_le_min_left _ (pow_le_pow_right₀ one_le_two hexponent)

/- Outages one after the other. -/
theorem pauses_outages (failures : List (Except ε ℕ))
    (hfailures : ∀ call ∈ failures, ∃ e, call = .error e ∧ outage e = true) (attempt : ℕ) :
    pauses settings outage attempt failures = (List.range' (attempt + 1) failures.length).map
      fun k => databaseRetryDelay k settings.databaseRetryMaxSeconds := by
  induction failures generalizing attempt with
  | nil => rfl
  | cons call failures ih =>
    obtain ⟨⟨e, rfl, he⟩, hrest⟩ := List.forall_mem_cons.mp hfailures
    rw [pauses, if_pos he, ih hrest, List.length_cons, List.range'_succ, List.map_cons]

end pauses

/- Since the last call that has returned, every outage is followed by a longer pause, up to the
maximum. -/
theorem worker_backoff {α ε : Type} (settings : Settings) (outage : ε → Bool)
    (run : α → Except ε Unit) (events : List (Event α ε)) (w : Worker α ε)
    (h : Runs.exec (workerStep settings outage run) newWorker events = some w)
    (before failures : List (Except ε ℕ)) (claimed : ℕ)
    (hcalls : w.calls = before ++ .ok claimed :: failures)
    (hfailures : ∀ call ∈ failures, ∃ e, call = .error e ∧ outage e = true) :
    w.databaseFailureAttempt = failures.length ∧
      ∃ earlier delays, w.sleeps = earlier ++ delays ∧ delays.length = failures.length ∧
        (∀ k, k < failures.length → delays[k]? =
          some (min settings.databaseRetryMaxSeconds (2 ^ min (k + 1) 10))) ∧
        delays.Pairwise (· ≤ ·) ∧ ∀ delay ∈ delays,
          1 ≤ delay ∧ delay ≤ settings.databaseRetryMaxSeconds := by
  obtain ⟨hsleeps, hattempt⟩ := sleeps_run h
  rw [hcalls, pauses_append, pauses, ← List.append_assoc, pauses_outages failures hfailures]
    at hsleeps
  constructor
  · rw [hattempt, hcalls, attemptAfter_append, attemptAfter]
    clear hcalls hsleeps
    have hcount : ∀ attempt, attemptAfter outage attempt failures = attempt + failures.length := by
      induction failures with
      | nil => exact fun _ => rfl
      | cons call failures ih =>
        obtain ⟨⟨e, rfl, he⟩, hrest⟩ := List.forall_mem_cons.mp hfailures
        intro attempt
        rw [attemptAfter, if_pos he, ih hrest, List.length_cons]
        omega
    exact (hcount 0).trans (Nat.zero_add _)
  · refine ⟨_, _, hsleeps, ?_, ?_, ?_, ?_⟩
    · rw [List.length_map, List.length_range']
    · intro k hk
      rw [List.getElem?_map, List.getElem?_range' hk, Option.map_some, databaseRetryDelay,
        Nat.one_mul, Nat.zero_add, Nat.add_comm]
    · refine List.pairwise_map.mpr ((List.pairwise_lt_range' ..).imp ?_)
      intro a b hab
      exact databaseRetryDelay_mono _ hab.le
    · intro delay hdelay
      obtain ⟨k, _, rfl⟩ := List.mem_map.mp hdelay
      refine ⟨le_min settings.databaseRetryMaxSeconds_range.1 (one_le_pow₀ one_le_two), ?_⟩
      exact min_le_left _ _

def oneAtATime : Settings where
  concurrency := 1
  idleSeconds := 2
  databaseRetryMaxSeconds := 30
  concurrency_range := by decide
  idleSeconds_range := by decide +kernel
  databaseRetryMaxSeconds_range := by decide +kernel

/-- A call without work, and then the database is away twice. -/
def twoOutages : List (Event Job Unit) :=
  [.lease (.ok []), .resume, .lease (.error ()), .lease (.error ())]

theorem twoOutages_backoff : ∃ w : Worker Job Unit,
    Runs.exec (workerStep oneAtATime (fun _ => true) fun _ => .ok ()) newWorker twoOutages =
        some w ∧ w.databaseFailureAttempt = 2 := by
  have hend : (Runs.exec (workerStep oneAtATime (fun _ => true) fun _ => .ok ()) newWorker
      twoOutages).any (fun w : Worker Job Unit => w.calls = [.ok 0, .error (), .error ()]) = true := by
    decide +kernel
  obtain ⟨w, hw, hcalls⟩ := (Option.any_eq_true _ _).mp hend
  exact ⟨w, hw, (worker_backoff _ _ _ _ w hw [] [.error (), .error ()] 0
    (of_decide_eq_true hcalls) (List.forall_mem_cons.mpr ⟨⟨(), rfl, rfl⟩,
      List.forall_mem_singleton.mpr ⟨(), rfl, rfl⟩⟩)).1⟩

/-! ### Articles and channels -/

section instances

variable {settings : Settings} {p : ArticleProcessor} {workerId : Text} {u : Unicode}

theorem gather_eq_ending (finished : List (Job × Except PyException Unit)) :
    gather (finished.map Prod.snd) = Batch.ending finished := by
  induction finished with
  | nil => rfl
  | cons q finished ih =>
    obtain ⟨job, e | ⟨⟩⟩ := q
    · rfl
    · exact ih

/- What the loop awaits is what `run_once` makes of the tasks in the order in which they end. -/
theorem runOnce_of_result {batch : List Job} {b : Batch Job PyException}
    (h : Sound settings.concurrency (runJob p workerId u) batch b)
    {answer : Except PyException Unit} (hanswer : b.result = some answer) :
    ∃ completions, completions.Perm batch ∧
      runOnce p workerId u batch completions = answer.map fun _ => batch.length := by
  obtain ⟨moves, b', hmoves, hdone⟩ := completes (runJob p workerId u)
    settings.concurrency_range.1 b
  have hsound := sound_run h hmoves
  refine ⟨_, hsound.all_finished hdone, ?_⟩
  have hlater : b'.result = some answer := by
    cases answer with
    | error e =>
      exact Runs.invariant (I := fun c : Batch Job PyException => c.result = some (.error e)) hanswer
        (fun _ _ _ hm hn => result_error_step hm hn) hmoves
    | ok _ => exact hsound.result_ok.mpr ⟨hdone, (h.result_ok.mp hanswer).2⟩
  have houtcomes : (b'.finished.map Prod.fst).map (runJob p workerId u) =
      b'.finished.map Prod.snd := by
    rw [List.map_map]
    exact List.map_congr_left fun q hq => (hsound.outcome q hq).symm
  rw [result_of_done hdone, Option.some.injEq] at hlater
  rw [runOnce, houtcomes, gather_eq_ending, hlater]
  cases answer <;> rfl

end instances

/- Over every interleaving: each leased job is run once, in the order of the leases, a gather
comes to what `run_once` comes to, and only gathers that have raised let the worker exceed its
concurrency. -/
theorem articleWorker_run (settings : Settings) (p : ArticleProcessor) (workerId : Text)
    (u : Unicode) (events : List (Event Job PyException)) (w : Worker Job PyException)
    (h : Runs.exec (workerStep settings PyException.outage (runJob p workerId u)) newWorker events =
      some w) :
    w.inFlight ≤ settings.concurrency * (w.raised + 1) ∧
      ∀ q ∈ w.batches, Sound settings.concurrency (runJob p workerId u) q.1 q.2 ∧
        ∀ answer, q.2.result = some answer → ∃ completions, completions.Perm q.1 ∧
          runOnce p workerId u q.1 completions = answer.map fun _ => q.1.length := by
  refine ⟨inFlight_le h, fun q hq => ⟨(kept_run h).sound q hq, fun answer hanswer => ?_⟩⟩
  exact runOnce_of_result ((kept_run h).sound q hq) hanswer

/-- The first of two fetches meets an outage. The second one gets its permit in the pause, the next
call cannot lease, and the first job of the one after is in flight next to it. -/
def overlappingCalls : List (Event Job PyException) :=
  [.lease (.ok [storyJob (.error gaierror), storyJob (.error readTimeout)]), .move .acquire,
    .move (.finish 0), .resume, .late 0 .acquire, .lease (.error gaierror),
    .lease (.ok [storyJob (.error readTimeout)]), .move .acquire]

theorem overlappingCalls_run : ∃ w,
    Runs.exec (workerStep oneAtATime PyException.outage
        (runJob sampleProcessor "a".toList asciiUnicode)) newWorker overlappingCalls = some w ∧
      w.raised = 1 ∧ w.inFlight = 2 ∧ w.inFlight ≤ oneAtATime.concurrency * (w.raised + 1) := by
  have hend : (Runs.exec (workerStep oneAtATime PyException.outage
      (runJob sampleProcessor "a".toList asciiUnicode)) newWorker overlappingCalls).any
        (fun w => w.raised = 1 && w.inFlight = 2) = true := by decide +kernel
  obtain ⟨w, hw, hcounts⟩ := (Option.any_eq_true _ _).mp hend
  rw [Bool.and_eq_true, decide_eq_true_eq, decide_eq_true_eq] at hcounts
  exact ⟨w, hw, hcounts.1, hcounts.2, (articleWorker_run _ _ _ _ _ w hw).1⟩

/-- The inner `run` of `PollWorker.run_once`: whatever a poll raises, it returns. -/
def runPoll {σ : Type} (poll : DiscoveryChannel → Except PyException σ)
    (channel : DiscoveryChannel) : Except PyException Unit :=
  match poll channel with
  | .ok _ | .error _ => .ok ()

/- The polls never exceed the concurrency, and every leased channel has been polled when
its call returns. -/
theorem pollWorker_run {σ : Type} (settings : Settings)
    (poll : DiscoveryChannel → Except PyException σ)
    (events : List (Event DiscoveryChannel PyException)) (w : Worker DiscoveryChannel PyException)
    (h : Runs.exec (workerStep settings PyException.outage (runPoll poll)) newWorker events =
      some w) :
    w.inFlight ≤ settings.concurrency ∧
      (∀ q ∈ w.past, (q.2.finished.map Prod.fst).Perm q.1 ∧ q.2.result = some (.ok ())) ∧
      ∀ q ∈ w.batches, Sound settings.concurrency (runPoll poll) q.1 q.2 := by
  have hrun : ∀ channel, runPoll poll channel = .ok () := by
    intro channel
    unfold runPoll
    split <;> rfl
  have hkept := kept_run h
  have hpast := past_done hkept hrun
  refine ⟨?_, ?_, hkept.sound⟩
  · refine Nat.le_trans (running_le_countP hkept.sound) ?_
    have hnone : (w.past.countP fun p => !p.2.done) = 0 :=
      List.countP_eq_zero.mpr fun p hp => by simp [hpast p hp]
    rw [Worker.batches, List.countP_append, hnone]
    refine Nat.le_trans (Nat.mul_le_mul_left _ ?_) (Nat.le_of_eq (Nat.mul_one _))
    refine Nat.le_trans List.countP_le_length ?_
    cases w.current with
    | none => exact Nat.zero_le _
    | some q => exact Nat.le_refl _
  · intro q hq
    have hsound := hkept.sound q (mem_batches.mpr (Or.inr hq))
    exact ⟨hsound.all_finished (hpast q hq),
      hsound.result_ok.mpr ⟨hpast q hq, fun c _ => hrun c⟩⟩

/-- Two channels, polled one after the other. -/
def twoPolls : List (Event DiscoveryChannel PyException) :=
  [.lease (.ok [sampleChannel, { sampleChannel with id := 3 }]), .move .acquire,
    .move (.finish 0), .move .acquire, .move (.finish 0), .resume]

theorem twoPolls_run : ∃ w,
    Runs.exec (workerStep oneAtATime PyException.outage
        (runPoll fun _ => (.error readTimeout : Except PyException Unit))) newWorker twoPolls =
          some w ∧
      w.past.map (fun q => q.1.map (·.id)) = [[2, 3]] ∧ w.inFlight ≤ oneAtATime.concurrency := by
  have hend : (Runs.exec (workerStep oneAtATime PyException.outage
      (runPoll fun _ => (.error readTimeout : Except PyException Unit))) newWorker twoPolls).any
        (fun w => w.past.map (fun q => q.1.map (·.id)) = [[2, 3]]) = true := by decide +kernel
  obtain ⟨w, hw, hpast⟩ := (Option.any_eq_true _ _).mp hend
  exact ⟨w, hw, of_decide_eq_true hpast, (pollWorker_run _ _ _ w hw).1⟩

end Newsintel.Workers
