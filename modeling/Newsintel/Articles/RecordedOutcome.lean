import Mathlib.Algebra.Order.Floor.Ring
import Mathlib.Data.Rat.Floor
import Newsintel.Articles.Processing

/-!
# One recorded outcome for each run

Whatever the fetcher, the extractor, the store and the other repository calls do, a run
that got past `start_fetch` ends with one `complete_success` or with one `complete_failure`.
-/

namespace Newsintel.Articles

open Acquisition Logged
open ArticleStore (ArticleProcessingResult)

/-! ### Retry times -/

theorem retryDelay_pos {attemptCount : ℕ} {baseSeconds maxSeconds : ℤ} (hbase : 1 ≤ baseSeconds)
    (hmax : 1 ≤ maxSeconds) : 1 ≤ retryDelay attemptCount baseSeconds maxSeconds := by
  have hpow : (1 : ℤ) ≤ 2 ^ min (attemptCount - 1) 10 := Int.pow_pos (by omega)
  have hprod : 1 * 1 ≤ baseSeconds * 2 ^ min (attemptCount - 1) 10 :=
    Int.mul_le_mul hbase hpow (by omega) (by omega)
  rw [retryDelay]
  omega

/- At least a second before rounding is at least a microsecond after it. -/
theorem fractionalSeconds_pos {q : ℚ} (h : 1 ≤ q) : 0 < fractionalSeconds q := by
  have hmicros : (1 : ℚ) ≤ q * 1000000 := by linarith
  have hfloor : 1 ≤ ⌊q * 1000000⌋ := Int.le_floor.mpr (by exact_mod_cast hmicros)
  rw [Rat.floor_def'] at hfloor
  have hround := le_roundHalfEven (q * 1000000).num (q * 1000000).den
  rw [fractionalSeconds]
  omega

theorem retryAtForAttempt_later {attemptCount : ℕ} {baseSeconds maxSeconds : ℤ}
    (hattempt : 1 ≤ attemptCount) (hbase : 1 ≤ baseSeconds) (hmax : 1 ≤ maxSeconds)
    (jitterRatio random : ℚ) (now : Timestamp) :
    ∃ t, retryAtForAttempt attemptCount baseSeconds maxSeconds jitterRatio random now = .ok t ∧
      now < t := by
  have hdelay := @retryDelay_pos attemptCount baseSeconds maxSeconds hbase hmax
  unfold retryAtForAttempt
  rw [if_neg (by omega)]
  simp only
  split
  · refine ⟨_, rfl, ?_⟩
    apply Int.lt_add_of_pos_right
    exact fractionalSeconds_pos (le_max_left 1 _)
  · refine ⟨_, rfl, ?_⟩
    apply Int.lt_add_of_pos_right
    exact Int.mul_pos (by omega) (by omega)

/-! ### The parts of a run -/

section run

variable {p : ArticleProcessor} {env : Behaviour} {candidate : LeasedUrlCandidate}
  {workerId : Text} {run : ArticleFetchRun} {fetched : FetchResult}
  {rawArtifact : Option RawFetchArtifact} {extracted : Extraction} {exc : PyException}

def Call.isCompleteSuccess : Call → Bool
  | .completeSuccess .. => true
  | _ => false

def Call.isCompleteFailure : Call → Bool
  | .completeFailure .. => true
  | _ => false

/-- Neither of the two final writes. -/
def Call.isStep (c : Call) : Bool := !c.isCompleteSuccess && !c.isCompleteFailure

theorem saveSnapshot_steps :
    ∀ m ∈ (saveSnapshot p env candidate fetched).calls, m.call.isStep = true := by
  unfold saveSnapshot
  split
  · exact forall_calls_bind (forall_calls_perform rfl) (by simp)
  · simp

theorem extractArticle_steps :
    ∀ m ∈ (extractArticle env workerId run fetched).calls, m.call.isStep = true := by
  unfold extractArticle
  refine forall_calls_bind (forall_calls_perform rfl) fun _ _ => ?_
  refine forall_calls_bind (forall_calls_perform rfl) fun _ _ => ?_
  refine forall_calls_bind (by simp) fun _ _ => ?_
  refine forall_calls_bind (by simp) fun _ _ => ?_
  refine forall_calls_bind (forall_calls_perform rfl) fun _ _ => ?_
  exact forall_calls_bind (forall_calls_perform rfl) (by simp)

theorem fetchAndExtract_steps :
    ∀ m ∈ (fetchAndExtract p env candidate workerId run).calls, m.call.isStep = true := by
  unfold fetchAndExtract
  refine forall_calls_bind (forall_calls_perform rfl) fun _ _ => ?_
  refine forall_calls_bind (forall_calls_perform rfl) fun _ _ => ?_
  refine forall_calls_bind (forall_calls_perform rfl) fun _ _ => ?_
  refine forall_calls_bind (by simp) fun _ _ => ?_
  refine forall_calls_bind saveSnapshot_steps fun _ _ => ?_
  exact forall_calls_bind extractArticle_steps (by simp)

/-- What `complete_success` is called with. -/
structure Acceptable (fetched : FetchResult) (extracted : Extraction) : Prop where
  successful : 200 ≤ fetched.statusCode ∧ fetched.statusCode < 300
  text : extracted.textContent ≠ []
  unwarned : ∀ w ∈ extracted.warnings, w ∉ fatalExtractionWarnings

theorem raiseForStatus_ok {statusCode : ℕ} (h : raiseForStatus statusCode = .ok ()) :
    200 ≤ statusCode ∧ statusCode < 300 := by
  unfold raiseForStatus at h
  split at h
  · split_ifs at h
  · rename_i hrange
    simp only [Bool.or_eq_true, decide_eq_true_eq] at hrange
    omega

theorem raiseForUnacceptableExtraction_ok (h : raiseForUnacceptableExtraction extracted = .ok ()) :
    ∀ w ∈ extracted.warnings, w ∉ fatalExtractionWarnings := by
  unfold raiseForUnacceptableExtraction at h
  simp only at h
  split at h
  · rename_i hnone
    intro w hw hfatal
    have hlisted := List.filter_eq_nil_iff.mp hnone w hfatal
    simp [hw] at hlisted
  · cases h

theorem extractArticle_ok (h : (extractArticle env workerId run fetched).result = .ok extracted) :
    extracted.textContent ≠ [] ∧ ∀ w ∈ extracted.warnings, w ∉ fatalExtractionWarnings := by
  unfold extractArticle at h
  simp only [bind_ok_iff, lift_result, pure_result] at h
  obtain ⟨_, _, _, _, _, htext, _, hwarnings, _, _, _, _, heq⟩ := h
  cases heq
  refine ⟨?_, raiseForUnacceptableExtraction_ok hwarnings⟩
  intro hempty
  rw [raiseForMissingText, if_pos hempty] at htext
  cases htext

theorem fetchAndExtract_acceptable
    (h : (fetchAndExtract p env candidate workerId run).result =
      .ok (fetched, rawArtifact, extracted)) : Acceptable fetched extracted := by
  unfold fetchAndExtract at h
  simp only [bind_ok_iff, lift_result, pure_result] at h
  obtain ⟨_, _, _, _, _, _, _, hstatus, _, _, _, hextract, heq⟩ := h
  cases heq
  obtain ⟨htext, hwarnings⟩ := extractArticle_ok hextract
  exact ⟨raiseForStatus_ok hstatus, htext, hwarnings⟩

/-- The failure is recorded once, with the exception's name and text. -/
theorem recordFailure_eq (hfailure : env.completeFailure = .ok ())
    (hleased : candidate.Leased) (hbase : 1 ≤ p.retryBaseSeconds)
    (hmax : 1 ≤ p.retryMaxSeconds) :
    ∃ retryAt, (retryAt = none ↔ recordsTerminal p.maxAttempts candidate exc.nonRetryable = true) ∧
      (∀ t ∈ retryAt, env.failedAt < t) ∧
      recordFailure p env candidate run exc =
        ⟨.ok (), [⟨.completeFailure run env.failedAt exc.errorType (exc.message.take 2000) retryAt
          (recordsTerminal p.maxAttempts candidate exc.nonRetryable), true⟩]⟩ := by
  unfold recordFailure
  simp only
  cases recordsTerminal p.maxAttempts candidate exc.nonRetryable with
  | true =>
    refine ⟨none, by simp, by simp, ?_⟩
    have hretry : failureRetryAt p env candidate true = .ok none := rfl
    rw [hretry, hfailure]
    rfl
  | false =>
    obtain ⟨t, hretry, hlater⟩ := retryAtForAttempt_later hleased.attempted hbase hmax p.retryJitterRatio
      env.random env.failedAt
    refine ⟨some t, by simp, by simpa using hlater, ?_⟩
    have hretry : failureRetryAt p env candidate false = .ok (some t) := by
      rw [failureRetryAt, if_neg (by decide), hretry]
      rfl
    rw [hretry, hfailure]
    rfl

/-! ### The whole run -/

def successes {α : Type} (t : Processing α) : List (Made Call) :=
  t.calls.filter fun m => m.returned && m.call.isCompleteSuccess

def failures {α : Type} (t : Processing α) : List (Made Call) :=
  t.calls.filter (·.call.isCompleteFailure)

/-- The run returns after one returned `complete_success` and no `complete_failure`, or
raises after one `complete_failure` and no returned `complete_success`, and either is
called only where it belongs. -/
structure RecordsOneOutcome (p : ArticleProcessor) (candidate : LeasedUrlCandidate)
    (t : Processing ArticleProcessingResult) : Prop where
  outcome :
    (∃ result, t.result = .ok result ∧ (successes t).length = 1 ∧ failures t = []) ∨
      ∃ exc, t.result = .error exc ∧ (failures t).length = 1 ∧ successes t = []
  success : ∀ run fetched extracted rawArtifact completedAt, ∀ m ∈ t.calls,
    m.call = .completeSuccess run fetched extracted rawArtifact completedAt →
      Acceptable fetched extracted
  failure : ∀ run failedAt errorType errorMessage retryAt terminal, ∀ m ∈ t.calls,
    m.call = .completeFailure run failedAt errorType errorMessage retryAt terminal →
      ∃ exc, t.result = .error exc ∧ errorType = exc.errorType ∧
        errorMessage = exc.message.take 2000 ∧
        (terminal = true ↔
          p.maxAttempts ≤ candidate.attemptCount ∨ exc.nonRetryable = true) ∧
        (retryAt = none ↔ terminal = true) ∧ ∀ t ∈ retryAt, failedAt < t

/-- A call that is not a recorded outcome. -/
structure Passing (m : Made Call) : Prop where
  no_failure : m.call.isCompleteFailure = false
  no_success : (m.returned && m.call.isCompleteSuccess) = false
  acceptable : ∀ run fetched extracted rawArtifact completedAt,
    m.call = .completeSuccess run fetched extracted rawArtifact completedAt →
      Acceptable fetched extracted

theorem passing_of_isStep {m : Made Call} (h : m.call.isStep = true) : Passing m := by
  simp only [Call.isStep, Bool.and_eq_true, Bool.not_eq_true'] at h
  obtain ⟨hsuccess, hfailure⟩ := h
  refine ⟨hfailure, by rw [hsuccess, Bool.and_false], ?_⟩
  intro run fetched extracted rawArtifact completedAt hcall
  rw [hcall] at hsuccess
  cases hsuccess

theorem passing_only {calls : List (Made Call)} (h : ∀ m ∈ calls, Passing m) :
    (calls.filter fun m => m.returned && m.call.isCompleteSuccess) = [] ∧
      calls.filter (·.call.isCompleteFailure) = [] := by
  constructor
  · apply List.filter_eq_nil_iff.mpr
    intro m hm
    rw [(h m hm).no_success]
    exact Bool.false_ne_true
  · apply List.filter_eq_nil_iff.mpr
    intro m hm
    rw [(h m hm).no_failure]
    exact Bool.false_ne_true

/- Of passing calls and one more, only the last one records a failure, or a success that is not
known to be acceptable. -/
theorem last_of_completeFailure {calls : List (Made Call)} {m last : Made Call}
    (h : ∀ m ∈ calls, Passing m) (hm : m ∈ calls ++ [last])
    (hcall : m.call.isCompleteFailure = true) : m = last := by
  obtain hm | hm := List.mem_append.mp hm
  · have hno := (h m hm).no_failure
    rw [hcall] at hno
    cases hno
  · exact List.mem_singleton.mp hm

theorem acceptable_or_last {calls : List (Made Call)} {m last : Made Call} {completedAt : Timestamp}
    (h : ∀ m ∈ calls, Passing m) (hm : m ∈ calls ++ [last])
    (hcall : m.call = .completeSuccess run fetched extracted rawArtifact completedAt) :
    Acceptable fetched extracted ∨ m = last := by
  obtain hm | hm := List.mem_append.mp hm
  · exact Or.inl ((h m hm).acceptable run fetched extracted rawArtifact completedAt hcall)
  · exact Or.inr (List.mem_singleton.mp hm)

theorem records_success {calls : List (Made Call)} {result : ArticleProcessingResult}
    {completedAt : Timestamp} (h : ∀ m ∈ calls, Passing m) (hacc : Acceptable fetched extracted) :
    RecordsOneOutcome p candidate ⟨.ok result, calls ++
      [⟨.completeSuccess run fetched extracted rawArtifact completedAt, true⟩]⟩ := by
  obtain ⟨hsuccesses, hfailures⟩ := passing_only h
  refine ⟨.inl ⟨result, rfl, ?_, ?_⟩, ?_, ?_⟩
  · rw [successes, List.filter_append, hsuccesses]
    rfl
  · rw [failures, List.filter_append, hfailures]
    rfl
  · intro run' fetched' extracted' raw' at' m hm hcall
    obtain hacceptable | rfl := acceptable_or_last h hm hcall
    · exact hacceptable
    · cases hcall
      exact hacc
  · intro run' failedAt errorType errorMessage retryAt terminal m hm hcall
    obtain rfl := last_of_completeFailure h hm (hcall ▸ rfl)
    cases hcall

theorem records_failure {calls : List (Made Call)} {retryAt : Option Timestamp}
    (h : ∀ m ∈ calls, Passing m)
    (hretry : retryAt = none ↔ recordsTerminal p.maxAttempts candidate exc.nonRetryable = true)
    (hlater : ∀ t ∈ retryAt, env.failedAt < t) :
    RecordsOneOutcome p candidate ⟨.error exc, calls ++
      [⟨.completeFailure run env.failedAt exc.errorType (exc.message.take 2000) retryAt
        (recordsTerminal p.maxAttempts candidate exc.nonRetryable), true⟩]⟩ := by
  obtain ⟨hsuccesses, hfailures⟩ := passing_only h
  refine ⟨.inr ⟨exc, rfl, ?_, ?_⟩, ?_, ?_⟩
  · rw [failures, List.filter_append, hfailures]
    rfl
  · rw [successes, List.filter_append, hsuccesses]
    rfl
  · intro run' fetched' extracted' raw' at' m hm hcall
    obtain hacceptable | rfl := acceptable_or_last h hm hcall
    · exact hacceptable
    · cases hcall
  · intro run' failedAt errorType errorMessage retryAt' terminal m hm hcall
    obtain rfl := last_of_completeFailure h hm (hcall ▸ rfl)
    cases hcall
    refine ⟨exc, rfl, rfl, rfl, ?_, hretry, hlater⟩
    rw [recordsTerminal, Bool.or_eq_true, decide_eq_true_eq]

/- `complete_success` is the last call of its region, and the region returns when it does. -/
theorem persist_cases (hacc : Acceptable fetched extracted) :
    (∃ exc, (persist env workerId run fetched rawArtifact extracted).result = .error exc ∧
      ∀ m ∈ (persist env workerId run fetched rawArtifact extracted).calls, Passing m) ∨
    ∃ mark result, Passing mark ∧ persist env workerId run fetched rawArtifact extracted =
      ⟨.ok result, [mark] ++ [⟨.completeSuccess run fetched extracted rawArtifact
        env.completedAt, true⟩]⟩ := by
  have hmark : ∀ m ∈ (markStageNow env workerId run .persisting).calls, Passing m :=
    forall_calls_perform (passing_of_isStep rfl)
  cases hrun : (markStageNow env workerId run .persisting).result with
  | error exc =>
    refine .inl ⟨exc, ?_, ?_⟩
    · rw [persist, bind_of_error hrun]
    · rw [persist, bind_of_error hrun]
      exact hmark
  | ok _ =>
    cases hsuccess : env.completeSuccess with
    | error exc =>
      refine .inl ⟨exc, ?_, ?_⟩
      · rw [persist, bind_of_ok hrun]
        exact hsuccess
      · apply forall_calls_bind hmark
        intro _ _
        rw [hsuccess]
        apply forall_calls_perform
        refine ⟨rfl, rfl, ?_⟩
        intro run' fetched' extracted' raw' at' hcall
        cases hcall
        exact hacc
    | ok result =>
      refine .inr ⟨⟨.updateProcessingStage .persisting (env.stageAt .persisting) workerId run.id
        none, (env.updateProcessingStage .persisting).toBool⟩, result, passing_of_isStep rfl, ?_⟩
      rw [persist, bind_of_ok hrun, hsuccess]
      rfl

/- The failing region's own calls, then the recorded failure. -/
theorem recordingFailure_error {α : Type} {x : Processing α} (h : x.result = .error exc)
    (hfailure : env.completeFailure = .ok ()) (hleased : candidate.Leased)
    (hbase : 1 ≤ p.retryBaseSeconds) (hmax : 1 ≤ p.retryMaxSeconds) :
    ∃ retryAt, (retryAt = none ↔ recordsTerminal p.maxAttempts candidate exc.nonRetryable = true) ∧
      (∀ t ∈ retryAt, env.failedAt < t) ∧
      recordingFailure p env candidate run x = ⟨.error exc, x.calls ++
        [⟨.completeFailure run env.failedAt exc.errorType (exc.message.take 2000) retryAt
          (recordsTerminal p.maxAttempts candidate exc.nonRetryable), true⟩]⟩ := by
  obtain ⟨retryAt, hretry, hlater, hrecord⟩ :=
    @recordFailure_eq p env candidate run exc hfailure hleased hbase hmax
  refine ⟨retryAt, hretry, hlater, ?_⟩
  rw [recordingFailure, guard_of_error h, hrecord, bind_of_ok rfl]
  rfl

theorem attempt_records (hfailure : env.completeFailure = .ok ())
    (hleased : candidate.Leased) (hbase : 1 ≤ p.retryBaseSeconds)
    (hmax : 1 ≤ p.retryMaxSeconds) (before : Made Call) (hbefore : before.call.isStep = true) :
    RecordsOneOutcome p candidate ⟨(attempt p env candidate workerId run).result,
      before :: (attempt p env candidate workerId run).calls⟩ := by
  have hsteps : ∀ m ∈ before :: (fetchAndExtract p env candidate workerId run).calls, Passing m := by
    intro m hm
    rcases List.mem_cons.mp hm with rfl | hm
    · exact passing_of_isStep hbefore
    · exact passing_of_isStep (fetchAndExtract_steps m hm)
  unfold attempt
  cases hfetch : (fetchAndExtract p env candidate workerId run).result with
  | error exc =>
    obtain ⟨retryAt, hretry, hlater, hrecord⟩ :=
      @recordingFailure_error p env candidate run exc _ _ hfetch hfailure hleased hbase hmax
    rw [hrecord, bind_of_error rfl]
    exact records_failure hsteps hretry hlater
  | ok prepared =>
    obtain ⟨fetched, rawArtifact, extracted⟩ := prepared
    have hacc : Acceptable fetched extracted := fetchAndExtract_acceptable hfetch
    have hguard : recordingFailure p env candidate run
        (fetchAndExtract p env candidate workerId run) = fetchAndExtract p env candidate workerId run :=
      guard_of_ok hfetch
    rw [hguard, bind_of_ok hfetch]
    simp only
    rcases @persist_cases env workerId run fetched rawArtifact extracted hacc with
      ⟨exc, hpersist, hpassing⟩ | ⟨mark, result, hmark, hpersist⟩
    · obtain ⟨retryAt, hretry, hlater, hrecord⟩ :=
        @recordingFailure_error p env candidate run exc _ _ hpersist hfailure hleased hbase hmax
      rw [hrecord, ← List.append_assoc, ← List.cons_append]
      apply records_failure _ hretry hlater
      exact List.forall_mem_append.mpr ⟨hsteps, hpassing⟩
    · rw [recordingFailure, guard_of_ok (by rw [hpersist]), hpersist, ← List.append_assoc,
        ← List.cons_append]
      apply records_success _ hacc
      exact List.forall_mem_append.mpr ⟨hsteps, by simpa using hmark⟩

/- The outcome is recorded once, whatever the parts do. -/
theorem process_recordsOneOutcome {u : PyText.Unicode} {decision : ArticleUrlDecision}
    (hfilter : prefetchFilter p env candidate u = .ok decision)
    (haccepted : decision.accepted = true) (hstart : env.startFetch = .ok run)
    (hfailure : env.completeFailure = .ok ()) (hleased : candidate.Leased)
    (hbase : 1 ≤ p.retryBaseSeconds) (hmax : 1 ≤ p.retryMaxSeconds) :
    RecordsOneOutcome p candidate (process p env candidate workerId u) := by
  have hpass : passFilter p env candidate workerId u = ⟨.ok (), []⟩ := by
    rw [passFilter, hfilter, bind_of_ok rfl, if_pos haccepted]
    rfl
  rw [process, hpass, bind_of_ok rfl, hstart, bind_of_ok rfl]
  exact attempt_records hfailure hleased hbase hmax _ rfl

/- A fetch that raises is recorded once. -/
theorem unresolvedStory_recordsOneOutcome :
    RecordsOneOutcome sampleProcessor leasedStory
      (process sampleProcessor (fetching (.error gaierror)) leasedStory "a".toList
        PyText.asciiUnicode) := by
  have hfilter : prefetchFilter sampleProcessor (fetching (.error gaierror)) leasedStory
      PyText.asciiUnicode = .ok ⟨true, none, none⟩ := by
    decide +kernel
  exact process_recordsOneOutcome hfilter rfl rfl rfl ⟨_, _, _, _, rfl⟩ (by decide) (by decide)

end run

end Newsintel.Articles
