import Newsintel.Articles.CandidateRuns

/-!
# How often a candidate is handed out

`lease_due_candidates` counts an attempt but does not compare the count with
the limit; `_record_failure` compares the count of the worker's copy, not the
row's. A candidate stays within its attempts exactly along the runs in which no
expired lease of a used-up row is picked again and no retry is recorded on a
used-up row.
-/

namespace Newsintel.Articles

/-- No candidate was handed out more than `maxAttempts` times, and one that was
handed out that often is under its last lease or terminal. -/
def Bounded (maxAttempts : ℕ) (s : Frontier) : Prop :=
  ∀ r ∈ s.rows, handedOut s r.id ≤ maxAttempts ∧
    (handedOut s r.id = maxAttempts → r.state = .leased ∨ r.state.terminal = true)

/-- At its commit the step does not reopen a used-up row: a lease that is picked again
has attempts left, and so has the row on which a retry is recorded. -/
def withinAttempts (maxAttempts : ℕ) (s : Frontier) (a : Step) : Bool :=
  match a with
  | .leaseDueCandidates _ now limit _ locked =>
      (leaseSelect now limit locked s.rows).all fun r =>
        r.state != .leased || decide (r.attemptCount < maxAttempts)
  | .recordFailure g nonRetryable .. =>
      recordsTerminal maxAttempts g.candidate nonRetryable ||
        s.rows.all fun r => r.id != g.candidate.id || decide (r.attemptCount < maxAttempts)
  | _ => true

variable {maxAttempts : ℕ} {s s' : Frontier} {a : Step} {r : UrlCandidateModel}

/- A picked row had attempts left: by the bound if it was ready or waiting for a
retry, by the condition if its lease had expired. -/
theorem picked_attempts (hc : Coherent s) (hP : Bounded maxAttempts s) {w : Text}
    {now : Timestamp} {limit secs : ℕ} {locked : List Uuid}
    (hC : withinAttempts maxAttempts s (.leaseDueCandidates w now limit secs locked) = true)
    (hp : r ∈ leaseSelect now limit locked s.rows) : r.attemptCount < maxAttempts := by
  obtain ⟨hr, hdue⟩ := leaseSelect_mem hp
  simp only [withinAttempts, List.all_eq_true, Bool.or_eq_true, bne_iff_ne,
    decide_eq_true_eq] at hC
  obtain ⟨hle, hfull⟩ := hP r hr
  rw [hc.counted r hr] at hle hfull
  rcases hC r hp with hne | hlt
  · rcases Nat.lt_or_eq_of_le hle with hlt | heq
    · exact hlt
    · have hpend := leaseDue_state hdue
      rcases hfull heq with hl | ht
      · exact absurd hl hne
      · simp [UrlCandidateState.terminal, hpend] at ht
  · exact hlt

/- The state of a row that was handed out for the last time: still leased, or
terminal, after any step but a lease and a retry. -/
theorem rowAfter_used (hC : withinAttempts maxAttempts s a = true) (hr : r ∈ s.rows)
    (hpick : pickCount s a r = 0) (hfull : maxAttempts ≤ r.attemptCount)
    (hst : r.state = .leased ∨ r.state.terminal = true) :
    (rowAfter maxAttempts s a r).state = .leased ∨
      (rowAfter maxAttempts s a r).state.terminal = true := by
  cases a with
  | observeDiscovery d => simp only [rowAfter]; split <;> exact hst
  | leaseDueCandidates w now limit secs locked =>
    by_cases hp : r ∈ leaseSelect now limit locked s.rows
    · simp [pickCount, hp] at hpick
    · simpa only [rowAfter, if_neg hp] using hst
  | startFetch g t => simp only [rowAfter]; split <;> exact hst
  | updateStage g stage t d => simp only [rowAfter]; split <;> exact hst
  | completeSuccess g article t =>
    simp only [rowAfter]
    split
    · exact Or.inr (by simp [completeSuccess, UrlCandidateState.terminal,
        UrlCandidateState.pending])
    · exact hst
  | recordFailure g nonRetryable ty msg retryAt t =>
    simp only [rowAfter]
    split
    · rename_i he
      simp only [withinAttempts, Bool.or_eq_true, List.all_eq_true, bne_iff_ne,
        decide_eq_true_eq] at hC
      rcases hC with hterm | hlow
      · exact Or.inr (by simp [recordFailureRow, completeFailure, hterm, failureState,
          UrlCandidateState.terminal, UrlCandidateState.pending])
      · rcases hlow r hr with hne | hlt
        · exact absurd he hne
        · omega
    · exact hst
  | rejectBeforeFetch g reason message t =>
    simp only [rowAfter]
    split
    · exact Or.inr (by simp [rejectBeforeFetch, UrlCandidateState.terminal,
        UrlCandidateState.pending])
    · exact hst
  | cleanupOldJobs c =>
    simp only [rowAfter]
    split
    · refine Or.inr ?_
      simp only [cleanupRow]
      cases c.permanentFailure <;> rfl
    · exact hst

theorem pickCount_le_one : pickCount s a r ≤ 1 := by
  cases a with
  | leaseDueCandidates w now limit secs locked =>
    simp only [pickCount]
    split <;> omega
  | _ => simp [pickCount]

theorem pickCount_one (h : pickCount s a r = 1) :
    ∃ w now limit secs locked, a = .leaseDueCandidates w now limit secs locked ∧
      r ∈ leaseSelect now limit locked s.rows := by
  cases a with
  | leaseDueCandidates w now limit secs locked =>
    by_cases hp : r ∈ leaseSelect now limit locked s.rows
    · exact ⟨w, now, limit, secs, locked, rfl, hp⟩
    · simp [pickCount, hp] at h
  | _ => simp [pickCount] at h

theorem bounded_of_withinAttempts (hmax : 1 ≤ maxAttempts) (hc : Coherent s)
    (hP : Bounded maxAttempts s) (h : step maxAttempts s a = some s')
    (hC : withinAttempts maxAttempts s a = true) : Bounded maxAttempts s' := by
  obtain ⟨_, hnew, hrows, hgrants⟩ := step_some h
  intro r' hr'
  rw [hrows, List.mem_append] at hr'
  rcases hr' with hr' | hr'
  · obtain ⟨r, hr, rfl⟩ := List.mem_map.mp hr'
    rw [rowAfter_id, handedOut_step hc h hr, hc.counted r hr]
    obtain ⟨hle, hfull⟩ := hP r hr
    rw [hc.counted r hr] at hle hfull
    have h1 : pickCount s a r ≤ 1 := pickCount_le_one
    rcases Nat.lt_or_eq_of_le h1 with h0 | h1
    · have h0' : pickCount s a r = 0 := by omega
      refine ⟨by omega, fun he => ?_⟩
      exact rowAfter_used hC hr h0' (by omega) (hfull (by omega))
    · obtain ⟨w, now, limit, secs, locked, rfl, hp⟩ := pickCount_one h1
      have hlt := picked_attempts hc hP hC hp
      refine ⟨by omega, fun _ => Or.inl ?_⟩
      simp [rowAfter, if_pos hp, leaseRow]
  · have hz : handedOut s' r'.id = 0 := by
      have hs' := step_coherent hc h
      rw [hs'.counted r' (by rw [hrows]; exact List.mem_append_right _ hr')]
      obtain ⟨d, -, rfl⟩ := addedRows_eq hr'
      rfl
    exact ⟨by omega, by omega⟩

theorem withinAttempts_of_bounded (hc : Coherent s)
    (h : step maxAttempts s a = some s') (hP' : Bounded maxAttempts s') :
    withinAttempts maxAttempts s a = true := by
  obtain ⟨_, _, hrows, _⟩ := step_some h
  have hold : ∀ r ∈ s.rows, rowAfter maxAttempts s a r ∈ s'.rows := by
    intro r hr
    rw [hrows]
    exact List.mem_append_left _ (List.mem_map_of_mem hr)
  cases a with
  | leaseDueCandidates w now limit secs locked =>
    simp only [withinAttempts, List.all_eq_true, Bool.or_eq_true, bne_iff_ne, decide_eq_true_eq]
    intro r hp
    have hr := (leaseSelect_mem hp).1
    have hle := (hP' _ (hold r hr)).1
    rw [rowAfter_id, handedOut_step hc h hr, hc.counted r hr] at hle
    simp only [pickCount, if_pos hp] at hle
    exact Or.inr hle
  | recordFailure g nonRetryable ty msg retryAt t =>
    simp only [withinAttempts, Bool.or_eq_true, List.all_eq_true, bne_iff_ne, decide_eq_true_eq]
    by_cases hterm : recordsTerminal maxAttempts g.candidate nonRetryable = true
    · exact Or.inl hterm
    · refine Or.inr fun r hr => ?_
      by_cases he : r.id = g.candidate.id
      · refine Or.inr ?_
        obtain ⟨hle, hfull⟩ := hP' _ (hold r hr)
        rw [rowAfter_id, handedOut_step hc h hr, hc.counted r hr] at hle hfull
        have hstate : (rowAfter maxAttempts s
            (.recordFailure g nonRetryable ty msg retryAt t) r).state = .retry := by
          simp [rowAfter, if_pos he, recordFailureRow, completeFailure, failureState, hterm]
        simp only [pickCount, Nat.add_zero] at hle hfull
        rcases Nat.lt_or_eq_of_le hle with hlt | heq
        · exact hlt
        · rcases hfull heq with hl | ht
          · rw [hstate] at hl
            contradiction
          · rw [hstate] at ht
            contradiction
      · exact Or.inl he
  | _ => rfl

/- Along every run from the empty frontier, with a limit of at least one. -/
theorem bounded_iff_withinAttempts (maxAttempts : ℕ) (hmax : 1 ≤ maxAttempts) (as : List Step)
    (t : Frontier) (h : Runs.exec (step maxAttempts) emptyFrontier as = some t) :
    Runs.Throughout (step maxAttempts) (Bounded maxAttempts) emptyFrontier as ↔
      Runs.Every (step maxAttempts) (fun m a => withinAttempts maxAttempts m a = true)
        emptyFrontier as :=
  Runs.throughout_iff_every emptyFrontier_coherent (by simp [Bounded, emptyFrontier])
    (fun _ _ _ hc _ _ hs => step_coherent hc hs)
    (fun _ _ _ hc hP hs => ⟨withinAttempts_of_bounded hc hs,
      bounded_of_withinAttempts hmax hc hP hs⟩) h

theorem overtakenRun_bounded :
    Runs.Throughout (step 3) (Bounded 3) emptyFrontier overtakenRun ↔
      Runs.Every (step 3) (fun m a => withinAttempts 3 m a = true) emptyFrontier
        overtakenRun := by
  have hsome : (Runs.exec (step 3) emptyFrontier overtakenRun).isSome = true := by decide
  obtain ⟨t, ht⟩ := Option.isSome_iff_exists.mp hsome
  exact bounded_iff_withinAttempts 3 (by decide) overtakenRun t ht

/-- Two workers lease the sample candidate one after the other; the first crashes. -/
def crashRun : List Step :=
  [.observeDiscovery sampleDiscovery,
    .leaseDueCandidates "a".toList (seconds 1) 20 120 [],
    .leaseDueCandidates "b".toList (seconds 200) 20 120 []]

theorem crash_exceeds_attempts :
    ¬ ∀ maxAttempts, 1 ≤ maxAttempts → ∀ as t,
      Runs.exec (step maxAttempts) emptyFrontier as = some t →
        Runs.Throughout (step maxAttempts) (Bounded maxAttempts) emptyFrontier as := by
  intro h
  have hlast : (Runs.exec (step 1) emptyFrontier crashRun).map
      (fun s => s.rows.map fun r => handedOut s r.id) = some [2] := by decide
  obtain ⟨t, ht, hrows⟩ := Option.map_eq_some_iff.mp hlast
  have hbound := h 1 (by decide) crashRun t ht crashRun [] t (by simp) ht
  have hin : 2 ∈ t.rows.map fun r => handedOut t r.id := by
    rw [hrows]
    exact List.mem_singleton_self _
  obtain ⟨r, hr, he⟩ := List.mem_map.mp hin
  have hle := (hbound r hr).1
  omega

end Newsintel.Articles
