import Newsintel.Articles.CandidateRuns

/-!
# Terminal candidate states and lost leases

`complete_success`, `complete_failure` and `reject_before_fetch` look the row up
by id and write its state without reading the state or the lease columns, while
`lease_due_candidates` and `cleanup_old_jobs` only touch pending rows. A run
keeps terminal states and fences lost leases when each completion comes from the
latest copy of its row and does not turn one terminal state into another.
-/

namespace Newsintel.Articles

/-- State written by a completion. -/
def Step.outcome? (maxAttempts : ℕ) : Step → Option UrlCandidateState
  | .completeSuccess .. => some .processed
  | .recordFailure g nonRetryable .. =>
      some (failureState (recordsTerminal maxAttempts g.candidate nonRetryable))
  | .rejectBeforeFetch .. => some .rejected
  | _ => none

/-- The row has been leased again after this copy was handed out. -/
def TakenOver (s : Frontier) (g : Grant) : Prop :=
  ∃ g' ∈ s.grants, g'.candidate.id = g.candidate.id ∧
    g.candidate.attemptCount < g'.candidate.attemptCount

/-- What a run owes its candidates: a terminal state stays, and a completion
through a copy that has been taken over leaves the row as it is. -/
structure Settled (maxAttempts : ℕ) (as : List Step) : Prop where
  final : ∀ pre mid post m m', as = pre ++ (mid ++ post) →
    Runs.exec (step maxAttempts) emptyFrontier pre = some m →
    Runs.exec (step maxAttempts) m mid = some m' →
    ∀ r ∈ m.rows, r.state.terminal = true → ∃ r' ∈ m'.rows, r'.id = r.id ∧ r'.state = r.state
  fenced : ∀ pre a post m m', as = pre ++ a :: post →
    Runs.exec (step maxAttempts) emptyFrontier pre = some m → step maxAttempts m a = some m' →
    ∀ g o, a.grant? = some g → a.outcome? maxAttempts = some o → TakenOver m g →
    ∀ r ∈ m.rows, r.id = g.candidate.id → r ∈ m'.rows

/-- A completion holds the lease: the row has not been leased since the copy was
handed out, and if it is terminal already the completion repeats its state. -/
def holdsLease (maxAttempts : ℕ) (s : Frontier) (a : Step) : Bool :=
  match a.grant?, a.outcome? maxAttempts with
  | some g, some o => s.rows.all fun r =>
      r.id != g.candidate.id ||
        (r.attemptCount == g.candidate.attemptCount && (r.state.pending || r.state == o))
  | _, _ => true

variable {maxAttempts : ℕ} {s s' : Frontier} {a : Step} {g : Grant} {o : UrlCandidateState}

theorem holdsLease_row (h : holdsLease maxAttempts s a = true) (hg : a.grant? = some g)
    (ho : a.outcome? maxAttempts = some o) {r : UrlCandidateModel} (hr : r ∈ s.rows)
    (he : r.id = g.candidate.id) :
    r.attemptCount = g.candidate.attemptCount ∧ (r.state.terminal = true → r.state = o) := by
  simp only [holdsLease, hg, ho, List.all_eq_true] at h
  have hrow := h r hr
  simp only [he, bne_self_eq_false, Bool.false_or, Bool.and_eq_true, beq_iff_eq,
    Bool.or_eq_true] at hrow
  refine ⟨hrow.1, ?_⟩
  intro ht
  rcases hrow.2 with hp | hs
  · simp [UrlCandidateState.terminal, hp] at ht
  · exact hs

/- Leasing and cleanup only pick pending rows; the stage writes and the metadata
update leave the state alone; a completion writes its outcome. -/
theorem rowAfter_terminal (hC : holdsLease maxAttempts s a = true) {r : UrlCandidateModel}
    (hr : r ∈ s.rows) (ht : r.state.terminal = true) :
    (rowAfter maxAttempts s a r).state = r.state := by
  have hnp : r.state.pending = false := by simpa [UrlCandidateState.terminal] using ht
  cases a with
  | observeDiscovery d => simp only [rowAfter]; split <;> rfl
  | leaseDueCandidates w now limit secs locked =>
    simp only [rowAfter]
    split
    · rename_i hp
      have hpend := leaseDue_state (leaseSelect_mem hp).2
      simp [hnp] at hpend
    · rfl
  | startFetch g t => simp only [rowAfter]; split <;> rfl
  | updateStage g stage t d => simp only [rowAfter]; split <;> rfl
  | completeSuccess g article t =>
    simp only [rowAfter]
    split
    · rename_i he
      have hs := (holdsLease_row hC rfl rfl hr he).2 ht
      simp [completeSuccess, hs]
    · rfl
  | recordFailure g nonRetryable ty msg retryAt t =>
    simp only [rowAfter]
    split
    · rename_i he
      have hs := (holdsLease_row hC rfl rfl hr he).2 ht
      simp [recordFailureRow, completeFailure, hs]
    · rfl
  | rejectBeforeFetch g reason message t =>
    simp only [rowAfter]
    split
    · rename_i he
      have hs := (holdsLease_row hC rfl rfl hr he).2 ht
      simp [rejectBeforeFetch, hs]
    · rfl
  | cleanupOldJobs c =>
    simp only [rowAfter]
    split
    · rename_i hst
      simp [staleCandidate, hnp] at hst
    · rfl

/-- Rows of `m` in a terminal state are rows of `n` in the same state. -/
def KeepsTerminal (m n : Frontier) : Prop :=
  ∀ r ∈ m.rows, r.state.terminal = true → ∃ r' ∈ n.rows, r'.id = r.id ∧ r'.state = r.state

theorem keepsTerminal_refl (m : Frontier) : KeepsTerminal m m :=
  fun r hr _ => ⟨r, hr, rfl, rfl⟩

theorem keepsTerminal_trans (m n k : Frontier) (hmn : KeepsTerminal m n)
    (hnk : KeepsTerminal n k) : KeepsTerminal m k := by
  intro r hr ht
  obtain ⟨r', hr', hid, hst⟩ := hmn r hr ht
  obtain ⟨q, hq, hqid, hqst⟩ := hnk r' hr' (hst ▸ ht)
  exact ⟨q, hq, hqid.trans hid, hqst.trans hst⟩

theorem step_keepsTerminal (hC : holdsLease maxAttempts s a = true)
    (h : step maxAttempts s a = some s') : KeepsTerminal s s' := by
  intro r hr ht
  refine ⟨rowAfter maxAttempts s a r, ?_, rowAfter_id r, rowAfter_terminal hC hr ht⟩
  rw [(step_some h).2.2.1]
  exact List.mem_append_left _ (List.mem_map_of_mem hr)

/- The latest copy of a row carries the row's attempt number, so a completion
that holds the lease has not been taken over. -/
theorem not_takenOver (hc : Coherent s) (hC : holdsLease maxAttempts s a = true)
    (hg : a.grant? = some g) (ho : a.outcome? maxAttempts = some o)
    {r : UrlCandidateModel} (hr : r ∈ s.rows) (he : r.id = g.candidate.id) :
    ¬ TakenOver s g := by
  rintro ⟨g', hg', hid, hlt⟩
  have hle := hc.older g' hg' r hr (he.trans hid.symm)
  have heq := (holdsLease_row hC hg ho hr he).1
  omega

theorem settled_of_holdsLease (maxAttempts : ℕ) (as : List Step)
    (h : Runs.Every (step maxAttempts) (fun m a => holdsLease maxAttempts m a = true)
      emptyFrontier as) : Settled maxAttempts as := by
  constructor
  · intro pre mid post m m' has hpre hmid
    have hevery := Runs.every_left (Runs.every_right hpre (has ▸ h))
    exact Runs.relates_of_every (I := Coherent) (reachable_coherent hpre) keepsTerminal_refl
      keepsTerminal_trans
      (fun _ _ _ hc hC hs => ⟨step_coherent hc hs, step_keepsTerminal hC hs⟩) hevery hmid
  · intro pre a post m m' has hpre _ g o hg ho htaken r hr he
    have hC := h pre a post m has hpre
    exact absurd htaken (not_takenOver (reachable_coherent hpre) hC hg ho hr he)

/-! ### A late completion -/

/-- The fetch of `a` times out after all that and is recorded as a failure. -/
def lateFailure : Step :=
  .recordFailure (sampleGrant "a".toList 1) false "ReadTimeout".toList [] (seconds 400)
    (seconds 204)

theorem overtakenRun_settled : Settled 3 overtakenRun :=
  settled_of_holdsLease 3 overtakenRun (Runs.every_of_everyB (by decide))

theorem late_failure_not_settled :
    ¬ ∀ maxAttempts as, (Runs.exec (step maxAttempts) emptyFrontier as).isSome = true →
      Settled maxAttempts as := by
  intro h
  have hs := h 3 (overtakenRun ++ [lateFailure]) (by decide)
  have hbefore : (Runs.exec (step 3) emptyFrontier overtakenRun).map
      (fun s => s.rows.map fun r => (r.id, r.state)) = some [(1, .processed)] := by decide
  have hafter : (Runs.exec (step 3) emptyFrontier (overtakenRun ++ [lateFailure])).map
      (fun s => s.rows.map fun r => (r.id, r.state)) = some [(1, .retry)] := by decide
  obtain ⟨m', hm', hrows'⟩ := Option.map_eq_some_iff.mp hafter
  obtain ⟨m, hm, hmid⟩ := Runs.exec_append_some.mp hm'
  rw [hm, Option.map_some, Option.some.injEq] at hbefore
  have hin : (1, UrlCandidateState.processed) ∈ m.rows.map fun r => (r.id, r.state) := by
    rw [hbefore]
    exact List.mem_singleton_self _
  obtain ⟨r, hr, hre⟩ := List.mem_map.mp hin
  obtain ⟨hid, hst⟩ := Prod.mk.inj hre
  obtain ⟨r', hr', -, hst'⟩ := hs.final _ _ [] m m' (by simp) hm hmid r hr (by rw [hst]; rfl)
  have hmem : (r'.id, r'.state) ∈ m'.rows.map fun r => (r.id, r.state) :=
    List.mem_map_of_mem (f := fun r : UrlCandidateModel => (r.id, r.state)) hr'
  rw [hrows', List.mem_singleton, Prod.mk.injEq] at hmem
  exact absurd (hst.symm.trans (hst'.symm.trans hmem.2)) (by decide)

end Newsintel.Articles
