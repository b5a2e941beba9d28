import Newsintel.Articles.FlushedCandidate
import Newsintel.Lib.UnlockedWrites

/-!
# The lease columns of a candidate under unlocked completions

Every repository operation on one row, loaded and flushed at different moments. A lease
checks and writes the row under its lock. A cleanup takes the ids of one snapshot and writes
the rows as they are by then.
-/

namespace Newsintel.Articles

open ArticleStore (setColumn)
open UnlockedWrites

/-- The operations that end a processing run. -/
inductive Completion where
  | success (articleId : Uuid) (completedAt : Timestamp)
  | failure (completedAt : Timestamp) (errorType errorMessage : Text)
      (retryAt : Option Timestamp) (terminal : Bool)
  | rejected (rejectedAt : Timestamp) (reason message : Text)

namespace Completion

/-- The attributes after `complete_success`, `complete_failure` or `reject_before_fetch`. -/
def assign : Completion → UrlCandidateModel → UrlCandidateModel
  | success articleId completedAt => completeSuccess articleId completedAt
  | failure completedAt errorType errorMessage retryAt terminal =>
    completeFailure completedAt errorType errorMessage retryAt terminal
  | rejected rejectedAt reason message => rejectBeforeFetch rejectedAt reason message

/-- The state it assigns. -/
def state : Completion → UrlCandidateState
  | success .. => .processed
  | failure _ _ _ _ terminal => failureState terminal
  | rejected .. => .rejected

end Completion

inductive CandidateOp where
  | observeDiscovery (d : Discovery)
  | leaseDueCandidates (workerId : Text) (now : Timestamp) (leaseSeconds : ℕ)
  | startFetch (workerId : Text) (startedAt : Timestamp)
  | updateProcessingStage (stage : ArticleProcessingStage) (occurredAt : Timestamp)
      (details : StageDetails)
  | complete (c : Completion)
  | cleanupOldJobs (c : Cleanup)

/-- The row after the transaction, whose snapshot is `loaded`. -/
def writeCandidate (op : CandidateOp) (loaded current : UrlCandidateModel) : UrlCandidateModel :=
  match op with
  | .observeDiscovery d => flushRow loaded (updateCandidateJobMetadata d loaded) current
  | .leaseDueCandidates workerId now leaseSeconds =>
    if leaseDue now current then leaseRow workerId now leaseSeconds current else current
  | .startFetch workerId startedAt => flushRow loaded (startFetch workerId startedAt loaded) current
  | .updateProcessingStage stage occurredAt details =>
    flushRow loaded (updateProcessingStage stage occurredAt details loaded) current
  | .complete c => flushRow loaded (c.assign loaded) current
  | .cleanupOldJobs c => if staleCandidate c loaded then cleanupRow c current else current

/-- `lease_owner` and `lease_expires_at` are not null exactly when the state is leased. -/
structure LeaseConsistent (r : UrlCandidateModel) : Prop where
  owner : r.leaseOwner.isSome = true ↔ r.state = .leased
  expiry : r.leaseExpiresAt.isSome = true ↔ r.state = .leased

/-- In addition: from some time on the lease query matches a pending row that nobody
changes, and it never matches one that is done. -/
structure NotStranded (r : UrlCandidateModel) : Prop extends LeaseConsistent r where
  pending : r.state.pending = true → ∃ t, ∀ now, t ≤ now → leaseDue now r = true
  terminal : r.state.terminal = true → ∀ now, leaseDue now r = false

theorem LeaseConsistent.notStranded {r : UrlCandidateModel} (h : LeaseConsistent r) :
    NotStranded r := by
  refine ⟨h, ?_, ?_⟩
  · intro hpending
    cases hstate : r.state with
    | leased =>
      obtain ⟨expiry, hexpiry⟩ := Option.isSome_iff_exists.mp (h.expiry.mpr hstate)
      refine ⟨expiry + 1, ?_⟩
      intro now hnow
      rw [leaseDue, decide_eq_true_eq]
      exact .inr ⟨hstate, expiry, hexpiry, Int.lt_of_add_one_le hnow⟩
    | ready =>
      refine ⟨r.nextFetchAt, ?_⟩
      intro now hnow
      rw [leaseDue, decide_eq_true_eq]
      exact .inl ⟨.inl hstate, hnow⟩
    | retry =>
      refine ⟨r.nextFetchAt, ?_⟩
      intro now hnow
      rw [leaseDue, decide_eq_true_eq]
      exact .inl ⟨.inr hstate, hnow⟩
    | _ =>
      rw [hstate] at hpending
      cases hpending
  · intro hterminal now
    rw [leaseDue, decide_eq_false_iff_not]
    rintro (⟨hstate | hstate, -⟩ | ⟨hstate, -⟩) <;>
      rw [hstate] at hterminal <;> cases hterminal

/-! ### What each operation does to the three columns -/

/-- The three columns that the operations must keep in step. -/
def leaseColumns (r : UrlCandidateModel) : UrlCandidateState × Option Text × Option Timestamp :=
  (r.state, r.leaseOwner, r.leaseExpiresAt)

theorem leaseConsistent_iff {r : UrlCandidateModel} {state : UrlCandidateState}
    {owner : Option Text} {expiry : Option Timestamp} (h : leaseColumns r = (state, owner, expiry)) :
    LeaseConsistent r ↔
      (owner.isSome = true ↔ state = .leased) ∧ (expiry.isSome = true ↔ state = .leased) := by
  simp only [leaseColumns, Prod.mk.injEq] at h
  obtain ⟨rfl, rfl, rfl⟩ := h
  exact ⟨fun hr => ⟨hr.owner, hr.expiry⟩, fun hr => ⟨hr.1, hr.2⟩⟩

theorem leaseConsistent_congr {r r' : UrlCandidateModel} (h : leaseColumns r = leaseColumns r') :
    LeaseConsistent r ↔ LeaseConsistent r' := by
  rw [leaseConsistent_iff h, ← leaseConsistent_iff rfl]

/- A row that is not leased has neither column. -/
theorem LeaseConsistent.cleared {r : UrlCandidateModel} (h : LeaseConsistent r)
    (hstate : r.state ≠ .leased) : r.leaseOwner = none ∧ r.leaseExpiresAt = none := by
  rw [← Option.not_isSome_iff_eq_none, ← Option.not_isSome_iff_eq_none, h.owner, h.expiry]
  exact ⟨hstate, hstate⟩

theorem flushRow_leaseColumns (loaded assigned current : UrlCandidateModel) :
    leaseColumns (flushRow loaded assigned current) =
      (setColumn loaded.state assigned.state current.state,
        setColumn loaded.leaseOwner assigned.leaseOwner current.leaseOwner,
        setColumn loaded.leaseExpiresAt assigned.leaseExpiresAt current.leaseExpiresAt) := rfl

/- A flush of attributes that leave the three columns alone leaves them alone in the row. -/
theorem flushRow_leaseColumns_of_eq {loaded assigned current : UrlCandidateModel}
    (h : leaseColumns assigned = leaseColumns loaded) :
    leaseColumns (flushRow loaded assigned current) = leaseColumns current := by
  obtain ⟨hstate, howner, hexpiry⟩ : assigned.state = loaded.state ∧
      assigned.leaseOwner = loaded.leaseOwner ∧
        assigned.leaseExpiresAt = loaded.leaseExpiresAt := by
    simpa [leaseColumns] using h
  rw [flushRow_leaseColumns, hstate, howner, hexpiry]
  simp only [setColumn, if_true]
  rfl

theorem Completion.assign_leaseColumns (c : Completion) (r : UrlCandidateModel) :
    leaseColumns (c.assign r) = (c.state, none, none) := by
  cases c <;>
    simp only [Completion.assign, completeSuccess, completeFailure, rejectBeforeFetch,
      leaseColumns, markStage, writeDuration] <;>
    cases r.processingStartedAt <;> rfl

theorem Completion.state_ne_leased (c : Completion) : c.state ≠ .leased := by
  cases c with
  | failure _ _ _ _ terminal => cases terminal <;> simp [Completion.state, failureState]
  | _ => simp [Completion.state]

theorem leaseRow_consistent (workerId : Text) (now : Timestamp) (leaseSeconds : ℕ)
    (r : UrlCandidateModel) : LeaseConsistent (leaseRow workerId now leaseSeconds r) :=
  ⟨iff_of_true rfl rfl, iff_of_true rfl rfl⟩

theorem cleanupRow_consistent (c : Cleanup) (r : UrlCandidateModel) :
    LeaseConsistent (cleanupRow c r) := by
  have hstate : (cleanupRow c r).state ≠ .leased := by
    show (if c.permanentFailure then UrlCandidateState.failed else .rejected) ≠ .leased
    cases c.permanentFailure <;> decide
  exact ⟨iff_of_false Bool.false_ne_true hstate, iff_of_false Bool.false_ne_true hstate⟩

theorem admittedRow_consistent (d : Discovery) : LeaseConsistent (admittedRow d) :=
  ⟨iff_of_false Bool.false_ne_true (by simp [admittedRow]),
    iff_of_false Bool.false_ne_true (by simp [admittedRow])⟩

/- A completion goes wrong exactly when the row has been leased since it was loaded unleased. -/
theorem complete_consistent_iff {c : Completion} {loaded current : UrlCandidateModel}
    (hloaded : LeaseConsistent loaded) (hcurrent : LeaseConsistent current) :
    LeaseConsistent (writeCandidate (.complete c) loaded current) ↔
      (current.state = .leased → loaded.state = .leased ∨ c.state = loaded.state) := by
  have hcolumns := c.assign_leaseColumns loaded
  simp only [leaseColumns, Prod.mk.injEq] at hcolumns
  obtain ⟨hstate, howner, hexpiry⟩ := hcolumns
  have hflush : leaseColumns (writeCandidate (.complete c) loaded current) =
      (setColumn loaded.state c.state current.state,
        setColumn loaded.leaseOwner none current.leaseOwner,
        setColumn loaded.leaseExpiresAt none current.leaseExpiresAt) := by
    rw [writeCandidate, flushRow_leaseColumns, hstate, howner, hexpiry]
  have hcompleted := c.state_ne_leased
  rw [leaseConsistent_iff hflush]
  by_cases hleased : loaded.state = .leased
  · obtain ⟨owner, howner⟩ := Option.isSome_iff_exists.mp (hloaded.owner.mpr hleased)
    obtain ⟨expiry, hexpiry⟩ := Option.isSome_iff_exists.mp (hloaded.expiry.mpr hleased)
    rw [howner, hexpiry, hleased]
    simp [setColumn, hcompleted]
  · obtain ⟨howner, hexpiry⟩ := hloaded.cleared hleased
    rw [howner, hexpiry]
    simp only [setColumn, if_true, hleased, false_or]
    by_cases hsame : c.state = loaded.state
    · rw [if_pos hsame]
      exact iff_of_true ⟨hcurrent.owner, hcurrent.expiry⟩ fun _ => hsame
    · rw [if_neg hsame, hcurrent.owner, hcurrent.expiry]
      simp [hsame, hcompleted]

theorem flushRow_consistent {loaded assigned current : UrlCandidateModel}
    (hcurrent : LeaseConsistent current) (h : leaseColumns assigned = leaseColumns loaded) :
    LeaseConsistent (flushRow loaded assigned current) :=
  (leaseConsistent_congr (flushRow_leaseColumns_of_eq h)).mpr hcurrent

theorem writeCandidate_consistent {op : CandidateOp} {loaded current : UrlCandidateModel}
    (hcurrent : LeaseConsistent current) (hop : ∀ c, op ≠ .complete c) :
    LeaseConsistent (writeCandidate op loaded current) := by
  cases op with
  | observeDiscovery d =>
    apply flushRow_consistent hcurrent
    rfl
  | leaseDueCandidates workerId now leaseSeconds =>
    rw [writeCandidate]
    split
    · exact leaseRow_consistent workerId now leaseSeconds current
    · exact hcurrent
  | startFetch workerId startedAt =>
    apply flushRow_consistent hcurrent
    rfl
  | updateProcessingStage stage occurredAt details =>
    apply flushRow_consistent hcurrent
    rfl
  | complete c => exact absurd rfl (hop c)
  | cleanupOldJobs c =>
    rw [writeCandidate]
    split
    · exact cleanupRow_consistent c current
    · exact hcurrent

/-! ### Runs -/

section runs

variable {d : Discovery} {s s' t : SharedRow CandidateOp UrlCandidateModel}
  {e : Event CandidateOp} {events : List (Event CandidateOp)}

/-- A completion that loaded the row unleased, and assigns a state of its own, is not
flushed once the row is leased. -/
def LeaseStands (s : SharedRow CandidateOp UrlCandidateModel) : Event CandidateOp → Prop
  | .load _ => True
  | .flush place => ∀ t ∈ s.reading[place]?, ∀ c, t.op = .complete c →
      s.committed.state = .leased → t.loaded.state = .leased ∨ c.state = t.loaded.state

/-- Every transaction has loaded consistent columns. -/
def LoadsConsistent (s : SharedRow CandidateOp UrlCandidateModel) : Prop :=
  ∀ t ∈ s.reading, LeaseConsistent t.loaded

theorem step_loadsConsistent (hloads : LoadsConsistent s) (hs : LeaseConsistent s.committed)
    (h : rowStep writeCandidate s e = some s') : LoadsConsistent s' := by
  cases e with
  | load op =>
    cases h
    intro t ht
    rcases List.mem_append.mp ht with ht | ht
    · exact hloads t ht
    · rw [List.mem_singleton.mp ht]
      exact hs
  | flush place =>
    obtain ⟨t, -, rfl⟩ := Option.map_eq_some_iff.mp h
    intro t' ht'
    exact hloads t' (List.mem_of_mem_eraseIdx ht')

theorem step_consistent_iff (hloads : LoadsConsistent s) (hs : LeaseConsistent s.committed)
    (h : rowStep writeCandidate s e = some s') :
    LeaseConsistent s'.committed ↔ LeaseStands s e := by
  cases e with
  | load op =>
    cases h
    exact iff_of_true hs trivial
  | flush place =>
    obtain ⟨t, ht, rfl⟩ := Option.map_eq_some_iff.mp h
    have hloaded := hloads t (List.mem_of_getElem? ht)
    simp only [LeaseStands, ht, Option.mem_def, Option.some.injEq, forall_eq']
    by_cases hop : ∃ c, t.op = .complete c
    · obtain ⟨c, hc⟩ := hop
      rw [hc, complete_consistent_iff hloaded hs]
      simp
    · rw [not_exists] at hop
      exact iff_of_true (writeCandidate_consistent hs hop) fun c hc => absurd hc (hop c)

/- Exact condition for a candidate never to be stranded. -/
theorem notStranded_iff
    (h : Runs.exec (rowStep writeCandidate) (untouched (admittedRow d)) events = some t) :
    Runs.Throughout (rowStep writeCandidate) (fun s => NotStranded s.committed)
        (untouched (admittedRow d)) events ↔
      Runs.Every (rowStep writeCandidate) LeaseStands (untouched (admittedRow d)) events := by
  have hstart : LoadsConsistent (untouched (admittedRow d)) := by
    intro t ht
    cases ht
  refine Runs.throughout_iff_every hstart (admittedRow_consistent d).notStranded ?_ ?_ h
  · intro m a n hloads hm _ hstep
    exact step_loadsConsistent hloads hm.toLeaseConsistent hstep
  · intro m a n hloads hm hstep
    rw [← step_consistent_iff hloads hm.toLeaseConsistent hstep]
    exact ⟨fun hn => hn.toLeaseConsistent, fun hn => hn.notStranded⟩

/- In particular when each transaction is flushed before another one commits. -/
theorem notStranded_of_serial
    (h : Runs.exec (rowStep writeCandidate) (untouched (admittedRow d)) events = some t)
    (hserial : Runs.Every (rowStep writeCandidate)
      (fun s e => ∀ place, e = .flush place → ∀ t ∈ s.reading[place]?, t.loaded = s.committed)
      (untouched (admittedRow d)) events) : NotStranded t.committed := by
  have hstands : Runs.Every (rowStep writeCandidate) LeaseStands (untouched (admittedRow d))
      events := by
    intro pre e post m hm he
    cases e with
    | load op => trivial
    | flush place =>
      intro t ht c _ hleased
      rw [hserial pre (.flush place) post m hm he place rfl t ht]
      exact .inl hleased
  exact (notStranded_iff h).mpr hstands events [] t (List.append_nil events).symm h

end runs

/-! ### A late completion -/

/-- A failed candidate is leased again between the load and the flush of a late success. -/
def lateSuccess : List (Event CandidateOp) :=
  [.load (.leaseDueCandidates "a".toList 0 120), .flush 0,
    .load (.leaseDueCandidates "b".toList (seconds 200) 120), .flush 0,
    .load (.complete (.failure (seconds 210) [] [] (some (seconds 300)) false)), .flush 0,
    .load (.complete (.success 5 (seconds 310))),
    .load (.leaseDueCandidates "c".toList (seconds 310) 120), .flush 1,
    .flush 0]

/- Its first six events. -/
theorem retriedStory_notStranded :
    ∃ t, Runs.exec (rowStep writeCandidate) (untouched (admittedRow storyDiscovery))
        (lateSuccess.take 6) = some t ∧
      (Runs.Throughout (rowStep writeCandidate) (fun s => NotStranded s.committed)
          (untouched (admittedRow storyDiscovery)) (lateSuccess.take 6) ↔
        Runs.Every (rowStep writeCandidate) LeaseStands (untouched (admittedRow storyDiscovery))
          (lateSuccess.take 6)) :=
  ⟨_, rfl, notStranded_iff rfl⟩

/- The processed row keeps the lease of the third worker. -/
theorem lateSuccess_keepsLease :
    ¬ ∀ (d : Discovery) (events : List (Event CandidateOp))
      (t : SharedRow CandidateOp UrlCandidateModel),
      Runs.exec (rowStep writeCandidate) (untouched (admittedRow d)) events = some t →
        NotStranded t.committed := by
  intro h
  have howner := (h storyDiscovery lateSuccess _ rfl).owner
  revert howner
  decide

end Newsintel.Articles
