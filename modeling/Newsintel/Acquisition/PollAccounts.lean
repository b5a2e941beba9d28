import Newsintel.Acquisition.PollCounters

/-!
# Accounts of a poll (polling.py:164-372, polling_repository.py:130-203)

The admissions of a poll commit one by one, and the counters live in the loop. A poll that raises
behind some of them records a completion with zeros.
-/

namespace Newsintel.Acquisition

open PyText Visits Articles

/-! ### Created rows -/

/-- The rows whose id was not there before. -/
def newRows {α : Type} (id : α → Uuid) (before after : List α) : ℕ :=
  (after.filter fun r => id r ∉ before.map id).length

/-- How many rows the committed calls of a run have created. -/
structure CreatedRows where
  candidates : ℕ
  discoveries : ℕ
  channels : ℕ
  deriving DecidableEq

def noRows : CreatedRows := ⟨0, 0, 0⟩

/-- One more transaction. -/
def CreatedRows.add (before after : Database) (rows : CreatedRows) : CreatedRows where
  candidates := rows.candidates + newRows (·.id) before.candidates after.candidates
  discoveries := rows.discoveries + newRows (·.id) before.discoveries after.discoveries
  channels := rows.channels + newRows (·.id) before.channels after.channels

/-- A call, with the rows that its transaction creates behind those of other workers. -/
def audit {α : Type} (turns : ℕ → Turn) (s : Service × CreatedRows)
    (call : Except PyError α × Service) : Except PyError α × (Service × CreatedRows) :=
  (call.1, call.2, s.2.add ((turns s.1.calls).others s.1.db) call.2.db)

/-- The service with a count of the rows that it creates. -/
def auditedService (ext : Externals) (turns : ℕ → Turn) :
    DiscoveryAdmission (Service × CreatedRows) where
  observeDiscovery c s := audit turns s ((acquisitionService ext turns).observeDiscovery c s.1)
  createChannel c s := audit turns s ((acquisitionService ext turns).createChannel c s.1)

section rows

variable {α : Type} {id : α → Uuid} {rows : List α}

theorem newRows_same {rows' : List α} (h : rows'.map id = rows.map id) :
    newRows id rows rows' = 0 := by
  rw [newRows, List.length_eq_zero_iff, List.filter_eq_nil_iff]
  intro r hr
  rw [decide_eq_true_eq, not_not, ← h]
  exact List.mem_map_of_mem hr

theorem newRows_append {r : α} (h : id r ∉ rows.map id) : newRows id rows (rows ++ [r]) = 1 := by
  have hold : newRows id rows rows = 0 := newRows_same rfl
  have hnew : [r].filter (fun r => id r ∉ rows.map id) = [r] :=
    List.filter_eq_self.mpr (List.forall_mem_singleton.mpr (decide_eq_true h))
  rw [newRows] at hold ⊢
  rw [List.filter_append, List.length_append, hold, hnew, List.length_singleton]

end rows

section calls

variable {ext : Externals} {turn : Turn} {db db' : Database}

theorem admitCandidate_created {d : Discovery} {candidates candidates' : List UrlCandidateModel}
    {row : UrlCandidateModel} {created : Bool}
    (h : admitCandidate d candidates = .ok (row, created, candidates')) :
    newRows (·.id) candidates candidates' = created.toNat := by
  obtain ⟨rfl, found, _, rfl, rfl⟩ | ⟨rfl, _, hfresh, rfl, rfl⟩ := admitCandidate_cases h
  · have hids : ∀ r, (updateCandidateJobMetadata d r).id = r.id := fun _ => rfl
    exact newRows_same (Table.map_update hids)
  · exact newRows_append hfresh

theorem addDiscoveryIfAbsent_created {d : UrlDiscoveryModel}
    {discoveries discoveries' : List UrlDiscoveryModel} {created : Bool}
    (h : addDiscoveryIfAbsent d discoveries = .ok (created, discoveries')) :
    newRows (·.id) discoveries discoveries' = created.toNat := by
  obtain ⟨rfl, _, rfl⟩ | ⟨rfl, _, hfresh, rfl⟩ := addDiscoveryIfAbsent_cases h
  · exact newRows_same rfl
  · exact newRows_append hfresh

/- What an answered `observe_discovery` creates is what it answers. -/
theorem observeDiscovery_created {command : ObserveDiscoveryCommand}
    {answer : DiscoveryObservationResult} {rows : CreatedRows}
    (h : observeDiscovery ext turn command db = .ok (answer, db')) :
    rows.add db db' =
      { rows with
        candidates := rows.candidates + answer.candidateCreated.toNat
        discoveries := rows.discoveries + answer.channelObservationCreated.toNat } := by
  obtain ⟨_, _, _, _, _, hadmits, hadd, hchannels⟩ := observeDiscovery_parts h
  rw [CreatedRows.add, admitCandidate_created hadmits, addDiscoveryIfAbsent_created hadd, hchannels,
    newRows_same rfl]
  rfl

theorem createChannel_created {command : CreateChannelCommand} {rows : CreatedRows}
    (h : createChannel ext turn command db = .ok ((), db')) :
    rows.add db db' = { rows with channels := rows.channels + 1 } := by
  obtain ⟨_, _, _, hfresh, rfl⟩ := createChannel_rows h
  rw [CreatedRows.add, newRows_same rfl, newRows_same rfl, newRows_append hfresh]
  rfl

theorem add_same (rows : CreatedRows) (db : Database) : rows.add db db = rows := by
  rw [CreatedRows.add, newRows_same rfl, newRows_same rfl, newRows_same rfl]
  rfl

end calls

/-! ### Audited calls -/

section audited

variable {ext : Externals} {turns : ℕ → Turn} {α : Type}
  {body : Turn → Database → Except PyError (α × Database)} {s s' : Service × CreatedRows}
  {n n' : PollCounts}

theorem audit_answered {a : α} (h : audit turns s (transact turns body s.1) = (.ok a, s')) :
    body (turns s.1.calls) ((turns s.1.calls).others s.1.db) = .ok (a, s'.1.db) ∧
      s'.2 = s.2.add ((turns s.1.calls).others s.1.db) s'.1.db := by
  obtain ⟨hanswer, rfl⟩ := (Prod.mk.injEq ..).mp h
  exact ⟨transact_answered (Prod.ext hanswer rfl), rfl⟩

/- A call that raises creates nothing. -/
theorem audit_raised {e : PyError} (h : audit turns s (transact turns body s.1) = (.error e, s')) :
    s'.2 = s.2 := by
  obtain ⟨hanswer, rfl⟩ := (Prod.mk.injEq ..).mp h
  have hraised : transact turns body s.1 = (.error e, (transact turns body s.1).2) :=
    Prod.ext hanswer rfl
  simp only
  rw [transact_raised hraised]
  exact add_same s.2 _

/- The counters of the loop move with the rows. -/
theorem submitDiscovery_accounts {c : ObserveDiscoveryCommand}
    (h : submitDiscovery (auditedService ext turns) c n s = (.ok n', s'))
    (hn : s.2 = ⟨n.admitted, n.observations, 0⟩) : s'.2 = ⟨n'.admitted, n'.observations, 0⟩ := by
  obtain ⟨answer, hanswer, hadmitted, hobservations⟩ := submitDiscovery_ok h
  obtain ⟨hrun, hrows⟩ := audit_answered hanswer
  rw [hrows, observeDiscovery_created hrun, hn, hadmitted, hobservations]

theorem submitDiscovery_refused {c : ObserveDiscoveryCommand} {e : PyError}
    (h : submitDiscovery (auditedService ext turns) c n s = (.error e, s')) : s'.2 = s.2 := by
  unfold submitDiscovery at h
  split at h
  · rename_i t hanswer
    obtain ⟨_, rfl⟩ := (Prod.mk.injEq ..).mp h
    exact audit_raised hanswer
  · cases h

theorem submitChannel_accounts {c : CreateChannelCommand}
    (h : submitChannel (auditedService ext turns) c n s = (.ok n', s'))
    (hn : s.2 = ⟨0, 0, n.admitted⟩ ∧ n.observations = 0) :
    s'.2 = ⟨0, 0, n'.admitted⟩ ∧ n'.observations = 0 := by
  obtain ⟨hanswer, rfl⟩ | ⟨hanswer, rfl⟩ := submitChannel_ok h
  · obtain ⟨hrun, hrows⟩ := audit_answered hanswer
    rw [hrows, createChannel_created hrun, hn.1]
    exact ⟨rfl, hn.2⟩
  · rw [audit_raised hanswer]
    exact hn

theorem submitChannel_refused {c : CreateChannelCommand} {e : PyError}
    (h : submitChannel (auditedService ext turns) c n s = (.error e, s')) : s'.2 = s.2 := by
  unfold submitChannel at h
  split at h
  · cases h
  · cases h
  · rename_i t hanswer
    obtain ⟨_, rfl⟩ := (Prod.mk.injEq ..).mp h
    exact audit_raised hanswer

theorem submitDiscovery_audited (c : ObserveDiscoveryCommand) (n : PollCounts)
    (s : Service × CreatedRows) :
    (submitDiscovery (auditedService ext turns) c n s).1 =
        (submitDiscovery (acquisitionService ext turns) c n s.1).1 ∧
      (submitDiscovery (auditedService ext turns) c n s).2.1 =
        (submitDiscovery (acquisitionService ext turns) c n s.1).2 := by
  unfold submitDiscovery
  simp only [auditedService, audit]
  rcases (acquisitionService ext turns).observeDiscovery c s.1 with ⟨r, t⟩
  cases r <;> exact ⟨rfl, rfl⟩

theorem submitChannel_audited (c : CreateChannelCommand) (n : PollCounts)
    (s : Service × CreatedRows) :
    (submitChannel (auditedService ext turns) c n s).1 =
        (submitChannel (acquisitionService ext turns) c n s.1).1 ∧
      (submitChannel (auditedService ext turns) c n s).2.1 =
        (submitChannel (acquisitionService ext turns) c n s.1).2 := by
  unfold submitChannel
  simp only [auditedService, audit]
  rcases (acquisitionService ext turns).createChannel c s.1 with ⟨r, t⟩
  cases r with
  | ok => exact ⟨rfl, rfl⟩
  | error e => cases e <;> exact ⟨rfl, rfl⟩

end audited

/-! ### Loops -/

section loops

variable {κ : Type} {done : PollCounts → Bool}
  {submit : κ → PollCounts → Service × CreatedRows →
    Except PyError PollCounts × (Service × CreatedRows)}
  {Counts : PollCounts → CreatedRows → Prop} {last : Option PyError} {cs pre : List κ}
  {n m : PollCounts} {s t : Service × CreatedRows} {start : Service}

/-- The counters stand for the rows, and a call that raises creates none. -/
structure Accounting (done : PollCounts → Bool)
    (submit : κ → PollCounts → Service × CreatedRows →
      Except PyError PollCounts × (Service × CreatedRows))
    (Counts : PollCounts → CreatedRows → Prop) : Prop where
  start : Counts ⟨0, 0⟩ noRows
  answered : ∀ c n s n' s', submit c n s = (.ok n', s') → Counts n s.2 → Counts n' s'.2
  refused : ∀ c n s e s', submit c n s = (.error e, s') → s'.2 = s.2

/-- The loop raises behind calls that have created rows. -/
def LoopRaises (done : PollCounts → Bool)
    (submit : κ → PollCounts → Service × CreatedRows →
      Except PyError PollCounts × (Service × CreatedRows))
    (plan : List κ × Option PyError) (start : Service) : Prop :=
  ∃ pre m t, serve done submit pre ⟨0, 0⟩ (start, noRows) = some (m, t) ∧
    RaisesBehind done submit plan pre m t ∧ t.2 ≠ noRows

theorem Accounting.serve (h : Accounting done submit Counts)
    (hserve : Visits.serve done submit pre ⟨0, 0⟩ (start, noRows) = some (m, t)) :
    Counts m t.2 :=
  serve_invariant (P := fun _ n s => Counts n s.2) (k := 0)
    (fun c _ n s n' s' _ hn hsubmit => h.answered c n s n' s' hsubmit hn) hserve h.start

/- A loop that returns has counted its rows. -/
theorem Accounting.returned (h : Accounting done submit Counts)
    (hrun : drive done submit last cs ⟨0, 0⟩ (start, noRows) = (.ok m, t)) :
    Counts m t.2 ∧ ¬ LoopRaises done submit (cs, last) start := by
  constructor
  · obtain ⟨pre, _, hserve⟩ := drive_ok hrun
    exact h.serve hserve
  · rintro ⟨pre, m, t, hserve, hraises, _⟩
    obtain ⟨e, u, herror, _⟩ := drive_of_raisesBehind hserve hraises
    rw [herror] at hrun
    cases hrun

/- A loop that raises leaves the rows of the calls before. -/
theorem Accounting.raised (h : Accounting done submit Counts) {e : PyError}
    (hrun : drive done submit last cs ⟨0, 0⟩ (start, noRows) = (.error e, t)) :
    (∃ m, Counts m t.2) ∧ (t.2 = noRows ↔ ¬ LoopRaises done submit (cs, last) start) := by
  have hlast : ∀ {m u e t}, (t = u ∨ ∃ c, submit c m u = (.error e, t)) → t.2 = u.2 := by
    rintro m u e t (rfl | ⟨c, hc⟩)
    · rfl
    · exact h.refused c m u e t hc
  obtain ⟨pre, m, u, hserve, hraises, ht⟩ := drive_error hrun
  refine ⟨⟨m, hlast ht ▸ h.serve hserve⟩, ?_, ?_⟩
  · rintro hnone ⟨pre, m, u, hserve, hraises, hcreated⟩
    obtain ⟨e', t', hrun', ht'⟩ := drive_of_raisesBehind hserve hraises
    obtain ⟨_, rfl⟩ := (Prod.mk.injEq ..).mp (hrun.symm.trans hrun')
    exact hcreated ((hlast ht').symm.trans hnone)
  · intro hquiet
    by_contra hcreated
    exact hquiet ⟨pre, m, u, hserve, hraises, hlast ht ▸ hcreated⟩

end loops

/-! ### Payloads -/

section payloads

variable {svc : ChannelPollService} {ext : Externals} {turns : ℕ → Turn}
  {channel : DiscoveryChannel} {fetched : FetchResult} {start : Service}
  {t : Service × CreatedRows} {n : PollCounts}

/-- What the counters of a payload's loop count. -/
def PolledDocument.Counts : PolledDocument → PollCounts → CreatedRows → Prop
  | .index _, n, rows => rows = ⟨0, 0, n.admitted⟩ ∧ n.observations = 0
  | .feed _, n, rows | .urlset _, n, rows | .links _, n, rows =>
    rows = ⟨n.admitted, n.observations, 0⟩

/-- An item or a call raises behind calls that have created rows. -/
def PolledDocument.Raises (svc : ChannelPollService) (ext : Externals) (turns : ℕ → Turn)
    (channel : DiscoveryChannel) (fetched : FetchResult) (start : Service) :
    PolledDocument → Prop
  | .feed items =>
    LoopRaises (capReached svc) (submitDiscovery (auditedService ext turns))
      (plan (fun item => some item.url) (observeCommand svc ext channel fetched true) 0 []
        (items.map (·.polled))) start
  | .urlset entries =>
    LoopRaises (capReached svc) (submitDiscovery (auditedService ext turns))
      (plan (fun _ => (none : Option Text)) (observeCommand svc ext channel fetched true) 0 []
        (entries.map (·.polled))) start
  | .index entries =>
    LoopRaises (fun _ => false) (submitChannel (auditedService ext turns))
      (plan (fun _ => (none : Option Text)) (createCommand ext channel) 0 [] entries) start
  | .links pageLinks =>
    LoopRaises (capReached svc) (submitDiscovery (auditedService ext turns))
      (plan (fun _ => (none : Option Text)) (observeCommand svc ext channel fetched false) 0 []
        (pageLinks.map (·.polled))) start

theorem observe_accounting :
    Accounting (capReached svc) (submitDiscovery (auditedService ext turns))
      fun n rows => rows = ⟨n.admitted, n.observations, 0⟩ where
  start := rfl
  answered := fun _ _ _ _ _ h hn => submitDiscovery_accounts h hn
  refused := fun _ _ _ _ _ h => submitDiscovery_refused h

theorem index_accounting :
    Accounting (fun _ => false) (submitChannel (auditedService ext turns))
      fun n rows => rows = ⟨0, 0, n.admitted⟩ ∧ n.observations = 0 where
  start := ⟨rfl, rfl⟩
  answered := fun _ _ _ _ _ h hn => submitChannel_accounts h hn
  refused := fun _ _ _ _ _ h => submitChannel_refused h

theorem processDocument_returned {document : PolledDocument}
    (h : processDocument svc ext (auditedService ext turns) channel fetched document
      (start, noRows) = (.ok n, t)) :
    document.Counts n t.2 ∧ ¬ document.Raises svc ext turns channel fetched start := by
  cases document with
  | feed items =>
    rw [processDocument, pollFeed, visit_eq_drive] at h
    exact observe_accounting.returned h
  | urlset entries =>
    rw [processDocument, pollUrlset, visit_eq_drive] at h
    exact observe_accounting.returned h
  | index entries =>
    rw [processDocument, pollIndex, visit_eq_drive] at h
    exact index_accounting.returned h
  | links pageLinks =>
    rw [processDocument, pollLinks, visit_eq_drive] at h
    exact observe_accounting.returned h

theorem processDocument_raised {document : PolledDocument} {e : PyError}
    (h : processDocument svc ext (auditedService ext turns) channel fetched document
      (start, noRows) = (.error e, t)) :
    (∃ m, document.Counts m t.2) ∧
      (t.2 = noRows ↔ ¬ document.Raises svc ext turns channel fetched start) := by
  cases document with
  | feed items =>
    rw [processDocument, pollFeed, visit_eq_drive] at h
    exact observe_accounting.raised h
  | urlset entries =>
    rw [processDocument, pollUrlset, visit_eq_drive] at h
    exact observe_accounting.raised h
  | index entries =>
    rw [processDocument, pollIndex, visit_eq_drive] at h
    exact index_accounting.raised h
  | links pageLinks =>
    rw [processDocument, pollLinks, visit_eq_drive] at h
    exact observe_accounting.raised h

/- Counting changes no answer. -/
theorem processDocument_audited (svc : ChannelPollService) (ext : Externals) (turns : ℕ → Turn)
    (channel : DiscoveryChannel) (fetched : FetchResult) (document : PolledDocument)
    (s : Service × CreatedRows) :
    (processDocument svc ext (auditedService ext turns) channel fetched document s).1 =
      (processDocument svc ext (acquisitionService ext turns) channel fetched document s.1).1 := by
  cases document with
  | feed items =>
    simp only [processDocument, pollFeed, visit_eq_drive]
    exact (drive_project submitDiscovery_audited _ _ s).1
  | urlset entries =>
    simp only [processDocument, pollUrlset, visit_eq_drive]
    exact (drive_project submitDiscovery_audited _ _ s).1
  | index entries =>
    simp only [processDocument, pollIndex, visit_eq_drive]
    exact (drive_project submitChannel_audited _ _ s).1
  | links pageLinks =>
    simp only [processDocument, pollLinks, visit_eq_drive]
    exact (drive_project submitDiscovery_audited _ _ s).1

end payloads

/-! ### What is stored -/

/-- Columns of `channel_poll_runs`. -/
structure ChannelPollRunModel where
  id : Uuid
  channelId : Uuid
  workerId : Text
  status : PollRunStatus
  startedAt : Timestamp
  completedAt : Option Timestamp
  httpStatus : Option ℕ
  notModified : Bool
  discoveredCount : ℕ
  admittedCount : ℕ
  observationCount : ℕ
  responseBytes : ℕ
  error : Option PyError
  deriving DecidableEq

/-- The run row after `SqlAlchemyPollingRepository.complete`. -/
def completeRun (completion : PollCompletion) (row : ChannelPollRunModel) : ChannelPollRunModel :=
  { row with
    status := completion.status
    completedAt := some completion.completedAt
    httpStatus := completion.httpStatus
    notModified := completion.notModified
    discoveredCount := completion.discoveredCount
    admittedCount := completion.admittedCount
    observationCount := completion.observationCount
    responseBytes := completion.responseBytes
    error := completion.error }

/-- The event of a completion, with its payload. -/
structure SourcePollEvent where
  eventType : Text
  pollRunId : Uuid
  channelId : Uuid
  status : PollRunStatus
  httpStatus : Option ℕ
  notModified : Bool
  discoveredCount : ℕ
  admittedCount : ℕ
  observationCount : ℕ
  responseBytes : ℕ
  nextPollAt : Timestamp
  error : Option PyError
  deriving DecidableEq

def sourcePollEvent (completion : PollCompletion) : SourcePollEvent where
  eventType :=
    if completion.status = .succeeded || completion.status = .notModified then
      "source.poll.completed".toList
    else "source.poll.failed".toList
  pollRunId := completion.runId
  channelId := completion.channelId
  status := completion.status
  httpStatus := completion.httpStatus
  notModified := completion.notModified
  discoveredCount := completion.discoveredCount
  admittedCount := completion.admittedCount
  observationCount := completion.observationCount
  responseBytes := completion.responseBytes
  nextPollAt := completion.nextPollAt
  error := completion.error

/-- The two counts are those of the rows; a sitemap index admits child channels. -/
structure CountsAre (index : Prop) (rows : CreatedRows) (admitted observations : ℕ) : Prop where
  channels : index → admitted = rows.channels
  candidates : ¬ index → admitted = rows.candidates
  discoveries : observations = rows.discoveries

/-- The run row and the event of a completion both account for the rows. -/
structure Accounted (index : Prop) (rows : CreatedRows) (completion : PollCompletion)
    (row : ChannelPollRunModel) : Prop where
  run : CountsAre index rows (completeRun completion row).admittedCount
    (completeRun completion row).observationCount
  event : CountsAre index rows (sourcePollEvent completion).admittedCount
    (sourcePollEvent completion).observationCount

/-- The response has a payload that parses. -/
structure Parses (ext : Externals) (channel : DiscoveryChannel)
    (fetch : FetchRequest → Except PyError FetchResult) (fetched : FetchResult)
    (document : PolledDocument) : Prop where
  answered : fetch (pollRequest channel) = .ok fetched
  modified : fetched.notModified = false
  low : 200 ≤ fetched.statusCode
  high : fetched.statusCode < 300
  parsed : parsePayload ext channel fetched = .ok document

section polls

variable (svc : ChannelPollService) (ext : Externals) (turns : ℕ → Turn)
  (fetch : FetchRequest → Except PyError FetchResult) (channel : DiscoveryChannel) (runId : Uuid)
  (completedAt : Timestamp) (s : Service)

/-- The rows that the committed calls of a poll create. -/
def createdRows : CreatedRows :=
  (poll svc ext (auditedService ext turns) fetch channel runId completedAt (s, noRows)).2.2

/-- The poll gets to the items of a payload, and an item or a call raises behind calls that have
created rows. -/
def RaisesAfterCreating : Prop :=
  ∃ fetched document, Parses ext channel fetch fetched document ∧
    document.Raises svc ext turns channel fetched s

variable {svc ext turns fetch channel runId completedAt s} {index : Prop} {rows : CreatedRows}
  {completion : PollCompletion} {row : ChannelPollRunModel} {fetched : FetchResult}

theorem accounted_iff :
    Accounted index rows completion row ↔
      CountsAre index rows completion.admittedCount completion.observationCount :=
  ⟨fun h => h.run, fun h => ⟨h, h⟩⟩

/- The poll records what the loop over the payload returns, with zeros if it raises. -/
theorem Parses.poll_processed {σ : Type} {admission : DiscoveryAdmission σ}
    {document : PolledDocument} {s t : σ} {r : Except PyError PollCounts}
    (h : Parses ext channel fetch fetched document) (runId : Uuid) (completedAt : Timestamp)
    (hrun : processDocument svc ext admission channel fetched document s = (r, t)) :
    ∃ completion, poll svc ext admission fetch channel runId completedAt s = (completion, t) ∧
      completion.admittedCount = (r.toOption.getD ⟨0, 0⟩).admitted ∧
        completion.observationCount = (r.toOption.getD ⟨0, 0⟩).observations := by
  have hlow := h.low
  have hhigh := h.high
  have hstatus : (fetched.statusCode < 200 || 300 ≤ fetched.statusCode) = false := by
    rw [Bool.or_eq_false_iff, decide_eq_false_iff_not, decide_eq_false_iff_not]
    omega
  have hpayload : processPayload svc ext admission channel fetched s =
      (r.map fun n => (document.discovered, n), t) := by
    rw [processPayload, h.parsed]
    simp only [hrun]
  unfold poll
  simp only [h.answered, h.modified, hstatus, hpayload, Bool.false_eq_true, if_false]
  cases r with
  | error e => exact ⟨_, rfl, rfl, rfl⟩
  | ok n => exact ⟨_, rfl, rfl, rfl⟩

/- Without a payload that parses, no call is made. -/
theorem poll_unprocessed {σ : Type} (svc : ChannelPollService) (admission : DiscoveryAdmission σ)
    (runId : Uuid) (completedAt : Timestamp) (s : σ)
    (h : ∀ fetched document, ¬ Parses ext channel fetch fetched document) :
    ∃ completion, poll svc ext admission fetch channel runId completedAt s = (completion, s) ∧
      completion.admittedCount = 0 ∧ completion.observationCount = 0 := by
  unfold poll
  cases hfetched : fetch (pollRequest channel) with
  | error e => exact ⟨_, rfl, rfl, rfl⟩
  | ok fetched =>
    simp only
    split
    · exact ⟨_, rfl, rfl, rfl⟩
    · rename_i hmodified
      split
      · exact ⟨_, rfl, rfl, rfl⟩
      · rename_i hstatus
        rw [Bool.or_eq_true, decide_eq_true_eq, decide_eq_true_eq] at hstatus
        cases hparse : parsePayload ext channel fetched with
        | error e =>
          rw [processPayload, hparse]
          exact ⟨_, rfl, rfl, rfl⟩
        | ok document =>
          exact absurd ⟨hfetched, Bool.eq_false_iff.mpr hmodified, by omega, by omega, hparse⟩
            (h fetched document)

/- Zeros account for nothing but a loop without rows. -/
theorem countsAre_zero_iff {document : PolledDocument} {m : PollCounts}
    (h : document.Counts m rows) (hindex : index ↔ ∃ entries, document = .index entries) :
    CountsAre index rows 0 0 ↔ rows = noRows := by
  constructor
  · intro hcounts
    by_cases hdocument : ∃ entries, document = .index entries
    · have hchannels := hcounts.channels (hindex.mpr hdocument)
      obtain ⟨entries, rfl⟩ := hdocument
      obtain ⟨rfl, _⟩ := h
      rw [noRows, CreatedRows.mk.injEq]
      exact ⟨rfl, rfl, hchannels.symm⟩
    · have hcandidates := hcounts.candidates (mt hindex.mp hdocument)
      have hdiscoveries := hcounts.discoveries
      have hrows : rows = ⟨m.admitted, m.observations, 0⟩ := by
        cases document with
        | index entries => exact absurd ⟨entries, rfl⟩ hdocument
        | feed items => exact h
        | urlset entries => exact h
        | links pageLinks => exact h
      rw [hrows] at hcandidates hdiscoveries ⊢
      rw [noRows, CreatedRows.mk.injEq]
      exact ⟨hcandidates.symm, hdiscoveries.symm, rfl⟩
  · rintro rfl
    exact ⟨fun _ => rfl, fun _ => rfl, rfl⟩

theorem countsAre_of_counts {document : PolledDocument} {n : PollCounts}
    (h : document.Counts n rows) (hindex : index ↔ ∃ entries, document = .index entries) :
    CountsAre index rows n.admitted n.observations := by
  cases document with
  | index entries =>
    obtain ⟨rfl, hnone⟩ := h
    exact ⟨fun _ => rfl, fun hnot => absurd (hindex.mpr ⟨entries, rfl⟩) hnot, hnone⟩
  | feed items =>
    obtain rfl := h
    refine ⟨fun hsome => ?_, fun _ => rfl, rfl⟩
    obtain ⟨entries, hentries⟩ := hindex.mp hsome
    cases hentries
  | urlset items =>
    obtain rfl := h
    refine ⟨fun hsome => ?_, fun _ => rfl, rfl⟩
    obtain ⟨entries, hentries⟩ := hindex.mp hsome
    cases hentries
  | links pageLinks =>
    obtain rfl := h
    refine ⟨fun hsome => ?_, fun _ => rfl, rfl⟩
    obtain ⟨entries, hentries⟩ := hindex.mp hsome
    cases hentries

theorem Parses.index_iff {document : PolledDocument}
    (h : Parses ext channel fetch fetched document) :
    PollsIndex ext channel fetch ↔ ∃ entries, document = .index entries := by
  constructor
  · rintro ⟨fetched', entries, hfetched', hparse'⟩
    cases h.answered.symm.trans hfetched'
    exact ⟨entries, Except.ok.inj (h.parsed.symm.trans hparse')⟩
  · rintro ⟨entries, rfl⟩
    exact ⟨fetched, entries, h.answered, h.parsed⟩

theorem Parses.raises_iff {document : PolledDocument}
    (h : Parses ext channel fetch fetched document) :
    RaisesAfterCreating svc ext turns fetch channel s ↔
      document.Raises svc ext turns channel fetched s := by
  constructor
  · rintro ⟨fetched', document', h', hdocument⟩
    cases h.answered.symm.trans h'.answered
    cases h.parsed.symm.trans h'.parsed
    exact hdocument
  · intro hdocument
    exact ⟨fetched, document, h, hdocument⟩

/- The counts of a poll that gets to the items of a payload. -/
theorem Parses.countsAre_iff {document : PolledDocument} {completion : PollCompletion}
    {t : Service} (h : Parses ext channel fetch fetched document)
    (hpoll : poll svc ext (acquisitionService ext turns) fetch channel runId completedAt s =
      (completion, t)) :
    CountsAre (PollsIndex ext channel fetch)
        (createdRows svc ext turns fetch channel runId completedAt s)
        completion.admittedCount completion.observationCount ↔
      ¬ RaisesAfterCreating svc ext turns fetch channel s := by
  have hanswer := processDocument_audited svc ext turns channel fetched document (s, noRows)
  rcases hrun : processDocument svc ext (auditedService ext turns) channel fetched document
    (s, noRows) with ⟨r, u⟩
  rcases hrun' : processDocument svc ext (acquisitionService ext turns) channel fetched document
    s with ⟨r', u'⟩
  rw [hrun, hrun'] at hanswer
  obtain rfl : r = r' := hanswer
  obtain ⟨_, haudited, _⟩ := h.poll_processed runId completedAt hrun
  obtain ⟨_, hpoll', hadmitted, hobservations⟩ := h.poll_processed runId completedAt hrun'
  obtain ⟨rfl, _⟩ := (Prod.mk.injEq ..).mp (hpoll'.symm.trans hpoll)
  rw [createdRows, haudited, h.raises_iff, hadmitted, hobservations]
  cases r with
  | ok n =>
    obtain ⟨hcounts, hquiet⟩ := processDocument_returned hrun
    exact iff_of_true (countsAre_of_counts hcounts h.index_iff) hquiet
  | error e =>
    obtain ⟨⟨m, hcounts⟩, hquiet⟩ := processDocument_raised hrun
    exact (countsAre_zero_iff hcounts h.index_iff).trans hquiet

/- A poll accounts for its rows unless it raises behind some of them. -/
theorem poll_accounted_iff (svc : ChannelPollService) (ext : Externals) (turns : ℕ → Turn)
    (fetch : FetchRequest → Except PyError FetchResult) (channel : DiscoveryChannel)
    (runId : Uuid) (completedAt : Timestamp) (s : Service) (row : ChannelPollRunModel) :
    Accounted (PollsIndex ext channel fetch)
        (createdRows svc ext turns fetch channel runId completedAt s)
        (poll svc ext (acquisitionService ext turns) fetch channel runId completedAt s).1 row ↔
      ¬ RaisesAfterCreating svc ext turns fetch channel s := by
  rw [accounted_iff]
  by_cases hpayload : ∃ fetched document, Parses ext channel fetch fetched document
  · obtain ⟨fetched, document, hparses⟩ := hpayload
    exact hparses.countsAre_iff Prod.mk.eta.symm
  · have hnone : ∀ fetched document, ¬ Parses ext channel fetch fetched document :=
      fun fetched document hparses => hpayload ⟨fetched, document, hparses⟩
    obtain ⟨_, haudited, _⟩ := poll_unprocessed svc (auditedService ext turns) runId completedAt
      (s, noRows) hnone
    obtain ⟨completion, hpoll, hadmitted, hobservations⟩ := poll_unprocessed svc
      (acquisitionService ext turns) runId completedAt s hnone
    rw [createdRows, haudited, hpoll]
    simp only
    rw [hadmitted, hobservations]
    refine iff_of_true ⟨fun _ => rfl, fun _ => rfl, rfl⟩ ?_
    rintro ⟨fetched, document, hparses, _⟩
    exact hnone fetched document hparses

end polls

/-! ### A call that fails behind an admission -/

/-- The second call meets a violated constraint. -/
def interruptedTurn (n : ℕ) : Turn :=
  { quietTurn n with failure := if n = 1 then some .integrityError else none }

def startedRun : ChannelPollRunModel where
  id := 9
  channelId := 2
  workerId := "a".toList
  status := .running
  startedAt := 1767351600000000
  completedAt := none
  httpStatus := none
  notModified := false
  discoveredCount := 0
  admittedCount := 0
  observationCount := 0
  responseBytes := 0
  error := none

/- The first story is admitted, and the completion of the run counts nothing. -/
theorem interruptedPoll_not_accounted :
    ¬ ∀ (svc : ChannelPollService) (ext : Externals) (turns : ℕ → Turn)
      (fetch : FetchRequest → Except PyError FetchResult) (channel : DiscoveryChannel)
      (runId : Uuid) (completedAt : Timestamp) (s : Service) (row : ChannelPollRunModel),
      Accounted (PollsIndex ext channel fetch)
        (createdRows svc ext turns fetch channel runId completedAt s)
        (poll svc ext (acquisitionService ext turns) fetch channel runId completedAt s).1 row := by
  intro h
  have haccounted := h (samplePollService 2 (by decide)) (sampleExternals sampleStories)
    interruptedTurn (fun _ => .ok (sampleResponse sampleStories)) sampleChannel 9 1767351601000000
    ⟨sampleDatabase, 0⟩ startedRun
  have hrows : (createdRows (samplePollService 2 (by decide)) (sampleExternals sampleStories)
      interruptedTurn (fun _ => .ok (sampleResponse sampleStories)) sampleChannel 9
      1767351601000000 ⟨sampleDatabase, 0⟩).discoveries = 1 := by decide +kernel
  have hcount : (poll (samplePollService 2 (by decide)) (sampleExternals sampleStories)
      (acquisitionService (sampleExternals sampleStories) interruptedTurn)
      (fun _ => .ok (sampleResponse sampleStories)) sampleChannel 9 1767351601000000
      ⟨sampleDatabase, 0⟩).1.observationCount = 0 := by decide +kernel
  have hobservations := haccounted.event.discoveries
  rw [hrows, sourcePollEvent, hcount] at hobservations
  cases hobservations

end Newsintel.Acquisition
