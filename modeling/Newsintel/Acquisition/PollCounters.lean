import Newsintel.Acquisition.StoredValidators

/-!
# Counters of a poll (application/acquisition/polling.py:226-372)

The loops over feeds, url sets and listing pages stop at the cap on newly admitted URLs. The loop
over a sitemap index creates child channels, and visits every entry.
-/

namespace Newsintel.Acquisition

open PyText Visits Articles

/-! ### Answers of the service -/

/-- In the states that the service keeps to, a created candidate comes with a created
observation. -/
structure DiscoveryAdmission.Paired {σ : Type} (admission : DiscoveryAdmission σ)
    (Valid : σ → Prop) : Prop where
  observe : ∀ c s, Valid s → Valid (admission.observeDiscovery c s).2
  create : ∀ c s, Valid s → Valid (admission.createChannel c s).2
  paired : ∀ c s answer s', Valid s → admission.observeDiscovery c s = (.ok answer, s') →
    answer.candidateCreated = true → answer.channelObservationCreated = true

section answers

variable {σ : Type} {admission : DiscoveryAdmission σ} {n n' : PollCounts} {s s' : σ}

theorem submitDiscovery_ok {c : ObserveDiscoveryCommand}
    (h : submitDiscovery admission c n s = (.ok n', s')) :
    ∃ answer, admission.observeDiscovery c s = (.ok answer, s') ∧
      n'.admitted = n.admitted + answer.candidateCreated.toNat ∧
        n'.observations = n.observations + answer.channelObservationCreated.toNat := by
  unfold submitDiscovery at h
  split at h
  · cases h
  · rename_i answer t hanswer
    obtain ⟨hn, rfl⟩ := (Prod.mk.injEq ..).mp h
    obtain rfl := Except.ok.inj hn
    exact ⟨answer, hanswer, rfl, rfl⟩

theorem submitChannel_ok {c : CreateChannelCommand}
    (h : submitChannel admission c n s = (.ok n', s')) :
    (admission.createChannel c s = (.ok (), s') ∧ n' = { n with admitted := n.admitted + 1 }) ∨
      (admission.createChannel c s = (.error .resourceConflictError, s') ∧ n' = n) := by
  unfold submitChannel at h
  split at h
  · rename_i t hanswer
    obtain ⟨hn, rfl⟩ := (Prod.mk.injEq ..).mp h
    exact Or.inl ⟨hanswer, (Except.ok.inj hn).symm⟩
  · rename_i t hanswer
    obtain ⟨hn, rfl⟩ := (Prod.mk.injEq ..).mp h
    exact Or.inr ⟨hanswer, (Except.ok.inj hn).symm⟩
  · cases h

end answers

/-! ### The rows of one call -/

section calls

variable {ext : Externals} {turn : Turn} {db db' : Database}

theorem admitCandidate_ids {d : Discovery} {candidates candidates' : List UrlCandidateModel}
    {row : UrlCandidateModel} {created : Bool}
    (h : admitCandidate d candidates = .ok (row, created, candidates')) :
    candidates.map (·.id) ⊆ candidates'.map (·.id) ∧ row.id ∈ candidates'.map (·.id) ∧
      (created = true → row.id ∉ candidates.map (·.id)) := by
  obtain ⟨rfl, found, hfind, rfl, rfl⟩ | ⟨rfl, -, hfresh, rfl, rfl⟩ := admitCandidate_cases h
  · have hids : ∀ r, (updateCandidateJobMetadata d r).id = r.id := fun _ => rfl
    rw [Table.map_update hids]
    refine ⟨List.Subset.refl _, List.mem_map.mpr ⟨found, (Table.get?_some hfind).1, rfl⟩, ?_⟩
    intro hfalse
    cases hfalse
  · rw [List.map_append]
    refine ⟨List.subset_append_left _ _, ?_, fun _ => hfresh⟩
    exact List.mem_append_right _ (List.mem_singleton_self _)

/-- The foreign key of `url_discoveries`. -/
def Database.Referenced (db : Database) : Prop :=
  ∀ d ∈ db.discoveries, d.urlCandidateId ∈ db.candidates.map (·.id)

instance (db : Database) : Decidable db.Referenced :=
  inferInstanceAs (Decidable (∀ d ∈ db.discoveries, d.urlCandidateId ∈ db.candidates.map (·.id)))

/- A candidate with a new id has no observation yet. -/
theorem observeDiscovery_paired {command : ObserveDiscoveryCommand}
    {answer : DiscoveryObservationResult}
    (h : observeDiscovery ext turn command db = .ok (answer, db')) (hdb : db.Referenced) :
    db'.Referenced ∧
      (answer.candidateCreated = true → answer.channelObservationCreated = true) := by
  obtain ⟨_, channel, candidate, _, _, hadmits, hadd, _⟩ := observeDiscovery_parts h
  obtain ⟨hids, hcandidate, hfresh⟩ := admitCandidate_ids hadmits
  have hkept : ∀ r ∈ db.discoveries, r.urlCandidateId ∈ db'.candidates.map (·.id) :=
    fun r hr => hids (hdb r hr)
  obtain ⟨hcreated, hmem, hrows⟩ | ⟨hcreated, -, -, hrows⟩ := addDiscoveryIfAbsent_cases hadd
  · refine ⟨fun r hr => hkept r (hrows ▸ hr), fun hnew => ?_⟩
    obtain ⟨known, hknown, hkey⟩ := List.mem_map.mp hmem
    have hid : known.urlCandidateId = candidate.id := congrArg Prod.fst hkey
    exact absurd (hdb known hknown) (hid ▸ hfresh hnew)
  · refine ⟨fun r hr => ?_, fun _ => hcreated⟩
    rw [hrows, List.mem_append, List.mem_singleton] at hr
    obtain hr | rfl := hr
    · exact hkept r hr
    · exact hcandidate

end calls

/-! ### The calls of the service are paired -/

section service

variable {ext : Externals} {turns : ℕ → Turn} {α : Type}
  {body : Turn → Database → Except PyError (α × Database)} {s s' : Service} {a : α}

theorem transact_referenced
    (hothers : ∀ i db, Database.Referenced db → ((turns i).others db).Referenced)
    (hbody : ∀ turn db a db', body turn db = .ok (a, db') → db.Referenced → db'.Referenced)
    (hs : s.db.Referenced) : (transact turns body s).2.db.Referenced := by
  rcases hrun : transact turns body s with ⟨r, t⟩
  cases r with
  | error e =>
    rw [transact_raised hrun]
    exact hothers _ _ hs
  | ok a => exact hbody _ _ _ _ (transact_answered hrun) (hothers _ _ hs)

theorem acquisitionService_paired
    (hothers : ∀ i db, Database.Referenced db → ((turns i).others db).Referenced) :
    (acquisitionService ext turns).Paired fun s => s.db.Referenced where
  observe := by
    intro c s hs
    apply transact_referenced hothers _ hs
    intro turn db answer db' h hdb
    exact (observeDiscovery_paired h hdb).1
  create := by
    intro c s hs
    apply transact_referenced hothers _ hs
    intro turn db answer db' h hdb
    obtain ⟨_, _, _, _, rfl⟩ := createChannel_rows h
    exact hdb
  paired := by
    intro c s answer s' hs h
    have hcall : transact turns (fun turn => observeDiscovery ext turn c) s = (.ok answer, s') := h
    exact (observeDiscovery_paired (transact_answered hcall) (hothers _ _ hs)).2

end service

/-! ### What the loops count -/

section counts

variable {σ : Type} {svc : ChannelPollService} {ext : Externals} {admission : DiscoveryAdmission σ}
  {channel : DiscoveryChannel} {fetched : FetchResult} {Valid : σ → Prop} {s s' : σ}
  {n n' : PollCounts} {k : ℕ}

/-- The totals behind `k` answers of `observe_discovery`. -/
structure Counted (svc : ChannelPollService) (k : ℕ) (n : PollCounts) : Prop where
  capped : n.admitted ≤ svc.maxNewUrlsPerChannelPoll
  admitted : n.admitted ≤ n.observations
  observations : n.observations ≤ k

/- The cap is checked before each call, and a call adds at most one. -/
theorem Counted.step (hpaired : admission.Paired Valid) {c : ObserveDiscoveryCommand}
    (hopen : capReached svc n = false) (h : Counted svc k n) (hs : Valid s)
    (hsubmit : submitDiscovery admission c n s = (.ok n', s')) : Counted svc (k + 1) n' := by
  obtain ⟨answer, hanswer, hadmitted, hobservations⟩ := submitDiscovery_ok hsubmit
  have hcap : n.admitted < svc.maxNewUrlsPerChannelPoll := Nat.not_le.mp (of_decide_eq_false hopen)
  have hpair := Bool.toNat_le_toNat (Bool.le_iff_imp.mpr (hpaired.paired _ _ _ _ hs hanswer))
  have hcandidate := Bool.toNat_le answer.candidateCreated
  have hobservation := Bool.toNat_le answer.channelObservationCreated
  obtain ⟨_, hpairs, hcount⟩ := h
  refine ⟨?_, ?_, ?_⟩
  · rw [hadmitted]
    omega
  · rw [hadmitted, hobservations]
    omega
  · rw [hobservations]
    omega

theorem observe_counted (hpaired : admission.Paired Valid) {key : PolledItem → Option Text}
    {command : ℕ → PolledItem → Except PyError (Option ObserveDiscoveryCommand)}
    {items : List PolledItem} (hs : Valid s)
    (h : visit (capReached svc) key command (submitDiscovery admission) 0 [] items ⟨0, 0⟩ s =
      (.ok n, s')) : Counted svc items.length n := by
  rw [visit_eq_drive] at h
  obtain ⟨pre, hpre, hserve⟩ := drive_ok h
  have hkept : Counted svc (0 + pre.length) n ∧ Valid s' := by
    refine serve_invariant (P := fun k n s => Counted svc k n ∧ Valid s) ?_ hserve
      ⟨⟨Nat.zero_le _, Nat.le_refl 0, Nat.le_refl 0⟩, hs⟩
    intro c k n s n' s' hopen hcounted hsubmit
    refine ⟨hcounted.1.step hpaired hopen hcounted.2 hsubmit, ?_⟩
    obtain ⟨answer, hanswer, _⟩ := submitDiscovery_ok hsubmit
    have hvalid := hpaired.observe c s hcounted.2
    rw [hanswer] at hvalid
    exact hvalid
  have hlength : (plan key command 0 [] items).1.length ≤ items.length := plan_length_le 0 [] items
  have hprefix := hpre.length_le
  exact ⟨hkept.1.capped, hkept.1.admitted, hkept.1.observations.trans (by omega)⟩

theorem index_counted {entries : List SitemapEntry}
    (h : pollIndex ext admission channel entries s = (.ok n, s')) :
    n.admitted ≤ entries.length ∧ n.observations = 0 := by
  rw [pollIndex, visit_eq_drive] at h
  obtain ⟨pre, hpre, hserve⟩ := drive_ok h
  have hkept : n.admitted ≤ 0 + pre.length ∧ n.observations = 0 := by
    refine serve_invariant (P := fun k n _ => n.admitted ≤ k ∧ n.observations = 0) ?_ hserve
      ⟨Nat.le_refl 0, rfl⟩
    intro c k n s n' s' _ hcounted hsubmit
    obtain ⟨_, rfl⟩ | ⟨_, rfl⟩ := submitChannel_ok hsubmit
    · exact ⟨Nat.succ_le_succ hcounted.1, hcounted.2⟩
    · exact ⟨Nat.le_succ_of_le hcounted.1, hcounted.2⟩
  have hlength : (plan (fun _ => (none : Option Text)) (createCommand ext channel) 0 []
      entries).1.length ≤ entries.length := plan_length_le 0 [] entries
  have hprefix := hpre.length_le
  exact ⟨hkept.1.trans (by omega), hkept.2⟩

/-- The payload that the poll fetches is a sitemap index. -/
def PollsIndex (ext : Externals) (channel : DiscoveryChannel)
    (fetch : FetchRequest → Except PyError FetchResult) : Prop :=
  ∃ fetched entries, fetch (pollRequest channel) = .ok fetched ∧
    parsePayload ext channel fetched = .ok (.index entries)

/- A poll that succeeds has processed its payload. -/
theorem poll_succeeded {fetch : FetchRequest → Except PyError FetchResult} {runId : Uuid}
    {completedAt : Timestamp} {completion : PollCompletion}
    (h : poll svc ext admission fetch channel runId completedAt s = (completion, s'))
    (hsucceeded : completion.status = .succeeded) :
    ∃ fetched document n, fetch (pollRequest channel) = .ok fetched ∧
      parsePayload ext channel fetched = .ok document ∧
        processDocument svc ext admission channel fetched document s = (.ok n, s') ∧
          completion.discoveredCount = document.discovered ∧
            completion.admittedCount = n.admitted ∧
              completion.observationCount = n.observations := by
  unfold poll at h
  split at h
  · cases h
    cases hsucceeded
  · rename_i fetched hfetched
    split at h
    · cases h
      cases hsucceeded
    · split at h
      · cases h
        cases hsucceeded
      · split at h
        · cases h
          cases hsucceeded
        · rename_i discovered n t hprocess
          cases h
          unfold processPayload at hprocess
          split at hprocess
          · cases hprocess
          · rename_i document hparse
            rcases hdocument : processDocument svc ext admission channel fetched document s with
              ⟨r, u⟩
            rw [hdocument] at hprocess
            cases r with
            | error e => cases hprocess
            | ok n =>
              cases hprocess
              exact ⟨fetched, document, n, hfetched, hparse, hdocument, rfl, rfl, rfl⟩

/- At most one candidate and one observation for each item, and the cap for all payloads but
those of a sitemap index. -/
theorem poll_counters {σ : Type} (svc : ChannelPollService) (ext : Externals)
    (admission : DiscoveryAdmission σ) (Valid : σ → Prop) (hpaired : admission.Paired Valid)
    (fetch : FetchRequest → Except PyError FetchResult) (channel : DiscoveryChannel)
    (runId : Uuid) (completedAt : Timestamp) (s s' : σ) (hs : Valid s) (completion : PollCompletion)
    (h : poll svc ext admission fetch channel runId completedAt s = (completion, s'))
    (hsucceeded : completion.status = .succeeded) :
    completion.admittedCount ≤ completion.discoveredCount ∧
      completion.observationCount ≤ completion.discoveredCount ∧
        (¬ PollsIndex ext channel fetch →
          completion.admittedCount ≤ svc.maxNewUrlsPerChannelPoll ∧
            completion.admittedCount ≤ completion.observationCount) := by
  obtain ⟨fetched, document, n, hfetched, hparse, hdocument, hdiscovered, hadmitted,
    hobservations⟩ := poll_succeeded h hsucceeded
  rw [hdiscovered, hadmitted, hobservations]
  have hcounted : ∀ items : List PolledItem, Counted svc items.length n →
      n.admitted ≤ items.length ∧ n.observations ≤ items.length ∧
        (¬ PollsIndex ext channel fetch →
          n.admitted ≤ svc.maxNewUrlsPerChannelPoll ∧ n.admitted ≤ n.observations) := by
    intro items h
    exact ⟨h.admitted.trans h.observations, h.observations, fun _ => ⟨h.capped, h.admitted⟩⟩
  cases document with
  | feed items =>
    have hitems := hcounted _ (observe_counted hpaired hs hdocument)
    rw [List.length_map] at hitems
    exact hitems
  | urlset entries =>
    have hitems := hcounted _ (observe_counted hpaired hs hdocument)
    rw [List.length_map] at hitems
    exact hitems
  | links pageLinks =>
    have hitems := hcounted _ (observe_counted hpaired hs hdocument)
    rw [List.length_map] at hitems
    exact hitems
  | index entries =>
    obtain ⟨hentries, hnone⟩ := index_counted hdocument
    refine ⟨hentries, ?_, ?_⟩
    · rw [hnone]
      exact Nat.zero_le _
    · intro hindex
      exact absurd ⟨fetched, entries, hfetched, hparse⟩ hindex

end counts

/-! ### A feed and a sitemap index -/

/-- A poll of the database with one channel, without other workers and without failures. -/
def quietPoll (ext : Externals) (fetched : FetchResult) (channel : DiscoveryChannel) :
    PollCompletion × Service :=
  poll (samplePollService 1 (by decide)) ext (acquisitionService ext quietTurn)
    (fun _ => .ok fetched) channel 9 1767351601000000 ⟨sampleDatabase, 0⟩

/-- The poll of the sample feed. -/
def storyPoll : PollCompletion × Service :=
  quietPoll (sampleExternals sampleStories) (sampleResponse sampleStories) sampleChannel

theorem storyPoll_counters :
    storyPoll.1.admittedCount ≤ storyPoll.1.discoveredCount ∧
      storyPoll.1.observationCount ≤ storyPoll.1.discoveredCount ∧
        (¬ PollsIndex (sampleExternals sampleStories) sampleChannel
            (fun _ => .ok (sampleResponse sampleStories)) →
          storyPoll.1.admittedCount ≤ 1 ∧
            storyPoll.1.admittedCount ≤ storyPoll.1.observationCount) := by
  have hstatus : storyPoll.1.status = .succeeded := by decide +kernel
  have hrun : poll (samplePollService 1 (by decide)) (sampleExternals sampleStories)
      (acquisitionService (sampleExternals sampleStories) quietTurn)
      (fun _ => .ok (sampleResponse sampleStories)) sampleChannel 9 1767351601000000
      ⟨sampleDatabase, 0⟩ = (storyPoll.1, storyPoll.2) := by
    rw [storyPoll, quietPoll]
  have hvalid : sampleDatabase.Referenced := List.forall_mem_nil _
  exact poll_counters (samplePollService 1 (by decide)) (sampleExternals sampleStories)
    (acquisitionService (sampleExternals sampleStories) quietTurn)
    (fun s => s.db.Referenced)
    (acquisitionService_paired fun _ _ hdb => hdb) (fun _ => .ok (sampleResponse sampleStories))
    sampleChannel 9 1767351601000000 ⟨sampleDatabase, 0⟩ storyPoll.2 hvalid
    storyPoll.1 hrun hstatus

def indexXml : Bytes :=
  asciiBytes ("<sitemapindex><sitemap><loc>https://a.in/news-1.xml</loc></sitemap>".toList ++
    "<sitemap><loc>https://a.in/news-2.xml</loc></sitemap></sitemapindex>".toList)

/-- What the libraries make of this sitemap index. -/
def indexExternals : Externals :=
  { sampleExternals [] with
    parsers :=
      { (sampleExternals []).parsers with
        fromstring := fun xml =>
          if xml = indexXml then
            .ok (.node "sitemapindex".toList [] none
              (["https://a.in/news-1.xml", "https://a.in/news-2.xml"].map fun location =>
                .node "sitemap".toList [] none
                  [.node "loc".toList [] (some location.toList) []]))
          else .error .parseError } }

def indexResponse : FetchResult := { sampleResponse [] with body := indexXml }

def indexChannel : DiscoveryChannel := { sampleChannel with channelType := .sitemap }

/- Both child channels are created under a cap of one. -/
theorem index_not_capped :
    ¬ ∀ {σ : Type} (svc : ChannelPollService) (ext : Externals) (admission : DiscoveryAdmission σ)
      (Valid : σ → Prop), admission.Paired Valid →
        ∀ (fetch : FetchRequest → Except PyError FetchResult) (channel : DiscoveryChannel)
          (runId : Uuid) (completedAt : Timestamp) (s s' : σ), Valid s →
          ∀ completion, poll svc ext admission fetch channel runId completedAt s =
              (completion, s') →
            completion.status = .succeeded →
              completion.admittedCount ≤ svc.maxNewUrlsPerChannelPoll ∧
                completion.admittedCount ≤ completion.discoveredCount ∧
                  completion.observationCount ≤ completion.discoveredCount ∧
                    (¬ PollsIndex ext channel fetch →
                      completion.admittedCount ≤ completion.observationCount) := by
  intro h
  have hcap : (quietPoll indexExternals indexResponse indexChannel).1.admittedCount ≤ 1 :=
    (h (samplePollService 1 (by decide)) indexExternals (acquisitionService indexExternals quietTurn)
      _ (acquisitionService_paired fun _ _ hdb => hdb) (fun _ => .ok indexResponse) indexChannel
      9 1767351601000000 ⟨sampleDatabase, 0⟩
      (quietPoll indexExternals indexResponse indexChannel).2 (List.forall_mem_nil _)
      (quietPoll indexExternals indexResponse indexChannel).1 Prod.mk.eta.symm
      (by decide +kernel)).1
  have hadmitted : (quietPoll indexExternals indexResponse indexChannel).1.admittedCount = 2 := by
    decide +kernel
  rw [hadmitted] at hcap
  exact absurd hcap (by decide)

end Newsintel.Acquisition
