import Newsintel.Acquisition.PollCounters

/-!
# Catching up behind the cap (application/acquisition/polling.py:226-372)

A poll stops at the cap on newly admitted URLs and leaves the rest of its payload to a later
poll. A URL is new once: over a run, whatever other workers do between and during the polls,
the cap cuts off no more polls than the new URLs of their payloads pay for.
-/

namespace Newsintel.Acquisition

open PyText Visits

/-! ### What a poll offers and reports -/

section polls

variable (svc : ChannelPollService) (ext : Externals)

/-- The response of a poll and its document, when the poll gets there. -/
def polledDocument (channel : DiscoveryChannel)
    (fetch : FetchRequest → Except PyError FetchResult) : Option (FetchResult × PolledDocument) :=
  match fetch (pollRequest channel) with
  | .error _ => none
  | .ok fetched =>
    match parsePayload ext channel fetched with
    | .error _ => none
    | .ok document => some (fetched, document)

/-- The commands for the article URLs of the payload. -/
def offeredCommands : PollStep → List ObserveDiscoveryCommand
  | .poll channel fetch _ _ _ =>
    match polledDocument ext channel fetch with
    | none => []
    | some (fetched, document) => documentCommands svc ext channel fetched document
  | _ => []

/-- The fingerprints that the polls of a run offer. -/
def offeredFingerprints (steps : List PollStep) : List (Option Bytes) :=
  steps.flatMap fun step => (offeredCommands svc ext step).map (commandFingerprint ext)

/-- The completion of a poll that succeeds on a payload with articles, and the database behind
its last call. -/
def articlePoll (st : PollState) : PollStep → Option (PollCompletion × Database)
  | .poll channel fetch turns runId completedAt =>
    match polledDocument ext channel fetch with
    | none | some (_, .index _) => none
    | some _ =>
      let (completion, s) := poll svc ext (acquisitionService ext turns) fetch channel runId
        completedAt ⟨st.db, 0⟩
      if completion.status = .succeeded then some (completion, s.db) else none
  | _ => none

/-- `admitted_count` of the poll. -/
def admittedArticles (st : PollState) (step : PollStep) : ℕ :=
  (articlePoll svc ext st step).elim 0 (·.1.admittedCount)

/-- The channel has a `url_discoveries` row for the candidate of the command. -/
def CommandObserved (db : Database) (c : ObserveDiscoveryCommand) : Prop :=
  ∃ fingerprint ∈ commandFingerprint ext c, db.Observed fingerprint c.channelId

instance (db : Database) (c : ObserveDiscoveryCommand) : Decidable (CommandObserved ext db c) :=
  inferInstanceAs (Decidable (∃ fingerprint ∈ commandFingerprint ext c,
    db.Observed fingerprint c.channelId))

/-- The poll succeeds and leaves a part of its payload to a later one. -/
def CutOff (st : PollState) (step : PollStep) : Prop :=
  ∃ p ∈ articlePoll svc ext st step, ∃ c ∈ offeredCommands svc ext step,
    ¬ CommandObserved ext p.2 c

instance (st : PollState) (step : PollStep) : Decidable (CutOff svc ext st step) :=
  inferInstanceAs (Decidable (∃ p ∈ articlePoll svc ext st step,
    ∃ c ∈ offeredCommands svc ext step, ¬ CommandObserved ext p.2 c))

end polls

section runs

variable {svc : ChannelPollService} {ext : Externals} {st st' : PollState} {step : PollStep}

/- Behind a poll that succeeds is a loop over its commands. -/
theorem articlePoll_ok {p : PollCompletion × Database}
    (h : articlePoll svc ext st step = some p) :
    ∃ (turns : ℕ → Turn) (last : Option PyError) (n : PollCounts) (s : Service),
      drive (capReached svc) (submitDiscovery (acquisitionService ext turns)) last
        (offeredCommands svc ext step) ⟨0, 0⟩ ⟨st.db, 0⟩ = (.ok n, s) ∧
      p.1.admittedCount = n.admitted ∧ s.db = p.2 := by
  cases step with
  | leaseDueChannels => cases h
  | others => cases h
  | poll channel fetch turns runId completedAt =>
    rcases hpoll : poll svc ext (acquisitionService ext turns) fetch channel runId completedAt
      ⟨st.db, 0⟩ with ⟨completion, s⟩
    unfold articlePoll at h
    simp only [hpoll] at h
    split at h
    · cases h
    · cases h
    · rename_i polled hindex hpolled
      split at h
      · rename_i hsucceeded
        cases h
        obtain ⟨fetched, document, n, hfetched, hparse, hprocess, -, hadmitted, -⟩ :=
          poll_succeeded hpoll hsucceeded
        have hdocument : polledDocument ext channel fetch = some (fetched, document) := by
          simp only [polledDocument, hfetched, hparse]
        have hcommands : offeredCommands svc ext (.poll channel fetch turns runId completedAt) =
            documentCommands svc ext channel fetched document := by
          simp only [offeredCommands, hdocument]
        obtain rfl := Option.some.inj (hpolled.symm.trans hdocument)
        have harticles : ∀ entries, document ≠ .index entries := fun entries he =>
          hindex fetched entries (congrArg _ he)
        rw [processDocument_articles _ harticles, visit_eq_drive] at hprocess
        rw [hcommands]
        exact ⟨turns, _, n, s, hprocess, hadmitted, rfl⟩
      · cases h

/- The database behind a poll that succeeds. -/
theorem articlePoll_step {p : PollCompletion × Database}
    (hp : articlePoll svc ext st step = some p) (h : pollStep svc ext st step = some st') :
    p.2.Keeps st'.db := by
  cases step with
  | leaseDueChannels => cases hp
  | others => cases hp
  | poll channel fetch turns runId completedAt =>
    unfold articlePoll at hp
    unfold pollStep at h
    simp only at hp h
    split at h
    · cases h
      split at hp
      · cases hp
      · cases hp
      · split at hp
        · cases hp
          exact recordCompletion_keeps _ _
        · cases hp
    · cases h

/- Whatever a step admits is no longer new. -/
theorem pollStep_newMarks {marks : List (Option Bytes)}
    (hmarks : (offeredCommands svc ext step).map (commandFingerprint ext) ⊆ marks)
    (h : pollStep svc ext st step = some st') :
    newMarks st'.db.fingerprints marks + admittedArticles svc ext st step ≤
      newMarks st.db.fingerprints marks := by
  cases hp : articlePoll svc ext st step with
  | none =>
    rw [admittedArticles, hp, Option.elim_none]
    exact newMarks_anti (pollStep_keeps h).fingerprints marks
  | some p =>
    have hafter := newMarks_anti (articlePoll_step hp h).fingerprints marks
    rw [admittedArticles, hp, Option.elim_some]
    obtain ⟨turns, last, n, s, hdrive, hadmitted, hdb⟩ := articlePoll_ok hp
    have hnew := submitDiscovery_recording.drive_new
      (fun c hc => hmarks (List.mem_map_of_mem hc)) hdrive
    simp only [hdb] at hnew
    omega

/- A poll is cut off at the cap only. -/
theorem CutOff.cap_le (h : CutOff svc ext st step) :
    svc.maxNewUrlsPerChannelPoll ≤ admittedArticles svc ext st step := by
  obtain ⟨p, hp, c, hc, hmissed⟩ := h
  rw [Option.mem_def] at hp
  rw [admittedArticles, hp, Option.elim_some]
  obtain ⟨turns, last, n, s, hdrive, hadmitted, hdb⟩ := articlePoll_ok hp
  rw [hadmitted]
  -- a loop that stops below the cap has handed over all
  by_contra hopen
  have hall := submitDiscovery_recording.drive_all hdrive (decide_eq_false hopen) c hc
  rw [hdb] at hall
  exact hmissed hall

theorem CommandObserved.kept {db db' : Database} {c : ObserveDiscoveryCommand}
    (h : CommandObserved ext db c) (hkeeps : db.Keeps db') : CommandObserved ext db' c := by
  obtain ⟨fingerprint, hmark, hobserved⟩ := h
  exact ⟨fingerprint, hmark, hkeeps.observed hobserved⟩

end runs

/-! ### Two polls of two stories -/

/-- The copy of the next lease, with the validator of the response. -/
def secondCopy : DiscoveryChannel :=
  leaseChannelRow "a".toList 1767355200000000 120
    { sampleCopy with
      nextPollAt := some 1767351661000000
      currentPollSeconds := 60
      etag := some "\"1\"".toList
      lastPolledAt := some 1767351601000000
      lastSuccessAt := some 1767351601000000
      updatedAt := 1767351601000000 }

/-- The server answers the second poll with the feed again. -/
def secondPoll : PollStep :=
  .poll secondCopy (fun _ => .ok (sampleResponse sampleStories)) quietTurn 10 1767355201000000

/-- What comes before the second poll. -/
def firstPoll : List PollStep :=
  storyRun sampleStories ++ [.leaseDueChannels "a".toList 1767355200000000 20 120 []]

end Newsintel.Acquisition
