import Newsintel.Acquisition.ExclusiveLeases
import Newsintel.Lib.Fields

/-!
# Adaptive polling (polling.py:131-145, dto.py:26-46)

Intervals stay between the bounds that the creation of a channel checks: through all completed
polls, and through the channels that a sitemap index brings.
-/

namespace Newsintel.Acquisition

open PyText

/-! ### What the validation of a command promises -/

theorem stripWhitespace_idem (t : Text) :
    stripWhitespace (stripWhitespace t) = stripWhitespace t := by
  have hstart : (stripWhitespace t).dropWhile isWhiteSpace = stripWhitespace t :=
    Fields.dropWhile_rdropWhile_dropWhile isWhiteSpace t
  calc stripWhitespace (stripWhitespace t)
      = ((stripWhitespace t).dropWhile isWhiteSpace).rdropWhile isWhiteSpace := rfl
    _ = (stripWhitespace t).rdropWhile isWhiteSpace := by rw [hstart]
    _ = stripWhitespace t := List.rdropWhile_idempotent isWhiteSpace _

/-- The fields that a child channel takes over, as the command of its parent had them. -/
structure PollPolicy (channel : DiscoveryChannel) : Prop where
  strategyVersion : 1 ≤ (stripWhitespace channel.strategyVersion).length ∧
    (stripWhitespace channel.strategyVersion).length ≤ 100
  pollMinSeconds : 15 ≤ channel.pollMinSeconds ∧ channel.pollMinSeconds ≤ 86400
  pollMaxSeconds : 30 ≤ channel.pollMaxSeconds ∧ channel.pollMaxSeconds ≤ 604800
  intervals : channel.pollMinSeconds ≤ channel.currentPollSeconds ∧
    channel.currentPollSeconds ≤ channel.pollMaxSeconds

section policy

variable {ext : Externals} {channel : DiscoveryChannel}

theorem createdChannel_policy {args : CreateChannelArguments} {command : CreateChannelCommand}
    (h : CreateChannelCommand.build ext.httpUrl args = .ok command) (turn : Turn)
    (endpointUrl : Text) : PollPolicy (createdChannel turn command endpointUrl) := by
  unfold CreateChannelCommand.build at h
  split at h
  · rename_i hvalid
    cases h
    have hversion := hvalid.strategyVersion
    rw [← stripWhitespace_idem args.strategyVersion] at hversion
    exact ⟨hversion, hvalid.pollMinSeconds, hvalid.pollMaxSeconds, hvalid.intervals⟩
  · cases h

theorem discoveredChannel_policy (publisherId : Uuid) (frequency : FetchFrequency)
    (now : Timestamp) (endpoint : ValidatedEndpoint) (endpointUrl : Text) :
    PollPolicy (discoveredChannel publisherId frequency now endpoint endpointUrl) := by
  have hversion : 1 ≤ (stripWhitespace "homepage-source-discovery-v1".toList).length ∧
      (stripWhitespace "homepage-source-discovery-v1".toList).length ≤ 100 := by decide
  have hseconds : 900 ≤ frequencySeconds frequency ∧ frequencySeconds frequency ≤ 86400 := by
    cases frequency <;> decide
  refine ⟨hversion, ?_, ?_, le_refl _, le_refl _⟩
  · exact ⟨hseconds.1.trans' (by decide), hseconds.2⟩
  · exact ⟨hseconds.1.trans' (by decide), hseconds.2.trans (by decide)⟩

/- The location of an entry is all that can keep a child from being created. -/
theorem createCommand_iff (h : PollPolicy channel) (position : ℕ) (entry : SitemapEntry) :
    (∃ command, createCommand ext channel position entry = .ok (some command)) ↔
      (ext.httpUrl entry.location).isSome = true := by
  unfold createCommand CreateChannelCommand.build
  split
  · rename_i hvalid
    exact iff_of_true ⟨_, rfl⟩ hvalid.endpointUrl
  · rename_i hvalid
    refine iff_of_false (fun ⟨command, hcommand⟩ => by cases hcommand) ?_
    intro hurl
    obtain ⟨hlow, hhigh⟩ := h.intervals
    obtain ⟨hmin, _⟩ := h.pollMinSeconds
    obtain ⟨_, hmax⟩ := h.pollMaxSeconds
    exact hvalid ⟨hurl, h.strategyVersion, h.pollMinSeconds, h.pollMaxSeconds,
      ⟨hmin.trans hlow, hhigh.trans hmax⟩, h.intervals⟩

end policy

/-! ### The next interval -/

section interval

variable {channel : DiscoveryChannel} {status : PollRunStatus} {observationCount : ℕ}

theorem nextIntervalSeconds_bounds (h : channel.pollMinSeconds ≤ channel.pollMaxSeconds)
    (status : PollRunStatus) (observationCount : ℕ) :
    channel.pollMinSeconds ≤ nextIntervalSeconds channel status observationCount ∧
      nextIntervalSeconds channel status observationCount ≤ channel.pollMaxSeconds := by
  unfold nextIntervalSeconds
  exact ⟨le_max_left _ _, max_le h (min_le_left _ _)⟩

theorem nextIntervalSeconds_reset (h : channel.pollMinSeconds ≤ channel.pollMaxSeconds)
    (hstatus : status ≠ .failed) (hobserved : 0 < observationCount) :
    nextIntervalSeconds channel status observationCount = channel.pollMinSeconds := by
  simp only [nextIntervalSeconds, if_neg hstatus, if_pos hobserved]
  omega

/- From 4 seconds on, a quarter more is at least a second more, rounded either way. -/
theorem nextIntervalSeconds_backOff (h : PollPolicy channel)
    (hquiet : status = .failed ∨ observationCount = 0) :
    channel.currentPollSeconds < nextIntervalSeconds channel status observationCount ∨
      channel.currentPollSeconds = channel.pollMaxSeconds ∧
        nextIntervalSeconds channel status observationCount = channel.pollMaxSeconds := by
  obtain ⟨hlow, hhigh⟩ := h.intervals
  have hmin := h.pollMinSeconds.1
  have hhalf := le_roundHalfEven (3 * channel.currentPollSeconds) 2
  have hquarter := le_roundHalfEven (5 * channel.currentPollSeconds) 4
  have hproposed : ∀ proposed, channel.currentPollSeconds < proposed →
      channel.currentPollSeconds <
          max channel.pollMinSeconds (min channel.pollMaxSeconds proposed) ∨
        channel.currentPollSeconds = channel.pollMaxSeconds ∧
          max channel.pollMinSeconds (min channel.pollMaxSeconds proposed) =
            channel.pollMaxSeconds := by
    intro proposed hlater
    omega
  unfold nextIntervalSeconds
  apply hproposed
  by_cases hfailed : status = .failed
  · rw [if_pos hfailed]
    omega
  · have hnone := hquiet.resolve_left hfailed
    rw [if_neg hfailed, if_neg (by omega)]
    split <;> omega

end interval

/-! ### Completed polls -/

/-- `_finish` has made the completion for the channel. -/
def FinishedBy (channel : DiscoveryChannel) (completion : PollCompletion) : Prop :=
  completion.channelId = channel.id ∧
    completion.currentPollSeconds =
      nextIntervalSeconds channel completion.status completion.observationCount

theorem completeChannel_intervals (completion : PollCompletion) (r : DiscoveryChannel) :
    (completeChannel completion r).currentPollSeconds = completion.currentPollSeconds ∧
      (completeChannel completion r).pollMinSeconds = r.pollMinSeconds ∧
      (completeChannel completion r).pollMaxSeconds = r.pollMaxSeconds ∧
      (completeChannel completion r).strategyVersion = r.strategyVersion := by
  simp only [completeChannel]
  split <;> exact ⟨rfl, rfl, rfl, rfl⟩

/- A poll of the copy keeps the policy of a row with the same bounds. -/
theorem completeChannel_policy {copy r : DiscoveryChannel} {completion : PollCompletion}
    (h : PollPolicy r) (hfinished : FinishedBy copy completion)
    (hmin : copy.pollMinSeconds = r.pollMinSeconds)
    (hmax : copy.pollMaxSeconds = r.pollMaxSeconds) :
    PollPolicy (completeChannel completion r) := by
  obtain ⟨hcurrent, hlow, hhigh, hversion⟩ := completeChannel_intervals completion r
  have hordered : copy.pollMinSeconds ≤ copy.pollMaxSeconds := by
    rw [hmin, hmax]
    exact h.intervals.1.trans h.intervals.2
  have hbounds := nextIntervalSeconds_bounds hordered completion.status completion.observationCount
  rw [← hfinished.2, hmin, hmax] at hbounds
  exact ⟨by rw [hversion]; exact h.strategyVersion, by rw [hlow]; exact h.pollMinSeconds,
    by rw [hhigh]; exact h.pollMaxSeconds, by rw [hcurrent, hlow, hhigh]; exact hbounds⟩

/- Only a run that succeeded has observations. -/
theorem poll_finishedBy {σ : Type} (svc : ChannelPollService) (ext : Externals)
    (admission : DiscoveryAdmission σ) (fetch : FetchRequest → Except PyError FetchResult)
    (channel : DiscoveryChannel) (runId : Uuid) (completedAt : Timestamp) (s : σ) :
    FinishedBy channel (poll svc ext admission fetch channel runId completedAt s).1 ∧
      ((poll svc ext admission fetch channel runId completedAt s).1.status = .succeeded ∨
        (poll svc ext admission fetch channel runId completedAt s).1.observationCount = 0) := by
  unfold poll
  split
  · exact ⟨⟨rfl, rfl⟩, Or.inr rfl⟩
  · split_ifs
    · exact ⟨⟨rfl, rfl⟩, Or.inr rfl⟩
    · exact ⟨⟨rfl, rfl⟩, Or.inr rfl⟩
    · split
      · exact ⟨⟨rfl, rfl⟩, Or.inr rfl⟩
      · exact ⟨⟨rfl, rfl⟩, Or.inl rfl⟩

/-- Rows of channels, from their creation on. -/
inductive PolledChannel (ext : Externals) : DiscoveryChannel → Prop where
  | created {args : CreateChannelArguments} {command : CreateChannelCommand} (turn : Turn)
      (endpointUrl : Text) (hbuild : CreateChannelCommand.build ext.httpUrl args = .ok command) :
      PolledChannel ext (createdChannel turn command endpointUrl)
  | discovered (publisherId : Uuid) (frequency : FetchFrequency) (now : Timestamp)
      (endpoint : ValidatedEndpoint) (endpointUrl : Text) :
      PolledChannel ext (discoveredChannel publisherId frequency now endpoint endpointUrl)
  /-- a poll of any status, with any number of observations -/
  | completed {channel : DiscoveryChannel} {completion : PollCompletion}
      (hchannel : PolledChannel ext channel) (hfinished : FinishedBy channel completion) :
      PolledChannel ext (completeChannel completion channel)
  /-- an entry of its sitemap index -/
  | child {channel : DiscoveryChannel} {position : ℕ} {entry : SitemapEntry}
      {command : CreateChannelCommand} (turn : Turn) (endpointUrl : Text)
      (hchannel : PolledChannel ext channel)
      (hcommand : createCommand ext channel position entry = .ok (some command)) :
      PolledChannel ext (createdChannel turn command endpointUrl)

/- The command of an entry has passed the validation of every command. -/
theorem createCommand_built {ext : Externals} {channel : DiscoveryChannel} {position : ℕ}
    {entry : SitemapEntry} {command : CreateChannelCommand}
    (h : createCommand ext channel position entry = .ok (some command)) :
    ∃ args, CreateChannelCommand.build ext.httpUrl args = .ok command := by
  unfold createCommand at h
  generalize hargs : CreateChannelArguments.mk .. = args at h
  exact ⟨args, map_injective (Option.some_injective _) h⟩

theorem PolledChannel.policy {ext : Externals} {channel : DiscoveryChannel}
    (h : PolledChannel ext channel) : PollPolicy channel := by
  induction h with
  | created turn endpointUrl hbuild => exact createdChannel_policy hbuild turn endpointUrl
  | discovered publisherId frequency now endpoint endpointUrl =>
    exact discoveredChannel_policy publisherId frequency now endpoint endpointUrl
  | completed _ hfinished ih => exact completeChannel_policy ih hfinished rfl rfl
  | child turn endpointUrl _ hcommand _ =>
    obtain ⟨args, hbuild⟩ := createCommand_built hcommand
    exact createdChannel_policy hbuild turn endpointUrl

/-- A poll that observed something resets the interval, a quiet one increases it up to the
maximum. -/
structure Adapts (channel completed : DiscoveryChannel) (observed quiet : Prop) : Prop where
  reset : observed → completed.currentPollSeconds = channel.pollMinSeconds
  backOff : quiet → channel.currentPollSeconds < completed.currentPollSeconds ∨
    channel.currentPollSeconds = channel.pollMaxSeconds ∧
      completed.currentPollSeconds = channel.pollMaxSeconds

/- A failure takes precedence over observations, and these over an unmodified answer. -/
theorem completeChannel_adapts {channel : DiscoveryChannel} {completion : PollCompletion}
    (h : PollPolicy channel) (hfinished : FinishedBy channel completion) :
    Adapts channel (completeChannel completion channel)
      (completion.status ≠ .failed ∧ 0 < completion.observationCount)
      (completion.status = .failed ∨ completion.observationCount = 0) := by
  have hcurrent := (completeChannel_intervals completion channel).1
  rw [hfinished.2] at hcurrent
  constructor
  · rintro ⟨hstatus, hobserved⟩
    rw [hcurrent]
    exact nextIntervalSeconds_reset (h.intervals.1.trans h.intervals.2) hstatus hobserved
  · intro hquiet
    rw [hcurrent]
    exact nextIntervalSeconds_backOff h hquiet

/- Along all polls of a channel and of the channels that they bring: the interval is in bounds,
a child passes validation as soon as its URL does, and each poll resets it or backs off. -/
theorem polledChannel_adaptive (ext : Externals) (channel : DiscoveryChannel)
    (h : PolledChannel ext channel) :
    (channel.pollMinSeconds ≤ channel.currentPollSeconds ∧
      channel.currentPollSeconds ≤ channel.pollMaxSeconds) ∧
    (∀ position entry,
      (∃ command, createCommand ext channel position entry = .ok (some command)) ↔
        (ext.httpUrl entry.location).isSome = true) ∧
    (∀ completion, FinishedBy channel completion →
      Adapts channel (completeChannel completion channel)
        (completion.status ≠ .failed ∧ 0 < completion.observationCount)
        (completion.status = .failed ∨ completion.observationCount = 0)) ∧
    ∀ (σ : Type) (svc : ChannelPollService) (admission : DiscoveryAdmission σ)
      (fetch : FetchRequest → Except PyError FetchResult) (runId : Uuid)
      (completedAt : Timestamp) (s : σ),
      let completion := (poll svc ext admission fetch channel runId completedAt s).1
      Adapts channel (completeChannel completion channel)
        (0 < completion.observationCount)
        (completion.status = .failed ∨ completion.status = .notModified ∨
          completion.observationCount = 0) := by
  have hpolicy := h.policy
  refine ⟨hpolicy.intervals, createCommand_iff hpolicy,
    fun completion => completeChannel_adapts hpolicy, ?_⟩
  intro σ svc admission fetch runId completedAt s completion
  obtain ⟨hfinished, hcounted⟩ := poll_finishedBy svc ext admission fetch channel runId completedAt s
  have hadapts := completeChannel_adapts hpolicy hfinished
  constructor
  · intro hobserved
    have hsucceeded : completion.status = .succeeded := hcounted.resolve_right hobserved.ne'
    exact hadapts.reset ⟨by rw [hsucceeded]; decide, hobserved⟩
  · intro hquiet
    apply hadapts.backOff
    obtain hfailed | hnotModified | hnone := hquiet
    · exact Or.inl hfailed
    · refine Or.inr (hcounted.resolve_left ?_)
      rw [hnotModified]
      decide
    · exact Or.inr hnone

/-- A command with intervals of its own. -/
def sampleCommand : CreateChannelCommand where
  publisherId := 1
  channelType := .sitemap
  endpointUrl := "https://a.in/index.xml".toList
  strategyVersion := "v1".toList
  pollMinSeconds := 60
  pollMaxSeconds := 7200
  currentPollSeconds := 301
  strategyVersion_length := by decide
  pollMinSeconds_range := by decide
  pollMaxSeconds_range := by decide
  currentPollSeconds_range := by decide
  intervals := by decide

/-- Its channel, and the same after a poll that was not modified. -/
def commandedChannel : DiscoveryChannel :=
  createdChannel sampleTurn sampleCommand "https://a.in/index.xml".toList

def unmodifiedOnce : DiscoveryChannel :=
  completeChannel (finish commandedChannel 9 .notModified 0 0) commandedChannel

/- 301 seconds and half as much again are 451.5 seconds, and the even neighbour is 452. -/
theorem unmodifiedOnce_adaptive :
    unmodifiedOnce.currentPollSeconds = 452 ∧
      ∀ position entry,
        (∃ child, createCommand (sampleExternals []) unmodifiedOnce position entry =
          .ok (some child)) ↔ ((sampleExternals []).httpUrl entry.location).isSome = true := by
  have hbuild : CreateChannelCommand.build (sampleExternals []).httpUrl
      { publisherId := 1
        channelType := .sitemap
        endpointUrl := "https://a.in/index.xml".toList
        strategyVersion := " v1 ".toList
        pollMinSeconds := 60
        pollMaxSeconds := 7200
        currentPollSeconds := 301 } = .ok sampleCommand := rfl
  have hindex : PolledChannel (sampleExternals []) commandedChannel := .created _ _ hbuild
  have hpolled : PolledChannel (sampleExternals []) unmodifiedOnce :=
    hindex.completed ⟨rfl, by decide⟩
  exact ⟨by decide, (polledChannel_adaptive (sampleExternals []) unmodifiedOnce hpolled).2.1⟩

/-! ### All channels, with their polls in any order -/

/-- The command of a `create_channel` call has passed its validation. -/
def Validated (ext : Externals) (_ : ChannelWorld) : ChannelStep → Prop
  | .act _ (.createChannel _ command) =>
    ∃ args, CreateChannelCommand.build ext.httpUrl args = .ok command
  | _ => True

/-- Rows and copies keep to the policy, a copy to the bounds of its row. -/
structure PoliciesKept (w : ChannelWorld) : Prop where
  distinct : (w.db.channels.map (·.id)).Nodup
  known : ∀ poll ∈ w.polls, poll.copy.id ∈ w.db.channels.map (·.id)
  rows : ∀ r ∈ w.db.channels, PollPolicy r
  copies : ∀ poll ∈ w.polls, PollPolicy poll.copy ∧ ∀ r ∈ w.db.channels, r.id = poll.copy.id →
    poll.copy.pollMinSeconds = r.pollMinSeconds ∧ poll.copy.pollMaxSeconds = r.pollMaxSeconds

section runs

variable {ext : Externals} {now : Timestamp} {w w' : ChannelWorld} {op : ChannelOp}

theorem channelAfter_bounds (now : Timestamp) (w : ChannelWorld) (op : ChannelOp)
    (r : DiscoveryChannel) :
    (channelAfter now w op r).pollMinSeconds = r.pollMinSeconds ∧
      (channelAfter now w op r).pollMaxSeconds = r.pollMaxSeconds ∧
      (channelAfter now w op r).strategyVersion = r.strategyVersion :=
  channelAfter_of_assignments (R := fun r r' => r'.pollMinSeconds = r.pollMinSeconds ∧
      r'.pollMaxSeconds = r.pollMaxSeconds ∧ r'.strategyVersion = r.strategyVersion)
    (fun _ => ⟨rfl, rfl, rfl⟩) (fun _ _ => ⟨rfl, rfl, rfl⟩) (fun _ => ⟨rfl, rfl, rfl⟩)
    (fun _ _ _ => ⟨rfl, rfl, rfl⟩) (fun completion r => (completeChannel_intervals completion r).2)
    w op r

theorem channelAfter_policy (hkept : PoliciesKept w) {r : DiscoveryChannel}
    (hr : r ∈ w.db.channels) : PollPolicy (channelAfter now w op r) := by
  have hpolicy := hkept.rows r hr
  obtain ⟨hmin, hmax, hversion⟩ := channelAfter_bounds now w op r
  have hsame : (channelAfter now w op r).currentPollSeconds = r.currentPollSeconds →
      PollPolicy (channelAfter now w op r) := by
    intro hcurrent
    exact ⟨by rw [hversion]; exact hpolicy.strategyVersion,
      by rw [hmin]; exact hpolicy.pollMinSeconds, by rw [hmax]; exact hpolicy.pollMaxSeconds,
      by rw [hmin, hmax, hcurrent]; exact hpolicy.intervals⟩
  obtain ⟨_, _, hcurrent⟩ | ⟨_, hscheduled⟩ | hcompletes := channelAfter_schedule now op hr
  · exact hsame hcurrent
  · exact hsame (by rw [hscheduled]; rfl)
  · cases op with
    | complete place runId status observationCount etag lastModified =>
      obtain ⟨poll, hpoll, hid⟩ := hcompletes
      obtain ⟨_, hbounds⟩ := hkept.copies poll (List.mem_of_getElem? hpoll)
      obtain ⟨hcopyMin, hcopyMax⟩ := hbounds r hr hid.symm
      rw [channelAfter_complete hpoll, completeRow_of_eq hid.symm]
      exact completeChannel_policy hpolicy ⟨rfl, rfl⟩ hcopyMin hcopyMax
    | _ => exact hcompletes.elim

theorem freshChannel_policy {r : DiscoveryChannel} (hr : FreshChannel now op r)
    (hvalid : Validated ext w (.act now op)) : PollPolicy r := by
  cases hr with
  | discover id name slug canonicalDomain frequency endpoints endpoint endpointUrl =>
    exact discoveredChannel_policy id frequency now endpoint endpointUrl
  | create turn command endpointUrl =>
    obtain ⟨args, hbuild⟩ := hvalid
    exact createdChannel_policy hbuild { turn with now } endpointUrl

theorem policiesKept_act (hkept : PoliciesKept w) (hvalid : Validated ext w (.act now op))
    (h : act ext now w op = some w') : PoliciesKept w' := by
  have hknown : ∀ poll ∈ w'.polls, poll.copy.id ∈ w.db.channels.map (·.id) := by
    intro poll hpoll
    obtain ⟨old, hold, hcopy, _⟩ | hleases := act_polls h hpoll
    · exact hcopy ▸ hkept.known old hold
    · exact mem_of_leases hleases
  have hrows : ∀ r ∈ w'.db.channels, PollPolicy r := by
    obtain ⟨added, hchannels, hfresh, _⟩ := act_channels h
    intro r hr
    rw [hchannels, List.mem_append] at hr
    obtain hr | hr := hr
    · obtain ⟨q, hq, rfl⟩ := List.mem_map.mp hr
      exact channelAfter_policy hkept hq
    · exact freshChannel_policy (hfresh r hr) hvalid
  refine ⟨act_distinct h hkept.distinct, fun poll hpoll => act_ids h (hknown poll hpoll), hrows, ?_⟩
  intro poll hpoll
  obtain ⟨old, hold, hcopy, _⟩ | hleases := act_polls h hpoll
  · obtain ⟨hpolicy, hbounds⟩ := hkept.copies old hold
    rw [hcopy] at hpolicy hbounds
    refine ⟨hpolicy, ?_⟩
    intro r hr hid
    obtain ⟨q, hq, rfl⟩ := act_known_row h hkept.distinct hr (hid ▸ hknown poll hpoll)
    rw [channelAfter_id] at hid
    obtain ⟨hmin, hmax, _⟩ := channelAfter_bounds now w op q
    rw [hmin, hmax]
    exact hbounds q hq hid
  · -- A new copy is the row that its lease leaves behind.
    obtain ⟨q, hq, hid⟩ := List.mem_map.mp (mem_of_leases hleases)
    rw [← channelAfter_of_leases hkept.distinct hleases hq hid]
    refine ⟨channelAfter_policy hkept hq, ?_⟩
    intro r hr hrid
    rw [channelAfter_id] at hrid
    obtain ⟨p, hp, rfl⟩ := act_known_row h hkept.distinct hr (hrid ▸ List.mem_map_of_mem hq)
    rw [channelAfter_id] at hrid
    obtain rfl := List.inj_on_of_nodup_map hkept.distinct hp hq hrid
    exact ⟨rfl, rfl⟩

end runs

/- From the empty tables, with polls that overlap and complete in any order: as long as all
commands are validated, rows and copies keep to the bounds. -/
theorem policies_of_validated (ext : Externals) (clock : Timestamp) (steps : List ChannelStep)
    (w : ChannelWorld) (h : Runs.exec (channelStep ext) (emptyWorld clock) steps = some w)
    (hvalid : Runs.Every (channelStep ext) (Validated ext) (emptyWorld clock) steps) :
    (∀ r ∈ w.db.channels, PollPolicy r) ∧ ∀ poll ∈ w.polls, PollPolicy poll.copy := by
  have hstart : PoliciesKept (emptyWorld clock) :=
    ⟨List.nodup_nil, fun _ hpoll => absurd hpoll List.not_mem_nil,
      fun _ hr => absurd hr List.not_mem_nil, fun _ hpoll => absurd hpoll List.not_mem_nil⟩
  have hkept : PoliciesKept w := by
    refine Runs.invariant_of_every (I := PoliciesKept) hstart ?_ hvalid h
    intro m step n hkept hvalid hn
    obtain ⟨clock, rfl, _, rfl⟩ | ⟨now, op, rfl, _, hact⟩ := channelStep_cases hn
    · exact ⟨hkept.distinct, hkept.known, hkept.rows, hkept.copies⟩
    · exact policiesKept_act hkept hvalid hact
  exact ⟨hkept.rows, fun poll hpoll => (hkept.copies poll hpoll).1⟩

end Newsintel.Acquisition
