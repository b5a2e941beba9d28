import Newsintel.Acquisition.ChannelEffects

/-!
# Accepted requests to poll a channel

`schedule_now` and `create_fetch_job` write the instant of the request to `next_poll_at`, and
`complete` writes the next regular poll there, whatever it finds. A poll that has fetched
before a request and completes after it puts the request off.
-/

namespace Newsintel.Acquisition

open PyText

/-- A channel with a request that no poll has fetched after is due, if it is active. -/
def RequestsStand (w : ChannelWorld) : Prop :=
  ∀ r ∈ w.db.channels, r.id ∈ w.awaiting → r.active = true →
    ∃ t, r.nextPollAt = some t ∧ t ≤ w.clock

/-- A poll of an active channel that still awaits a fetch is not completed, unless the
`next_poll_at` of the completion has passed already. -/
def LeavesRequests (w : ChannelWorld) : ChannelStep → Prop
  | .act now (.complete place _ status observationCount _ _) =>
    ∀ poll ∈ w.polls[place]?, poll.copy.id ∈ w.awaiting →
      ∀ r ∈ w.db.channels, r.id = poll.copy.id → r.active = true →
        now + seconds (nextIntervalSeconds poll.copy status observationCount) ≤ w.clock
  | _ => True

/-- Requests are for channels that are there. -/
structure RequestsKnown (w : ChannelWorld) : Prop where
  distinct : (w.db.channels.map (·.id)).Nodup
  known : ∀ channelId ∈ w.awaiting, channelId ∈ w.db.channels.map (·.id)

section requests

variable {ext : Externals} {now : Timestamp} {w w' : ChannelWorld} {op : ChannelOp}

theorem completeChannel_nextPollAt (completion : PollCompletion) (r : DiscoveryChannel) :
    (completeChannel completion r).nextPollAt = some completion.nextPollAt := by
  simp only [completeChannel]
  split <;> rfl

theorem requestsKnown_act (hknown : RequestsKnown w) (h : act ext now w op = some w') :
    RequestsKnown w' := by
  refine ⟨act_distinct h hknown.distinct, ?_⟩
  intro channelId hid
  apply act_ids h
  obtain hid | hid := act_awaiting h hid
  · exact hknown.known channelId hid
  · exact mem_of_requested hid

/- A row that was there, after a step that meets the condition. -/
theorem channelAfter_due (hknown : RequestsKnown w) (hstand : RequestsStand w)
    (hleaves : LeavesRequests w (.act now op)) (hnow : now ≤ w.clock)
    (h : act ext now w op = some w') {r : DiscoveryChannel} (hr : r ∈ w.db.channels)
    (hawaiting : r.id ∈ w'.awaiting) (hactive : r.active = true) :
    ∃ t, (channelAfter now w op r).nextPollAt = some t ∧ t ≤ w.clock := by
  obtain hold | hrequested := act_awaiting h hawaiting
  · obtain hsame | ⟨_, hscheduled⟩ | hcompletes := channelAfter_schedule now op hr
    · rw [hsame.1]
      exact hstand r hr hold hactive
    · exact ⟨now, by rw [hscheduled]; rfl, hnow⟩
    · cases op with
      | complete place runId status observationCount etag lastModified =>
        obtain ⟨poll, hpoll, hid⟩ := hcompletes
        rw [channelAfter_complete hpoll, completeRow_of_eq hid.symm, completeChannel_nextPollAt]
        exact ⟨_, rfl, hleaves poll hpoll (hid ▸ hold) r hr hid.symm hactive⟩
      | _ => exact hcompletes.elim
  · rw [channelAfter_of_requested hknown.distinct hr hrequested]
    exact ⟨now, rfl, hnow⟩

theorem requestsStand_act (hknown : RequestsKnown w) (hstand : RequestsStand w)
    (hleaves : LeavesRequests w (.act now op)) (hnow : now ≤ w.clock)
    (h : act ext now w op = some w') : RequestsStand w' := by
  intro r hr hawaiting hactive
  have hold : r.id ∈ w.db.channels.map (·.id) := by
    obtain hid | hid := act_awaiting h hawaiting
    · exact hknown.known r.id hid
    · exact mem_of_requested hid
  obtain ⟨q, hq, rfl⟩ := act_known_row h hknown.distinct hr hold
  rw [channelAfter_id] at hawaiting
  rw [act_clock h]
  exact channelAfter_due hknown hstand hleaves hnow h hq hawaiting
    (active_of_channelAfter hactive)

/- The completion of a poll keeps the request only if it meets the condition. -/
theorem leavesRequests_of_stand (hstand : RequestsStand w') (h : act ext now w op = some w') :
    LeavesRequests w (.act now op) := by
  cases op with
  | complete place runId status observationCount etag lastModified =>
    obtain ⟨poll, hpoll, _, rfl⟩ := act_complete h
    intro poll' hpoll' hawaiting r hr hid hactive
    cases hpoll.symm.trans hpoll'
    obtain ⟨t, ht, hdue⟩ := hstand _ (List.mem_map_of_mem hr)
      (by rw [completeRow_of_eq hid, (completeChannel_keys _ r).1, hid]; exact hawaiting)
      (by rw [completeRow_of_eq hid, (completeChannel_keys _ r).2.2, hactive])
    rw [completeRow_of_eq hid, completeChannel_nextPollAt] at ht
    cases ht
    exact hdue
  | _ => trivial

end requests

/- From the empty tables, accepted requests stand exactly as long as no poll of a channel
that still awaits a fetch is completed with a later `next_poll_at`. -/
theorem requestsStand_iff_leavesRequests (ext : Externals) (clock : Timestamp)
    (steps : List ChannelStep) (w : ChannelWorld)
    (h : Runs.exec (channelStep ext) (emptyWorld clock) steps = some w) :
    Runs.Throughout (channelStep ext) RequestsStand (emptyWorld clock) steps ↔
      Runs.Every (channelStep ext) LeavesRequests (emptyWorld clock) steps := by
  refine Runs.throughout_iff_every (I := RequestsKnown)
    ⟨List.nodup_nil, fun _ hid => absurd hid List.not_mem_nil⟩
    (fun r hr => absurd hr List.not_mem_nil) ?_ ?_ h
  · intro m step n hknown _ _ hn
    obtain ⟨clock, rfl, _, rfl⟩ | ⟨now, op, rfl, _, hact⟩ := channelStep_cases hn
    · exact ⟨hknown.distinct, hknown.known⟩
    · exact requestsKnown_act hknown hact
  · intro m step n hknown hstand hn
    obtain ⟨clock, rfl, hclock, rfl⟩ | ⟨now, op, rfl, hnow, hact⟩ := channelStep_cases hn
    · refine iff_of_true ?_ trivial
      intro r hr hawaiting hactive
      obtain ⟨t, ht, hdue⟩ := hstand r hr hawaiting hactive
      exact ⟨t, ht, hdue.trans hclock⟩
    · constructor
      · intro hstand'
        exact leavesRequests_of_stand hstand' hact
      · intro hleaves
        exact requestsStand_act hknown hstand hleaves hnow hact

instance (w : ChannelWorld) (step : ChannelStep) : Decidable (LeavesRequests w step) :=
  match step with
  | .act now (.complete place _ status observationCount _ _) =>
    inferInstanceAs (Decidable (∀ poll ∈ w.polls[place]?, poll.copy.id ∈ w.awaiting →
      ∀ r ∈ w.db.channels, r.id = poll.copy.id → r.active = true →
        now + seconds (nextIntervalSeconds poll.copy status observationCount) ≤ w.clock))
  | .tick _ | .act _ (.createPublisher ..) | .act _ (.discoverPublisher ..)
  | .act _ (.createChannel ..) | .act _ (.deletePublisher _) | .act _ (.commitDeletion _)
  | .act _ (.createFetchJob _) | .act _ (.scheduleNow _) | .act _ (.leaseDueChannels ..)
  | .act _ (.fetch _) =>
    .isTrue trivial

/-- A request before the lease, and a poll that answers it. -/
def answeredRequest : List ChannelStep :=
  [.act 0 (.discoverPublisher 1 "Example".toList "example".toList "a.in".toList .hourly
      [sampleSitemap]),
    .act 0 (.scheduleNow 2), .act 0 (.leaseDueChannels "a".toList 20 120 []), .act 0 (.fetch 0),
    .act 0 (.complete 0 9 .succeeded 0 none none)]

/-- A request between the fetch of a poll and its completion. -/
def overwrittenRequest : List ChannelStep :=
  [.act 0 (.discoverPublisher 1 "Example".toList "example".toList "a.in".toList .hourly
      [sampleSitemap]),
    .act 0 (.leaseDueChannels "a".toList 20 120 []), .act 0 (.fetch 0), .act 0 (.scheduleNow 2),
    .act 0 (.complete 0 9 .succeeded 0 none none)]

theorem answeredRequest_stands :
    Runs.Throughout (channelStep (sampleExternals [])) RequestsStand (emptyWorld 0)
      answeredRequest := by
  have hend : (Runs.exec (channelStep (sampleExternals [])) (emptyWorld 0)
      answeredRequest).isSome = true := by decide +kernel
  obtain ⟨w, hw⟩ := Option.isSome_iff_exists.mp hend
  refine (requestsStand_iff_leavesRequests _ 0 answeredRequest w hw).mpr ?_
  exact Runs.every_of_decide (by decide +kernel)

/- No poll has fetched after the request, and the channel is not due. -/
theorem overwrittenRequest_lost :
    ¬ ∀ (ext : Externals) (clock : Timestamp) (steps : List ChannelStep) (w : ChannelWorld),
      Runs.exec (channelStep ext) (emptyWorld clock) steps = some w → RequestsStand w := by
  intro h
  have hend : (Runs.exec (channelStep (sampleExternals [])) (emptyWorld 0)
      overwrittenRequest).any (fun w => w.db.channels.any fun r => decide (r.id ∈ w.awaiting) &&
        r.active && !r.nextPollAt.any (· ≤ w.clock)) = true := by decide +kernel
  obtain ⟨w, hw, hfacts⟩ := (Option.any_eq_true _ _).mp hend
  obtain ⟨r, hr, hrow⟩ := List.any_eq_true.mp hfacts
  simp only [Bool.and_eq_true, decide_eq_true_eq, Bool.not_eq_true'] at hrow
  obtain ⟨⟨hawaiting, hactive⟩, hdue⟩ := hrow
  obtain ⟨t, ht, hle⟩ := h _ _ _ w hw r hr hawaiting hactive
  rw [ht, Option.any_some, decide_eq_false_iff_not] at hdue
  exact hdue hle

end Newsintel.Acquisition
