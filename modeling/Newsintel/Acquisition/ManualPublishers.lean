import Newsintel.Acquisition.ChannelEffects

/-!
# Polls of manual publishers

The channels of a manual publisher start without a `next_poll_at`. A completed poll sets one,
an hour later, and a channel that a poll of theirs creates is due at once: either is then
leased without a request.
-/

namespace Newsintel.Acquisition

open PyText

/-- The publisher is polled on request only. -/
def Manual (db : Database) (publisherId : Uuid) : Prop :=
  ∃ p ∈ db.publishers, p.id = publisherId ∧ p.fetchFrequency = .manual

instance (db : Database) (publisherId : Uuid) : Decidable (Manual db publisherId) :=
  inferInstanceAs (Decidable (∃ p ∈ db.publishers, p.id = publisherId ∧ p.fetchFrequency = .manual))

/-- A leased channel of a manual publisher has been requested since its last completed poll. -/
def LeasesOnRequest (w : ChannelWorld) : ChannelStep → Prop
  | .act now (.leaseDueChannels workerId limit leaseSeconds locked) =>
    ∀ copy ∈ (leaseDueChannels workerId now limit leaseSeconds locked w.db.channels).1,
      Manual w.db copy.publisherId → copy.id ∈ w.asked
  | _ => True

/-- No channel is created for a manual publisher, and the interval since the last poll of a
channel of such a publisher has not passed at a lease call, unless it has been requested. -/
def ManualAtRest (w : ChannelWorld) : ChannelStep → Prop
  | .act _ (.createChannel _ command) => ¬ Manual w.db command.publisherId
  | .act now (.leaseDueChannels ..) =>
    ∀ r ∈ w.db.channels, Manual w.db r.publisherId → r.id ∉ w.asked →
      ∀ t ∈ r.lastPolledAt, now < t + seconds r.currentPollSeconds
  | _ => True

/-- The next poll is one interval after the last, if there was any. -/
def RegularSchedule (r : DiscoveryChannel) : Prop :=
  r.nextPollAt = r.lastPolledAt.map fun t => t + seconds r.currentPollSeconds

/-- Channels have a publisher, and the schedule of a channel of a manual publisher is regular
but for requests. -/
structure ManualScheduled (w : ChannelWorld) : Prop where
  known : ∀ r ∈ w.db.channels, r.publisherId ∈ w.db.publishers.map (·.id)
  regular : ∀ r ∈ w.db.channels, Manual w.db r.publisherId → r.id ∉ w.asked → RegularSchedule r

section manual

variable {ext : Externals} {now : Timestamp} {w w' : ChannelWorld} {op : ChannelOp}

theorem publisherAfter_fetchFrequency (now : Timestamp) (w : ChannelWorld) (op : ChannelOp)
    (p : PublisherModel) : (publisherAfter now w op p).fetchFrequency = p.fetchFrequency := by
  cases op with
  | commitDeletion place =>
    cases h : w.deletions[place]? with
    | none => simp only [publisherAfter, h, Option.map_none, Option.getD_none]
    | some d =>
      rw [publisherAfter_commitDeletion h, Deletion.retire]
      split <;> rfl
  | createFetchJob publisherId =>
    simp only [publisherAfter]
    split <;> rfl
  | _ => rfl

/- A publisher that was there was manual before. -/
theorem manual_of_act (h : act ext now w op = some w') {publisherId : Uuid}
    (hknown : publisherId ∈ w.db.publishers.map (·.id)) (hmanual : Manual w'.db publisherId) :
    Manual w.db publisherId := by
  obtain ⟨added, hpublishers, hnew⟩ := act_publishers h
  obtain ⟨p, hp, hid, hfrequency⟩ := hmanual
  rw [hpublishers, List.mem_append] at hp
  obtain hp | hp := hp
  · obtain ⟨q, hq, rfl⟩ := List.mem_map.mp hp
    rw [publisherAfter_id] at hid
    rw [publisherAfter_fetchFrequency] at hfrequency
    exact ⟨q, hq, hid, hfrequency⟩
  · exact absurd (hid ▸ hknown) (hnew p hp).2

theorem publisherIds_act (h : act ext now w op = some w') :
    w.db.publishers.map (·.id) ⊆ w'.db.publishers.map (·.id) := by
  obtain ⟨added, hpublishers, _⟩ := act_publishers h
  intro publisherId hid
  obtain ⟨p, hp, rfl⟩ := List.mem_map.mp hid
  rw [hpublishers]
  exact List.mem_map.mpr ⟨publisherAfter now w op p,
    List.mem_append_left _ (List.mem_map_of_mem hp), publisherAfter_id now w op p⟩

/- The row of a completed poll. -/
theorem completeChannel_regular {copy r : DiscoveryChannel} {runId : Uuid}
    {status : PollRunStatus} {observationCount : ℕ} {etag lastModified : Option Text} :
    RegularSchedule (completeChannel
      (pollCompletion copy runId status observationCount etag lastModified now) r) := by
  simp only [completeChannel]
  split <;> rfl

/- A row that was there keeps a regular schedule, unless it is requested. -/
theorem channelAfter_regular (hsched : ManualScheduled w) (h : act ext now w op = some w')
    {r : DiscoveryChannel} (hr : r ∈ w.db.channels) (hmanual : Manual w.db r.publisherId)
    (hasked : r.id ∉ w'.asked) : RegularSchedule (channelAfter now w op r) := by
  have hsettled : r.id ∈ w.asked ∨ r.id ∈ requestedChannels w op → Completes w op r.id := by
    intro hid
    exact (act_asked h hid).resolve_left hasked
  have hcompleted : Completes w op r.id → RegularSchedule (channelAfter now w op r) := by
    intro hcompletes
    cases op with
    | complete place runId status observationCount etag lastModified =>
      obtain ⟨poll, hpoll, hid⟩ := hcompletes
      rw [channelAfter_complete hpoll, completeRow_of_eq hid.symm]
      exact completeChannel_regular
    | _ => exact hcompletes.elim
  obtain ⟨hnext, hlast, hseconds⟩ | ⟨hrequested, _⟩ | hcompletes :=
    channelAfter_schedule now op hr
  · by_cases hold : r.id ∈ w.asked
    · exact hcompleted (hsettled (Or.inl hold))
    · rw [RegularSchedule, hnext, hlast, hseconds]
      exact hsched.regular r hr hmanual hold
  · exact hcompleted (hsettled (Or.inr hrequested))
  · exact hcompleted hcompletes

/- A new row of a manual publisher has no `next_poll_at`, but for `create_channel`. -/
theorem freshChannel_regular {r : DiscoveryChannel} (hr : FreshChannel now op r)
    (hrest : ManualAtRest w (.act now op)) (h : act ext now w op = some w')
    (hmanual : Manual w'.db r.publisherId) : RegularSchedule r := by
  obtain ⟨p, hp, hid, hfrequency⟩ := hmanual
  cases hr with
  | discover id name slug canonicalDomain frequency endpoints endpoint endpointUrl =>
    obtain ⟨db, hdb, rfl⟩ := answered h
    obtain ⟨hnew, hadded, _⟩ := discoverPublisher_rows hdb
    have hid : p.id = id := hid
    have hp : p ∈ db.publishers := hp
    rw [hadded, List.mem_append, List.mem_singleton] at hp
    obtain hp | rfl := hp
    · exact absurd (hid ▸ List.mem_map_of_mem hp) hnew
    · have hmanual : frequency = .manual := hfrequency
      show firstPollAt frequency now = none
      rw [hmanual]
      rfl
  | create turn command endpointUrl =>
    obtain ⟨⟨_, db⟩, hdb, rfl⟩ := answered h
    obtain ⟨_, _, _, _, rfl⟩ := createChannel_rows hdb
    exact absurd ⟨p, hp, hid, hfrequency⟩ hrest

theorem freshChannel_known {r : DiscoveryChannel} (hr : FreshChannel now op r)
    (h : act ext now w op = some w') : r.publisherId ∈ w'.db.publishers.map (·.id) := by
  cases hr with
  | discover id name slug canonicalDomain frequency endpoints endpoint endpointUrl =>
    obtain ⟨db, hdb, rfl⟩ := answered h
    show id ∈ db.publishers.map (·.id)
    rw [(discoverPublisher_rows hdb).2.1, List.map_append]
    exact List.mem_append_right _ (List.mem_singleton_self _)
  | create turn command endpointUrl =>
    apply publisherIds_act h
    obtain ⟨⟨_, db⟩, hdb, rfl⟩ := answered h
    obtain ⟨_, _, hpublisher, _⟩ := createChannel_rows hdb
    exact hpublisher

theorem manualScheduled_act (hsched : ManualScheduled w) (hrest : ManualAtRest w (.act now op))
    (h : act ext now w op = some w') : ManualScheduled w' := by
  obtain ⟨added, hchannels, hfresh, _⟩ := act_channels h
  constructor
  · intro r hr
    rw [hchannels, List.mem_append] at hr
    obtain hr | hr := hr
    · obtain ⟨q, hq, rfl⟩ := List.mem_map.mp hr
      rw [channelAfter_publisherId]
      exact publisherIds_act h (hsched.known q hq)
    · exact freshChannel_known (hfresh r hr) h
  · intro r hr hmanual hasked
    rw [hchannels, List.mem_append] at hr
    obtain hr | hr := hr
    · obtain ⟨q, hq, rfl⟩ := List.mem_map.mp hr
      rw [channelAfter_publisherId] at hmanual
      rw [channelAfter_id] at hasked
      exact channelAfter_regular hsched h hq (manual_of_act h (hsched.known q hq) hmanual) hasked
    · exact freshChannel_regular (hfresh r hr) hrest h hmanual

/- What a lease call picks has been requested. -/
theorem leasesOnRequest_of_rest (hsched : ManualScheduled w)
    (hrest : ManualAtRest w (.act now op)) : LeasesOnRequest w (.act now op) := by
  cases op with
  | leaseDueChannels workerId limit leaseSeconds locked =>
    intro copy hcopy hmanual
    obtain ⟨r, hr, rfl⟩ := List.mem_map.mp hcopy
    obtain ⟨hmem, hdue⟩ := channelSelect_mem hr
    by_contra hasked
    have hregular := hsched.regular r hmem hmanual hasked
    simp only [channelDue, Bool.and_eq_true] at hdue
    cases hlast : r.lastPolledAt with
    | none =>
      rw [RegularSchedule, hlast] at hregular
      rw [hregular] at hdue
      exact Bool.false_ne_true hdue.1.2
    | some t =>
      rw [RegularSchedule, hlast] at hregular
      rw [hregular, Option.map_some, Option.any_some, decide_eq_true_eq] at hdue
      exact absurd hdue.1.2 (not_le.mpr (hrest r hmem hmanual hasked t hlast))
  | _ => trivial

end manual

/- From the empty tables: as long as no channel is created for a manual publisher, and no
lease call comes after the interval of an unrequested channel, manual publishers are polled
on request only. -/
theorem leasesOnRequest_of_manualAtRest (ext : Externals) (clock : Timestamp)
    (steps : List ChannelStep) (w : ChannelWorld)
    (h : Runs.exec (channelStep ext) (emptyWorld clock) steps = some w)
    (hrest : Runs.Every (channelStep ext) ManualAtRest (emptyWorld clock) steps) :
    Runs.Every (channelStep ext) LeasesOnRequest (emptyWorld clock) steps := by
  refine Runs.every_of_every (I := ManualScheduled)
    ⟨fun _ hr => absurd hr List.not_mem_nil, fun _ hr => absurd hr List.not_mem_nil⟩ ?_ ?_ hrest h
  · intro m step n hsched hrest hn
    obtain ⟨clock, rfl, _, rfl⟩ | ⟨now, op, rfl, _, hact⟩ := channelStep_cases hn
    · exact ⟨hsched.known, hsched.regular⟩
    · exact manualScheduled_act hsched hrest hact
  · intro m step n hsched hrest hn
    obtain ⟨clock, rfl, _, _⟩ | ⟨now, op, rfl, _, _⟩ := channelStep_cases hn
    · trivial
    · exact leasesOnRequest_of_rest hsched hrest

instance (w : ChannelWorld) (step : ChannelStep) : Decidable (ManualAtRest w step) :=
  match step with
  | .act _ (.createChannel _ command) =>
    inferInstanceAs (Decidable (¬ Manual w.db command.publisherId))
  | .act now (.leaseDueChannels ..) =>
    inferInstanceAs (Decidable (∀ r ∈ w.db.channels, Manual w.db r.publisherId → r.id ∉ w.asked →
      ∀ t ∈ r.lastPolledAt, now < t + seconds r.currentPollSeconds))
  | .tick _ | .act _ (.createPublisher ..) | .act _ (.discoverPublisher ..)
  | .act _ (.deletePublisher _) | .act _ (.commitDeletion _) | .act _ (.createFetchJob _)
  | .act _ (.scheduleNow _) | .act _ (.fetch _) | .act _ (.complete ..) =>
    .isTrue trivial

/-- A manual publisher, polled once on request. -/
def requestedPoll : List ChannelStep :=
  [.act 0 (.discoverPublisher 1 "Example".toList "example".toList "a.in".toList .manual
      [sampleSitemap]),
    .act 0 (.leaseDueChannels "a".toList 20 120 []), .act 0 (.scheduleNow 2),
    .act 0 (.leaseDueChannels "a".toList 20 120 []), .act 0 (.fetch 0),
    .act 0 (.complete 0 9 .succeeded 0 none none)]

/-- An hour after that poll the channel is leased again. -/
def hourLater : List ChannelStep :=
  requestedPoll ++ [.tick 3600000000, .act 3600000000 (.leaseDueChannels "a".toList 20 120 [])]

theorem requestedPoll_onRequest :
    Runs.Every (channelStep (sampleExternals [])) LeasesOnRequest (emptyWorld 0)
      requestedPoll := by
  have hend : (Runs.exec (channelStep (sampleExternals [])) (emptyWorld 0)
      requestedPoll).isSome = true := by decide +kernel
  obtain ⟨w, hw⟩ := Option.isSome_iff_exists.mp hend
  refine leasesOnRequest_of_manualAtRest _ 0 requestedPoll w hw ?_
  exact Runs.every_of_decide (by decide +kernel)

/- The completed poll has set `next_poll_at`: nobody has asked for the second one. -/
theorem hourLater_unasked :
    ¬ ∀ (ext : Externals) (clock : Timestamp) (steps : List ChannelStep) (w : ChannelWorld),
      Runs.exec (channelStep ext) (emptyWorld clock) steps = some w →
        Runs.Every (channelStep ext) LeasesOnRequest (emptyWorld clock) steps := by
  intro h
  have hend : (Runs.exec (channelStep (sampleExternals [])) (emptyWorld 0)
      hourLater).isSome = true := by decide +kernel
  obtain ⟨w, hw⟩ := Option.isSome_iff_exists.mp hend
  have hevery := h _ 0 hourLater w hw
  have hstate : (Runs.exec (channelStep (sampleExternals [])) (emptyWorld 0)
      (hourLater.take 7)).any (fun m : ChannelWorld => !decide
        (∀ copy ∈ (leaseDueChannels "a".toList 3600000000 20 120 [] m.db.channels).1,
          Manual m.db copy.publisherId → copy.id ∈ m.asked)) = true := by decide +kernel
  obtain ⟨m, hm, hunasked⟩ := (Option.any_eq_true _ _).mp hstate
  rw [Bool.not_eq_true', decide_eq_false_iff_not] at hunasked
  exact hunasked (hevery (hourLater.take 7) _ [] m rfl hm)

end Newsintel.Acquisition
