import Newsintel.Acquisition.ChannelEffects

/-!
# Exclusive leases of channels

`complete` releases the lease of the row, whoever holds it. A worker that completes its poll
after its lease has expired releases the lease of the worker that came after it.
-/

namespace Newsintel.Acquisition

open PyText

/-- The lease of a copy has not expired. -/
def InFlightPoll.Held (poll : InFlightPoll) (clock : Timestamp) : Prop :=
  ∃ t, poll.copy.leaseExpiresAt = some t ∧ clock ≤ t

/-- No call hands out a channel that another worker has in hand, with an unexpired lease. -/
def LeasesExclusively (w : ChannelWorld) : ChannelStep → Prop
  | .act now (.leaseDueChannels workerId limit leaseSeconds locked) =>
    ∀ copy ∈ (leaseDueChannels workerId now limit leaseSeconds locked w.db.channels).1,
      ∀ poll ∈ w.polls, poll.copy.id = copy.id → poll.Held w.clock →
        poll.copy.leaseOwner = some workerId
  | _ => True

/-- A poll is completed when no other poll of its channel has an unexpired lease. -/
def ReleasesOwnLease (w : ChannelWorld) : ChannelStep → Prop
  | .act _ (.complete place ..) =>
    ∀ poll ∈ w.polls[place]?, ∀ other ∈ w.polls.eraseIdx place,
      other.copy.id = poll.copy.id → ¬ other.Held w.clock
  | _ => True

/-- Polls in hand are of channels that are there, and the row of an unexpired lease is leased
at least as long. -/
structure LeasesRecorded (w : ChannelWorld) : Prop where
  distinct : (w.db.channels.map (·.id)).Nodup
  known : ∀ poll ∈ w.polls, poll.copy.id ∈ w.db.channels.map (·.id)
  recorded : ∀ poll ∈ w.polls, ∀ t, poll.copy.leaseExpiresAt = some t → w.clock ≤ t →
    ∀ r ∈ w.db.channels, r.id = poll.copy.id → ∃ u, r.leaseExpiresAt = some u ∧ t ≤ u

/-- The poll is not the one that the operation completes. -/
def StaysInHand (w : ChannelWorld) : ChannelOp → InFlightPoll → Prop
  | .complete place .., poll => poll ∈ w.polls.eraseIdx place
  | _, _ => True

/-- The operation hands out the copy. -/
def Leases (now : Timestamp) (w : ChannelWorld) : ChannelOp → DiscoveryChannel → Prop
  | .leaseDueChannels workerId limit leaseSeconds locked, copy =>
    copy ∈ (leaseDueChannels workerId now limit leaseSeconds locked w.db.channels).1
  | _, _ => False

section leases

variable {ext : Externals} {now : Timestamp} {w w' : ChannelWorld} {op : ChannelOp}

/- A picked row is free of the leases in hand. -/
theorem not_held_of_picked (hrec : LeasesRecorded w) (hnow : now ≤ w.clock) {limit : ℕ}
    {locked : List Uuid} {r : DiscoveryChannel}
    (hr : r ∈ channelSelect now limit locked w.db.channels) {poll : InFlightPoll}
    (hpoll : poll ∈ w.polls) (hid : r.id = poll.copy.id) : ¬ poll.Held w.clock := by
  rintro ⟨t, ht, hheld⟩
  obtain ⟨hmem, hdue⟩ := channelSelect_mem hr
  obtain ⟨u, hu, htu⟩ := hrec.recorded poll hpoll t ht hheld r hmem hid
  simp only [channelDue, hu, Bool.and_eq_true, Option.all_some, decide_eq_true_eq] at hdue
  have hexpired : u < now := hdue.2
  exact absurd hexpired (not_lt.mpr (hnow.trans (hheld.trans htu)))

/- The copies in hand are the earlier ones, but for a completed one, and the leased ones. -/
theorem act_polls (h : act ext now w op = some w') {poll : InFlightPoll}
    (hpoll : poll ∈ w'.polls) :
    (∃ old ∈ w.polls, old.copy = poll.copy ∧ StaysInHand w op old) ∨
      Leases now w op poll.copy := by
  cases op with
  | createPublisher | discoverPublisher | createChannel | createFetchJob =>
    obtain ⟨_, _, rfl⟩ := answered h
    exact Or.inl ⟨poll, hpoll, rfl, trivial⟩
  | deletePublisher publisherId =>
    obtain ⟨_, rfl⟩ := act_deletePublisher h
    exact Or.inl ⟨poll, hpoll, rfl, trivial⟩
  | commitDeletion place =>
    obtain ⟨_, _, rfl⟩ := Option.map_eq_some_iff.mp h
    exact Or.inl ⟨poll, hpoll, rfl, trivial⟩
  | scheduleNow channelId =>
    cases h
    exact Or.inl ⟨poll, hpoll, rfl, trivial⟩
  | leaseDueChannels workerId limit leaseSeconds locked =>
    cases h
    obtain hpoll | hpoll := List.mem_append.mp hpoll
    · exact Or.inl ⟨poll, hpoll, rfl, trivial⟩
    · obtain ⟨copy, hcopy, rfl⟩ := List.mem_map.mp hpoll
      exact Or.inr hcopy
  | fetch place =>
    obtain ⟨old, hold, rfl⟩ := Option.map_eq_some_iff.mp h
    obtain hpoll | rfl := List.mem_or_eq_of_mem_set hpoll
    · exact Or.inl ⟨poll, hpoll, rfl, trivial⟩
    · exact Or.inl ⟨old, List.mem_of_getElem? hold, rfl, trivial⟩
  | complete place runId status observationCount etag lastModified =>
    obtain ⟨_, _, _, rfl⟩ := act_complete h
    exact Or.inl ⟨poll, List.mem_of_mem_eraseIdx hpoll, rfl, hpoll⟩

/- The three ways of an operation with the lease of a row. -/
theorem channelAfter_lease (now : Timestamp) (w : ChannelWorld) (op : ChannelOp)
    (r : DiscoveryChannel) :
    (channelAfter now w op r).leaseExpiresAt = r.leaseExpiresAt ∨
      (∃ workerId limit leaseSeconds locked,
        op = .leaseDueChannels workerId limit leaseSeconds locked ∧
          r ∈ channelSelect now limit locked w.db.channels) ∨
      Completes w op r.id := by
  cases op with
  | commitDeletion place =>
    left
    cases h : w.deletions[place]? with
    | none => simp only [channelAfter, h, Option.map_none, Option.getD_none]
    | some d =>
      rw [channelAfter_commitDeletion h, Deletion.silence]
      split <;> rfl
  | createFetchJob publisherId =>
    left
    simp only [channelAfter]
    split <;> rfl
  | scheduleNow scheduled =>
    left
    simp only [channelAfter, scheduleNow]
    split <;> rfl
  | leaseDueChannels workerId limit leaseSeconds locked =>
    simp only [channelAfter]
    split
    · rename_i hpicked
      exact Or.inr (Or.inl ⟨workerId, limit, leaseSeconds, locked, rfl, hpicked⟩)
    · exact Or.inl rfl
  | complete place runId status observationCount etag lastModified =>
    cases h : w.polls[place]? with
    | none =>
      left
      simp only [channelAfter, h, Option.map_none, Option.getD_none]
    | some poll =>
      by_cases hid : r.id = poll.copy.id
      · exact Or.inr (Or.inr ⟨poll, h, hid.symm⟩)
      · rw [channelAfter_complete h, completeRow_of_ne hid]
        exact Or.inl rfl
  | _ => exact Or.inl rfl

/- A new copy is the row that its lease leaves behind. -/
theorem channelAfter_of_leases {copy r : DiscoveryChannel}
    (hd : (w.db.channels.map (·.id)).Nodup) (h : Leases now w op copy)
    (hr : r ∈ w.db.channels) (hid : r.id = copy.id) : channelAfter now w op r = copy := by
  cases op with
  | leaseDueChannels workerId limit leaseSeconds locked =>
    obtain ⟨q, hq, rfl⟩ := List.mem_map.mp h
    obtain rfl := List.inj_on_of_nodup_map hd hr (channelSelect_mem hq).1 hid
    simp only [channelAfter, if_pos hq]
  | _ => exact h.elim

theorem mem_of_leases {copy : DiscoveryChannel} (h : Leases now w op copy) :
    copy.id ∈ w.db.channels.map (·.id) := by
  cases op with
  | leaseDueChannels workerId limit leaseSeconds locked =>
    obtain ⟨q, hq, rfl⟩ := List.mem_map.mp h
    exact List.mem_map.mpr ⟨q, (channelSelect_mem hq).1, rfl⟩
  | _ => exact h.elim

theorem leasesRecorded_act (hrec : LeasesRecorded w) (howns : ReleasesOwnLease w (.act now op))
    (hnow : now ≤ w.clock) (h : act ext now w op = some w') : LeasesRecorded w' := by
  have hknown : ∀ poll ∈ w'.polls, poll.copy.id ∈ w.db.channels.map (·.id) := by
    intro poll hpoll
    obtain ⟨old, hold, hcopy, _⟩ | hleases := act_polls h hpoll
    · exact hcopy ▸ hrec.known old hold
    · exact mem_of_leases hleases
  refine ⟨act_distinct h hrec.distinct, fun poll hpoll => act_ids h (hknown poll hpoll), ?_⟩
  intro poll hpoll t ht hheld r hr hid
  rw [act_clock h] at hheld
  obtain ⟨q, hq, rfl⟩ := act_known_row h hrec.distinct hr (hid ▸ hknown poll hpoll)
  rw [channelAfter_id] at hid
  obtain ⟨old, hold, hcopy, hstays⟩ | hleases := act_polls h hpoll
  · -- An earlier copy: its row keeps the lease, since it is neither picked nor completed.
    rw [← hcopy] at ht hid
    have hheld' : old.Held w.clock := ⟨t, ht, hheld⟩
    obtain hsame | ⟨workerId, limit, leaseSeconds, locked, rfl, hpicked⟩ | hcompletes :=
      channelAfter_lease now w op q
    · rw [hsame]
      exact hrec.recorded old hold t ht hheld q hq hid
    · exact absurd hheld' (not_held_of_picked hrec hnow hpicked hold hid)
    · cases op with
      | complete place runId status observationCount etag lastModified =>
        obtain ⟨done, hdone, hdid⟩ := hcompletes
        exact absurd hheld' (howns done hdone old hstays (hid.symm.trans hdid.symm))
      | _ => exact hcompletes.elim
  · rw [channelAfter_of_leases hrec.distinct hleases hq hid]
    exact ⟨t, ht, le_rfl⟩

end leases

/- From the empty tables: if no poll is completed while another poll of its channel has an
unexpired lease, no call hands out a channel that another worker holds. -/
theorem leasesExclusively_of_releasesOwnLease (ext : Externals) (clock : Timestamp)
    (steps : List ChannelStep) (w : ChannelWorld)
    (h : Runs.exec (channelStep ext) (emptyWorld clock) steps = some w)
    (howns : Runs.Every (channelStep ext) ReleasesOwnLease (emptyWorld clock) steps) :
    Runs.Every (channelStep ext) LeasesExclusively (emptyWorld clock) steps := by
  refine Runs.every_of_every (I := LeasesRecorded)
    ⟨List.nodup_nil, fun _ hpoll => absurd hpoll List.not_mem_nil,
      fun _ hpoll => absurd hpoll List.not_mem_nil⟩ ?_ ?_ howns h
  · intro m step n hrec howns hn
    obtain ⟨clock, rfl, hclock, rfl⟩ | ⟨now, op, rfl, hnow, hact⟩ := channelStep_cases hn
    · refine ⟨hrec.distinct, hrec.known, ?_⟩
      intro poll hpoll t ht hheld
      exact hrec.recorded poll hpoll t ht (hclock.trans hheld)
    · exact leasesRecorded_act hrec howns hnow hact
  · intro m step n hrec _ hn
    obtain ⟨clock, rfl, _, _⟩ | ⟨now, op, rfl, hnow, _⟩ := channelStep_cases hn
    · trivial
    · cases op with
      | leaseDueChannels workerId limit leaseSeconds locked =>
        intro copy hcopy poll hpoll hid hheld
        obtain ⟨r, hr, rfl⟩ := List.mem_map.mp hcopy
        exact absurd hheld (not_held_of_picked hrec hnow hr hpoll hid.symm)
      | _ => trivial

instance (poll : InFlightPoll) (clock : Timestamp) : Decidable (poll.Held clock) :=
  decidable_of_iff (poll.copy.leaseExpiresAt.any (clock ≤ ·) = true) (by
    cases h : poll.copy.leaseExpiresAt <;> simp [InFlightPoll.Held, h])

instance (w : ChannelWorld) (step : ChannelStep) : Decidable (ReleasesOwnLease w step) :=
  match step with
  | .act _ (.complete place ..) =>
    inferInstanceAs (Decidable (∀ poll ∈ w.polls[place]?, ∀ other ∈ w.polls.eraseIdx place,
      other.copy.id = poll.copy.id → ¬ other.Held w.clock))
  | .tick _ | .act _ (.createPublisher ..) | .act _ (.discoverPublisher ..)
  | .act _ (.createChannel ..) | .act _ (.deletePublisher _) | .act _ (.commitDeletion _)
  | .act _ (.createFetchJob _) | .act _ (.scheduleNow _) | .act _ (.leaseDueChannels ..)
  | .act _ (.fetch _) =>
    .isTrue trivial

/-- Worker `b` leases the channel after the lease of `a` has expired, and completes its poll. -/
def crashedWorker : List ChannelStep :=
  [.act 0 (.discoverPublisher 1 "Example".toList "example".toList "a.in".toList .hourly
      [sampleSitemap]),
    .act 0 (.leaseDueChannels "a".toList 20 120 []), .tick 121000000,
    .act 121000000 (.leaseDueChannels "b".toList 20 120 []), .act 121000000 (.fetch 1),
    .act 121000000 (.complete 1 9 .succeeded 0 none none)]

/-- As before, but `a` completes its poll, and the channel is requested for `c`. -/
def lateCompletion : List ChannelStep :=
  [.act 0 (.discoverPublisher 1 "Example".toList "example".toList "a.in".toList .hourly
      [sampleSitemap]),
    .act 0 (.leaseDueChannels "a".toList 20 120 []), .act 0 (.fetch 0), .tick 121000000,
    .act 121000000 (.leaseDueChannels "b".toList 20 120 []),
    .act 121000000 (.complete 0 9 .succeeded 0 none none), .act 121000000 (.scheduleNow 2),
    .act 121000000 (.leaseDueChannels "c".toList 20 120 [])]

theorem crashedWorker_exclusive :
    Runs.Every (channelStep (sampleExternals [])) LeasesExclusively (emptyWorld 0)
      crashedWorker := by
  have hend : (Runs.exec (channelStep (sampleExternals [])) (emptyWorld 0)
      crashedWorker).isSome = true := by decide +kernel
  obtain ⟨w, hw⟩ := Option.isSome_iff_exists.mp hend
  refine leasesExclusively_of_releasesOwnLease _ 0 crashedWorker w hw ?_
  exact Runs.every_of_decide (by decide +kernel)

/- The late completion of `a` lets `c` lease the channel that `b` has just leased. -/
theorem lateCompletion_shared :
    ¬ ∀ (ext : Externals) (clock : Timestamp) (steps : List ChannelStep) (w : ChannelWorld),
      Runs.exec (channelStep ext) (emptyWorld clock) steps = some w →
        Runs.Every (channelStep ext) LeasesExclusively (emptyWorld clock) steps := by
  intro h
  have hend : (Runs.exec (channelStep (sampleExternals [])) (emptyWorld 0)
      lateCompletion).isSome = true := by decide +kernel
  obtain ⟨w, hw⟩ := Option.isSome_iff_exists.mp hend
  have hevery := h _ 0 lateCompletion w hw
  have hstate : (Runs.exec (channelStep (sampleExternals [])) (emptyWorld 0)
      (lateCompletion.take 7)).any (fun m : ChannelWorld => !decide
        (∀ copy ∈ (leaseDueChannels "c".toList 121000000 20 120 [] m.db.channels).1,
          ∀ poll ∈ m.polls, poll.copy.id = copy.id → poll.Held m.clock →
            poll.copy.leaseOwner = some "c".toList)) = true := by decide +kernel
  obtain ⟨m, hm, hshared⟩ := (Option.any_eq_true _ _).mp hstate
  rw [Bool.not_eq_true', decide_eq_false_iff_not] at hshared
  exact hshared (hevery (lateCompletion.take 7) _ [] m rfl hm)

end Newsintel.Acquisition
