import Newsintel.Acquisition.ChannelEffects

/-!
# Channels of a deleted publisher

`delete_publisher` deactivates the publisher and the channels that its UPDATE sees. A channel
of the publisher that is created later, by the API or by the poll of a sitemap index, is
active: `create_channel` asks whether the publisher exists, not whether it is active.
-/

namespace Newsintel.Acquisition

open PyText

/-- No channel of an inactive publisher is active. -/
def Silenced (db : Database) : Prop :=
  ∀ p ∈ db.publishers, p.active = false →
    ∀ r ∈ db.channels, r.publisherId = p.id → r.active = false

/-- Inactive publishers have no active channels, and no call leases a channel of theirs. -/
structure DeletedAreSilent (w : ChannelWorld) : Prop where
  channels : Silenced w.db
  leases : ∀ workerId now limit leaseSeconds locked,
    ∀ copy ∈ (leaseDueChannels workerId now limit leaseSeconds locked w.db.channels).1,
      ∀ p ∈ w.db.publishers, p.id = copy.publisherId → p.active = true

/-- When the creation of a channel commits its publisher is active, whatever it was when it was
read, and a deletion commits when each active channel of its publisher is one of those that its
UPDATE found. -/
def FindsPublisherActive (w : ChannelWorld) : ChannelStep → Prop
  | .act _ (.createChannel _ command) =>
    ∀ p ∈ w.db.publishers, p.id = command.publisherId → p.active = true
  | .act _ (.commitDeletion place) =>
    ∀ d ∈ w.deletions[place]?, ∀ r ∈ w.db.channels, r.publisherId = d.publisherId →
      r.active = true → r.id ∈ d.channelIds
  | _ => True

section silence

variable {ext : Externals} {now : Timestamp} {w w' : ChannelWorld} {op : ChannelOp}

theorem deletedAreSilent_iff : DeletedAreSilent w ↔ Silenced w.db := by
  constructor
  · intro h
    exact h.channels
  · intro h
    refine ⟨h, ?_⟩
    intro workerId now limit leaseSeconds locked copy hcopy p hp hid
    obtain ⟨r, hr, rfl⟩ := List.mem_map.mp hcopy
    obtain ⟨hmem, hdue⟩ := channelSelect_mem hr
    simp only [channelDue, Bool.and_eq_true] at hdue
    by_contra hinactive
    have hsilent := h p hp (Bool.not_eq_true _ ▸ hinactive) r hmem hid.symm
    rw [hsilent] at hdue
    exact Bool.false_ne_true hdue.1.1

/- A publisher that is there is deactivated by the commit of its deletion only. -/
theorem inactive_of_publisherAfter {p : PublisherModel}
    (h : (publisherAfter now w op p).active = false) :
    p.active = false ∨ ∃ place d, op = .commitDeletion place ∧ w.deletions[place]? = some d ∧
      p.id = d.publisherId := by
  cases op with
  | commitDeletion place =>
    cases hd : w.deletions[place]? with
    | none =>
      simp only [publisherAfter, hd, Option.map_none, Option.getD_none] at h
      exact Or.inl h
    | some d =>
      rw [publisherAfter_commitDeletion hd, Deletion.retire] at h
      split at h
      · rename_i hid
        exact Or.inr ⟨place, d, rfl, hd, hid⟩
      · exact Or.inl h
  | createFetchJob publisherId =>
    simp only [publisherAfter] at h
    split at h <;> exact Or.inl h
  | _ => exact Or.inl h

theorem freshPublisher_active {p : PublisherModel} (h : FreshPublisher now op p) :
    p.active = true := by
  cases h <;> rfl

/- The channels of a new publisher are its own. -/
theorem freshChannel_publisher {r : DiscoveryChannel} {p : PublisherModel}
    (h : act ext now w op = some w') (hr : FreshChannel now op r)
    (hp : p ∈ w.db.publishers) (hid : r.publisherId = p.id) :
    ∃ turn command, op = .createChannel turn command ∧ p.id = command.publisherId := by
  cases hr with
  | discover id name slug canonicalDomain frequency endpoints endpoint endpointUrl =>
    obtain ⟨db, hdb, rfl⟩ := answered h
    have hnew := (discoverPublisher_rows hdb).1
    have hid : id = p.id := hid
    exact absurd (hid ▸ List.mem_map_of_mem hp) hnew
  | create turn command endpointUrl => exact ⟨turn, command, rfl, hid.symm⟩

theorem silenced_act (hsilent : Silenced w.db) (hfinds : FindsPublisherActive w (.act now op))
    (h : act ext now w op = some w') : Silenced w'.db := by
  obtain ⟨channels, hchannels, hfresh, _⟩ := act_channels h
  obtain ⟨publishers, hpublishers, hnew⟩ := act_publishers h
  intro p hp hinactive r hr hid
  rw [hpublishers, List.mem_append] at hp
  rw [hchannels, List.mem_append] at hr
  obtain hp | hp := hp
  · obtain ⟨q, hq, rfl⟩ := List.mem_map.mp hp
    rw [publisherAfter_id] at hid
    obtain hr | hr := hr
    · -- A channel that was there: had it been active, the deletion would have found it.
      obtain ⟨c, hc, rfl⟩ := List.mem_map.mp hr
      rw [channelAfter_publisherId] at hid
      by_contra hactive
      have hactive := Bool.not_eq_false _ ▸ hactive
      obtain hq' | ⟨place, d, rfl, hd, hqd⟩ := inactive_of_publisherAfter hinactive
      · have hc' := hsilent q hq hq' c hc hid
        rw [active_of_channelAfter hactive] at hc'
        exact absurd hc' (by decide)
      · have hfound := hfinds d hd c hc (hid.trans hqd) (active_of_channelAfter hactive)
        rw [channelAfter_commitDeletion hd, Deletion.silence, if_pos hfound] at hactive
        exact Bool.false_ne_true hactive
    · -- A new channel of a publisher that was there.
      obtain ⟨turn, command, rfl, hqc⟩ := freshChannel_publisher h (hfresh r hr) hq hid
      obtain hq' | ⟨place, d, hop, _, _⟩ := inactive_of_publisherAfter hinactive
      · rw [hfinds q hq hqc] at hq'
        exact absurd hq' (by decide)
      · cases hop
  · rw [freshPublisher_active (hnew p hp).1] at hinactive
    exact absurd hinactive (by decide)

/-- Publishers under deletion are there. -/
def DeletionsKnown (w : ChannelWorld) : Prop :=
  ∀ d ∈ w.deletions, d.publisherId ∈ w.db.publishers.map (·.id)

theorem deletionsKnown_act (hknown : DeletionsKnown w) (h : act ext now w op = some w') :
    DeletionsKnown w' := by
  have hdeletions : ∀ d ∈ w'.deletions, d.publisherId ∈ w.db.publishers.map (·.id) := by
    cases op with
    | deletePublisher publisherId =>
      obtain ⟨hmem, rfl⟩ := act_deletePublisher h
      exact List.forall_mem_append.mpr ⟨hknown, List.forall_mem_singleton.mpr hmem⟩
    | commitDeletion place =>
      obtain ⟨d, hd, rfl⟩ := Option.map_eq_some_iff.mp h
      exact fun e he => hknown e (List.mem_of_mem_eraseIdx he)
    | createPublisher | discoverPublisher | createChannel | createFetchJob =>
      obtain ⟨_, _, rfl⟩ := answered h
      exact hknown
    | scheduleNow | leaseDueChannels =>
      cases h
      exact hknown
    | fetch | complete =>
      obtain ⟨_, _, rfl⟩ := Option.map_eq_some_iff.mp h
      exact hknown
  obtain ⟨publishers, hpublishers, _⟩ := act_publishers h
  intro d hd
  obtain ⟨p, hp, hid⟩ := List.mem_map.mp (hdeletions d hd)
  rw [hpublishers]
  refine List.mem_map.mpr ⟨publisherAfter now w op p, ?_, ?_⟩
  · exact List.mem_append_left _ (List.mem_map_of_mem hp)
  · rw [publisherAfter_id]
    exact hid

/- The step leaves silence behind only if it meets the condition. -/
theorem findsPublisherActive_of_silenced (hknown : DeletionsKnown w)
    (hsilent : Silenced w'.db) (h : act ext now w op = some w') :
    FindsPublisherActive w (.act now op) := by
  cases op with
  | createChannel turn command =>
    obtain ⟨⟨_, db⟩, hdb, rfl⟩ := answered h
    obtain ⟨endpointUrl, _, _, _, rfl⟩ := createChannel_rows hdb
    intro p hp hid
    by_contra hinactive
    have hrow := hsilent p hp (Bool.not_eq_true _ ▸ hinactive)
      (createdChannel { turn with now } command endpointUrl)
      (List.mem_append_right _ (List.mem_singleton_self _)) hid.symm
    exact Bool.false_ne_true hrow.symm
  | commitDeletion place =>
    obtain ⟨d, hd, rfl⟩ := Option.map_eq_some_iff.mp h
    intro e he r hr hid hactive
    cases hd.symm.trans he
    by_contra hmissed
    obtain ⟨p, hp, hpid⟩ := List.mem_map.mp (hknown d (List.mem_of_getElem? hd))
    have hretired : (d.retire p).active = false := by
      rw [Deletion.retire, if_pos hpid]
    have hkept : d.silence r = r := by
      rw [Deletion.silence, if_neg hmissed]
    have hrow := hsilent (d.retire p) (List.mem_map_of_mem hp) hretired r
      (List.mem_map.mpr ⟨r, hr, hkept⟩) (by rw [retire_id, hpid, hid])
    rw [hactive] at hrow
    exact absurd hrow (by decide)
  | _ => trivial

end silence

/- From the empty tables, inactive publishers stay silent exactly as long as each creation of a
channel commits for an active publisher and each deletion finds the channels that there are. -/
theorem deletedAreSilent_iff_findsPublisherActive (ext : Externals) (clock : Timestamp)
    (steps : List ChannelStep) (w : ChannelWorld)
    (h : Runs.exec (channelStep ext) (emptyWorld clock) steps = some w) :
    Runs.Throughout (channelStep ext) DeletedAreSilent (emptyWorld clock) steps ↔
      Runs.Every (channelStep ext) FindsPublisherActive (emptyWorld clock) steps := by
  have hstart : DeletedAreSilent (emptyWorld clock) :=
    deletedAreSilent_iff.mpr fun p hp => absurd hp List.not_mem_nil
  refine Runs.throughout_iff_every (I := DeletionsKnown) (fun d hd => absurd hd List.not_mem_nil)
    hstart ?_ ?_ h
  · intro m step n hknown _ _ hn
    obtain ⟨clock, rfl, _, rfl⟩ | ⟨now, op, rfl, _, hact⟩ := channelStep_cases hn
    · exact hknown
    · exact deletionsKnown_act hknown hact
  · intro m step n hknown hsilent hn
    rw [deletedAreSilent_iff] at hsilent ⊢
    obtain ⟨clock, rfl, _, rfl⟩ | ⟨now, op, rfl, _, hact⟩ := channelStep_cases hn
    · exact iff_of_true hsilent trivial
    · constructor
      · intro hsilent'
        exact findsPublisherActive_of_silenced hknown hsilent' hact
      · intro hfinds
        exact silenced_act hsilent hfinds hact

instance (w : ChannelWorld) (step : ChannelStep) : Decidable (FindsPublisherActive w step) :=
  match step with
  | .act _ (.createChannel _ command) =>
    inferInstanceAs (Decidable
      (∀ p ∈ w.db.publishers, p.id = command.publisherId → p.active = true))
  | .act _ (.commitDeletion place) =>
    inferInstanceAs (Decidable (∀ d ∈ w.deletions[place]?, ∀ r ∈ w.db.channels,
      r.publisherId = d.publisherId → r.active = true → r.id ∈ d.channelIds))
  | .tick _ | .act _ (.createPublisher ..) | .act _ (.discoverPublisher ..)
  | .act _ (.deletePublisher _) | .act _ (.createFetchJob _) | .act _ (.scheduleNow _)
  | .act _ (.leaseDueChannels ..) | .act _ (.fetch _) | .act _ (.complete ..) =>
    .isTrue trivial

/-- The publisher is added and deleted. -/
def deletedSample : List ChannelStep :=
  [.act 0 (.discoverPublisher 1 "Example".toList "example".toList "a.in".toList .hourly
      [sampleSitemap]),
    .act 0 (.deletePublisher 1), .act 0 (.commitDeletion 0)]

/-- A poll that was leased before the deletion creates a channel after it. -/
def lateChild : List ChannelStep :=
  [.act 0 (.discoverPublisher 1 "Example".toList "example".toList "a.in".toList .hourly
      [sampleSitemap]),
    .act 0 (.leaseDueChannels "a".toList 20 120 []), .act 0 (.fetch 0),
    .act 0 (.deletePublisher 1), .act 0 (.commitDeletion 0),
    .act 0 (.createChannel sampleTurn sampleChild)]

theorem deletedSample_silent :
    Runs.Throughout (channelStep (sampleExternals [])) DeletedAreSilent (emptyWorld 0)
      deletedSample := by
  have hend : (Runs.exec (channelStep (sampleExternals [])) (emptyWorld 0)
      deletedSample).isSome = true := by decide +kernel
  obtain ⟨w, hw⟩ := Option.isSome_iff_exists.mp hend
  refine (deletedAreSilent_iff_findsPublisherActive _ 0 deletedSample w hw).mpr ?_
  exact Runs.every_of_decide (by decide +kernel)

/- The child of a sitemap index is active, and due, though its publisher is deleted. -/
theorem lateChild_active :
    ¬ ∀ (ext : Externals) (clock : Timestamp) (steps : List ChannelStep) (w : ChannelWorld),
      Runs.exec (channelStep ext) (emptyWorld clock) steps = some w → Silenced w.db := by
  intro h
  have hend : (Runs.exec (channelStep (sampleExternals [])) (emptyWorld 0) lateChild).any
      (fun w => w.db.publishers.any (fun p => p.id = 1 && !p.active) &&
        w.db.channels.any fun r => r.publisherId = 1 && r.active) = true := by decide +kernel
  obtain ⟨w, hw, hfacts⟩ := (Option.any_eq_true _ _).mp hend
  simp only [Bool.and_eq_true, List.any_eq_true, decide_eq_true_eq, Bool.not_eq_true'] at hfacts
  obtain ⟨⟨p, hp, hid, hinactive⟩, r, hr, hpublisher, hactive⟩ := hfacts
  have hrow := h _ _ _ w hw p hp hinactive r hr (hpublisher.trans hid.symm)
  rw [hactive] at hrow
  exact absurd hrow (by decide)

end Newsintel.Acquisition
