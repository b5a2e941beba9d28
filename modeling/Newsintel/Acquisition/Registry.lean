import Newsintel.Acquisition.ChannelEffects

/-!
# Publishers and their channels

What holds of the two tables after any run of onboarding, administration, leases and polls:
unique keys, channels that belong to a publisher and point to a canonical endpoint, polls of
channels that exist, and events that tell what the rows say.
-/

namespace Newsintel.Acquisition

open PyText

/-- The endpoint is the canonical form of some URL. -/
def CanonicalEndpoint (ext : Externals) (endpointUrl : Text) : Prop :=
  ∃ url c, canonicalizeUrl ext.unicode ext.nameprep keepAllPolicy url = .ok c ∧
    c.normalized = endpointUrl

/-- The columns of a channel that nothing writes again. -/
def channelIdentity (r : DiscoveryChannel) : Uuid × Uuid × DiscoveryChannelType × Text :=
  (r.id, r.publisherId, r.channelType, r.endpointUrl)

/-- `publisher_endpoint`. -/
def endpointKey (r : DiscoveryChannel) : Uuid × Text := (r.publisherId, r.endpointUrl)

/-- The columns of a publisher that nothing writes again. -/
def publisherIdentity (p : PublisherModel) : Uuid × Text × Text :=
  (p.id, p.slug, p.canonicalDomain)

/-- What a consumer of an event reads about the rows. -/
def AcquisitionEvent.Announces (db : Database) : AcquisitionEvent → Prop
  | .publisherCreated publisher slug canonicalDomain =>
    (publisher, slug, canonicalDomain) ∈ db.publishers.map publisherIdentity
  | .channelCreated channel publisher channelType endpointUrl =>
    (channel, publisher, channelType, endpointUrl) ∈ db.channels.map channelIdentity
  | _ => False

structure Registry (ext : Externals) (w : ChannelWorld) : Prop where
  publisherIds : (w.db.publishers.map (·.id)).Nodup
  slugs : (w.db.publishers.map (·.slug)).Nodup
  domains : (w.db.publishers.map (·.canonicalDomain)).Nodup
  channelIds : (w.db.channels.map (·.id)).Nodup
  endpoints : (w.db.channels.map endpointKey).Nodup
  owners : ∀ r ∈ w.db.channels, r.publisherId ∈ w.db.publishers.map (·.id)
  canonical : ∀ r ∈ w.db.channels, CanonicalEndpoint ext r.endpointUrl
  /-- a worker polls a channel that is there, at the endpoint that is stored -/
  polls : ∀ poll ∈ w.polls, channelIdentity poll.copy ∈ w.db.channels.map channelIdentity
  /-- an event once, and about the rows -/
  eventKeys : (w.db.outbox.map (·.idempotencyKey)).Nodup
  events : ∀ e ∈ w.db.outbox, e.Announces w.db

section operations

variable {ext : Externals} {now : Timestamp} {w w' : ChannelWorld} {op : ChannelOp}
  {db db' : Database}

/-! ### Rows that are there -/

theorem completeChannel_identity (completion : PollCompletion) (r : DiscoveryChannel) :
    channelIdentity (completeChannel completion r) = channelIdentity r := by
  simp only [completeChannel]
  split <;> rfl

theorem channelAfter_identity (now : Timestamp) (w : ChannelWorld) (op : ChannelOp)
    (r : DiscoveryChannel) : channelIdentity (channelAfter now w op r) = channelIdentity r :=
  channelAfter_of_assignments (R := fun r r' => channelIdentity r' = channelIdentity r)
    (fun _ => rfl) (fun _ _ => rfl) (fun _ => rfl) (fun _ _ _ => rfl) completeChannel_identity w op r

theorem channelAfter_identities (now : Timestamp) (w : ChannelWorld) (op : ChannelOp) :
    (w.db.channels.map (channelAfter now w op)).map channelIdentity =
      w.db.channels.map channelIdentity := by
  rw [List.map_map]
  exact List.map_congr_left fun r _ => channelAfter_identity now w op r

theorem publisherAfter_identity (now : Timestamp) (w : ChannelWorld) (op : ChannelOp)
    (p : PublisherModel) :
    publisherIdentity (publisherAfter now w op p) = publisherIdentity p := by
  cases op with
  | commitDeletion place =>
    cases h : w.deletions[place]? with
    | none => simp only [publisherAfter, h, Option.map_none, Option.getD_none]
    | some d =>
      rw [publisherAfter_commitDeletion h, Deletion.retire]
      split <;> rfl
  | createFetchJob publisherId =>
    simp only [publisherAfter]
    split <;> rfl
  | _ => rfl

theorem publisherAfter_identities (now : Timestamp) (w : ChannelWorld) (op : ChannelOp) :
    (w.db.publishers.map (publisherAfter now w op)).map publisherIdentity =
      w.db.publishers.map publisherIdentity := by
  rw [List.map_map]
  exact List.map_congr_left fun p _ => publisherAfter_identity now w op p

/- A column of the identity, of rows with the same identities. -/
theorem map_of_identities {α ι κ : Type} {identity : α → ι} (column : ι → κ) {rows rows' : List α}
    (h : rows.map identity = rows'.map identity) :
    rows.map (fun r => column (identity r)) = rows'.map fun r => column (identity r) := by
  have hmap (rows : List α) :
      rows.map (fun r => column (identity r)) = (rows.map identity).map column :=
    (List.map_map ..).symm
  rw [hmap, hmap, h]

/-! ### Rows that are added -/

/-- Channels of one publisher are added at the end, under endpoints of their own. -/
def AddsEndpoints (ext : Externals) (publisherId : Uuid) (rows rows' : List DiscoveryChannel) :
    Prop :=
  ∃ added, rows' = rows ++ added ∧
    (∀ r ∈ added, r.publisherId = publisherId ∧ CanonicalEndpoint ext r.endpointUrl) ∧
    ((rows.map endpointKey).Nodup → (rows'.map endpointKey).Nodup)

theorem addsEndpoints_none (publisherId : Uuid) (rows : List DiscoveryChannel) :
    AddsEndpoints ext publisherId rows rows :=
  ⟨[], (List.append_nil rows).symm, by simp, id⟩

theorem addsEndpoints_one {publisherId : Uuid} {rows : List DiscoveryChannel}
    {r : DiscoveryChannel} (hpublisher : r.publisherId = publisherId)
    (hcanonical : CanonicalEndpoint ext r.endpointUrl)
    (hfree : (rows.any fun q => q.publisherId = publisherId && q.endpointUrl = r.endpointUrl) =
      false) :
    AddsEndpoints ext publisherId rows (rows ++ [r]) := by
  refine ⟨[r], rfl, List.forall_mem_singleton.mpr ⟨hpublisher, hcanonical⟩, ?_⟩
  intro hd
  have hnew : endpointKey r ∉ rows.map endpointKey := by
    intro hmem
    obtain ⟨q, hq, hkey⟩ := List.mem_map.mp hmem
    obtain ⟨hqpublisher, hqendpoint⟩ := (Prod.mk.injEq ..).mp hkey
    have hnone := List.any_eq_false.mp hfree q hq
    rw [hqpublisher, hpublisher, hqendpoint, Bool.and_eq_true] at hnone
    exact hnone ⟨decide_eq_true rfl, decide_eq_true rfl⟩
  rw [List.map_append, List.map_singleton]
  refine List.nodup_append.mpr ⟨hd, List.nodup_singleton _, ?_⟩
  rintro a ha b hb rfl
  exact hnew (List.mem_singleton.mp hb ▸ ha)

theorem AddsEndpoints.trans {publisherId : Uuid} {rows rows' rows'' : List DiscoveryChannel}
    (h : AddsEndpoints ext publisherId rows rows') (h' : AddsEndpoints ext publisherId rows' rows'') :
    AddsEndpoints ext publisherId rows rows'' := by
  obtain ⟨added, rfl, hP, hd⟩ := h
  obtain ⟨added', rfl, hP', hd'⟩ := h'
  exact ⟨added ++ added', List.append_assoc .., List.forall_mem_append.mpr ⟨hP, hP'⟩, hd' ∘ hd⟩

theorem createChannelIfAbsent_endpoints {publisherId : Uuid} {frequency : FetchFrequency}
    {rows rows' : List DiscoveryChannel} {endpoint : ValidatedEndpoint}
    (h : createChannelIfAbsent ext publisherId frequency now rows endpoint = .ok rows') :
    AddsEndpoints ext publisherId rows rows' := by
  unfold createChannelIfAbsent at h
  obtain ⟨canonical, hcanonical, h⟩ := bind_ok h
  simp only [bind, Except.bind, pure, Except.pure] at h
  split at h
  · cases h
    exact addsEndpoints_none publisherId rows
  · rename_i hfree
    split at h
    · cases h
    · cases h
      exact addsEndpoints_one rfl ⟨endpoint.url, canonical, hcanonical, rfl⟩
        (Bool.eq_false_iff.mpr hfree)

theorem createChannels_endpoints {publisherId : Uuid} {frequency : FetchFrequency}
    {endpoints : List ValidatedEndpoint} {rows rows' : List DiscoveryChannel}
    (h : endpoints.foldlM (createChannelIfAbsent ext publisherId frequency now) rows = .ok rows') :
    AddsEndpoints ext publisherId rows rows' := by
  induction endpoints generalizing rows with
  | nil =>
    cases h
    exact addsEndpoints_none _ _
  | cons endpoint rest ih =>
    rw [List.foldlM_cons] at h
    obtain ⟨rows'', hfirst, hrest⟩ := bind_ok h
    exact (createChannelIfAbsent_endpoints hfirst).trans (ih hrest)

/-- A publisher is added under an id, a slug and a domain of its own, or none. -/
def AddsPublisher (rows rows' : List PublisherModel) : Prop :=
  rows' = rows ∨ ∃ p, rows' = rows ++ [p] ∧ p.id ∉ rows.map (·.id) ∧ p.slug ∉ rows.map (·.slug) ∧
    p.canonicalDomain ∉ rows.map (·.canonicalDomain)

theorem free_of_isSome {α κ : Type} [DecidableEq κ] {key : α → κ} {k : κ} {rows : List α}
    (h : ¬ (Table.get? key k rows).isSome = true) : k ∉ rows.map key :=
  Table.get?_none.mp (Option.not_isSome_iff_eq_none.mp h)

theorem free_of_or {a b : Bool} (h : ¬ (a || b) = true) : ¬ a = true ∧ ¬ b = true := by
  rwa [Bool.or_eq_true, not_or] at h

theorem createPublisher_adds {id : Uuid} {name slug canonicalDomain : Text}
    (h : createPublisher id name slug canonicalDomain now db = .ok db') :
    AddsPublisher db.publishers db'.publishers ∧
      db'.outbox = addEvent (.publisherCreated id slug canonicalDomain) db.outbox := by
  unfold createPublisher at h
  split at h
  · cases h
  · rename_i hslug
    split at h
    · cases h
    · rename_i hkeys
      cases h
      obtain ⟨hdomain, hid⟩ := free_of_or hkeys
      exact ⟨Or.inr ⟨_, rfl, free_of_isSome hid, free_of_isSome hslug, free_of_isSome hdomain⟩, rfl⟩

theorem discoverPublisher_adds {id : Uuid} {name slug canonicalDomain : Text}
    {frequency : FetchFrequency} {endpoints : List ValidatedEndpoint}
    (h : discoverPublisher ext id name slug canonicalDomain frequency now endpoints db = .ok db') :
    AddsPublisher db.publishers db'.publishers ∧
      AddsEndpoints ext id db.channels db'.channels ∧ db'.outbox = db.outbox := by
  unfold discoverPublisher at h
  simp only [bind, Except.bind, pure, Except.pure] at h
  split at h
  · cases h
  · rename_i hdomain
    split at h
    · cases h
    · rename_i hkeys
      split at h
      · cases h
      · rename_i hchannels
        cases h
        obtain ⟨hslug, hid⟩ := free_of_or hkeys
        exact ⟨Or.inr ⟨_, rfl, free_of_isSome hid, free_of_isSome hslug, free_of_isSome hdomain⟩,
          createChannels_endpoints hchannels, rfl⟩

theorem createChannel_adds {turn : Turn} {command : CreateChannelCommand}
    (h : createChannel ext turn command db = .ok ((), db')) :
    db'.publishers = db.publishers ∧ AddsEndpoints ext command.publisherId db.channels db'.channels ∧
      ∃ endpointUrl,
        (turn.channelId, command.publisherId, command.channelType, endpointUrl) ∈
            db'.channels.map channelIdentity ∧
          db'.outbox = addEvent (.channelCreated turn.channelId command.publisherId
            command.channelType endpointUrl) db.outbox := by
  unfold createChannel at h
  obtain ⟨canonical, hcanonical, h⟩ := bind_ok h
  simp only [bind, Except.bind, pure, Except.pure] at h
  split at h
  · cases h
  · split at h
    · cases h
    · rename_i hfree
      split at h
      · cases h
      · cases h
        refine ⟨rfl, addsEndpoints_one rfl ⟨command.endpointUrl, canonical, hcanonical, rfl⟩
          (Bool.eq_false_iff.mpr hfree), canonical.normalized, ?_, rfl⟩
        rw [List.map_append]
        exact List.mem_append_right _ (List.mem_singleton_self _)

/-! ### What an operation registers -/

/-- What an operation adds to the tables and to the outbox. -/
structure Registers (ext : Externals) (now : Timestamp) (w : ChannelWorld) (op : ChannelOp)
    (w' : ChannelWorld) : Prop where
  publishers : AddsPublisher (w.db.publishers.map (publisherAfter now w op)) w'.db.publishers
  channels : w'.db.channels = w.db.channels.map (channelAfter now w op) ∨
    ∃ publisherId ∈ w'.db.publishers.map (·.id),
      AddsEndpoints ext publisherId (w.db.channels.map (channelAfter now w op)) w'.db.channels
  outbox : w'.db.outbox = w.db.outbox ∨
    ∃ e, w'.db.outbox = addEvent e w.db.outbox ∧ e.Announces w'.db
  polls : ∀ poll ∈ w'.polls, (∃ q ∈ w.polls, q.copy = poll.copy) ∨
    ∃ r ∈ w.db.channels, channelIdentity r = channelIdentity poll.copy

theorem act_registers (h : act ext now w op = some w') : Registers ext now w op w' := by
  have hkept (poll : InFlightPoll) (hpoll : poll ∈ w.polls) : ∃ q ∈ w.polls, q.copy = poll.copy :=
    ⟨poll, hpoll, rfl⟩
  cases op with
  | createPublisher id name slug canonicalDomain =>
    obtain ⟨db, hdb, rfl⟩ := answered h
    obtain ⟨hadds, houtbox⟩ := createPublisher_adds hdb
    obtain ⟨_, hpublishers, hchannels⟩ := createPublisher_rows hdb
    refine ⟨(List.map_id _).symm ▸ hadds, Or.inl (hchannels.trans (List.map_id _).symm),
      Or.inr ⟨_, houtbox, ?_⟩, fun poll hpoll => Or.inl (hkept poll hpoll)⟩
    show _ ∈ db.publishers.map publisherIdentity
    rw [hpublishers, List.map_append]
    exact List.mem_append_right _ (List.mem_singleton_self _)
  | discoverPublisher id name slug canonicalDomain frequency endpoints =>
    obtain ⟨db, hdb, rfl⟩ := answered h
    obtain ⟨hadds, hendpoints, houtbox⟩ := discoverPublisher_adds hdb
    obtain ⟨_, hpublishers, _⟩ := discoverPublisher_rows hdb
    refine ⟨(List.map_id _).symm ▸ hadds, Or.inr ⟨id, ?_, (List.map_id _).symm ▸ hendpoints⟩,
      Or.inl houtbox, fun poll hpoll => Or.inl (hkept poll hpoll)⟩
    show id ∈ db.publishers.map (·.id)
    rw [hpublishers, List.map_append]
    exact List.mem_append_right _ (List.mem_singleton_self _)
  | createChannel turn command =>
    obtain ⟨⟨_, db⟩, hdb, rfl⟩ := answered h
    obtain ⟨hpublishers, hendpoints, endpointUrl, hmem, houtbox⟩ := createChannel_adds hdb
    obtain ⟨_, _, howner, _⟩ := createChannel_rows hdb
    refine ⟨Or.inl (hpublishers.trans (List.map_id _).symm),
      Or.inr ⟨command.publisherId, ?_, (List.map_id _).symm ▸ hendpoints⟩,
      Or.inr ⟨_, houtbox, hmem⟩, fun poll hpoll => Or.inl (hkept poll hpoll)⟩
    show command.publisherId ∈ db.publishers.map (·.id)
    rw [hpublishers]
    exact howner
  | deletePublisher publisherId =>
    obtain ⟨_, rfl⟩ := act_deletePublisher h
    exact ⟨Or.inl (List.map_id _).symm, Or.inl (List.map_id _).symm, Or.inl rfl,
      fun poll hpoll => Or.inl (hkept poll hpoll)⟩
  | commitDeletion place =>
    obtain ⟨d, hd, rfl⟩ := Option.map_eq_some_iff.mp h
    refine ⟨Or.inl ?_, Or.inl ?_, Or.inl rfl, fun poll hpoll => Or.inl (hkept poll hpoll)⟩
    · rw [publisherAfter_commitDeletion hd]
      rfl
    · rw [channelAfter_commitDeletion hd]
      rfl
  | createFetchJob publisherId =>
    obtain ⟨db, hdb, rfl⟩ := answered h
    obtain ⟨hchannels, hpublishers⟩ := createFetchJob_rows hdb
    refine ⟨Or.inl hpublishers, Or.inl hchannels, Or.inl ?_,
      fun poll hpoll => Or.inl (hkept poll hpoll)⟩
    unfold createFetchJob at hdb
    simp only at hdb
    split at hdb
    · cases hdb
    · cases hdb
      rfl
  | scheduleNow channelId =>
    cases h
    exact ⟨Or.inl (List.map_id _).symm, Or.inl rfl, Or.inl rfl,
      fun poll hpoll => Or.inl (hkept poll hpoll)⟩
  | leaseDueChannels workerId limit leaseSeconds locked =>
    cases h
    refine ⟨Or.inl (List.map_id _).symm, Or.inl rfl, Or.inl rfl, ?_⟩
    intro poll hpoll
    obtain hpoll | hpoll := List.mem_append.mp hpoll
    · exact Or.inl (hkept poll hpoll)
    · obtain ⟨copy, hcopy, rfl⟩ := List.mem_map.mp hpoll
      obtain ⟨r, hr, rfl⟩ := List.mem_map.mp hcopy
      exact Or.inr ⟨r, (channelSelect_mem hr).1, rfl⟩
  | fetch place =>
    obtain ⟨poll, hget, rfl⟩ := Option.map_eq_some_iff.mp h
    refine ⟨Or.inl (List.map_id _).symm, Or.inl (List.map_id _).symm, Or.inl rfl, ?_⟩
    intro q hq
    obtain hq | rfl := List.mem_or_eq_of_mem_set hq
    · exact Or.inl (hkept q hq)
    · exact Or.inl ⟨poll, List.mem_of_getElem? hget, rfl⟩
  | complete place runId status observationCount etag lastModified =>
    obtain ⟨poll, hpoll, _, rfl⟩ := act_complete h
    refine ⟨Or.inl (List.map_id _).symm, Or.inl ?_, Or.inl rfl, ?_⟩
    · rw [channelAfter_complete hpoll]
    · intro q hq
      exact Or.inl (hkept q (List.mem_of_mem_eraseIdx hq))

/-! ### The invariant -/

theorem addEvent_cases (e : AcquisitionEvent) (outbox : List AcquisitionEvent) :
    addEvent e outbox = outbox ∨
      (e.idempotencyKey ∉ outbox.map (·.idempotencyKey) ∧ addEvent e outbox = outbox ++ [e]) := by
  unfold addEvent Table.insert
  split
  · exact Or.inl rfl
  · rename_i hnew
    exact Or.inr ⟨hnew, rfl⟩

theorem AddsPublisher.nodup {κ : Type} {key : PublisherModel → κ}
    {rows rows' : List PublisherModel} (h : AddsPublisher rows rows')
    (hkey : ∀ p, p.id ∉ rows.map (·.id) → p.slug ∉ rows.map (·.slug) →
      p.canonicalDomain ∉ rows.map (·.canonicalDomain) → key p ∉ rows.map key)
    (hd : (rows.map key).Nodup) : (rows'.map key).Nodup := by
  obtain rfl | ⟨p, rfl, hid, hslug, hdomain⟩ := h
  · exact hd
  · exact Table.nodup_concat hd (hkey p hid hslug hdomain)

theorem AddsPublisher.subset {rows rows' : List PublisherModel} (h : AddsPublisher rows rows') :
    rows ⊆ rows' := by
  obtain rfl | ⟨p, rfl, _⟩ := h
  · exact List.Subset.refl _
  · exact List.subset_append_left _ _

/- No publisher and no channel is lost or renamed. -/
theorem Registers.identities (h : Registers ext now w op w') :
    w.db.publishers.map publisherIdentity ⊆ w'.db.publishers.map publisherIdentity ∧
      w.db.channels.map channelIdentity ⊆ w'.db.channels.map channelIdentity := by
  rw [← publisherAfter_identities now w op, ← channelAfter_identities now w op]
  refine ⟨List.map_subset _ h.publishers.subset, ?_⟩
  obtain hsame | ⟨_, _, added, hadded, _⟩ := h.channels
  · rw [hsame]
    exact List.Subset.refl _
  · rw [hadded, List.map_append]
    exact List.subset_append_left _ _

theorem announces_mono {e : AcquisitionEvent}
    (hpublishers : db.publishers.map publisherIdentity ⊆ db'.publishers.map publisherIdentity)
    (hchannels : db.channels.map channelIdentity ⊆ db'.channels.map channelIdentity)
    (h : e.Announces db) : e.Announces db' := by
  cases e with
  | publisherCreated => exact hpublishers h
  | channelCreated => exact hchannels h
  | itemObserved => exact h
  | urlAdmitted => exact h

theorem registry_act (h : Registry ext w) (hact : act ext now w op = some w') :
    Registry ext w' := by
  have hregisters := act_registers hact
  obtain ⟨hpublishers, hchannels⟩ := hregisters.identities
  have hpublisherKeys {κ : Type} (column : Uuid × Text × Text → κ) :
      (w.db.publishers.map (publisherAfter now w op)).map (fun p => column (publisherIdentity p)) =
        w.db.publishers.map fun p => column (publisherIdentity p) :=
    map_of_identities column (publisherAfter_identities now w op)
  have hchannelKeys : (w.db.channels.map (channelAfter now w op)).map endpointKey =
      w.db.channels.map endpointKey :=
    map_of_identities (fun k => (k.2.1, k.2.2.2)) (channelAfter_identities now w op)
  -- The rows that are there have kept their publisher and their endpoint.
  have hold : ∀ r ∈ w.db.channels.map (channelAfter now w op),
      r.publisherId ∈ w'.db.publishers.map (·.id) ∧ CanonicalEndpoint ext r.endpointUrl := by
    intro r hr
    obtain ⟨q, hq, rfl⟩ := List.mem_map.mp hr
    have hidentity := channelAfter_identity now w op q
    simp only [channelIdentity, Prod.mk.injEq] at hidentity
    obtain ⟨_, hpublisher, _, hendpoint⟩ := hidentity
    rw [hpublisher, hendpoint]
    refine ⟨?_, h.canonical q hq⟩
    obtain ⟨p, hp, hid⟩ := List.mem_map.mp (h.owners q hq)
    obtain ⟨p', hp', hidentity'⟩ :=
      List.mem_map.mp (hpublishers (List.mem_map_of_mem (f := publisherIdentity) hp))
    exact List.mem_map.mpr ⟨p', hp', (congrArg Prod.fst hidentity').trans hid⟩
  have hrows : ∀ r ∈ w'.db.channels,
      r.publisherId ∈ w'.db.publishers.map (·.id) ∧ CanonicalEndpoint ext r.endpointUrl := by
    obtain hsame | ⟨publisherId, howner, added, hadded, hnew, _⟩ := hregisters.channels
    · rw [hsame]
      exact hold
    · rw [hadded]
      refine List.forall_mem_append.mpr ⟨hold, fun r hr => ?_⟩
      exact ⟨(hnew r hr).1 ▸ howner, (hnew r hr).2⟩
  refine ⟨?_, ?_, ?_, act_distinct hact h.channelIds, ?_, fun r hr => (hrows r hr).1,
    fun r hr => (hrows r hr).2, ?_, ?_, ?_⟩
  · exact hregisters.publishers.nodup (fun _ hid _ _ => hid)
      ((hpublisherKeys (·.1)).symm ▸ h.publisherIds)
  · exact hregisters.publishers.nodup (fun _ _ hslug _ => hslug)
      ((hpublisherKeys (·.2.1)).symm ▸ h.slugs)
  · exact hregisters.publishers.nodup (fun _ _ _ hdomain => hdomain)
      ((hpublisherKeys (·.2.2)).symm ▸ h.domains)
  · obtain hsame | ⟨_, _, _, _, _, hdistinct⟩ := hregisters.channels
    · rw [hsame, hchannelKeys]
      exact h.endpoints
    · exact hdistinct (hchannelKeys.symm ▸ h.endpoints)
  · intro poll hpoll
    obtain ⟨q, hq, hcopy⟩ | ⟨r, hr, hcopy⟩ := hregisters.polls poll hpoll
    · exact hcopy ▸ hchannels (h.polls q hq)
    · exact hcopy ▸ hchannels (List.mem_map_of_mem hr)
  · obtain hsame | ⟨e, hadded, _⟩ := hregisters.outbox
    · rw [hsame]
      exact h.eventKeys
    · rw [hadded]
      obtain hsame | ⟨hnew, hconcat⟩ := addEvent_cases e w.db.outbox
      · rw [hsame]
        exact h.eventKeys
      · rw [hconcat]
        exact Table.nodup_concat h.eventKeys hnew
  · have hkept : ∀ e ∈ w.db.outbox, e.Announces w'.db :=
      fun e he => announces_mono hpublishers hchannels (h.events e he)
    obtain hsame | ⟨e, hadded, hannounces⟩ := hregisters.outbox
    · rw [hsame]
      exact hkept
    · rw [hadded]
      obtain hsame | ⟨_, hconcat⟩ := addEvent_cases e w.db.outbox
      · rw [hsame]
        exact hkept
      · rw [hconcat]
        exact List.forall_mem_append.mpr ⟨hkept, List.forall_mem_singleton.mpr hannounces⟩

theorem registry_step {step : ChannelStep} (h : Registry ext w)
    (hstep : channelStep ext w step = some w') : Registry ext w' := by
  obtain ⟨clock, _, _, rfl⟩ | ⟨now, op, _, _, hact⟩ := channelStep_cases hstep
  · exact ⟨h.publisherIds, h.slugs, h.domains, h.channelIds, h.endpoints, h.owners, h.canonical,
      h.polls, h.eventKeys, h.events⟩
  · exact registry_act h hact

theorem registry_empty (clock : Timestamp) : Registry ext (emptyWorld clock) where
  publisherIds := List.nodup_nil
  slugs := List.nodup_nil
  domains := List.nodup_nil
  channelIds := List.nodup_nil
  endpoints := List.nodup_nil
  owners _ hr := absurd hr List.not_mem_nil
  canonical _ hr := absurd hr List.not_mem_nil
  polls _ hp := absurd hp List.not_mem_nil
  eventKeys := List.nodup_nil
  events _ he := absurd he List.not_mem_nil

end operations

/- After every run from an empty database. -/
theorem channels_registered (ext : Externals) (clock : Timestamp) (steps : List ChannelStep)
    (w : ChannelWorld) (h : Runs.exec (channelStep ext) (emptyWorld clock) steps = some w) :
    Registry ext w :=
  Runs.invariant (registry_empty clock) (fun _ _ _ hw hstep => registry_step hw hstep) h

/-- A publisher with its sitemap, another sitemap that a poll brings, and a deletion meanwhile. -/
def registeredStory : List ChannelStep :=
  [.act 0 (.createPublisher 1 "A".toList "a".toList "a.in".toList),
    .act 0 (.createChannel sampleTurn sampleChild), .tick 10,
    .act 10 (.leaseDueChannels "worker".toList 5 60 []), .act 10 (.deletePublisher 1),
    .act 10 (.fetch 0), .act 10 (.commitDeletion 0),
    .act 10 (.discoverPublisher 4 "B".toList "b".toList "b.in".toList .hourly [sampleSitemap])]

theorem registeredStory_registered :
    ∃ w, Runs.exec (channelStep (sampleExternals [])) (emptyWorld 0) registeredStory = some w ∧
      w.db.publishers.map (·.active) = [false, true] ∧ w.db.channels.length = 2 ∧
        w.polls.length = 1 ∧ Registry (sampleExternals []) w := by
  have hend : (Runs.exec (channelStep (sampleExternals [])) (emptyWorld 0) registeredStory).any
      (fun w => w.db.publishers.map (·.active) = [false, true] && w.db.channels.length = 2 &&
        w.polls.length = 1) = true := by decide +kernel
  obtain ⟨w, hw, hrows⟩ := (Option.any_eq_true _ _).mp hend
  rw [Bool.and_eq_true, Bool.and_eq_true, decide_eq_true_eq, decide_eq_true_eq,
    decide_eq_true_eq] at hrows
  exact ⟨w, hw, hrows.1.1, hrows.1.2, hrows.2, channels_registered _ _ _ w hw⟩

end Newsintel.Acquisition
