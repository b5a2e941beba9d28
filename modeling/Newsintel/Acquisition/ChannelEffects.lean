import Newsintel.Acquisition.ChannelRuns

/-!
# What an operation does to the tables

One operation maps the rows that are there, by `channelAfter` and `publisherAfter`, and adds
new rows at the end, with ids of their own. The invariants of a run are read off these facts.
-/

namespace Newsintel.Acquisition

open PyText

/-- A channel row that is there, after the operation. -/
def channelAfter (now : Timestamp) (w : ChannelWorld) :
    ChannelOp → DiscoveryChannel → DiscoveryChannel
  | .commitDeletion place, r => (w.deletions[place]?.map (·.silence r)).getD r
  | .createFetchJob publisherId, r =>
    if r.publisherId ∈ fetchTargetPublishers publisherId w.db.publishers && r.active then
      scheduleRow now r
    else r
  | .scheduleNow channelId, r => scheduleNow channelId now r
  | .leaseDueChannels workerId limit leaseSeconds locked, r =>
    if r ∈ channelSelect now limit locked w.db.channels then
      leaseChannelRow workerId now leaseSeconds r
    else r
  | .complete place runId status observationCount etag lastModified, r =>
    (w.polls[place]?.map fun poll =>
      completeRow (pollCompletion poll.copy runId status observationCount etag lastModified now)
        r).getD r
  | _, r => r

/-- The channels that the operation is a request for. -/
def requestedChannels (w : ChannelWorld) : ChannelOp → List Uuid
  | .createFetchJob publisherId => jobChannels publisherId w.db
  | .scheduleNow channelId => scheduledChannels channelId w.db
  | _ => []

/-- The operation completes a poll of the channel. -/
def Completes (w : ChannelWorld) : ChannelOp → Uuid → Prop
  | .complete place .., channelId => ∃ poll, w.polls[place]? = some poll ∧ poll.copy.id = channelId
  | _, _ => False

/-- The columns of the schedule agree. -/
def SameSchedule (r r' : DiscoveryChannel) : Prop :=
  r'.nextPollAt = r.nextPollAt ∧ r'.lastPolledAt = r.lastPolledAt ∧
    r'.currentPollSeconds = r.currentPollSeconds

/-- A publisher row that is there, after the operation. -/
def publisherAfter (now : Timestamp) (w : ChannelWorld) :
    ChannelOp → PublisherModel → PublisherModel
  | .commitDeletion place, p => (w.deletions[place]?.map (·.retire p)).getD p
  | .createFetchJob publisherId, p =>
    if p.id ∈ fetchTargetPublishers publisherId w.db.publishers then
      { p with lastFetchedAt := some now, updatedAt := now }
    else p
  | _, p => p

/-- A publisher that the operation may add. -/
inductive FreshPublisher (now : Timestamp) : ChannelOp → PublisherModel → Prop where
  | create (id : Uuid) (name slug canonicalDomain : Text) :
      FreshPublisher now (.createPublisher id name slug canonicalDomain)
        (newPublisher id name slug canonicalDomain now)
  | discover (id : Uuid) (name slug canonicalDomain : Text) (frequency : FetchFrequency)
      (endpoints : List ValidatedEndpoint) :
      FreshPublisher now (.discoverPublisher id name slug canonicalDomain frequency endpoints)
        { newPublisher id name slug canonicalDomain now with fetchFrequency := frequency }

/-- A channel that the operation may add. -/
inductive FreshChannel (now : Timestamp) :
    ChannelOp → DiscoveryChannel → Prop where
  | discover (id : Uuid) (name slug canonicalDomain : Text) (frequency : FetchFrequency)
      (endpoints : List ValidatedEndpoint) (endpoint : ValidatedEndpoint) (endpointUrl : Text) :
      FreshChannel now (.discoverPublisher id name slug canonicalDomain frequency endpoints)
        (discoveredChannel id frequency now endpoint endpointUrl)
  | create (turn : Turn) (command : CreateChannelCommand) (endpointUrl : Text) :
      FreshChannel now (.createChannel turn command)
        (createdChannel { turn with now } command endpointUrl)

section tables

variable {ext : Externals} {now : Timestamp} {w w' : ChannelWorld} {op : ChannelOp}
  {db db' : Database}

/-- Rows are added at the end, with ids of their own. -/
def AddsRows (P : DiscoveryChannel → Prop) (rows rows' : List DiscoveryChannel) : Prop :=
  ∃ added, rows' = rows ++ added ∧ (∀ r ∈ added, P r) ∧
    ((rows.map (·.id)).Nodup → (rows'.map (·.id)).Nodup)

theorem addsRows_none (P : DiscoveryChannel → Prop) (rows : List DiscoveryChannel) :
    AddsRows P rows rows :=
  ⟨[], (List.append_nil rows).symm, by simp, id⟩

theorem addsRows_one {P : DiscoveryChannel → Prop} {rows : List DiscoveryChannel}
    {r : DiscoveryChannel} (hP : P r) (hid : r.id ∉ rows.map (·.id)) :
    AddsRows P rows (rows ++ [r]) := by
  refine ⟨[r], rfl, List.forall_mem_singleton.mpr hP, ?_⟩
  intro hd
  rw [List.map_append, List.map_singleton]
  exact List.nodup_append.mpr ⟨hd, List.nodup_singleton _, by
    rintro a ha b hb rfl
    exact hid (List.mem_singleton.mp hb ▸ ha)⟩

theorem AddsRows.trans {P : DiscoveryChannel → Prop} {rows rows' rows'' : List DiscoveryChannel}
    (h : AddsRows P rows rows') (h' : AddsRows P rows' rows'') : AddsRows P rows rows'' := by
  obtain ⟨added, rfl, hP, hd⟩ := h
  obtain ⟨added', rfl, hP', hd'⟩ := h'
  exact ⟨added ++ added', List.append_assoc .., List.forall_mem_append.mpr ⟨hP, hP'⟩, hd' ∘ hd⟩

theorem channelSelect_mem {limit : ℕ} {locked : List Uuid} {rows : List DiscoveryChannel}
    {r : DiscoveryChannel} (h : r ∈ channelSelect now limit locked rows) :
    r ∈ rows ∧ channelDue now r = true := by
  have hpicked := (List.mem_filter.mp (List.mem_of_mem_take h)).1
  exact List.mem_filter.mp ((List.mem_insertionSort _).mp hpicked)

theorem createChannelIfAbsent_rows {publisherId : Uuid} {frequency : FetchFrequency}
    {rows rows' : List DiscoveryChannel} {endpoint : ValidatedEndpoint}
    (h : createChannelIfAbsent ext publisherId frequency now rows endpoint = .ok rows') :
    AddsRows (fun r => ∃ endpoint endpointUrl,
      r = discoveredChannel publisherId frequency now endpoint endpointUrl) rows rows' := by
  unfold createChannelIfAbsent at h
  obtain ⟨canonical, -, h⟩ := bind_ok h
  simp only [bind, Except.bind, pure, Except.pure] at h
  split at h
  · cases h
    exact addsRows_none _ rows
  · split at h
    · cases h
    · rename_i hid
      cases h
      exact addsRows_one ⟨endpoint, canonical.normalized, rfl⟩ hid

theorem createChannels_rows {publisherId : Uuid} {frequency : FetchFrequency}
    {endpoints : List ValidatedEndpoint} {rows rows' : List DiscoveryChannel}
    (h : endpoints.foldlM (createChannelIfAbsent ext publisherId frequency now) rows = .ok rows') :
    AddsRows (fun r => ∃ endpoint endpointUrl,
      r = discoveredChannel publisherId frequency now endpoint endpointUrl) rows rows' := by
  induction endpoints generalizing rows with
  | nil =>
    cases h
    exact addsRows_none _ _
  | cons endpoint rest ih =>
    rw [List.foldlM_cons] at h
    obtain ⟨rows'', hfirst, hrest⟩ := bind_ok h
    exact (createChannelIfAbsent_rows hfirst).trans (ih hrest)

theorem publisherId_free {id : Uuid} {taken : Bool}
    (h : ¬ (taken || (Table.get? (·.id) id db.publishers).isSome) = true) :
    id ∉ db.publishers.map (·.id) := by
  cases hget : Table.get? (·.id) id db.publishers with
  | none => exact Table.get?_none.mp hget
  | some p =>
    rw [hget, Option.isSome_some, Bool.or_true] at h
    exact absurd rfl h

theorem discoverPublisher_rows {id : Uuid} {name slug canonicalDomain : Text}
    {frequency : FetchFrequency} {endpoints : List ValidatedEndpoint}
    (h : discoverPublisher ext id name slug canonicalDomain frequency now endpoints db = .ok db') :
    id ∉ db.publishers.map (·.id) ∧
      db'.publishers = db.publishers ++
        [{ newPublisher id name slug canonicalDomain now with fetchFrequency := frequency }] ∧
      AddsRows (fun r => ∃ endpoint endpointUrl,
        r = discoveredChannel id frequency now endpoint endpointUrl) db.channels db'.channels := by
  unfold discoverPublisher at h
  simp only [bind, Except.bind, pure, Except.pure] at h
  split at h
  · cases h
  · split at h
    · cases h
    · rename_i hkeys
      split at h
      · cases h
      · rename_i hchannels
        cases h
        exact ⟨publisherId_free hkeys, rfl, createChannels_rows hchannels⟩

theorem createPublisher_rows {id : Uuid} {name slug canonicalDomain : Text}
    (h : createPublisher id name slug canonicalDomain now db = .ok db') :
    id ∉ db.publishers.map (·.id) ∧
      db'.publishers = db.publishers ++ [newPublisher id name slug canonicalDomain now] ∧
      db'.channels = db.channels := by
  unfold createPublisher at h
  split at h
  · cases h
  · split at h
    · cases h
    · rename_i hkeys
      cases h
      exact ⟨publisherId_free hkeys, rfl, rfl⟩

theorem createFetchJob_rows {publisherId : Option Uuid}
    (h : createFetchJob publisherId now db = .ok db') :
    db'.channels = db.channels.map (fun r =>
        if r.publisherId ∈ fetchTargetPublishers publisherId db.publishers && r.active then
          scheduleRow now r
        else r) ∧
      db'.publishers = db.publishers.map fun p =>
        if p.id ∈ fetchTargetPublishers publisherId db.publishers then
          { p with lastFetchedAt := some now, updatedAt := now }
        else p := by
  unfold createFetchJob at h
  simp only at h
  split at h
  · cases h
  · cases h
    exact ⟨rfl, rfl⟩

theorem channelAfter_commitDeletion {place : ℕ} {d : Deletion} (h : w.deletions[place]? = some d) :
    channelAfter now w (.commitDeletion place) = d.silence := by
  funext r
  simp only [channelAfter, h, Option.map_some, Option.getD_some]

theorem channelAfter_complete {place observationCount : ℕ} {runId : Uuid}
    {status : PollRunStatus} {etag lastModified : Option Text} {poll : InFlightPoll}
    (h : w.polls[place]? = some poll) :
    channelAfter now w (.complete place runId status observationCount etag lastModified) =
      completeRow
        (pollCompletion poll.copy runId status observationCount etag lastModified now) := by
  funext r
  simp only [channelAfter, h, Option.map_some, Option.getD_some]

theorem completeRow_of_eq {copy r : DiscoveryChannel} {runId : Uuid} {status : PollRunStatus}
    {observationCount : ℕ} {etag lastModified : Option Text} (h : r.id = copy.id) :
    completeRow (pollCompletion copy runId status observationCount etag lastModified now) r =
      completeChannel (pollCompletion copy runId status observationCount etag lastModified now) r :=
  if_pos h

theorem completeRow_of_ne {copy r : DiscoveryChannel} {runId : Uuid} {status : PollRunStatus}
    {observationCount : ℕ} {etag lastModified : Option Text} (h : r.id ≠ copy.id) :
    completeRow (pollCompletion copy runId status observationCount etag lastModified now) r = r :=
  if_neg h

/- What every assignment to a row keeps, the operation keeps. -/
theorem channelAfter_of_assignments {R : DiscoveryChannel → DiscoveryChannel → Prop}
    (hrefl : ∀ r, R r r)
    (hsilence : ∀ (d : Deletion) r, R r { r with active := false, updatedAt := d.deletedAt })
    (hschedule : ∀ r, R r (scheduleRow now r))
    (hlease : ∀ workerId leaseSeconds r, R r (leaseChannelRow workerId now leaseSeconds r))
    (hcomplete : ∀ completion r, R r (completeChannel completion r))
    (w : ChannelWorld) (op : ChannelOp) (r : DiscoveryChannel) :
    R r (channelAfter now w op r) := by
  cases op with
  | commitDeletion place =>
    cases h : w.deletions[place]? with
    | none =>
      simp only [channelAfter, h, Option.map_none, Option.getD_none]
      exact hrefl r
    | some d =>
      rw [channelAfter_commitDeletion h, Deletion.silence]
      split
      · exact hsilence d r
      · exact hrefl r
  | createFetchJob publisherId =>
    simp only [channelAfter]
    split
    · exact hschedule r
    · exact hrefl r
  | scheduleNow channelId =>
    simp only [channelAfter, scheduleNow]
    split
    · exact hschedule r
    · exact hrefl r
  | leaseDueChannels workerId limit leaseSeconds locked =>
    simp only [channelAfter]
    split
    · exact hlease workerId leaseSeconds r
    · exact hrefl r
  | complete place runId status observationCount etag lastModified =>
    cases h : w.polls[place]? with
    | none =>
      simp only [channelAfter, h, Option.map_none, Option.getD_none]
      exact hrefl r
    | some poll =>
      rw [channelAfter_complete h, completeRow]
      split
      · exact hcomplete _ r
      · exact hrefl r
  | _ => exact hrefl r

theorem completeChannel_keys (completion : PollCompletion) (r : DiscoveryChannel) :
    (completeChannel completion r).id = r.id ∧
      (completeChannel completion r).publisherId = r.publisherId ∧
      (completeChannel completion r).active = r.active := by
  simp only [completeChannel]
  split <;> exact ⟨rfl, rfl, rfl⟩

theorem channelAfter_id (now : Timestamp) (w : ChannelWorld) (op : ChannelOp)
    (r : DiscoveryChannel) : (channelAfter now w op r).id = r.id :=
  channelAfter_of_assignments (R := fun r r' => r'.id = r.id) (fun _ => rfl) (fun _ _ => rfl)
    (fun _ => rfl) (fun _ _ _ => rfl) (fun completion r => (completeChannel_keys completion r).1)
    w op r

theorem channelAfter_publisherId (now : Timestamp) (w : ChannelWorld) (op : ChannelOp)
    (r : DiscoveryChannel) : (channelAfter now w op r).publisherId = r.publisherId :=
  channelAfter_of_assignments (R := fun r r' => r'.publisherId = r.publisherId) (fun _ => rfl)
    (fun _ _ => rfl) (fun _ => rfl) (fun _ _ _ => rfl)
    (fun completion r => (completeChannel_keys completion r).2.1) w op r

/- An operation activates no channel that is there. -/
theorem active_of_channelAfter {r : DiscoveryChannel}
    (h : (channelAfter now w op r).active = true) : r.active = true :=
  channelAfter_of_assignments (R := fun r r' => r'.active = true → r.active = true)
    (fun _ h => h) (fun _ _ h => absurd h Bool.false_ne_true) (fun _ h => h) (fun _ _ _ h => h)
    (fun completion r h => (completeChannel_keys completion r).2.2 ▸ h) w op r h

theorem answered {α : Type} {answer : Except PyError α} {f : α → ChannelWorld}
    (h : answer.toOption.map f = some w') : ∃ a, answer = .ok a ∧ w' = f a := by
  cases answer with
  | error e => cases h
  | ok a => exact ⟨a, rfl, (Option.some.inj h).symm⟩

theorem act_deletePublisher {publisherId : Uuid}
    (h : act ext now w (.deletePublisher publisherId) = some w') :
    publisherId ∈ w.db.publishers.map (·.id) ∧
      w' = { w with deletions := w.deletions ++ [startDeletion publisherId now w.db] } := by
  simp only [act] at h
  split at h
  · rename_i hmem
    exact ⟨hmem, (Option.some.inj h).symm⟩
  · cases h

theorem act_complete {place observationCount : ℕ} {runId : Uuid} {status : PollRunStatus}
    {etag lastModified : Option Text}
    (h : act ext now w (.complete place runId status observationCount etag lastModified) =
      some w') :
    ∃ poll, w.polls[place]? = some poll ∧ poll.fetching = true ∧
      w' = { w with
        db := { w.db with
          channels := w.db.channels.map (completeRow
            (pollCompletion poll.copy runId status observationCount etag lastModified now)) }
        polls := w.polls.eraseIdx place
        asked := w.asked.filter (· ≠ poll.copy.id) } := by
  obtain ⟨poll, hpoll, rfl⟩ := Option.map_eq_some_iff.mp h
  obtain ⟨hget, hfetching⟩ := Option.filter_eq_some_iff.mp hpoll
  exact ⟨poll, hget, hfetching, rfl⟩

/-- The channels after an operation. -/
theorem act_channels (h : act ext now w op = some w') :
    AddsRows (FreshChannel now op) (w.db.channels.map (channelAfter now w op)) w'.db.channels := by
  have hchanged : w'.db.channels = w.db.channels.map (channelAfter now w op) →
      AddsRows (FreshChannel now op) (w.db.channels.map (channelAfter now w op))
        w'.db.channels := by
    intro he
    rw [he]
    exact addsRows_none _ _
  cases op with
  | createPublisher id name slug canonicalDomain =>
    obtain ⟨db, hdb, rfl⟩ := answered h
    apply hchanged
    exact (createPublisher_rows hdb).2.2.trans (List.map_id _).symm
  | discoverPublisher id name slug canonicalDomain frequency endpoints =>
    obtain ⟨db, hdb, rfl⟩ := answered h
    obtain ⟨_, _, added, hadded, hfresh, hd⟩ := discoverPublisher_rows hdb
    have hsame : w.db.channels.map (channelAfter now w
        (.discoverPublisher id name slug canonicalDomain frequency endpoints)) = w.db.channels :=
      List.map_id _
    rw [hsame]
    refine ⟨added, hadded, ?_, hd⟩
    intro r hr
    obtain ⟨endpoint, endpointUrl, rfl⟩ := hfresh r hr
    exact .discover id name slug canonicalDomain frequency endpoints endpoint endpointUrl
  | createChannel turn command =>
    obtain ⟨⟨_, db⟩, hdb, rfl⟩ := answered h
    obtain ⟨endpointUrl, _, _, hid, rfl⟩ := createChannel_rows hdb
    have hsame : w.db.channels.map (channelAfter now w (.createChannel turn command)) =
        w.db.channels := List.map_id _
    rw [hsame]
    exact addsRows_one (.create turn command endpointUrl) hid
  | deletePublisher publisherId =>
    obtain ⟨_, rfl⟩ := act_deletePublisher h
    exact hchanged (List.map_id _).symm
  | commitDeletion place =>
    obtain ⟨d, hd, rfl⟩ := Option.map_eq_some_iff.mp h
    apply hchanged
    rw [channelAfter_commitDeletion hd]
    rfl
  | createFetchJob publisherId =>
    obtain ⟨db, hdb, rfl⟩ := answered h
    exact hchanged (createFetchJob_rows hdb).1
  | scheduleNow channelId =>
    cases h
    exact hchanged rfl
  | leaseDueChannels workerId limit leaseSeconds locked =>
    cases h
    exact hchanged rfl
  | fetch place =>
    obtain ⟨poll, _, rfl⟩ := Option.map_eq_some_iff.mp h
    exact hchanged (List.map_id _).symm
  | complete place runId status observationCount etag lastModified =>
    obtain ⟨poll, hpoll, _, rfl⟩ := act_complete h
    apply hchanged
    rw [channelAfter_complete hpoll]

theorem channelAfter_ids (now : Timestamp) (w : ChannelWorld) (op : ChannelOp) :
    (w.db.channels.map (channelAfter now w op)).map (·.id) = w.db.channels.map (·.id) := by
  rw [List.map_map]
  exact List.map_congr_left fun r _ => channelAfter_id now w op r

theorem act_distinct (h : act ext now w op = some w') (hd : (w.db.channels.map (·.id)).Nodup) :
    (w'.db.channels.map (·.id)).Nodup := by
  obtain ⟨_, _, _, hdistinct⟩ := act_channels h
  rw [channelAfter_ids] at hdistinct
  exact hdistinct hd

theorem act_ids (h : act ext now w op = some w') :
    w.db.channels.map (·.id) ⊆ w'.db.channels.map (·.id) := by
  obtain ⟨added, hchannels, _, _⟩ := act_channels h
  rw [hchannels, List.map_append, channelAfter_ids]
  exact List.subset_append_left _ _

/- A row with the id of an earlier one is that row, after the operation. -/
theorem act_known_row (h : act ext now w op = some w') (hd : (w.db.channels.map (·.id)).Nodup)
    {r : DiscoveryChannel} (hr : r ∈ w'.db.channels) (hid : r.id ∈ w.db.channels.map (·.id)) :
    ∃ q ∈ w.db.channels, channelAfter now w op q = r := by
  have hdistinct := act_distinct h hd
  obtain ⟨added, hchannels, _, _⟩ := act_channels h
  rw [hchannels, List.mem_append] at hr
  obtain hr | hr := hr
  · exact List.mem_map.mp hr
  · rw [hchannels, List.map_append, channelAfter_ids, List.nodup_append] at hdistinct
    exact absurd rfl (hdistinct.2.2 r.id hid r.id (List.mem_map_of_mem hr))

theorem retire_id (d : Deletion) (p : PublisherModel) : (d.retire p).id = p.id := by
  unfold Deletion.retire
  split <;> rfl

theorem publisherAfter_commitDeletion {place : ℕ} {d : Deletion}
    (h : w.deletions[place]? = some d) :
    publisherAfter now w (.commitDeletion place) = d.retire := by
  funext p
  simp only [publisherAfter, h, Option.map_some, Option.getD_some]

theorem publisherAfter_id (now : Timestamp) (w : ChannelWorld) (op : ChannelOp)
    (p : PublisherModel) : (publisherAfter now w op p).id = p.id := by
  cases op with
  | commitDeletion place =>
    cases h : w.deletions[place]? with
    | none => simp only [publisherAfter, h, Option.map_none, Option.getD_none]
    | some d => rw [publisherAfter_commitDeletion h, retire_id]
  | createFetchJob publisherId =>
    simp only [publisherAfter]
    split <;> rfl
  | _ => rfl

/-- The publishers after an operation. -/
theorem act_publishers (h : act ext now w op = some w') :
    ∃ added, w'.db.publishers = w.db.publishers.map (publisherAfter now w op) ++ added ∧
      ∀ p ∈ added, FreshPublisher now op p ∧ p.id ∉ w.db.publishers.map (·.id) := by
  have hchanged : w'.db.publishers = w.db.publishers.map (publisherAfter now w op) →
      ∃ added, w'.db.publishers = w.db.publishers.map (publisherAfter now w op) ++ added ∧
        ∀ p ∈ added, FreshPublisher now op p ∧ p.id ∉ w.db.publishers.map (·.id) := by
    intro he
    exact ⟨[], by rw [he, List.append_nil], by simp⟩
  cases op with
  | createPublisher id name slug canonicalDomain =>
    obtain ⟨db, hdb, rfl⟩ := answered h
    obtain ⟨hid, hadded, _⟩ := createPublisher_rows hdb
    refine ⟨[newPublisher id name slug canonicalDomain now], ?_, ?_⟩
    · exact hadded.trans (congrArg (· ++ _) (List.map_id _).symm)
    · exact List.forall_mem_singleton.mpr ⟨.create id name slug canonicalDomain, hid⟩
  | discoverPublisher id name slug canonicalDomain frequency endpoints =>
    obtain ⟨db, hdb, rfl⟩ := answered h
    obtain ⟨hid, hadded, _⟩ := discoverPublisher_rows hdb
    refine ⟨[{ newPublisher id name slug canonicalDomain now with fetchFrequency := frequency }],
      ?_, ?_⟩
    · exact hadded.trans (congrArg (· ++ _) (List.map_id _).symm)
    · exact List.forall_mem_singleton.mpr
        ⟨.discover id name slug canonicalDomain frequency endpoints, hid⟩
  | createChannel turn command =>
    obtain ⟨⟨_, db⟩, hdb, rfl⟩ := answered h
    obtain ⟨_, _, _, _, rfl⟩ := createChannel_rows hdb
    exact hchanged (List.map_id _).symm
  | deletePublisher publisherId =>
    obtain ⟨_, rfl⟩ := act_deletePublisher h
    exact hchanged (List.map_id _).symm
  | commitDeletion place =>
    obtain ⟨d, hd, rfl⟩ := Option.map_eq_some_iff.mp h
    apply hchanged
    rw [publisherAfter_commitDeletion hd]
    rfl
  | createFetchJob publisherId =>
    obtain ⟨db, hdb, rfl⟩ := answered h
    exact hchanged (createFetchJob_rows hdb).2
  | scheduleNow channelId =>
    cases h
    exact hchanged (List.map_id _).symm
  | leaseDueChannels workerId limit leaseSeconds locked =>
    cases h
    exact hchanged (List.map_id _).symm
  | fetch place =>
    obtain ⟨poll, _, rfl⟩ := Option.map_eq_some_iff.mp h
    exact hchanged (List.map_id _).symm
  | complete place runId status observationCount etag lastModified =>
    obtain ⟨poll, _, _, rfl⟩ := act_complete h
    exact hchanged (List.map_id _).symm

theorem act_clock (h : act ext now w op = some w') : w'.clock = w.clock := by
  cases op with
  | createPublisher | discoverPublisher | createChannel | createFetchJob =>
    obtain ⟨_, _, rfl⟩ := answered h
    rfl
  | deletePublisher publisherId =>
    obtain ⟨_, rfl⟩ := act_deletePublisher h
    rfl
  | scheduleNow | leaseDueChannels =>
    cases h
    rfl
  | commitDeletion | fetch | complete =>
    obtain ⟨_, _, rfl⟩ := Option.map_eq_some_iff.mp h
    rfl

/- Only a request makes a channel wait for a fetch. -/
theorem act_awaiting (h : act ext now w op = some w') {channelId : Uuid}
    (hid : channelId ∈ w'.awaiting) :
    channelId ∈ w.awaiting ∨ channelId ∈ requestedChannels w op := by
  cases op with
  | createPublisher | discoverPublisher | createChannel =>
    obtain ⟨_, _, rfl⟩ := answered h
    exact Or.inl hid
  | createFetchJob publisherId =>
    obtain ⟨_, _, rfl⟩ := answered h
    exact List.mem_append.mp hid
  | deletePublisher publisherId =>
    obtain ⟨_, rfl⟩ := act_deletePublisher h
    exact Or.inl hid
  | scheduleNow channelId =>
    cases h
    exact List.mem_append.mp hid
  | leaseDueChannels =>
    cases h
    exact Or.inl hid
  | fetch place =>
    obtain ⟨_, _, rfl⟩ := Option.map_eq_some_iff.mp h
    exact Or.inl (List.mem_filter.mp hid).1
  | commitDeletion | complete =>
    obtain ⟨_, _, rfl⟩ := Option.map_eq_some_iff.mp h
    exact Or.inl hid

/- Only a completed poll settles the requests for a channel. -/
theorem act_asked (h : act ext now w op = some w') {channelId : Uuid}
    (hid : channelId ∈ w.asked ∨ channelId ∈ requestedChannels w op) :
    channelId ∈ w'.asked ∨ Completes w op channelId := by
  cases op with
  | createPublisher | discoverPublisher | createChannel =>
    obtain ⟨_, _, rfl⟩ := answered h
    exact Or.inl (hid.resolve_right List.not_mem_nil)
  | createFetchJob publisherId =>
    obtain ⟨_, _, rfl⟩ := answered h
    exact Or.inl (List.mem_append.mpr hid)
  | deletePublisher publisherId =>
    obtain ⟨_, rfl⟩ := act_deletePublisher h
    exact Or.inl (hid.resolve_right List.not_mem_nil)
  | scheduleNow channelId =>
    cases h
    exact Or.inl (List.mem_append.mpr hid)
  | leaseDueChannels =>
    cases h
    exact Or.inl (hid.resolve_right List.not_mem_nil)
  | commitDeletion | fetch =>
    obtain ⟨_, _, rfl⟩ := Option.map_eq_some_iff.mp h
    exact Or.inl (hid.resolve_right List.not_mem_nil)
  | complete place runId status observationCount etag lastModified =>
    obtain ⟨poll, hpoll, _, rfl⟩ := act_complete h
    by_cases hcopy : poll.copy.id = channelId
    · exact Or.inr ⟨poll, hpoll, hcopy⟩
    · refine Or.inl (List.mem_filter.mpr ⟨hid.resolve_right List.not_mem_nil, ?_⟩)
      exact decide_eq_true (Ne.symm hcopy)

theorem mem_jobChannels {publisherId : Option Uuid} {channelId : Uuid} :
    channelId ∈ jobChannels publisherId db ↔ ∃ r ∈ db.channels, r.id = channelId ∧
      (r.publisherId ∈ fetchTargetPublishers publisherId db.publishers && r.active) = true := by
  simp only [jobChannels, List.mem_map, List.mem_filter]
  constructor
  · rintro ⟨r, ⟨hr, htarget⟩, hid⟩
    exact ⟨r, hr, hid, htarget⟩
  · rintro ⟨r, hr, hid, htarget⟩
    exact ⟨r, ⟨hr, htarget⟩, hid⟩

theorem mem_scheduledChannels {scheduled channelId : Uuid} :
    channelId ∈ scheduledChannels scheduled db ↔ ∃ r ∈ db.channels, r.id = channelId ∧
      (r.id = scheduled && r.active) = true := by
  simp only [scheduledChannels, List.mem_map, List.mem_filter]
  constructor
  · rintro ⟨r, ⟨hr, htarget⟩, hid⟩
    exact ⟨r, hr, hid, htarget⟩
  · rintro ⟨r, hr, hid, htarget⟩
    exact ⟨r, ⟨hr, htarget⟩, hid⟩

theorem mem_of_requested {channelId : Uuid} (h : channelId ∈ requestedChannels w op) :
    channelId ∈ w.db.channels.map (·.id) := by
  cases op with
  | createFetchJob publisherId =>
    obtain ⟨r, hr, hid, _⟩ := mem_jobChannels.mp h
    exact List.mem_map.mpr ⟨r, hr, hid⟩
  | scheduleNow scheduled =>
    obtain ⟨r, hr, hid, _⟩ := mem_scheduledChannels.mp h
    exact List.mem_map.mpr ⟨r, hr, hid⟩
  | _ => exact absurd h List.not_mem_nil

/- A request sets `next_poll_at` of the channels that it names. -/
theorem channelAfter_of_requested {r : DiscoveryChannel}
    (hd : (w.db.channels.map (·.id)).Nodup) (hr : r ∈ w.db.channels)
    (h : r.id ∈ requestedChannels w op) : channelAfter now w op r = scheduleRow now r := by
  cases op with
  | createFetchJob publisherId =>
    obtain ⟨q, hq, hid, htarget⟩ := mem_jobChannels.mp h
    obtain rfl := List.inj_on_of_nodup_map hd hq hr hid
    simp only [channelAfter, if_pos htarget]
  | scheduleNow scheduled =>
    obtain ⟨q, hq, hid, htarget⟩ := mem_scheduledChannels.mp h
    obtain rfl := List.inj_on_of_nodup_map hd hq hr hid
    simp only [channelAfter, scheduleNow, if_pos htarget]
  | _ => exact absurd h List.not_mem_nil

/- The three ways of an operation with the schedule of a row. -/
theorem channelAfter_schedule (now : Timestamp) (op : ChannelOp) {r : DiscoveryChannel}
    (hr : r ∈ w.db.channels) :
    SameSchedule r (channelAfter now w op r) ∨
      (r.id ∈ requestedChannels w op ∧ channelAfter now w op r = scheduleRow now r) ∨
      Completes w op r.id := by
  cases op with
  | commitDeletion place =>
    left
    cases h : w.deletions[place]? with
    | none => simp only [channelAfter, h, Option.map_none, Option.getD_none, SameSchedule, and_self]
    | some d =>
      rw [channelAfter_commitDeletion h, Deletion.silence]
      split <;> exact ⟨rfl, rfl, rfl⟩
  | createFetchJob publisherId =>
    simp only [channelAfter]
    split
    · rename_i htarget
      exact Or.inr (Or.inl ⟨mem_jobChannels.mpr ⟨r, hr, rfl, htarget⟩, rfl⟩)
    · exact Or.inl ⟨rfl, rfl, rfl⟩
  | scheduleNow scheduled =>
    simp only [channelAfter, scheduleNow]
    split
    · rename_i htarget
      exact Or.inr (Or.inl ⟨mem_scheduledChannels.mpr ⟨r, hr, rfl, htarget⟩, rfl⟩)
    · exact Or.inl ⟨rfl, rfl, rfl⟩
  | leaseDueChannels workerId limit leaseSeconds locked =>
    left
    simp only [channelAfter]
    split <;> exact ⟨rfl, rfl, rfl⟩
  | complete place runId status observationCount etag lastModified =>
    cases h : w.polls[place]? with
    | none =>
      simp only [channelAfter, h, Option.map_none, Option.getD_none]
      exact Or.inl ⟨rfl, rfl, rfl⟩
    | some poll =>
      by_cases hid : r.id = poll.copy.id
      · exact Or.inr (Or.inr ⟨poll, h, hid.symm⟩)
      · rw [channelAfter_complete h, completeRow_of_ne hid]
        exact Or.inl ⟨rfl, rfl, rfl⟩
  | _ => exact Or.inl ⟨rfl, rfl, rfl⟩

theorem channelStep_cases {step : ChannelStep} (h : channelStep ext w step = some w') :
    (∃ clock, step = .tick clock ∧ w.clock ≤ clock ∧ w' = { w with clock }) ∨
      ∃ now op, step = .act now op ∧ now ≤ w.clock ∧ act ext now w op = some w' := by
  cases step with
  | tick clock =>
    simp only [channelStep] at h
    split at h
    · rename_i hclock
      exact Or.inl ⟨clock, rfl, hclock, (Option.some.inj h).symm⟩
    · cases h
  | act now op =>
    simp only [channelStep] at h
    split at h
    · rename_i hnow
      exact Or.inr ⟨now, op, rfl, hnow, h⟩
    · cases h

end tables

end Newsintel.Acquisition
