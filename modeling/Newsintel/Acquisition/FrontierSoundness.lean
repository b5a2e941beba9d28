import Newsintel.Acquisition.CanonicalForm
import Newsintel.Acquisition.ExactlyOnce
import Newsintel.Articles.CandidateRuns

/-!
# What the frontier says about the web

Discoveries, candidates and published events agree with each other and with the URLs that the
channels have seen, over any interleaving of observations with the administration of channels,
with the article workers and with the cleanup of the backlog.
-/

namespace Newsintel.Acquisition

open PyText Articles ReadCommitted

/-! ### The system -/

/-- What is committed beside the calls of `observe_discovery`. -/
inductive FrontierEvent where
  | administer (tables : List PublisherModel × List DiscoveryChannel)
  /-- of an article worker, or the cleanup -/
  | work (maxAttempts : ℕ) (a : Articles.Step)

/-- A committed step on the candidates that are there; discoveries have transactions of their
own. -/
def workRows (maxAttempts : ℕ) (a : Articles.Step) (rows : List UrlCandidateModel) :
    List UrlCandidateModel :=
  match a with
  | .observeDiscovery _ => rows
  | a => rows.map (rowAfter maxAttempts ⟨rows, []⟩ a)

def work (maxAttempts : ℕ) (a : Articles.Step) (f : FrontierTables) : FrontierTables :=
  { f with db := { f.db with candidates := workRows maxAttempts a f.db.candidates } }

def frontierSystem (ext : Externals) :
    System FrontierTables ObserveTransaction FrontierEvent (Turn × ObserveDiscoveryCommand) where
  opening := beginObservation ext
  other
    | .administer tables => administer tables
    | .work maxAttempts a => work maxAttempts a
  statement := ObserveTransaction.statement
  commit := ObserveTransaction.commit

/-- The columns of a candidate that nothing writes again. -/
def fixedColumns (r : UrlCandidateModel) : Uuid × Uuid × Text × Bytes × ℚ × Timestamp :=
  (r.id, r.publisherId, r.normalizedUrl, r.urlFingerprint, r.priorityScore, r.createdAt)

/-! ### What is said -/

/-- The URL has a canonical form, with the fingerprint of the candidate. -/
def Fingerprints (ext : Externals) (url : Text) (r : UrlCandidateModel) : Prop :=
  ∃ c, canonicalizeUrl ext.unicode ext.nameprep defaultPolicy url = .ok c ∧
    r.urlFingerprint = fromHex c.fingerprint

/-- The candidate is the canonical form of the URL. -/
def Normalizes (ext : Externals) (url : Text) (r : UrlCandidateModel) : Prop :=
  ∃ c, canonicalizeUrl ext.unicode ext.nameprep defaultPolicy url = .ok c ∧
    r.normalizedUrl = c.normalized

/-- A candidate among the discoveries. -/
structure CandidateSound (ext : Externals) (discoveries : List UrlDiscoveryModel)
    (r : UrlCandidateModel) : Prop where
  fingerprint : r.urlFingerprint = fromHex (Sha256.ofText r.normalizedUrl)
  priority : 0 ≤ r.priorityScore ∧ r.priorityScore ≤ 1
  /-- the discovery that brought it -/
  discovered : ∃ d ∈ discoveries, d.urlCandidateId = r.id ∧ Normalizes ext d.discoveredUrl r

/-- An event of the outbox, which consumers read in place of the tables. -/
def EventSound (db : Database) : AcquisitionEvent → Prop
  | .itemObserved candidate channel _ url normalizedUrl _ _ _ _ discoveredAt =>
    (∃ r ∈ db.candidates, r.id = candidate ∧ r.normalizedUrl = normalizedUrl) ∧
      ∃ d ∈ db.discoveries, d.urlCandidateId = candidate ∧ d.channelId = channel ∧
        d.discoveredUrl = url ∧ d.discoveredAt = discoveredAt
  | .urlAdmitted candidate publisher normalizedUrl priorityScore _ _ _ =>
    ∃ r ∈ db.candidates, r.id = candidate ∧ r.publisherId = publisher ∧
      r.normalizedUrl = normalizedUrl ∧ r.priorityScore = priorityScore
  | _ => True

structure FrontierSound (ext : Externals) (db : Database) : Prop where
  candidates : ∀ r ∈ db.candidates, CandidateSound ext db.discoveries r
  discoveries : ∀ d ∈ db.discoveries, ∃ r ∈ db.candidates, r.id = d.urlCandidateId ∧
    Fingerprints ext d.discoveredUrl r
  events : ∀ e ∈ db.outbox, EventSound db e

theorem FrontierSound.refers {ext : Externals} {db : Database} (h : FrontierSound ext db) :
    ∀ d ∈ db.discoveries, d.urlCandidateId ∈ db.candidates.map (·.id) := by
  intro d hd
  obtain ⟨r, hr, hid, _⟩ := h.discoveries d hd
  exact List.mem_map.mpr ⟨r, hr, hid⟩

/-! ### What a transaction knows -/

section transactions

variable {ext : Externals} {f f' : FrontierTables} {others : List ObserveTransaction}
  {t t' : ObserveTransaction} {r row : UrlCandidateModel}

/-- A committed candidate has the fixed columns of the row. -/
def Known (db : Database) (row : UrlCandidateModel) : Prop :=
  ∃ r ∈ db.candidates, fixedColumns r = fixedColumns row

/-- No candidate or discovery is deleted. -/
structure Grows (db db' : Database) : Prop where
  candidates : db.candidates.map fixedColumns ⊆ db'.candidates.map fixedColumns
  discoveries : db.discoveries ⊆ db'.discoveries

theorem fixedColumns_eq (h : fixedColumns r = fixedColumns row) :
    r.id = row.id ∧ r.publisherId = row.publisherId ∧ r.normalizedUrl = row.normalizedUrl ∧
      r.urlFingerprint = row.urlFingerprint ∧ r.priorityScore = row.priorityScore ∧
        r.createdAt = row.createdAt := by
  simpa only [fixedColumns, Prod.mk.injEq] using h

theorem known_iff {db : Database} :
    Known db row ↔ fixedColumns row ∈ db.candidates.map fixedColumns :=
  List.mem_map.symm

theorem Known.grows {db db' : Database} (h : Known db row) (hgrows : Grows db db') :
    Known db' row :=
  known_iff.mpr (hgrows.candidates (known_iff.mp h))

/-- What a transaction has found or written: the candidate is its own, or committed. -/
def Admitted (db : Database) (t : ObserveTransaction) (channel : DiscoveryChannel)
    (candidate : UrlCandidateModel) : Bool → Prop
  | true => t.inserted = some candidate ∧ candidate = admittedRow (t.brings channel)
  | false => t.inserted = none ∧ Known db candidate ∧
      candidate.urlFingerprint = fromHex t.canonical.fingerprint

/-- A transaction among the committed rows, at each stage. -/
def Tracks (db : Database) (t : ObserveTransaction) : Prop :=
  match t.stage with
  | .begun | .channelRead _ | .candidateRead _ none => True
  | .candidateRead _ (some found) | .candidateLoaded _ found =>
    Known db found ∧ found.urlFingerprint = fromHex t.canonical.fingerprint
  | .admitted channel candidate candidateCreated => Admitted db t channel candidate candidateCreated
  | .observed answer rest =>
    ∃ channel candidate,
      Admitted db t channel candidate answer.result.candidateCreated ∧
        t.discovery = (if answer.result.channelObservationCreated then
          some (observationOf t.turn t.command channel candidate) else none) ∧
        (answer.result.candidateCreated = true → answer.result.channelObservationCreated = true) ∧
        t.events ++ rest ⊆ observationEvents t.command channel candidate
          (t.command.discoveredAt.getD t.turn.now) answer.result.candidateCreated
          answer.result.channelObservationCreated

theorem Admitted.grows {db db' : Database} {channel : DiscoveryChannel} {candidateCreated : Bool}
    (h : Admitted db t channel row candidateCreated) (hgrows : Grows db db') :
    Admitted db' t channel row candidateCreated := by
  cases candidateCreated with
  | true => exact h
  | false => exact ⟨h.1, h.2.1.grows hgrows, h.2.2⟩

theorem Tracks.grows {db db' : Database} (h : Tracks db t) (hgrows : Grows db db') :
    Tracks db' t := by
  unfold Tracks at h ⊢
  split
  · trivial
  · trivial
  · trivial
  · rename_i hstage
    rw [hstage] at h
    exact ⟨h.1.grows hgrows, h.2⟩
  · rename_i hstage
    rw [hstage] at h
    exact ⟨h.1.grows hgrows, h.2⟩
  · rename_i hstage
    rw [hstage] at h
    exact Admitted.grows h hgrows
  · rename_i hstage
    rw [hstage] at h
    obtain ⟨channel, candidate, hadmitted, hrest⟩ := h
    exact ⟨channel, candidate, hadmitted.grows hgrows, hrest⟩

theorem known_of_mem {db : Database} (h : r ∈ db.candidates) : Known db r := ⟨r, h, rfl⟩

theorem readCandidate_tracks {channel : DiscoveryChannel}
    (h : t.readCandidate f.db channel = .continues t') : Tracks f.db t' := by
  cases h
  unfold Tracks
  cases hfind : Table.get? (·.urlFingerprint) (t.brings channel).urlFingerprint f.db.candidates with
  | none => trivial
  | some found =>
    obtain ⟨hmem, hfingerprint⟩ := Table.get?_some hfind
    exact ⟨known_of_mem hmem, hfingerprint⟩

theorem insertCandidate_tracks {channel : DiscoveryChannel}
    (h : t.insertCandidate f.db others channel = .continues t') : Tracks f.db t' := by
  unfold ObserveTransaction.insertCandidate at h
  simp only at h
  split at h
  · cases h
  · split at h
    · cases h
    · cases h
      exact ⟨rfl, rfl⟩

/- The candidate that was found is still there, under its id and its fingerprint. -/
theorem loadCandidate_tracks {channel : DiscoveryChannel} {found : UrlCandidateModel}
    (hids : (f.db.candidates.map (·.id)).Nodup) (hknown : Known f.db found)
    (hfingerprint : found.urlFingerprint = fromHex t.canonical.fingerprint)
    (h : t.loadCandidate f.db channel found = .continues t') : Tracks f.db t' := by
  obtain ⟨r, hr, hfixed⟩ := hknown
  obtain ⟨hid, -, -, hprint, -⟩ := fixedColumns_eq hfixed
  have hget : Table.get? (·.id) found.id f.db.candidates = some r :=
    Table.get?_of_mem hids hr hid
  unfold ObserveTransaction.loadCandidate at h
  rw [hget] at h
  cases h
  exact ⟨known_of_mem hr, hprint.trans hfingerprint⟩

theorem updateCandidate_tracks {channel : DiscoveryChannel} {loaded : UrlCandidateModel}
    (hinserted : t.inserted = none) (hknown : Known f.db loaded)
    (hfingerprint : loaded.urlFingerprint = fromHex t.canonical.fingerprint)
    (h : t.updateCandidate others channel loaded = .continues t') : Tracks f.db t' := by
  unfold ObserveTransaction.updateCandidate at h
  split at h
  · cases h
  · cases h
    exact ⟨hinserted, hknown, hfingerprint⟩

/- A new candidate has no discovery of the channel yet, so its own is new. -/
theorem insertDiscovery_tracks {channel : DiscoveryChannel} {candidate : UrlCandidateModel}
    {candidateCreated : Bool} (hadmitted : Admitted f.db t channel candidate candidateCreated)
    (hdiscovery : t.discovery = none) (hevents : t.events = [])
    (hrefers : ∀ d ∈ f.db.discoveries, d.urlCandidateId ∈ f.db.candidates.map (·.id))
    (hnew : ∀ k ∈ t.inserted.toList.map (·.id), k ∉ f.db.candidates.map (·.id))
    (h : t.insertDiscovery f.db others channel candidate candidateCreated = .continues t') :
    Tracks f.db t' := by
  unfold ObserveTransaction.insertDiscovery at h
  simp only at h
  split at h
  · cases h
  · split at h
    · cases h
    · rename_i created _ hadd
      cases h
      refine ⟨channel, candidate, ?_, ?_, ?_, ?_⟩
      · cases candidateCreated <;> exact hadmitted
      · show (if created then _ else t.discovery) = _
        rw [hdiscovery]
      · rintro rfl
        obtain ⟨-, hmem, -⟩ | ⟨hcreated, -⟩ := addDiscoveryIfAbsent_cases hadd
        · obtain ⟨hinserted, -⟩ := hadmitted
          obtain ⟨d, hd, hkey⟩ := List.mem_map.mp hmem
          have hid : d.urlCandidateId = candidate.id := congrArg Prod.fst hkey
          have hcommitted := hrefers d hd
          rw [hid] at hcommitted
          refine absurd hcommitted (hnew candidate.id ?_)
          rw [hinserted, Option.toList_some, List.map_singleton]
          exact List.mem_singleton_self _
        · exact hcreated
      · show t.events ++ _ ⊆ _
        rw [hevents, List.nil_append]
        exact List.Subset.refl _

theorem addNextEvent_tracks {answer : ObserveAnswer} {event : AcquisitionEvent}
    {rest : List AcquisitionEvent} (hstage : t.stage = .observed answer (event :: rest))
    (htracks : Tracks f.db t)
    (h : t.addNextEvent f.db others answer event rest = .continues t') : Tracks f.db t' := by
  rw [Tracks, hstage] at htracks
  obtain ⟨channel, candidate, hadmitted, hdiscovery, hboth, hevents⟩ := htracks
  unfold ObserveTransaction.addNextEvent at h
  split at h
  · cases h
  · cases h
    refine ⟨channel, candidate, ?_, hdiscovery, hboth, ?_⟩
    · revert hadmitted
      cases answer.result.candidateCreated <;> exact id
    · show (if _ then t.events else t.events ++ [event]) ++ rest ⊆ _
      split
      · intro e he
        obtain he | he := List.mem_append.mp he
        · exact hevents (List.mem_append_left _ he)
        · exact hevents (List.mem_append_right _ (List.mem_cons_of_mem _ he))
      · rw [List.append_assoc, List.singleton_append]
        exact hevents

/- The rows that a transaction has read and written, from one statement to the next. -/
theorem tracks_statement (hids : (f.db.candidates.map (·.id)).Nodup) (hconsistent : Consistent t)
    (hrefers : ∀ d ∈ f.db.discoveries, d.urlCandidateId ∈ f.db.candidates.map (·.id))
    (hnew : ∀ k ∈ t.inserted.toList.map (·.id), k ∉ f.db.candidates.map (·.id))
    (htracks : Tracks f.db t) (h : t.statement f others = .continues t') : Tracks f.db t' := by
  unfold ObserveTransaction.statement at h
  cases hstage : t.stage with
  | begun =>
    rw [hstage] at h
    simp only [ObserveTransaction.readChannel] at h
    split at h
    · cases h
    · cases h
      trivial
  | channelRead channel =>
    rw [hstage] at h
    exact readCandidate_tracks h
  | candidateRead channel found =>
    rw [hstage] at h
    cases found with
    | none => exact insertCandidate_tracks h
    | some found =>
      rw [Tracks, hstage] at htracks
      exact loadCandidate_tracks hids htracks.1 htracks.2 h
  | candidateLoaded channel loaded =>
    rw [hstage] at h
    rw [Tracks, hstage] at htracks
    rw [Consistent, hstage] at hconsistent
    exact updateCandidate_tracks hconsistent.1 htracks.1 htracks.2 h
  | admitted channel candidate candidateCreated =>
    rw [hstage] at h
    rw [Tracks, hstage] at htracks
    rw [Consistent, hstage] at hconsistent
    exact insertDiscovery_tracks htracks hconsistent.2.1 hconsistent.2.2 hrefers hnew h
  | observed answer events =>
    rw [hstage] at h
    cases events with
    | nil => cases h
    | cons event rest => exact addNextEvent_tracks hstage htracks h

/-! ### Commits -/

theorem mergeRow_fixed (t : ObserveTransaction) (r : UrlCandidateModel) :
    fixedColumns (t.mergeRow r) = fixedColumns r := by
  unfold ObserveTransaction.mergeRow
  split
  · rfl
  · split
    · simp [fixedColumns, mergeDiscovery, flushRow, updateCandidateJobMetadata,
        ArticleStore.setColumn]
    · rfl

theorem commit_grows (t : ObserveTransaction) (f : FrontierTables) :
    Grows f.db (t.commit f).db where
  candidates := by
    show _ ⊆ (f.db.candidates.map t.mergeRow ++ t.inserted.toList).map fixedColumns
    rw [List.map_append, List.map_map, show fixedColumns ∘ t.mergeRow = fixedColumns from
      funext (mergeRow_fixed t)]
    exact List.subset_append_left _ _
  discoveries := List.subset_append_left _ _

theorem rowAfter_fixed (maxAttempts : ℕ) (s : Frontier) (a : Articles.Step)
    (r : UrlCandidateModel) : fixedColumns (rowAfter maxAttempts s a r) = fixedColumns r := by
  have hduration (r : UrlCandidateModel) (at_ : Timestamp) :
      fixedColumns (writeDuration r at_) = fixedColumns r := by
    unfold writeDuration
    split <;> rfl
  cases a with
  | completeSuccess g article at_ =>
    simp only [rowAfter]
    split
    · exact hduration _ _
    · rfl
  | recordFailure g nonRetryable type message retryAt at_ =>
    simp only [rowAfter]
    split
    · exact hduration _ _
    · rfl
  | rejectBeforeFetch g reason message at_ =>
    simp only [rowAfter]
    split
    · exact hduration _ _
    · rfl
  | _ =>
    simp only [rowAfter]
    split <;> rfl

theorem workRows_fixed (maxAttempts : ℕ) (a : Articles.Step) (rows : List UrlCandidateModel) :
    (workRows maxAttempts a rows).map fixedColumns = rows.map fixedColumns := by
  unfold workRows
  split
  · rfl
  · rw [List.map_map]
    exact List.map_congr_left fun r _ => rowAfter_fixed _ _ _ r

theorem canonicalizeUrl_fingerprint {u : PyText.Unicode} {nameprep : Idna.Nameprep u}
    {policy : CanonicalizationPolicy} {url : Text} {c : CanonicalUrl}
    (h : canonicalizeUrl u nameprep policy url = .ok c) :
    c.fingerprint = Sha256.ofText c.normalized := by
  obtain ⟨_, _, _, _, _, _, _, _, rfl⟩ := canonicalizeUrl_parts h
  rfl

theorem calculateFrontierPriority_range (inputs : FrontierPriorityInputs) :
    0 ≤ calculateFrontierPriority inputs ∧ calculateFrontierPriority inputs ≤ 1 :=
  ⟨le_max_left _ _, max_le (by decide) (min_le_left _ _)⟩

variable {db db' : Database}

theorem Grows.candidate (hgrows : Grows db db') (h : Known db row) :
    ∃ q ∈ db'.candidates, q.id = row.id ∧ q.publisherId = row.publisherId ∧
      q.normalizedUrl = row.normalizedUrl ∧ q.urlFingerprint = row.urlFingerprint ∧
        q.priorityScore = row.priorityScore ∧ q.createdAt = row.createdAt := by
  obtain ⟨q, hq, hfixed⟩ := h.grows hgrows
  exact ⟨q, hq, fixedColumns_eq hfixed⟩

theorem CandidateSound.transfer {discoveries discoveries' : List UrlDiscoveryModel}
    (h : CandidateSound ext discoveries r) (hfixed : fixedColumns row = fixedColumns r)
    (hsub : discoveries ⊆ discoveries') : CandidateSound ext discoveries' row := by
  obtain ⟨hid, _, hurl, hprint, hscore, _⟩ := fixedColumns_eq hfixed
  refine ⟨?_, ?_, ?_⟩
  · rw [hprint, hurl]
    exact h.fingerprint
  · rw [hscore]
    exact h.priority
  · obtain ⟨d, hd, hcandidate, c, hc, hnormalized⟩ := h.discovered
    exact ⟨d, hsub hd, hcandidate.trans hid.symm, c, hc, hurl.trans hnormalized⟩

theorem EventSound.grows {e : AcquisitionEvent} (h : EventSound db e) (hgrows : Grows db db') :
    EventSound db' e := by
  cases e with
  | itemObserved candidate channel publisher url normalizedUrl _ _ _ _ discoveredAt =>
    obtain ⟨⟨r, hr, hid, hurl⟩, d, hd, hrest⟩ := h
    obtain ⟨q, hq, hqid, _, hqurl, _⟩ := hgrows.candidate (known_of_mem hr)
    exact ⟨⟨q, hq, hqid.trans hid, hqurl.trans hurl⟩, d, hgrows.discoveries hd, hrest⟩
  | urlAdmitted candidate publisher normalizedUrl priorityScore _ _ _ =>
    obtain ⟨r, hr, hid, hpublisher, hurl, hscore⟩ := h
    obtain ⟨q, hq, hqid, hqpublisher, hqurl, _, hqscore, _⟩ := hgrows.candidate (known_of_mem hr)
    exact ⟨q, hq, hqid.trans hid, hqpublisher.trans hpublisher, hqurl.trans hurl,
      hqscore.trans hscore⟩
  | publisherCreated => trivial
  | channelCreated => trivial

/- A discovery whose candidate stands in a grown table. -/
theorem discovery_grows {d : UrlDiscoveryModel} (hgrows : Grows db db')
    (h : ∃ r ∈ db.candidates, r.id = d.urlCandidateId ∧ Fingerprints ext d.discoveredUrl r) :
    ∃ r ∈ db'.candidates, r.id = d.urlCandidateId ∧ Fingerprints ext d.discoveredUrl r := by
  obtain ⟨r, hr, hid, c, hc, hprint⟩ := h
  obtain ⟨q, hq, hqid, _, _, hqprint, _⟩ := hgrows.candidate (known_of_mem hr)
  exact ⟨q, hq, hqid.trans hid, c, hc, hqprint.trans hprint⟩

/- The rows of a commit that have just been written. -/
theorem admitted_known {channel : DiscoveryChannel} {candidateCreated : Bool}
    (h : Admitted f.db t channel row candidateCreated) : Known (t.commit f).db row := by
  cases candidateCreated with
  | true =>
    refine ⟨row, ?_, rfl⟩
    show row ∈ f.db.candidates.map t.mergeRow ++ t.inserted.toList
    rw [h.1]
    exact List.mem_append_right _ (List.mem_singleton_self row)
  | false => exact h.2.1.grows (commit_grows t f)

theorem admitted_fingerprint {channel : DiscoveryChannel} {candidateCreated : Bool}
    (h : Admitted f.db t channel row candidateCreated) :
    row.urlFingerprint = fromHex t.canonical.fingerprint := by
  cases candidateCreated with
  | true =>
    rw [h.2]
    rfl
  | false => exact h.2.2

/- What the events of a call say of the rows that it commits. -/
theorem observationEvents_sound {channel : DiscoveryChannel} {candidateCreated created : Bool}
    (hadmitted : Admitted f.db t channel row candidateCreated)
    (hdiscovery : t.discovery =
      if created then some (observationOf t.turn t.command channel row) else none) :
    ∀ e ∈ observationEvents t.command channel row
      (t.command.discoveredAt.getD t.turn.now) candidateCreated created,
      EventSound (t.commit f).db e := by
  obtain ⟨q, hq, hfixed⟩ := admitted_known hadmitted
  obtain ⟨hid, hpublisher, hurl, _, hscore, _⟩ := fixedColumns_eq hfixed
  intro e he
  obtain he | he := List.mem_append.mp he
  · cases created with
    | false => exact absurd he List.not_mem_nil
    | true =>
      obtain rfl := List.mem_singleton.mp he
      refine ⟨⟨q, hq, hid, hurl⟩, observationOf t.turn t.command channel row, ?_, rfl, rfl, rfl,
        rfl⟩
      show _ ∈ f.db.discoveries ++ t.discovery.toList
      rw [hdiscovery]
      exact List.mem_append_right _ (List.mem_singleton_self _)
  · cases candidateCreated with
    | false => exact absurd he List.not_mem_nil
    | true =>
      obtain rfl := List.mem_singleton.mp he
      refine ⟨q, hq, hid, ?_, hurl, hscore⟩
      rw [hpublisher, hadmitted.2]
      rfl

theorem sound_commit {answer : ObserveAnswer} (hstage : t.stage = .observed answer [])
    (hcanonical : canonicalizeUrl ext.unicode ext.nameprep defaultPolicy t.command.url =
      .ok t.canonical)
    (htracks : Tracks f.db t) (h : FrontierSound ext f.db) :
    FrontierSound ext (t.commit f).db := by
  have hgrows := commit_grows t f
  rw [Tracks, hstage] at htracks
  obtain ⟨channel, candidate, hadmitted, hdiscovery, hboth, hevents⟩ := htracks
  rw [List.append_nil] at hevents
  refine ⟨?_, ?_, ?_⟩
  · intro r hr
    obtain hr | hr := List.mem_append.mp hr
    · obtain ⟨q, hq, rfl⟩ := List.mem_map.mp hr
      exact (h.candidates q hq).transfer (mergeRow_fixed t q) hgrows.discoveries
    · -- The candidate is new, and so is its discovery.
      cases hcreated : answer.result.candidateCreated with
      | false =>
        rw [hcreated] at hadmitted
        rw [hadmitted.1] at hr
        exact absurd hr List.not_mem_nil
      | true =>
        rw [hcreated] at hadmitted
        obtain ⟨hinserted, hcandidate⟩ := hadmitted
        rw [hinserted] at hr
        obtain rfl := List.mem_singleton.mp hr
        rw [hboth hcreated, if_pos rfl] at hdiscovery
        refine ⟨?_, ?_, observationOf t.turn t.command channel r, ?_, rfl, t.canonical, ?_, ?_⟩
        · rw [hcandidate]
          exact congrArg fromHex (canonicalizeUrl_fingerprint hcanonical)
        · rw [hcandidate]
          exact calculateFrontierPriority_range _
        · show _ ∈ f.db.discoveries ++ t.discovery.toList
          rw [hdiscovery]
          exact List.mem_append_right _ (List.mem_singleton_self _)
        · exact hcanonical
        · rw [hcandidate]
          rfl
  · intro d hd
    obtain hd | hd := List.mem_append.mp hd
    · exact discovery_grows hgrows (h.discoveries d hd)
    · rw [hdiscovery] at hd
      split at hd
      · obtain rfl := List.mem_singleton.mp hd
        obtain ⟨q, hq, hfixed⟩ := admitted_known hadmitted
        obtain ⟨hid, _, _, hprint, _⟩ := fixedColumns_eq hfixed
        exact ⟨q, hq, hid, t.canonical, hcanonical,
          hprint.trans (admitted_fingerprint hadmitted)⟩
      · exact absurd hd List.not_mem_nil
  · intro e he
    obtain he | he := List.mem_append.mp he
    · exact (h.events e he).grows hgrows
    · exact observationEvents_sound hadmitted hdiscovery e (hevents he)

/-! ### Runs -/

variable {s s' : State FrontierTables ObserveTransaction}
  {label : Label FrontierEvent (Turn × ObserveDiscoveryCommand)}

/-- What holds while calls are under way. -/
structure FrontierKept (ext : Externals) (s : State FrontierTables ObserveTransaction) : Prop
    extends Bookkept s where
  canonical : ∀ t ∈ s.opened,
    canonicalizeUrl ext.unicode ext.nameprep defaultPolicy t.command.url = .ok t.canonical
  tracks : ∀ t ∈ s.opened, Tracks s.committed.db t
  sound : FrontierSound ext s.committed.db

/- A step is one of the observations, or the work of others on the candidates. -/
theorem frontier_step_cases (h : sessionStep (frontierSystem ext) s label = some s') :
    (∃ label', sessionStep (observeSystem ext) s label' = some s') ∨
      ∃ maxAttempts a, s' = { s with committed := work maxAttempts a s.committed } := by
  cases label with
  | other e =>
    cases e with
    | administer tables => exact Or.inl ⟨.other tables, h⟩
    | work maxAttempts a =>
      cases h
      exact Or.inr ⟨maxAttempts, a, rfl⟩
  | start call => exact Or.inl ⟨.start call, h⟩
  | advance place => exact Or.inl ⟨.advance place, h⟩
  | abort place => exact Or.inl ⟨.abort place, h⟩

theorem statement_call (h : t.statement f others = .continues t') :
    t'.command = t.command ∧ t'.canonical = t.canonical := by
  cases writes_of_statement h <;> exact ⟨rfl, rfl⟩

theorem observe_grows {label : Label (List PublisherModel × List DiscoveryChannel)
      (Turn × ObserveDiscoveryCommand)}
    (h : sessionStep (observeSystem ext) s label = some s') :
    Grows s.committed.db s'.committed.db := by
  have hself (f : FrontierTables) : Grows f.db f.db :=
    ⟨List.Subset.refl _, List.Subset.refl _⟩
  obtain ⟨e, _, rfl⟩ | ⟨_, _, _, _, rfl⟩ | ⟨place, t, ht, hdone⟩ := step_cases h
  · exact ⟨List.Subset.refl _, List.Subset.refl _⟩
  · exact hself _
  · obtain rfl | ⟨t', _, rfl⟩ | ⟨_, rfl⟩ := hdone
    · exact hself _
    · exact hself _
    · exact commit_grows t s.committed

theorem frontierKept_observe {label : Label (List PublisherModel × List DiscoveryChannel)
      (Turn × ObserveDiscoveryCommand)}
    (h : FrontierKept ext s) (hs : sessionStep (observeSystem ext) s label = some s') :
    FrontierKept ext s' := by
  have hcanonical : ∀ t ∈ s'.opened,
      canonicalizeUrl ext.unicode ext.nameprep defaultPolicy t.command.url = .ok t.canonical := by
    refine forall_opened_step ?_ ?_ h.canonical hs
    · intro call t ht
      obtain ⟨canonical, hc, rfl⟩ := Option.map_eq_some_iff.mp ht
      exact ok_of_toOption hc
    · intro place t t' _ hc hstatement
      obtain ⟨hcommand, hcanonical⟩ := statement_call hstatement
      rw [hcommand, hcanonical]
      exact hc
  have htracks : ∀ t ∈ s'.opened, Tracks s.committed.db t := by
    refine forall_opened_step ?_ ?_ h.tracks hs
    · intro call t ht
      rw [Tracks, (beginObservation_nothing ht).1]
      trivial
    · intro place t t' ht hP hstatement
      exact tracks_statement (nodup_committed h.candidates)
        (h.consistent t (List.mem_of_getElem? ht)) h.sound.refers
        (fun _ hk => not_committed ht h.candidates hk) hP hstatement
  refine ⟨bookkept_step h.toBookkept hs, hcanonical,
    fun t ht => (htracks t ht).grows (observe_grows hs), ?_⟩
  obtain ⟨e, _, rfl⟩ | ⟨_, _, _, _, rfl⟩ | ⟨place, t, ht, hdone⟩ := step_cases hs
  · exact ⟨h.sound.candidates, h.sound.discoveries, h.sound.events⟩
  · exact h.sound
  · obtain rfl | ⟨t', _, rfl⟩ | ⟨hcommits, rfl⟩ := hdone
    · exact h.sound
    · exact h.sound
    · obtain ⟨answer, hstage⟩ := observed_of_commits hcommits
      have hmem := List.mem_of_getElem? ht
      exact sound_commit hstage (h.canonical t hmem) (h.tracks t hmem) h.sound

theorem work_grows (maxAttempts : ℕ) (a : Articles.Step) (f : FrontierTables) :
    Grows f.db (work maxAttempts a f).db where
  candidates := by
    show _ ⊆ (workRows maxAttempts a f.db.candidates).map fixedColumns
    rw [workRows_fixed]
    exact List.Subset.refl _
  discoveries := List.Subset.refl _

theorem work_keys {κ : Type} (key : UrlCandidateModel → κ)
    (hkey : ∀ r q, fixedColumns r = fixedColumns q → key r = key q) (maxAttempts : ℕ)
    (a : Articles.Step) (rows : List UrlCandidateModel) :
    (workRows maxAttempts a rows).map key = rows.map key := by
  unfold workRows
  split
  · rfl
  · rw [List.map_map]
    exact List.map_congr_left fun r _ => hkey _ _ (rowAfter_fixed _ _ _ r)

theorem frontierKept_work (maxAttempts : ℕ) (a : Articles.Step) (h : FrontierKept ext s) :
    FrontierKept ext { s with committed := work maxAttempts a s.committed } := by
  have hgrows := work_grows maxAttempts a s.committed
  have hids := work_keys (·.id) (fun _ _ h => (fixedColumns_eq h).1) maxAttempts a
    s.committed.db.candidates
  have hprints := work_keys (·.urlFingerprint) (fun _ _ h => (fixedColumns_eq h).2.2.2.1)
    maxAttempts a s.committed.db.candidates
  refine ⟨⟨?_, ?_, h.discoveries, h.consistent, ?_⟩, h.canonical,
    fun t ht => (h.tracks t ht).grows hgrows, ?_, ?_, ?_⟩
  · show ((workRows maxAttempts a s.committed.db.candidates).map _ ++ _).Nodup
    rw [hprints]
    exact h.fingerprints
  · show ((workRows maxAttempts a s.committed.db.candidates).map _ ++ _).Nodup
    rw [hids]
    exact h.candidates
  · refine ⟨h.balanced.observedEvents, ?_, ?_, h.balanced.observationCalls⟩
    · exact h.balanced.admittedEvents.trans hids.symm
    · exact h.balanced.candidateCalls.trans hids.symm
  · intro r hr
    have hfixed : fixedColumns r ∈ (workRows maxAttempts a s.committed.db.candidates).map
        fixedColumns := List.mem_map_of_mem hr
    rw [workRows_fixed] at hfixed
    obtain ⟨q, hq, hfixed⟩ := List.mem_map.mp hfixed
    exact (h.sound.candidates q hq).transfer hfixed.symm (List.Subset.refl _)
  · intro d hd
    exact discovery_grows hgrows (h.sound.discoveries d hd)
  · intro e he
    exact (h.sound.events e he).grows hgrows

theorem frontierKept_step (h : FrontierKept ext s)
    (hs : sessionStep (frontierSystem ext) s label = some s') : FrontierKept ext s' := by
  obtain ⟨label', hs⟩ | ⟨maxAttempts, a, rfl⟩ := frontier_step_cases hs
  · exact frontierKept_observe h hs
  · exact frontierKept_work maxAttempts a h

theorem frontier_grows (hs : sessionStep (frontierSystem ext) s label = some s') :
    Grows s.committed.db s'.committed.db := by
  obtain ⟨label', hs⟩ | ⟨maxAttempts, a, rfl⟩ := frontier_step_cases hs
  · exact observe_grows hs
  · exact work_grows maxAttempts a s.committed

theorem frontier_grows_run {labels : List (Label FrontierEvent (Turn × ObserveDiscoveryCommand))}
    (h : Runs.exec (sessionStep (frontierSystem ext)) s labels = some s') :
    Grows s.committed.db s'.committed.db := by
  refine Runs.relates_of_every (I := fun _ => True) (C := fun _ _ => True)
    (R := fun s s' => Grows s.committed.db s'.committed.db) trivial
    (fun _ => ⟨List.Subset.refl _, List.Subset.refl _⟩) ?_
    (fun _ _ _ _ _ hs => ⟨trivial, frontier_grows hs⟩) (fun _ _ _ _ _ _ => trivial) h
  intro s s' s'' h h'
  exact ⟨List.Subset.trans h.candidates h'.candidates,
    List.Subset.trans h.discoveries h'.discoveries⟩

theorem frontierKept_empty (publishers : List PublisherModel) (channels : List DiscoveryChannel) :
    FrontierKept ext (emptyTables publishers channels) where
  toBookkept := bookkept_empty publishers channels
  canonical _ ht := absurd ht List.not_mem_nil
  tracks _ ht := absurd ht List.not_mem_nil
  sound := ⟨fun _ h => absurd h List.not_mem_nil, fun _ h => absurd h List.not_mem_nil,
    fun _ h => absurd h List.not_mem_nil⟩

theorem frontierKept_run {publishers : List PublisherModel} {channels : List DiscoveryChannel}
    {labels : List (Label FrontierEvent (Turn × ObserveDiscoveryCommand))}
    (h : Runs.exec (sessionStep (frontierSystem ext)) (emptyTables publishers channels) labels =
      some s) : FrontierKept ext s :=
  Runs.invariant (frontierKept_empty publishers channels)
    (fun _ _ _ hm hn => frontierKept_step hm hn) h

end transactions

/- Over every interleaving, from an empty frontier. -/
theorem frontier_sound (ext : Externals) (publishers : List PublisherModel)
    (channels : List DiscoveryChannel)
    (labels : List (Label FrontierEvent (Turn × ObserveDiscoveryCommand)))
    (s : State FrontierTables ObserveTransaction)
    (h : Runs.exec (sessionStep (frontierSystem ext)) (emptyTables publishers channels) labels =
      some s) :
    FrontierSound ext s.committed.db ∧ ExactlyOnce s.committed := by
  have hkept := frontierKept_run h
  exact ⟨hkept.sound, hkept.exactlyOnce⟩

/-- Two channels observe a story, and a worker leases it in between. -/
def leasedStory : List (Label FrontierEvent (Turn × ObserveDiscoveryCommand)) :=
  [.start (storyCall 0 2), .start (storyCall 1 3)] ++ List.replicate 7 (.advance 0) ++
    [.other (.work 3 (.leaseDueCandidates "worker".toList 5 10 60 []))] ++
    List.replicate 7 (.advance 0)

theorem leasedStory_run :
    ∃ s, Runs.exec (sessionStep (frontierSystem (sampleExternals [])))
        (emptyTables [] [sampleChannel, { sampleChannel with id := 3 }]) leasedStory = some s ∧
      s.committed.db.candidates.map (fun r => (r.state, r.createdAt)) = [(.leased, 0)] ∧
      s.committed.db.discoveries.map (·.discoveredAt) = [0, 1] := by
  have hend : (Runs.exec (sessionStep (frontierSystem (sampleExternals [])))
      (emptyTables [] [sampleChannel, { sampleChannel with id := 3 }]) leasedStory).any
        (fun s => s.committed.db.candidates.map (fun r => (r.state, r.createdAt)) = [(.leased, 0)] &&
          s.committed.db.discoveries.map (·.discoveredAt) = [0, 1]) = true := by decide +kernel
  obtain ⟨s, hs, hrows⟩ := (Option.any_eq_true _ _).mp hend
  rw [Bool.and_eq_true, decide_eq_true_eq, decide_eq_true_eq] at hrows
  exact ⟨s, hs, hrows⟩

theorem leasedStory_sound :
    ∃ s, Runs.exec (sessionStep (frontierSystem (sampleExternals [])))
        (emptyTables [] [sampleChannel, { sampleChannel with id := 3 }]) leasedStory = some s ∧
      s.committed.db.discoveries.map (·.discoveredAt) = [0, 1] ∧
      FrontierSound (sampleExternals []) s.committed.db ∧ ExactlyOnce s.committed := by
  obtain ⟨s, hs, _, hdiscoveries⟩ := leasedStory_run
  exact ⟨s, hs, hdiscoveries, frontier_sound _ _ _ leasedStory s hs⟩

end Newsintel.Acquisition
