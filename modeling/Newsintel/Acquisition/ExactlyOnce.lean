import Newsintel.Acquisition.ObserveTransactions
import Newsintel.Lib.Runs

/-!
# Discoveries are booked once

Over any interleaving of calls: one candidate for each fingerprint, one discovery for each
candidate and channel, and one event and one answer for each of them.
-/

namespace Newsintel.Acquisition

open PyText Articles ReadCommitted

/-- Candidate and channel of a `discovery.item_observed`. -/
def observedKey : AcquisitionEvent → Option (Uuid × Uuid)
  | .itemObserved candidate channel .. => some (candidate, channel)
  | _ => none

/-- Candidate of a `frontier.url_admitted`. -/
def admittedKey : AcquisitionEvent → Option Uuid
  | .urlAdmitted candidate .. => some candidate
  | _ => none

/-- Events and answers stand in the order of the rows. -/
structure Balanced (f : FrontierTables) : Prop where
  /-- one `discovery.item_observed` for each discovery, and no other -/
  observedEvents : f.db.outbox.filterMap observedKey = f.db.discoveries.map discoveryKey
  /-- one `frontier.url_admitted` for each candidate, and no other -/
  admittedEvents : f.db.outbox.filterMap admittedKey = f.db.candidates.map (·.id)
  /-- one call that answered `candidate_created` for each candidate -/
  candidateCalls : (f.answers.filter (·.result.candidateCreated)).map (·.candidateId) =
    f.db.candidates.map (·.id)
  /-- one call that answered `channel_observation_created` for each discovery -/
  observationCalls : (f.answers.filter (·.result.channelObservationCreated)).map
    (fun a => (a.candidateId, a.channelId)) = f.db.discoveries.map discoveryKey

/-- The books of the committed calls. -/
structure ExactlyOnce (f : FrontierTables) : Prop extends Balanced f where
  fingerprints : (f.db.candidates.map (·.urlFingerprint)).Nodup
  candidates : (f.db.candidates.map (·.id)).Nodup
  discoveries : (f.db.discoveries.map discoveryKey).Nodup

/-! ### The events of one call -/

section events

variable {command : ObserveDiscoveryCommand} {channel : DiscoveryChannel}
  {candidate : UrlCandidateModel} {observedAt : Timestamp} {candidateCreated created : Bool}
  {e e' : AcquisitionEvent}

theorem observationEvents_observed :
    (observationEvents command channel candidate observedAt candidateCreated created).filterMap
      observedKey = if created then [(candidate.id, channel.id)] else [] := by
  cases candidateCreated <;> cases created <;> rfl

theorem observationEvents_admitted :
    (observationEvents command channel candidate observedAt candidateCreated created).filterMap
      admittedKey = if candidateCreated then [candidate.id] else [] := by
  cases candidateCreated <;> cases created <;> rfl

theorem observationEvents_keys :
    ((observationEvents command channel candidate observedAt candidateCreated created).map
      (·.idempotencyKey)).Nodup := by
  cases candidateCreated <;> cases created <;>
    simp [observationEvents, AcquisitionEvent.idempotencyKey]

theorem observationEvents_kinds :
    ∀ e ∈ observationEvents command channel candidate observedAt candidateCreated created,
      (observedKey e).isSome = true ∨ (admittedKey e).isSome = true := by
  cases candidateCreated <;> cases created <;>
    simp [observationEvents, observedKey, admittedKey]

/- The idempotency key tells what an event is about. -/
theorem eventKeys_of_idempotencyKey (h : e.idempotencyKey = e'.idempotencyKey) :
    observedKey e = observedKey e' ∧ admittedKey e = admittedKey e' := by
  cases e <;> cases e' <;>
    simp_all [AcquisitionEvent.idempotencyKey, observedKey, admittedKey]

end events

/-! ### The unique indexes -/

section statements

variable {ext : Externals} {f : FrontierTables} {others : List ObserveTransaction}
  {t t' : ObserveTransaction}

theorem mergeDiscovery_keys (d : Discovery) (loaded r : UrlCandidateModel) :
    (mergeDiscovery d loaded r).id = r.id ∧
      (mergeDiscovery d loaded r).urlFingerprint = r.urlFingerprint :=
  ⟨if_pos rfl, if_pos rfl⟩

theorem mergeRow_keys (t : ObserveTransaction) (r : UrlCandidateModel) :
    (t.mergeRow r).id = r.id ∧ (t.mergeRow r).urlFingerprint = r.urlFingerprint := by
  unfold ObserveTransaction.mergeRow
  split
  · exact ⟨rfl, rfl⟩
  · split
    · exact mergeDiscovery_keys _ _ r
    · exact ⟨rfl, rfl⟩

theorem beginObservation_nothing {call : Turn × ObserveDiscoveryCommand}
    (h : beginObservation ext call = some t) :
    t.stage = .begun ∧ t.inserted = none ∧ t.discovery = none ∧ t.events = [] := by
  obtain ⟨canonical, _, rfl⟩ := Option.map_eq_some_iff.mp h
  exact ⟨rfl, rfl, rfl, rfl⟩

/-- What a statement that goes on has done. -/
inductive Writes (f : FrontierTables) (others : List ObserveTransaction) (t : ObserveTransaction) :
    ObserveTransaction → Prop where
  | read (channel : DiscoveryChannel) (hstage : t.stage = .begun) :
      Writes f others t { t with stage := .channelRead channel }
  | found (channel : DiscoveryChannel) (found : Option UrlCandidateModel)
      (hstage : t.stage = .channelRead channel) :
      Writes f others t { t with stage := .candidateRead channel found }
  | inserted (channel : DiscoveryChannel) (row : UrlCandidateModel)
      (hstage : t.stage = .candidateRead channel none)
      (hcommitted : ∀ r ∈ f.db.candidates, ObserveTransaction.sameKey row r = false)
      (hothers : ∀ o ∈ others, ∀ r ∈ o.inserted, ObserveTransaction.sameKey row r = false) :
      Writes f others t { t with inserted := some row, stage := .admitted channel row true }
  | gone (channel : DiscoveryChannel) (found : UrlCandidateModel)
      (hstage : t.stage = .candidateRead channel (some found)) :
      Writes f others t { t with stage := .admitted channel found false }
  | loaded (channel : DiscoveryChannel) (found loaded : UrlCandidateModel)
      (hstage : t.stage = .candidateRead channel (some found)) :
      Writes f others t { t with stage := .candidateLoaded channel loaded }
  | merged (channel : DiscoveryChannel) (loaded : UrlCandidateModel)
      (hstage : t.stage = .candidateLoaded channel loaded) :
      Writes f others t
        { t with
          merged := some (t.brings channel, loaded)
          stage := .admitted channel (updateCandidateJobMetadata (t.brings channel) loaded) false }
  | booked (channel : DiscoveryChannel) (candidate : UrlCandidateModel)
      (candidateCreated created : Bool) (d : UrlDiscoveryModel)
      (hstage : t.stage = .admitted channel candidate candidateCreated)
      (hkey : discoveryKey d = (candidate.id, channel.id))
      (hcommitted : created = true → discoveryKey d ∉ f.db.discoveries.map discoveryKey)
      (hothers : ∀ o ∈ others, ∀ r ∈ o.discovery, discoveryKey r ≠ discoveryKey d) :
      Writes f others t
        { t with
          discovery := if created then some d else t.discovery
          stage := .observed ⟨candidate.id, channel.id, ⟨candidateCreated, created⟩⟩
            (observationEvents t.command channel candidate
              (t.command.discoveredAt.getD t.turn.now) candidateCreated created) }
  | added (answer : ObserveAnswer) (event : AcquisitionEvent) (rest : List AcquisitionEvent)
      (hstage : t.stage = .observed answer (event :: rest)) :
      Writes f others t
        { t with
          events :=
            if (f.db.outbox ++ t.events).any (·.idempotencyKey = event.idempotencyKey) then t.events
            else t.events ++ [event]
          stage := .observed answer rest }

theorem writes_of_statement (h : ObserveTransaction.statement f others t = .continues t') :
    Writes f others t t' := by
  unfold ObserveTransaction.statement at h
  cases hstage : t.stage with
  | begun =>
    rw [hstage] at h
    simp only [ObserveTransaction.readChannel] at h
    split at h
    · cases h
    · cases h
      exact .read _ hstage
  | channelRead channel =>
    rw [hstage] at h
    cases h
    exact .found channel _ hstage
  | candidateRead channel found =>
    rw [hstage] at h
    cases found with
    | none =>
      simp only [ObserveTransaction.insertCandidate] at h
      split at h
      · cases h
      · rename_i hcommitted
        split at h
        · cases h
        · rename_i hothers
          cases h
          refine .inserted channel _ hstage ?_ ?_
          · intro r hr
            refine Bool.eq_false_iff.mpr fun hsame => hcommitted ?_
            exact List.any_eq_true.mpr ⟨r, hr, hsame⟩
          · intro o ho r hr
            refine Bool.eq_false_iff.mpr fun hsame => hothers (List.any_eq_true.mpr ⟨o, ho, ?_⟩)
            exact (Option.any_eq_true _ _).mpr ⟨r, hr, hsame⟩
    | some found =>
      simp only [ObserveTransaction.loadCandidate] at h
      split at h
      · cases h
        exact .gone channel found hstage
      · cases h
        exact .loaded channel found _ hstage
  | candidateLoaded channel loaded =>
    rw [hstage] at h
    simp only [ObserveTransaction.updateCandidate] at h
    split at h
    · cases h
    · cases h
      exact .merged channel loaded hstage
  | admitted channel candidate candidateCreated =>
    rw [hstage] at h
    simp only [ObserveTransaction.insertDiscovery] at h
    split at h
    · cases h
    · rename_i hothers
      split at h
      · cases h
      · rename_i created _ hadd
        cases h
        refine .booked channel candidate candidateCreated created
          (observationOf t.turn t.command channel candidate) hstage rfl ?_ ?_
        · rintro rfl
          obtain ⟨hfalse, _⟩ | ⟨_, hnew, _⟩ := addDiscoveryIfAbsent_cases hadd
          · cases hfalse
          · exact hnew
        · intro o ho r hr hkey
          refine hothers (List.any_eq_true.mpr ⟨o, ho, ?_⟩)
          refine (Option.any_eq_true _ _).mpr ⟨r, hr, ?_⟩
          simp only [hkey, decide_true, Bool.true_or]
  | observed answer events =>
    rw [hstage] at h
    cases events with
    | nil => cases h
    | cons event rest =>
      simp only [ObserveTransaction.addNextEvent] at h
      split at h
      · cases h
      · cases h
        exact .added answer event rest hstage

/-- What a call has written, at each stage. -/
def Consistent (t : ObserveTransaction) : Prop :=
  match t.stage with
  | .admitted _ candidate candidateCreated =>
    t.inserted.map (·.id) = (if candidateCreated then some candidate.id else none) ∧
      t.discovery = none ∧ t.events = []
  | .observed answer rest =>
    t.inserted.map (·.id) =
        (if answer.result.candidateCreated then some answer.candidateId else none) ∧
      t.discovery.map discoveryKey =
        (if answer.result.channelObservationCreated then
          some (answer.candidateId, answer.channelId) else none) ∧
      (t.events ++ rest).filterMap observedKey = (t.discovery.map discoveryKey).toList ∧
      (t.events ++ rest).filterMap admittedKey = (t.inserted.map (·.id)).toList ∧
      ((t.events ++ rest).map (·.idempotencyKey)).Nodup ∧
      ∀ e ∈ rest, (observedKey e).isSome = true ∨ (admittedKey e).isSome = true
  | _ => t.inserted = none ∧ t.discovery = none ∧ t.events = []

theorem candidates_indexed {κ : Type} {key : UrlCandidateModel → κ}
    (hmerge : ∀ (t : ObserveTransaction) r, key (t.mergeRow r) = key r)
    (hsame : ∀ row r, key row = key r → ObserveTransaction.sameKey row r = true) :
    Indexed (fun f : FrontierTables => f.db.candidates)
      (fun t : ObserveTransaction => t.inserted.toList) key (observeSystem ext) where
  opening call t h := by rw [(beginObservation_nothing h).2.1, Option.toList_none]
  other _ _ := rfl
  commit t f := by
    show (f.db.candidates.map t.mergeRow ++ t.inserted.toList).map key = _
    rw [List.map_append, List.map_map]
    exact congrArg (· ++ _) (List.map_congr_left fun r _ => hmerge t r)
  statement f others t t' h := by
    cases writes_of_statement h with
    | inserted channel row hstage hcommitted hothers =>
      refine Or.inr ⟨row, rfl, ?_, ?_⟩
      · intro hmem
        obtain ⟨r, hr, hkey⟩ := List.mem_map.mp hmem
        exact Bool.false_ne_true ((hcommitted r hr).symm.trans (hsame row r hkey.symm))
      · intro o ho hmem
        obtain ⟨r, hr, hkey⟩ := List.mem_map.mp hmem
        exact Bool.false_ne_true
          ((hothers o ho r (Option.mem_toList.mp hr)).symm.trans (hsame row r hkey.symm))
    | _ => exact Or.inl rfl

theorem fingerprints_indexed :
    Indexed (fun f : FrontierTables => f.db.candidates)
      (fun t : ObserveTransaction => t.inserted.toList) (·.urlFingerprint) (observeSystem ext) := by
  refine candidates_indexed (fun t r => (mergeRow_keys t r).2) ?_
  intro row r h
  simp only [ObserveTransaction.sameKey, h, decide_true, Bool.or_true]

theorem ids_indexed :
    Indexed (fun f : FrontierTables => f.db.candidates)
      (fun t : ObserveTransaction => t.inserted.toList) (·.id) (observeSystem ext) := by
  refine candidates_indexed (fun t r => (mergeRow_keys t r).1) ?_
  intro row r h
  simp only [ObserveTransaction.sameKey, h, decide_true, Bool.true_or]

theorem discoveries_indexed :
    Indexed (fun f : FrontierTables => f.db.discoveries)
      (fun t : ObserveTransaction => t.discovery.toList) discoveryKey (observeSystem ext) where
  opening call t h := by rw [(beginObservation_nothing h).2.2.1, Option.toList_none]
  other _ _ := rfl
  commit t f := List.map_append
  statement f others t t' h := by
    cases writes_of_statement h with
    | booked channel candidate candidateCreated created d hstage hkey hcommitted hothers =>
      cases created with
      | false => exact Or.inl rfl
      | true =>
        refine Or.inr ⟨d, rfl, hcommitted rfl, ?_⟩
        intro o ho hmem
        obtain ⟨r, hr, hkey⟩ := List.mem_map.mp hmem
        exact hothers o ho r (Option.mem_toList.mp hr) hkey
    | _ => exact Or.inl rfl

theorem consistent_opening {call : Turn × ObserveDiscoveryCommand}
    (h : beginObservation ext call = some t) : Consistent t := by
  obtain ⟨hstage, hwritten⟩ := beginObservation_nothing h
  rw [Consistent, hstage]
  exact hwritten

/- The keys of an own event are in no committed one while the call's own row is not committed. -/
theorem key_uncommitted {κ : Type} {key : AcquisitionEvent → Option κ} {e event : AcquisitionEvent}
    {committed own : List AcquisitionEvent} {rows fresh : List κ} (hkind : (key event).isSome = true)
    (hsame : key e = key event) (he : e ∈ committed) (hmem : event ∈ own)
    (hcommitted : committed.filterMap key = rows) (hown : own.filterMap key = fresh) :
    ∃ k ∈ fresh, k ∈ rows := by
  obtain ⟨k, hk⟩ := Option.isSome_iff_exists.mp hkind
  refine ⟨k, ?_, ?_⟩
  · rw [← hown]
    exact List.mem_filterMap.mpr ⟨event, hmem, hk⟩
  · rw [← hcommitted]
    exact List.mem_filterMap.mpr ⟨e, he, hsame.trans hk⟩

/- An event that is not suppressed: its discovery, or its candidate, is not committed. -/
theorem event_fresh {answer : ObserveAnswer} {event : AcquisitionEvent}
    {rest : List AcquisitionEvent} (hstage : t.stage = .observed answer (event :: rest))
    (hconsistent : Consistent t)
    (hobserved : f.db.outbox.filterMap observedKey = f.db.discoveries.map discoveryKey)
    (hadmitted : f.db.outbox.filterMap admittedKey = f.db.candidates.map (·.id))
    (hdiscovery : ∀ k ∈ t.discovery.toList.map discoveryKey,
      k ∉ f.db.discoveries.map discoveryKey)
    (hinserted : ∀ k ∈ t.inserted.toList.map (·.id), k ∉ f.db.candidates.map (·.id)) :
    (f.db.outbox ++ t.events).any (·.idempotencyKey = event.idempotencyKey) = false := by
  rw [Consistent, hstage] at hconsistent
  obtain ⟨_, _, hobs, hadm, hkeys, hkinds⟩ := hconsistent
  rw [Bool.eq_false_iff]
  intro hany
  obtain ⟨e, he, hkey⟩ := List.any_eq_true.mp hany
  have hkey := of_decide_eq_true hkey
  obtain he | he := List.mem_append.mp he
  · obtain ⟨hsameObserved, hsameAdmitted⟩ := eventKeys_of_idempotencyKey hkey
    have hmem : event ∈ t.events ++ event :: rest :=
      List.mem_append_right _ List.mem_cons_self
    rw [Option.toList_map] at hobs hadm
    obtain hkind | hkind := hkinds event List.mem_cons_self
    · obtain ⟨k, hown, hcommitted⟩ := key_uncommitted hkind hsameObserved he hmem hobserved hobs
      exact hdiscovery k hown hcommitted
    · obtain ⟨k, hown, hcommitted⟩ := key_uncommitted hkind hsameAdmitted he hmem hadmitted hadm
      exact hinserted k hown hcommitted
  · rw [List.map_append, List.map_cons] at hkeys
    exact (List.nodup_append.mp hkeys).2.2 _ (List.mem_map_of_mem he) _ List.mem_cons_self hkey

theorem consistent_statement (hconsistent : Consistent t) (h : Writes f others t t')
    (hobserved : f.db.outbox.filterMap observedKey = f.db.discoveries.map discoveryKey)
    (hadmitted : f.db.outbox.filterMap admittedKey = f.db.candidates.map (·.id))
    (hdiscovery : ∀ k ∈ t.discovery.toList.map discoveryKey,
      k ∉ f.db.discoveries.map discoveryKey)
    (hinserted : ∀ k ∈ t.inserted.toList.map (·.id), k ∉ f.db.candidates.map (·.id)) :
    Consistent t' := by
  cases h with
  | read channel hstage =>
    rw [Consistent, hstage] at hconsistent
    exact hconsistent
  | found channel found hstage =>
    rw [Consistent, hstage] at hconsistent
    exact hconsistent
  | inserted channel row hstage _ _ =>
    rw [Consistent, hstage] at hconsistent
    exact ⟨rfl, hconsistent.2⟩
  | gone channel found hstage =>
    rw [Consistent, hstage] at hconsistent
    exact ⟨congrArg _ hconsistent.1, hconsistent.2⟩
  | loaded channel found loaded hstage =>
    rw [Consistent, hstage] at hconsistent
    exact hconsistent
  | merged channel loaded hstage =>
    rw [Consistent, hstage] at hconsistent
    exact ⟨congrArg _ hconsistent.1, hconsistent.2⟩
  | booked channel candidate candidateCreated created d hstage hkey _ _ =>
    rw [Consistent, hstage] at hconsistent
    obtain ⟨hcandidate, hnone, hevents⟩ := hconsistent
    have hd : (if created then some d else t.discovery).map discoveryKey =
        if created then some (candidate.id, channel.id) else none := by
      cases created with
      | false => rw [if_neg Bool.false_ne_true, if_neg Bool.false_ne_true, hnone, Option.map_none]
      | true => rw [if_pos rfl, if_pos rfl, Option.map_some, hkey]
    refine ⟨hcandidate, hd, ?_, ?_, ?_, observationEvents_kinds⟩
    · rw [hevents, List.nil_append, observationEvents_observed, hd]
      split <;> rfl
    · rw [hevents, List.nil_append, observationEvents_admitted, hcandidate]
      split <;> rfl
    · rw [hevents, List.nil_append]
      exact observationEvents_keys
  | added answer event rest hstage =>
    have hfresh := event_fresh hstage hconsistent hobserved hadmitted hdiscovery hinserted
    rw [Consistent, hstage] at hconsistent
    obtain ⟨hcandidate, hd, hobs, hadm, hkeys, hkinds⟩ := hconsistent
    have hsame : t.events ++ [event] ++ rest = t.events ++ event :: rest := by
      rw [List.append_assoc, List.singleton_append]
    simp only [Consistent, hfresh, Bool.false_eq_true, if_false, hsame]
    exact ⟨hcandidate, hd, hobs, hadm, hkeys, fun e he => hkinds e (List.mem_cons_of_mem _ he)⟩

theorem observed_of_commits (h : ObserveTransaction.statement f others t = .commits) :
    ∃ answer, t.stage = .observed answer [] := by
  unfold ObserveTransaction.statement at h
  cases hstage : t.stage with
  | observed answer events =>
    cases events with
    | nil => exact ⟨answer, rfl⟩
    | cons event rest =>
      rw [hstage] at h
      simp only [ObserveTransaction.addNextEvent] at h
      split at h <;> cases h
  | begun =>
    rw [hstage] at h
    simp only [ObserveTransaction.readChannel] at h
    split at h <;> cases h
  | channelRead channel =>
    rw [hstage] at h
    cases h
  | candidateRead channel found =>
    rw [hstage] at h
    cases found with
    | none =>
      simp only [ObserveTransaction.insertCandidate] at h
      split at h
      · cases h
      · split at h <;> cases h
    | some found =>
      simp only [ObserveTransaction.loadCandidate] at h
      split at h <;> cases h
  | candidateLoaded channel loaded =>
    rw [hstage] at h
    simp only [ObserveTransaction.updateCandidate] at h
    split at h <;> cases h
  | admitted channel candidate candidateCreated =>
    rw [hstage] at h
    simp only [ObserveTransaction.insertDiscovery] at h
    split at h
    · cases h
    · split at h <;> cases h

theorem balanced_commit {answer : ObserveAnswer} (hstage : t.stage = .observed answer [])
    (hconsistent : Consistent t) (h : Balanced f) : Balanced (t.commit f) := by
  rw [Consistent, hstage] at hconsistent
  obtain ⟨hinserted, hdiscovery, hobserved, hadmitted, _, _⟩ := hconsistent
  rw [List.append_nil] at hobserved hadmitted
  have hanswers : (t.commit f).answers = f.answers ++ [answer] := by
    show f.answers ++ t.answer.toList = f.answers ++ [answer]
    rw [ObserveTransaction.answer, hstage]
    rfl
  have hids : (t.commit f).db.candidates.map (·.id) =
      f.db.candidates.map (·.id) ++ (t.inserted.map (·.id)).toList := by
    show (f.db.candidates.map t.mergeRow ++ t.inserted.toList).map (·.id) = _
    rw [List.map_append, List.map_map, Option.toList_map]
    exact congrArg (· ++ _) (List.map_congr_left fun r _ => (mergeRow_keys t r).1)
  have hkeys : (t.commit f).db.discoveries.map discoveryKey =
      f.db.discoveries.map discoveryKey ++ (t.discovery.map discoveryKey).toList := by
    show (f.db.discoveries ++ t.discovery.toList).map discoveryKey = _
    rw [List.map_append, Option.toList_map]
  constructor
  · rw [hkeys, ← hobserved, ← h.observedEvents]
    exact List.filterMap_append
  · rw [hids, ← hadmitted, ← h.admittedEvents]
    exact List.filterMap_append
  · rw [hids, hanswers, List.filter_append, List.map_append, h.candidateCalls, hinserted]
    congr 1
    cases hcreated : answer.result.candidateCreated <;> simp [hcreated]
  · rw [hkeys, hanswers, List.filter_append, List.map_append, h.observationCalls, hdiscovery]
    congr 1
    cases hcreated : answer.result.channelObservationCreated <;> simp [hcreated]

/-- What holds while calls are under way. -/
structure Bookkept (s : State FrontierTables ObserveTransaction) : Prop where
  fingerprints : (entries (fun f : FrontierTables => f.db.candidates)
    (fun t : ObserveTransaction => t.inserted.toList) (·.urlFingerprint) s).Nodup
  candidates : (entries (fun f : FrontierTables => f.db.candidates)
    (fun t : ObserveTransaction => t.inserted.toList) (·.id) s).Nodup
  discoveries : (entries (fun f : FrontierTables => f.db.discoveries)
    (fun t : ObserveTransaction => t.discovery.toList) discoveryKey s).Nodup
  consistent : ∀ t ∈ s.opened, Consistent t
  balanced : Balanced s.committed

theorem bookkept_empty (publishers : List PublisherModel) (channels : List DiscoveryChannel) :
    Bookkept (emptyTables publishers channels) where
  fingerprints := List.nodup_nil
  candidates := List.nodup_nil
  discoveries := List.nodup_nil
  consistent _ ht := absurd ht List.not_mem_nil
  balanced := ⟨rfl, rfl, rfl, rfl⟩

theorem Bookkept.exactlyOnce {s : State FrontierTables ObserveTransaction} (h : Bookkept s) :
    ExactlyOnce s.committed where
  toBalanced := h.balanced
  fingerprints := nodup_committed h.fingerprints
  candidates := nodup_committed h.candidates
  discoveries := nodup_committed h.discoveries

theorem bookkept_step {s s' : State FrontierTables ObserveTransaction}
    {label : Label (List PublisherModel × List DiscoveryChannel) (Turn × ObserveDiscoveryCommand)}
    (h : Bookkept s) (hs : sessionStep (observeSystem ext) s label = some s') : Bookkept s' where
  fingerprints := nodup_entries_step fingerprints_indexed h.fingerprints hs
  candidates := nodup_entries_step ids_indexed h.candidates hs
  discoveries := nodup_entries_step discoveries_indexed h.discoveries hs
  consistent := by
    refine forall_opened_step (fun _ _ => consistent_opening) ?_ h.consistent hs
    intro place t t' ht hconsistent hstatement
    exact consistent_statement hconsistent (writes_of_statement hstatement)
      h.balanced.observedEvents h.balanced.admittedEvents
      (fun _ hk => not_committed ht h.discoveries hk) (fun _ hk => not_committed ht h.candidates hk)
  balanced := by
    obtain ⟨e, _, rfl⟩ | ⟨_, _, _, _, rfl⟩ | ⟨place, t, ht, hdone⟩ := step_cases hs
    · exact ⟨h.balanced.observedEvents, h.balanced.admittedEvents, h.balanced.candidateCalls,
        h.balanced.observationCalls⟩
    · exact h.balanced
    · obtain rfl | ⟨t', _, rfl⟩ | ⟨hcommits, rfl⟩ := hdone
      · exact h.balanced
      · exact h.balanced
      · obtain ⟨answer, hstage⟩ := observed_of_commits hcommits
        exact balanced_commit hstage (h.consistent t (List.mem_of_getElem? ht)) h.balanced

end statements

/- Over every interleaving of calls, from tables without observations. -/
theorem observeDiscovery_exactlyOnce (ext : Externals) (publishers : List PublisherModel)
    (channels : List DiscoveryChannel)
    (labels : List (Label (List PublisherModel × List DiscoveryChannel)
      (Turn × ObserveDiscoveryCommand)))
    (s : State FrontierTables ObserveTransaction)
    (h : Runs.exec (sessionStep (observeSystem ext)) (emptyTables publishers channels) labels =
      some s) :
    ExactlyOnce s.committed :=
  (Runs.invariant (bookkept_empty publishers channels)
    (fun _ _ _ hm hn => bookkept_step hm hn) h).exactlyOnce

theorem noPayload_hex : ∀ t ∈ (none : Option Text), Sha256Hex t := nofun

/-- The calls of two channels, `n` telling apart what they draw. -/
def storyCall (n : ℕ) (channelId : Uuid) : Turn × ObserveDiscoveryCommand where
  fst :=
    { others := id
      others_keep := fun db => .refl db
      now := n
      candidateId := 100 + n
      discoveryId := 200 + n
      channelId := 0
      failure := none }
  snd :=
    { channelId
      url := "https://a.in/news/b".toList
      externalId := none
      title := none
      publishedAt := none
      publishedAtRaw := none
      discoveredAt := none
      channelPosition := none
      payloadSha256 := none
      externalId_length := nofun
      title_length := nofun
      publishedAtRaw_length := nofun
      payloadSha256_hex := noPayload_hex }

/-- Both calls find no candidate; the second one aborts, and is made again. -/
def contendedStory : List (Label (List PublisherModel × List DiscoveryChannel)
    (Turn × ObserveDiscoveryCommand)) :=
  [.start (storyCall 0 2), .start (storyCall 1 3)] ++
    [.advance 0, .advance 0, .advance 1, .advance 1] ++ List.replicate 6 (.advance 0) ++
    [.start (storyCall 2 3)] ++ List.replicate 7 (.advance 0)

theorem contendedStory_exactlyOnce :
    ∃ s, Runs.exec (sessionStep (observeSystem (sampleExternals [])))
        (emptyTables [] [sampleChannel, { sampleChannel with id := 3 }]) contendedStory = some s ∧
      s.committed.db.discoveries.length = 2 ∧ s.committed.db.outbox.length = 3 ∧
      ExactlyOnce s.committed := by
  have hend : (Runs.exec (sessionStep (observeSystem (sampleExternals [])))
      (emptyTables [] [sampleChannel, { sampleChannel with id := 3 }]) contendedStory).any
        (fun s => s.committed.db.discoveries.length = 2 && s.committed.db.outbox.length = 3) =
      true := by decide +kernel
  obtain ⟨s, hs, hrows⟩ := (Option.any_eq_true _ _).mp hend
  rw [Bool.and_eq_true, decide_eq_true_eq, decide_eq_true_eq] at hrows
  exact ⟨s, hs, hrows.1, hrows.2, observeDiscovery_exactlyOnce _ _ _ contendedStory s hs⟩

end Newsintel.Acquisition
