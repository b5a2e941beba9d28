import Newsintel.Acquisition.ObserveTransactions
import Newsintel.Lib.Runs

/-!
# A call of `observe_discovery` without others

Run statement by statement, with no other transaction open, a call answers and commits what
`observeDiscovery` computes in one piece.
-/

namespace Newsintel.Acquisition

open PyText Articles ReadCommitted

variable {ext : Externals} {turn : Turn} {command : ObserveDiscoveryCommand} {f : FrontierTables}
  {t : ObserveTransaction}

theorem addEvent_append {event : AcquisitionEvent} {outbox own : List AcquisitionEvent} :
    addEvent event (outbox ++ own) = outbox ++
      if (outbox ++ own).any (·.idempotencyKey = event.idempotencyKey) then own
      else own ++ [event] := by
  have hiff : event.idempotencyKey ∈ (outbox ++ own).map (·.idempotencyKey) ↔
      (outbox ++ own).any (·.idempotencyKey = event.idempotencyKey) = true := by
    simp only [List.mem_map, List.any_eq_true, decide_eq_true_eq]
  rw [addEvent, Table.insert]
  by_cases h : (outbox ++ own).any (·.idempotencyKey = event.idempotencyKey) = true
  · rw [if_pos (hiff.mpr h), if_pos h, Option.getD_none]
  · rw [if_neg (mt hiff.mp h), if_neg h, Option.getD_some, List.append_assoc]

/- The events, one after the other, and the commit. -/
theorem alone_events {answer : ObserveAnswer} {events : List AcquisitionEvent}
    (hstage : t.stage = .observed answer events) :
    Alone (observeSystem ext) f t
      { db :=
          { f.db with
            candidates := f.db.candidates.map t.mergeRow ++ t.inserted.toList
            discoveries := f.db.discoveries ++ t.discovery.toList
            outbox := events.foldl (fun o e => addEvent e o) (f.db.outbox ++ t.events) }
        answers := f.answers ++ [answer] } := by
  induction events generalizing t with
  | nil =>
    have hcommits : ObserveTransaction.statement f [] t = .commits := by
      rw [ObserveTransaction.statement, hstage]
    have hanswer : t.answer = some answer := by
      rw [ObserveTransaction.answer, hstage]
    have halone := Alone.commits (S := observeSystem ext) hcommits
    simp only [observeSystem, ObserveTransaction.commit, hanswer, Option.toList_some] at halone
    exact halone
  | cons event rest ih =>
    have hcontinues : ObserveTransaction.statement f [] t = .continues
        { t with
          events :=
            if (f.db.outbox ++ t.events).any (·.idempotencyKey = event.idempotencyKey) then t.events
            else t.events ++ [event]
          stage := .observed answer rest } := by
      rw [ObserveTransaction.statement, hstage]
      rfl
    refine .continues (S := observeSystem ext) hcontinues ?_
    rw [List.foldl_cons, addEvent_append]
    exact ih rfl

theorem addDiscoveryIfAbsent_rows {d : UrlDiscoveryModel}
    {discoveries discoveries' : List UrlDiscoveryModel} {created : Bool}
    (h : addDiscoveryIfAbsent d discoveries = .ok (created, discoveries')) :
    discoveries' = discoveries ++ (if created then some d else none).toList := by
  obtain ⟨rfl, _, rfl⟩ | ⟨rfl, _, _, rfl⟩ := addDiscoveryIfAbsent_cases h
  · exact (List.append_nil _).symm
  · rfl

/- From the admitted candidate on. -/
theorem alone_admitted {channel : DiscoveryChannel} {candidate : UrlCandidateModel}
    {candidateCreated created : Bool} {discoveries : List UrlDiscoveryModel}
    (hstage : t.stage = .admitted channel candidate candidateCreated)
    (hdiscovery : t.discovery = none) (hevents : t.events = [])
    (hadd : addDiscoveryIfAbsent (observationOf t.turn t.command channel candidate)
      f.db.discoveries = .ok (created, discoveries)) :
    Alone (observeSystem ext) f t
      { db :=
          { f.db with
            candidates := f.db.candidates.map t.mergeRow ++ t.inserted.toList
            discoveries
            outbox := (observationEvents t.command channel candidate
              (t.command.discoveredAt.getD t.turn.now) candidateCreated created).foldl
                (fun o e => addEvent e o) f.db.outbox }
        answers := f.answers ++
          [⟨candidate.id, channel.id, ⟨candidateCreated, created⟩⟩] } := by
  have hcontinues : ObserveTransaction.statement f [] t = .continues
      { t with
        discovery :=
          if created then some (observationOf t.turn t.command channel candidate) else t.discovery
        stage := .observed ⟨candidate.id, channel.id, ⟨candidateCreated, created⟩⟩
          (observationEvents t.command channel candidate
            (t.command.discoveredAt.getD t.turn.now) candidateCreated created) } := by
    rw [ObserveTransaction.statement, hstage]
    simp only [ObserveTransaction.insertDiscovery, List.any_nil, Bool.false_eq_true, if_false, hadd]
  refine .continues (S := observeSystem ext) hcontinues ?_
  have halone := @alone_events ext f
    { t with
      discovery :=
        if created then some (observationOf t.turn t.command channel candidate) else t.discovery
      stage := .observed ⟨candidate.id, channel.id, ⟨candidateCreated, created⟩⟩
        (observationEvents t.command channel candidate
          (t.command.discoveredAt.getD t.turn.now) candidateCreated created) } _ _ rfl
  rw [addDiscoveryIfAbsent_rows hadd]
  simp only [hdiscovery, hevents, List.append_nil] at halone ⊢
  exact halone

/- The insertion of a candidate. -/
theorem insertCandidate_alone {channel : DiscoveryChannel}
    (hfingerprint : (t.brings channel).urlFingerprint ∉ f.db.candidates.map (·.urlFingerprint))
    (hid : (t.brings channel).id ∉ f.db.candidates.map (·.id)) :
    t.insertCandidate f.db [] channel = .continues
      { t with
        inserted := some (admittedRow (t.brings channel))
        stage := .admitted channel (admittedRow (t.brings channel)) true } := by
  have hnone : ¬ f.db.candidates.any
      (ObserveTransaction.sameKey (admittedRow (t.brings channel))) = true := by
    intro hany
    obtain ⟨r, hr, hsame⟩ := List.any_eq_true.mp hany
    rw [ObserveTransaction.sameKey, Bool.or_eq_true, decide_eq_true_eq, decide_eq_true_eq] at hsame
    obtain hsame | hsame := hsame
    · exact hid (List.mem_map.mpr ⟨r, hr, hsame⟩)
    · exact hfingerprint (List.mem_map.mpr ⟨r, hr, hsame⟩)
  simp only [ObserveTransaction.insertCandidate, if_neg hnone, List.any_nil, Bool.false_eq_true,
    if_false]

/- The update of a candidate that nobody else has written since it was loaded. -/
theorem mergeRow_candidates {d : Discovery} {found : UrlCandidateModel}
    {candidates : List UrlCandidateModel} (hd : (candidates.map (·.id)).Nodup)
    (hfound : found ∈ candidates) (hmerged : t.merged = some (d, found)) :
    candidates.map t.mergeRow =
      Table.update (·.id) found.id (updateCandidateJobMetadata d) candidates := by
  apply List.map_congr_left
  intro r hr
  rw [ObserveTransaction.mergeRow, hmerged]
  show (if r.id = found.id then mergeDiscovery d found r else r) = _
  split
  · rename_i hid
    obtain rfl := List.inj_on_of_nodup_map hd hr hfound hid
    exact flushRow_self _ _
  · rfl

/- Up to the admitted candidate. -/
theorem alone_channelRead {channel : DiscoveryChannel} {candidate : UrlCandidateModel}
    {candidateCreated : Bool} {candidates : List UrlCandidateModel} {f' : FrontierTables}
    (hd : (f.db.candidates.map (·.id)).Nodup) (hstage : t.stage = .channelRead channel)
    (hinserted : t.inserted = none) (hmerged : t.merged = none)
    (hadmits : admitCandidate (t.brings channel) f.db.candidates =
      .ok (candidate, candidateCreated, candidates))
    (hrest : ∀ t' : ObserveTransaction, t'.turn = t.turn → t'.command = t.command →
      t'.discovery = t.discovery → t'.events = t.events →
      t'.stage = .admitted channel candidate candidateCreated →
      f.db.candidates.map t'.mergeRow ++ t'.inserted.toList = candidates →
      Alone (observeSystem ext) f t' f') :
    Alone (observeSystem ext) f t f' := by
  have hread : ObserveTransaction.statement f [] t = .continues
      { t with
        stage := .candidateRead channel
          (Table.get? (·.urlFingerprint) (t.brings channel).urlFingerprint f.db.candidates) } := by
    rw [ObserveTransaction.statement, hstage]
    rfl
  refine .continues (S := observeSystem ext) hread ?_
  unfold admitCandidate at hadmits
  cases hfind : Table.get? (·.urlFingerprint) (t.brings channel).urlFingerprint
    f.db.candidates with
  | none =>
    rw [hfind] at hadmits
    simp only at hadmits
    split at hadmits
    · cases hadmits
    · rename_i hid
      cases hadmits
      refine .continues (S := observeSystem ext)
        (insertCandidate_alone (Table.get?_none.mp hfind) hid) ?_
      refine hrest _ rfl rfl rfl rfl rfl ?_
      have hsame : ∀ r, ({ t with
          inserted := some (admittedRow (t.brings channel))
          stage := .admitted channel (admittedRow (t.brings channel)) true } :
            ObserveTransaction).mergeRow r = r := by
        intro r
        rw [ObserveTransaction.mergeRow, hmerged]
      exact congrArg (· ++ _) ((List.map_congr_left fun r _ => hsame r).trans (List.map_id _))
  | some found =>
    rw [hfind] at hadmits
    cases hadmits
    have hfound := (Table.get?_some hfind).1
    have hload : ObserveTransaction.statement f []
        { t with stage := .candidateRead channel (some found) } = .continues
          { t with stage := .candidateLoaded channel found } := by
      simp only [ObserveTransaction.statement, ObserveTransaction.loadCandidate,
        Table.get?_of_mem hd hfound rfl]
    have hupdate : ObserveTransaction.statement f []
        { t with stage := .candidateLoaded channel found } = .continues
          { t with
            merged := some (t.brings channel, found)
            stage :=
              .admitted channel (updateCandidateJobMetadata (t.brings channel) found) false } := rfl
    refine .continues (S := observeSystem ext) hload ?_
    refine .continues (S := observeSystem ext) hupdate ?_
    refine hrest _ rfl rfl rfl rfl rfl ?_
    rw [mergeRow_candidates hd hfound rfl]
    show _ ++ t.inserted.toList = _
    rw [hinserted, Option.toList_none, List.append_nil]

/- A call that nobody interferes with commits what `observeDiscovery` computes. -/
theorem observeDiscovery_serial {result : DiscoveryObservationResult} {db' : Database}
    (hd : (f.db.candidates.map (·.id)).Nodup)
    (h : observeDiscovery ext turn command f.db = .ok (result, db')) :
    ∃ n answer, answer.result = result ∧
      Runs.exec (sessionStep (observeSystem ext)) ⟨f, []⟩
          (.start (turn, command) :: List.replicate n (.advance 0)) =
        some ⟨⟨db', f.answers ++ [answer]⟩, []⟩ := by
  unfold observeDiscovery at h
  obtain ⟨canonical, hcanonical, h⟩ := bind_ok h
  cases hchannel : activeChannel command.channelId f.db with
  | none =>
    rw [hchannel] at h
    cases h
  | some channel =>
    rw [hchannel] at h
    obtain ⟨⟨candidate, candidateCreated, candidates⟩, hadmits, h⟩ := bind_ok h
    obtain ⟨⟨created, discoveries⟩, hadd, h⟩ := bind_ok h
    obtain ⟨rfl, hdb⟩ := (Prod.mk.injEq ..).mp (Except.ok.inj h)
    have hbegin : beginObservation ext (turn, command) = some
        { turn, command, canonical, stage := .begun, inserted := none, merged := none,
          discovery := none, events := [] } := by
      show (Except.toOption _).map _ = _
      rw [hcanonical]
      rfl
    have hread : ObserveTransaction.statement f []
        { turn, command, canonical, stage := .begun, inserted := none, merged := none,
          discovery := none, events := [] } = .continues
        { turn, command, canonical, stage := .channelRead channel, inserted := none, merged := none,
          discovery := none, events := [] } := by
      simp only [ObserveTransaction.statement, ObserveTransaction.readChannel, hchannel]
    have halone : Alone (observeSystem ext) f
        { turn, command, canonical, stage := .begun, inserted := none, merged := none,
          discovery := none, events := [] }
        ⟨db', f.answers ++ [⟨candidate.id, channel.id, ⟨candidateCreated, created⟩⟩]⟩ := by
      refine .continues (S := observeSystem ext) hread ?_
      refine alone_channelRead hd rfl rfl rfl hadmits ?_
      intro t' hturn hcommand hdiscovery hevents hstage hcandidates
      have hturn : t'.turn = turn := hturn
      have hcommand : t'.command = command := hcommand
      rw [← hturn, ← hcommand] at hadd
      rw [← hdb, ← hturn, ← hcommand, ← hcandidates]
      exact alone_admitted hstage hdiscovery hevents hadd
    obtain ⟨n, hn⟩ := exec_of_alone halone
    refine ⟨n, ⟨candidate.id, channel.id, ⟨candidateCreated, created⟩⟩, rfl, ?_⟩
    refine Runs.exec_cons_some.mpr ⟨_, Option.map_eq_some_iff.mpr ⟨_, hbegin, rfl⟩, ?_⟩
    exact hn

end Newsintel.Acquisition
