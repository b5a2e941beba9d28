import Mathlib.Algebra.GroupWithZero.Nat
import Newsintel.Outbox.Relay

/-!
# Events are delivered once

Over any interleaving of producers and relays: a published event has one row in the inbox and
an unpublished event has none, a published row stays as it is, and the relays have counted the
published events. The locks of the relays keep their batches apart.
-/

namespace Newsintel.Outbox

open ReadCommitted

/-- The row is the delivery of the event to the relay. -/
def delivers (event : Uuid) (row : ConsumerInboxModel) : Bool :=
  row.consumerName = consumerName && row.eventId = event

/-- The books of the committed relays. -/
structure DeliveredOnce (db : OutboxTables) : Prop where
  ids : (db.outbox.map (·.id)).Nodup
  publishedIff : ∀ e ∈ db.outbox,
    e.publishedAt.isSome = true ↔ db.inbox.countP (delivers e.id) = 1
  noDuplicate : ∀ event, db.inbox.countP (delivers event) ≤ 1
  counts : db.counts.sum = db.outbox.countP (·.publishedAt.isSome)

/-- What is published stays as it is. -/
def KeepsPublished (db db' : OutboxTables) : Prop :=
  ∀ e ∈ db.outbox, e.publishedAt.isSome = true → e ∈ db'.outbox

/-! ### Invariant -/

/-- The inbox rows are those of the published events. -/
structure Booked (db : OutboxTables) : Prop where
  ids : (db.outbox.map (·.id)).Nodup
  inbox : (db.inbox.map (·.eventId)).Perm
    ((db.outbox.filter (·.publishedAt.isSome)).map (·.id))
  consumer : ∀ row ∈ db.inbox, row.consumerName = consumerName
  counts : db.counts.sum = db.inbox.length

/-- How far a relay has come with its events. -/
def Relay.Progress (r : Relay) : Prop :=
  match r.stage with
  | .begun => r.events = [] ∧ r.marked = [] ∧ r.handled = []
  | .selecting rows => ((r.events ++ rows).map (·.id)).Nodup ∧ r.marked = [] ∧ r.handled = []
  | .inserting events =>
    r.marked ++ events.map (·.id) = r.events.map (·.id) ∧ r.handled.map (·.eventId) = r.marked
  | .updating event events =>
    r.marked ++ event.id :: events.map (·.id) = r.events.map (·.id) ∧
      r.handled.map (·.eventId) = r.marked ++ [event.id]

/-- A relay holds rows that are not published. -/
structure Relay.Holds (db : OutboxTables) (r : Relay) : Prop where
  progress : r.Progress
  events : ∀ e ∈ r.events, e ∈ db.outbox ∧ e.publishedAt = none
  consumer : ∀ row ∈ r.handled, row.consumerName = consumerName

def Transaction.Holds (db : OutboxTables) : Transaction → Prop
  | .producer p => ∀ e ∈ p.added, e.publishedAt = none
  | .relay r => r.Holds db

/-- The ids of the outbox, those of open producers included. -/
abbrev outboxIds (s : State OutboxTables Transaction) : List Uuid :=
  taken (fun db : OutboxTables => db.outbox.map (·.id))
    (fun t : Transaction => t.added.map (·.id)) s

/-- The rows that are locked. -/
abbrev lockedIds (s : State OutboxTables Transaction) : List Uuid :=
  taken (fun _ : OutboxTables => []) Transaction.locked s

structure RelayInvariant (s : State OutboxTables Transaction) : Prop where
  booked : Booked s.committed
  ids : (outboxIds s).Nodup
  locks : (lockedIds s).Nodup
  holds : ∀ t ∈ s.opened, t.Holds s.committed

variable {db : OutboxTables} {others : List Transaction} {r r' : Relay} {t t' : Transaction}
  {s s' : State OutboxTables Transaction} {e e' : OutboxEventModel}

/- The inbox has the events that are published. -/
theorem Booked.published_iff (h : Booked db) (he : e ∈ db.outbox) :
    e.publishedAt.isSome = true ↔ e.id ∈ db.inbox.map (·.eventId) := by
  rw [h.inbox.mem_iff]
  constructor
  · intro hpublished
    exact List.mem_map_of_mem (List.mem_filter.mpr ⟨he, hpublished⟩)
  · intro hmem
    obtain ⟨e', he', hid⟩ := List.mem_map.mp hmem
    obtain ⟨he', hpublished⟩ := List.mem_filter.mp he'
    rw [← List.inj_on_of_nodup_map h.ids he' he hid]
    exact hpublished

theorem Booked.nodup_inbox (h : Booked db) : (db.inbox.map (·.eventId)).Nodup :=
  h.inbox.nodup_iff.mpr (h.ids.sublist (List.filter_sublist.map _))

theorem Booked.deliveredOnce (h : Booked db) : DeliveredOnce db := by
  have hdelivers (event : Uuid) : db.inbox.countP (delivers event) =
      (db.inbox.map (·.eventId)).count event := by
    rw [List.count_eq_countP, List.countP_map]
    apply List.countP_congr
    intro row hrow
    simp only [delivers, h.consumer row hrow, decide_true, Bool.true_and, Function.comp_apply,
      decide_eq_true_eq, beq_iff_eq]
  constructor
  case ids => exact h.ids
  case publishedIff =>
    intro e he
    rw [hdelivers, h.published_iff he]
    constructor
    · intro hmem
      exact List.count_eq_one_of_mem h.nodup_inbox hmem
    · intro hone
      exact List.one_le_count_iff.mp hone.ge
  case noDuplicate =>
    intro event
    rw [hdelivers]
    exact List.nodup_iff_count_le_one.mp h.nodup_inbox event
  case counts =>
    rw [h.counts, List.countP_eq_length_filter, ← List.length_map (·.eventId),
      h.inbox.length_eq, List.length_map]

/-! ### One statement -/

/-- What a statement of a relay that goes on has done. -/
inductive Relay.Next (db : OutboxTables) (others : List Transaction) (r : Relay) : Relay → Prop where
  | snapshot (hstage : r.stage = .begun) :
      Next db others r { r with stage := .selecting (Relay.pending r.call db.outbox) }
  | skipped (row : OutboxEventModel) (rows : List OutboxEventModel)
      (hstage : r.stage = .selecting (row :: rows)) :
      Next db others r { r with stage := .selecting rows }
  | locked (row current : OutboxEventModel) (rows : List OutboxEventModel)
      (hstage : r.stage = .selecting (row :: rows))
      (hcurrent : current ∈ db.outbox) (hid : current.id = row.id)
      (hpending : current.publishedAt = none) (hfree : ∀ o ∈ others, row.id ∉ o.locked) :
      Next db others r { r with stage := .selecting rows, events := r.events ++ [current] }
  | selected (rows : List OutboxEventModel) (hstage : r.stage = .selecting rows) :
      Next db others r { r with stage := .inserting r.events }
  | delivered (event : OutboxEventModel) (events : List OutboxEventModel)
      (hstage : r.stage = .inserting (event :: events))
      (hdelivered : event.id ∈ (db.inbox ++ r.handled).map (·.eventId)) :
      Next db others r { r with stage := .updating event events }
  | inserted (event : OutboxEventModel) (events : List OutboxEventModel)
      (hstage : r.stage = .inserting (event :: events)) :
      Next db others r
        { r with stage := .updating event events, handled := r.handled ++ [r.inboxRow event] }
  | updated (event : OutboxEventModel) (events : List OutboxEventModel)
      (hstage : r.stage = .updating event events) :
      Next db others r { r with stage := .inserting events, marked := r.marked ++ [event.id] }

theorem Relay.next_of_lockNext {row : OutboxEventModel} {rows : List OutboxEventModel}
    (hstage : r.stage = .selecting (row :: rows)) :
    Relay.Next db others r (r.lockNext db others row rows) := by
  unfold Relay.lockNext
  split
  · exact .skipped row rows hstage
  · rename_i hfree
    split
    · exact .skipped row rows hstage
    · rename_i current hrow
      obtain ⟨hcurrent, hid⟩ := Table.get?_some hrow
      split
      · rename_i hpending
        refine .locked row current rows hstage hcurrent hid ?_ ?_
        · exact Option.isNone_iff_eq_none.mp hpending
        · intro o ho hlocked
          exact hfree (List.any_eq_true.mpr ⟨o, ho, decide_eq_true hlocked⟩)
      · exact .skipped row rows hstage

theorem Relay.next_of_select {rows : List OutboxEventModel} (hstage : r.stage = .selecting rows) :
    Relay.Next db others r (r.select db others rows) := by
  cases rows with
  | nil => exact .selected [] hstage
  | cons row rows =>
    rw [Relay.select]
    split
    · exact .selected _ hstage
    · exact Relay.next_of_lockNext hstage

/- Everything that a statement of a relay can do. -/
theorem Relay.next_of_statement (h : r.statement db others = .continues t') :
    ∃ r', t' = .relay r' ∧ Relay.Next db others r r' := by
  unfold Relay.statement at h
  split at h
  · rename_i hstage
    cases h
    exact ⟨_, rfl, .snapshot hstage⟩
  · rename_i rows hstage
    cases h
    exact ⟨_, rfl, Relay.next_of_select hstage⟩
  · rename_i event events hstage
    simp only [Relay.insertInbox] at h
    split at h
    · rename_i hconflict
      cases h
      refine ⟨_, rfl, .delivered event events hstage ?_⟩
      obtain ⟨row, hrow, hsame⟩ := List.any_eq_true.mp hconflict
      rw [Relay.sameDelivery, Bool.and_eq_true] at hsame
      exact List.mem_map.mpr ⟨row, hrow, of_decide_eq_true hsame.2⟩
    · split at h
      · cases h
      · split at h
        · cases h
        · split at h
          · cases h
          · cases h
            exact ⟨_, rfl, .inserted event events hstage⟩
  · cases h
  · rename_i event events hstage
    unfold Relay.updateEvent at h
    split at h
    · cases h
    · cases h
      exact ⟨_, rfl, .updated event events hstage⟩

/- Everything that a statement of a producer can do. -/
theorem added_of_statement {p : Producer}
    (h : Transaction.statement db others (.producer p) = .continues t') :
    ∃ p', t' = .producer p' ∧ (p'.added = p.added ∨
      ∃ event : IntegrationEvent, p'.added = p.added ++ [event.row] ∧
        event.eventId ∉ (db.outbox ++ p.added).map (·.id) ∧
          ∀ o ∈ others, event.eventId ∉ o.added.map (·.id)) := by
  simp only [Transaction.statement] at h
  split at h
  · cases h
  · rename_i event rest _
    unfold Producer.addOutbox at h
    split at h
    · cases h
      exact ⟨_, rfl, Or.inl rfl⟩
    · split at h
      · cases h
      · split at h
        · cases h
        · rename_i hcommitted
          split at h
          · cases h
          · rename_i hothers
            cases h
            refine ⟨_, rfl, Or.inr ⟨event, rfl, ?_, ?_⟩⟩
            · intro hmem
              obtain ⟨row, hrow, hid⟩ := List.mem_map.mp hmem
              exact hcommitted (List.any_eq_true.mpr ⟨row, hrow, decide_eq_true hid⟩)
            · intro o ho hmem
              obtain ⟨row, hrow, hid⟩ := List.mem_map.mp hmem
              refine hothers (List.any_eq_true.mpr ⟨o, ho, ?_⟩)
              exact List.any_eq_true.mpr ⟨row, hrow, decide_eq_true hid⟩

/-! ### What the statements keep -/

theorem Booked.relay_next (hdb : Booked db) (hlocks : (r.events.map (·.id)).Nodup)
    (h : r.Holds db) (hnext : Relay.Next db others r r') : r'.Holds db := by
  have hprogress := h.progress
  cases hnext with
  | snapshot hstage =>
    simp only [Relay.Progress, hstage] at hprogress
    obtain ⟨hevents, hmarked, hhandled⟩ := hprogress
    refine ⟨⟨?_, hmarked, hhandled⟩, h.events, h.consumer⟩
    simp only [hevents, List.nil_append, Relay.pending]
    have hperm := (List.perm_insertionSort (fun a b : OutboxEventModel =>
      a.occurredAt < b.occurredAt ∨ a.occurredAt = b.occurredAt ∧ r.call.place a.id ≤
        r.call.place b.id) (db.outbox.filter (·.publishedAt.isNone))).map (·.id)
    exact hperm.nodup_iff.mpr (hdb.ids.sublist (List.filter_sublist.map _))
  | skipped row rows hstage =>
    simp only [Relay.Progress, hstage] at hprogress
    obtain ⟨hnodup, hmarked, hhandled⟩ := hprogress
    refine ⟨⟨hnodup.sublist ?_, hmarked, hhandled⟩, h.events, h.consumer⟩
    exact ((List.sublist_cons_self row rows).append_left _).map _
  | locked row current rows hstage hcurrent hid hpending hfree =>
    simp only [Relay.Progress, hstage] at hprogress
    obtain ⟨hnodup, hmarked, hhandled⟩ := hprogress
    refine ⟨⟨?_, hmarked, hhandled⟩, ?_, h.consumer⟩
    · simp only [List.append_assoc, List.singleton_append, List.map_append, List.map_cons, hid]
        at hnodup ⊢
      exact hnodup
    · exact List.forall_mem_append.mpr
        ⟨h.events, List.forall_mem_singleton.mpr ⟨hcurrent, hpending⟩⟩
  | selected rows hstage =>
    simp only [Relay.Progress, hstage] at hprogress
    obtain ⟨_, hmarked, hhandled⟩ := hprogress
    refine ⟨⟨?_, ?_⟩, h.events, h.consumer⟩
    · rw [hmarked, List.nil_append]
    · rw [hmarked, hhandled, List.map_nil]
  | delivered event events hstage hdelivered =>
    -- The lock keeps the event unpublished, and the relay meets an event once.
    simp only [Relay.Progress, hstage, List.map_cons] at hprogress
    obtain ⟨hmarked, hhandled⟩ := hprogress
    have hmem : event.id ∈ r.events.map (·.id) := by
      rw [← hmarked]
      exact List.mem_append_right _ List.mem_cons_self
    obtain ⟨e, he, hid⟩ := List.mem_map.mp hmem
    obtain ⟨hadded, hpending⟩ := h.events e he
    rw [List.map_append, hhandled] at hdelivered
    obtain hcommitted | hown := List.mem_append.mp hdelivered
    · have hpublished := (hdb.published_iff hadded).mpr (hid ▸ hcommitted)
      rw [hpending] at hpublished
      contradiction
    · rw [← hmarked] at hlocks
      exact absurd rfl ((List.nodup_append.mp hlocks).2.2 _ hown _ List.mem_cons_self)
  | inserted event events hstage =>
    simp only [Relay.Progress, hstage, List.map_cons] at hprogress
    obtain ⟨hmarked, hhandled⟩ := hprogress
    refine ⟨⟨hmarked, ?_⟩, h.events, ?_⟩
    · rw [List.map_append, hhandled]
      rfl
    · exact List.forall_mem_append.mpr ⟨h.consumer, List.forall_mem_singleton.mpr rfl⟩
  | updated event events hstage =>
    simp only [Relay.Progress, hstage] at hprogress
    obtain ⟨hmarked, hhandled⟩ := hprogress
    refine ⟨⟨?_, hhandled⟩, h.events, h.consumer⟩
    rw [List.append_assoc, List.singleton_append]
    exact hmarked

/-! ### Commits -/

theorem Relay.mark_id (r : Relay) (e : OutboxEventModel) : (r.mark e).id = e.id := by
  unfold Relay.mark
  split <;> rfl

theorem Relay.mark_of_not_mem (h : e.id ∉ r.marked) : r.mark e = e := if_neg h

theorem Relay.commit_ids : ((r.commit db).outbox.map (·.id)) = db.outbox.map (·.id) := by
  simp only [Relay.commit, List.map_map]
  exact List.map_congr_left fun e _ => r.mark_id e

/- A relay that commits has marked and handled all its events. -/
theorem Relay.Holds.all_handled (h : r.Holds db) (hstage : r.stage = .inserting []) :
    r.marked = r.events.map (·.id) ∧ r.handled.map (·.eventId) = r.marked := by
  have hprogress := h.progress
  simp only [Relay.Progress, hstage, List.map_nil, List.append_nil] at hprogress
  exact hprogress

/- A row that is published, or that another relay holds, is not marked. -/
theorem Relay.Holds.mark_eq (h : r.Holds db) (hids : (db.outbox.map (·.id)).Nodup)
    (hstage : r.stage = .inserting []) (he : e ∈ db.outbox)
    (hother : e.publishedAt.isSome = true ∨ e.id ∉ r.events.map (·.id)) : r.mark e = e := by
  apply Relay.mark_of_not_mem
  rw [(h.all_handled hstage).1]
  obtain hpublished | hfree := hother
  · intro hmem
    obtain ⟨e', he', hid⟩ := List.mem_map.mp hmem
    obtain ⟨hadded, hpending⟩ := h.events e' he'
    rw [← List.inj_on_of_nodup_map hids hadded he hid, hpending] at hpublished
    contradiction
  · exact hfree

theorem Booked.relay_commit (hdb : Booked db) (hlocks : (r.events.map (·.id)).Nodup)
    (h : r.Holds db) (hstage : r.stage = .inserting []) : Booked (r.commit db) := by
  obtain ⟨hmarked, hhandled⟩ := h.all_handled hstage
  constructor
  case ids =>
    rw [Relay.commit_ids]
    exact hdb.ids
  case inbox =>
    have hinbox : (r.commit db).inbox.map (·.eventId) =
        db.inbox.map (·.eventId) ++ r.events.map (·.id) := by
      rw [← hmarked, ← hhandled]
      exact List.map_append
    rw [hinbox]
    refine (List.perm_ext_iff_of_nodup ?_ ?_).mpr ?_
    · refine List.nodup_append.mpr ⟨hdb.nodup_inbox, hlocks, ?_⟩
      rintro _ hrow _ hevent rfl
      obtain ⟨e, he, rfl⟩ := List.mem_map.mp hevent
      obtain ⟨hadded, hpending⟩ := h.events e he
      have hpublished := (hdb.published_iff hadded).mpr hrow
      rw [hpending] at hpublished
      contradiction
    · refine List.Nodup.sublist (List.filter_sublist.map _) ?_
      rw [Relay.commit_ids]
      exact hdb.ids
    · intro event
      simp only [List.mem_append, List.mem_map, List.mem_filter, Relay.commit]
      constructor
      · rintro (hrow | ⟨e, he, rfl⟩)
        · obtain ⟨e, he, rfl⟩ := List.mem_map.mp (hdb.inbox.mem_iff.mp (List.mem_map.mpr hrow))
          obtain ⟨he, hpublished⟩ := List.mem_filter.mp he
          refine ⟨e, ⟨⟨e, he, ?_⟩, hpublished⟩, rfl⟩
          exact h.mark_eq hdb.ids hstage he (Or.inl hpublished)
        · refine ⟨r.mark e, ⟨⟨e, (h.events e he).1, rfl⟩, ?_⟩, r.mark_id e⟩
          rw [Relay.mark, if_pos (hmarked ▸ List.mem_map_of_mem he)]
          rfl
      · rintro ⟨_, ⟨⟨e, he, rfl⟩, hpublished⟩, rfl⟩
        rw [Relay.mark_id]
        by_cases hmem : e.id ∈ r.events.map (·.id)
        · exact Or.inr (List.mem_map.mp hmem)
        · rw [h.mark_eq hdb.ids hstage he (Or.inr hmem)] at hpublished
          exact Or.inl (List.mem_map.mp ((hdb.published_iff he).mp hpublished))
  case consumer => exact List.forall_mem_append.mpr ⟨hdb.consumer, h.consumer⟩
  case counts =>
    have hlength : r.handled.length = r.events.length := by
      rw [← List.length_map (·.eventId), hhandled, hmarked, List.length_map]
    simp only [Relay.commit, List.sum_append, List.sum_singleton, List.length_append, hdb.counts,
      hlength]

theorem Booked.producer_commit {p : Producer} (hdb : Booked db)
    (hids : ((db.outbox ++ p.added).map (·.id)).Nodup)
    (h : ∀ e ∈ p.added, e.publishedAt = none) :
    Booked { db with outbox := db.outbox ++ p.added } := by
  refine ⟨hids, ?_, hdb.consumer, hdb.counts⟩
  have hnone : p.added.filter (·.publishedAt.isSome) = [] := by
    rw [List.filter_eq_nil_iff]
    intro e he
    rw [h e he]
    exact Bool.false_ne_true
  simp only [List.filter_append, hnone, List.append_nil]
  exact hdb.inbox

/-! ### Runs -/

theorem idsReserved : Reserves (fun db : OutboxTables => db.outbox.map (·.id))
    (fun t : Transaction => t.added.map (·.id)) (fun _ _ => True) outboxSystem where
  opening call t h := by
    cases call with
    | produce events =>
      cases h
      rfl
    | publishPendingOutboxOnce call =>
      cases h
      rfl
  other e := nomatch e
  commit t db := by
    refine ⟨_, List.Sublist.refl _, ?_⟩
    cases t with
    | producer p => exact List.map_append
    | relay r =>
      show ((r.commit db).outbox.map (·.id)) = _
      rw [Relay.commit_ids]
      exact (List.append_nil _).symm
  statement db others t t' _ h := by
    cases t with
    | producer p =>
      obtain ⟨p', rfl, hsame | ⟨event, hadded, hfresh, hothers⟩⟩ := added_of_statement h
      · exact Or.inl (congrArg _ hsame)
      · rw [List.map_append, List.mem_append, not_or] at hfresh
        refine Or.inr ⟨_, event.eventId, List.Sublist.refl _, ?_, hfresh.2, hfresh.1, hothers⟩
        simp only [Transaction.added, hadded, List.map_append, List.map_singleton]
        rfl
    | relay r =>
      obtain ⟨r', rfl, _⟩ := Relay.next_of_statement h
      exact Or.inl rfl

theorem locksReserved : Reserves (fun _ : OutboxTables => []) Transaction.locked
    (fun db t => t.Holds db) outboxSystem where
  opening call t h := by
    cases call with
    | produce events =>
      cases h
      rfl
    | publishPendingOutboxOnce call =>
      cases h
      rfl
  other e := nomatch e
  commit t db := ⟨[], List.nil_sublist _, rfl⟩
  statement db others t t' hholds h := by
    cases t with
    | producer p =>
      obtain ⟨p', rfl, _⟩ := added_of_statement h
      exact Or.inl rfl
    | relay r =>
      obtain ⟨r', rfl, hnext⟩ := Relay.next_of_statement h
      have hprogress := Relay.Holds.progress hholds
      cases hnext with
      | locked row current rows hstage hcurrent hid hpending hfree =>
        refine Or.inr ⟨_, current.id, List.Sublist.refl _, ?_, ?_, List.not_mem_nil, ?_⟩
        · exact List.map_append
        · -- The snapshot has no row twice.
          simp only [Relay.Progress, hstage, List.map_append, List.map_cons] at hprogress
          intro hmem
          refine (List.nodup_append.mp hprogress.1).2.2 _ hmem _ List.mem_cons_self hid
        · rw [hid]
          exact hfree
      | _ => exact Or.inl rfl

/- A transaction commits when it has made all its statements. -/
theorem commits_iff : Transaction.statement db others t = .commits ↔ t.Done := by
  cases t with
  | producer p =>
    cases hevents : p.events with
    | nil => simp only [Transaction.statement, Transaction.Done, hevents]
    | cons event rest =>
      simp only [Transaction.statement, Transaction.Done, hevents, Producer.addOutbox]
      refine iff_of_false ?_ (List.cons_ne_nil _ _)
      split_ifs <;> exact nofun
  | relay r =>
    simp only [Transaction.statement, Transaction.Done, Relay.statement]
    split
    · rename_i hstage
      simp only [hstage, reduceCtorEq]
    · rename_i hstage
      simp only [hstage, reduceCtorEq]
    · rename_i event events hstage
      simp only [hstage, Relay.insertInbox, RelayStage.inserting.injEq]
      refine iff_of_false ?_ (List.cons_ne_nil _ _)
      split_ifs <;> exact nofun
    · rename_i hstage
      simp only [hstage]
    · rename_i hstage
      simp only [hstage, Relay.updateEvent, reduceCtorEq, iff_false]
      split <;> exact nofun

theorem holds_of_opening {call : Call} (h : Transaction.opening call = some t) : t.Holds db := by
  cases call with
  | produce events =>
    cases h
    exact List.forall_mem_nil _
  | publishPendingOutboxOnce call =>
    cases h
    exact ⟨⟨rfl, rfl, rfl⟩, List.forall_mem_nil _, List.forall_mem_nil _⟩

theorem holds_of_statement (hdb : Booked db) (hlocks : t.locked.Nodup) (h : t.Holds db)
    (hnext : Transaction.statement db others t = .continues t') : t'.Holds db := by
  cases t with
  | producer p =>
    obtain ⟨p', rfl, hsame | ⟨event, hadded, _⟩⟩ := added_of_statement hnext
    · intro e he
      exact h e (hsame ▸ he)
    · intro e he
      rw [hadded] at he
      obtain he | he := List.mem_append.mp he
      · exact h e he
      · rw [List.mem_singleton.mp he]
        rfl
  | relay r =>
    obtain ⟨r', rfl, hdone⟩ := Relay.next_of_statement hnext
    exact hdb.relay_next hlocks h hdone

/- A commit leaves the rows of the others to them. -/
theorem holds_of_commit {o : Transaction} (hids : (db.outbox.map (·.id)).Nodup) (ht : t.Holds db)
    (hdone : t.Done)
    (hlocks : ∀ id ∈ t.locked, id ∉ o.locked) (h : o.Holds db) : o.Holds (t.commit db) := by
  cases o with
  | producer p => exact h
  | relay o =>
    refine ⟨h.progress, ?_, h.consumer⟩
    intro e he
    obtain ⟨hadded, hpending⟩ := h.events e he
    refine ⟨?_, hpending⟩
    cases t with
    | producer p => exact List.mem_append_left _ hadded
    | relay r =>
      have hmark : r.mark e = e := by
        refine Relay.Holds.mark_eq ht hids hdone hadded (Or.inr ?_)
        exact fun hmem => hlocks _ hmem (List.mem_map_of_mem he)
      exact List.mem_map.mpr ⟨e, hadded, hmark⟩

theorem keepsPublished_commit (hids : (db.outbox.map (·.id)).Nodup) (ht : t.Holds db)
    (hdone : t.Done) :
    KeepsPublished db (t.commit db) := by
  intro e he hpublished
  cases t with
  | producer p => exact List.mem_append_left _ he
  | relay r =>
    have hmark : r.mark e = e := Relay.Holds.mark_eq ht hids hdone he (Or.inl hpublished)
    exact List.mem_map.mpr ⟨e, he, hmark⟩

theorem relayInvariant_step {label : Label Empty Call} (h : RelayInvariant s)
    (hstep : sessionStep outboxSystem s label = some s') :
    RelayInvariant s' ∧ KeepsPublished s.committed s'.committed := by
  have hids := nodup_taken_step idsReserved (fun _ _ => trivial) h.ids hstep
  have hlocks := nodup_taken_step locksReserved h.holds h.locks hstep
  obtain ⟨e, _, _⟩ | ⟨call, t, _, ht, rfl⟩ | ⟨place, t, ht, hdid⟩ := step_cases hstep
  · exact nomatch e
  · refine ⟨⟨h.booked, hids, hlocks, ?_⟩, fun _ he _ => he⟩
    exact List.forall_mem_append.mpr
      ⟨h.holds, List.forall_mem_singleton.mpr (holds_of_opening ht)⟩
  · have hholds := h.holds t (List.mem_of_getElem? ht)
    have hown : t.locked.Nodup := nodup_held ht h.locks
    have hrest : ∀ o ∈ s.opened.eraseIdx place, o.Holds s.committed :=
      fun o ho => h.holds o (List.mem_of_mem_eraseIdx ho)
    obtain rfl | ⟨t', ht', rfl⟩ | ⟨hcommits, rfl⟩ := hdid
    · exact ⟨⟨h.booked, hids, hlocks, hrest⟩, fun _ he _ => he⟩
    · refine ⟨⟨h.booked, hids, hlocks, ?_⟩, fun _ he _ => he⟩
      intro o ho
      obtain ho | rfl := List.mem_or_eq_of_mem_set ho
      · exact h.holds o ho
      · exact holds_of_statement h.booked hown hholds ht'
    · have hdone := commits_iff.mp hcommits
      have hothers := (fun id hid => not_taken ht h.locks hid :
        ∀ id ∈ t.locked, id ∉ [] ∧ ∀ o ∈ s.opened.eraseIdx place, id ∉ o.locked)
      refine ⟨⟨?_, hids, hlocks, ?_⟩, keepsPublished_commit h.booked.ids hholds hdone⟩
      · cases t with
        | producer p => exact h.booked.producer_commit (List.nodup_append.mp hids).1 hholds
        | relay r => exact h.booked.relay_commit hown hholds hdone
      · intro o ho
        exact holds_of_commit h.booked.ids hholds hdone (fun id hid => (hothers id hid).2 o ho)
          (hrest o ho)

theorem relayInvariant_empty : RelayInvariant emptyOutbox where
  booked :=
    ⟨List.nodup_nil, List.Perm.refl _, List.forall_mem_nil _, rfl⟩
  ids := List.nodup_nil
  locks := List.nodup_nil
  holds := List.forall_mem_nil _

/- From any state of a run to any later one. -/
theorem relay_deliveredOnce {earlier later : List (Label Empty Call)}
    (hs : Runs.exec (sessionStep outboxSystem) emptyOutbox earlier = some s)
    (hs' : Runs.exec (sessionStep outboxSystem) s later = some s') :
    DeliveredOnce s'.committed ∧ KeepsPublished s.committed s'.committed := by
  have hinv : RelayInvariant s :=
    Runs.invariant relayInvariant_empty (fun m a n hm hn => (relayInvariant_step hm hn).1) hs
  have hinv' : RelayInvariant s' :=
    Runs.invariant hinv (fun m a n hm hn => (relayInvariant_step hm hn).1) hs'
  refine ⟨hinv'.booked.deliveredOnce, ?_⟩
  refine Runs.relates_of_every (R := fun m n => KeepsPublished m.committed n.committed)
    (C := fun _ _ => True) hinv ?_ ?_ ?_ (fun _ _ _ _ _ _ => trivial) hs'
  · exact fun m e he _ => he
  · intro m n k hmn hnk e he hpublished
    exact hnk e (hmn e he hpublished) hpublished
  · intro m a n hm _ hn
    exact relayInvariant_step hm hn

/-! ### Two relays -/

/-- Two events of one aggregate. -/
def sampleEvents : List IntegrationEvent :=
  [⟨1, "article.ingested".toList, 7, 10, "first".toList⟩,
    ⟨2, "article.version_created".toList, 7, 20, "second".toList⟩]

/-- A relay of one event, its inbox ids counted from `n`. -/
def sampleRelay (n : ℕ) : Label Empty Call :=
  .start (.publishPendingOutboxOnce ⟨30, 1, fun _ => 0, fun i => n + i⟩)

/-- The second relay passes over the event that the first one has locked, and commits. -/
def passedOver : List (Label Empty Call) :=
  .start (.produce sampleEvents) :: List.replicate 3 (.advance 0) ++
    [sampleRelay 100, sampleRelay 200] ++ List.replicate 3 (.advance 0) ++
    List.replicate 7 (.advance 1)

/-- The first relay crashes, and is repeated. -/
def crashedRelay : List (Label Empty Call) :=
  .abort 0 :: sampleRelay 300 :: List.replicate 6 (.advance 0)

theorem crashedRelay_delivered : ∃ s s',
    Runs.exec (sessionStep outboxSystem) emptyOutbox passedOver = some s ∧
      Runs.exec (sessionStep outboxSystem) s crashedRelay = some s' ∧
      s'.committed.counts = [1, 1] ∧ DeliveredOnce s'.committed ∧
      KeepsPublished s.committed s'.committed := by
  have hcounts : ((Runs.exec (sessionStep outboxSystem) emptyOutbox passedOver).bind fun s =>
      (Runs.exec (sessionStep outboxSystem) s crashedRelay).map fun s' => s'.committed.counts) =
        some [1, 1] := by
    decide +kernel
  obtain ⟨s, hs, hlater⟩ := Option.bind_eq_some_iff.mp hcounts
  obtain ⟨s', hs', hsum⟩ := Option.map_eq_some_iff.mp hlater
  exact ⟨s, s', hs, hs', hsum, relay_deliveredOnce hs hs'⟩

end Newsintel.Outbox
