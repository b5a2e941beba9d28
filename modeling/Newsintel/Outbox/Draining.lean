import Newsintel.Outbox.PublicationOrder

/-!
# The outbox is drained

What `publish_pending_outbox_once` does when no other transaction is open: it publishes the oldest
events, as one assignment. From any reachable state, however many transactions have crashed, calls
one after the other publish what is pending, the oldest first.
-/

namespace Newsintel.Outbox

open ReadCommitted

/-! ### A call as one assignment -/

/-- The events that a call takes when nobody holds any. -/
def oldest (call : RelayCall) (db : OutboxTables) : List OutboxEventModel :=
  (Relay.pending call db.outbox).take call.batchSize

def delivery (call : RelayCall) (number : ℕ) (event : OutboxEventModel) : ConsumerInboxModel where
  id := call.inboxId number
  consumerName := consumerName
  eventId := event.id
  eventType := event.eventType
  processedAt := call.now
  handlerVersion := handlerVersion

/-- The inbox rows of events, the first of them with this number. -/
def deliveries (call : RelayCall) (number : ℕ) (events : List OutboxEventModel) :
    List ConsumerInboxModel :=
  (events.zipIdx number).map fun p => delivery call p.2 p.1

def publishOldest (call : RelayCall) (db : OutboxTables) : OutboxTables where
  outbox := Table.updateWhere (fun e => decide (e ∈ oldest call db))
    (fun e => { e with publishedAt := some call.now }) db.outbox
  inbox := db.inbox ++ deliveries call 0 (oldest call db)
  counts := db.counts ++ [(oldest call db).length]

/-- `uuid7` draws no id that is in the inbox, and none twice. -/
structure DrawsFresh (db : OutboxTables) (calls : List RelayCall) : Prop where
  unused : ∀ call ∈ calls, ∀ n, call.inboxId n ∉ db.inbox.map (·.id)
  once : ∀ call ∈ calls, Function.Injective call.inboxId
  apart : calls.Pairwise fun call call' => ∀ n n', call.inboxId n ≠ call'.inboxId n'

def pendingCount (db : OutboxTables) : ℕ := db.outbox.countP (·.publishedAt.isNone)

/-- What calls return that find this many pending events. -/
def batches : ℕ → List RelayCall → List ℕ
  | _, [] => []
  | pending, call :: calls =>
    min call.batchSize pending :: batches (pending - call.batchSize) calls

/-- What calls one after the other come to. -/
structure Drains (calls : List RelayCall) (db db' : OutboxTables) : Prop where
  ids : db'.outbox.map (·.id) = db.outbox.map (·.id)
  left : pendingCount db' = pendingCount db - (calls.map (·.batchSize)).sum
  waiting : ∀ e ∈ db'.outbox, e.publishedAt = none → e ∈ db.outbox
  oldestFirst : ∀ e ∈ db'.outbox, ∀ e' ∈ db'.outbox, e.publishedAt.isSome = true →
    e'.publishedAt = none → e ∈ db.outbox ∨ e.occurredAt ≤ e'.occurredAt
  kept : KeepsPublished db db'
  counts : db'.counts = db.counts ++ batches (pendingCount db) calls

variable {db : OutboxTables} {call : RelayCall} {r : Relay} {e : OutboxEventModel}
  {events rows : List OutboxEventModel} {d' : OutboxTables}

/-! ### Deliveries -/

theorem deliveries_append (call : RelayCall) (number : ℕ) (events rows : List OutboxEventModel) :
    deliveries call number (events ++ rows) =
      deliveries call number events ++ deliveries call (number + events.length) rows := by
  rw [deliveries, List.zipIdx_append, List.map_append]
  rfl

theorem deliveries_eventId (call : RelayCall) (number : ℕ) (events : List OutboxEventModel) :
    (deliveries call number events).map (·.eventId) = events.map (·.id) := by
  rw [deliveries, List.map_map]
  induction events generalizing number with
  | nil => rfl
  | cons event events ih =>
    rw [List.zipIdx_cons, List.map_cons, List.map_cons, ih]
    rfl

theorem deliveries_id {number : ℕ} {row : ConsumerInboxModel}
    (h : row ∈ deliveries call number events) :
    ∃ n, n < number + events.length ∧ row.id = call.inboxId n := by
  obtain ⟨⟨event, n⟩, hmem, rfl⟩ := List.mem_map.mp h
  obtain ⟨_, hlt, _⟩ := List.mem_zipIdx hmem
  exact ⟨n, hlt, rfl⟩

/-! ### The pending rows -/

theorem pending_perm (call : RelayCall) (outbox : List OutboxEventModel) :
    (Relay.pending call outbox).Perm (outbox.filter (·.publishedAt.isNone)) :=
  List.perm_insertionSort _ _

theorem mem_pending {outbox : List OutboxEventModel} :
    e ∈ Relay.pending call outbox ↔ e ∈ outbox ∧ e.publishedAt = none := by
  rw [(pending_perm call outbox).mem_iff, List.mem_filter, Option.isNone_iff_eq_none]

theorem pending_ids (h : (db.outbox.map (·.id)).Nodup) :
    ((Relay.pending call db.outbox).map (·.id)).Nodup :=
  ((pending_perm call db.outbox).map _).nodup_iff.mpr (h.sublist (List.filter_sublist.map _))

theorem pending_sorted (call : RelayCall) (outbox : List OutboxEventModel) :
    (Relay.pending call outbox).Pairwise fun e e' => e.occurredAt ≤ e'.occurredAt := by
  have htotal : Std.Total fun a b : OutboxEventModel =>
      a.occurredAt < b.occurredAt ∨ a.occurredAt = b.occurredAt ∧ call.place a.id ≤
        call.place b.id := by
    constructor
    intro a b
    obtain hlt | heq | hgt := lt_trichotomy a.occurredAt b.occurredAt
    · exact Or.inl (Or.inl hlt)
    · obtain hle | hle := Nat.le_total (call.place a.id) (call.place b.id)
      · exact Or.inl (Or.inr ⟨heq, hle⟩)
      · exact Or.inr (Or.inr ⟨heq.symm, hle⟩)
    · exact Or.inr (Or.inl hgt)
  have htrans : IsTrans OutboxEventModel fun a b =>
      a.occurredAt < b.occurredAt ∨ a.occurredAt = b.occurredAt ∧ call.place a.id ≤
        call.place b.id := by
    constructor
    rintro a b c (hab | ⟨hab, hle⟩) (hbc | ⟨hbc, hle'⟩)
    · exact Or.inl (hab.trans hbc)
    · exact Or.inl (hbc ▸ hab)
    · exact Or.inl (hab ▸ hbc)
    · exact Or.inr ⟨hab.trans hbc, hle.trans hle'⟩
  refine (List.pairwise_insertionSort _ _).imp ?_
  rintro a b (hlt | ⟨hsame, _⟩)
  · exact Int.le_of_lt hlt
  · exact Int.le_of_eq hsame

theorem mem_oldest (h : e ∈ oldest call db) : e ∈ db.outbox ∧ e.publishedAt = none :=
  mem_pending.mp (List.mem_of_mem_take h)

/-! ### One call, statement by statement -/

theorem lockNext_alone {row : OutboxEventModel} (hids : (db.outbox.map (·.id)).Nodup)
    (hrow : row ∈ db.outbox) (hpending : row.publishedAt = none) :
    r.lockNext db [] row rows =
      { r with stage := .selecting rows, events := r.events ++ [row] } := by
  have hget : Table.get? (·.id) row.id db.outbox = some row := Table.get?_of_mem hids hrow rfl
  unfold Relay.lockNext
  rw [List.any_nil, if_neg Bool.false_ne_true, hget]
  exact if_pos (Option.isNone_iff_eq_none.mpr hpending)

theorem statement_selecting (hstage : r.stage = .selecting rows) :
    outboxSystem.statement db [] (.relay r) = .continues (.relay (r.select db [] rows)) := by
  simp only [outboxSystem, Transaction.statement, Relay.statement, hstage]

/- The selection takes the first rows that fit into the batch. -/
theorem alone_selecting (hids : (db.outbox.map (·.id)).Nodup)
    (hstage : r.stage = .selecting rows)
    (hrows : ∀ row ∈ rows, row ∈ db.outbox ∧ row.publishedAt = none)
    (hrest : ∀ taken, taken = r.events ++ rows.take (r.call.batchSize - r.events.length) →
      Alone outboxSystem db (.relay { r with stage := .inserting taken, events := taken }) d') :
    Alone outboxSystem db (.relay r) d' := by
  induction rows generalizing r with
  | nil =>
    refine .continues (statement_selecting hstage) (hrest r.events ?_)
    rw [List.take_nil, List.append_nil]
  | cons row rows ih =>
    have hselect : outboxSystem.statement db [] (.relay r) =
        .continues (.relay (r.select db [] (row :: rows))) := statement_selecting hstage
    rw [Relay.select] at hselect
    split at hselect
    · rename_i hfull
      refine .continues hselect (hrest r.events ?_)
      rw [Nat.sub_eq_zero_of_le hfull, List.take_zero, List.append_nil]
    · rename_i hroom
      obtain ⟨⟨hrow, hpending⟩, hrows⟩ := List.forall_mem_cons.mp hrows
      rw [lockNext_alone hids hrow hpending] at hselect
      refine .continues hselect (ih rfl hrows ?_)
      rintro taken rfl
      refine hrest _ ?_
      have hleft : r.call.batchSize - r.events.length =
          r.call.batchSize - (r.events.length + 1) + 1 := by omega
      rw [hleft, List.take_succ_cons, List.length_append, List.length_singleton,
        List.append_assoc, List.singleton_append]

/- Each event gets its inbox row and its mark. -/
theorem alone_inserting (hdb : Booked db) (hunused : ∀ n, call.inboxId n ∉ db.inbox.map (·.id))
    (honce : Function.Injective call.inboxId) {taken done : List OutboxEventModel}
    (htaken : ∀ e ∈ taken, e ∈ db.outbox ∧ e.publishedAt = none)
    (hids : (taken.map (·.id)).Nodup) (hsplit : taken = done ++ events) :
    Alone outboxSystem db
      (.relay ⟨call, .inserting events, taken, deliveries call 0 done, done.map (·.id)⟩)
      (Relay.commit ⟨call, .inserting [], taken, deliveries call 0 taken, taken.map (·.id)⟩ db) := by
  induction events generalizing done with
  | nil =>
    obtain rfl : taken = done := by rw [hsplit, List.append_nil]
    exact .commits rfl
  | cons event events ih =>
    have hmem : event ∈ taken := hsplit ▸ List.mem_append_right _ List.mem_cons_self
    obtain ⟨hadded, hpending⟩ := htaken event hmem
    have hinbox : event.id ∉ db.inbox.map (·.eventId) := by
      rw [← hdb.published_iff hadded, hpending]
      exact Bool.false_ne_true
    have hdone : event.id ∉ done.map (·.id) := by
      rw [hsplit, List.map_append, List.map_cons] at hids
      exact fun hmem => (List.nodup_append.mp hids).2.2 _ hmem _ List.mem_cons_self rfl
    have hfree : (db.inbox ++ deliveries call 0 done).any
        (Relay.sameDelivery (delivery call done.length event)) = false := by
      refine List.any_eq_false.mpr fun row hrow hsame => ?_
      rw [Relay.sameDelivery, Bool.and_eq_true] at hsame
      have hevent : row.eventId = event.id := of_decide_eq_true hsame.2
      obtain hrow | hrow := List.mem_append.mp hrow
      · exact hinbox (hevent ▸ List.mem_map_of_mem hrow)
      · refine hdone ?_
        rw [← deliveries_eventId call 0, ← hevent]
        exact List.mem_map_of_mem hrow
    have hnew : (db.inbox ++ deliveries call 0 done).any
        (·.id = (delivery call done.length event).id) = false := by
      refine List.any_eq_false.mpr fun row hrow hsame => ?_
      have hid : row.id = call.inboxId done.length := of_decide_eq_true hsame
      obtain hrow | hrow := List.mem_append.mp hrow
      · exact hunused done.length (hid ▸ List.mem_map_of_mem hrow)
      · obtain ⟨n, hlt, hn⟩ := deliveries_id hrow
        have hsame := honce (hn.symm.trans hid)
        omega
    have hinsert : outboxSystem.statement db [] (.relay ⟨call, .inserting (event :: events), taken,
        deliveries call 0 done, done.map (·.id)⟩) =
      .continues (.relay ⟨call, .updating event events, taken,
        deliveries call 0 (done ++ [event]), done.map (·.id)⟩) := by
      have hrow : Relay.inboxRow ⟨call, .inserting (event :: events), taken,
          deliveries call 0 done, done.map (·.id)⟩ event = delivery call done.length event := by
        rw [Relay.inboxRow, List.length_map]
        rfl
      simp only [outboxSystem, Transaction.statement, Relay.statement, Relay.insertInbox, hrow,
        hfree, hnew, List.any_nil, Bool.false_eq_true, if_false, deliveries_append, Nat.zero_add]
      rfl
    have hupdate : outboxSystem.statement db [] (.relay ⟨call, .updating event events, taken,
        deliveries call 0 (done ++ [event]), done.map (·.id)⟩) =
      .continues (.relay ⟨call, .inserting events, taken, deliveries call 0 (done ++ [event]),
        (done ++ [event]).map (·.id)⟩) := by
      simp only [outboxSystem, Transaction.statement, Relay.statement, Relay.updateEvent,
        List.any_nil, Bool.false_eq_true, if_false, List.map_append, List.map_singleton]
    refine .continues hinsert (.continues hupdate (ih ?_))
    rw [List.append_assoc, List.singleton_append]
    exact hsplit

/- A relay that nobody disturbs is the assignment. -/
theorem alone_publishOldest (hdb : Booked db) (hunused : ∀ n, call.inboxId n ∉ db.inbox.map (·.id))
    (honce : Function.Injective call.inboxId) :
    Alone outboxSystem db (.relay ⟨call, .begun, [], [], []⟩) (publishOldest call db) := by
  have hcommit : Relay.commit ⟨call, .inserting [], oldest call db,
      deliveries call 0 (oldest call db), (oldest call db).map (·.id)⟩ db =
        publishOldest call db := by
    rw [Relay.commit, publishOldest, OutboxTables.mk.injEq]
    refine ⟨?_, rfl, rfl⟩
    refine List.map_congr_left fun e he => ?_
    have hmem : e.id ∈ (oldest call db).map (·.id) ↔ e ∈ oldest call db := by
      constructor
      · intro hid
        obtain ⟨e', he', hid⟩ := List.mem_map.mp hid
        rw [← List.inj_on_of_nodup_map hdb.ids (mem_oldest he').1 he hid]
        exact he'
      · exact List.mem_map_of_mem
    simp only [Relay.mark, hmem, decide_eq_true_eq]
  refine .continues rfl (alone_selecting hdb.ids rfl (fun row hrow => mem_pending.mp hrow) ?_)
  intro taken htaken
  rw [List.nil_append, List.length_nil, Nat.sub_zero] at htaken
  obtain rfl : taken = oldest call db := htaken
  rw [← hcommit]
  refine alone_inserting hdb hunused honce (fun e he => mem_oldest he) ?_ (List.nil_append _).symm
  exact (pending_ids hdb.ids).sublist ((List.take_sublist _ _).map _)

/-! ### What the assignment does -/

theorem filter_not_mem_left {taken left : List OutboxEventModel} (h : (taken ++ left).Nodup) :
    (taken ++ left).filter (fun e => !decide (e ∈ taken)) = left := by
  have htaken : taken.filter (fun e => !decide (e ∈ taken)) = [] :=
    List.filter_eq_nil_iff.mpr fun e he => by simp [he]
  have hleft : left.filter (fun e => !decide (e ∈ taken)) = left := by
    refine List.filter_eq_self.mpr fun e he => ?_
    have hnot : e ∉ taken := fun htaken => (List.nodup_append.mp h).2.2 e htaken e he rfl
    rw [decide_eq_false hnot, Bool.not_false]
  rw [List.filter_append, htaken, hleft, List.nil_append]

/- What stays pending is what does not fit into the batch. -/
theorem publishOldest_pending (hids : (db.outbox.map (·.id)).Nodup) :
    ((publishOldest call db).outbox.filter (·.publishedAt.isNone)).Perm
      ((Relay.pending call db.outbox).drop call.batchSize) := by
  have hfilter : (publishOldest call db).outbox.filter (·.publishedAt.isNone) =
      (db.outbox.filter (·.publishedAt.isNone)).filter
        fun e => !decide (e ∈ oldest call db) :=
    Table.filter_updateWhere fun _ => rfl
  have hsplit : oldest call db ++ (Relay.pending call db.outbox).drop call.batchSize =
      Relay.pending call db.outbox := List.take_append_drop _ _
  have hnodup : (Relay.pending call db.outbox).Nodup := (pending_ids hids).of_map _
  rw [← hsplit] at hnodup
  have hleft := filter_not_mem_left hnodup
  rw [hsplit] at hleft
  rw [hfilter, ← hleft]
  exact ((pending_perm call db.outbox).symm.filter _)

theorem pendingCount_eq (call : RelayCall) (db : OutboxTables) :
    pendingCount db = (Relay.pending call db.outbox).length := by
  rw [pendingCount, List.countP_eq_length_filter, (pending_perm call db.outbox).length_eq]

theorem publishOldest_drains (hids : (db.outbox.map (·.id)).Nodup) :
    Drains [call] db (publishOldest call db) where
  ids := Table.map_updateWhere fun _ => rfl
  left := by
    rw [pendingCount, List.countP_eq_length_filter, (publishOldest_pending hids).length_eq,
      List.length_drop, ← pendingCount_eq, List.map_singleton, List.sum_singleton]
  waiting := by
    intro e he hpending
    obtain ⟨q, _, _, rfl⟩ | ⟨he, _⟩ := Table.mem_updateWhere he
    · cases hpending
    · exact he
  oldestFirst := by
    intro e he e' he' _ hpending
    obtain ⟨q, _, hq, rfl⟩ | ⟨he, _⟩ := Table.mem_updateWhere he
    · have hleft : e' ∈ (Relay.pending call db.outbox).drop call.batchSize := by
        rw [← (publishOldest_pending hids).mem_iff, List.mem_filter]
        exact ⟨he', Option.isNone_iff_eq_none.mpr hpending⟩
      have hsorted := pending_sorted call db.outbox
      rw [← List.take_append_drop call.batchSize (Relay.pending call db.outbox)] at hsorted
      exact Or.inr ((List.pairwise_append.mp hsorted).2.2 q (of_decide_eq_true hq) e' hleft)
    · exact Or.inl he
  kept := by
    intro e he hpublished
    have hnot : e ∉ oldest call db := by
      intro hmem
      rw [(mem_oldest hmem).2] at hpublished
      contradiction
    exact List.mem_map.mpr ⟨e, he, if_neg (by simpa using hnot)⟩
  counts := by
    rw [publishOldest, oldest, List.length_take, ← pendingCount_eq]
    rfl

theorem Drains.refl (db : OutboxTables) : Drains [] db db where
  ids := rfl
  left := rfl
  waiting := fun _ he _ => he
  oldestFirst := fun _ he _ _ _ _ => Or.inl he
  kept := fun _ he _ => he
  counts := (List.append_nil _).symm

theorem Drains.cons {calls : List RelayCall} {db₁ db₂ : OutboxTables} (h : Drains [call] db db₁)
    (hrest : Drains calls db₁ db₂) : Drains (call :: calls) db db₂ where
  ids := hrest.ids.trans h.ids
  left := by
    have hfirst := h.left
    rw [List.map_singleton, List.sum_singleton] at hfirst
    rw [hrest.left, hfirst, List.map_cons, List.sum_cons]
    omega
  waiting := fun e he hpending => h.waiting e (hrest.waiting e he hpending) hpending
  oldestFirst := by
    intro e he e' he' hpublished hpending
    obtain hbefore | hle := hrest.oldestFirst e he e' he' hpublished hpending
    · exact h.oldestFirst e hbefore e' (hrest.waiting e' he' hpending) hpublished hpending
    · exact Or.inr hle
  kept := fun e he hpublished => hrest.kept e (h.kept e he hpublished) hpublished
  counts := by
    have hfirst := h.left
    rw [List.map_singleton, List.sum_singleton] at hfirst
    rw [hrest.counts, h.counts, hfirst, List.append_assoc]
    rfl

/-! ### Calls one after the other -/

/-- The labels of calls, each with its number of statements. -/
def inTurn (turns : List (RelayCall × ℕ)) : List (Label Empty Call) :=
  turns.flatMap fun p => .start (.publishPendingOutboxOnce p.1) :: List.replicate p.2 (.advance 0)

theorem relayInvariant_run {labels : List (Label Empty Call)} {s s' : State OutboxTables Transaction}
    (hs : RelayInvariant s) (h : Runs.exec (sessionStep outboxSystem) s labels = some s') :
    RelayInvariant s' :=
  Runs.invariant hs (fun _ _ _ hm hstep => (relayInvariant_step hm hstep).1) h

theorem DrawsFresh.tail {calls : List RelayCall} (h : DrawsFresh db (call :: calls)) :
    DrawsFresh (publishOldest call db) calls := by
  obtain ⟨hapart, hrest⟩ := List.pairwise_cons.mp h.apart
  refine ⟨?_, fun c hc => h.once c (List.mem_cons_of_mem _ hc), hrest⟩
  intro c hc n hmem
  rw [publishOldest, List.map_append] at hmem
  obtain hmem | hmem := List.mem_append.mp hmem
  · exact h.unused c (List.mem_cons_of_mem _ hc) n hmem
  · obtain ⟨row, hrow, hid⟩ := List.mem_map.mp hmem
    obtain ⟨k, _, hk⟩ := deliveries_id hrow
    exact hapart c hc k n (hk.symm.trans hid)

theorem exec_inTurn (calls : List RelayCall) (h : RelayInvariant ⟨db, []⟩)
    (hfresh : DrawsFresh db calls) :
    ∃ turns db', turns.map Prod.fst = calls ∧
      Runs.exec (sessionStep outboxSystem) ⟨db, []⟩ (inTurn turns) = some ⟨db', []⟩ ∧
      Drains calls db db' := by
  induction calls generalizing db with
  | nil => exact ⟨[], db, rfl, rfl, Drains.refl db⟩
  | cons call calls ih =>
    have halone := alone_publishOldest h.booked (hfresh.unused call List.mem_cons_self)
      (hfresh.once call List.mem_cons_self)
    have hopening : outboxSystem.opening (.publishPendingOutboxOnce call) =
        some (.relay ⟨call, .begun, [], [], []⟩) := rfl
    obtain ⟨n, hcall⟩ := exec_call_of_alone hopening halone
    obtain ⟨turns, db', hturns, hrest, hdrains⟩ := ih (relayInvariant_run h hcall) hfresh.tail
    refine ⟨(call, n) :: turns, db', by rw [List.map_cons, hturns], ?_,
      (publishOldest_drains h.booked.ids).cons hdrains⟩
    rw [inTurn, List.flatMap_cons]
    exact Runs.exec_append_some.mpr ⟨_, hcall, hrest⟩

/- From any reachable state the outbox can be drained, and then each event is delivered once. -/
theorem relay_drains {labels : List (Label Empty Call)} {s : State OutboxTables Transaction}
    (h : Runs.exec (sessionStep outboxSystem) emptyOutbox labels = some s) (calls : List RelayCall)
    (hfresh : DrawsFresh s.committed calls) :
    ∃ turns db', turns.map Prod.fst = calls ∧
      Runs.exec (sessionStep outboxSystem) s
        (List.replicate s.opened.length (.abort 0) ++ inTurn turns) = some ⟨db', []⟩ ∧
      Drains calls s.committed db' ∧
      (pendingCount s.committed ≤ (calls.map (·.batchSize)).sum →
        ∀ e ∈ db'.outbox, e.publishedAt.isSome = true ∧
          db'.inbox.countP (delivers e.id) = 1) := by
  have hcrashed := exec_aborts (S := outboxSystem) s
  have hs := relayInvariant_run (relayInvariant_run relayInvariant_empty h) hcrashed
  obtain ⟨turns, db', hturns, hrun, hdrains⟩ := exec_inTurn calls hs hfresh
  refine ⟨turns, db', hturns, Runs.exec_append_some.mpr ⟨_, hcrashed, hrun⟩, hdrains, ?_⟩
  intro henough e he
  have hnone : pendingCount db' = 0 := by
    rw [hdrains.left, Nat.sub_eq_zero_of_le henough]
  have hpublished : e.publishedAt.isSome = true := by
    have hnot := List.countP_eq_zero.mp hnone e he
    cases hpublished : e.publishedAt with
    | none => exact absurd (by rw [hpublished]; rfl) hnot
    | some time => rfl
  exact ⟨hpublished, ((relayInvariant_run hs hrun).booked.deliveredOnce.publishedIff e he).mp
    hpublished⟩

/-- The call after the crash. -/
def retriedCall : RelayCall := ⟨40, 5, fun _ => 0, fun i => 300 + i⟩

/- A relay has crashed with an event that another one has passed over. -/
theorem passedOver_drains : ∃ s turns db',
    Runs.exec (sessionStep outboxSystem) emptyOutbox passedOver = some s ∧
      s.opened.length = 1 ∧ pendingCount s.committed = 1 ∧ turns.map Prod.fst = [retriedCall] ∧
      Runs.exec (sessionStep outboxSystem) s
        (List.replicate s.opened.length (.abort 0) ++ inTurn turns) = some ⟨db', []⟩ ∧
      Drains [retriedCall] s.committed db' ∧
      ∀ e ∈ db'.outbox, e.publishedAt.isSome = true ∧
        db'.inbox.countP (delivers e.id) = 1 := by
  have hlast : (Runs.exec (sessionStep outboxSystem) emptyOutbox passedOver).map (fun s =>
      (s.opened.length, pendingCount s.committed, s.committed.inbox.map (·.id))) =
        some (1, 1, [200]) := by
    decide +kernel
  obtain ⟨s, hs, hrows⟩ := Option.map_eq_some_iff.mp hlast
  simp only [Prod.mk.injEq] at hrows
  obtain ⟨hopened, hpending, hinbox⟩ := hrows
  have hfresh : DrawsFresh s.committed [retriedCall] := by
    refine ⟨?_, ?_, List.pairwise_singleton _ _⟩
    · refine List.forall_mem_singleton.mpr fun n hmem => ?_
      rw [hinbox, List.mem_singleton] at hmem
      have hid : 300 + n = 200 := hmem
      omega
    · exact List.forall_mem_singleton.mpr fun n n' hsame => Nat.add_left_cancel hsame
  obtain ⟨turns, db', hturns, hrun, hdrains, hall⟩ := relay_drains hs [retriedCall] hfresh
  refine ⟨s, turns, db', hs, hopened, hpending, hturns, hrun, hdrains, hall ?_⟩
  rw [hpending]
  decide

end Newsintel.Outbox
