import Mathlib.Data.List.Sort
import Newsintel.Basic
import Newsintel.Lib.ReadCommitted
import Newsintel.Lib.Table

/-!
# The outbox relay

`publish_pending_outbox_once`, statement by statement, beside the transactions that add events to
the outbox. A relay locks the rows that it selects, one after the other and without waiting for
those that another relay has locked.
-/

namespace Newsintel.Outbox

open ReadCommitted

/-! ### Tables -/

/-- A row of `outbox_events`: the columns that the relay and the unique indexes look at. -/
structure OutboxEventModel where
  id : Uuid
  eventType : Text
  aggregateId : Uuid
  occurredAt : Timestamp
  idempotencyKey : Text
  publishedAt : Option Timestamp
  deriving DecidableEq

/-- A row of `consumer_inbox`. -/
structure ConsumerInboxModel where
  id : Uuid
  consumerName : Text
  eventId : Uuid
  eventType : Text
  processedAt : Timestamp
  handlerVersion : Text

/-- The committed rows, and the counts that the committed relays have returned. -/
structure OutboxTables where
  outbox : List OutboxEventModel
  inbox : List ConsumerInboxModel
  counts : List ℕ

def consumerName : Text := "local-outbox-relay".toList

def handlerVersion : Text := "local-outbox-relay-v1".toList

/-- What a producer passes to `_add_outbox` or `outbox.add`. -/
structure IntegrationEvent where
  eventId : Uuid
  eventType : Text
  aggregateId : Uuid
  occurredAt : Timestamp
  idempotencyKey : Text

/-- The row of an event that is not published. -/
def IntegrationEvent.row (e : IntegrationEvent) : OutboxEventModel :=
  ⟨e.eventId, e.eventType, e.aggregateId, e.occurredAt, e.idempotencyKey, none⟩

/-! ### Transactions -/

/-- A transaction that adds events, with the rows that it has added. -/
structure Producer where
  events : List IntegrationEvent
  added : List OutboxEventModel

/-- A call of `publish_pending_outbox_once`. -/
structure RelayCall where
  now : Timestamp
  batchSize : ℕ
  /-- the place of a row among those with its `occurred_at` -/
  place : Uuid → ℕ
  /-- the ids of `uuid7`, in the order of the events -/
  inboxId : ℕ → Uuid

inductive RelayStage where
  | begun
  /-- the rows of the snapshot that are not tried yet -/
  | selecting (rows : List OutboxEventModel)
  /-- before the insertion for the first of the events -/
  | inserting (events : List OutboxEventModel)
  /-- before the update of the event -/
  | updating (event : OutboxEventModel) (events : List OutboxEventModel)
  deriving DecidableEq

structure Relay where
  call : RelayCall
  stage : RelayStage
  /-- selected and locked -/
  events : List OutboxEventModel
  handled : List ConsumerInboxModel
  /-- the events that are updated -/
  marked : List Uuid

inductive Transaction where
  | producer (p : Producer)
  | relay (r : Relay)

namespace Transaction

def added : Transaction → List OutboxEventModel
  | producer p => p.added
  | relay _ => []

def locked : Transaction → List Uuid
  | producer _ => []
  | relay r => r.events.map (·.id)

def handled : Transaction → List ConsumerInboxModel
  | producer _ => []
  | relay r => r.handled

/-- The transaction has made all its statements. -/
def Done : Transaction → Prop
  | producer p => p.events = []
  | relay r => r.stage = .inserting []

end Transaction

/-- `INSERT INTO outbox_events ... ON CONFLICT (idempotency_key) DO NOTHING`. -/
def Producer.addOutbox (db : OutboxTables) (others : List Transaction) (event : IntegrationEvent)
    (rest : List IntegrationEvent) (p : Producer) : Outcome Transaction :=
  if (db.outbox ++ p.added).any (·.idempotencyKey = event.idempotencyKey) then
    .continues (.producer { p with events := rest })
  else if others.any fun o => o.added.any (·.idempotencyKey = event.idempotencyKey) then .waits
  else if (db.outbox ++ p.added).any (·.id = event.eventId) then .raises
  else if others.any fun o => o.added.any (·.id = event.eventId) then .waits
  else .continues (.producer { events := rest, added := p.added ++ [event.row] })

namespace Relay

/-- `WHERE published_at IS NULL ORDER BY occurred_at`. -/
def pending (call : RelayCall) (outbox : List OutboxEventModel) : List OutboxEventModel :=
  (outbox.filter (·.publishedAt.isNone)).insertionSort fun a b =>
    a.occurredAt < b.occurredAt ∨ a.occurredAt = b.occurredAt ∧ call.place a.id ≤ call.place b.id

/-- `FOR UPDATE SKIP LOCKED`: a locked row is left out, and so is one that was published since
the snapshot. -/
def lockNext (db : OutboxTables) (others : List Transaction) (row : OutboxEventModel)
    (rows : List OutboxEventModel) (r : Relay) : Relay :=
  if others.any fun o => row.id ∈ o.locked then { r with stage := .selecting rows }
  else match Table.get? (·.id) row.id db.outbox with
    | none => { r with stage := .selecting rows }
    | some current =>
      if current.publishedAt.isNone then
        { r with stage := .selecting rows, events := r.events ++ [current] }
      else { r with stage := .selecting rows }

/-- `LIMIT batch_size`, over the rows that are locked. -/
def select (db : OutboxTables) (others : List Transaction) (r : Relay) :
    List OutboxEventModel → Relay
  | [] => { r with stage := .inserting r.events }
  | row :: rows =>
    if r.call.batchSize ≤ r.events.length then { r with stage := .inserting r.events }
    else r.lockNext db others row rows

/-- The inbox row of an event. -/
def inboxRow (r : Relay) (event : OutboxEventModel) : ConsumerInboxModel where
  id := r.call.inboxId r.marked.length
  consumerName := consumerName
  eventId := event.id
  eventType := event.eventType
  processedAt := r.call.now
  handlerVersion := handlerVersion

/-- Rows that `uq_consumer_inbox_consumer_event` does not tell apart. -/
def sameDelivery (row other : ConsumerInboxModel) : Bool :=
  other.consumerName = row.consumerName && other.eventId = row.eventId

/-- `INSERT INTO consumer_inbox ... ON CONFLICT DO NOTHING`. -/
def insertInbox (db : OutboxTables) (others : List Transaction) (event : OutboxEventModel)
    (events : List OutboxEventModel) (r : Relay) : Outcome Transaction :=
  let row := r.inboxRow event
  if (db.inbox ++ r.handled).any (sameDelivery row) then
    .continues (.relay { r with stage := .updating event events })
  else if others.any fun o => o.handled.any (sameDelivery row) then .waits
  else if (db.inbox ++ r.handled).any (·.id = row.id) then .raises
  else if others.any fun o => o.handled.any (·.id = row.id) then .waits
  else .continues
    (.relay { r with stage := .updating event events, handled := r.handled ++ [row] })

/-- `UPDATE outbox_events SET published_at = now`. -/
def updateEvent (others : List Transaction) (event : OutboxEventModel)
    (events : List OutboxEventModel) (r : Relay) : Outcome Transaction :=
  if others.any fun o => event.id ∈ o.locked then .waits
  else .continues
    (.relay { r with stage := .inserting events, marked := r.marked ++ [event.id] })

/-- The next statement of a relay. -/
def statement (db : OutboxTables) (others : List Transaction) (r : Relay) : Outcome Transaction :=
  match r.stage with
  | .begun => .continues (.relay { r with stage := .selecting (pending r.call db.outbox) })
  | .selecting rows => .continues (.relay (r.select db others rows))
  | .inserting (event :: events) => r.insertInbox db others event events
  | .inserting [] => .commits
  | .updating event events => r.updateEvent others event events

/-- The update of a relay, on a row. -/
def mark (r : Relay) (e : OutboxEventModel) : OutboxEventModel :=
  if e.id ∈ r.marked then { e with publishedAt := some r.call.now } else e

def commit (r : Relay) (db : OutboxTables) : OutboxTables where
  outbox := db.outbox.map r.mark
  inbox := db.inbox ++ r.handled
  counts := db.counts ++ [r.events.length]

end Relay

/-! ### The system -/

/-- A call that opens a transaction. -/
inductive Call where
  | produce (events : List IntegrationEvent)
  | publishPendingOutboxOnce (call : RelayCall)

namespace Transaction

def opening : Call → Option Transaction
  | .produce events => some (producer ⟨events, []⟩)
  | .publishPendingOutboxOnce call => some (relay ⟨call, .begun, [], [], []⟩)

def statement (db : OutboxTables) (others : List Transaction) :
    Transaction → Outcome Transaction
  | producer p =>
    match p.events with
    | [] => .commits
    | event :: rest => p.addOutbox db others event rest
  | relay r => r.statement db others

def commit : Transaction → OutboxTables → OutboxTables
  | producer p, db => { db with outbox := db.outbox ++ p.added }
  | relay r, db => r.commit db

end Transaction

/-- Producers and relays. A crash is the abort of a transaction. -/
def outboxSystem : System OutboxTables Transaction Empty Call where
  opening := Transaction.opening
  other := nofun
  statement := Transaction.statement
  commit := Transaction.commit

/-- Nothing has been added. -/
def emptyOutbox : State OutboxTables Transaction := ⟨⟨[], [], []⟩, []⟩

end Newsintel.Outbox
