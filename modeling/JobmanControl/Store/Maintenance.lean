import JobmanControl.Authority.Decision
import JobmanControl.Store.Operation

/-!
The maintenance workers. Monitoring events leave the outbox for the feed in batches,
each event under the next position; the feed loses its oldest events once they are
past its retention; completed idempotency records and published outbox rows are
deleted once they are past the retention of their namespace.
-/

namespace JobmanControl

open Relational

/-- `ConfigureMonitoringRetention`, with the duration in nanoseconds. -/
def configureMonitoringRetention (retention : Int) : Tx StoreError Db Unit := fun db => do
  ensure (86400 * 1000000000 ≤ retention ∧ retention ≤ 31536000 * 1000000000 ∧
      retention % 1000000000 = 0)
    (.invalid "monitoring retention must be whole seconds between one and 365 days")
  pure ((), { db with
    feedState := { db.feedState with retentionSeconds := (retention / 1000000000).toNat } })

/-- The payload of a row of topic `monitoring.job_terminal.v1`. -/
def OutboxRow.terminal (row : OutboxRow) : Option TerminalTransition :=
  match row.message with
  | .jobTerminal transition => some transition
  | _ => none

structure PendingEvent where
  id : Id
  namespaceId : Id
  payload : TerminalTransition
  deriving DecidableEq, Repr

def OutboxRow.pending (row : OutboxRow) (id : Id) : Option PendingEvent :=
  if row.publishedAt = none then
    row.terminal.map fun transition => ⟨id, row.namespaceId, transition⟩
  else none

/-- `SELECT … WHERE published_at IS NULL ORDER BY created_at, id LIMIT $1 FOR UPDATE`. -/
def pendingEvents (db : Db) (limit : Nat) : List PendingEvent :=
  ((orderBy (fun a b => a.2.createdAt < b.2.createdAt ||
      (a.2.createdAt = b.2.createdAt && a.1 ≤ b.1))
    (db.outbox.select fun id row => (row.pending id).isSome)).take limit).filterMap
      fun entry => entry.2.pending entry.1

def lastPosition : Nat := 9223372036854775807

def placeMonitoringEvent (publishedAt : Time) (db : Db) (head : Nat) (event : PendingEvent) :
    Except StoreError (Db × Nat) :=
  if db.feed.any fun _ row => row.eventId = event.id then .ok (db, head)
  else do
    ensure (head ≠ lastPosition) (.invalid "monitoring feed position exhausted")
    let feed ← need
      (db.feed.insert? (head + 1) ⟨event.id, event.namespaceId, event.payload, publishedAt⟩)
      (.constraint "monitoring_feed_pkey")
    pure ({ db with feed := feed }, head + 1)

def appendMonitoringEvent (publishedAt : Time) (feed : Db × Nat) (event : PendingEvent) :
    Except StoreError (Db × Nat) := do
  let (db, head) ← placeMonitoringEvent publishedAt feed.1 feed.2 event
  pure ({ db with
    outbox := db.outbox.modify event.id fun row => { row with publishedAt := some publishedAt } },
    head)

def appendMonitoringEvents (now : Time) (pending : List PendingEvent) (db : Db) :
    Except StoreError Db := do
  let publishedAt := max now db.feedState.lastPublishedAt
  let (db, head) ← pending.foldlM (appendMonitoringEvent publishedAt)
    (db, db.feedState.headPosition)
  pure (if pending = [] then db else
    { db with
      feedState := { db.feedState with headPosition := head, lastPublishedAt := publishedAt } })

/-- The claim of `PublishMonitoringEvents`; the lock on the state row is held from here
until the transaction ends. -/
def claimMonitoringEvents (limit : Int) (db : Db) : Except StoreError (List PendingEvent) := do
  ensure (1 ≤ limit ∧ limit ≤ 1000)
    (.invalid "monitoring publication limit must be between one and 1000")
  pure (pendingEvents db limit.toNat)

/-- The largest position of the oldest `limit` rows that is past its retention. -/
def expiredThrough (db : Db) (now : Time) (limit : Nat) : Option Nat :=
  let oldest := (orderBy (fun a b => a.1 ≤ b.1) (db.feed.select fun _ _ => true)).take limit
  ((oldest.filter fun entry =>
    entry.2.publishedAt + db.feedState.retentionSeconds * second < now).map Prod.fst).max?

def pruneMonitoringEvents (now : Time) (limit : Int) : Tx StoreError Db Nat := fun db => do
  ensure (1 ≤ limit ∧ limit ≤ 10000)
    (.invalid "monitoring retention limit must be between one and 10000")
  match expiredThrough db now limit.toNat with
  | none => pure (0, db)
  | some through =>
      let deleted := db.feed.count fun position _ => position ≤ through
      let retired := max db.feedState.retiredThrough through
      ensure (retired ≤ db.feedState.headPosition)
        (.constraint "monitoring_feed_state_retired_through_check")
      pure (deleted, { db with
        feed := db.feed.deleteWhere fun position _ => position ≤ through
        feedState := { db.feedState with retiredThrough := retired } })

/-- The order in which rows with the same time are scanned, which SQL leaves open. -/
structure ScanOrder where
  record : IdempotencyKey → Nat
  outbox : Id → Nat

def expiredRecords (db : Db) (now : Time) (order : ScanOrder) : List IdempotencyKey :=
  (orderBy (fun a b => a.2 < b.2 || (a.2 = b.2 && order.record a.1 ≤ order.record b.1))
    (db.idempotency.entries.filterMap fun entry => do
      let response ← entry.2.response
      let policy ← db.policies.get? entry.1.namespaceId
      guard (response.completedAt + policy.idempotencyRetention < now)
      pure (entry.1, response.completedAt))).map Prod.fst

def expiredOutbox (db : Db) (now : Time) (order : ScanOrder) : List Id :=
  (orderBy (fun a b => a.2 < b.2 || (a.2 = b.2 && order.outbox a.1 ≤ order.outbox b.1))
    (db.outbox.entries.filterMap fun entry => do
      let publishedAt ← entry.2.publishedAt
      let policy ← db.policies.get? entry.2.namespaceId
      guard (publishedAt + policy.publishedOutboxRetention < now)
      pure (entry.1, publishedAt))).map Prod.fst

def pruneOperationalData (now : Time) (order : ScanOrder) (limit : Int) : Tx StoreError Db Nat :=
  fun db => do
    ensure (1 ≤ limit ∧ limit ≤ 10000)
      (.invalid "operational prune limit must be between 1 and 10000")
    let records := (expiredRecords db now order).take limit.toNat
    let db : Db :=
      { db with idempotency := db.idempotency.deleteWhere fun key _ => records.contains key }
    if records.length = limit.toNat then pure (records.length, db)
    else
      let rows := (expiredOutbox db now order).take (limit.toNat - records.length)
      pure (records.length + rows.length,
        { db with outbox := db.outbox.deleteWhere fun id _ => rows.contains id })

end JobmanControl
